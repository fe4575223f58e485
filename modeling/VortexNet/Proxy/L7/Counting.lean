import VortexNet.Proxy.L7.LinkLaws

/-!
# What a client's parser has counted

One parser counts the bodies of a client's requests and of the responses to
them. `Sane` holds of it in every state of every run: outside of a body nothing
is left of the last one, and in the body of a request a part is still missing.
-/

namespace VortexNet.L7

open Picohttpparser
open Systems (Reach Always)

variable {p p' : HttpParser} {buf buf' : Bytes} {n : Nat}

structure Counting (p : HttpParser) : Prop where
  chunked : p.isResponseChunked = false
  read_lt : p.body_bytes_read_ < p.content_length_
  length_lt : p.content_length_ < 2 ^ 64

structure Rested (p : HttpParser) : Prop where
  read : p.body_bytes_read_ = 0
  chunked : p.isResponseChunked = false
  length : p.content_length_ = 0

structure Sane (p : HttpParser) : Prop where
  rested : p.isExpectingBody = false → Rested p
  counting : p.isExpectingBody = true → p.isRequest = true → Counting p

def Counted (p : HttpParser) : Prop := p.gotAll = true ∨ p.isExpectingBody = true ∧ Sane p

-- ---------------------------------------------------------------------------
-- Bodies
-- ---------------------------------------------------------------------------

theorem Counting.bytesRemaining (h : Counting p) :
    p.bytesRemaining = p.content_length_ - p.body_bytes_read_ :=
  Buffer.szSub_eq (Nat.le_of_lt h.read_lt) h.length_lt

theorem Rested.bytesRemaining (h : Rested p) : p.bytesRemaining = 0 := by
  rw [HttpParser.bytesRemaining, h.read, h.length]
  rfl

theorem Counting.consumeBody (h : Counting p) (buf : Bytes) (hn : n ≤ p.bytesRemaining) :
    (p.consumeBody buf n).1.gotAll = true ∧ n = p.bytesRemaining ∨
      Counting (p.consumeBody buf n).1 ∧ n < p.bytesRemaining := by
  have hrem := h.bytesRemaining
  obtain ⟨hc, hr, hl⟩ := h
  have hadd : szAdd p.body_bytes_read_ n = p.body_bytes_read_ + n := Buffer.szAdd_eq (by omega)
  simp only [HttpParser.consumeBody, hadd, HttpParser.gotAll]
  by_cases hfull : p.content_length_ ≤ p.body_bytes_read_ + n
  · exact .inl ⟨by simp [hfull], by omega⟩
  · exact .inr ⟨⟨hc, by simp only; omega, hl⟩, by omega⟩

theorem sane_reset (p : HttpParser) : Sane p.reset :=
  ⟨fun _ => ⟨rfl, rfl, rfl⟩, fun h => (by cases h)⟩

theorem Sane.response (h : p.isRequest = false) (he : p.isExpectingBody = true) : Sane p :=
  ⟨fun h' => Bool.noConfusion (he.symm.trans h'), fun _ h' => Bool.noConfusion (h.symm.trans h')⟩

theorem Sane.inRequest (h : Counting p) (he : p.isExpectingBody = true) : Sane p :=
  ⟨fun h' => Bool.noConfusion (he.symm.trans h'), fun _ _ => h⟩

theorem Counted.consumeBody (h : Counted p) (buf : Bytes) (hn : n ≤ p.bytesRemaining) :
    Counted (p.consumeBody buf n).1 := by
  by_cases hfull : p.content_length_ ≤ szAdd p.body_bytes_read_ n
  · exact .inl (by simp [HttpParser.consumeBody, HttpParser.gotAll, hfull])
  have hstate : (p.consumeBody buf n).1.state_ = p.state_ := if_neg hfull
  rcases h with hg | ⟨he, hs⟩
  · refine .inl ?_
    rwa [HttpParser.gotAll, hstate]
  · have he' : (p.consumeBody buf n).1.isExpectingBody = true := by
      rwa [HttpParser.isExpectingBody, hstate]
    refine .inr ⟨he', ?_⟩
    cases hq : p.isRequest with
    | false => exact .response hq he'
    | true =>
      rcases (hs.counting he hq).consumeBody buf hn with ⟨hg, -⟩ | ⟨hc, -⟩
      · rw [HttpParser.gotAll, hstate, decide_eq_true_eq] at hg
        rw [HttpParser.isExpectingBody, hg] at he
        cases he
      · exact .inRequest hc he'

-- ---------------------------------------------------------------------------
-- Heads
-- ---------------------------------------------------------------------------

theorem requestField_lt (headers : List phr_header) (f : HttpParser.Framing)
    (hf : f.content_length < 2 ^ 64) (hb : f.has_body = true → 0 < f.content_length) :
    (headers.foldl HttpParser.requestField f).content_length < 2 ^ 64 ∧
      ((headers.foldl HttpParser.requestField f).has_body = true →
        0 < (headers.foldl HttpParser.requestField f).content_length) := by
  induction headers generalizing f with
  | nil => exact ⟨hf, hb⟩
  | cons h headers ih =>
    refine ih _ ?_ ?_
    · unfold HttpParser.requestField
      split
      · exact HttpParser.from_chars_lt _ hf
      · exact hf
    · unfold HttpParser.requestField
      split
      · exact of_decide_eq_true
      · exact hb

theorem Sane.parseRequest (h : Sane p) (he : p.isExpectingBody = false)
    (hp : p.parseRequest buf = (parsed, p', buf')) :
    Sane p' ∧ (parsed = true → Counted p') := by
  obtain ⟨hread, hchunked, hlength⟩ := h.rested he
  cases parsed with
  | false =>
    obtain ⟨-, rfl⟩ := HttpParser.parseRequest_unparsed hp
    refine ⟨⟨fun _ => ⟨hread, hchunked, hlength⟩, fun h' => ?_⟩, fun h' => (by cases h')⟩
    exact Bool.noConfusion (he.symm.trans h')
  | true =>
    obtain ⟨head, len, rfl⟩ := HttpParser.requestParsed_of_parseRequest hp
    obtain ⟨hlt, hpos⟩ := requestField_lt head.headers {} (by decide) (fun h => (by cases h))
    unfold HttpParser.requestParsed
    dsimp only
    split
    · rename_i hbody
      suffices hc : Counting _ from ⟨.inRequest hc rfl, fun _ => .inr ⟨rfl, .inRequest hc rfl⟩⟩
      exact ⟨hchunked, hread.trans_lt (hpos hbody), hlt⟩
    · exact ⟨⟨fun _ => ⟨hread, hchunked, hlength⟩, fun h' => (by cases h')⟩, fun _ => .inl rfl⟩

theorem counted_parseResponse (hp : p.parseResponse buf = (true, p')) : Counted p' := by
  obtain ⟨hq, hm, -⟩ := Link.parsed_inMessage hp
  rcases hm with he | hg
  · exact .inr ⟨he, .response hq he⟩
  · exact .inl hg

-- ---------------------------------------------------------------------------
-- Reads
-- ---------------------------------------------------------------------------

namespace Link

variable {l : Link}

theorem sane_resetIfGotAll (h : Counted l.parser) : Sane l.resetIfGotAll.parser := by
  unfold resetIfGotAll
  split
  · exact sane_reset _
  · exact (h.resolve_left ‹_›).2

theorem sane_finishIfGotAll (h : Counted l.parser) : Sane l.finishIfGotAll.parser := by
  unfold finishIfGotAll
  split
  · exact sane_reset _
  · exact (h.resolve_left ‹_›).2

theorem counted_consumeRequest (h : Counted l.parser) (hn : n ≤ l.parser.bytesRemaining) :
    Counted ((l.forward n).consumeRequest n).parser :=
  h.consumeBody l.conn.inputBuffer_ hn

theorem counted_consumeResponse (h : Counted l.parser) (hn : n ≤ l.parser.bytesRemaining) :
    Counted ((l.relay n).consumeResponse n).parser := by
  have hp := parser_relay l n
  have h' : Counted (l.relay n).parser := hp.symm ▸ h
  exact h'.consumeBody (l.relay n).remote.inputBuffer_ (hp.symm ▸ hn)

theorem sane_forwardBody (h : Sane l.parser) (he : l.parser.isExpectingBody = true) :
    Sane l.forwardBody.parser :=
  sane_resetIfGotAll (counted_consumeRequest (.inr ⟨he, h⟩) (Nat.min_le_right _ _))

theorem sane_forwardHead (h : Counted l.parser) : Sane l.forwardHead.parser := by
  simp only [forwardHead]
  refine sane_resetIfGotAll ?_
  split
  · exact counted_consumeRequest (l := (l.forward l.parser.headerLen).retrieveRequest _) h
      (Nat.min_le_right _ _)
  · exact h

theorem sane_relayChunks (h : Sane l.parser) : Sane l.relayChunks.parser := by
  have hp := parser_relay l l.remote.inputBuffer_.length
  simp only [relayChunks]
  split
  · exact sane_reset _
  · split <;> exact hp.symm ▸ h

theorem sane_relayHead (h : Counted l.parser)
    (hch : l.parser.isResponseChunked = true → l.parser.isExpectingBody = true)
    (hq : l.parser.isRequest = false) : Sane l.relayHead.parser := by
  have hp : ((l.relay l.parser.headerLen).retrieve l.parser.headerLen).parser = l.parser :=
    parser_relay l _
  simp only [relayHead]
  generalize (l.relay l.parser.headerLen).retrieve l.parser.headerLen = m at *
  split
  · refine sane_finishIfGotAll ?_
    split
    · exact counted_consumeResponse (hp.symm ▸ h) (Nat.min_le_right _ _)
    · exact hp.symm ▸ h
  · rename_i hc
    rw [hp, Bool.not_eq_true', Bool.not_eq_false] at hc
    exact sane_relayChunks (hp.symm ▸ .response hq (hch hc))

theorem sane_relayResponse (h : Sane l.parser) : Sane l.relayResponse.parser := by
  simp only [relayResponse]
  split
  · rename_i he
    split
    · exact sane_finishIfGotAll (counted_consumeResponse (.inr ⟨he, h⟩) (Nat.min_le_right _ _))
    · exact sane_relayChunks h
  · rename_i he
    cases hp : l.parser.parseResponse l.remote.inputBuffer_ with
    | mk parsed p =>
      cases parsed with
      | true =>
        obtain ⟨hq, -, hch⟩ := parsed_inMessage hp
        exact sane_relayHead (l := l.setParser p) (counted_parseResponse hp) hch hq
      | false =>
        obtain rfl := HttpParser.parseResponse_unparsed hp
        have he : l.parser.isExpectingBody = false := Bool.eq_false_iff.mpr he
        obtain ⟨hread, hchunked, hlength⟩ := h.rested he
        exact ⟨fun _ => ⟨hread, hchunked, hlength⟩, fun _ h' => (by cases h')⟩

theorem relayResponse_unfinished (h : Counting l.parser) (he : l.parser.isExpectingBody = true)
    (hlen : l.remote.inputBuffer_.length < l.parser.bytesRemaining) :
    l.relayResponse.finished = l.finished := by
  simp only [relayResponse, he, if_true, h.chunked, Bool.not_false, relayBody]
  rw [Nat.min_eq_left (Nat.le_of_lt hlen), finishIfGotAll, if_neg]
  · rfl
  · have hrem := h.bytesRemaining
    obtain ⟨-, hr, hl⟩ := h
    rw [parser_relay_consume, HttpParser.gotAll, Buffer.szAdd_eq (by omega)]
    rw [HttpParser.isExpectingBody, decide_eq_true_eq] at he
    simp [he, show ¬ l.parser.content_length_ ≤ l.parser.body_bytes_read_ +
      l.remote.inputBuffer_.length by omega]

end Link

-- ---------------------------------------------------------------------------
-- Runs
-- ---------------------------------------------------------------------------

variable {g g' : Gateway}

theorem sane_invariant : ParserInvariant Sane Counted where
  fresh := sane_reset {}
  parseRequest := Sane.parseRequest
  forwardBody := Link.sane_forwardBody
  forwardHead := Link.sane_forwardHead
  relayResponse := Link.sane_relayResponse

def AllSane (g : Gateway) : Prop := EveryParser Sane g

theorem AllSane.step (hi : AllSane g) (hs : step g e = some g') : AllSane g' :=
  sane_invariant.step hi hs

theorem sane_of_reach (h : Reach step Always { lb } g) : AllSane g := sane_invariant.of_reach h

end VortexNet.L7
