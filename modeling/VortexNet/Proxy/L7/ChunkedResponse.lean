import VortexNet.Http.ChunkedBody
import VortexNet.Proxy.L7.GatewayLaws

/-!
# The end of a chunked response

`RemoteClient::onMessage` takes a chunked response to be over when what it
sends on in one read contains `0 CR LF CR LF`. The bytes may stand in a chunk's
data or behind a longer size, two reads may share them, and a last chunk with an
extension or with trailers does not have them. The response is declared over in
its last read and not before exactly when the last payload shows them and no
earlier one does (`finished_iff`).
-/

namespace VortexNet.L7

open Incremental Picohttpparser
open Systems (Reach Always exec)

-- ---------------------------------------------------------------------------
-- Reads of one response
-- ---------------------------------------------------------------------------

structure Bound (g : Gateway) (c r : Nat) : Prop where
  fault : g.fault = none
  alive : (g.clients c).alive = true
  known : c < g.clientCount
  client : (g.clients c).context.client_ = some r
  bound : (g.remotes r).clientConn_ = some c
  busy : (g.remotes r).is_busy_ = true
  connection : (g.remotes r).conn_.isSome = true

/-- The client waits for a response of which nothing has come. -/
structure Awaiting (g : Gateway) (c r : Nat) : Prop extends Bound g c r where
  expecting : (g.clients c).context.parser_.isExpectingBody = false
  received : (g.remotes r).inputBuffer_ = []

def run (g : Gateway) (r : Nat) (reads : List Bytes) : Option Gateway :=
  exec step Always g (reads.map (.backendRead r))

def Gateway.returns (g : Gateway) (r : Nat) : Nat :=
  g.log.countP fun m => m.remote = some r && m.entry.isReturned

/-- The parser is reset and the connection given back in the read with number `k`. -/
def finishedIn (g : Gateway) (r : Nat) (reads : List Bytes) (k : Nat) : Bool :=
  match run g r (reads.take k), run g r (reads.take (k + 1)) with
  | some s, some t => s.returns r < t.returns r
  | _, _ => false

/-- What `headerLen` is after a head, and whether the head was taken. -/
def headLen (head : Bytes) : Nat := (toInt head.length).toNat

/-- What a read is searched for that makes `now` of `before`: what it brings of the body. Only
for a client that is shut down, whose reads stay in the buffer, it is all of the body so far. -/
def payload (connected : Bool) (head before now : Bytes) : Bytes :=
  if now.length < head.length ∨ headLen head = 0 then []
  else now.drop (if connected && head.length ≤ before.length then before.length else headLen head)

/-- Read `k` shows the mark. -/
def marked (connected : Bool) (head : Bytes) (reads : List Bytes) (k : Nat) : Bool :=
  (find Link.zeroChunk
    (payload connected head (reads.take k).flatten (reads.take (k + 1)).flatten)).isSome

-- ---------------------------------------------------------------------------
-- One read
-- ---------------------------------------------------------------------------

namespace Link

variable {l : Link}

theorem relayChunks_finished (l : Link) :
    l.relayChunks.finished = (l.finished || (find zeroChunk l.remote.inputBuffer_).isSome) := by
  simp only [relayChunks]
  cases find zeroChunk l.remote.inputBuffer_ with
  | some k => simp [finish]
  | none =>
    simp only [Option.isSome_none, Bool.false_eq_true, if_false, Bool.or_false]
    split <;> rfl

theorem relayChunks_open (h : find zeroChunk l.remote.inputBuffer_ = none) :
    l.relayChunks.parser = l.parser ∧ l.relayChunks.remote.inputBuffer_ =
      if l.conn.state_ = .kConnected then [] else l.remote.inputBuffer_ := by
  have hp := parser_relay l l.remote.inputBuffer_.length
  simp only [relayChunks, h, Option.isSome_none, Bool.false_eq_true, if_false]
  split
  · exact ⟨hp, by simp [relay, retrieve, RemoteClient.retrieve]⟩
  · exact ⟨hp, rfl⟩

def Phase (head got : Bytes) (l : Link) : Prop :=
  if got.length < head.length ∨ headLen head = 0 then
    l.parser.isExpectingBody = false ∧ l.remote.inputBuffer_ = got
  else
    l.parser.isExpectingBody = true ∧ l.parser.isResponseChunked = true ∧
      l.remote.inputBuffer_ =
        if l.conn.state_ = .kConnected then [] else got.drop (headLen head)

variable {head got data : Bytes} {h : ResponseHead}

theorem headLen_le : headLen head ≤ head.length := by
  simp only [headLen, toInt, BitVec.toInt_eq_toNat_cond, BitVec.toNat_ofNat]
  omega

/-- The response is over when the payload shows the mark, and goes on otherwise. -/
def Splits (l : Link) (head before now : Bytes) : Prop :=
  l.finished = (find zeroChunk (payload (l.conn.state_ = .kConnected) head before now)).isSome ∧
    (l.finished = false → Phase head now l)

theorem splits_unparsed (hl : l.finished = false) (he : l.parser.isExpectingBody = false)
    (hb : l.remote.inputBuffer_ = now) (hnow : now.length < head.length ∨ headLen head = 0) :
    Splits (l.setParser { l.parser with is_req_ := false }) head before now := by
  refine ⟨?_, fun _ => ?_⟩
  · simp only [payload, if_pos hnow]
    exact hl
  · rw [Phase, if_pos hnow]
    exact ⟨he, hb⟩

theorem splits_chunks (hl : l.finished = false) (he : l.parser.isExpectingBody = true)
    (hc : l.parser.isResponseChunked = true) (hnow : ¬ (now.length < head.length ∨ headLen head = 0))
    (hb : l.remote.inputBuffer_ = payload (l.conn.state_ = .kConnected) head before now)
    (hrest : l.conn.state_ ≠ .kConnected → l.remote.inputBuffer_ = now.drop (headLen head)) :
    Splits l.relayChunks head before now := by
  have hq := relayChunks_quiet l
  refine ⟨?_, fun hf => ?_⟩
  · rw [relayChunks_finished, hl, hq.state, ← hb, Bool.false_or]
  · rw [relayChunks_finished, hl, Bool.false_or, Option.isSome_eq_false_iff] at hf
    obtain ⟨hp, hbuf⟩ := relayChunks_open (Option.isNone_iff_eq_none.mp hf)
    rw [Phase, if_neg hnow, hp, hbuf, hq.state]
    refine ⟨he, hc, ?_⟩
    split
    · rfl
    · exact hrest ‹_›

theorem splits_head {m : Link} (hl : m.finished = false)
    (hch : h.headers.any HttpParser.isChunked = true) (hnow : ¬ now.length < head.length)
    (hbefore : before.length < head.length) (hlen : headLen head ≠ 0)
    (hb : m.remote.inputBuffer_ = now) :
    Splits (m.setParser ({ m.parser with is_req_ := false }.responseParsed h (headLen head))).relayHead
      head before now := by
  generalize hp : { m.parser with is_req_ := false }.responseParsed h (headLen head) = p
  obtain ⟨hexp, hchunk, hhl⟩ := hp ▸ HttpParser.responseParsed_chunked
    (p := { m.parser with is_req_ := false }) (n := headLen head) hch
  have hp' : (m.setParser p).parser = p := rfl
  have hparser : (((m.setParser p).relay (headLen head)).retrieve (headLen head)).parser = p :=
    parser_relay (m.setParser p) _
  have hstate : (((m.setParser p).relay (headLen head)).retrieve (headLen head)).conn.state_ =
      m.conn.state_ := send_state
  have hbuf : (((m.setParser p).relay (headLen head)).retrieve (headLen head)).remote.inputBuffer_ =
      now.drop (headLen head) := hb ▸ rfl
  simp only [relayHead, hp', hhl, hparser, hchunk, Bool.not_true, Bool.false_eq_true, if_false]
  refine splits_chunks hl ((congrArg _ hparser).trans hexp) ((congrArg _ hparser).trans hchunk)
    (by simp [hnow, hlen]) ?_ fun _ => hbuf
  rw [payload, if_neg (by simp [hnow, hlen]), hbuf, if_neg]
  simp [hbefore]

/-- The link of a response that stands at `got`, with `data` come in. -/
structure Received (l m : Link) (data : Bytes) : Prop where
  parser : m.parser = l.parser
  state : m.conn.state_ = l.conn.state_
  inputBuffer : m.remote.inputBuffer_ = l.remote.inputBuffer_ ++ data
  finished : m.finished = false

theorem relayResponse_splits (hph : Phase head got l) (hm : Received l m data)
    (hhead : Accepts parse_response head h) (hch : h.headers.any HttpParser.isChunked = true)
    (hpre : got ++ data <+: head ++ body) : Splits m.relayResponse head got (got ++ data) := by
  rw [Phase] at hph
  split at hph
  · rename_i hgot
    obtain ⟨he, hb⟩ := hph
    have he : m.parser.isExpectingBody = false := hm.parser ▸ he
    have hbuf : m.remote.inputBuffer_ = got ++ data := hb ▸ hm.inputBuffer
    simp only [relayResponse]
    rw [if_neg (Bool.eq_false_iff.mp he), hbuf]
    by_cases hnow : (got ++ data).length < head.length
    · -- the head is not there yet
      obtain ⟨more, hmore, hne⟩ : ∃ more, head = got ++ data ++ more ∧ more ≠ [] := by
        obtain ⟨more, rfl⟩ := List.prefix_of_prefix_length_le hpre (List.prefix_append ..) hnow.le
        refine ⟨more, rfl, ?_⟩
        rintro rfl
        simp at hnow
      rw [HttpParser.parseResponse_incomplete (hmore ▸ hhead) hne]
      exact splits_unparsed hm.finished he hbuf (.inl hnow)
    · obtain ⟨rest, hrest⟩ := List.prefix_of_prefix_length_le (List.prefix_append head body) hpre
        (Nat.le_of_not_lt hnow)
      by_cases hlen : headLen head = 0
      · have hparse : m.parser.parseResponse (got ++ data) =
            (false, { m.parser with is_req_ := false }) := by
          rw [← hrest, HttpParser.parseResponse_accepts hhead, if_neg]
          simp only [headLen] at hlen
          omega
        rw [hparse]
        exact splits_unparsed hm.finished he hbuf (.inr hlen)
      · have hparse : m.parser.parseResponse (got ++ data) =
            (true, { m.parser with is_req_ := false }.responseParsed h (headLen head)) := by
          rw [← hrest, HttpParser.parseResponse_accepts hhead, if_pos]
          · rfl
          · simp only [headLen] at hlen
            omega
        rw [hparse]
        exact splits_head hm.finished hch hnow (by simpa [hlen] using hgot) hlen hbuf
  · rename_i hgot
    obtain ⟨he, hc, hb⟩ := hph
    simp only [relayResponse]
    rw [if_pos (hm.parser ▸ he), if_neg (by simp [hm.parser, hc])]
    have hnow : ¬ ((got ++ data).length < head.length ∨ headLen head = 0) := by
      simp only [List.length_append]
      omega
    have hrest : m.conn.state_ ≠ .kConnected →
        m.remote.inputBuffer_ = (got ++ data).drop (headLen head) := by
      intro hs
      rw [hm.inputBuffer, hb, if_neg (hm.state ▸ hs),
        List.drop_append_of_le_length (headLen_le.trans (by omega))]
    refine splits_chunks hm.finished (hm.parser ▸ he) (hm.parser ▸ hc) hnow ?_ hrest
    rw [payload, if_neg hnow]
    by_cases hs : m.conn.state_ = .kConnected
    · have hle : head.length ≤ got.length := by omega
      simp [hs, hle, hm.inputBuffer, hb, ← hm.state]
    · simp [hs, hrest]

end Link

-- ---------------------------------------------------------------------------
-- Runs of reads
-- ---------------------------------------------------------------------------

variable {g g' : Gateway} {c r : Nat} {head body got data : Bytes} {h : ResponseHead}

theorem Bound.held (hb : Bound g c r) : g.held r = true := by
  simp only [Gateway.held, decide_eq_true_eq]
  exact .inr ⟨c, hb.known, hb.alive, hb.client⟩

theorem Bound.receive (hb : Bound g c r) (data : Bytes) : Bound (g.receive r data) c r where
  fault := hb.fault
  alive := hb.alive
  known := hb.known
  client := hb.client
  bound := by simpa [Gateway.receive] using hb.bound
  busy := by simpa [Gateway.receive] using hb.busy
  connection := by simpa [Gateway.receive] using hb.connection

theorem Bound.step (hb : Bound g c r) (hd : data ≠ []) :
    step g (.backendRead r data) = some (
      let l := ((g.receive r data).link c r).relayResponse
      let g := (g.receive r data).setLink c r l
      if l.finished then g.returnConnection c r else g) := by
  have hb' := hb.receive data
  rw [L7.step, if_pos hb.fault, Gateway.stepOk, if_pos ⟨hb.connection, hd⟩]
  simp only [hb'.held, if_true, RemoteClient.onMessage, hb'.bound]
  rw [if_pos ⟨hb'.alive, hb'.busy⟩]

structure Released (g : Gateway) (r : Nat) : Prop where
  fault : g.fault = none
  bound : (g.remotes r).clientConn_ = none
  connection : (g.remotes r).conn_.isSome = true

theorem disconnect_fields {remote : RemoteClient} :
    remote.disconnect.clientConn_ = remote.clientConn_ ∧
      remote.disconnect.conn_.isSome = remote.conn_.isSome := by
  unfold RemoteClient.disconnect
  split
  · rename_i h
    simp [h]
  · exact ⟨rfl, rfl⟩

theorem Bound.returnConnection (hf : g.fault = none) (hc : (g.remotes r).conn_.isSome = true) :
    Released (g.returnConnection c r) r := by
  refine ⟨Gateway.returnConnection_fault.trans hf, ?_, ?_⟩
  · simp only [Gateway.returnConnection]
    split
    · simp [RemoteClient.unbind]
    · simp [RemoteClient.unbind, disconnect_fields]
  · simp only [Gateway.returnConnection]
    split
    · simpa [RemoteClient.unbind, Gateway.addLog] using hc
    · simpa [RemoteClient.unbind, disconnect_fields, Gateway.addLog] using hc

theorem Released.step (hr : Released g r) (hd : data ≠ []) : ∃ g',
    step g (.backendRead r data) = some g' ∧ Released g' r ∧ g'.returns r = g.returns r := by
  rw [L7.step, if_pos hr.fault, Gateway.stepOk, if_pos ⟨hr.connection, hd⟩]
  have hbound : ((g.receive r data).remotes r).clientConn_ = none := by
    simpa [Gateway.receive] using hr.bound
  have hconn : ((g.receive r data).remotes r).conn_.isSome = true := by
    simpa [Gateway.receive] using hr.connection
  refine ⟨_, rfl, ?_, ?_⟩
  · split
    · simp only [RemoteClient.onMessage, hbound]
      refine ⟨hr.fault, ?_, ?_⟩
      · simpa [disconnect_fields] using hbound
      · simpa [disconnect_fields] using hconn
    · exact ⟨hr.fault, hbound, hconn⟩
  · split
    · simp only [RemoteClient.onMessage, hbound]
      rfl
    · rfl

structure Receiving (g : Gateway) (c r : Nat) (head got : Bytes) : Prop extends Bound g c r where
  phase : Link.Phase head got (g.link c r)

theorem returns_setLink {l : Link} (ht : ∀ e ∈ l.trace, e.ofResponse = true) :
    (g.setLink c r l).returns r = g.returns r := by
  have hnone : (l.trace.map (⟨c, some r, ·⟩ : Entry → Log)).countP
      (fun m => m.remote = some r && m.entry.isReturned) = 0 := by
    refine List.countP_eq_zero.mpr fun m hm => ?_
    obtain ⟨e, he, rfl⟩ := List.mem_map.mp hm
    simp [Entry.isReturned_eq (ht e he)]
  simp only [Gateway.returns, Gateway.setLink_log, List.countP_append, hnone, Nat.zero_add]

theorem returns_returnConnection :
    (g.returnConnection c r).returns r = g.returns r + 1 := by
  rw [Gateway.returns, Gateway.returnConnection_log, List.countP_cons_of_pos]
  · rfl
  · simp [Entry.isReturned]

theorem Receiving.step (hg : Receiving g c r head got) (hd : data ≠ [])
    (hhead : Accepts parse_response head h) (hch : h.headers.any HttpParser.isChunked = true)
    (hpre : got ++ data <+: head ++ body) :
    ∃ g', L7.step g (.backendRead r data) = some g' ∧
      if (find Link.zeroChunk
          (payload ((g.clients c).state_ = .kConnected) head got (got ++ data))).isSome then
        Released g' r ∧ g'.returns r = g.returns r + 1
      else Receiving g' c r head (got ++ data) ∧ g'.returns r = g.returns r ∧
        (g'.clients c).state_ = (g.clients c).state_ := by
  have hb := hg.toBound.receive data
  have hm : Link.Received (g.link c r) ((g.receive r data).link c r) data :=
    ⟨rfl, rfl, by simp [Gateway.receive], rfl⟩
  have hq := Link.relayResponse_quiet ((g.receive r data).link c r)
  obtain ⟨hfin, hphase⟩ := Link.relayResponse_splits hg.phase hm hhead hch hpre
  have hstate : ((g.receive r data).link c r).relayResponse.conn.state_ = (g.clients c).state_ :=
    hq.state
  refine ⟨_, hg.toBound.step hd, ?_⟩
  generalize ((g.receive r data).link c r).relayResponse = l at *
  have hreturns : ((g.receive r data).setLink c r l).returns r = g.returns r := by
    obtain ⟨t, ht, he⟩ := hq.trace
    have ht : l.trace = t := ht.trans (List.append_nil t)
    exact returns_setLink (ht ▸ fun e hm => (he e hm).1)
  have hconn : (((g.receive r data).setLink c r l).remotes r).conn_.isSome = true := by
    simpa [hq.connection] using hb.connection
  rw [hstate] at hfin
  rw [← hfin]
  cases hl : l.finished with
  | true =>
    simp only [hl, if_true]
    exact ⟨Bound.returnConnection (g := (g.receive r data).setLink c r l) hb.fault hconn,
      returns_returnConnection.trans (congrArg (· + 1) hreturns)⟩
  | false =>
    simp only [hl, Bool.false_eq_true, if_false]
    refine ⟨⟨⟨hb.fault, ?_, hb.known, ?_, ?_, ?_, hconn⟩, ?_⟩, hreturns, ?_⟩
    · simpa [hq.alive] using hb.alive
    · rcases hq.client with h | h
      · simpa [h] using hb.client
      · exact Bool.noConfusion (h.1.symm.trans hl)
    · simpa [hq.bound] using hb.bound
    · simpa [hq.busy] using hb.busy
    · have := hphase hl
      simpa [Link.Phase, Link.parser] using this
    · simpa using hstate

theorem run_append :
    run g r (reads ++ [data]) = (run g r reads).bind fun s => L7.step s (.backendRead r data) := by
  simp only [run, List.map_append, Systems.exec_append]
  congr 1
  funext s
  simp [exec, Always]

theorem run_take (ha : Awaiting g c r) (hreads : ∀ d ∈ reads, d ≠ [])
    (hflat : reads.flatten = head ++ body) (hhead : Accepts parse_response head h)
    (hch : h.headers.any HttpParser.isChunked = true) (hk : k ≤ reads.length) :
    ∃ s, run g r (reads.take k) = some s ∧
      if ∃ j < k, marked ((g.clients c).state_ = .kConnected) head reads j = true then
        Released s r ∧ s.returns r = g.returns r + 1
      else Receiving s c r head (reads.take k).flatten ∧ s.returns r = g.returns r ∧
        (s.clients c).state_ = (g.clients c).state_ := by
  induction k with
  | zero =>
    refine ⟨g, rfl, ?_⟩
    rw [if_neg (by simp)]
    refine ⟨⟨ha.toBound, ?_⟩, rfl, rfl⟩
    have hpos := List.length_pos_iff.mpr (response_ne_nil hhead)
    rw [Link.Phase, if_pos (.inl hpos)]
    exact ⟨ha.expecting, ha.received⟩
  | succ k ih =>
    obtain ⟨s, hs, hcase⟩ := ih (Nat.le_of_succ_le hk)
    have hd := hreads reads[k] (List.getElem_mem hk)
    have hflatten : (reads.take (k + 1)).flatten = (reads.take k).flatten ++ reads[k] := by
      rw [List.take_succ_eq_append_getElem hk, List.flatten_append, List.flatten_singleton]
    have hpre : (reads.take k).flatten ++ reads[k] <+: head ++ body := by
      rw [← hflatten, ← hflat]
      exact ⟨(reads.drop (k + 1)).flatten, by rw [← List.flatten_append, List.take_append_drop]⟩
    rw [List.take_succ_eq_append_getElem hk, run_append, hs, Option.bind_some,
      ← List.take_succ_eq_append_getElem hk]
    by_cases hany : ∃ j < k, marked ((g.clients c).state_ = .kConnected) head reads j = true
    · rw [if_pos hany] at hcase
      obtain ⟨j, hj, hmark⟩ := hany
      obtain ⟨s', hs', hrel, hret⟩ := hcase.1.step hd
      refine ⟨s', hs', ?_⟩
      rw [if_pos ⟨j, Nat.lt_succ_of_lt hj, hmark⟩]
      exact ⟨hrel, hret.trans hcase.2⟩
    · rw [if_neg hany] at hcase
      obtain ⟨hrec, hret, hstate⟩ := hcase
      obtain ⟨s', hs', hcase'⟩ := hrec.step hd hhead hch hpre
      refine ⟨s', hs', ?_⟩
      rw [hstate, ← hflatten] at hcase'
      change if marked _ head reads k = true then _ else _ at hcase'
      by_cases hmark : marked ((g.clients c).state_ = .kConnected) head reads k = true
      · rw [if_pos hmark] at hcase'
        rw [if_pos ⟨k, Nat.lt_succ_self k, hmark⟩]
        exact ⟨hcase'.1, hcase'.2.trans (congrArg (· + 1) hret)⟩
      · rw [if_neg hmark] at hcase'
        rw [if_neg]
        · exact ⟨hcase'.1, hcase'.2.1.trans hret, hcase'.2.2⟩
        · rintro ⟨j, hj, hm⟩
          rcases Nat.lt_succ_iff_lt_or_eq.mp hj with hj | rfl
          · exact hany ⟨j, hj, hm⟩
          · exact hmark hm

/-- The response ends in the first read that shows the mark. -/
theorem finishedIn_iff (ha : Awaiting g c r) (hreads : ∀ d ∈ reads, d ≠ [])
    (hflat : reads.flatten = head ++ body) (hhead : Accepts parse_response head h)
    (hch : h.headers.any HttpParser.isChunked = true) (hk : k < reads.length) :
    finishedIn g r reads k = true ↔
      marked ((g.clients c).state_ = .kConnected) head reads k = true ∧
        ∀ j < k, ¬ marked ((g.clients c).state_ = .kConnected) head reads j = true := by
  obtain ⟨s, hs, hcase⟩ := run_take ha hreads hflat hhead hch hk.le
  obtain ⟨t, ht, hcase'⟩ := run_take ha hreads hflat hhead hch hk
  simp only [finishedIn, hs, ht, decide_eq_true_eq]
  by_cases hany : ∃ j < k, marked ((g.clients c).state_ = .kConnected) head reads j = true
  · obtain ⟨j, hj, hmark⟩ := hany
    rw [if_pos ⟨j, hj, hmark⟩] at hcase
    rw [if_pos ⟨j, Nat.lt_succ_of_lt hj, hmark⟩] at hcase'
    exact ⟨fun hlt => by omega, fun hno => absurd hmark (hno.2 j hj)⟩
  · rw [if_neg hany] at hcase
    have hno : ∀ j < k, ¬ marked ((g.clients c).state_ = .kConnected) head reads j = true :=
      fun j hj hm => hany ⟨j, hj, hm⟩
    by_cases hmark : marked ((g.clients c).state_ = .kConnected) head reads k = true
    · rw [if_pos ⟨k, Nat.lt_succ_self k, hmark⟩] at hcase'
      exact ⟨fun _ => ⟨hmark, hno⟩, fun _ => by omega⟩
    · rw [if_neg] at hcase'
      · exact ⟨fun hlt => by omega, fun hm => absurd hm.1 hmark⟩
      · rintro ⟨j, hj, hm⟩
        rcases Nat.lt_succ_iff_lt_or_eq.mp hj with hj | rfl
        · exact hno j hj hm
        · exact hmark hm

/-- The response is declared over in exactly its last read when exactly its last read shows
the mark. -/
theorem finished_iff (ha : Awaiting g c r) (hreads : ∀ d ∈ reads, d ≠ []) {b : ChunkedBody}
    (hflat : reads.flatten = head ++ b.bytes) (hhead : Accepts parse_response head h)
    (hch : h.headers.any HttpParser.isChunked = true) :
    (∀ k < reads.length, finishedIn g r reads k = true ↔ k + 1 = reads.length) ↔
      ∀ k < reads.length,
        marked ((g.clients c).state_ = .kConnected) head reads k = true ↔ k + 1 = reads.length := by
  have hiff := fun k => finishedIn_iff (k := k) ha hreads hflat hhead hch
  generalize hm : marked ((g.clients c).state_ = .kConnected) head reads = m at hiff ⊢
  constructor
  · intro hfin k hk
    refine ⟨fun hmark => ?_, fun hlast => ((hiff k hk).mp ((hfin k hk).mpr hlast)).1⟩
    -- the first read up to this one that shows the mark ends the response
    have hex : ∃ j, m j = true := ⟨k, hmark⟩
    have hle : Nat.find hex ≤ k := Nat.find_min' hex hmark
    have hlast := (hfin _ (hle.trans_lt hk)).mp
      ((hiff _ (hle.trans_lt hk)).mpr ⟨Nat.find_spec hex, fun j hj => Nat.find_min hex hj⟩)
    omega
  · intro hlast k hk
    rw [hiff k hk]
    refine ⟨fun h => (hlast k hk).mp h.1, fun h => ⟨(hlast k hk).mpr h, fun j hj hmark => ?_⟩⟩
    have := (hlast j (hj.trans hk)).mp hmark
    omega

theorem find_append (pat front : Bytes) : (find pat (front ++ pat)).isSome = true := by
  induction front with
  | nil =>
    cases pat with
    | nil => rfl
    | cons x xs => simp [find]
  | cons x front ih =>
    simp only [List.cons_append, find]
    split
    · rfl
    · simpa using ih

/-- The code is right about a body without extension or trailers at its end whose data does not
look like it, when the last read brings all of the zero chunk. -/
theorem finished_plain (ha : Awaiting g c r) (hreads : ∀ d ∈ reads, d ≠ []) {b : ChunkedBody}
    (hflat : reads.flatten = head ++ b.bytes) (hhead : Accepts parse_response head h)
    (hch : h.headers.any HttpParser.isChunked = true) (hlen : headLen head = head.length)
    (hc : (g.clients c).state_ = .kConnected) (he : b.ext = []) (ht : b.trailers = [])
    (hlast : reads.dropLast.flatten.length + 5 ≤ reads.flatten.length)
    (hno : ∀ k, k + 1 < reads.length → marked true head reads k = false) :
    ∀ k < reads.length, finishedIn g r reads k = true ↔ k + 1 = reads.length := by
  refine (finished_iff ha hreads hflat hhead hch).mpr fun k hk => ?_
  rw [decide_eq_true hc]
  refine ⟨fun hmark => ?_, fun hend => ?_⟩
  · by_contra hne
    exact Bool.false_ne_true ((hno k (by omega)).symm.trans hmark)
  · obtain ⟨front, hfront⟩ := b.bytes_plain he ht
    have htotal : reads.flatten = (head ++ front) ++ Link.zeroChunk := by
      rw [hflat, hfront, List.append_assoc]
      rfl
    have htake : reads.take (k + 1) = reads := List.take_of_length_le hend.ge
    have hbefore : reads.take k = reads.dropLast := by
      rw [List.dropLast_eq_take, ← hend, Nat.add_sub_cancel]
    have hpos := List.length_pos_iff.mpr (response_ne_nil hhead)
    have hfive : Link.zeroChunk.length = 5 := rfl
    rw [marked, payload, if_neg]
    · rw [htake, hbefore, htotal, List.drop_append_of_le_length]
      · exact find_append _ _
      · rw [htotal, List.length_append, hfive] at hlast
        simp only [List.length_append] at hlast ⊢
        split <;> omega
    · rw [htake, htotal]
      simp only [List.length_append]
      omega

/-- A client whose request is with a backend. -/
def requested : Option Gateway := exec step Always { lb := unconfigured }
  [.accept, .clientRead 0 (ascii "GET /im HTTP/1.1\r\n\r\n") 0, .backendUp 0]

theorem requested_awaiting : ∃ g, requested = some g ∧ Awaiting g 0 0 ∧
    (g.clients 0).state_ = .kConnected := by
  have hrun : requested.any (fun g => g.fault = none && (g.clients 0).alive && 0 < g.clientCount &&
      (g.clients 0).context.client_ = some 0 && (g.remotes 0).clientConn_ = some 0 &&
      (g.remotes 0).is_busy_ && (g.remotes 0).conn_.isSome &&
      !(g.clients 0).context.parser_.isExpectingBody && (g.remotes 0).inputBuffer_ = [] &&
      (g.clients 0).state_ = .kConnected) = true := by
    decide +kernel
  obtain ⟨g, hg, h⟩ := (Option.any_eq_true _ _).mp hrun
  simp only [Bool.and_eq_true, decide_eq_true_eq, Bool.not_eq_true'] at h
  obtain ⟨⟨⟨⟨⟨⟨⟨⟨⟨h₁, h₂⟩, h₃⟩, h₄⟩, h₅⟩, h₆⟩, h₇⟩, h₈⟩, h₉⟩, h⟩ := h
  exact ⟨g, hg, ⟨⟨h₁, h₂, h₃, h₄, h₅, h₆, h₇⟩, h₈, h₉⟩, h⟩

def chunkedHead : Bytes := ascii "HTTP/1.1 200 OK\r\nTransfer-Encoding: chunked\r\n\r\n"

theorem chunkedHead_accepts : Accepts parse_response chunkedHead {
    minor_version := 1
    status := 200
    msg := ⟨13, ascii "OK"⟩
    headers := [⟨some ⟨17, ascii "Transfer-Encoding"⟩, ⟨36, ascii "chunked"⟩⟩] } := by
  decide +kernel

/-- One chunk, "ok". -/
def okBody : ChunkedBody where
  chunks := [{
    size := ascii "2"
    data := ascii "ok"
    size_digits := by decide
    size_data := by decide
    data_ne := by decide
    ext_valid := by decide }]
  zeros_zero := by decide
  ext_valid := by decide

/-- The head and the chunk, then the last chunk. -/
def wholeMark : List Bytes := [chunkedHead ++ ascii "2\r\no", ascii "k\r\n", ascii "0\r\n\r\n"]

theorem finished_iff_whole : ∃ g, requested = some g ∧
    ∀ k < wholeMark.length, finishedIn g 0 wholeMark k = true ↔ k + 1 = wholeMark.length := by
  obtain ⟨g, hg, ha, hc⟩ := requested_awaiting
  refine ⟨g, hg, (finished_iff ha (by decide) (b := okBody) (by decide) chunkedHead_accepts
    (by decide)).mpr ?_⟩
  rw [decide_eq_true hc]
  decide

/-- The mark in two reads. -/
def cutMark : List Bytes := [chunkedHead ++ ascii "2\r\nok\r\n0\r\n", ascii "\r\n"]

theorem not_finished_cut : ∃ g, requested = some g ∧ Awaiting g 0 0 ∧
    cutMark.flatten = chunkedHead ++ okBody.bytes ∧
      ¬ ∀ k < cutMark.length, finishedIn g 0 cutMark k = true ↔ k + 1 = cutMark.length := by
  obtain ⟨g, hg, ha, -⟩ := requested_awaiting
  refine ⟨g, hg, ha, by decide, fun h => ?_⟩
  have hrun : requested.any (fun g => finishedIn g 0 cutMark 1) = false := by decide +kernel
  rw [hg, Option.any_some] at hrun
  exact Bool.false_ne_true (hrun.symm.trans ((h 1 (by decide)).mpr rfl))

end VortexNet.L7
