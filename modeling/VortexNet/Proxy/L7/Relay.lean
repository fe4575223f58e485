import VortexNet.Http.Response
import VortexNet.Proxy.L7.ChunkedResponse

/-!
# One exchange between a client and its backend

For a connected client, what a backend has sent is what was relayed followed by
what its buffer holds, whatever the parser makes of it (`arrived_relayResponse`).
Whether the parser finds the end of the response is another matter: it does when
the bytes are those of one final response and the parser was not in the body of
a request (`relayResponse_reads`).
-/

namespace VortexNet.L7

open Incremental Picohttpparser

-- ---------------------------------------------------------------------------
-- Nothing is lost
-- ---------------------------------------------------------------------------

def RemoteClient.Conserved (remote : RemoteClient) : Prop :=
  remote.exchange.relayed ++ remote.inputBuffer_ = remote.exchange.got

def RemoteClient.arrived (remote : RemoteClient) : Bytes :=
  remote.exchange.relayed ++ remote.inputBuffer_

namespace Link

variable {l : Link} {n : Nat}

theorem relay_relayed (hc : l.conn.state_ = .kConnected) :
    (l.relay n).remote.exchange.relayed =
      l.remote.exchange.relayed ++ l.remote.inputBuffer_.take n := by
  simp [relay, hc]

theorem arrived_relay_retrieve (hc : l.conn.state_ = .kConnected) :
    ((l.relay n).retrieve n).remote.arrived = l.remote.arrived := by
  have hbuf : ((l.relay n).retrieve n).remote.inputBuffer_ = l.remote.inputBuffer_.drop n := rfl
  have hrel : ((l.relay n).retrieve n).remote.exchange.relayed =
      l.remote.exchange.relayed ++ l.remote.inputBuffer_.take n := relay_relayed hc
  rw [RemoteClient.arrived, hbuf, hrel, List.append_assoc, List.take_append_drop]
  rfl

theorem arrived_relay_consume (hc : l.conn.state_ = .kConnected) :
    ((l.relay n).consumeResponse n).remote.arrived = l.remote.arrived :=
  arrived_relay_retrieve (n := n) hc

theorem arrived_finishIfGotAll (l : Link) : l.finishIfGotAll.remote.arrived = l.remote.arrived := by
  unfold finishIfGotAll
  split <;> rfl

theorem arrived_relayBody (hc : l.conn.state_ = .kConnected) :
    l.relayBody.remote.arrived = l.remote.arrived :=
  (arrived_finishIfGotAll _).trans (arrived_relay_consume hc)

theorem arrived_relayChunks (hc : l.conn.state_ = .kConnected) :
    l.relayChunks.remote.arrived = l.remote.arrived := by
  have hsent := arrived_relay_retrieve (n := l.remote.inputBuffer_.length) hc
  simp only [relayChunks, if_pos hc]
  split <;> exact hsent

theorem arrived_relayHead (hc : l.conn.state_ = .kConnected) :
    l.relayHead.remote.arrived = l.remote.arrived := by
  have hhead := arrived_relay_retrieve (n := l.parser.headerLen) hc
  have hc' : ((l.relay l.parser.headerLen).retrieve l.parser.headerLen).conn.state_ =
      .kConnected := send_state.trans hc
  simp only [relayHead]
  split
  · refine (arrived_finishIfGotAll _).trans ?_
    split
    · exact (arrived_relay_consume hc').trans hhead
    · exact hhead
  · exact (arrived_relayChunks hc').trans hhead

theorem arrived_relayResponse (hc : l.conn.state_ = .kConnected) :
    l.relayResponse.remote.arrived = l.remote.arrived := by
  simp only [relayResponse]
  split
  · split
    · exact arrived_relayBody hc
    · exact arrived_relayChunks hc
  · split
    · exact arrived_relayHead (l := l.setParser _) hc
    · rfl

theorem relayResponse_conserves (hc : l.conn.state_ = .kConnected) (h : l.remote.Conserved) :
    l.relayResponse.remote.Conserved :=
  ((arrived_relayResponse hc).trans h).trans (relayResponse_quiet l).got.symm

-- ---------------------------------------------------------------------------
-- Where an exchange stands
-- ---------------------------------------------------------------------------

def InBody (p : HttpParser) (got : Bytes) : Prop :=
  ∃ head parsed part, Accepts parse_response head parsed ∧ got = head ++ part ∧
    p.resp_is_chunked_ = (HttpParser.framing parsed).is_chunked ∧
    p.content_length_ = (HttpParser.framing parsed).content_length ∧
    (p.resp_is_chunked_ = false →
      p.body_bytes_read_ = part.length ∧ part.length ≤ p.content_length_)

inductive Stage (p : HttpParser) (remote : RemoteClient) : Prop
  | waiting : p.isExpectingBody = false → ¬ 0 < ret (phr_parse_response remote.exchange.got) →
      remote.inputBuffer_ = remote.exchange.got → Stage p remote
  | uploading : p.isExpectingBody = true → p.isRequest = true → remote.exchange.got = [] →
      remote.inputBuffer_ = [] → Stage p remote
  | relaying : p.isExpectingBody = true → p.isRequest = false → remote.inputBuffer_ = [] →
      InBody p remote.exchange.got → Stage p remote

/-- The response goes on, or it is over, all of `whole` has come and the buffer is empty. -/
def Reads (whole : Bytes) (l : Link) : Prop :=
  if l.finished = true then l.remote.inputBuffer_ = [] ∧ l.remote.exchange.got = whole
  else Stage l.parser l.remote

variable {whole : Bytes}

theorem reads_finishIfGotAll (hl : l.finished = false) (hb : l.remote.inputBuffer_ = [])
    (hdone : l.parser.gotAll = true → l.remote.exchange.got = whole)
    (hgo : l.parser.gotAll = false → l.parser.isExpectingBody = true ∧ l.parser.isRequest = false ∧
      InBody l.parser l.remote.exchange.got) : Reads whole l.finishIfGotAll := by
  unfold finishIfGotAll
  split
  · rename_i hg
    exact ⟨hb, hdone hg⟩
  · rename_i hg
    obtain ⟨he, hq, hbody⟩ := hgo (Bool.eq_false_iff.mpr hg)
    rw [Reads, if_neg (by simp [hl])]
    exact .relaying he hq hb hbody

theorem relayChunks_inputBuffer (hc : l.conn.state_ = .kConnected) :
    l.relayChunks.remote.inputBuffer_ = [] := by
  simp only [relayChunks, if_pos hc]
  split <;> simp [relay, retrieve, RemoteClient.retrieve, finish]

theorem reads_relayChunks (hc : l.conn.state_ = .kConnected) (hl : l.finished = false)
    (he : l.parser.isExpectingBody = true) (hq : l.parser.isRequest = false)
    (hbody : InBody l.parser l.remote.exchange.got)
    (hmark : (find zeroChunk l.remote.inputBuffer_).isSome = true →
      l.remote.exchange.got = whole) : Reads whole l.relayChunks := by
  have hb := relayChunks_inputBuffer hc
  have hg := (relayChunks_quiet l).got
  have hf := relayChunks_finished l
  rw [hl, Bool.false_or] at hf
  unfold Reads
  split
  · rename_i hfin
    exact ⟨hb, hg.trans (hmark (hf ▸ hfin))⟩
  · rename_i hfin
    rw [hf, Bool.not_eq_true, Option.isSome_eq_false_iff, Option.isNone_iff_eq_none] at hfin
    have hp := (relayChunks_open hfin).1
    exact .relaying (hp ▸ he) (hp ▸ hq) hb (hp ▸ hg ▸ hbody)

theorem parser_relay_consume (l : Link) (n : Nat) : ((l.relay n).consumeResponse n).parser =
    { l.parser with
      body_bytes_read_ := szAdd l.parser.body_bytes_read_ n
      state_ := if l.parser.content_length_ ≤ szAdd l.parser.body_bytes_read_ n then .kGotAll
        else l.parser.state_ } := by
  show ((l.relay n).parser.consumeBody (l.relay n).remote.inputBuffer_ n).1 = _
  rw [parser_relay]
  rfl

structure Counts (R : Response method) (p : HttpParser) (part : Bytes) : Prop where
  isRequest : p.isRequest = false
  plain : p.resp_is_chunked_ = false
  framing : (HttpParser.framing R.parsed).is_chunked = false
  length : p.content_length_ = (HttpParser.framing R.parsed).content_length
  read : p.body_bytes_read_ = part.length

theorem Counts.inBody {R : Response method} {p : HttpParser} (h : Counts R p part)
    (hpart : part <+: R.body) : InBody p (R.head ++ part) :=
  ⟨R.head, R.parsed, part, R.accepted, rfl, h.plain.trans h.framing.symm, h.length,
    fun _ => ⟨h.read, h.length ▸ (R.framed.fits h.framing hpart).1⟩⟩

theorem reads_consume {R : Response method} (hl : l.finished = false)
    (hcount : Counts R l.parser part)
    (hstate : l.parser.isExpectingBody = true ∨
      l.parser.gotAll = true ∧ (HttpParser.framing R.parsed).has_body = false)
    (hpart : part ++ l.remote.inputBuffer_ <+: R.body)
    (hgot : l.remote.exchange.got = R.head ++ (part ++ l.remote.inputBuffer_))
    (hn : n = min l.remote.inputBuffer_.length l.parser.bytesRemaining) :
    Reads R.bytes ((l.relay n).consumeResponse n).finishIfGotAll := by
  obtain ⟨hfit, hend, hnone⟩ := R.framed.fits hcount.framing hpart
  have hlt := HttpParser.framing_lt R.parsed
  rw [List.length_append, ← hcount.length] at hfit hend
  rw [← hcount.length] at hlt
  -- all that is in the buffer is of the body
  have hrem : l.parser.bytesRemaining = l.parser.content_length_ - part.length := by
    rw [HttpParser.bytesRemaining, hcount.read, Buffer.szSub_eq (by omega) (by omega)]
  obtain rfl : n = l.remote.inputBuffer_.length := by omega
  have hp := parser_relay_consume l l.remote.inputBuffer_.length
  rw [hcount.read, Buffer.szAdd_eq (by omega)] at hp
  have hgot' := ((relay_quiet l l.remote.inputBuffer_.length).trans
    (consumeResponse_quiet _ l.remote.inputBuffer_.length)).got.trans hgot
  have hbuf : ((l.relay l.remote.inputBuffer_.length).consumeResponse
      l.remote.inputBuffer_.length).remote.inputBuffer_ = [] := by
    simp [consumeResponse, relay, retrieve, RemoteClient.retrieve, setParser]
  have hfin : ((l.relay l.remote.inputBuffer_.length).consumeResponse
      l.remote.inputBuffer_.length).finished = false := hl
  generalize (l.relay l.remote.inputBuffer_.length).consumeResponse
    l.remote.inputBuffer_.length = m at *
  refine reads_finishIfGotAll hfin hbuf (fun hg => ?_) (fun hg => ?_)
  · rw [hgot']
    refine congrArg (R.head ++ ·) ?_
    by_cases hfull : l.parser.content_length_ ≤ part.length + l.remote.inputBuffer_.length
    · exact hend hfull
    · rcases hstate with he | ⟨-, hb⟩
      · simp [hp, HttpParser.gotAll, hfull] at hg
        simp [HttpParser.isExpectingBody, hg] at he
      · exact hnone hb
  · have hfull : ¬ l.parser.content_length_ ≤ part.length + l.remote.inputBuffer_.length := by
      intro hfull
      simp [hp, HttpParser.gotAll, hfull] at hg
    have hcount' : Counts R m.parser (part ++ l.remote.inputBuffer_) := by
      rw [hp]
      exact ⟨hcount.isRequest, hcount.plain, hcount.framing, hcount.length, by simp⟩
    refine ⟨?_, hcount'.isRequest, hgot' ▸ hcount'.inBody hpart⟩
    rcases hstate with he | ⟨hg', -⟩
    · simpa [hp, HttpParser.isExpectingBody, hfull] using he
    · simp only [hp, HttpParser.gotAll, hfull, if_false] at hg hg'
      exact Bool.noConfusion (hg'.symm.trans hg)

theorem reads_relayHead {R : Response method} {p : HttpParser} (hc : l.conn.state_ = .kConnected)
    (hl : l.finished = false)
    (hp : l.parser = { p with is_req_ := false }.responseParsed R.parsed R.head.length)
    (hread : p.body_bytes_read_ = 0) (hb : l.remote.inputBuffer_ = R.head ++ part)
    (hgot : l.remote.exchange.got = R.head ++ part) (hpart : part <+: R.body)
    (hmark : R.parsed.headers.any HttpParser.isChunked = true →
      (find zeroChunk part).isSome = true → part = R.body) : Reads R.bytes l.relayHead := by
  have hlen : l.parser.headerLen = R.head.length := by simp [hp, HttpParser.responseParsed,
    HttpParser.headerLen]
  have hparser : ((l.relay R.head.length).retrieve R.head.length).parser = l.parser :=
    parser_relay l _
  have hbuf : ((l.relay R.head.length).retrieve R.head.length).remote.inputBuffer_ = part := by
    simp [retrieve, RemoteClient.retrieve, relay, hb]
  have hgot' : ((l.relay R.head.length).retrieve R.head.length).remote.exchange.got =
      R.head ++ part := hgot
  have hc' : ((l.relay R.head.length).retrieve R.head.length).conn.state_ = .kConnected :=
    send_state.trans hc
  have hfin : ((l.relay R.head.length).retrieve R.head.length).finished = false := hl
  simp only [relayHead, hlen]
  generalize (l.relay R.head.length).retrieve R.head.length = m at *
  -- what the head leaves in the parser
  have hp : m.parser = { p with is_req_ := false }.responseParsed R.parsed R.head.length :=
    hparser.trans hp
  have hchunked : m.parser.resp_is_chunked_ = (HttpParser.framing R.parsed).is_chunked := by
    rw [hp]
    rfl
  have hlength : m.parser.content_length_ = (HttpParser.framing R.parsed).content_length := by
    rw [hp]
    rfl
  have hreq : m.parser.isRequest = false := by
    rw [hp]
    rfl
  have hcounter : m.parser.body_bytes_read_ = 0 := by
    rw [hp]
    exact hread
  have hstate : m.parser.state_ = if (HttpParser.framing R.parsed).has_body then .kExpectBody
      else .kGotAll := by
    rw [hp]
    rfl
  cases hch : R.parsed.headers.any HttpParser.isChunked with
  | true =>
    have hbody := (HttpParser.foldl_responseField_chunked R.parsed.headers {} (.inr hch)).2
    have he : m.parser.isExpectingBody = true := by
      simp [HttpParser.isExpectingBody, hstate, HttpParser.framing, hbody]
    have hcm : m.parser.resp_is_chunked_ = true :=
      hchunked.trans ((HttpParser.framing_chunked _).trans hch)
    simp only [HttpParser.isResponseChunked, hcm, Bool.not_true, Bool.false_eq_true, if_false]
    refine reads_relayChunks hc' hfin he hreq ⟨R.head, R.parsed, part, R.accepted, hgot', hchunked,
      hlength, fun h => Bool.noConfusion (hcm.symm.trans h)⟩ fun hm => ?_
    rw [hgot', hmark hch (hbuf ▸ hm)]
    rfl
  | false =>
    have hf : (HttpParser.framing R.parsed).is_chunked = false :=
      (HttpParser.framing_chunked _).trans hch
    have hcm : m.parser.resp_is_chunked_ = false := hchunked.trans hf
    have hcount : Counts R m.parser [] := ⟨hreq, hcm, hf, hlength, hcounter⟩
    obtain ⟨hfit, -, hnone⟩ := R.framed.fits hf hpart
    simp only [HttpParser.isResponseChunked, hcm, Bool.not_false, if_true]
    split
    · refine reads_consume hfin hcount ?_ (by simpa [hbuf] using hpart) (by simpa [hbuf] using hgot')
        rfl
      rw [HttpParser.isExpectingBody, HttpParser.gotAll, hstate]
      cases (HttpParser.framing R.parsed).has_body <;> simp
    · rename_i hn
      have hrem : m.parser.bytesRemaining = m.parser.content_length_ := by
        rw [HttpParser.bytesRemaining, hcounter, Buffer.szSub_eq (Nat.zero_le _), Nat.sub_zero]
        exact hlength ▸ HttpParser.framing_lt _
      obtain rfl : part = [] := by
        rw [hrem, hlength, hbuf] at hn
        exact List.length_eq_zero_iff.mp (by omega)
      refine reads_finishIfGotAll hfin hbuf (fun hg => ?_) (fun hg => ?_)
      · rw [hgot', hnone]
        · rfl
        · rw [HttpParser.gotAll, hstate] at hg
          cases hb : (HttpParser.framing R.parsed).has_body with
          | true => simp [hb] at hg
          | false => rfl
      · refine ⟨?_, hreq, hgot' ▸ hcount.inBody hpart⟩
        rw [HttpParser.gotAll, hstate] at hg
        rw [HttpParser.isExpectingBody, hstate]
        cases hb : (HttpParser.framing R.parsed).has_body with
        | true => simp
        | false => simp [hb] at hg

theorem headLen_response (R : Response method) : headLen R.head = R.head.length := by
  rw [headLen, toInt_eq R.short, Int.toNat_natCast]

/-- A read of bytes that go on with one response: the stage it leads to, or the end. -/
theorem relayResponse_reads {R : Response method} {old : RemoteClient} (hst : Stage l.parser old)
    (hread : l.parser.isExpectingBody = false → l.parser.body_bytes_read_ = 0)
    (hc : l.conn.state_ = .kConnected) (hl : l.finished = false)
    (hq : l.parser.isExpectingBody = true → l.parser.isRequest = false)
    (hbuf : l.remote.inputBuffer_ = old.inputBuffer_ ++ data)
    (hgot : l.remote.exchange.got = old.exchange.got ++ data)
    (hpre : old.exchange.got ++ data <+: R.bytes)
    (hmark : R.parsed.headers.any HttpParser.isChunked = true →
      (find zeroChunk (payload true R.head old.exchange.got (old.exchange.got ++ data))).isSome = true →
      old.exchange.got ++ data = R.bytes) : Reads R.bytes l.relayResponse := by
  have hlen := headLen_response R
  have hpos := R.head_pos
  cases hst with
  | waiting he hret hb =>
    rw [hb] at hbuf
    simp only [relayResponse, he, Bool.false_eq_true, if_false]
    by_cases hlt : (old.exchange.got ++ data).length < R.head.length
    · have hphr := R.phr_incomplete hpre hlt
      have hparse : l.parser.parseResponse l.remote.inputBuffer_ =
          (false, { l.parser with is_req_ := false }) := by
        simp only [HttpParser.parseResponse, hbuf, hphr]
      simp only [hparse, Bool.false_eq_true, if_false]
      rw [Reads, if_neg]
      · refine .waiting he ?_ (hbuf.trans hgot.symm)
        have : (l.setParser { l.parser with is_req_ := false }).remote.exchange.got =
            old.exchange.got ++ data := hgot
        rw [this, hphr, ret]
        decide
      · exact Bool.eq_false_iff.mp hl
    · obtain ⟨part, hw, hpart⟩ := R.bytes_split hpre (Nat.le_of_not_lt hlt)
      have hbefore : old.exchange.got.length < R.head.length := by
        by_contra hle
        obtain ⟨part', hw', -⟩ := R.bytes_split ((List.prefix_append _ data).trans hpre)
          (Nat.le_of_not_lt hle)
        rw [hw', R.ret_done] at hret
        omega
      rw [hw] at hbuf hgot
      simp only [hbuf, R.parse_done, if_true]
      refine reads_relayHead hc hl rfl (hread he) hbuf hgot hpart fun hch hm => ?_
      have hpay : payload true R.head old.exchange.got (old.exchange.got ++ data) = part := by
        rw [payload, if_neg (by omega), hlen, if_neg (by simpa using hbefore), hw,
          List.drop_left]
      have := hmark hch (hpay ▸ hm)
      rw [hw] at this
      exact List.append_cancel_left this
  | uploading he hr => exact Bool.noConfusion ((hq he).symm.trans hr)
  | relaying he hr hb hbody =>
    obtain ⟨head, parsed, part, haccepted, hold, hchunked, hlength, hcounts⟩ := hbody
    rw [hb, List.nil_append] at hbuf
    rw [hold, List.append_assoc] at hpre hgot
    obtain ⟨rest, hrest⟩ := hpre
    rw [List.append_assoc] at hrest
    obtain ⟨rfl, rfl⟩ := haccepted.unique parse_response_stable R.accepted hrest
    have hpart : part ++ data <+: R.body := ⟨rest, List.append_cancel_left hrest⟩
    simp only [relayResponse, he, if_true, HttpParser.isResponseChunked]
    rcases Bool.eq_false_or_eq_true l.parser.resp_is_chunked_ with hcm | hcm
    · have hch : R.parsed.headers.any HttpParser.isChunked = true :=
        (HttpParser.framing_chunked _).symm.trans (hchunked.symm.trans hcm)
      simp only [hcm, Bool.not_true, Bool.false_eq_true, if_false]
      refine reads_relayChunks hc hl he hr ⟨R.head, R.parsed, part ++ data, R.accepted, hgot,
        hchunked, hlength, fun h => Bool.noConfusion (hcm.symm.trans h)⟩ fun hm => ?_
      have hpay : payload true R.head old.exchange.got (old.exchange.got ++ data) = data := by
        rw [payload, if_neg, hold, if_pos]
        · exact List.drop_left
        · simp
        · rw [hold, hlen]
          simp only [List.length_append]
          omega
      rw [hbuf] at hm
      have := hmark hch (hpay.symm ▸ hm)
      rwa [hold, List.append_assoc, ← hgot] at this
    · have hcount : Counts R l.parser part :=
        ⟨hr, hcm, hchunked.symm.trans hcm, hlength, (hcounts hcm).1⟩
      simp only [hcm, Bool.not_false, if_true]
      exact reads_consume hl hcount (.inl he) (hbuf ▸ hpart) (hbuf ▸ hgot) rfl

theorem Stage.congr {p : HttpParser} {remote remote' : RemoteClient} (h : Stage p remote)
    (hb : remote'.inputBuffer_ = remote.inputBuffer_) (he : remote'.exchange = remote.exchange) :
    Stage p remote' := by
  cases h with
  | waiting hx hret hg => exact .waiting hx (he ▸ hret) (hb ▸ he ▸ hg)
  | uploading hx hq hg hbuf => exact .uploading hx hq (he ▸ hg) (hb ▸ hbuf)
  | relaying hx hq hbuf hbody => exact .relaying hx hq (hb ▸ hbuf) (he ▸ hbody)

end Link

theorem RemoteClient.Conserved.congr {remote remote' : RemoteClient} (h : remote.Conserved)
    (hb : remote'.inputBuffer_ = remote.inputBuffer_) (he : remote'.exchange = remote.exchange) :
    remote'.Conserved := by
  rw [RemoteClient.Conserved, hb, he]
  exact h

end VortexNet.L7
