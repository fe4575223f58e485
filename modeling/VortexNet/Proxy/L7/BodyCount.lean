import VortexNet.Http.HttpServer
import VortexNet.Proxy.L7.Counting

/-!
# The counters of a body

`bytesRemaining` subtracts two unsigned counters that three classes reset. Here
their callbacks are written once more over a subtraction that has a value only
where it does not wrap, and over parsers of heads that have one only where no
byte of a body is counted. On every run they do what the source's do.
-/

namespace VortexNet

open Picohttpparser

-- ---------------------------------------------------------------------------
-- The checked parser
-- ---------------------------------------------------------------------------

namespace HttpParser

def bytesRemainingChecked (p : HttpParser) : Option Nat :=
  if p.body_bytes_read_ ≤ p.content_length_ then some (p.content_length_ - p.body_bytes_read_)
  else none

def parseRequestChecked (p : HttpParser) (buf : Bytes) : Option (Bool × HttpParser × Bytes) :=
  if p.body_bytes_read_ = 0 then some (p.parseRequest buf) else none

def parseResponseChecked (p : HttpParser) (buf : Bytes) : Option (Bool × HttpParser) :=
  if p.body_bytes_read_ = 0 then some (p.parseResponse buf) else none

structure Within (p : HttpParser) : Prop where
  read_le : p.body_bytes_read_ ≤ p.content_length_
  length_lt : p.content_length_ < 2 ^ 64

variable {p p' : HttpParser} {buf buf' : Bytes} {n : Nat}

theorem within_reset (p : HttpParser) : Within p.reset := ⟨Nat.le_refl 0, Nat.two_pow_pos 64⟩

theorem Within.bytesRemaining (h : Within p) :
    p.bytesRemaining = p.content_length_ - p.body_bytes_read_ :=
  Buffer.szSub_eq h.read_le h.length_lt

theorem Within.checked (h : Within p) : p.bytesRemainingChecked = some p.bytesRemaining := by
  rw [bytesRemainingChecked, if_pos h.read_le, h.bytesRemaining]

theorem Within.consumeBody (h : Within p) (buf : Bytes) (hn : n ≤ p.bytesRemaining) :
    Within (p.consumeBody buf n).1 := by
  have hrem := h.bytesRemaining
  obtain ⟨hle, hlt⟩ := h
  have hadd : szAdd p.body_bytes_read_ n = p.body_bytes_read_ + n := Buffer.szAdd_eq (by omega)
  refine ⟨?_, hlt⟩
  simp only [HttpParser.consumeBody, hadd]
  omega

theorem Within.parseRequest (h : Within p) (h0 : p.body_bytes_read_ = 0)
    (hp : p.parseRequest buf = (parsed, p', buf')) :
    Within p' ∧ p'.body_bytes_read_ = 0 := by
  cases parsed with
  | false =>
    obtain ⟨-, rfl⟩ := parseRequest_unparsed hp
    exact ⟨⟨h.read_le, h.length_lt⟩, h0⟩
  | true =>
    obtain ⟨head, len, rfl⟩ := requestParsed_of_parseRequest hp
    have hlt := (L7.requestField_lt head.headers {} (by decide) (fun h => (by cases h))).1
    unfold requestParsed
    dsimp only
    split
    · exact ⟨⟨h0.trans_le (Nat.zero_le _), hlt⟩, h0⟩
    · exact ⟨⟨h.read_le, h.length_lt⟩, h0⟩

theorem Within.parseResponse (h : Within p) (h0 : p.body_bytes_read_ = 0)
    (hp : p.parseResponse buf = (parsed, p')) : Within p' ∧ p'.body_bytes_read_ = 0 := by
  cases parsed with
  | false =>
    obtain rfl := parseResponse_unparsed hp
    exact ⟨⟨h.read_le, h.length_lt⟩, h0⟩
  | true =>
    obtain ⟨head, len, rfl⟩ := responseParsed_of_parseResponse hp
    exact ⟨⟨h0.trans_le (Nat.zero_le _), framing_lt head⟩, h0⟩

structure Even (p : HttpParser) : Prop where
  within : Within p
  settled : L7.Settled p

structure Begun (p : HttpParser) : Prop where
  within : Within p
  inMessage : L7.Link.InMessage p

theorem even_reset (p : HttpParser) : Even p.reset := ⟨within_reset p, fun _ => rfl⟩

theorem Even.begun (h : Even p) (he : p.isExpectingBody = true) : Begun p := ⟨h.within, .inl he⟩

theorem Begun.even (h : Begun p) (hg : ¬ p.gotAll = true) : Even p where
  within := h.within
  settled he := absurd he (Bool.not_eq_false _ ▸ h.inMessage.resolve_right hg)

theorem Begun.consumeBody (h : Begun p) (buf : Bytes) (hn : n ≤ p.bytesRemaining) :
    Begun (p.consumeBody buf n).1 :=
  ⟨h.within.consumeBody buf hn, L7.Link.inMessage_consumeBody h.inMessage buf n⟩

theorem Even.parseRequestChecked (h : Even p) (he : p.isExpectingBody = false) (buf : Bytes) :
    p.parseRequestChecked buf = some (p.parseRequest buf) :=
  if_pos (h.settled he)

theorem Even.parseResponseChecked (h : Even p) (he : p.isExpectingBody = false) (buf : Bytes) :
    p.parseResponseChecked buf = some (p.parseResponse buf) :=
  if_pos (h.settled he)

theorem requestParsed_inMessage (p : HttpParser) (head : RequestHead) (len : Nat) :
    L7.Link.InMessage (p.requestParsed head len) := by
  unfold requestParsed
  dsimp only
  split
  · exact .inl rfl
  · exact .inr rfl

theorem Even.parseRequest (h : Even p) (he : p.isExpectingBody = false)
    (hp : p.parseRequest buf = (parsed, p', buf')) : Even p' ∧ (parsed = true → Begun p') := by
  obtain ⟨hw, h0⟩ := h.within.parseRequest (h.settled he) hp
  refine ⟨⟨hw, fun _ => h0⟩, ?_⟩
  rintro rfl
  obtain ⟨head, len, rfl⟩ := requestParsed_of_parseRequest hp
  exact ⟨hw, requestParsed_inMessage _ head len⟩

end HttpParser

-- ---------------------------------------------------------------------------
-- The HTTP server
-- ---------------------------------------------------------------------------

namespace HttpServer

open HttpParser

def collectBodyChecked (s : HttpServer) : Option HttpServer := do
  let remaining ← s.parser.bytesRemainingChecked
  let n := min remaining s.inputBuffer_.length
  let s := if 0 < n then
      let (parser, buf) := s.parser.consumeBody s.inputBuffer_ n
      { s with body := s.body ++ s.inputBuffer_.take n, parser, inputBuffer_ := buf }
    else s
  some (if s.parser.gotAll then s.dispatch else s)

def onMessageChecked (s : HttpServer) : Option HttpServer :=
  if s.parser.isExpectingBody then s.collectBodyChecked
  else do
    let (parsed, parser, buf) ← s.parser.parseRequestChecked s.inputBuffer_
    let s := { s with parser, inputBuffer_ := buf }
    if parsed then
      let s := { s with inputBuffer_ := s.inputBuffer_.drop s.parser.headerLen }
      if s.parser.isExpectingBody then s.collectBodyChecked else some s.dispatch
    else some s

def handleReadChecked (s : HttpServer) (data : Bytes) : Option HttpServer :=
  { s with inputBuffer_ := s.inputBuffer_ ++ data }.onMessageChecked

variable {s : HttpServer}

theorem collectBodyChecked_eq (h : Within s.parser) :
    s.collectBodyChecked = some s.collectBody := by
  rw [collectBodyChecked, h.checked]
  rfl

theorem even_dispatch : Even s.dispatch.parser := even_reset s.parser

theorem even_collectBody (h : Begun s.parser) : Even s.collectBody.parser := by
  simp only [collectBody]
  split
  · have hcount := h.consumeBody s.inputBuffer_
      (Nat.min_le_left s.parser.bytesRemaining s.inputBuffer_.length)
    split
    · exact even_dispatch
    · exact hcount.even ‹_›
  · split
    · exact even_dispatch
    · exact h.even ‹_›

theorem onMessage_checked (h : Even s.parser) :
    s.onMessageChecked = some s.onMessage ∧ Even s.onMessage.parser := by
  unfold onMessageChecked onMessage
  split
  · rename_i he
    exact ⟨collectBodyChecked_eq h.within, even_collectBody (h.begun he)⟩
  · rename_i he
    have he : s.parser.isExpectingBody = false := Bool.eq_false_iff.mpr he
    rw [h.parseRequestChecked he]
    cases hp : s.parser.parseRequest s.inputBuffer_ with
    | mk parsed q =>
      obtain ⟨heven, hbegun⟩ := h.parseRequest he hp
      cases parsed with
      | false => exact ⟨rfl, heven⟩
      | true =>
        simp only [Option.bind_eq_bind, Option.bind_some, if_true]
        split
        · exact ⟨collectBodyChecked_eq heven.within, even_collectBody (hbegun rfl)⟩
        · exact ⟨rfl, even_dispatch⟩

theorem even_of_reads (reads : List Bytes) : Even (reads.foldl handleRead {}).parser := by
  have h : ∀ s : HttpServer, Even s.parser → Even (reads.foldl handleRead s).parser := by
    induction reads with
    | nil => exact fun _ h => h
    | cons data reads ih =>
      intro s hs
      exact ih _ (onMessage_checked (s := { s with inputBuffer_ := s.inputBuffer_ ++ data }) hs).2
  exact h {} (even_reset {})

theorem handleRead_checked (reads : List Bytes) (data : Bytes) :
    (reads.foldl handleRead {}).handleReadChecked data =
      some ((reads.foldl handleRead {}).handleRead data) :=
  (onMessage_checked (s := { reads.foldl handleRead {} with
    inputBuffer_ := (reads.foldl handleRead {}).inputBuffer_ ++ data }) (even_of_reads reads)).1

end HttpServer

-- ---------------------------------------------------------------------------
-- The two directions of the gateway
-- ---------------------------------------------------------------------------

namespace L7

open VortexNet.HttpParser
open Systems (Reach Always exec)

namespace Link

def forwardBodyChecked (l : Link) : Option Link := do
  let remaining ← l.parser.bytesRemainingChecked
  let n := min l.conn.inputBuffer_.length remaining
  some ((l.forward n).consumeRequest n).resetIfGotAll

def forwardHeadChecked (l : Link) : Option Link := do
  let header_len := l.parser.headerLen
  let l := (l.forward header_len).retrieveRequest header_len
  let remaining ← l.parser.bytesRemainingChecked
  let n := min l.conn.inputBuffer_.length remaining
  let l := if 0 < n then (l.forward n).consumeRequest n else l
  some l.resetIfGotAll

def relayBodyChecked (l : Link) : Option Link := do
  let remaining ← l.parser.bytesRemainingChecked
  let n := min l.remote.inputBuffer_.length remaining
  some ((l.relay n).consumeResponse n).finishIfGotAll

def relayHeadChecked (l : Link) : Option Link :=
  let header_len := l.parser.headerLen
  let l := (l.relay header_len).retrieve header_len
  if !l.parser.isResponseChunked then do
    let remaining ← l.parser.bytesRemainingChecked
    let n := min l.remote.inputBuffer_.length remaining
    let l := if 0 < n then (l.relay n).consumeResponse n else l
    some l.finishIfGotAll
  else some l.relayChunks

def relayResponseChecked (l : Link) : Option Link :=
  if l.parser.isExpectingBody then
    if !l.parser.isResponseChunked then l.relayBodyChecked else some l.relayChunks
  else do
    let (parsed, parser) ← l.parser.parseResponseChecked l.remote.inputBuffer_
    let l := l.setParser parser
    if parsed then l.relayHeadChecked else some l

variable {l : Link} {n : Nat}

theorem even_resetIfGotAll (h : Begun l.parser) : Even l.resetIfGotAll.parser := by
  unfold resetIfGotAll
  split
  · exact even_reset l.parser
  · exact h.even ‹_›

theorem even_finishIfGotAll (h : Begun l.parser) : Even l.finishIfGotAll.parser := by
  unfold finishIfGotAll
  split
  · exact even_reset l.parser
  · exact h.even ‹_›

theorem begun_consumeRequest (h : Begun l.parser) (hn : n ≤ l.parser.bytesRemaining) :
    Begun ((l.forward n).consumeRequest n).parser :=
  h.consumeBody l.conn.inputBuffer_ hn

theorem begun_consumeResponse (h : Begun l.parser) (hn : n ≤ l.parser.bytesRemaining) :
    Begun ((l.relay n).consumeResponse n).parser := by
  have hp := parser_relay l n
  have hrelay : Begun (l.relay n).parser := hp.symm ▸ h
  exact hrelay.consumeBody (l.relay n).remote.inputBuffer_ (hp.symm ▸ hn)

theorem even_forwardBody (h : Even l.parser) (he : l.parser.isExpectingBody = true) :
    Even l.forwardBody.parser :=
  even_resetIfGotAll (begun_consumeRequest (h.begun he) (Nat.min_le_right _ _))

theorem even_forwardHead (h : Begun l.parser) : Even l.forwardHead.parser := by
  simp only [forwardHead]
  refine even_resetIfGotAll ?_
  split
  · exact begun_consumeRequest (l := (l.forward l.parser.headerLen).retrieveRequest _) h
      (Nat.min_le_right _ _)
  · exact h

theorem even_relayChunks (h : Even l.parser) : Even l.relayChunks.parser := by
  have hp := parser_relay l l.remote.inputBuffer_.length
  simp only [relayChunks]
  split
  · exact even_reset _
  · split <;> exact hp.symm ▸ h

theorem forwardBodyChecked_eq (h : Within l.parser) : l.forwardBodyChecked = some l.forwardBody := by
  rw [forwardBodyChecked, h.checked]
  rfl

theorem forwardHeadChecked_eq (h : Within l.parser) : l.forwardHeadChecked = some l.forwardHead := by
  have hsent : Within ((l.forward l.parser.headerLen).retrieveRequest l.parser.headerLen).parser := h
  simp only [forwardHeadChecked, hsent.checked, Option.bind_eq_bind, Option.bind_some]
  rfl

theorem relayBodyChecked_eq (h : Within l.parser) : l.relayBodyChecked = some l.relayBody := by
  rw [relayBodyChecked, h.checked]
  rfl

theorem relayHead_checked (h : Begun l.parser)
    (hch : l.parser.isResponseChunked = true → l.parser.isExpectingBody = true) :
    l.relayHeadChecked = some l.relayHead ∧ Even l.relayHead.parser := by
  have hp : ((l.relay l.parser.headerLen).retrieve l.parser.headerLen).parser = l.parser :=
    parser_relay l _
  simp only [relayHeadChecked, relayHead]
  generalize (l.relay l.parser.headerLen).retrieve l.parser.headerLen = m at *
  rw [← hp] at h hch
  split
  · rw [h.within.checked]
    refine ⟨rfl, even_finishIfGotAll ?_⟩
    split
    · exact begun_consumeResponse h (Nat.min_le_right _ _)
    · exact h
  · rename_i hc
    rw [Bool.not_eq_true', Bool.not_eq_false] at hc
    have he := hch hc
    exact ⟨rfl, even_relayChunks ⟨h.within, fun h' => Bool.noConfusion (he.symm.trans h')⟩⟩

theorem relayResponse_checked (h : Even l.parser) :
    l.relayResponseChecked = some l.relayResponse ∧ Even l.relayResponse.parser := by
  unfold relayResponseChecked relayResponse
  split
  · rename_i he
    split
    · exact ⟨relayBodyChecked_eq h.within, even_finishIfGotAll
        (begun_consumeResponse (h.begun he) (Nat.min_le_right _ _))⟩
    · exact ⟨rfl, even_relayChunks h⟩
  · rename_i he
    have he : l.parser.isExpectingBody = false := Bool.eq_false_iff.mpr he
    rw [h.parseResponseChecked he]
    cases hp : l.parser.parseResponse l.remote.inputBuffer_ with
    | mk parsed p =>
      obtain ⟨hw, h0⟩ := h.within.parseResponse (h.settled he) hp
      cases parsed with
      | false => exact ⟨rfl, hw, fun _ => h0⟩
      | true =>
        obtain ⟨-, hm, hch⟩ := parsed_inMessage hp
        exact relayHead_checked (l := l.setParser p) ⟨hw, hm⟩ hch

end Link

def Client.parseRequestChecked (c : Client) : Option (Bool × Client) := do
  let (parsed, parser, buf) ← c.context.parser_.parseRequestChecked c.inputBuffer_
  some (parsed, { c with
    context := { c.context with parser_ := parser }
    inputBuffer_ := buf
    consumed := c.consumed + (c.inputBuffer_.length - buf.length) })

def Gateway.acceptChecked (g : Gateway) (c : Nat) (targetAddr : Bytes) : Option Gateway := do
  let (r, g) := g.borrowConnection targetAddr
  let conn := g.clients c
  let remote := (g.remotes r).bindClient c conn.context.parser_.request.method
  let conn := { conn with context := conn.context.BoundRClient r }
  let l ← Link.forwardHeadChecked { conn, remote }
  some (g.setLink c r l)

def Gateway.nullCallChecked (g : Gateway) (c : Nat) : Option Gateway := do
  let conn := g.clients c
  let remaining ← conn.context.parser_.bytesRemainingChecked
  let n := min conn.inputBuffer_.length remaining
  some { g.addLog c none [.forwarded conn.consumed n] with fault := some c }

def LB_Server.onMessageChecked (g : Gateway) (c now : Nat) : Option Gateway :=
  let conn := g.clients c
  if conn.context.parser_.isExpectingBody then
    match conn.context.client_ with
    | some r => do
      let l ← (g.link c r).forwardBodyChecked
      some (g.setLink c r l)
    | none => g.nullCallChecked c
  else do
    let (parsed, conn) ← conn.parseRequestChecked
    let g := g.setClient c conn
    if parsed then
      let (lb, verdict) := g.lb.judge conn.context conn.inputBuffer_ now
      let g := { g with lb }
      match verdict with
      | .refuse response => some (g.refuse c response)
      | .forward targetAddr => g.acceptChecked c targetAddr
    else some g

def RemoteClient.onMessageChecked (g : Gateway) (r : Nat) : Option Gateway :=
  let remote := g.remotes r
  match remote.clientConn_ with
  | some c =>
    if (g.clients c).alive ∧ remote.is_busy_ then do
      let l ← (g.link c r).relayResponseChecked
      let g := g.setLink c r l
      some (if l.finished then g.returnConnection c r else g)
    else some (g.setRemote r remote.disconnect)
  | none => some (g.setRemote r remote.disconnect)

variable {g : Gateway} {c r now : Nat}

theorem even_invariant : ParserInvariant Even Begun where
  fresh := even_reset {}
  parseRequest := Even.parseRequest
  forwardBody := Link.even_forwardBody
  forwardHead := Link.even_forwardHead
  relayResponse h := (Link.relayResponse_checked h).2

theorem acceptChecked_eq (h : Within (g.clients c).context.parser_) (targetAddr : Bytes) :
    g.acceptChecked c targetAddr = some (g.accept c targetAddr) := by
  simp only [Gateway.acceptChecked, Gateway.accept]
  rw [Link.forwardHeadChecked_eq]
  · rfl
  · simp only [Gateway.borrowConnection_clients]
    exact h

theorem onMessageChecked_eq (h : EveryParser Even g) (c now : Nat) :
    LB_Server.onMessageChecked g c now = some (LB_Server.onMessage g c now) := by
  simp only [LB_Server.onMessageChecked, LB_Server.onMessage]
  split
  · cases (g.clients c).context.client_ with
    | some r =>
      simp only [Link.forwardBodyChecked_eq (l := g.link c r) (h c).within]
      rfl
    | none =>
      simp only [Gateway.nullCallChecked, (h c).within.checked]
      rfl
  · rename_i he
    have he : (g.clients c).context.parser_.isExpectingBody = false := Bool.eq_false_iff.mpr he
    have hchecked : (g.clients c).parseRequestChecked = some (g.clients c).parseRequest := by
      rw [Client.parseRequestChecked, (h c).parseRequestChecked he]
      rfl
    rw [hchecked]
    cases hp : (g.clients c).parseRequest with
    | mk parsed conn =>
      obtain ⟨p, buf, hparse, hconn⟩ := Client.parseRequest_eq hp
      obtain ⟨heven, -⟩ := (h c).parseRequest he hparse
      have hparser : conn.context.parser_ = p := hconn ▸ rfl
      cases parsed with
      | false => rfl
      | true =>
        simp only [Option.bind_eq_bind, Option.bind_some, if_true]
        cases ((g.setClient c conn).lb.judge conn.context conn.inputBuffer_ now).2 with
        | refuse => rfl
        | forward targetAddr =>
          refine acceptChecked_eq ?_ targetAddr
          rw [Gateway.setClient_clients, Function.update_self, hparser]
          exact heven.within

theorem onResponseChecked_eq (h : EveryParser Even g) (r : Nat) :
    RemoteClient.onMessageChecked g r = some (RemoteClient.onMessage g r) := by
  simp only [RemoteClient.onMessageChecked, RemoteClient.onMessage]
  cases (g.remotes r).clientConn_ with
  | none => rfl
  | some c =>
    simp only [(Link.relayResponse_checked (l := g.link c r) (h c)).1]
    split <;> rfl

/-- The next callback of any run, in either direction of a gateway or of an HTTP server, finds
both counters in order. -/
theorem counters_checked (h : Reach step Always { lb } g) (c r : Nat) (data : Bytes) (now : Nat)
    (reads : List Bytes) :
    LB_Server.onMessageChecked (g.read c data) c now =
        some (LB_Server.onMessage (g.read c data) c now) ∧
      RemoteClient.onMessageChecked (g.receive r data) r =
        some (RemoteClient.onMessage (g.receive r data) r) ∧
      (reads.foldl HttpServer.handleRead {}).handleReadChecked data =
        some ((reads.foldl HttpServer.handleRead {}).handleRead data) := by
  have hevery : EveryParser Even g := even_invariant.of_reach h
  have hread : EveryParser Even (g.read c data) := hevery.update rfl (hevery c)
  exact ⟨onMessageChecked_eq hread c now, onResponseChecked_eq (g := g.receive r data) hevery r,
    HttpServer.handleRead_checked reads data⟩

/-- The head of an upload of nine bytes has come with two of them. -/
theorem counters_checked_upload : ∃ g, exec L7.step Always { lb := unconfigured }
      [.accept, .clientRead 0 (ascii "POST /im HTTP/1.1\r\nContent-Length: 9\r\n\r\nab") 0] = some g ∧
    (g.clients 0).context.parser_.body_bytes_read_ = 2 ∧
    (g.clients 0).context.parser_.content_length_ = 9 ∧
    LB_Server.onMessageChecked (g.read 0 (ascii "cd")) 0 5 =
      some (LB_Server.onMessage (g.read 0 (ascii "cd")) 0 5) ∧
    RemoteClient.onMessageChecked (g.receive 0 (ascii "cd")) 0 =
      some (RemoteClient.onMessage (g.receive 0 (ascii "cd")) 0) := by
  have hrun : (exec L7.step Always { lb := unconfigured }
      [.accept, .clientRead 0 (ascii "POST /im HTTP/1.1\r\nContent-Length: 9\r\n\r\nab") 0]).any
      (fun g => (g.clients 0).context.parser_.body_bytes_read_ = 2 ∧
        (g.clients 0).context.parser_.content_length_ = 9) = true := by
    decide +kernel
  obtain ⟨g, hg, h⟩ := (Option.any_eq_true _ _).mp hrun
  obtain ⟨hread, hlength⟩ := of_decide_eq_true h
  obtain ⟨hclient, hbackend, -⟩ := counters_checked (.of_exec hg) 0 0 (ascii "cd") 5 []
  exact ⟨g, hg, hread, hlength, hclient, hbackend⟩

end L7

end VortexNet
