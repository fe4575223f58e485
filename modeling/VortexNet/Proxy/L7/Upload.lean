import VortexNet.Http.HttpServer
import VortexNet.Proxy.L7.Connections
import VortexNet.Proxy.L7.Counting

/-!
# The way of a request to its backend

`Upload` follows one client from before the head of a request: what it has sent
and the connection it was given, with what was written there before. However the
request is cut into reads, and whenever the connection comes up among them, the
connection gets the head and the body and nothing else (`writes_exactly`).
-/

namespace VortexNet.L7

open Incremental Picohttpparser
open HttpServer (Request)
open Systems (Reach Always exec)

-- ---------------------------------------------------------------------------
-- Following a client
-- ---------------------------------------------------------------------------

def Gateway.judged (g : Gateway) (c : Nat) (data : Bytes) (now : Nat) : Option Verdict :=
  let conn := (g.read c data).clients c
  if conn.context.parser_.isExpectingBody then none
  else
    let (parsed, conn) := conn.parseRequest
    if parsed then some (g.lb.judge conn.context conn.inputBuffer_ now).2 else none

/-- The gateway, what a client has sent since the beginning of its request, and the connection
that was borrowed for it, with what this had written before. -/
structure Upload where
  gateway : Gateway
  sent : Bytes := []
  lent : Option (Nat × Bytes) := none

def Upload.step (c : Nat) (u : Upload) (e : Event) : Option Upload :=
  (L7.step u.gateway e).map fun g => match e with
  | .clientRead d data now =>
    if d = c then
      { gateway := g
        sent := u.sent ++ data
        lent := match u.gateway.judged c data now with
          | some (.forward targetAddr) =>
            let (r, lent) := u.gateway.borrowConnection targetAddr
            some (r, (lent.remotes r).output)
          | _ => u.lent }
    else { u with gateway := g }
  | _ => { u with gateway := g }

def Aside (c : Nat) (g : Gateway) (e : Event) : Prop :=
  ∀ g' ∈ L7.step g e, g'.clients c = g.clients c ∧
    ∀ r ∈ (g.clients c).context.client_, g'.remotes r = g.remotes r

/-- The head passes the checks, and an idle connection that is borrowed for it is open. -/
def Admitted (g : Gateway) : Option Verdict → Prop
  | some (.forward targetAddr) =>
    ∀ r ∈ (g.idle_map_ targetAddr).getLast?, (g.remotes r).conn_ = some .kConnected
  | some (.refuse _) => False
  | none => True

/-- The client sends `R`, and with its end the beginning of `more` may come. Connections come up
at any time; what else happens leaves the client and its connection alone. -/
def Uploading (R : Request) (more : Bytes) (c : Nat) (u : Upload) : Event → Prop
  | .clientRead d data now =>
    if d = c then
      u.sent.length < R.bytes.length ∧ u.sent ++ data <+: R.bytes ++ more ∧
        Admitted u.gateway (u.gateway.judged c data now)
    else Aside c u.gateway (.clientRead d data now)
  | .backendUp _ => True
  | e => Aside c u.gateway e

/-- No request of the client is under way. -/
structure Ready (g : Gateway) (c : Nat) : Prop where
  parser : (g.clients c).context.parser_.isExpectingBody = false
  inputBuffer : (g.clients c).inputBuffer_ = []

/-- All of `w` was written after `old`, or the connection is not up and all of it waits. -/
def Written (old w : Bytes) (remote : RemoteClient) : Prop :=
  remote.conn_ = some .kConnected ∧ remote.connecting = false ∧ remote.output = old ++ w ∨
    remote.conn_ = none ∧ remote.output = old ∧ remote.pendingBuffer_ = w

-- ---------------------------------------------------------------------------
-- A link
-- ---------------------------------------------------------------------------

variable {R : Request} {old sent data more : Bytes} {remote : RemoteClient} {p : HttpParser}
  {l : Link} {n : Nat}

theorem Written.send (h : Written old w remote) (data : Bytes) :
    Written old (w ++ data) (remote.sendToBackend data) := by
  rcases h with ⟨hc, hn, ho⟩ | ⟨hc, ho, hp⟩
  · simp only [RemoteClient.sendToBackend, hc]
    exact .inl ⟨rfl, hn, by rw [ho, List.append_assoc]⟩
  · simp only [RemoteClient.sendToBackend, hc]
    exact .inr ⟨rfl, ho, by rw [hp]⟩

structure Sending (R : Request) (p : HttpParser) (len : Nat) : Prop where
  state : p.isExpectingBody = true
  request : p.isRequest = true
  length : p.content_length_ = R.body.length
  read : R.head.length + p.body_bytes_read_ = len

structure Uploaded (R : Request) (old sent : Bytes) (l : Link) : Prop where
  written : Written old (sent.take R.bytes.length) l.remote
  left : l.conn.inputBuffer_ = sent.drop R.bytes.length
  sending : sent.length < R.bytes.length → Sending R l.parser sent.length

theorem Request.bytes_length (R : Request) : R.bytes.length = R.head.length + R.body.length :=
  List.length_append

theorem Sending.bytesRemaining (h : Sending R p len) (hlt : len < R.bytes.length) :
    p.bytesRemaining = R.bytes.length - len := by
  have hbody := R.body_lt
  have hbytes := Request.bytes_length R
  obtain ⟨-, -, hl, hr⟩ := h
  rw [HttpParser.bytesRemaining, hl, Buffer.szSub_eq (by omega) hbody]
  omega

theorem Sending.uploaded (h : Sending R l.parser sent.length) (hlt : sent.length < R.bytes.length)
    (hw : Written old (sent.take R.bytes.length) l.remote) (hbuf : l.conn.inputBuffer_ = data)
    (hn : n = min data.length l.parser.bytesRemaining) :
    Uploaded R old (sent ++ data) ((l.forward n).consumeRequest n).resetIfGotAll := by
  have hrem := h.bytesRemaining hlt
  have hbody := R.body_lt
  have hbytes := Request.bytes_length R
  rw [hrem] at hn
  refine ⟨?_, ?_, fun hmore => ?_⟩
  · have htake : data.take n = data.take (R.bytes.length - sent.length) :=
      List.take_eq_take_iff.mpr (by omega)
    rw [Link.resetIfGotAll_remote, List.take_append, ← htake, ← hbuf]
    exact hw.send _
  · have hdrop : data.drop n = data.drop (R.bytes.length - sent.length) :=
      List.drop_eq_drop_iff.mpr (by omega)
    rw [Link.resetIfGotAll_inputBuffer, List.drop_append,
      List.drop_of_length_le (Nat.le_of_lt hlt), List.nil_append, ← hdrop, ← hbuf]
    rfl
  · rw [List.length_append] at hmore ⊢
    obtain rfl : n = data.length := by omega
    obtain ⟨hs, hq, hl, hr⟩ := h
    have hadd : szAdd l.parser.body_bytes_read_ data.length =
        l.parser.body_bytes_read_ + data.length := Buffer.szAdd_eq (by omega)
    have hnot : ¬ l.parser.content_length_ ≤ l.parser.body_bytes_read_ + data.length := by omega
    have hp : ((l.forward data.length).consumeRequest data.length).parser = { l.parser with
        body_bytes_read_ := l.parser.body_bytes_read_ + data.length } := by
      show (l.parser.consumeBody l.conn.inputBuffer_ data.length).1 = _
      simp only [HttpParser.consumeBody, hadd, if_neg hnot]
    rw [Link.resetIfGotAll, if_neg, hp]
    · exact ⟨hs, hq, hl, by simp only; omega⟩
    · rw [hp, HttpParser.gotAll]
      rw [HttpParser.isExpectingBody, decide_eq_true_eq] at hs
      simp [hs]

theorem Uploaded.forwardBody (h : Uploaded R old sent l) (hlt : sent.length < R.bytes.length) :
    Uploaded R old (sent ++ data) ({ l with conn :=
      { l.conn with inputBuffer_ := l.conn.inputBuffer_ ++ data } } : Link).forwardBody := by
  have hbuf : l.conn.inputBuffer_ ++ data = data := by
    rw [h.left, List.drop_of_length_le (Nat.le_of_lt hlt), List.nil_append]
  rw [hbuf]
  exact Sending.uploaded (l := { l with conn := { l.conn with inputBuffer_ := data } })
    (h.sending hlt) hlt h.written rfl rfl

theorem sending_requestParsed (hrest : Rested p) (hq : p.isRequest = true) :
    (R.body = [] → (p.requestParsed R.parsed n).gotAll = true ∧
        (p.requestParsed R.parsed n).bytesRemaining = 0) ∧
      (R.body ≠ [] → Sending R (p.requestParsed R.parsed n) R.head.length) := by
  have hf := HttpParser.framed_request R.framed
  simp only [HttpParser.requestParsed, hf, decide_eq_true_eq]
  constructor
  · intro hb
    rw [if_neg (by simp [hb])]
    exact ⟨rfl, Rested.bytesRemaining ⟨hrest.read, hrest.chunked, hrest.length⟩⟩
  · intro hb
    rw [if_pos (List.length_pos_iff.mpr hb)]
    exact ⟨rfl, hq, rfl, by simp only [hrest.read, Nat.add_zero]⟩

theorem uploaded_forwardHead (hp : l.parser = p.requestParsed R.parsed R.head.length)
    (hrest : Rested p) (hq : p.isRequest = true) (hw : Written old [] l.remote)
    (hbuf : l.conn.inputBuffer_ = R.head ++ data) :
    Uploaded R old (R.head ++ data) l.forwardHead := by
  have hbytes := Request.bytes_length R
  have hlen : l.parser.headerLen = R.head.length :=
    hp ▸ HttpParser.headerLen_requestParsed p R.parsed _
  have hsent : Written old R.head
      ((l.forward R.head.length).retrieveRequest R.head.length).remote := by
    show Written old R.head (l.remote.sendToBackend (l.conn.inputBuffer_.take R.head.length))
    rw [hbuf, List.take_left]
    exact hw.send R.head
  have hleft : ((l.forward R.head.length).retrieveRequest R.head.length).conn.inputBuffer_ =
      data := by
    show l.conn.inputBuffer_.drop R.head.length = data
    rw [hbuf, List.drop_left]
  have hp' : ((l.forward R.head.length).retrieveRequest R.head.length).parser = l.parser := rfl
  obtain ⟨hnone, hsome⟩ := sending_requestParsed (R := R) (n := R.head.length) hrest hq
  rw [← hp, ← hp'] at hnone hsome
  simp only [Link.forwardHead, hlen]
  generalize (l.forward R.head.length).retrieveRequest R.head.length = m at *
  by_cases hb : R.body = []
  · obtain ⟨hg, hrem⟩ := hnone hb
    have hwhole : R.bytes.length = R.head.length := by rw [hbytes, hb]; rfl
    rw [hrem, Nat.min_zero, if_neg (Nat.lt_irrefl 0)]
    refine ⟨?_, ?_, fun h => ?_⟩
    · rw [Link.resetIfGotAll_remote, hwhole, List.take_left]
      exact hsent
    · rw [Link.resetIfGotAll_inputBuffer, hwhole, List.drop_left]
      exact hleft
    · rw [List.length_append] at h
      omega
  · have hs := hsome hb
    have hpos := List.length_pos_iff.mpr hb
    have hlt : R.head.length < R.bytes.length := by omega
    have hw : Written old (R.head.take R.bytes.length) m.remote := by
      rwa [List.take_of_length_le (Nat.le_of_lt hlt)]
    split
    · exact hs.uploaded hlt hw hleft (by rw [hleft])
    · rename_i hn
      rw [hs.bytesRemaining hlt, hleft] at hn
      obtain rfl : data = [] := List.length_eq_zero_iff.mp (by omega)
      have hg : ¬ m.parser.gotAll = true := by
        have he := hs.state
        rw [HttpParser.isExpectingBody, decide_eq_true_eq] at he
        simp [HttpParser.gotAll, he]
      rw [Link.resetIfGotAll, if_neg hg, List.append_nil]
      refine ⟨hw, ?_, fun _ => hs⟩
      rw [hleft, List.drop_of_length_le (Nat.le_of_lt hlt)]

-- ---------------------------------------------------------------------------
-- One step
-- ---------------------------------------------------------------------------

variable {g g' w : Gateway} {c r now : Nat} {u u' : Upload} {conn : Client}

inductive Phase (R : Request) (c : Nat) (u : Upload) : Prop
  | head : u.lent = none → u.sent.length < R.head.length →
      (u.gateway.clients c).context.parser_.isExpectingBody = false →
      (u.gateway.clients c).inputBuffer_ = u.sent → Phase R c u
  | body {s : Nat} {before : Bytes} : u.lent = some (s, before) →
      R.head.length ≤ u.sent.length → (u.gateway.clients c).context.client_ = some s →
      (u.gateway.clients c).alive = true → (u.gateway.remotes s).clientConn_ = some c →
      Uploaded R before u.sent (u.gateway.link c s) → Phase R c u

theorem Uploaded.congr (h : Uploaded R old sent l) (hr : l'.remote = l.remote)
    (hc : l'.conn = l.conn) : Uploaded R old sent l' :=
  ⟨hr ▸ h.written, hc ▸ h.left, by
    have hp : l'.parser = l.parser := congrArg (·.context.parser_) hc
    exact hp ▸ h.sending⟩

theorem Gateway.borrowConnection_congr (hr : w.remotes = g.remotes)
    (hm : w.idle_map_ = g.idle_map_) (hn : w.remoteCount = g.remoteCount) (a : Bytes) :
    (w.borrowConnection a).1 = (g.borrowConnection a).1 ∧
      (w.borrowConnection a).2.remotes = (g.borrowConnection a).2.remotes := by
  simp only [Gateway.borrowConnection, hm]
  split
  · exact ⟨rfl, hr⟩
  · simp [hr, hn]

theorem written_borrowed (ho : Opened g)
    (hopen : ∀ r ∈ (g.idle_map_ a).getLast?, (g.remotes r).conn_ = some .kConnected) :
    Written ((g.borrowConnection a).2.remotes (g.borrowConnection a).1).output []
      ((g.borrowConnection a).2.remotes (g.borrowConnection a).1) := by
  unfold Gateway.borrowConnection
  cases hlast : (g.idle_map_ a).getLast? with
  | some r =>
    have hc := hopen r hlast
    exact .inl ⟨hc, ho r (hc ▸ Option.some_ne_none _), (List.append_nil _).symm⟩
  | none =>
    refine .inr ?_
    simp

def headParsed (R : Request) (p : HttpParser) : HttpParser :=
  { p with is_req_ := true }.requestParsed R.parsed R.head.length

theorem parseRequest_head (hbuf : conn.inputBuffer_ = R.head ++ data) :
    conn.parseRequest = (true, { conn with
      context := { conn.context with parser_ := headParsed R conn.context.parser_ } }) := by
  simp only [Client.parseRequest, hbuf, HttpParser.parseRequest_accepts R.accepted R.head_int]
  rw [← hbuf, Nat.sub_self, Nat.add_zero]
  rfl

theorem phase_accept (hs : Sane (g.clients c).context.parser_) (ho : Opened g)
    (ha : (w.clients c).alive = true) (hb : (g.clients c).context.parser_.isExpectingBody = false)
    (hp : (w.clients c).context.parser_ = headParsed R (g.clients c).context.parser_)
    (hbuf : (w.clients c).inputBuffer_ = R.head ++ trailer) (hr : w.remotes = g.remotes)
    (hm : w.idle_map_ = g.idle_map_) (hn : w.remoteCount = g.remoteCount)
    (hopen : ∀ r ∈ (g.idle_map_ a).getLast?, (g.remotes r).conn_ = some .kConnected) :
    Phase R c {
      gateway := w.accept c a
      sent := R.head ++ trailer
      lent := some ((g.borrowConnection a).1,
        ((g.borrowConnection a).2.remotes (g.borrowConnection a).1).output) } := by
  obtain ⟨hfirst, hremotes⟩ := Gateway.borrowConnection_congr hr hm hn a
  have hwritten := written_borrowed (a := a) ho hopen
  rw [← hfirst, ← hremotes] at hwritten ⊢
  have hclients := Gateway.borrowConnection_clients (g := w) (a := a)
  simp only [Gateway.accept]
  generalize (w.borrowConnection a).1 = r at *
  generalize (w.borrowConnection a).2 = v at *
  rw [hclients]
  generalize hl₀ : ({
    conn := { w.clients c with context := (w.clients c).context.BoundRClient r }
    remote := (v.remotes r).bindClient c (w.clients c).context.parser_.request.method } : Link) = l₀
  have hf := Link.forwardHead_forwards l₀
  have hup : Uploaded R (v.remotes r).output (R.head ++ trailer) l₀.forwardHead := by
    refine uploaded_forwardHead (p := { (g.clients c).context.parser_ with is_req_ := true })
      ?_ ?_ rfl ?_ ?_
    · rw [← hl₀]
      exact hp
    · obtain ⟨hread, hchunked, hlength⟩ := hs.rested hb
      exact ⟨hread, hchunked, hlength⟩
    · rw [← hl₀]
      exact hwritten
    · rw [← hl₀]
      exact hbuf
  have hq₀ : l₀.parser.isRequest = true := by
    rw [← hl₀]
    show (w.clients c).context.parser_.isRequest = true
    rw [hp, headParsed, HttpParser.requestParsed]
    dsimp only
    split <;> rfl
  have hcl₀ : l₀.conn.context.client_ = some r := hl₀ ▸ rfl
  have ha₀ : l₀.conn.alive = true := hl₀ ▸ ha
  have hbound₀ : l₀.remote.clientConn_ = some c := hl₀ ▸ rfl
  generalize l₀.forwardHead = l at *
  refine .body rfl ?_ ?_ ?_ ?_ (hup.congr ?_ ?_)
  · simp
  · simp only [Gateway.setLink_clients, Function.update_self]
    rcases hf.client with h | ⟨h, -⟩
    · exact h.trans hcl₀
    · exact Bool.noConfusion (h.symm.trans hq₀)
  · simp only [Gateway.setLink_clients, Function.update_self]
    exact hf.alive.trans ha₀
  · simp only [Gateway.setLink_remotes, Function.update_self]
    exact hf.bound.trans hbound₀
  · simp
  · simp

theorem phase_forward (now : Nat) (hhead : R.head.length ≤ sent.length)
    (hlt : sent.length < R.bytes.length)
    (hcl : (g.clients c).context.client_ = some r) (ha : (g.clients c).alive = true)
    (hbound : (g.remotes r).clientConn_ = some c) (hup : Uploaded R old sent (g.link c r)) :
    g.judged c data now = none ∧ Phase R c {
      gateway := LB_Server.onMessage (g.read c data) c now
      sent := sent ++ data
      lent := some (r, old) } := by
  have hsending := hup.sending hlt
  have he : (g.clients c).context.parser_.isExpectingBody = true := hsending.state
  have hlink : (g.read c data).link c r = { g.link c r with conn :=
      { g.clients c with inputBuffer_ := (g.clients c).inputBuffer_ ++ data } } := by
    simp [Gateway.link, Gateway.read]
  have hmsg : LB_Server.onMessage (g.read c data) c now =
      (g.read c data).setLink c r ((g.read c data).link c r).forwardBody := by
    simp [LB_Server.onMessage, Gateway.read, he, hcl]
  refine ⟨by simp [Gateway.judged, Gateway.read, he], ?_⟩
  have hup' : Uploaded R old (sent ++ data) ((g.read c data).link c r).forwardBody :=
    hlink ▸ hup.forwardBody hlt
  have hf := Link.forwardBody_forwards ((g.read c data).link c r)
  rw [hmsg]
  have hconn : ((g.read c data).link c r).conn.context.client_ = some r ∧
      ((g.read c data).link c r).conn.alive = true ∧
      ((g.read c data).link c r).parser.isRequest = true := by
    rw [hlink]
    exact ⟨hcl, ha, hsending.request⟩
  have hbound' : ((g.read c data).link c r).remote.clientConn_ = some c := hbound
  generalize (g.read c data).link c r = l₀ at *
  generalize l₀.forwardBody = l at *
  refine .body rfl ?_ ?_ ?_ ?_ (hup'.congr ?_ ?_)
  · rw [List.length_append]
    omega
  · simp only [Gateway.setLink_clients, Function.update_self]
    rcases hf.client with h | ⟨h, -⟩
    · exact h.trans hconn.1
    · exact Bool.noConfusion (h.symm.trans hconn.2.2)
  · simp only [Gateway.setLink_clients, Function.update_self]
    exact hf.alive.trans hconn.2.1
  · simp only [Gateway.setLink_remotes, Function.update_self]
    exact hf.bound.trans hbound'
  · simp
  · simp

theorem phase_wait (now : Nat) (hb : (g.clients c).context.parser_.isExpectingBody = false)
    (hbuf : (g.clients c).inputBuffer_ = sent) (hhead : R.head = sent ++ data ++ rest)
    (hne : rest ≠ []) : g.judged c data now = none ∧ Phase R c {
      gateway := LB_Server.onMessage (g.read c data) c now, sent := sent ++ data } := by
  have hacc : Accepts parse_request (sent ++ data ++ rest) R.parsed := hhead ▸ R.accepted
  have hparse : ((g.read c data).clients c).parseRequest = (false, { g.clients c with
      context := { (g.clients c).context with
        parser_ := { (g.clients c).context.parser_ with is_req_ := true } }
      inputBuffer_ := sent ++ data }) := by
    simp [Client.parseRequest, Gateway.read, hbuf, HttpParser.parseRequest_incomplete hacc hne]
  have hb' : ((g.read c data).clients c).context.parser_.isExpectingBody = false := by
    simpa [Gateway.read] using hb
  refine ⟨?_, .head rfl ?_ ?_ ?_⟩
  · simp only [Gateway.judged, hb', hparse, Bool.false_eq_true, if_false]
  · have := List.length_pos_iff.mpr hne
    rw [hhead]
    simp only [List.length_append]
    omega
  · simp only [LB_Server.onMessage, hb', hparse, Bool.false_eq_true, if_false,
      Gateway.setClient_clients, Function.update_self]
    exact hb
  · simp only [LB_Server.onMessage, hb', hparse, Bool.false_eq_true, if_false,
      Gateway.setClient_clients, Function.update_self]

theorem phase_judged (hs : Sane (g.clients c).context.parser_) (ho : Opened g)
    (ha : (g.clients c).alive = true) (hb : (g.clients c).context.parser_.isExpectingBody = false)
    (hbuf : (g.clients c).inputBuffer_ ++ data = R.head ++ trailer)
    (hv : Admitted g (g.judged c data now)) :
    ∃ targetAddr, g.judged c data now = some (.forward targetAddr) ∧ Phase R c {
      gateway := LB_Server.onMessage (g.read c data) c now
      sent := R.head ++ trailer
      lent := some ((g.borrowConnection targetAddr).1,
        ((g.borrowConnection targetAddr).2.remotes (g.borrowConnection targetAddr).1).output) } := by
  have hread : (g.read c data).clients c = { g.clients c with inputBuffer_ := R.head ++ trailer } := by
    simp [Gateway.read, hbuf]
  have hb' : ((g.read c data).clients c).context.parser_.isExpectingBody = false := hread ▸ hb
  obtain ⟨conn, hparse, hcp, hcb, hca⟩ : ∃ conn,
      ((g.read c data).clients c).parseRequest = (true, conn) ∧
        conn.context.parser_ = headParsed R (g.clients c).context.parser_ ∧
        conn.inputBuffer_ = R.head ++ trailer ∧ conn.alive = true := by
    refine ⟨_, parseRequest_head (R := R) (by rw [hread]), ?_, ?_, ?_⟩
    · rw [hread]
    · rw [hread]
    · rw [hread]
      exact ha
  simp only [Gateway.judged, hb', hparse, Bool.false_eq_true, if_false, if_true] at hv ⊢
  simp only [LB_Server.onMessage, hb', hparse, Bool.false_eq_true, if_false, if_true]
  have hlb : ((g.read c data).setClient c conn).lb = g.lb := rfl
  rw [hlb]
  cases hverdict : (g.lb.judge conn.context conn.inputBuffer_ now).2 with
  | refuse response =>
    rw [hverdict] at hv
    exact hv.elim
  | forward a =>
    rw [hverdict] at hv
    refine ⟨a, rfl, phase_accept hs ho ?_ hb ?_ ?_ rfl rfl rfl hv⟩
    · simpa using hca
    · simpa using hcp
    · simpa using hcb

theorem Phase.read (h : Phase R c ⟨g, sent, lent⟩) (hs : Sane (g.clients c).context.parser_)
    (ho : Opened g) (ha : (g.clients c).alive = true)
    (hc : Uploading R more c ⟨g, sent, lent⟩ (.clientRead c data now)) :
    Phase R c {
      gateway := LB_Server.onMessage (g.read c data) c now
      sent := sent ++ data
      lent := match g.judged c data now with
        | some (.forward targetAddr) =>
          let (r, lent) := g.borrowConnection targetAddr
          some (r, (lent.remotes r).output)
        | _ => lent } := by
  simp only [Uploading, if_true] at hc ⊢
  obtain ⟨hlt, hfits, hv⟩ := hc
  cases h with
  | head hnone hhead hb hbuf =>
    simp only at hnone hhead hb hbuf
    subst hnone
    rw [Request.bytes, List.append_assoc] at hfits
    by_cases hlen : (sent ++ data).length < R.head.length
    · obtain ⟨rest, hrest⟩ := List.prefix_of_prefix_length_le hfits (List.prefix_append _ _)
        (Nat.le_of_lt hlen)
      have hne : rest ≠ [] := by
        rintro rfl
        rw [List.append_nil] at hrest
        exact absurd (hrest ▸ hlen) (Nat.lt_irrefl _)
      obtain ⟨hj, hphase⟩ := phase_wait now hb hbuf hrest.symm hne
      rw [hj]
      exact hphase
    · obtain ⟨trailer, htrailer⟩ := List.prefix_of_prefix_length_le (List.prefix_append _ _) hfits
        (Nat.le_of_not_lt hlen)
      rw [← htrailer]
      obtain ⟨a, hj, hphase⟩ := phase_judged hs ho ha hb (hbuf.symm ▸ htrailer.symm) hv
      rw [hj]
      exact hphase
  | body hlent hhead hcl ha hbound hup =>
    simp only at hlent
    subst hlent
    obtain ⟨hj, hphase⟩ := phase_forward now hhead hlt hcl ha hbound hup
    rw [hj]
    exact hphase

theorem Gateway.backendUp_clients : (g.backendUp s).clients = g.clients := by
  simp only [Gateway.backendUp]
  split <;> rfl

theorem Written.up (h : Written old sent (g.remotes r)) (hn : (g.remotes r).connecting = true)
    (hl : (g.lock r).isSome = true) : Written old sent ((g.backendUp r).remotes r) := by
  rcases h with ⟨-, hc, -⟩ | ⟨-, ho, hp⟩
  · exact Bool.noConfusion (hc.symm.trans hn)
  · simp only [Gateway.backendUp, hl, if_true, Gateway.setRemote_remotes, Function.update_self]
    exact .inl ⟨rfl, rfl, by rw [ho, hp]⟩

theorem Phase.up (h : Phase R c ⟨g, sent, lent⟩) (hn : (g.remotes s).connecting = true) :
    Phase R c ⟨g.backendUp s, sent, lent⟩ := by
  cases h with
  | head hnone hhead hb hbuf =>
    refine .head hnone hhead ?_ ?_
    · rwa [Gateway.backendUp_clients]
    · rwa [Gateway.backendUp_clients]
  | @body r old hlent hhead hcl ha hbound hup =>
    have hsame : ((g.backendUp s).remotes r).clientConn_ = some c ∧
        Written old (sent.take R.bytes.length) ((g.backendUp s).remotes r) := by
      by_cases hs : s = r
      · subst hs
        have hl : g.lock s = some c :=
          Option.filter_eq_some_iff.mpr ⟨hbound, ha⟩
        refine ⟨?_, hup.written.up hn (hl ▸ rfl)⟩
        simp only [Gateway.backendUp, hl, Option.isSome_some, if_true, Gateway.setRemote_remotes,
          Function.update_self]
        exact hbound
      · have hr : (g.backendUp s).remotes r = g.remotes r := by
          simp only [Gateway.backendUp]
          split <;> exact Function.update_of_ne (Ne.symm hs) ..
        rw [hr]
        exact ⟨hbound, hup.written⟩
    refine .body hlent hhead ?_ ?_ hsame.1 ⟨hsame.2, ?_, ?_⟩
    · rwa [Gateway.backendUp_clients]
    · rwa [Gateway.backendUp_clients]
    · rw [Gateway.link_conn, Gateway.backendUp_clients]
      exact hup.left
    · rw [Link.parser, Gateway.link_conn, Gateway.backendUp_clients]
      exact hup.sending

theorem Phase.aside (h : Phase R c ⟨g, sent, lent⟩) (hc : g'.clients c = g.clients c)
    (hr : ∀ r ∈ (g.clients c).context.client_, g'.remotes r = g.remotes r) :
    Phase R c ⟨g', sent, lent⟩ := by
  cases h with
  | head hnone hhead hb hbuf => exact .head hnone hhead (hc ▸ hb) (hc ▸ hbuf)
  | body hlent hhead hcl ha hbound hup =>
    have hr := hr _ hcl
    refine .body hlent hhead ?_ ?_ (hr ▸ hbound) (hup.congr hr hc)
    · exact hc ▸ hcl
    · exact hc ▸ ha

theorem phase_step (h : Phase R c u) (hr : Reach L7.step Always { lb } u.gateway)
    (hc : Uploading R more c u e) (hs : u.step c e = some u') : Phase R c u' := by
  obtain ⟨g, sent, lent⟩ := u
  obtain ⟨g', hg, rfl⟩ := Option.map_eq_some_iff.mp hs
  have haside : Aside c g e → Phase R c ⟨g', sent, lent⟩ := fun ha => h.aside (ha g' hg).1 (ha g' hg).2
  cases e with
  | clientRead d data now =>
    by_cases hd : d = c
    · subst hd
      simp only [L7.step, Gateway.stepOk, Option.ite_none_right_eq_some, Option.some.injEq] at hg
      obtain ⟨-, ⟨hopen, -⟩, rfl⟩ := hg
      simp only [Client.open_, Bool.and_eq_true] at hopen
      simp only [if_true]
      exact h.read (sane_of_reach hr d) (opened_of_reach hr) hopen.1 hc
    · simp only [Uploading, if_neg hd] at hc ⊢
      exact haside hc
  | backendUp s =>
    simp only [L7.step, Gateway.stepOk, Option.ite_none_right_eq_some, Option.some.injEq] at hg
    obtain ⟨-, ⟨-, hn⟩, rfl⟩ := hg
    exact h.up hn
  | _ => exact haside hc

-- ---------------------------------------------------------------------------
-- Runs
-- ---------------------------------------------------------------------------

structure Followed (lb : LB_Server) (R : Request) (more : Bytes) (c : Nat) (u : Upload) : Prop where
  reached : Reach L7.step Always { lb } u.gateway
  fits : u.sent <+: R.bytes ++ more
  phase : Phase R c u

theorem followed_step (h : Followed lb R more c u) (hc : Uploading R more c u e)
    (hs : u.step c e = some u') : Followed lb R more c u' := by
  have hphase := phase_step h.phase h.reached hc hs
  obtain ⟨g', hg, rfl⟩ := Option.map_eq_some_iff.mp hs
  have hreach := h.reached.tail trivial hg
  cases e with
  | clientRead d data now =>
    by_cases hd : d = c
    · subst hd
      simp only [Uploading, if_true] at hc hphase ⊢
      exact ⟨hreach, hc.2.1, hphase⟩
    · simp only [if_neg hd] at hphase ⊢
      exact ⟨hreach, h.fits, hphase⟩
  | _ => exact ⟨hreach, h.fits, hphase⟩

theorem followed_of_reach (hg : Reach L7.step Always { lb } g) (hready : Ready g c)
    (h : Reach (Upload.step c) (Uploading R more c) { gateway := g } u) :
    Followed lb R more c u := by
  refine h.invariant (I := Followed lb R more c) ⟨hg, List.nil_prefix, ?_⟩
    fun _ _ _ hi hc hs => followed_step hi hc hs
  exact .head rfl (List.length_pos_iff.mpr (request_ne_nil R.accepted)) hready.parser
    hready.inputBuffer

/-- Once the head has come, what has come of the request was written to the connection borrowed
for it, or all of it waits for the connection; what follows the request stays in the buffer. -/
theorem writes_exactly (hg : Reach L7.step Always { lb } g) (hready : Ready g c)
    (h : Reach (Upload.step c) (Uploading R more c) { gateway := g } u)
    (hhead : R.head.length ≤ u.sent.length) :
    ∃ r old, u.lent = some (r, old) ∧
      Written old (R.bytes.take u.sent.length) (u.gateway.remotes r) ∧
      (u.gateway.clients c).inputBuffer_ = u.sent.drop R.bytes.length ∧
      (R.bytes.length ≤ u.sent.length → (u.gateway.remotes r).conn_ = some .kConnected →
        (u.gateway.remotes r).output = old ++ R.bytes) := by
  obtain ⟨-, hfits, hphase⟩ := followed_of_reach hg hready h
  cases hphase with
  | head _ hlt => exact absurd hhead (Nat.not_le.mpr hlt)
  | @body r old hlent _ _ _ _ hup =>
    have htake : u.sent.take R.bytes.length = R.bytes.take u.sent.length := by
      calc u.sent.take R.bytes.length
          = ((R.bytes ++ more).take u.sent.length).take R.bytes.length := by
            rw [← List.prefix_iff_eq_take.mp hfits]
        _ = ((R.bytes ++ more).take R.bytes.length).take u.sent.length := by
            rw [List.take_take, List.take_take, Nat.min_comm]
        _ = R.bytes.take u.sent.length := by rw [List.take_left]
    have hwritten : Written old (R.bytes.take u.sent.length) (u.gateway.remotes r) :=
      htake ▸ hup.written
    refine ⟨r, old, hlent, hwritten, hup.left, fun hle hc => ?_⟩
    rcases hwritten with ⟨-, -, ho⟩ | ⟨hnone, -, -⟩
    · rw [ho, List.take_of_length_le hle]
    · exact absurd (hc.symm.trans hnone) (Option.some_ne_none _)

instance (c : Nat) (g : Gateway) (e : Event) : Decidable (Aside c g e) :=
  inferInstanceAs (Decidable (∀ g' ∈ L7.step g e, _ ∧ ∀ r ∈ _, _ = _))

instance (g : Gateway) (v : Option Verdict) : Decidable (Admitted g v) :=
  match v with
  | some (.forward _) => inferInstanceAs (Decidable (∀ r ∈ _, _ = _))
  | some (.refuse _) => .isFalse id
  | none => .isTrue trivial

instance (R : Request) (more : Bytes) (c : Nat) (u : Upload) (e : Event) :
    Decidable (Uploading R more c u e) :=
  match e with
  | .clientRead d _ _ => inferInstanceAs (Decidable (if d = c then _ ∧ _ ∧ _ else _))
  | .backendUp _ => .isTrue trivial
  | .accept | .clientClose _ | .clientGone _ | .backendFailed _ | .backendRead ..
  | .backendDown _ | .errorCallback _ | .shared _ => inferInstanceAs (Decidable (Aside ..))

def imRequest : Request where
  head := ascii "POST /im HTTP/1.1\r\nContent-Length: 2\r\n\r\n"
  body := ascii "hi"
  parsed := ⟨⟨0, ascii "POST"⟩, ⟨5, ascii "/im"⟩, 1,
    [⟨some ⟨19, ascii "Content-Length"⟩, ⟨35, ascii "2"⟩⟩]⟩
  accepted := by decide +kernel
  head_int := by decide +kernel
  framed := by decide +kernel

/-- The head is cut, and the connection comes up in the middle of the body. The next request
begins in the last read. -/
def imReads : List Event :=
  [.clientRead 0 (ascii "POST /im HT") 0,
    .clientRead 0 (ascii "TP/1.1\r\nContent-Length: 2\r\n\r\nh") 0, .backendUp 0, .accept,
    .clientRead 0 (ascii "iGET") 0]

theorem writes_exactly_im : ∃ g u, exec L7.step Always { lb := unconfigured } [.accept] = some g ∧
    exec (Upload.step 0) (Uploading imRequest (ascii "GET") 0) { gateway := g } imReads = some u ∧
    u.lent = some (0, []) ∧ (u.gateway.remotes 0).output = imRequest.bytes ∧
    (u.gateway.clients 0).inputBuffer_ = ascii "GET" := by
  have hrun : (exec L7.step Always { lb := unconfigured } [.accept]).any (fun g =>
      (g.clients 0).context.parser_.isExpectingBody = false ∧ (g.clients 0).inputBuffer_ = [] ∧
      (exec (Upload.step 0) (Uploading imRequest (ascii "GET") 0) { gateway := g } imReads).any
        fun u => u.lent = some (0, []) ∧ u.sent = imRequest.bytes ++ ascii "GET" ∧
          (u.gateway.remotes 0).conn_ = some .kConnected) = true := by
    decide +kernel
  obtain ⟨g, hg, h⟩ := (Option.any_eq_true _ _).mp hrun
  obtain ⟨hparser, hbuf, h⟩ := of_decide_eq_true h
  obtain ⟨u, hu, h⟩ := (Option.any_eq_true _ _).mp h
  obtain ⟨hlent, hsent, hconn⟩ := of_decide_eq_true h
  obtain ⟨r, old, hlent', -, hleft, hall⟩ := writes_exactly (.of_exec hg) ⟨hparser, hbuf⟩
    (Reach.of_exec hu) (by rw [hsent]; decide +kernel)
  obtain ⟨rfl, rfl⟩ := Prod.mk.inj (Option.some.inj (hlent'.symm.trans hlent))
  refine ⟨g, u, hg, hu, hlent, hall ?_ hconn, ?_⟩
  · rw [hsent]
    decide +kernel
  · rw [hleft, hsent, List.drop_left]

end VortexNet.L7
