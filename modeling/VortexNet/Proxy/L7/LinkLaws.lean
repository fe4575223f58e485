import VortexNet.Proxy.L7.Relay

/-!
# The parser and the binding between two callbacks

Between two messages the parser has counted nothing, and a client whose response
is over holds no backend. Forwarding a request changes neither the response nor
the binding. What the callbacks keep of one parser, every parser of a reachable
gateway has (`ParserInvariant`).
-/

namespace VortexNet.L7

open Incremental Picohttpparser
open Systems (Reach Always)

-- ---------------------------------------------------------------------------
-- Entries
-- ---------------------------------------------------------------------------

namespace Entry

/-- A connection goes back empty and with one whole response relayed; bytes relayed are of the
current binding. -/
def whole : Entry → Prop
  | .returned left exchange => left = [] ∧ ∃ R : Response exchange.method,
      exchange.got = R.bytes ∧ exchange.relayed = R.bytes
  | .relayed foreign _ => foreign = 0
  | _ => True

def unmixed : Entry → Prop
  | .counted ofClient ofRequest len => 0 < len → ofClient = ofRequest
  | _ => True

theorem whole_of {e : Entry} (h : e.ofResponse = true) (hf : e.foreign = 0) : e.whole := by
  cases e with
  | relayed foreign data => exact hf
  | returned => cases h
  | _ => trivial

end Entry

-- ---------------------------------------------------------------------------
-- The parser between two messages
-- ---------------------------------------------------------------------------

/-- Outside of a body nothing is counted. -/
def Settled (p : HttpParser) : Prop := p.isExpectingBody = false → p.body_bytes_read_ = 0

namespace Link

variable {l l' l'' : Link} {n : Nat}

def InMessage (p : HttpParser) : Prop := p.isExpectingBody = true ∨ p.gotAll = true

theorem inMessage_consumeBody {p : HttpParser} (h : InMessage p) (buf : Bytes) (n : Nat) :
    InMessage (p.consumeBody buf n).1 := by
  by_cases hfull : p.content_length_ ≤ szAdd p.body_bytes_read_ n
  · exact .inr (by simp [HttpParser.consumeBody, HttpParser.gotAll, hfull])
  · simpa [HttpParser.consumeBody, InMessage, HttpParser.gotAll, HttpParser.isExpectingBody,
      hfull] using h

theorem inMessage_consumeResponse (h : InMessage l.parser) :
    InMessage ((l.relay n).consumeResponse n).parser :=
  inMessage_consumeBody (parser_relay l n ▸ h) (l.relay n).remote.inputBuffer_ n

theorem settled_finishIfGotAll (h : InMessage l.parser) : Settled l.finishIfGotAll.parser := by
  unfold finishIfGotAll
  split
  · exact fun _ => rfl
  · rename_i hg
    exact fun he => absurd he (Bool.not_eq_false _ ▸ h.resolve_right hg)

theorem settled_resetIfGotAll (h : InMessage l.parser) : Settled l.resetIfGotAll.parser := by
  unfold resetIfGotAll
  split
  · exact fun _ => rfl
  · rename_i hg
    exact fun he => absurd he (Bool.not_eq_false _ ▸ h.resolve_right hg)

theorem settled_relayChunks (he : l.parser.isExpectingBody = true) :
    Settled l.relayChunks.parser := by
  simp only [relayChunks]
  split
  · exact fun _ => rfl
  · have hp := parser_relay l l.remote.inputBuffer_.length
    split
    · exact fun h => Bool.noConfusion ((congrArg _ hp).trans he |>.symm.trans h)
    · exact fun h => Bool.noConfusion ((congrArg _ hp).trans he |>.symm.trans h)

theorem settled_relayHead (h : InMessage l.parser)
    (hch : l.parser.isResponseChunked = true → l.parser.isExpectingBody = true) :
    Settled l.relayHead.parser := by
  have hp : ((l.relay l.parser.headerLen).retrieve l.parser.headerLen).parser = l.parser :=
    parser_relay l _
  simp only [relayHead]
  split
  · refine settled_finishIfGotAll ?_
    split
    · exact inMessage_consumeResponse (hp.symm ▸ h)
    · exact hp.symm ▸ h
  · rename_i hc
    rw [hp, Bool.not_eq_true', Bool.not_eq_false] at hc
    exact settled_relayChunks (hp.symm ▸ hch hc)

theorem parsed_inMessage {p : HttpParser} (h : p.parseResponse buf = (true, p')) :
    p'.isRequest = false ∧ InMessage p' ∧
      (p'.isResponseChunked = true → p'.isExpectingBody = true) := by
  obtain ⟨head, n, rfl⟩ := HttpParser.responseParsed_of_parseResponse h
  refine ⟨rfl, ?_, fun hc => ?_⟩
  · simp only [InMessage, HttpParser.responseParsed, HttpParser.isExpectingBody, HttpParser.gotAll]
    split <;> simp
  · have hany : head.headers.any HttpParser.isChunked = true :=
      (HttpParser.framing_chunked head).symm.trans hc
    exact (HttpParser.responseParsed_chunked hany).1

theorem settled_relayResponse (hs : Settled l.parser) : Settled l.relayResponse.parser := by
  simp only [relayResponse]
  split
  · rename_i he
    split
    · exact settled_finishIfGotAll (inMessage_consumeResponse (.inl he))
    · exact settled_relayChunks he
  · cases hp : l.parser.parseResponse l.remote.inputBuffer_ with
    | mk parsed p =>
      cases parsed with
      | true =>
        obtain ⟨-, hm, hch⟩ := parsed_inMessage hp
        exact settled_relayHead (l := l.setParser p) hm hch
      | false =>
        obtain rfl := HttpParser.parseResponse_unparsed hp
        exact hs

-- ---------------------------------------------------------------------------
-- The end of a response
-- ---------------------------------------------------------------------------

theorem finish_released (hq : l.parser.isRequest = false) : l.finish.conn.context.client_ = none := by
  have hq : l.conn.context.parser_.is_req_ = false := hq
  simp [finish, HttpContext.reset, HttpParser.reset, HttpParser.isRequest, hq]

theorem finishIfGotAll_released (hl : l.finished = false) (hq : l.parser.isRequest = false)
    (hf : l.finishIfGotAll.finished = true) : l.finishIfGotAll.conn.context.client_ = none := by
  unfold finishIfGotAll at hf ⊢
  split
  · exact finish_released hq
  · rename_i hg
    rw [if_neg hg] at hf
    exact Bool.noConfusion (hl.symm.trans hf)

theorem relayChunks_released (hl : l.finished = false) (hq : l.parser.isRequest = false)
    (hf : l.relayChunks.finished = true) : l.relayChunks.conn.context.client_ = none := by
  have hp := parser_relay l l.remote.inputBuffer_.length
  rw [relayChunks_finished, hl, Bool.false_or] at hf
  simp only [relayChunks, hf, if_true]
  split <;> exact finish_released ((congrArg HttpParser.isRequest hp).trans hq)

theorem consumeResponse_request (hq : l.parser.isRequest = false) :
    ((l.relay n).consumeResponse n).parser.isRequest = false := by
  rw [parser_relay_consume]
  exact hq

theorem relayHead_released (hl : l.finished = false) (hq : l.parser.isRequest = false)
    (hf : l.relayHead.finished = true) : l.relayHead.conn.context.client_ = none := by
  have hp : ((l.relay l.parser.headerLen).retrieve l.parser.headerLen).parser = l.parser :=
    parser_relay l _
  have hq' := (congrArg HttpParser.isRequest hp).trans hq
  have hl' : ((l.relay l.parser.headerLen).retrieve l.parser.headerLen).finished = false := hl
  simp only [relayHead] at hf ⊢
  generalize (l.relay l.parser.headerLen).retrieve l.parser.headerLen = m at *
  split
  · rename_i hc
    rw [if_pos hc] at hf
    refine finishIfGotAll_released ?_ ?_ hf
    · split <;> exact hl'
    · split
      · exact consumeResponse_request hq'
      · exact hq'
  · rename_i hc
    rw [if_neg hc] at hf
    exact relayChunks_released hl' hq' hf

/-- A client whose response is over holds its backend no longer. -/
theorem relayResponse_released (hl : l.finished = false)
    (hq : l.parser.isExpectingBody = true → l.parser.isRequest = false)
    (hf : l.relayResponse.finished = true) : l.relayResponse.conn.context.client_ = none := by
  simp only [relayResponse] at hf ⊢
  split
  · rename_i he
    rw [if_pos he] at hf
    split
    · rename_i hc
      rw [if_pos hc] at hf
      exact finishIfGotAll_released hl (consumeResponse_request (hq he)) hf
    · rename_i hc
      rw [if_neg hc] at hf
      exact relayChunks_released hl (hq he) hf
  · rename_i he
    rw [if_neg he] at hf
    cases hp : l.parser.parseResponse l.remote.inputBuffer_ with
    | mk parsed p =>
      rw [hp] at hf
      cases parsed with
      | true => exact relayHead_released (l := l.setParser p) hl (parsed_inMessage hp).1 hf
      | false => exact Bool.noConfusion (hl.symm.trans hf)

-- ---------------------------------------------------------------------------
-- The way to the backend
-- ---------------------------------------------------------------------------

/-- Bytes were sent to the backend; the response is where it was. -/
structure Forwards (l l' : Link) : Prop where
  state : l'.conn.state_ = l.conn.state_
  alive : l'.conn.alive = l.conn.alive
  request : l'.parser.isRequest = l.parser.isRequest
  client : l'.conn.context.client_ = l.conn.context.client_ ∨
    l.parser.isRequest = false ∧ l'.conn.context.client_ = none
  node : l'.remote.targetNode = l.remote.targetNode
  bound : l'.remote.clientConn_ = l.remote.clientConn_
  busy : l'.remote.is_busy_ = l.remote.is_busy_
  inputBuffer : l'.remote.inputBuffer_ = l.remote.inputBuffer_
  foreign : l'.remote.foreign = l.remote.foreign
  exchange : l'.remote.exchange = l.remote.exchange
  trace : ∃ t, l'.trace = t ++ l.trace ∧
    ∀ e ∈ t, e.whole ∧ (l.parser.isRequest = true → e.unmixed)

theorem Forwards.refl (l : Link) : Forwards l l :=
  ⟨rfl, rfl, rfl, .inl rfl, rfl, rfl, rfl, rfl, rfl, rfl, [], rfl, nofun⟩

theorem Forwards.trans (h₁ : Forwards l l') (h₂ : Forwards l' l'') : Forwards l l'' where
  state := h₂.state.trans h₁.state
  alive := h₂.alive.trans h₁.alive
  request := h₂.request.trans h₁.request
  client := by
    rcases h₂.client with h | ⟨hq, h⟩
    · rcases h₁.client with h' | ⟨hq, h'⟩
      · exact .inl (h.trans h')
      · exact .inr ⟨hq, h.trans h'⟩
    · exact .inr ⟨h₁.request.symm.trans hq, h⟩
  node := h₂.node.trans h₁.node
  bound := h₂.bound.trans h₁.bound
  busy := h₂.busy.trans h₁.busy
  inputBuffer := h₂.inputBuffer.trans h₁.inputBuffer
  foreign := h₂.foreign.trans h₁.foreign
  exchange := h₂.exchange.trans h₁.exchange
  trace := by
    obtain ⟨t, ht, he⟩ := h₁.trace
    obtain ⟨u, hu, he'⟩ := h₂.trace
    refine ⟨u ++ t, by rw [hu, ht, List.append_assoc], fun e hm => ?_⟩
    rcases List.mem_append.mp hm with hm | hm
    · exact ⟨(he' e hm).1, fun hq => (he' e hm).2 (h₁.request.trans hq)⟩
    · exact he e hm

theorem sendToBackend_fields (remote : RemoteClient) (data : Bytes) :
    (remote.sendToBackend data).targetNode = remote.targetNode ∧
      (remote.sendToBackend data).clientConn_ = remote.clientConn_ ∧
      (remote.sendToBackend data).is_busy_ = remote.is_busy_ ∧
      (remote.sendToBackend data).inputBuffer_ = remote.inputBuffer_ ∧
      (remote.sendToBackend data).foreign = remote.foreign ∧
      (remote.sendToBackend data).exchange = remote.exchange := by
  simp only [RemoteClient.sendToBackend]
  split <;> exact ⟨rfl, rfl, rfl, rfl, rfl, rfl⟩

theorem forward_forwards (l : Link) (n : Nat) : Forwards l (l.forward n) := by
  obtain ⟨hn, hb, hy, hi, hf, he⟩ := sendToBackend_fields l.remote
    (l.conn.inputBuffer_.take n)
  exact ⟨rfl, rfl, rfl, .inl rfl, hn, hb, hy, hi, hf, he, [_], rfl,
    by simp [Entry.whole, Entry.unmixed]⟩

theorem retrieveRequest_forwards (l : Link) (n : Nat) : Forwards l (l.retrieveRequest n) :=
  ⟨rfl, rfl, rfl, .inl rfl, rfl, rfl, rfl, rfl, rfl, rfl, [], rfl, nofun⟩

theorem consumeRequest_forwards (l : Link) (n : Nat) : Forwards l (l.consumeRequest n) :=
  ⟨rfl, rfl, rfl, .inl rfl, rfl, rfl, rfl, rfl, rfl, rfl, [_], rfl,
    by simp +contextual [Entry.whole, Entry.unmixed]⟩

theorem resetIfGotAll_forwards (l : Link) : Forwards l l.resetIfGotAll := by
  unfold resetIfGotAll
  split
  · refine ⟨rfl, rfl, rfl, ?_, rfl, rfl, rfl, rfl, rfl, rfl, [], rfl, nofun⟩
    cases hq : l.parser.isRequest with
    | true =>
      have hq : l.conn.context.parser_.is_req_ = true := hq
      exact .inl (by simp [HttpContext.reset, HttpParser.reset, HttpParser.isRequest, hq])
    | false =>
      have hq : l.conn.context.parser_.is_req_ = false := hq
      exact .inr ⟨rfl, by simp [HttpContext.reset, HttpParser.reset, HttpParser.isRequest, hq]⟩
  · exact .refl l

theorem forwardBody_forwards (l : Link) : Forwards l l.forwardBody :=
  ((forward_forwards l _).trans (consumeRequest_forwards _ _)).trans (resetIfGotAll_forwards _)

theorem forwardHead_forwards (l : Link) : Forwards l l.forwardHead := by
  simp only [forwardHead]
  refine ((forward_forwards l l.parser.headerLen).trans (retrieveRequest_forwards _
    l.parser.headerLen)).trans (.trans ?_ (resetIfGotAll_forwards _))
  split
  · exact (forward_forwards _ _).trans (consumeRequest_forwards _ _)
  · exact .refl _

theorem inMessage_consumeRequest (h : InMessage l.parser) :
    InMessage ((l.forward n).consumeRequest n).parser :=
  inMessage_consumeBody h l.conn.inputBuffer_ n

theorem settled_forwardBody (he : l.parser.isExpectingBody = true) :
    Settled l.forwardBody.parser :=
  settled_resetIfGotAll (inMessage_consumeRequest (.inl he))

theorem settled_forwardHead (h : InMessage l.parser) : Settled l.forwardHead.parser := by
  simp only [forwardHead]
  refine settled_resetIfGotAll ?_
  split
  · exact inMessage_consumeRequest (l := (l.forward l.parser.headerLen).retrieveRequest _) h
  · exact h

theorem ret_response_nil : ¬ 0 < ret (phr_parse_response []) := by decide

theorem stage_fresh {p : HttpParser} {remote : RemoteClient} (hq : p.isRequest = true)
    (hg : remote.exchange.got = []) (hb : remote.inputBuffer_ = []) : Stage p remote := by
  cases he : p.isExpectingBody with
  | true => exact .uploading he hq hg hb
  | false => exact .waiting he (hg ▸ ret_response_nil) (hb.trans hg.symm)

end Link

-- ---------------------------------------------------------------------------
-- Every parser of a gateway
-- ---------------------------------------------------------------------------

/-- The callbacks keep `I` of a parser. `J` is what the head of a request leaves it in. -/
structure ParserInvariant (I J : HttpParser → Prop) : Prop where
  fresh : I {}
  parseRequest : ∀ {p p' : HttpParser} {parsed buf buf'}, I p → p.isExpectingBody = false →
    p.parseRequest buf = (parsed, p', buf') → I p' ∧ (parsed = true → J p')
  forwardBody : ∀ {l : Link}, I l.parser → l.parser.isExpectingBody = true → I l.forwardBody.parser
  forwardHead : ∀ {l : Link}, J l.parser → I l.forwardHead.parser
  relayResponse : ∀ {l : Link}, I l.parser → I l.relayResponse.parser

def EveryParser (I : HttpParser → Prop) (g : Gateway) : Prop :=
  ∀ c, I (g.clients c).context.parser_

variable {I J : HttpParser → Prop} {g g' : Gateway} {c r now : Nat} {conn : Client}

theorem EveryParser.update (hi : EveryParser I g) (h : g'.clients = Function.update g.clients c conn)
    (hs : I conn.context.parser_) : EveryParser I g' := by
  intro d
  rw [h]
  by_cases hd : d = c
  · subst hd
    rwa [Function.update_self]
  · rw [Function.update_of_ne hd]
    exact hi d

theorem accept_requestParsed (g : Gateway) (c : Nat) (targetAddr : Bytes) :
    ∃ l : Link, (g.accept c targetAddr).clients = Function.update g.clients c l.forwardHead.conn ∧
      l.parser = (g.clients c).context.parser_ := by
  simp only [Gateway.accept, Gateway.setLink_clients, Gateway.borrowConnection_clients]
  exact ⟨_, rfl, rfl⟩

namespace ParserInvariant

theorem onMessage (hk : ParserInvariant I J) (hi : EveryParser I g) :
    EveryParser I (LB_Server.onMessage g c now) := by
  simp only [LB_Server.onMessage]
  split
  · rename_i hb
    split
    · rename_i r hr
      exact hi.update rfl (hk.forwardBody (l := g.link c r) (hi c) hb)
    · exact hi
  · rename_i hb
    cases hp : (g.clients c).parseRequest with
    | mk parsed conn =>
      obtain ⟨p, buf, hparse, hconn⟩ := Client.parseRequest_eq hp
      obtain ⟨hs, hcount⟩ := hk.parseRequest (hi c) (Bool.eq_false_iff.mpr hb) hparse
      have hparser : conn.context.parser_ = p := hconn ▸ rfl
      have hset : EveryParser I (g.setClient c conn) := hi.update rfl (hparser ▸ hs)
      cases parsed with
      | false => exact hset
      | true =>
        have hw : ∃ w : Gateway, w = { g.setClient c conn with
            lb := (g.lb.judge conn.context conn.inputBuffer_ now).1 } ∧
              w.clients = (g.setClient c conn).clients := ⟨_, rfl, rfl⟩
        obtain ⟨w, hw, hwc⟩ := hw
        simp only [if_true, Gateway.setClient_lb]
        rw [← hw]
        have hself : w.clients c = conn := by rw [hwc, Gateway.setClient_clients, Function.update_self]
        have hevery : EveryParser I w := fun d => hwc ▸ hset d
        split
        · refine hevery.update rfl ?_
          rw [refused_context]
          exact hevery c
        · obtain ⟨l, hl, hparsed⟩ := accept_requestParsed w c _
          refine hevery.update hl (hk.forwardHead ?_)
          rw [hparsed, hself]
          exact hparser ▸ hcount rfl

theorem onResponse (hk : ParserInvariant I J) (hi : EveryParser I g) :
    EveryParser I (RemoteClient.onMessage g r) := by
  simp only [RemoteClient.onMessage]
  split
  · rename_i c _
    split
    · have hlink : EveryParser I (g.setLink c r (g.link c r).relayResponse) :=
        hi.update rfl (hk.relayResponse (l := g.link c r) (hi c))
      split
      · intro d
        rw [Gateway.returnConnection_clients]
        exact hlink d
      · exact hlink
    · exact hi
  · exact hi

theorem step (hk : ParserInvariant I J) (hi : EveryParser I g) (hs : step g e = some g') :
    EveryParser I g' := by
  simp only [L7.step, Option.ite_none_right_eq_some] at hs
  obtain ⟨-, hs⟩ := hs
  by_cases he : e.reads = true
  · cases e with
    | accept =>
      cases hs
      exact hi.update rfl hk.fresh
    | clientRead c data now =>
      simp only [Gateway.stepOk, Option.ite_none_right_eq_some, Option.some.injEq] at hs
      obtain ⟨-, rfl⟩ := hs
      have hread : EveryParser I (g.read c data) := hi.update rfl (hi c)
      exact hk.onMessage hread
    | backendRead r data =>
      simp only [Gateway.stepOk, Option.ite_none_right_eq_some, Option.some.injEq] at hs
      obtain ⟨-, rfl⟩ := hs
      split
      · exact hk.onResponse (g := g.receive r data) hi
      · exact hi
    | _ => cases he
  · intro d
    rw [(untouched_of_step hs (Bool.eq_false_iff.mpr he)).context]
    exact hi d

theorem of_reach (hk : ParserInvariant I J) (h : Reach L7.step Always { lb } g) :
    EveryParser I g :=
  h.invariant (fun _ => hk.fresh) fun _ _ _ hi _ hs => hk.step hi hs

end ParserInvariant

end VortexNet.L7
