import VortexNet.Proxy.L7.GatewayLaws

/-!
# Bodies without a backend

`LB_Server::onMessage` sends body bytes through `getClient()` without a look at
it. The body state and `client_` come apart in two ways: a refused head leaves
the parser in its body with no backend bound, and a response leaves it there
after `client_` was let go. A run that does neither never makes the call through
a null pointer (`no_null_call`); one that does makes it at the client's next
read (`null_call_next`).
-/

namespace VortexNet.L7

open Picohttpparser
open Systems (Reach Always exec)

-- ---------------------------------------------------------------------------
-- The condition
-- ---------------------------------------------------------------------------

/-- A response with the head in `p` has not ended with `rest`, what the buffer holds behind it. -/
def bodyPending (p : HttpParser) (rest : Bytes) : Bool :=
  p.isExpectingBody && if p.isResponseChunked then (find Link.zeroChunk rest).isNone else
    let n := min rest.length p.bytesRemaining
    n = 0 || szAdd p.body_bytes_read_ n < p.content_length_

def Gateway.refusesNoBody (g : Gateway) (c now : Nat) : Prop :=
  let conn := g.clients c
  let (parsed, next) := conn.parseRequest
  conn.context.client_ = none → conn.context.parser_.isExpectingBody = false → parsed = true →
    next.context.parser_.isExpectingBody = true →
      (g.lb.judge next.context next.inputBuffer_ now).2.isRefuse = false

/-- Without a backend no response begins that does not end in the same read. -/
def Gateway.answersAtOnce (g : Gateway) (c r : Nat) : Prop :=
  let conn := g.clients c
  let buf := (g.remotes r).inputBuffer_
  let (parsed, p) := conn.context.parser_.parseResponse buf
  conn.open_ = true → conn.context.client_ = none → conn.context.parser_.isExpectingBody = false →
    parsed = true → bodyPending p (buf.drop p.headerLen) = false

def KeepsBackend (g : Gateway) : Event → Prop
  | .clientRead c data now => (g.read c data).refusesNoBody c now
  | .backendRead r data =>
    let g := g.receive r data
    match g.lock r with
    | some c => g.held r = true → (g.remotes r).is_busy_ = true → g.answersAtOnce c r
    | none => True
  | _ => True

instance (g : Gateway) (e : Event) : Decidable (KeepsBackend g e) := by
  unfold KeepsBackend Gateway.refusesNoBody Gateway.answersAtOnce
  split
  · infer_instance
  · simp only
    split <;> infer_instance
  · infer_instance

-- ---------------------------------------------------------------------------
-- The bound backend and the body state
-- ---------------------------------------------------------------------------

theorem HttpParser.consumeBody_expecting (p : HttpParser) (buf : Bytes) (n : Nat) :
    (p.consumeBody buf n).1.isExpectingBody =
      (p.isExpectingBody && szAdd p.body_bytes_read_ n < p.content_length_) := by
  by_cases h : p.content_length_ ≤ szAdd p.body_bytes_read_ n
  · simp [HttpParser.consumeBody, HttpParser.isExpectingBody, h]
  · simp [HttpParser.consumeBody, HttpParser.isExpectingBody, h, Nat.lt_of_not_le]

namespace Link

variable {l : Link} {n : Nat}

def expecting (l : Link) : Bool := l.parser.isExpectingBody

theorem consumeResponse_client : ((l.relay n).consumeResponse n).conn.context.client_ =
    l.conn.context.client_ := by
  show (l.relay n).conn.context.client_ = _
  rw [relay_context]

theorem finish_expecting (l : Link) : l.finish.expecting = false := rfl

theorem resetIfGotAll_client (h : l.resetIfGotAll.expecting = true) :
    l.resetIfGotAll.conn.context.client_ = l.conn.context.client_ := by
  unfold resetIfGotAll at h ⊢
  split
  · rename_i hg
    rw [if_pos hg] at h
    cases h
  · rfl

theorem finishIfGotAll_client (h : l.finishIfGotAll.expecting = true) :
    l.finishIfGotAll.conn.context.client_ = l.conn.context.client_ := by
  unfold finishIfGotAll at h ⊢
  split
  · rename_i hg
    rw [if_pos hg, finish_expecting] at h
    cases h
  · rfl

theorem forwardBody_client (h : l.forwardBody.expecting = true) :
    l.forwardBody.conn.context.client_ = l.conn.context.client_ :=
  resetIfGotAll_client h

theorem forwardHead_client (h : l.forwardHead.expecting = true) :
    l.forwardHead.conn.context.client_ = l.conn.context.client_ := by
  simp only [forwardHead] at h ⊢
  rw [resetIfGotAll_client h]
  split <;> rfl

theorem relayBody_client (h : l.relayBody.expecting = true) :
    l.relayBody.conn.context.client_ = l.conn.context.client_ := by
  simp only [relayBody] at h ⊢
  rw [finishIfGotAll_client h]
  exact consumeResponse_client

theorem relayChunks_client (h : l.relayChunks.expecting = true) :
    l.relayChunks.conn.context.client_ = l.conn.context.client_ := by
  simp only [relayChunks] at h ⊢
  split
  · rename_i hm
    rw [if_pos hm, finish_expecting] at h
    cases h
  · split <;> exact congrArg _ (relay_context l _)

theorem relayHead_client (h : l.relayHead.expecting = true) :
    l.relayHead.conn.context.client_ = l.conn.context.client_ := by
  have hhead : ((l.relay l.parser.headerLen).retrieve l.parser.headerLen).conn.context.client_ =
      l.conn.context.client_ := congrArg _ (relay_context l _)
  simp only [relayHead] at h ⊢
  split
  · rename_i hc
    rw [if_pos hc] at h
    rw [finishIfGotAll_client h]
    split
    · exact consumeResponse_client.trans hhead
    · exact hhead
  · rename_i hc
    rw [if_neg hc] at h
    exact (relayChunks_client h).trans hhead

theorem relayResponse_client (h : l.relayResponse.expecting = true) :
    l.relayResponse.conn.context.client_ = l.conn.context.client_ := by
  simp only [relayResponse] at h ⊢
  split
  · rename_i hb
    rw [if_pos hb] at h
    split
    · rename_i hc
      rw [if_pos hc] at h
      exact relayBody_client h
    · rename_i hc
      rw [if_neg hc] at h
      exact relayChunks_client h
  · rename_i hb
    rw [if_neg hb] at h
    split
    · rename_i hp
      rw [if_pos hp] at h
      exact relayHead_client h
    · rfl

theorem finishIfGotAll_expecting (l : Link) : l.finishIfGotAll.expecting = l.expecting := by
  unfold finishIfGotAll
  split
  · rename_i hg
    simp only [HttpParser.gotAll, decide_eq_true_eq] at hg
    rw [finish_expecting]
    simp [expecting, HttpParser.isExpectingBody, hg]
  · rfl

theorem consumeResponse_expecting (l : Link) (n : Nat) :
    ((l.relay n).consumeResponse n).expecting =
      (l.expecting && szAdd l.parser.body_bytes_read_ n < l.parser.content_length_) := by
  show ((l.relay n).parser.consumeBody (l.relay n).remote.inputBuffer_ n).1.isExpectingBody = _
  rw [parser_relay, HttpParser.consumeBody_expecting]
  rfl

theorem relayChunks_expecting (l : Link) :
    l.relayChunks.expecting = (l.expecting && (find zeroChunk l.remote.inputBuffer_).isNone) := by
  simp only [relayChunks]
  cases find zeroChunk l.remote.inputBuffer_ with
  | some k => simp [finish_expecting]
  | none =>
    simp only [Option.isSome_none, Bool.false_eq_true, if_false, Option.isNone_none, Bool.and_true]
    split <;> exact congrArg HttpParser.isExpectingBody (parser_relay l _)

theorem relayHead_expecting (l : Link) : l.relayHead.expecting =
    bodyPending l.parser (l.remote.inputBuffer_.drop l.parser.headerLen) := by
  have hp : ((l.relay l.parser.headerLen).retrieve l.parser.headerLen).parser = l.parser :=
    parser_relay l _
  have hbuf : ((l.relay l.parser.headerLen).retrieve l.parser.headerLen).remote.inputBuffer_ =
      l.remote.inputBuffer_.drop l.parser.headerLen := rfl
  simp only [relayHead, bodyPending, hp]
  rw [← hbuf]
  generalize (l.relay l.parser.headerLen).retrieve l.parser.headerLen = m at *
  have he : m.expecting = l.parser.isExpectingBody := congrArg HttpParser.isExpectingBody hp
  cases hc : l.parser.isResponseChunked with
  | true => simp [relayChunks_expecting, he]
  | false =>
    simp only [Bool.not_false, if_true, finishIfGotAll_expecting, Bool.false_eq_true, if_false]
    split
    · rename_i hn
      rw [consumeResponse_expecting, he, hp]
      simp [Nat.pos_iff_ne_zero.mp hn]
    · rename_i hn
      simp [Nat.eq_zero_of_not_pos hn, he]

theorem relayResponse_expecting (h : l.expecting = false) : l.relayResponse.expecting =
    let (parsed, p) := l.parser.parseResponse l.remote.inputBuffer_
    parsed && bodyPending p (l.remote.inputBuffer_.drop p.headerLen) := by
  have hb : ¬ l.parser.isExpectingBody = true := Bool.eq_false_iff.mp h
  simp only [relayResponse, if_neg hb]
  cases hp : l.parser.parseResponse l.remote.inputBuffer_ with
  | mk parsed p =>
    cases parsed with
    | true => exact relayHead_expecting (l.setParser p)
    | false =>
      obtain rfl := HttpParser.parseResponse_unparsed hp
      exact h

end Link

-- ---------------------------------------------------------------------------
-- One step
-- ---------------------------------------------------------------------------

def BodyBacked (g : Gateway) : Prop :=
  ∀ c, (g.clients c).open_ = true → (g.clients c).context.parser_.isExpectingBody = true →
    (g.clients c).context.client_ ≠ none

variable {g g' : Gateway} {c r now : Nat} {conn : Client}

theorem BodyBacked.update (hi : BodyBacked g) (hd : ∀ d, d ≠ c → g'.clients d = g.clients d)
    (h : (g'.clients c).open_ = true → (g'.clients c).context.parser_.isExpectingBody = true →
      (g'.clients c).context.client_ ≠ none) : BodyBacked g' := by
  intro d ho he
  by_cases hc : d = c
  · subst hc
    exact h ho he
  · rw [hd d hc] at ho he ⊢
    exact hi d ho he

theorem BodyBacked.setClient (hi : BodyBacked g)
    (h : conn.open_ = true → conn.context.parser_.isExpectingBody = true →
      conn.context.client_ ≠ none) : BodyBacked (g.setClient c conn) :=
  hi.update (c := c) (fun d hd => by simp [hd]) (by simpa using h)

theorem accept_fault : (g.accept c targetAddr).fault = g.fault :=
  Gateway.borrowConnection_fault

theorem accept_bound (g : Gateway) (c : Nat) (targetAddr : Bytes) :
    ∃ l : Link, (g.accept c targetAddr).clients = Function.update g.clients c l.conn ∧
    (l.expecting = true → l.conn.context.client_ = some (g.borrowConnection targetAddr).1) := by
  simp only [Gateway.accept, Gateway.setLink_clients, Gateway.borrowConnection_clients]
  exact ⟨_, rfl, fun he => Link.forwardHead_client he⟩

theorem BodyBacked.of_clients (hi : BodyBacked g) (h : g'.clients = g.clients) : BodyBacked g' := by
  intro d
  rw [h]
  exact hi d

theorem Untouched.bodyBacked (h : Untouched g g') (hi : BodyBacked g) : BodyBacked g' := by
  intro d ho he
  rw [h.context] at he ⊢
  exact hi d (h.opened d ho) he

theorem BodyBacked.onMessage (hi : BodyBacked g) (ho : (g.clients c).open_ = true)
    (hf : g.fault = none) (h : g.refusesNoBody c now) :
    BodyBacked (LB_Server.onMessage g c now) ∧ (LB_Server.onMessage g c now).fault = none := by
  simp only [Gateway.refusesNoBody] at h
  simp only [LB_Server.onMessage]
  split
  · rename_i hb
    split
    · rename_i r hr
      refine ⟨BodyBacked.of_clients (g := g.setClient c (g.link c r).forwardBody.conn)
        (hi.setClient fun _ he => ?_) rfl, hf⟩
      rw [Link.forwardBody_client (l := g.link c r) he]
      exact hi c ho hb
    · rename_i hr
      exact absurd hr (hi c ho hb)
  · rename_i hb
    cases hp : (g.clients c).parseRequest with
    | mk parsed conn =>
      obtain ⟨hc, hopen, hkeep⟩ := Client.parseRequest_context hp
      rw [hp] at h
      cases parsed with
      | true =>
        simp only [if_true, Gateway.setClient_lb]
        have hw : ∃ w : Gateway, w = { g.setClient c conn with
            lb := (g.lb.judge conn.context conn.inputBuffer_ now).1 } ∧ w.clients c = conn ∧
              w.fault = none ∧ ∀ d, d ≠ c → w.clients d = g.clients d :=
          ⟨_, rfl, by simp, hf, fun d hd => by simp [hd]⟩
        obtain ⟨w, hw, hwc, hwf, hwd⟩ := hw
        rw [← hw]
        split
        · rename_i response hv
          refine ⟨?_, hwf⟩
          refine hi.update (c := c) (fun d hd => by simp [refuse_clients, hd, hwd d hd]) ?_
          simp only [refuse_clients, Function.update_self, refused_context, hwc]
          intro _ he hn
          have := h (hc ▸ hn) (Bool.eq_false_iff.mpr hb) rfl he
          simp [hv, Verdict.isRefuse] at this
        · rename_i targetAddr _
          refine ⟨?_, accept_fault.trans hwf⟩
          obtain ⟨l, hl, hbound⟩ := accept_bound w c targetAddr
          refine hi.update (c := c) (fun d hd => by simp [hl, hd, hwd d hd]) ?_
          rw [hl, Function.update_self]
          intro _ he
          rw [hbound he]
          exact Option.some_ne_none _
      | false =>
        refine ⟨hi.setClient fun ho' he => ?_, hf⟩
        exact absurd ((hkeep rfl).symm.trans he) hb

theorem Gateway.answersAtOnce_expecting (h : g.answersAtOnce c r)
    (ho : (g.clients c).open_ = true) (hn : (g.clients c).context.client_ = none)
    (hb : (g.clients c).context.parser_.isExpectingBody = false) :
    (g.link c r).relayResponse.expecting = false := by
  rw [Link.relayResponse_expecting (l := g.link c r) hb]
  simp only [Gateway.answersAtOnce] at h
  cases hp : (g.link c r).parser.parseResponse (g.link c r).remote.inputBuffer_ with
  | mk parsed p =>
    have hp' : (g.clients c).context.parser_.parseResponse (g.remotes r).inputBuffer_ =
      (parsed, p) := hp
    rw [hp'] at h
    cases parsed with
    | true => simpa using h ho hn hb rfl
    | false => rfl

theorem BodyBacked.onResponse (hi : BodyBacked g)
    (h : ∀ c, g.lock r = some c → (g.remotes r).is_busy_ = true → g.answersAtOnce c r) :
    BodyBacked (RemoteClient.onMessage g r) := by
  simp only [RemoteClient.onMessage]
  split
  · rename_i c hbound
    split
    · rename_i hlive
      have hlink : BodyBacked (g.setLink c r (g.link c r).relayResponse) := by
        refine hi.update (c := c) (fun d hd => by simp [hd]) ?_
        simp only [Gateway.setLink_clients, Function.update_self]
        intro ho he
        rw [Link.relayResponse_client he]
        have hq := Link.relayResponse_quiet (g.link c r)
        have ho : (g.clients c).open_ = true := by rwa [Client.open_, hq.alive, hq.state] at ho
        intro hn
        have hb : (g.clients c).context.parser_.isExpectingBody = false :=
          Bool.eq_false_iff.mpr fun hb => hi c ho hb hn
        have hlock : g.lock r = some c := by simp [Gateway.lock, hbound, hlive.1]
        exact Bool.false_ne_true
          ((Gateway.answersAtOnce_expecting (h c hlock hlive.2) ho hn hb).symm.trans he)
      split
      · exact hlink.of_clients Gateway.returnConnection_clients
      · exact hlink
    · exact hi.of_clients rfl
  · exact hi.of_clients rfl

theorem backed_step (hi : BodyBacked g) (hc : KeepsBackend g e) (hs : step g e = some g') :
    BodyBacked g' ∧ g'.fault = none := by
  simp only [step, Option.ite_none_right_eq_some] at hs
  obtain ⟨hf, hs⟩ := hs
  by_cases he : e.reads = true
  · cases e with
    | accept =>
      cases hs
      exact ⟨BodyBacked.of_clients (hi.setClient (by simp [HttpParser.isExpectingBody])) rfl, hf⟩
    | clientRead c data now =>
      simp only [Gateway.stepOk, Option.ite_none_right_eq_some, Option.some.injEq] at hs
      obtain ⟨⟨hopen, -⟩, rfl⟩ := hs
      have hread : BodyBacked (g.read c data) := hi.setClient (hi c)
      exact hread.onMessage (by simpa [Gateway.read, Client.open_] using hopen) hf hc
    | backendRead r data =>
      simp only [Gateway.stepOk, Option.ite_none_right_eq_some, Option.some.injEq] at hs
      obtain ⟨-, rfl⟩ := hs
      have hreceive : BodyBacked (g.receive r data) := hi.of_clients rfl
      split
      · rename_i hheld
        refine ⟨hreceive.onResponse fun c hl hb => ?_, onResponse_fault.trans hf⟩
        simp only [KeepsBackend, hl] at hc
        exact hc hheld hb
      · exact ⟨hreceive, hf⟩
    | _ => cases he
  · have hu := untouched_of_step hs (Bool.eq_false_iff.mpr he)
    exact ⟨hu.bodyBacked hi, hu.fault.trans hf⟩

-- ---------------------------------------------------------------------------
-- Runs
-- ---------------------------------------------------------------------------

theorem backed_init (lb : LB_Server) : BodyBacked { lb } := by
  intro c ho
  cases ho

theorem backed_reach (h : Reach step KeepsBackend { lb } g) : BodyBacked g ∧ g.fault = none :=
  h.invariant ⟨backed_init lb, rfl⟩ fun _ _ _ hi hc hs => backed_step hi.1 hc hs

theorem onResponse_clients (hl : g.lock r = some c) (hb : (g.remotes r).is_busy_ = true) :
    (RemoteClient.onMessage g r).clients c = (g.link c r).relayResponse.conn := by
  obtain ⟨hbound, halive⟩ := Option.filter_eq_some_iff.mp hl
  simp only [RemoteClient.onMessage, hbound, hb, and_true, halive, if_true]
  split
  · rw [Gateway.returnConnection_clients, Gateway.setLink_clients, Function.update_self]
  · rw [Gateway.setLink_clients, Function.update_self]

/-- After a step that breaks the condition some client's next read is a call through null. -/
theorem null_call_next (hf : g.fault = none) (hc : ¬ KeepsBackend g e) (hs : step g e = some g') :
    ∃ c, ∀ data now, data ≠ [] →
      ∃ g'', step g' (.clientRead c data now) = some g'' ∧ g''.fault = some c := by
  -- it is enough that an open client expects a body and has no backend
  suffices hsuff : g'.fault = none ∧ ∃ c, (g'.clients c).open_ = true ∧
      (g'.clients c).context.parser_.isExpectingBody = true ∧
        (g'.clients c).context.client_ = none by
    obtain ⟨hf', c, ho, hb, hn⟩ := hsuff
    refine ⟨c, fun data now hd => ⟨(g'.read c data).nullCall c, ?_, rfl⟩⟩
    have hcall : LB_Server.onMessage (g'.read c data) c now = (g'.read c data).nullCall c := by
      simp [LB_Server.onMessage, Gateway.read, hb, hn]
    rw [step, if_pos hf', Gateway.stepOk, if_pos ⟨ho, hd⟩, hcall]
  simp only [step, Option.ite_none_right_eq_some] at hs
  obtain ⟨-, hs⟩ := hs
  cases e with
  | clientRead c data now =>
    simp only [Gateway.stepOk, Option.ite_none_right_eq_some, Option.some.injEq] at hs
    obtain ⟨⟨hopen, -⟩, rfl⟩ := hs
    have ho : ((g.read c data).clients c).open_ = true := by
      simpa [Gateway.read, Client.open_] using hopen
    have hf : (g.read c data).fault = none := hf
    simp only [KeepsBackend] at hc
    generalize g.read c data = t at *
    simp only [Gateway.refusesNoBody, Classical.not_imp] at hc
    obtain ⟨hn, hb, hparsed, he, hr⟩ := hc
    cases hp : (t.clients c).parseRequest with
    | mk parsed conn =>
      obtain ⟨hc, hopen, -⟩ := Client.parseRequest_context hp
      rw [hp] at hparsed he hr
      obtain rfl : parsed = true := hparsed
      have hv : ∃ response, (t.lb.judge conn.context conn.inputBuffer_ now).2 = .refuse response := by
        cases hv : (t.lb.judge conn.context conn.inputBuffer_ now).2 with
        | refuse response => exact ⟨response, rfl⟩
        | forward targetAddr => simp [hv, Verdict.isRefuse] at hr
      obtain ⟨response, hv⟩ := hv
      have hrefuse : ∃ w : Gateway, LB_Server.onMessage t c now = w.refuse c response ∧
          w.clients c = conn ∧ w.fault = none := by
        simp only [LB_Server.onMessage, hb, Bool.false_eq_true, if_false, hp, if_true,
          Gateway.setClient_lb, hv]
        exact ⟨_, rfl, by simp, hf⟩
      obtain ⟨w, hw, hwc, hwf⟩ := hrefuse
      refine ⟨hw ▸ hwf, c, ?_⟩
      rw [hw, refuse_clients, Function.update_self, refused_context, shutdown_open, hwc]
      refine ⟨?_, he, hc.trans hn⟩
      rwa [Client.open_, Link.send_state, (Link.send_fields _ _).2.2.1, ← Client.open_, hopen]
  | backendRead r data =>
    simp only [Gateway.stepOk, Option.ite_none_right_eq_some, Option.some.injEq] at hs
    obtain ⟨-, rfl⟩ := hs
    have hf : (g.receive r data).fault = none := hf
    simp only [KeepsBackend] at hc
    generalize g.receive r data = t at *
    cases hl : t.lock r with
    | none => simp [hl] at hc
    | some c =>
      simp only [hl, Classical.not_imp] at hc
      obtain ⟨hheld, hbusy, hc⟩ := hc
      simp only [Gateway.answersAtOnce, Classical.not_imp] at hc
      obtain ⟨ho, hn, hb, hparsed, hpending⟩ := hc
      have hexp : (t.link c r).relayResponse.expecting = true := by
        rw [Link.relayResponse_expecting (l := t.link c r) hb]
        exact Bool.and_eq_true_iff.mpr ⟨hparsed, Bool.not_eq_false _ ▸ hpending⟩
      have hq := Link.relayResponse_quiet (t.link c r)
      refine ⟨?_, c, ?_⟩
      · rw [if_pos hheld, onResponse_fault, hf]
      · rw [if_pos hheld, onResponse_clients hl hbusy]
        refine ⟨?_, hexp, (Link.relayResponse_client hexp).trans hn⟩
        rwa [Client.open_, hq.alive, hq.state]
  | _ => exact absurd trivial hc

theorem no_null_call (h : Reach step KeepsBackend { lb } g) : g.fault = none :=
  (backed_reach h).2

/-- Two requests with bodies in several reads, and the responses to them. -/
def answeredRun : List Event :=
  [.accept, .clientRead 0 (ascii "POST /im HTTP/1.1\r\nContent-Length: 4\r\n\r\nbo") 0,
    .backendUp 0, .clientRead 0 (ascii "dy") 0,
    .backendRead 0 (ascii "HTTP/1.1 200 OK\r\nContent-Length: 2\r\n\r\no"),
    .backendRead 0 (ascii "k"), .clientRead 0 (ascii "POST /im HTTP/1.1\r\n") 0,
    .clientRead 0 (ascii "Content-Length: 4\r\n\r\n") 0, .clientRead 0 (ascii "body") 0]

theorem no_null_call_answered :
    ∃ g, exec step KeepsBackend { lb := unconfigured } answeredRun = some g ∧ g.fault = none := by
  have hrun : (exec step KeepsBackend { lb := unconfigured } answeredRun).isSome = true := by
    decide +kernel
  obtain ⟨g, hg⟩ := Option.isSome_iff_exists.mp hrun
  exact ⟨g, hg, no_null_call (.of_exec hg)⟩

def refusedUpload : List Event :=
  [.accept, .clientRead 0 (ascii "POST /x HTTP/1.1\r\nContent-Length: 4\r\n\r\nbo") 0,
    .clientRead 0 (ascii "dy") 0]

theorem not_no_null_call : ¬ ∀ lb g, Reach step Always { lb } g → g.fault = none := by
  intro h
  have hrun : (exec step Always { lb := unconfigured } refusedUpload).any
      (fun g => g.fault = some 0) = true := by
    decide +kernel
  obtain ⟨g, hg, hf⟩ := (Option.any_eq_true _ _).mp hrun
  exact Option.some_ne_none 0 ((of_decide_eq_true hf).symm.trans (h _ g (.of_exec hg)))

end VortexNet.L7
