import VortexNet.Proxy.L7.Orderly

/-!
# A status line of the gateway's own

The gateway answers 502 when a backend goes down in use. `is_busy_` does not
tell whether the response has begun, so the status line is the first thing of a
response only where the backend goes down before its head is there.
-/

namespace VortexNet.L7

open Incremental Picohttpparser
open Systems (Reach Always exec)

-- ---------------------------------------------------------------------------
-- The condition
-- ---------------------------------------------------------------------------

/-- What has come from the backend begins with a whole response head. -/
def RemoteClient.headCame (remote : RemoteClient) : Prop :=
  0 < ret (phr_parse_response remote.arrived)

/-- The connection is in use for a client that can be sent something. -/
structure Serves (g : Gateway) (r c : Nat) : Prop where
  bound : (g.remotes r).clientConn_ = some c
  busy : (g.remotes r).is_busy_ = true
  alive : (g.clients c).alive = true
  connected : (g.clients c).state_ = .kConnected

/-- Before the head of its response a backend sends nothing while the parser of its client is in a
body, and it goes down in use only before any response head for that client has come. -/
def HeadFirst (g : Gateway) : Event → Prop
  | .backendRead r _ => ∀ c ∈ (g.remotes r).clientConn_, Serves g r c →
      (g.clients c).context.parser_.isExpectingBody = true → (g.remotes r).headCame
  | .backendDown r => ∀ c ∈ (g.remotes r).clientConn_, Serves g r c →
      ∀ s < g.remoteCount, Serves g s c → ¬ (g.remotes s).headCame
  | _ => True

instance (remote : RemoteClient) : Decidable remote.headCame := by
  unfold RemoteClient.headCame
  infer_instance

instance (g : Gateway) (r c : Nat) : Decidable (Serves g r c) :=
  decidable_of_iff ((g.remotes r).clientConn_ = some c ∧ (g.remotes r).is_busy_ = true ∧
      (g.clients c).alive = true ∧ (g.clients c).state_ = .kConnected)
    ⟨fun ⟨hb, hy, ha, hc⟩ => ⟨hb, hy, ha, hc⟩, fun ⟨hb, hy, ha, hc⟩ => ⟨hb, hy, ha, hc⟩⟩

instance (g : Gateway) (e : Event) : Decidable (HeadFirst g e) :=
  match e with
  | .backendRead .. => inferInstanceAs (Decidable (∀ _ ∈ _, _))
  | .backendDown _ => inferInstanceAs (Decidable (∀ _ ∈ _, _))
  | .accept | .clientRead .. | .clientClose _ | .clientGone _ | .backendUp _ | .backendFailed _
  | .errorCallback _ | .shared _ => .isTrue trivial

variable {g g' w : Gateway} {c d r s now : Nat} {e : Event} {remote : RemoteClient} {l : Link}
  {conn : Client} {g'' : Gateway}

theorem RemoteClient.headCame.append {remote' : RemoteClient} (h : remote.headCame)
    (ha : remote'.arrived = remote.arrived ++ data) : remote'.headCame := by
  rw [headCame, ha, HttpParser.ret_response_append h]
  exact h

theorem Link.relayResponse_began (hbody : l.parser.isExpectingBody = false)
    (hnone : l.remote.exchange.relayed = [])
    (hrelayed : l.relayResponse.remote.exchange.relayed ≠ []) :
    0 < ret (phr_parse_response l.remote.inputBuffer_) := by
  cases hp : l.parser.parseResponse l.remote.inputBuffer_ with
  | mk parsed p => cases parsed with
    | true => exact HttpParser.parseResponse_parsed hp
    | false =>
      refine absurd ?_ hrelayed
      simp only [Link.relayResponse, hbody, hp, Bool.false_eq_true, if_false]
      exact hnone

-- ---------------------------------------------------------------------------
-- The invariant
-- ---------------------------------------------------------------------------

structure HeadLed (g : Gateway) : Prop where
  known : ∀ c, (g.clients c).alive = true → c < g.clientCount
  bound : ∀ r c, (g.remotes r).clientConn_ = some c → c < g.clientCount
  led : ∀ r c, Serves g r c → (g.remotes r).exchange.relayed ≠ [] → (g.remotes r).headCame

theorem headLed_init (lb : LB_Server) : HeadLed { lb } where
  known _ h := nomatch h
  bound _ _ h := nomatch h
  led _ _ _ h := absurd rfl h

structure SameResponse (remote remote' : RemoteClient) : Prop where
  bound : remote'.clientConn_ = remote.clientConn_
  busy : remote'.is_busy_ = remote.is_busy_
  inputBuffer : remote'.inputBuffer_ = remote.inputBuffer_
  exchange : remote'.exchange = remote.exchange

theorem SameResponse.refl (remote : RemoteClient) : SameResponse remote remote :=
  ⟨rfl, rfl, rfl, rfl⟩

/-- Nothing was relayed: a response is where it was, or is that of a request just gone out. -/
structure NoneRelayed (g g' : Gateway) : Prop where
  clientCount : g'.clientCount = g.clientCount
  alive : ∀ d, (g'.clients d).alive = true → (g.clients d).alive = true
  connected : ∀ d, (g'.clients d).state_ = .kConnected → (g.clients d).state_ = .kConnected
  remotes : ∀ s, SameResponse (g.remotes s) (g'.remotes s) ∨
    ∃ c < g.clientCount, (g'.remotes s).clientConn_ = some c ∧ (g'.remotes s).exchange.relayed = []

theorem Untouched.noneRelayed (h : Untouched g g') : NoneRelayed g g' :=
  ⟨h.clientCount, h.alive, h.connected,
    fun s => .inl ⟨h.bound s, h.busy s, h.received s, h.exchange s⟩⟩

theorem HeadLed.noneRelayed (hi : HeadLed g) (h : NoneRelayed g g') : HeadLed g' where
  known d ha := h.clientCount ▸ hi.known d (h.alive d ha)
  bound s d hb := by
    rw [h.clientCount]
    rcases h.remotes s with hs | ⟨c, hc, hs, -⟩
    · exact hi.bound s d (hs.bound ▸ hb)
    · exact Option.some.inj (hs.symm.trans hb) ▸ hc
  led s d hv hr := by
    rcases h.remotes s with hs | ⟨-, -, -, hs⟩
    · rw [RemoteClient.headCame, RemoteClient.arrived, hs.exchange, hs.inputBuffer]
      refine hi.led s d ⟨?_, ?_, h.alive d hv.alive, h.connected d hv.connected⟩ (hs.exchange ▸ hr)
      · exact hs.bound ▸ hv.bound
      · exact hs.busy ▸ hv.busy
    · exact absurd hs hr

-- ---------------------------------------------------------------------------
-- Client reads
-- ---------------------------------------------------------------------------

theorem NoneRelayed.trans (h₁ : NoneRelayed g g') (h₂ : NoneRelayed g' g'') :
    NoneRelayed g g'' where
  clientCount := h₂.clientCount.trans h₁.clientCount
  alive d h := h₁.alive d (h₂.alive d h)
  connected d h := h₁.connected d (h₂.connected d h)
  remotes s := by
    rcases h₂.remotes s with hs | ⟨c, hc, hs⟩
    · rcases h₁.remotes s with ht | ⟨c, hc, hb, hr⟩
      · exact .inl ⟨hs.bound.trans ht.bound, hs.busy.trans ht.busy,
          hs.inputBuffer.trans ht.inputBuffer, hs.exchange.trans ht.exchange⟩
      · exact .inr ⟨c, hc, hs.bound.trans hb, hs.exchange ▸ hr⟩
    · exact .inr ⟨c, h₁.clientCount ▸ hc, hs⟩

theorem noneRelayed_client (hcount : g'.clientCount = g.clientCount)
    (hremotes : g'.remotes = g.remotes) (hclients : g'.clients = Function.update g.clients c conn)
    (ha : conn.alive = true → (g.clients c).alive = true)
    (hs : conn.state_ = .kConnected → (g.clients c).state_ = .kConnected) :
    NoneRelayed g g' where
  clientCount := hcount
  alive d := by
    rw [hclients]
    by_cases h : d = c
    · subst h
      simpa using ha
    · simp [h]
  connected d := by
    rw [hclients]
    by_cases h : d = c
    · subst h
      simpa using hs
    · simp [h]
  remotes s := .inl (hremotes ▸ .refl _)

theorem noneRelayed_forwardBody (h : (g.link c r).remote = g.remotes r) :
    NoneRelayed g (g.setLink c r (g.link c r).forwardBody) := by
  have hf := Link.forwardBody_forwards (g.link c r)
  generalize (g.link c r).forwardBody = l at *
  have hclient : NoneRelayed g (g.setClient c l.conn) :=
    noneRelayed_client rfl rfl rfl (fun h => hf.alive ▸ h) fun h => hf.state ▸ h
  refine ⟨rfl, hclient.alive, hclient.connected, fun s => .inl ?_⟩
  by_cases hs : s = r
  · subst hs
    exact ⟨by simp [hf.bound], by simp [hf.busy], by simp [hf.inputBuffer], by simp [hf.exchange]⟩
  · rw [Gateway.setLink_remotes, Function.update_of_ne hs]
    exact .refl _

theorem borrowConnection_remotes (hs : s ≠ (g.borrowConnection a).1) :
    (g.borrowConnection a).2.remotes s = g.remotes s := by
  unfold Gateway.borrowConnection at hs ⊢
  split
  · rfl
  · rename_i h
    simp only [h] at hs
    exact Function.update_of_ne hs ..

theorem noneRelayed_accept (hc : c < g.clientCount) : NoneRelayed g (g.accept c a) := by
  have hclients := Gateway.borrowConnection_clients (g := g) (a := a)
  have hcount := Gateway.borrowConnection_clientCount (g := g) (a := a)
  have hremotes := fun s => borrowConnection_remotes (g := g) (a := a) (s := s)
  simp only [Gateway.accept]
  generalize (g.borrowConnection a).1 = r at *
  generalize (g.borrowConnection a).2 = v at *
  generalize hl₀ : ({
    conn := { v.clients c with context := (v.clients c).context.BoundRClient r }
    remote := (v.remotes r).bindClient c (v.clients c).context.parser_.request.method } : Link) = l₀
  have hf := Link.forwardHead_forwards l₀
  have hconn : l₀.conn.alive = (g.clients c).alive ∧ l₀.conn.state_ = (g.clients c).state_ := by
    rw [← hl₀, hclients]
    exact ⟨rfl, rfl⟩
  have hbound : l₀.remote.clientConn_ = some c := hl₀ ▸ rfl
  have hnone : l₀.remote.exchange.relayed = [] := hl₀ ▸ rfl
  generalize l₀.forwardHead = l at *
  have hclient : NoneRelayed g (g.setClient c l.conn) := noneRelayed_client rfl rfl rfl
    (fun h => hconn.1 ▸ hf.alive ▸ h) fun h => hconn.2 ▸ hf.state ▸ h
  refine ⟨hcount, fun d => ?_, fun d => ?_, fun s => ?_⟩
  · simpa [hclients] using hclient.alive d
  · simpa [hclients] using hclient.connected d
  · by_cases hs : s = r
    · subst hs
      refine .inr ⟨c, hc, ?_, ?_⟩
      · simp [hf.bound, hbound]
      · simp [hf.exchange, hnone]
    · rw [Gateway.setLink_remotes, Function.update_of_ne hs, hremotes s hs]
      exact .inl (.refl _)

theorem noneRelayed_refuse : NoneRelayed g (g.refuse c response) :=
  noneRelayed_client rfl rfl rfl (fun h => (shutdown_fields (g.clients c) response).2.2.1 ▸ h)
    fun h => absurd h shutdown_state

theorem noneRelayed_onMessage (hc : c < g.clientCount) :
    NoneRelayed g (LB_Server.onMessage g c now) := by
  simp only [LB_Server.onMessage]
  split
  · split
    · exact noneRelayed_forwardBody rfl
    · exact noneRelayed_client rfl rfl (Function.update_eq_self c g.clients).symm id id
  · cases hp : (g.clients c).parseRequest with
    | mk parsed conn =>
      have hconn : conn.alive = (g.clients c).alive ∧ conn.state_ = (g.clients c).state_ := by
        obtain ⟨p, buf, -, rfl⟩ := Client.parseRequest_eq hp
        exact ⟨rfl, rfl⟩
      have hparsed : ∀ lb, NoneRelayed g { g.setClient c conn with lb } := fun lb =>
        noneRelayed_client rfl rfl rfl (fun h => hconn.1 ▸ h) fun h => hconn.2 ▸ h
      cases parsed with
      | true =>
        simp only [if_true]
        split
        · exact (hparsed _).trans noneRelayed_refuse
        · exact (hparsed _).trans (noneRelayed_accept hc)
      | false => exact hparsed g.lb

-- ---------------------------------------------------------------------------
-- Backend reads
-- ---------------------------------------------------------------------------

theorem receive_serves (h : Serves (g.receive r data) s c) : Serves g s c := by
  obtain ⟨hb, hy, ha, hc⟩ := h
  by_cases hs : s = r
  · subst hs
    exact ⟨by simpa [Gateway.receive] using hb, by simpa [Gateway.receive] using hy, ha, hc⟩
  · exact ⟨by simpa [Gateway.receive, hs] using hb, by simpa [Gateway.receive, hs] using hy, ha, hc⟩

theorem receive_arrived : ((g.receive r data).remotes r).arrived = (g.remotes r).arrived ++ data := by
  simp [Gateway.receive, RemoteClient.arrived]

theorem receive_relayed :
    ((g.receive r data).remotes r).exchange.relayed = (g.remotes r).exchange.relayed := by
  simp [Gateway.receive]

theorem HeadLed.receive (hi : HeadLed g) : HeadLed (g.receive r data) where
  known := hi.known
  bound s c hb := by
    by_cases hs : s = r
    · subst hs
      exact hi.bound s c (by simpa [Gateway.receive] using hb)
    · exact hi.bound s c (by simpa [Gateway.receive, hs] using hb)
  led s c hv hr := by
    by_cases hs : s = r
    · subst hs
      rw [receive_relayed] at hr
      exact (hi.led s c (receive_serves hv) hr).append receive_arrived
    · rw [Gateway.receive, Gateway.setRemote_remotes, Function.update_of_ne hs] at hr ⊢
      exact hi.led s c (receive_serves hv) hr

theorem HeadLed.setRemote (hi : HeadLed g) (hclients : ∀ d, (g'.clients d).alive =
      (g.clients d).alive ∧ (g'.clients d).state_ = (g.clients d).state_)
    (hcount : g'.clientCount = g.clientCount) (hremotes : ∀ s, s ≠ r → g'.remotes s = g.remotes s)
    (hbound : ∀ c, (g'.remotes r).clientConn_ = some c → (g.remotes r).clientConn_ = some c)
    (hled : ∀ c, Serves g' r c → (g'.remotes r).exchange.relayed ≠ [] →
      (g'.remotes r).headCame) : HeadLed g' where
  known c ha := hcount ▸ hi.known c ((hclients c).1 ▸ ha)
  bound s c hb := by
    rw [hcount]
    by_cases hs : s = r
    · subst hs
      exact hi.bound s c (hbound c hb)
    · exact hi.bound s c (hremotes s hs ▸ hb)
  led s c hv hr := by
    by_cases hs : s = r
    · subst hs
      exact hled c hv hr
    · obtain ⟨hb, hy, ha, hc⟩ := hv
      rw [hremotes s hs] at hb hy hr ⊢
      exact hi.led s c ⟨hb, hy, (hclients c).1 ▸ ha, (hclients c).2 ▸ hc⟩ hr

theorem HeadLed.disconnect (hi : HeadLed g) (hno : ∀ c, ¬ Serves g r c) :
    HeadLed (g.setRemote r (g.remotes r).disconnect) := by
  have hdis : (g.remotes r).disconnect.clientConn_ = (g.remotes r).clientConn_ ∧
      (g.remotes r).disconnect.is_busy_ = (g.remotes r).is_busy_ := by
    unfold RemoteClient.disconnect
    split <;> exact ⟨rfl, rfl⟩
  refine hi.setRemote (r := r) (fun _ => ⟨rfl, rfl⟩) rfl (fun s hs => by simp [hs]) (fun c hb => ?_)
    fun c hv => absurd ⟨?_, ?_, hv.alive, hv.connected⟩ (hno c)
  · simpa [hdis.1] using hb
  · simpa [hdis.1] using hv.bound
  · simpa [hdis.2] using hv.busy

theorem HeadLed.relayResponse (hi : HeadLed g) (hb : (g.remotes r).clientConn_ = some c)
    (hbody : Serves g r c → (g.clients c).context.parser_.isExpectingBody = true →
      (g.remotes r).headCame) : HeadLed (g.setLink c r (g.link c r).relayResponse) := by
  have hq := Link.relayResponse_quiet (g.link c r)
  refine hi.setRemote (r := r) (fun d => ?_) rfl (fun s hs => by simp [hs]) (fun d hd => ?_)
    fun d hv hr => ?_
  · by_cases h : d = c
    · subst h
      exact ⟨by simp [hq.alive], by simp [hq.state]⟩
    · simp [h]
  · simpa [hq.bound] using hd
  · -- the client is the one the connection was bound to
    have hd : (g.remotes r).clientConn_ = some d := by simpa [hq.bound] using hv.bound
    obtain rfl : c = d := Option.some.inj (hb.symm.trans hd)
    have hold : Serves g r c := ⟨hb, by simpa [hq.busy] using hv.busy,
      by simpa [hq.alive] using hv.alive, by simpa [hq.state] using hv.connected⟩
    have harrived := Link.arrived_relayResponse (l := g.link c r) hold.connected
    simp only [Gateway.setLink_remotes, Function.update_self] at hr ⊢
    rw [RemoteClient.headCame, harrived]
    by_cases hnone : (g.remotes r).exchange.relayed = []
    · by_cases he : (g.clients c).context.parser_.isExpectingBody = true
      · exact hbody hold he
      · rw [RemoteClient.arrived, Gateway.link_remote, hnone]
        exact Link.relayResponse_began (l := g.link c r) (Bool.eq_false_iff.mpr he) hnone hr
    · exact hi.led r c hold hnone

theorem HeadLed.returnConnection (hi : HeadLed g) : HeadLed (g.returnConnection c r) := by
  have hb := (returnConnection_remote (g := g) (c := c) (r := r)).1
  refine hi.setRemote (r := r) (fun d => ?_) Gateway.returnConnection_clientCount
    (fun s hs => returnConnection_remotes hs) (fun d hd => ?_) fun d hv => ?_
  · rw [Gateway.returnConnection_clients]
    exact ⟨rfl, rfl⟩
  · exact absurd (hb.symm.trans hd) nofun
  · exact absurd (hb.symm.trans hv.bound) nofun

theorem HeadLed.onMessage (hi : HeadLed g) (hbody : ∀ c, Serves g r c →
    (g.clients c).context.parser_.isExpectingBody = true → (g.remotes r).headCame) :
    HeadLed (RemoteClient.onMessage g r) := by
  simp only [RemoteClient.onMessage]
  split
  · rename_i c hb
    split
    · have hrelay := hi.relayResponse hb (hbody c)
      split
      · exact hrelay.returnConnection
      · exact hrelay
    · rename_i hgone
      refine hi.disconnect fun d hv => hgone ?_
      obtain rfl : c = d := Option.some.inj (hb.symm.trans hv.bound)
      exact ⟨hv.alive, hv.busy⟩
  · rename_i hb
    exact hi.disconnect fun d hv => nomatch hb.symm.trans hv.bound

-- ---------------------------------------------------------------------------
-- Runs
-- ---------------------------------------------------------------------------

theorem HeadLed.acceptClient (hi : HeadLed g) : HeadLed
    { g.setClient g.clientCount { state_ := .kConnected, alive := true } with
      clientCount := g.clientCount + 1 } where
  known c ha := by
    by_cases h : c = g.clientCount
    · exact h ▸ Nat.lt_succ_self _
    · exact Nat.lt_succ_of_lt (hi.known c (by simpa [h] using ha))
  bound r c hb := Nat.lt_succ_of_lt (hi.bound r c hb)
  led r c hv := by
    obtain ⟨hb, hy, ha, hc⟩ := hv
    have h : c ≠ g.clientCount := (hi.bound r c hb).ne
    exact hi.led r c ⟨hb, hy, by simpa [h] using ha, by simpa [h] using hc⟩

theorem headLed_step (hi : HeadLed g) (hc : HeadFirst g e) (hs : step g e = some g') :
    HeadLed g' := by
  simp only [step, Option.ite_none_right_eq_some] at hs
  obtain ⟨-, hs⟩ := hs
  by_cases he : e.reads = true
  · cases e with
    | accept =>
      cases hs
      exact hi.acceptClient
    | clientRead c data now =>
      simp only [Gateway.stepOk, Option.ite_none_right_eq_some, Option.some.injEq] at hs
      obtain ⟨⟨hopen, -⟩, rfl⟩ := hs
      simp only [Client.open_, Bool.and_eq_true] at hopen
      have hread : NoneRelayed g (g.read c data) := noneRelayed_client rfl rfl rfl id id
      exact hi.noneRelayed (hread.trans (noneRelayed_onMessage (hi.known c hopen.1)))
    | backendRead r data =>
      simp only [Gateway.stepOk, Option.ite_none_right_eq_some, Option.some.injEq] at hs
      obtain ⟨-, rfl⟩ := hs
      have hgot : HeadLed (g.receive r data) := hi.receive
      split
      · refine hgot.onMessage fun c hv hbody => ?_
        have hold := receive_serves hv
        exact (hc c hold.bound hold hbody).append receive_arrived
      · exact hgot
    | _ => cases he
  · exact hi.noneRelayed (untouched_of_step hs (Bool.eq_false_iff.mpr he)).noneRelayed

theorem headLed_of_reach (h : Reach step HeadFirst { lb } g) : HeadLed g :=
  h.invariant (headLed_init lb) fun _ _ _ hi hc hs => headLed_step hi hc hs

theorem backendDown_output (hs : step g (.backendDown r) = some g') :
    (g'.clients c).output = (g.clients c).output ∨
      Serves g r c ∧ (g'.clients c).state_ ≠ .kConnected ∧
        (g'.clients c).output = (g.clients c).output ++ badGatewayResponse := by
  simp only [step, Gateway.stepOk, Option.ite_none_right_eq_some, Option.some.injEq] at hs
  obtain ⟨-, -, rfl⟩ := hs
  split
  · simp only [Gateway.backendDown]
    split
    · rename_i hbusy
      split
      · rename_i d hlock
        obtain ⟨hb, ha⟩ := Option.filter_eq_some_iff.mp hlock
        by_cases h : c = d
        · subst h
          by_cases hc : (g.clients c).state_ = .kConnected
          · refine .inr ⟨⟨hb, hbusy, ha, hc⟩, ?_, ?_⟩ <;> simp [Client.send, Client.shutdown, hc]
          · exact .inl (by simp [Client.send, Client.shutdown, hc])
        · exact .inl (by simp [h])
      · exact .inl rfl
    · exact .inl rfl
  · exact .inl rfl

end VortexNet.L7
