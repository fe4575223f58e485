import VortexNet.Proxy.L7.LinkLaws

/-!
# Backend connections

What goes out on a backend connection and what waits for it changes by
`sendToBackend` and when the connection comes up, and not by what it receives.
A connection that has come up does not come up again.
-/

namespace VortexNet.L7

open Picohttpparser
open Systems (Reach Always)

variable {g g' : Gateway} {c r now : Nat} {l : Link} {n : Nat} {remote remote' : RemoteClient}

-- ---------------------------------------------------------------------------
-- What is sent
-- ---------------------------------------------------------------------------

structure Unsent (remote remote' : RemoteClient) : Prop where
  connecting : remote'.connecting = remote.connecting
  conn : remote'.conn_ = remote.conn_
  output : remote'.output = remote.output
  pending : remote'.pendingBuffer_ = remote.pendingBuffer_
  forwarded : remote'.forwarded = remote.forwarded

theorem Unsent.refl (remote : RemoteClient) : Unsent remote remote := ⟨rfl, rfl, rfl, rfl, rfl⟩

theorem Unsent.trans (h₁ : Unsent remote remote') (h₂ : Unsent remote' remote'') :
    Unsent remote remote'' :=
  ⟨h₂.connecting.trans h₁.connecting, h₂.conn.trans h₁.conn, h₂.output.trans h₁.output,
    h₂.pending.trans h₁.pending, h₂.forwarded.trans h₁.forwarded⟩

namespace Link

theorem relay_unsent (l : Link) (n : Nat) : Unsent l.remote (l.relay n).remote :=
  ⟨rfl, rfl, rfl, rfl, rfl⟩

theorem retrieve_unsent (l : Link) (n : Nat) : Unsent l.remote (l.retrieve n).remote :=
  ⟨rfl, rfl, rfl, rfl, rfl⟩

theorem consumeResponse_unsent (l : Link) (n : Nat) : Unsent l.remote (l.consumeResponse n).remote :=
  ⟨rfl, rfl, rfl, rfl, rfl⟩

theorem finishIfGotAll_unsent (l : Link) : Unsent l.remote l.finishIfGotAll.remote := by
  unfold finishIfGotAll
  split <;> exact .refl _

theorem relayBody_unsent (l : Link) : Unsent l.remote l.relayBody.remote :=
  ((relay_unsent l _).trans (consumeResponse_unsent _ _)).trans (finishIfGotAll_unsent _)

theorem relayChunks_unsent (l : Link) : Unsent l.remote l.relayChunks.remote := by
  have hsent : Unsent l.remote (if l.conn.state_ = .kConnected then
      (l.relay l.remote.inputBuffer_.length).retrieve l.remote.inputBuffer_.length
      else l.relay l.remote.inputBuffer_.length).remote := by
    split
    · exact (relay_unsent l _).trans (retrieve_unsent _ _)
    · exact relay_unsent l _
  simp only [relayChunks]
  split <;> exact hsent

theorem relayHead_unsent (l : Link) : Unsent l.remote l.relayHead.remote := by
  have hhead := (relay_unsent l l.parser.headerLen).trans (retrieve_unsent _ l.parser.headerLen)
  simp only [relayHead]
  split
  · refine hhead.trans (.trans ?_ (finishIfGotAll_unsent _))
    split
    · exact (relay_unsent _ _).trans (consumeResponse_unsent _ _)
    · exact .refl _
  · exact hhead.trans (relayChunks_unsent _)

theorem relayResponse_unsent (l : Link) : Unsent l.remote l.relayResponse.remote := by
  simp only [relayResponse]
  split
  · split
    · exact relayBody_unsent l
    · exact relayChunks_unsent l
  · split
    · exact relayHead_unsent (l.setParser (l.parser.parseResponse l.remote.inputBuffer_).2)
    · exact .refl _

end Link

theorem sendToBackend_conn (remote : RemoteClient) (data : Bytes) :
    (remote.sendToBackend data).conn_ = remote.conn_ ∧
      (remote.sendToBackend data).connecting = remote.connecting := by
  simp only [RemoteClient.sendToBackend]
  split <;> exact ⟨rfl, rfl⟩

namespace Link

def SameConn (l l' : Link) : Prop :=
  l'.remote.conn_ = l.remote.conn_ ∧ l'.remote.connecting = l.remote.connecting

theorem SameConn.trans (h₁ : SameConn l l') (h₂ : SameConn l' l'') : SameConn l l'' :=
  ⟨h₂.1.trans h₁.1, h₂.2.trans h₁.2⟩

theorem forward_sameConn (l : Link) (n : Nat) : SameConn l (l.forward n) :=
  sendToBackend_conn l.remote _

theorem resetIfGotAll_remote (l : Link) : l.resetIfGotAll.remote = l.remote := by
  unfold resetIfGotAll
  split <;> rfl

theorem forwardBody_sameConn (l : Link) : SameConn l l.forwardBody := by
  simp only [forwardBody, SameConn, resetIfGotAll_remote]
  exact forward_sameConn l _

theorem forwardHead_sameConn (l : Link) : SameConn l l.forwardHead := by
  have hhead := forward_sameConn l l.parser.headerLen
  simp only [forwardHead, SameConn, resetIfGotAll_remote]
  split
  · exact hhead.trans (forward_sameConn ((l.forward l.parser.headerLen).retrieveRequest _) _)
  · exact hhead

end Link

-- ---------------------------------------------------------------------------
-- Coming up once
-- ---------------------------------------------------------------------------

def Opened (g : Gateway) : Prop :=
  ∀ r, (g.remotes r).conn_ ≠ none → (g.remotes r).connecting = false

theorem Opened.update (hi : Opened g) (h : g'.remotes = Function.update g.remotes r remote)
    (hr : remote.conn_ ≠ none → remote.connecting = false) : Opened g' := by
  intro s
  rw [h]
  by_cases hs : s = r
  · subst hs
    rwa [Function.update_self]
  · rw [Function.update_of_ne hs]
    exact hi s

theorem Opened.congr (hi : Opened g) (h : g'.remotes = g.remotes) : Opened g' :=
  fun r => h ▸ hi r

theorem disconnect_opened (h : remote.conn_ ≠ none → remote.connecting = false) :
    remote.disconnect.conn_ ≠ none → remote.disconnect.connecting = false := by
  unfold RemoteClient.disconnect
  split
  · rename_i hc
    exact fun _ => h (hc ▸ Option.some_ne_none _)
  · exact h

theorem Opened.setLink (hi : Opened g) (hc : l.remote.conn_ = (g.remotes r).conn_)
    (hn : l.remote.connecting = (g.remotes r).connecting) : Opened (g.setLink c r l) :=
  hi.update rfl (by rw [hc, hn]; exact hi r)

theorem Opened.borrowConnection (hi : Opened g) : Opened (g.borrowConnection a).2 := by
  simp only [Gateway.borrowConnection]
  split
  · exact hi
  · exact hi.update rfl fun h => absurd rfl h

theorem Opened.accept (hi : Opened g) : Opened (g.accept c a) := by
  have hlent := hi.borrowConnection (a := a)
  simp only [Gateway.accept]
  generalize (g.borrowConnection a).1 = r at *
  generalize (g.borrowConnection a).2 = v at *
  obtain ⟨hc, hn⟩ := Link.forwardHead_sameConn {
    conn := { v.clients c with context := (v.clients c).context.BoundRClient r }
    remote := (v.remotes r).bindClient c (v.clients c).context.parser_.request.method }
  exact hlent.setLink hc hn

theorem Opened.onMessage (hi : Opened g) : Opened (LB_Server.onMessage g c now) := by
  simp only [LB_Server.onMessage]
  split
  · split
    · rename_i r _
      obtain ⟨hc, hn⟩ := Link.forwardBody_sameConn (g.link c r)
      exact hi.setLink hc hn
    · exact hi
  · split
    · split
      · exact hi
      · exact Opened.accept (hi.congr rfl)
    · exact hi

theorem Opened.onResponse (hi : Opened g) : Opened (RemoteClient.onMessage g r) := by
  simp only [RemoteClient.onMessage]
  split
  · rename_i c _
    split
    · have hsame := Link.relayResponse_unsent (g.link c r)
      have hlink : Opened (g.setLink c r (g.link c r).relayResponse) :=
        hi.setLink hsame.conn hsame.connecting
      split
      · simp only [Gateway.returnConnection]
        split
        · exact hlink.update rfl (hlink r)
        · exact hlink.update rfl (disconnect_opened (hlink r))
      · exact hlink
    · exact hi.update rfl (disconnect_opened (hi r))
  · exact hi.update rfl (disconnect_opened (hi r))

theorem Opened.step (hi : Opened g) (hs : step g e = some g') : Opened g' := by
  simp only [L7.step, Option.ite_none_right_eq_some] at hs
  obtain ⟨-, hs⟩ := hs
  cases e with
  | accept =>
    cases hs
    exact hi
  | clientRead c data now =>
    simp only [Gateway.stepOk, Option.ite_none_right_eq_some, Option.some.injEq] at hs
    obtain ⟨-, rfl⟩ := hs
    exact Opened.onMessage (g := g.read c data) hi
  | clientClose c =>
    simp only [Gateway.stepOk, Option.ite_none_right_eq_some, Option.some.injEq] at hs
    obtain ⟨-, rfl⟩ := hs
    exact hi
  | clientGone c =>
    simp only [Gateway.stepOk, Option.ite_none_right_eq_some, Option.some.injEq] at hs
    obtain ⟨-, rfl⟩ := hs
    exact hi
  | backendUp r =>
    simp only [Gateway.stepOk, Option.ite_none_right_eq_some, Option.some.injEq] at hs
    obtain ⟨-, rfl⟩ := hs
    simp only [Gateway.backendUp]
    split <;> exact hi.update rfl fun _ => rfl
  | backendFailed r =>
    simp only [Gateway.stepOk, Option.ite_none_right_eq_some, Option.some.injEq] at hs
    obtain ⟨-, rfl⟩ := hs
    exact hi.update rfl fun _ => rfl
  | backendRead r data =>
    simp only [Gateway.stepOk, Option.ite_none_right_eq_some, Option.some.injEq] at hs
    obtain ⟨-, rfl⟩ := hs
    have hread : Opened (g.receive r data) := hi.update rfl (hi r)
    split
    · exact hread.onResponse
    · exact hread
  | backendDown r =>
    simp only [Gateway.stepOk, Option.ite_none_right_eq_some, Option.some.injEq] at hs
    obtain ⟨-, rfl⟩ := hs
    have hdown : Opened (g.setRemote r { g.remotes r with conn_ := none }) :=
      hi.update rfl fun h => absurd rfl h
    split
    · simp only [Gateway.backendDown]
      split
      · split <;> exact hdown
      · exact hdown
    · exact hdown
  | errorCallback r =>
    simp only [Gateway.stepOk, Option.ite_none_right_eq_some, Option.some.injEq] at hs
    obtain ⟨-, rfl⟩ := hs
    exact hi
  | shared lb =>
    cases hs
    exact hi

theorem opened_of_reach (h : Reach step Always { lb } g) : Opened g :=
  h.invariant (fun _ h => absurd rfl h) fun _ _ _ hi _ hs => hi.step hs

end VortexNet.L7
