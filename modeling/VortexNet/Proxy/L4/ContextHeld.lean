import VortexNet.Proxy.L4.Session

/-!
# The context of an L4 client connection

A client for which no backend is found gets a `shutdown()` and no context. That
closes the write side only, so its next read or its close goes through the null
pointer of the `any_cast`.
-/

namespace VortexNet

open Picohttpparser
open Systems (Reach Always exec)

namespace L4

/-- The context holds a `RemoteClient` wherever it is dereferenced. -/
def ContextHeld (lb : LB_Server) (ip : Bytes) : Prop :=
  ∀ s, Reach (step lb ip) Always {} s → s.fault = false

variable {lb : LB_Server} {ip : Bytes} {s s' : Session} {r : RemoteClient} {e : Event}

structure Held (s : Session) : Prop where
  fault : s.fault = false
  context : s.client.state_ = .kConnecting ∨ s.client.context_.isSome = true

theorem Held.reading (h : Held s) (hr : s.client.reading = true) :
    ∃ r, s.client.context_ = some r := by
  rcases h.context with hst | hsome
  · simp [Client.reading, hst] at hr
  · exact Option.isSome_iff_exists.mp hsome

theorem held_setRemote (hf : s.fault = false) : Held (s.setRemote r) := ⟨hf, .inr rfl⟩

theorem held_remoteStep (hf : s.fault = false) (hs : remoteStep s r e = some s') : Held s' := by
  cases e with
  | established | read | close | destroyed => simp [remoteStep] at hs
  | connected | connectFailed | stopInLoop =>
    simp only [remoteStep] at hs
    split at hs
    · cases hs
      exact held_setRemote hf
    · cases hs
  | timer =>
    simp only [remoteStep] at hs
    split at hs <;> cases hs <;> exact held_setRemote hf
  | backendRead =>
    simp only [remoteStep] at hs
    split at hs
    · obtain ⟨conn, -, rfl⟩ := Option.map_eq_some_iff.mp hs
      exact held_setRemote hf
    · cases hs
  | backendClose =>
    simp only [remoteStep] at hs
    split at hs
    · cases hs
      exact held_setRemote hf
    · cases hs

theorem Held.step (ha : lb.Available ip) (h : Held s) (hs : step lb ip s e = some s') : Held s' := by
  have hf := h.fault
  unfold L4.step at hs
  split at hs
  · cases hs
  · cases e with
    | established outcome =>
      simp only at hs
      split at hs <;> cases hs
      refine ⟨hf, .inr ?_⟩
      simp [LB_Server.onConnection, ha]
    | read data =>
      simp only at hs
      split at hs <;> cases hs
      rename_i hr
      obtain ⟨r, hcontext⟩ := h.reading hr.1
      simp only [Session.onMessage, hcontext]
      exact ⟨hf, .inr rfl⟩
    | close =>
      simp only at hs
      split at hs <;> cases hs
      rename_i hr
      obtain ⟨r, hcontext⟩ := h.reading hr
      simp only [Session.onDisconnection, hcontext]
      exact held_setRemote hf
    | destroyed =>
      simp only at hs
      split at hs <;> cases hs
      exact ⟨hf, h.context⟩
    | _ =>
      obtain ⟨r, -, hstep⟩ := Option.bind_eq_some_iff.mp hs
      exact held_remoteStep hf hstep

theorem faults_unavailable (ha : ¬ lb.Available ip) :
    ∃ s, Reach (step lb ip) Always {} s ∧ s.fault = true := by
  let s₁ : Session := { client := { state_ := .kDisconnecting } }
  let s₂ : Session := { client := { state_ := .kDisconnected }, fault := true }
  have h₁ : step lb ip {} (.established .connecting) = some s₁ := by
    simp [step, LB_Server.onConnection, ha, Client.shutdown, s₁]
  have h₂ : step lb ip s₁ .close = some s₂ := by
    simp [step, Client.reading, Session.onDisconnection, s₁, s₂]
  exact ⟨s₂, (Reach.single h₁).trans (.single h₂), rfl⟩

theorem contextHeld_iff : ContextHeld lb ip ↔ lb.Available ip := by
  constructor
  · intro h
    by_contra ha
    obtain ⟨s, hreach, hfault⟩ := faults_unavailable ha
    exact Bool.noConfusion (hfault.symm.trans (h s hreach))
  · intro ha s hreach
    have hheld := hreach.invariant (I := Held) ⟨rfl, .inl rfl⟩ fun _ _ _ h _ hs => h.step ha hs
    exact hheld.fault

/-- Backends with an address of their own are found whenever there is one. -/
theorem available_group {hash : Bytes → Nat} {group : List Bytes} (hne : group ≠ [])
    (hall : ∀ addr ∈ group, Selector.toIp addr ≠ ascii "0.0.0.0") :
    (LB_Server.new hash group).Available ip :=
  hall _ (Selector.getNextServer_ofGroup hne)

theorem not_contextHeld_empty : ¬ ContextHeld (.new List.length []) (ascii "10.0.0.9") := by
  intro h
  have hun : ¬ (LB_Server.new List.length []).Available (ascii "10.0.0.9") := by decide +kernel
  obtain ⟨s, hreach, hfault⟩ := faults_unavailable hun
  exact Bool.noConfusion (hfault.symm.trans (h s hreach))

end L4

end VortexNet
