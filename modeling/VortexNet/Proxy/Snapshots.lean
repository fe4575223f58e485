import VortexNet.Lib.CopyOnWrite
import VortexNet.Proxy.Common.Membership
import VortexNet.Proxy.L7.ApiKeys

/-!
# Snapshots

The node list and the ring of a `Selector`, and the keys of an
`ApiKeyAuthenticator`, are copied on write under a mutex. `Selector` has both of
its structures under one.
-/

namespace VortexNet

open CopyOnWrite Picohttpparser
open Systems (Reach Always)

-- ---------------------------------------------------------------------------
-- Selectors
-- ---------------------------------------------------------------------------

namespace NodeSelector

inductive Part
  | serverGroup_
  | ring_
  deriving DecidableEq

abbrev Content (ν : Type) : Part → Type
  | .serverGroup_ => List ν
  | .ring_ => List (Nat × Bytes)

variable {ν : Type} [DecidableEq ν]

def parts (s : NodeSelector ν) : ∀ p, Content ν p
  | .serverGroup_ => s.serverGroup_
  | .ring_ => s.ring_

/-- `addNode` and `removeNode`, after the mutex is locked. -/
def program (hash : Bytes → Nat) (getAddr : ν → Bytes) : Event ν → List (Instr (Content ν))
  | .addNode node =>
    [.detach .serverGroup_, .write .serverGroup_ (· ++ [node])] ++
      .detach .ring_ :: (List.range Selector.kVirtualNodes).map fun i =>
        .write .ring_ (Selector.addVirtualNode hash (getAddr node) · i)
  | .removeNode node =>
    [.detach .serverGroup_, .write .serverGroup_ (·.filter (· ≠ node))] ++
      .detach .ring_ :: (List.range Selector.kVirtualNodes).map fun i =>
        .write .ring_ (Selector.eraseVirtualNode hash (getAddr node) · i)

/-- The calls one after the other. -/
def perform (hash : Bytes → Nat) (getAddr : ν → Bytes) (s : NodeSelector ν) :
    Event ν → NodeSelector ν
  | .addNode node => s.addNode hash getAddr node
  | .removeNode node => s.removeNode hash getAddr node

variable {hash : Bytes → Nat} {getAddr : ν → Bytes}

theorem guarded_program (op : Event ν) : Guarded (program hash getAddr op) := by
  have hgroup : ∀ f, Guarded (C := Content ν) [.detach .serverGroup_, .write .serverGroup_ f] :=
    fun f => guarded_nil.detach (by simp)
  cases op with
  | addNode node => exact (hgroup _).detach (by simp)
  | removeNode node => exact (hgroup _).detach (by simp)

omit [DecidableEq ν] in
theorem apply_parts (s : NodeSelector ν) (f : List ν → List ν)
    (g : List (Nat × Bytes) → Nat → List (Nat × Bytes)) (l : List Nat) :
    apply s.parts ([.detach .serverGroup_, .write .serverGroup_ f] ++
        .detach .ring_ :: l.map fun i => .write .ring_ (g · i)) =
      parts { serverGroup_ := f s.serverGroup_, ring_ := l.foldl g s.ring_ } := by
  rw [apply_append]
  show apply (Function.update s.parts .serverGroup_ (f s.serverGroup_))
    (l.map fun i => .write .ring_ (g · i)) = _
  rw [apply_writes]
  funext p
  cases p <;> rfl

theorem apply_program (s : NodeSelector ν) (op : Event ν) :
    apply s.parts (program hash getAddr op) = (s.perform hash getAddr op).parts := by
  cases op with
  | addNode node =>
    rw [program, perform, addNode, Selector.addNode]
    exact apply_parts s _ (Selector.addVirtualNode hash (getAddr node)) _
  | removeNode node =>
    rw [program, perform, removeNode, Selector.removeNode]
    exact apply_parts s _ (Selector.eraseVirtualNode hash (getAddr node)) _

theorem replay_program (s : NodeSelector ν) (ops : List (Event ν)) :
    replay (program hash getAddr) s.parts ops = (ops.foldl (perform hash getAddr) s).parts := by
  induction ops generalizing s with
  | nil => rfl
  | cons op ops ih =>
    show replay _ (apply s.parts (program hash getAddr op)) ops = _
    rw [apply_program, ih]
    rfl

end NodeSelector

-- ---------------------------------------------------------------------------
-- Keys
-- ---------------------------------------------------------------------------

namespace ApiKeyAuthenticator

abbrev Keys (_ : Unit) : Type := List Bytes

/-- `load` sorts its argument before it locks the mutex. -/
def program : Op → List (Instr Keys)
  | .load keys => [.replace () (SortedSets.ofList keys)]
  | .addKey key => [.detach (), .write () fun keys => SortedSets.insert keys key]
  | .removeKey key => [.detach (), .write () fun keys => keys.filter (· ≠ key)]

theorem guarded_program (op : Op) : Guarded (program op) := by
  have hkeys : ∀ f, Guarded (C := Keys) [.detach (), .write () f] :=
    fun f => guarded_nil.detach (by simp)
  cases op with
  | load keys => exact guarded_replace () _
  | addKey key => exact hkeys _
  | removeKey key => exact hkeys _

theorem replay_program (a : ApiKeyAuthenticator) (ops : List Op) :
    replay program (fun _ => a.keys_) ops = fun _ => (ops.foldl run a).keys_ := by
  induction ops generalizing a with
  | nil => rfl
  | cons op ops ih =>
    have happly : apply (fun _ => a.keys_) (program op) = fun _ => (a.run op).keys_ := by
      funext u
      cases op <;> rfl
    show replay program (apply (fun _ => a.keys_) (program op)) ops = _
    rw [happly, ih]
    rfl

end ApiKeyAuthenticator

/-- What a reader holds of a node list, a ring or a key vector stays as it is; no call of a writer
is lost, and what is copied is as all that have returned made it. -/
theorem snapshots_stay :
    (∀ (ν : Type) [DecidableEq ν] (hash : Bytes → Nat) (getAddr : ν → Bytes) s,
      Reach (step (NodeSelector.program hash getAddr)) Always
        (.init ({} : NodeSelector ν).parts) s →
      Linear (NodeSelector.program hash getAddr)
        (fun ops => (ops.foldl (NodeSelector.perform hash getAddr) {}).parts) s) ∧
    ∀ s, Reach (step ApiKeyAuthenticator.program) Always (.init fun _ => []) s →
      Linear ApiKeyAuthenticator.program
        (fun ops _ => (ops.foldl ApiKeyAuthenticator.run {}).keys_) s := by
  constructor
  · intro ν _ hash getAddr s h
    exact linear_of_reach NodeSelector.guarded_program (NodeSelector.replay_program {}) h
  · intro s h
    exact linear_of_reach ApiKeyAuthenticator.guarded_program
      (ApiKeyAuthenticator.replay_program {}) h

end VortexNet
