import VortexNet.Lib.Reach
import VortexNet.Proxy.Common.HashRing

/-!
# The list of nodes and the ring

A `Selector` with both of its structures. `serverGroup_` holds shared pointers,
and a node that is added twice is in it twice; `ring_` knows addresses only.
`removeNode` takes every copy of the pointer out of the list, and takes the
address off the ring even where another node of the list has it.
-/

namespace VortexNet

open Picohttpparser
open Systems (Reach Always exec)

/-- `ν` are the addresses of the `ServerNode` objects. -/
structure NodeSelector (ν : Type) extends Selector where
  serverGroup_ : List ν := []
  deriving DecidableEq

namespace NodeSelector

open Selector (NoCollision Describes)

variable {ν : Type} [DecidableEq ν]

def addNode (hash : Bytes → Nat) (getAddr : ν → Bytes) (s : NodeSelector ν) (node : ν) :
    NodeSelector ν where
  toSelector := Selector.addNode hash s.toSelector (getAddr node)
  serverGroup_ := s.serverGroup_ ++ [node]

def removeNode (hash : Bytes → Nat) (getAddr : ν → Bytes) (s : NodeSelector ν) (node : ν) :
    NodeSelector ν where
  toSelector := Selector.removeNode hash s.toSelector (getAddr node)
  serverGroup_ := s.serverGroup_.filter (· ≠ node)

inductive Event (ν : Type)
  | addNode (node : ν)
  | removeNode (node : ν)
  deriving DecidableEq

def step (hash : Bytes → Nat) (getAddr : ν → Bytes) (s : NodeSelector ν) :
    Event ν → Option (NodeSelector ν)
  | .addNode node => some (s.addNode hash getAddr node)
  | .removeNode node => some (s.removeNode hash getAddr node)

def HasAddr (getAddr : ν → Bytes) (s : NodeSelector ν) (a : Bytes) : Prop :=
  ∃ node ∈ s.serverGroup_, getAddr node = a

/-- The ring holds the virtual nodes of the list's addresses, and nothing else. -/
def SameMembers (hash : Bytes → Nat) (getAddr : ν → Bytes) (s : NodeSelector ν) : Prop :=
  Describes hash (HasAddr getAddr s) s.ring_

/-- No other node of the list has the address of the one that is removed. -/
def RemovesAddress (getAddr : ν → Bytes) (s : NodeSelector ν) : Event ν → Prop
  | .addNode _ => True
  | .removeNode node => ∀ other ∈ s.serverGroup_, getAddr other = getAddr node → other = node

variable {hash : Bytes → Nat} {getAddr : ν → Bytes} {s s' : NodeSelector ν} {e : Event ν} {node : ν}

/-- The addresses that nodes can have. -/
abbrev Addresses (getAddr : ν → Bytes) (a : Bytes) : Prop := ∃ node, getAddr node = a

omit [DecidableEq ν] in
theorem HasAddr.addresses : HasAddr getAddr s a → Addresses getAddr a
  | ⟨node, _, h⟩ => ⟨node, h⟩

omit [DecidableEq ν] in
theorem SameMembers.addNode (h : SameMembers hash getAddr s)
    (hc : NoCollision hash (Addresses getAddr)) :
    SameMembers hash getAddr (s.addNode hash getAddr node) := by
  refine (Describes.addNode h hc (fun _ => HasAddr.addresses) ⟨node, rfl⟩).congr fun a => ?_
  simp [HasAddr, NodeSelector.addNode, or_and_right, exists_or, eq_comm]

/-- After a removal the two agree exactly when the list has lost the address too. -/
theorem SameMembers.removeNode_iff (h : SameMembers hash getAddr s)
    (hc : NoCollision hash (Addresses getAddr)) :
    SameMembers hash getAddr (s.removeNode hash getAddr node) ↔
      RemovesAddress getAddr s (.removeNode node) := by
  have hring := Describes.removeNode h hc (fun _ => HasAddr.addresses) ⟨node, rfl⟩
  have hmem : ∀ other, other ∈ (s.removeNode hash getAddr node).serverGroup_ ↔
      other ∈ s.serverGroup_ ∧ other ≠ node := by simp [NodeSelector.removeNode]
  constructor
  · intro hsame other hother haddr
    by_contra hne
    -- The address has a member, but no virtual node.
    have hpoint : (hash (Selector.vnode_name (getAddr node) 0), getAddr node) ∈
        (s.removeNode hash getAddr node).ring_ :=
      (hsame.mem _).mpr ⟨⟨other, (hmem other).mpr ⟨hother, hne⟩, haddr⟩, 0,
        by simp [Selector.kVirtualNodes], rfl⟩
    exact ((hring.mem _).mp hpoint).1.2 rfl
  · intro honly
    refine hring.congr fun a => ⟨?_, ?_⟩
    · rintro ⟨⟨other, hother, rfl⟩, hne⟩
      exact ⟨other, (hmem other).mpr ⟨hother, fun heq => hne (heq ▸ rfl)⟩, rfl⟩
    · rintro ⟨other, hother, rfl⟩
      obtain ⟨hother, hne⟩ := (hmem other).mp hother
      exact ⟨⟨other, hother, rfl⟩, fun haddr => hne (honly other hother haddr)⟩

theorem SameMembers.step_iff (h : SameMembers hash getAddr s)
    (hc : NoCollision hash (Addresses getAddr)) (hs : step hash getAddr s e = some s') :
    SameMembers hash getAddr s' ↔ RemovesAddress getAddr s e := by
  cases e with
  | addNode node =>
    rw [← Option.some.inj hs]
    exact iff_of_true (h.addNode hc) trivial
  | removeNode node =>
    rw [← Option.some.inj hs]
    exact h.removeNode_iff hc

-- ---------------------------------------------------------------------------
-- Runs
-- ---------------------------------------------------------------------------

omit [DecidableEq ν] in
theorem sameMembers_init : SameMembers hash getAddr ({} : NodeSelector ν) :=
  Selector.describes_nil.congr fun a => by simp [HasAddr]

theorem ring_describes_group (hc : NoCollision hash (Addresses getAddr))
    (h : Reach (step hash getAddr) (RemovesAddress getAddr) {} s) : SameMembers hash getAddr s :=
  h.invariant (I := SameMembers hash getAddr) sameMembers_init
    fun _ _ _ hsame honly hs => (hsame.step_iff hc hs).mpr honly

/-- Three nodes, the last two of them at one address. -/
def sharedAddr : Fin 3 → Bytes
  | 0 => ascii "127.0.0.1:8001"
  | 1 | 2 => ascii "127.0.0.1:8002"

theorem reach_addNode {C : NodeSelector ν → Event ν → Prop} (h : Reach (step hash getAddr) C {} s)
    (node : ν) (hc : C s (.addNode node)) : Reach (step hash getAddr) C {} (s.addNode hash getAddr node) :=
  h.tail hc (by rw [step])

theorem reach_removeNode {C : NodeSelector ν → Event ν → Prop}
    (h : Reach (step hash getAddr) C {} s) (node : ν) (hc : C s (.removeNode node)) :
    Reach (step hash getAddr) C {} (s.removeNode hash getAddr node) :=
  h.tail hc (by rw [step])

/-- A node added twice, and removed beside one at another address. -/
theorem ring_describes_group_twice :
    SameMembers Selector.positional sharedAddr
      ((((({} : NodeSelector (Fin 3)).addNode Selector.positional sharedAddr 0).addNode
        Selector.positional sharedAddr 0).addNode Selector.positional sharedAddr 1).removeNode
        Selector.positional sharedAddr 0) := by
  have hinit : Reach (step Selector.positional sharedAddr) (RemovesAddress sharedAddr) {} {} := .refl
  have htwice := reach_addNode (reach_addNode hinit 0 trivial) 0 trivial
  refine ring_describes_group Selector.positional_noCollision
    (reach_removeNode (reach_addNode htwice 1 trivial) 0 ?_)
  intro other hother haddr
  have hgroup : other = 0 ∨ other = 1 := by simpa [NodeSelector.addNode] using hother
  rcases hgroup with rfl | rfl
  · rfl
  · exact absurd haddr (by decide)

/-- Two nodes at one address: removing the first takes the second's keys off the ring. -/
theorem not_ring_describes_group : NoCollision Selector.positional (Addresses sharedAddr) ∧
    ¬ ∀ s, Reach (step Selector.positional sharedAddr) Always {} s →
      SameMembers Selector.positional sharedAddr s := by
  refine ⟨Selector.positional_noCollision, fun h => ?_⟩
  have hinit : Reach (step Selector.positional sharedAddr) Always {} {} := .refl
  have hadded := reach_addNode (reach_addNode hinit 1 trivial) 2 trivial
  have hafter := h _ (reach_removeNode hadded 1 trivial)
  have honly := ((h _ hadded).removeNode_iff Selector.positional_noCollision).mp hafter
  exact absurd (honly 2 (by simp [NodeSelector.addNode]) (by decide)) (by decide)

end NodeSelector

end VortexNet
