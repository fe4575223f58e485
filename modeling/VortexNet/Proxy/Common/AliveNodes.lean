import VortexNet.Proxy.Common.HashRing
import VortexNet.Proxy.Common.RoundRobin

/-!
# Dead backends on the ring

The status of a `ServerNode` follows the results of its probes, and the ring
knows addresses only. So a key goes to a backend that is alive exactly when the
virtual node that it meets first belongs to one.
-/

namespace VortexNet

open Picohttpparser

/-- A `ServerNode` with what `updateStatus` works on. -/
structure ProbedNode extends ServerNode where
  success_standard_ : Int := 3
  fail_standard_ : Int := 2
  success_count_ : Int := 0
  fail_count_ : Int := 0
  deriving DecidableEq

namespace ProbedNode

/-- `operator++` of an `std::atomic<int>`, which wraps. -/
def increment (count : Int) : Int := Int.bmod (count + 1) (2 ^ 32)

def updateStatus (node : ProbedNode) (success : Bool) : ProbedNode :=
  if success then
    let success_count_ := increment node.success_count_
    if success_count_ ≥ node.success_standard_ then
      { node with fail_count_ := 0, is_alive_ := true, success_count_ := node.success_standard_ }
    else { node with fail_count_ := 0, success_count_ }
  else
    let fail_count_ := increment node.fail_count_
    if fail_count_ ≥ node.fail_standard_ then
      { node with success_count_ := 0, is_alive_ := false, fail_count_ := node.fail_standard_ }
    else { node with success_count_ := 0, fail_count_ }

theorem updateStatus_addr (node : ProbedNode) (success : Bool) :
    (node.updateStatus success).addr_ = node.addr_ := by
  rw [updateStatus]
  split
  · dsimp only
    split
    · rfl
    · rfl
  · dsimp only
    split
    · rfl
    · rfl

end ProbedNode

namespace Selector

open Circles (Next rank)

def probe (nodes : List ProbedNode) (result : Nat × Bool) : List ProbedNode :=
  nodes.modify result.1 (·.updateStatus result.2)

def probed (nodes : List ProbedNode) (results : List (Nat × Bool)) : List ProbedNode :=
  results.foldl probe nodes

def addrs (nodes : List ProbedNode) : List Bytes := nodes.map (·.addr_)

/-- After the probes the key goes to a backend that is alive, if there is one. -/
def GoesToAlive (hash : Bytes → Nat) (nodes : List ProbedNode) (results : List (Nat × Bool))
    (key : Bytes) : Prop :=
  (∃ node ∈ probed nodes results, node.is_alive_ = true) →
    ∃ node ∈ probed nodes results, node.is_alive_ = true ∧
      (ofGroup hash (addrs nodes)).getNextServer hash key = node.addr_

def Marks (hash : Bytes → Nat) (addr : Bytes) (partition : Nat) : Prop :=
  ∃ i < kVirtualNodes, partition = hash (vnode_name addr i)

/-- Of the addresses with a virtual node there, the one that was added last. -/
def Owns (hash : Bytes → Nat) (group : List Bytes) (partition : Nat) (addr : Bytes) : Prop :=
  ∃ before after, group = before ++ addr :: after ∧ Marks hash addr partition ∧
    ∀ other ∈ after, ¬ Marks hash other partition

/-- If a backend is alive, then one that is has a virtual node which no virtual node of the group
comes before, going up from the key's hash and round. -/
def MeetsAlive (hash : Bytes → Nat) (nodes : List ProbedNode) (results : List (Nat × Bool))
    (key : Bytes) : Prop :=
  (∃ node ∈ probed nodes results, node.is_alive_ = true) →
    ∃ node ∈ probed nodes results, node.is_alive_ = true ∧
      ∃ partition, Owns hash (addrs nodes) partition node.addr_ ∧
        ∀ other ∈ addrs nodes, ∀ partition', Marks hash other partition' →
          rank (hash key) partition ≤ rank (hash key) partition'

variable {hash : Bytes → Nat} {group : List Bytes} {nodes : List ProbedNode} {addr key : Bytes}
  {partition : Nat} {e : Nat × Bytes}

-- ---------------------------------------------------------------------------
-- The ring
-- ---------------------------------------------------------------------------

theorem ofGroup_append_singleton : ofGroup hash (group ++ [addr]) =
    addNode hash (ofGroup hash group) addr := by
  rw [ofGroup, ofGroup, List.foldl_append, List.foldl_cons, List.foldl_nil]

theorem sorted_ofGroup (hash : Bytes → Nat) (group : List Bytes) :
    Sorted (ofGroup hash group).ring_ := by
  induction group using List.reverseRecOn with
  | nil => exact .nil
  | append_singleton group addr ih =>
    rw [ofGroup_append_singleton, addNode_ring]
    exact (addVirtualNodes_spec hash addr ih _).1

theorem owns_append_singleton : Owns hash (group ++ [addr]) partition b ↔
    b = addr ∧ Marks hash addr partition ∨
      Owns hash group partition b ∧ ¬ Marks hash addr partition := by
  constructor
  · rintro ⟨before, after, hgroup, hmarks, hafter⟩
    rcases List.eq_nil_or_concat after with rfl | ⟨after, last, rfl⟩
    · obtain ⟨-, hlast⟩ := List.append_inj' hgroup rfl
      cases hlast
      exact .inl ⟨rfl, hmarks⟩
    · rw [List.concat_eq_append, ← List.cons_append, ← List.append_assoc] at hgroup
      obtain ⟨hbefore, hlast⟩ := List.append_inj' hgroup rfl
      cases hlast
      exact .inr ⟨⟨before, after, hbefore, hmarks, fun other hother =>
        hafter other (by simp [hother])⟩, hafter addr (by simp)⟩
  · rintro (⟨rfl, hmarks⟩ | ⟨⟨before, after, rfl, hmarks, hafter⟩, hlast⟩)
    · exact ⟨group, [], rfl, hmarks, fun _ h => absurd h List.not_mem_nil⟩
    · refine ⟨before, after ++ [addr], by simp, hmarks, fun other hother => ?_⟩
      rcases List.mem_append.mp hother with hother | hother
      · exact hafter other hother
      · rw [List.mem_singleton.mp hother]
        exact hlast

theorem mem_ofGroup : e ∈ (ofGroup hash group).ring_ ↔ Owns hash group e.1 e.2 := by
  induction group using List.reverseRecOn with
  | nil =>
    refine iff_of_false List.not_mem_nil ?_
    rintro ⟨before, after, hnil, -⟩
    exact absurd hnil.symm (by simp)
  | append_singleton group addr ih =>
    rw [ofGroup_append_singleton, addNode_ring,
      (addVirtualNodes_spec hash addr (sorted_ofGroup hash group) _).2 e, owns_append_singleton, ← ih]
    simp only [Marks, List.mem_range, not_exists, not_and, ne_eq]

theorem exists_owns (haddr : addr ∈ group) (hmarks : Marks hash addr partition) :
    ∃ b, Owns hash group partition b := by
  induction group using List.reverseRecOn with
  | nil => exact absurd haddr List.not_mem_nil
  | append_singleton group last ih =>
    by_cases hlast : Marks hash last partition
    · exact ⟨last, owns_append_singleton.mpr (.inl ⟨rfl, hlast⟩)⟩
    · have hmem : addr ∈ group := by
        rcases List.mem_append.mp haddr with hmem | hmem
        · exact hmem
        · exact absurd (List.mem_singleton.mp hmem ▸ hmarks) hlast
      obtain ⟨b, hb⟩ := ih hmem
      exact ⟨b, owns_append_singleton.mpr (.inr ⟨hb, hlast⟩)⟩

theorem Owns.mem (h : Owns hash group partition addr) : addr ∈ group := by
  obtain ⟨before, after, rfl, -⟩ := h
  simp

theorem Owns.marks (h : Owns hash group partition addr) : Marks hash addr partition := by
  obtain ⟨before, after, -, hmarks, -⟩ := h
  exact hmarks

theorem getNextServer_first (hfirst : ∀ other ∈ group, ∀ partition', Marks hash other partition' →
      rank (hash key) partition ≤ rank (hash key) partition') :
    Owns hash group partition addr → (ofGroup hash group).getNextServer hash key = addr := by
  intro howns
  have hmem : (partition, addr) ∈ (ofGroup hash group).ring_ := mem_ofGroup.mpr howns
  have hs := sorted_ofGroup hash group
  obtain ⟨e, he, hanswer⟩ := getNextServer_next hash key hs (List.ne_nil_of_mem hmem)
  have hnext : Next (· ∈ (ofGroup hash group).ring_) (hash key) (partition, addr) :=
    ⟨hmem, fun f hf => hfirst f.2 (mem_ofGroup.mp hf).mem f.1 (mem_ofGroup.mp hf).marks⟩
  rw [hanswer, he.unique hnext (Sorted.singleValued hs)]

-- ---------------------------------------------------------------------------
-- Where keys go
-- ---------------------------------------------------------------------------

theorem mem_addrs {node : ProbedNode} (h : node ∈ nodes) : node.addr_ ∈ addrs nodes :=
  List.mem_map.mpr ⟨node, h, rfl⟩

theorem addrs_probed (nodes : List ProbedNode) (results : List (Nat × Bool)) :
    addrs (probed nodes results) = addrs nodes := by
  induction results generalizing nodes with
  | nil => rfl
  | cons result results ih =>
    have hprobe : addrs (probe nodes result) = addrs nodes := by
      refine List.ext_getElem? fun i => ?_
      simp only [addrs, probe, List.getElem?_map, List.getElem?_modify]
      cases nodes[i]? with
      | none => rfl
      | some node =>
        split
        · exact congrArg some (node.updateStatus_addr result.2)
        · rfl
    exact (ih (probe nodes result)).trans hprobe

/-- For any group, any results of its probes and any key. -/
theorem key_goes_to_alive (hash : Bytes → Nat) (nodes : List ProbedNode)
    (results : List (Nat × Bool)) (key : Bytes) :
    GoesToAlive hash nodes results key ↔ MeetsAlive hash nodes results key := by
  refine imp_congr_right fun ⟨witness, hwitness, _⟩ => ?_
  have haddr : ∀ node ∈ probed nodes results, node.addr_ ∈ addrs nodes := fun node hnode =>
    addrs_probed nodes results ▸ mem_addrs hnode
  constructor
  · rintro ⟨node, hnode, halive, hanswer⟩
    have hne : (ofGroup hash (addrs nodes)).ring_ ≠ [] :=
      ofGroup_ne_nil (List.ne_nil_of_mem (haddr witness hwitness))
    obtain ⟨e, he, heq⟩ := getNextServer_next hash key (sorted_ofGroup hash (addrs nodes)) hne
    have howns : Owns hash (addrs nodes) e.1 node.addr_ := by
      rw [← hanswer, heq]
      exact mem_ofGroup.mp he.mem
    refine ⟨node, hnode, halive, e.1, howns, fun other hother partition' hmarks => ?_⟩
    obtain ⟨b, hb⟩ := exists_owns hother hmarks
    exact he.first (partition', b) (mem_ofGroup.mpr hb)
  · rintro ⟨node, hnode, halive, partition, howns, hfirst⟩
    exact ⟨node, hnode, halive, getNextServer_first hfirst howns⟩

/-- Two backends, the first of them dead after two failed probes, and a key that meets it first. -/
theorem not_key_goes_to_alive : ¬ GoesToAlive positional
    [{ addr_ := ascii "127.0.0.1:8001", weight_ := 1 }, { addr_ := ascii "127.0.0.1:8002", weight_ := 1 }]
    [(0, false), (0, false)] (vnode_name (ascii "127.0.0.1:8001") 0) := by
  intro h
  obtain ⟨node, hnode, halive, hanswer⟩ := h (by decide)
  have hfirst : (ofGroup positional [ascii "127.0.0.1:8001", ascii "127.0.0.1:8002"]).getNextServer
      positional (vnode_name (ascii "127.0.0.1:8001") 0) = ascii "127.0.0.1:8001" := by
    have howns : Owns positional [ascii "127.0.0.1:8001", ascii "127.0.0.1:8002"]
        (positional (vnode_name (ascii "127.0.0.1:8001") 0)) (ascii "127.0.0.1:8001") := by
      refine ⟨[], [ascii "127.0.0.1:8002"], rfl, ⟨0, by decide, rfl⟩, fun other hother hmarks => ?_⟩
      -- no virtual node of the other backend has the hash of the key
      obtain ⟨i, hi, heq⟩ := hmarks
      have hsame := vnode_name_inj (by decide) hi (positional_injective heq)
      rw [List.mem_singleton.mp hother] at hsame
      exact absurd hsame (by decide)
    exact getNextServer_first (fun other _ partition' _ => Circles.rank_le_of_le le_rfl id) howns
  have hdead : ∀ node ∈ probed
      [{ addr_ := ascii "127.0.0.1:8001", weight_ := 1 },
        { addr_ := ascii "127.0.0.1:8002", weight_ := 1 }]
      [(0, false), (0, false)], node.is_alive_ = true → node.addr_ ≠ ascii "127.0.0.1:8001" := by
    decide
  exact hdead node hnode halive (hanswer.symm.trans hfirst)

end Selector

end VortexNet
