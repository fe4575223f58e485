import VortexNet.Lib.WeightedTurns
import VortexNet.Proxy.Common.Selector

/-!
# Smooth weighted round robin

`Selector::getNextServer()` over the nodes of `serverGroup_`. Weights and
current weights are of type `int`. What an expression of this type comes to is a
parameter: with `int` a sum outside the range has no value, and the selection no
result. There is no such sum while the number of nodes times the sum of their
weights is in range.
-/

namespace VortexNet

open Picohttpparser

/-- What `getNextServer()` reads of a `ServerNode`. -/
structure ServerNode where
  addr_ : Bytes
  weight_ : Int
  is_alive_ : Bool := true
  current_weight_ : Int := 0
  deriving DecidableEq

namespace RoundRobin

/-- The value of an expression of type `int`. -/
def int (x : Int) : Option Int := if -2 ^ 31 ≤ x ∧ x < 2 ^ 31 then some x else none

structure Scan where
  best : Option (Nat × Int) := none
  total : Int := 0
  deriving DecidableEq

section
variable (value : Int → Option Int)

def visit (i : Nat) (node : ServerNode) (scan : Scan) : Option (ServerNode × Scan) := do
  let current_weight_ ← value (node.current_weight_ + node.weight_)
  let total ← value (scan.total + node.weight_)
  let best := match scan.best with
    | none => some (i, current_weight_)
    | some best => some (if best.2 < current_weight_ then (i, current_weight_) else best)
  return ({ node with current_weight_ }, ⟨best, total⟩)

def scanFrom (panic_mode : Bool) : Nat → List ServerNode → Scan → Option (List ServerNode × Scan)
  | _, [], scan => some ([], scan)
  | i, node :: nodes, scan =>
    if !node.is_alive_ && !panic_mode then
      (scanFrom panic_mode (i + 1) nodes scan).map fun r => (node :: r.1, r.2)
    else do
      let (node, scan) ← visit value i node scan
      let (nodes, scan) ← scanFrom panic_mode (i + 1) nodes scan
      return (node :: nodes, scan)

def aliveCount (nodes : List ServerNode) : Option Int :=
  nodes.foldlM (fun alive_count node =>
    if node.is_alive_ then value (alive_count + 1) else some alive_count) 0

/-- `alive_count * 100` is an `int`; the quotient is of the unsigned type of `size()`. -/
def alivePercent (nodes : List ServerNode) : Option Nat := do
  let alive_count ← aliveCount value nodes
  let product ← value (alive_count * 100)
  return (product % 2 ^ 64).toNat / nodes.length

/-- The index of the server that is returned, `none` for `0.0.0.0`, and the nodes after it. -/
def getNextServer (nodes : List ServerNode) : Option (Option Nat × List ServerNode) :=
  if nodes = [] then some (none, nodes)
  else do
    let percent ← alivePercent value nodes
    let (nodes, scan) ← scanFrom value (percent < 20) 0 nodes {}
    match scan.best with
    | none => return (none, nodes)
    | some (best, _) =>
      match nodes[best]? with
      | none => none
      | some node => do
        let current_weight_ ← value (node.current_weight_ - scan.total)
        return (some best, nodes.set best { node with current_weight_ })

end

/-- `k` selections, with the servers that they return. -/
def select : Nat → List ServerNode → Option (List (Option Nat) × List ServerNode)
  | 0, nodes => some ([], nodes)
  | k + 1, nodes => do
    let (picks, nodes) ← select k nodes
    let (pick, nodes) ← getNextServer int nodes
    return (picks ++ [pick], nodes)

-- ---------------------------------------------------------------------------
-- One selection
-- ---------------------------------------------------------------------------

open Finset (range)
open WeightedTurns (Turn Turns)

variable {nodes nodes' : List ServerNode} {node node' : ServerNode} {scan scan' : Scan} {x y : Int}
  {i k : Nat} {panic_mode : Bool} {pick : Option Nat} {picks : List (Option Nat)}

theorem int_eq (h : int x = some y) : y = x := by
  unfold int at h
  split at h
  · exact (Option.some.inj h).symm
  · cases h

def weight (nodes : List ServerNode) (i : Nat) : Int := (nodes[i]?.map (·.weight_)).getD 0

def sumWeights (nodes : List ServerNode) : Int := (nodes.map (·.weight_)).sum

def raise (node : ServerNode) : ServerNode :=
  { node with current_weight_ := node.current_weight_ + node.weight_ }

theorem visit_eq (h : visit int i node scan = some (node', scan')) : node' = raise node ∧
    scan'.total = scan.total + node.weight_ ∧
    ∃ best, scan'.best = some best ∧ (raise node).current_weight_ ≤ best.2 ∧
      (∀ old, scan.best = some old → old.2 ≤ best.2) ∧
      (scan.best = some best ∨ best = (i, (raise node).current_weight_)) := by
  simp only [visit, Option.bind_eq_bind, Option.bind_eq_some_iff] at h
  obtain ⟨cw, hcw, total, htotal, heq⟩ := h
  cases int_eq hcw
  cases int_eq htotal
  obtain ⟨rfl, rfl⟩ := Prod.mk.inj (Option.some.inj heq)
  refine ⟨rfl, rfl, ?_⟩
  cases hbest : scan.best with
  | none => exact ⟨_, rfl, le_refl _, nofun, .inr rfl⟩
  | some old =>
    refine ⟨_, rfl, ?_⟩
    split
    · rename_i hlt
      refine ⟨le_refl _, ?_, .inr rfl⟩
      rintro _ ⟨⟩
      exact hlt.le
    · rename_i hle
      refine ⟨not_lt.mp hle, ?_, .inl rfl⟩
      rintro _ ⟨⟩
      exact le_refl _

def rest (node : ServerNode) : ServerNode := { node with current_weight_ := 0 }

def SameNodes (nodes nodes' : List ServerNode) : Prop := nodes'.map rest = nodes.map rest

theorem SameNodes.getElem? (h : SameNodes nodes nodes') (f : ServerNode → α)
    (hf : ∀ node, f (rest node) = f node) (i : Nat) : nodes'[i]?.map f = nodes[i]?.map f := by
  have hi : (nodes'.map rest)[i]? = (nodes.map rest)[i]? := by rw [h]
  rw [List.getElem?_map, List.getElem?_map] at hi
  have hmap := congrArg (Option.map f) hi
  rwa [Option.map_map, Option.map_map, show f ∘ rest = f from funext hf] at hmap

theorem SameNodes.length (h : SameNodes nodes nodes') : nodes'.length = nodes.length := by
  simpa using congrArg List.length h

theorem SameNodes.weight (h : SameNodes nodes nodes') : weight nodes' = weight nodes :=
  funext fun i => by rw [RoundRobin.weight, RoundRobin.weight, h.getElem? _ fun _ => rfl]

theorem SameNodes.forall_mem (h : SameNodes nodes nodes') (f : ServerNode → α)
    (hf : ∀ node, f (rest node) = f node) {P : α → Prop} (hP : ∀ node ∈ nodes, P (f node)) :
    ∀ node ∈ nodes', P (f node) := by
  intro node hnode
  have hmem : rest node ∈ nodes.map rest := h ▸ List.mem_map_of_mem hnode
  obtain ⟨node₀, hnode₀, heq⟩ := List.mem_map.mp hmem
  rw [← hf node, ← heq, hf]
  exact hP node₀ hnode₀

theorem SameNodes.alive (h : SameNodes nodes nodes') (halive : ∀ node ∈ nodes, node.is_alive_ = true) :
    ∀ node ∈ nodes', node.is_alive_ = true :=
  h.forall_mem (P := (· = true)) (·.is_alive_) (fun _ => rfl) halive

section Cycle

variable (halive : ∀ node ∈ nodes, node.is_alive_ = true) (hpos : ∀ node ∈ nodes, 0 < node.weight_)
  (hzero : ∀ node ∈ nodes, node.current_weight_ = 0)

theorem int_of (h : -2 ^ 31 ≤ x) (h' : x < 2 ^ 31) : int x = some x := if_pos ⟨h, h'⟩

theorem scanFrom_isSome (halive : ∀ node ∈ nodes, node.is_alive_ = true)
    (hpos : ∀ node ∈ nodes, 0 < node.weight_)
    (hraise : ∀ node ∈ nodes, -2 ^ 31 ≤ (raise node).current_weight_ ∧
      (raise node).current_weight_ < 2 ^ 31)
    (htotal : 0 ≤ scan.total) (hsum : scan.total + sumWeights nodes < 2 ^ 31) :
    (scanFrom int panic_mode i nodes scan).isSome := by
  induction nodes generalizing i scan with
  | nil => rfl
  | cons node nodes ih =>
    obtain ⟨hnode, halive⟩ := List.forall_mem_cons.mp halive
    obtain ⟨hweight, hpos⟩ := List.forall_mem_cons.mp hpos
    obtain ⟨⟨hlow, hhigh⟩, hraise⟩ := List.forall_mem_cons.mp hraise
    rw [sumWeights, List.map_cons, List.sum_cons, ← add_assoc] at hsum
    have hnonneg : 0 ≤ sumWeights nodes :=
      List.sum_nonneg fun x hx => by
        obtain ⟨node, hnode, rfl⟩ := List.mem_map.mp hx
        exact (hpos node hnode).le
    have hvisit : (visit int i node scan).isSome := by
      rw [visit, int_of (x := node.current_weight_ + node.weight_) hlow hhigh,
        int_of (by omega) (by rw [sumWeights] at hnonneg; omega)]
      rfl
    obtain ⟨⟨node', scan₁⟩, hv⟩ := Option.isSome_iff_exists.mp hvisit
    obtain ⟨-, htotal₁, -⟩ := visit_eq hv
    have hrest : (scanFrom int panic_mode (i + 1) nodes scan₁).isSome :=
      ih halive hpos hraise (by omega) (by rw [htotal₁]; exact hsum)
    obtain ⟨r, hr⟩ := Option.isSome_iff_exists.mp hrest
    simp [scanFrom, hnode, hv, hr]

theorem aliveCount_eq {value : Int → Option Int}
    (hvalue : ∀ x, -2 ^ 31 ≤ x → x < 2 ^ 31 → value x = some x)
    (hlen : nodes.length < 2 ^ 31) : aliveCount value nodes = some (nodes.countP (·.is_alive_) : Int) := by
  suffices ∀ count : Int, 0 ≤ count → count + nodes.length < 2 ^ 31 → nodes.foldlM (fun alive_count
      node => if node.is_alive_ then value (alive_count + 1) else some alive_count) count =
        some (count + nodes.countP (·.is_alive_)) by
    rw [aliveCount, this 0 (le_refl _) (by omega), zero_add]
  clear hlen
  induction nodes with
  | nil => simp
  | cons node nodes ih =>
    intro count hpos hlt
    rw [List.length_cons] at hlt
    by_cases hnode : node.is_alive_ = true
    · have hcons : (node :: nodes).countP (·.is_alive_) = nodes.countP (·.is_alive_) + 1 :=
        List.countP_cons_of_pos hnode
      rw [List.foldlM_cons, if_pos hnode, hvalue _ (by omega) (by omega), hcons]
      refine (ih (count + 1) (by omega) (by omega)).trans ?_
      rw [Nat.cast_add, Nat.cast_one, add_right_comm, add_assoc]
    · have hcons : (node :: nodes).countP (·.is_alive_) = nodes.countP (·.is_alive_) :=
        List.countP_cons_of_neg hnode
      rw [List.foldlM_cons, if_neg hnode, hcons]
      exact ih count hpos (by omega)

theorem alivePercent_isSome (hlen : nodes.length * 100 < 2 ^ 31) : (alivePercent int nodes).isSome := by
  have hcount : nodes.countP (·.is_alive_) ≤ nodes.length := List.countP_le_length
  have hproduct : int ((nodes.countP (·.is_alive_) : Int) * 100) =
      some ((nodes.countP (·.is_alive_) : Int) * 100) := int_of (by omega) (by omega)
  rw [alivePercent, aliveCount_eq (fun x => int_of) (by omega), Option.bind_eq_bind,
    Option.bind_some, hproduct]
  rfl

end Cycle

end RoundRobin

end VortexNet
