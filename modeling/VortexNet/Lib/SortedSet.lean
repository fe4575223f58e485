import Mathlib.Data.List.TakeWhile

/-!
# A set as an increasing list

A list in strictly increasing order stands for the set of its members. A value
is looked for, and put in, at the first entry that is not below it.
-/

namespace SortedSets

variable {α : Type u} [LE α] [LT α] [Std.IsLinearOrder α] [Std.LawfulOrderLT α] [DecidableLT α]
  {l : List α} {x y : α}

abbrev Increasing (l : List α) : Prop := l.Pairwise (· < ·)

def below (l : List α) (x : α) : List α := l.takeWhile (· < x)

def lower_bound (l : List α) (x : α) : List α := l.dropWhile (· < x)

omit [LE α] [Std.IsLinearOrder α] [Std.LawfulOrderLT α] in
theorem below_append_lower_bound (l : List α) (x : α) : below l x ++ lower_bound l x = l :=
  List.takeWhile_append_dropWhile

omit [LE α] [Std.IsLinearOrder α] [Std.LawfulOrderLT α] in
theorem lt_of_mem_below (h : y ∈ below l x) : y < x := by
  simpa using List.mem_takeWhile_imp h

theorem le_of_mem_lower_bound (hl : Increasing l) (h : y ∈ lower_bound l x) : x ≤ y := by
  have hsub : Increasing (lower_bound l x) := hl.sublist (List.dropWhile_sublist _)
  cases hlow : lower_bound l x with
  | nil => simp [hlow] at h
  | cons z t =>
    have hz : x ≤ z := by
      have hnot := List.head?_dropWhile_not (fun y => decide (y < x)) l
      have hdrop : l.dropWhile (fun y => decide (y < x)) = z :: t := hlow
      rw [hdrop] at hnot
      exact Std.not_lt.mp (of_decide_eq_false hnot)
    rw [hlow] at h hsub
    rcases List.mem_cons.mp h with rfl | ht
    · exact hz
    · exact Std.le_of_lt (Std.lt_of_le_of_lt hz (List.rel_of_pairwise_cons hsub ht))

theorem mem_iff_head? (hl : Increasing l) : x ∈ l ↔ (lower_bound l x).head? = some x := by
  constructor
  · intro hx
    have hlow : x ∈ lower_bound l x := by
      rw [← below_append_lower_bound l x] at hx
      rcases List.mem_append.mp hx with hx | hx
      · exact absurd (lt_of_mem_below hx) Std.lt_irrefl
      · exact hx
    have hsub : Increasing (lower_bound l x) := hl.sublist (List.dropWhile_sublist _)
    cases h : lower_bound l x with
    | nil => simp [h] at hlow
    | cons z t =>
      have hz : x ≤ z := le_of_mem_lower_bound hl (h ▸ List.mem_cons_self)
      rw [h] at hlow hsub
      rcases List.mem_cons.mp hlow with rfl | ht
      · rfl
      · exact absurd (List.rel_of_pairwise_cons hsub ht) (Std.not_lt.mpr hz)
  · intro h
    exact (List.dropWhile_sublist _).subset (List.mem_of_mem_head? h)

/-- The search: the first entry not below `x` is not above it either. -/
theorem find?_not_below (hl : Increasing l) :
    (∃ y, l.find? (fun y => !decide (y < x)) = some y ∧ ¬ x < y) ↔ x ∈ l := by
  have hfind : l.find? (fun y => !decide (y < x)) = (lower_bound l x).head? := by
    simp [lower_bound, List.find?_eq_head?_dropWhile_not]
  rw [mem_iff_head? hl, hfind]
  constructor
  · rintro ⟨y, hy, hle⟩
    have hxy : x ≤ y := le_of_mem_lower_bound hl (List.mem_of_mem_head? hy)
    rw [hy, Std.le_antisymm hxy (Std.not_lt.mp hle)]
  · intro h
    exact ⟨x, h, Std.lt_irrefl⟩

-- ---------------------------------------------------------------------------
-- Insertion
-- ---------------------------------------------------------------------------

variable [DecidableEq α]

/-- A value that is not there yet goes before the first entry that is not below it. -/
def insert (l : List α) (x : α) : List α :=
  if (lower_bound l x).head? = some x then l else below l x ++ x :: lower_bound l x

theorem mem_insert (hl : Increasing l) : y ∈ insert l x ↔ y = x ∨ y ∈ l := by
  unfold insert
  split
  · rename_i h
    constructor
    · exact Or.inr
    · rintro (rfl | hy)
      · exact (mem_iff_head? hl).mpr h
      · exact hy
  · have hsplit : y ∈ l ↔ y ∈ below l x ∨ y ∈ lower_bound l x := by
      rw [← List.mem_append, below_append_lower_bound]
    rw [hsplit, List.mem_append, List.mem_cons]
    exact or_left_comm

theorem Increasing.insert (hl : Increasing l) (x : α) : Increasing (insert l x) := by
  unfold SortedSets.insert
  split
  · exact hl
  · rename_i hnew
    have hlow : Increasing (lower_bound l x) := hl.sublist (List.dropWhile_sublist _)
    have habove : ∀ y ∈ lower_bound l x, x < y := by
      intro y hy
      refine Std.lt_of_le_of_ne (le_of_mem_lower_bound hl hy) ?_
      rintro rfl
      exact hnew ((mem_iff_head? hl).mp ((List.dropWhile_sublist _).subset hy))
    refine List.pairwise_append.mpr ⟨hl.sublist (List.takeWhile_sublist _),
      List.pairwise_cons.mpr ⟨habove, hlow⟩, ?_⟩
    intro y hy z hz
    have hyx := lt_of_mem_below hy
    rcases List.mem_cons.mp hz with rfl | hz
    · exact hyx
    · exact Std.lt_trans hyx (habove z hz)

-- ---------------------------------------------------------------------------
-- A list of values
-- ---------------------------------------------------------------------------

def unique : List α → List α
  | [] => []
  | [x] => [x]
  | x :: y :: l => if x = y then unique (y :: l) else x :: unique (y :: l)

omit [LE α] [LT α] [Std.IsLinearOrder α] [Std.LawfulOrderLT α] [DecidableLT α] in
theorem mem_unique : y ∈ unique l ↔ y ∈ l := by
  induction l using unique.induct with
  | case1 => rfl
  | case2 x => rfl
  | case3 z l ih =>
    rw [unique, if_pos rfl, ih]
    simp
  | case4 x z l hne ih =>
    rw [unique, if_neg hne, List.mem_cons, ih, List.mem_cons (l := z :: l)]

omit [DecidableLT α] in
theorem increasing_unique (h : l.Pairwise (· ≤ ·)) : Increasing (unique l) := by
  induction l using unique.induct with
  | case1 => exact .nil
  | case2 x => exact List.pairwise_singleton _ x
  | case3 z l ih =>
    rw [unique, if_pos rfl]
    exact ih h.of_cons
  | case4 x z l hne ih =>
    rw [unique, if_neg hne]
    refine List.pairwise_cons.mpr ⟨fun y hy => ?_, ih h.of_cons⟩
    have hxz : x < z := Std.lt_of_le_of_ne (List.rel_of_pairwise_cons h List.mem_cons_self) hne
    rcases List.mem_cons.mp (mem_unique.mp hy) with rfl | hy
    · exact hxz
    · exact Std.lt_of_lt_of_le hxz (List.rel_of_pairwise_cons h.of_cons hy)

def ofList (l : List α) : List α := unique (l.mergeSort fun x y => !decide (y < x))

theorem increasing_ofList (l : List α) : Increasing (ofList l) := by
  refine increasing_unique ?_
  have hsorted := @List.pairwise_mergeSort α (fun x y => !decide (y < x))
    (fun a b c hab hbc => by
      simp only [Bool.not_eq_true', decide_eq_false_iff_not, Std.not_lt] at hab hbc ⊢
      exact Std.le_trans hab hbc)
    (fun a b => by
      simp only [Bool.or_eq_true, Bool.not_eq_true', decide_eq_false_iff_not, Std.not_lt]
      exact Std.le_total) l
  refine hsorted.imp fun h => ?_
  simpa [Std.not_lt] using h

omit [LE α] [Std.IsLinearOrder α] [Std.LawfulOrderLT α] in
theorem mem_ofList : y ∈ ofList l ↔ y ∈ l := by
  rw [ofList, mem_unique, List.mem_mergeSort]

end SortedSets
