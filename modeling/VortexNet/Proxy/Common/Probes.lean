import Mathlib.Order.Bounds.Basic
import VortexNet.Proxy.Common.AliveNodes

/-!
# The status of a node and its probes

`updateStatus` counts the successes and the failures at the end of what it has
been told, each up to its standard, and takes the status over when a standard
is met. So the status is what the last standard that was met says. The counters
are `int`: a standard of `INT_MAX` is counted past the end of the type.
-/

namespace VortexNet.ProbedNode

open Picohttpparser

def create (addr : Bytes) (weight s_std f_std : Int) : ProbedNode :=
  { addr_ := addr, weight_ := weight, success_standard_ := s_std, fail_standard_ := f_std }

def after (node : ProbedNode) (results : List Bool) : ProbedNode := results.foldl updateStatus node

def standard (node : ProbedNode) : Bool → Int
  | true => node.success_standard_
  | false => node.fail_standard_

def counter (node : ProbedNode) : Bool → Int
  | true => node.success_count_
  | false => node.fail_count_

/-- As many of the last results as the standard asks for were all `success`. -/
def Met (node : ProbedNode) (success : Bool) (results : List Bool) : Prop :=
  List.replicate (node.standard success).toNat success <:+ results

/-- The most recent point at which a standard was met is one of failures. -/
def FailedLast (node : ProbedNode) (results : List Bool) : Prop :=
  ∃ n, IsGreatest {n | n ≤ results.length ∧
      (Met node false (results.take n) ∨ Met node true (results.take n))} n ∧
    Met node false (results.take n)

/-- For every sequence of results, the status is that of the last standard met, and the counters
are within the standards. -/
def FollowsProbes (s_std f_std : Int) : Prop :=
  ∀ (addr : Bytes) (weight : Int) (results : List Bool),
    let node := (create addr weight s_std f_std).after results
    (node.is_alive_ = false ↔ FailedLast (create addr weight s_std f_std) results) ∧
    (0 ≤ node.success_count_ ∧ node.success_count_ ≤ s_std) ∧
    0 ≤ node.fail_count_ ∧ node.fail_count_ ≤ f_std

variable {node : ProbedNode} {results : List Bool} {success v : Bool} {std count s_std f_std : Int}

-- ---------------------------------------------------------------------------
-- One result
-- ---------------------------------------------------------------------------

def saturate (std count : Int) : Int := if increment count ≥ std then std else increment count

theorem standard_updateStatus (node : ProbedNode) (success v : Bool) :
    (node.updateStatus success).standard v = node.standard v := by
  rw [updateStatus]
  split
  · dsimp only
    split <;> cases v <;> rfl
  · dsimp only
    split <;> cases v <;> rfl

theorem counter_updateStatus (node : ProbedNode) (success v : Bool) :
    (node.updateStatus success).counter v =
      if v = success then saturate (node.standard v) (node.counter v) else 0 := by
  cases success with
  | true =>
    by_cases hmet : increment node.success_count_ ≥ node.success_standard_ <;>
      cases v <;> simp [updateStatus, saturate, standard, counter, hmet]
  | false =>
    by_cases hmet : increment node.fail_count_ ≥ node.fail_standard_ <;>
      cases v <;> simp [updateStatus, saturate, standard, counter, hmet]

theorem alive_updateStatus (node : ProbedNode) (success : Bool) :
    (node.updateStatus success).is_alive_ =
      if node.standard success ≤ increment (node.counter success) then success
      else node.is_alive_ := by
  cases success with
  | true =>
    by_cases hmet : increment node.success_count_ ≥ node.success_standard_ <;>
      simp [updateStatus, standard, counter, hmet]
  | false =>
    by_cases hmet : increment node.fail_count_ ≥ node.fail_standard_ <;>
      simp [updateStatus, standard, counter, hmet]

theorem increment_of_lt (h0 : 0 ≤ count) (h : count < 2 ^ 31 - 1) : increment count = count + 1 :=
  Int.bmod_eq_of_le (by omega) (by omega)

-- ---------------------------------------------------------------------------
-- Counters and trailing runs
-- ---------------------------------------------------------------------------

def Counts (std : Int) (v : Bool) (results : List Bool) (count : Int) : Prop :=
  0 ≤ count ∧ count ≤ std ∧
    ∀ j : Nat, (j : Int) ≤ std → (List.replicate j v <:+ results ↔ (j : Int) ≤ count)

theorem replicate_suffix_append {j : Nat} :
    List.replicate (j + 1) v <:+ results ++ [success] ↔
      v = success ∧ List.replicate j v <:+ results := by
  rw [List.suffix_concat_iff, List.replicate_succ']
  constructor
  · rintro (hnil | ⟨front, heq, hfront⟩)
    · exact absurd hnil (by simp)
    · obtain ⟨rfl, hv⟩ := List.append_inj' heq rfl
      exact ⟨List.singleton_inj.mp hv, hfront⟩
  · rintro ⟨rfl, h⟩
    exact .inr ⟨_, rfl, h⟩

theorem Counts.same (h : Counts std v results count) (hstd : std < 2 ^ 31 - 1) :
    Counts std v (results ++ [v]) (saturate std count) := by
  obtain ⟨h0, hle, hrun⟩ := h
  have hinc := increment_of_lt h0 (Int.lt_of_le_of_lt hle hstd)
  unfold saturate
  rw [hinc]
  refine ⟨by split <;> omega, by split <;> omega, fun j hj => ?_⟩
  cases j with
  | zero => simp only [List.replicate_zero, List.nil_suffix, true_iff]; split <;> omega
  | succ j =>
    rw [replicate_suffix_append, hrun j (by omega)]
    simp only [true_and]
    split <;> omega

theorem Counts.other (hv : v ≠ success) (hstd : 0 ≤ std) : Counts std v (results ++ [success]) 0 := by
  refine ⟨le_refl 0, hstd, fun j _ => ?_⟩
  cases j with
  | zero => simp
  | succ j =>
    rw [replicate_suffix_append]
    simp only [hv, false_and, false_iff]
    omega

-- ---------------------------------------------------------------------------
-- The last standard met
-- ---------------------------------------------------------------------------

theorem Met.last (h : Met node v (results ++ [success])) (hstd : 1 ≤ node.standard v) :
    v = success := by
  obtain ⟨k, hk⟩ := Nat.exists_eq_add_of_le' (show 1 ≤ (node.standard v).toNat by omega)
  rw [Met, hk, replicate_suffix_append] at h
  exact h.1

theorem failedLast_append_of_met (hstd : ∀ v, 1 ≤ node.standard v)
    (hmet : Met node success (results ++ [success])) :
    FailedLast node (results ++ [success]) ↔ success = false := by
  have hall : (results ++ [success]).take (results ++ [success]).length = results ++ [success] :=
    List.take_length
  have heither : Met node false (results ++ [success]) ∨ Met node true (results ++ [success]) := by
    cases success with
    | false => exact .inl hmet
    | true => exact .inr hmet
  constructor
  · rintro ⟨n, ⟨⟨hn, -⟩, hgreatest⟩, hfalse⟩
    have hlast : (results ++ [success]).length ≤ n := hgreatest ⟨le_refl _, hall.symm ▸ heither⟩
    rw [Nat.le_antisymm hn hlast, hall] at hfalse
    exact (hfalse.last (hstd false)).symm
  · rintro rfl
    refine ⟨(results ++ [false]).length, ⟨⟨le_refl _, hall.symm ▸ heither⟩, fun n hn => hn.1⟩, ?_⟩
    rw [hall]
    exact hmet

theorem failedLast_append_of_not_met (hstd : ∀ v, 1 ≤ node.standard v)
    (hmet : ¬ Met node success (results ++ [success])) :
    FailedLast node (results ++ [success]) ↔ FailedLast node results := by
  have hnone : ∀ v, ¬ Met node v (results ++ [success]) := fun v h => hmet (h.last (hstd v) ▸ h)
  have hpoint : ∀ n, n ≤ (results ++ [success]).length →
      (∃ v, Met node v ((results ++ [success]).take n)) → n ≤ results.length := by
    rintro n hn ⟨v, hv⟩
    rw [List.length_append, List.length_singleton] at hn
    by_contra hlt
    rw [List.take_of_length_le (by simp; omega)] at hv
    exact hnone v hv
  have htake : ∀ n, n ≤ results.length → (results ++ [success]).take n = results.take n :=
    fun n hn => List.take_append_of_le_length hn
  have hset : {n | n ≤ (results ++ [success]).length ∧
        (Met node false ((results ++ [success]).take n) ∨
          Met node true ((results ++ [success]).take n))} =
      {n | n ≤ results.length ∧ (Met node false (results.take n) ∨ Met node true (results.take n))} := by
    ext n
    constructor
    · rintro ⟨hn, hv⟩
      have hle := hpoint n hn (hv.elim (⟨_, ·⟩) (⟨_, ·⟩))
      exact ⟨hle, htake n hle ▸ hv⟩
    · rintro ⟨hn, hv⟩
      refine ⟨hn.trans (by simp), ?_⟩
      rw [htake n hn]
      exact hv
  unfold FailedLast
  rw [hset]
  refine exists_congr fun n => and_congr_right fun hn => ?_
  rw [htake n hn.1.1]

-- ---------------------------------------------------------------------------
-- Sequences of results
-- ---------------------------------------------------------------------------

structure Follows (node : ProbedNode) (results : List Bool) (now : ProbedNode) : Prop where
  standard : ∀ v, now.standard v = node.standard v
  counts : ∀ v, Counts (node.standard v) v results (now.counter v)
  alive : now.is_alive_ = false ↔ FailedLast node results

theorem met_iff (hstd : 1 ≤ node.standard success)
    (h : Counts (node.standard success) success results (saturate (node.standard success) count)) :
    Met node success results ↔ node.standard success ≤ increment count := by
  rw [Met, h.2.2 _ (by omega), saturate]
  split <;> omega

theorem Follows.step {now : ProbedNode} (hstd : ∀ v, 1 ≤ node.standard v ∧ node.standard v < 2 ^ 31 - 1)
    (h : Follows node results now) (success : Bool) :
    Follows node (results ++ [success]) (now.updateStatus success) := by
  have hcounts : ∀ v, Counts (node.standard v) v (results ++ [success])
      ((now.updateStatus success).counter v) := by
    intro v
    rw [counter_updateStatus, h.standard v]
    by_cases hv : v = success
    · subst hv
      rw [if_pos rfl]
      exact (h.counts v).same (hstd v).2
    · rw [if_neg hv]
      exact .other hv (by have := (hstd v).1; omega)
  refine ⟨fun v => (standard_updateStatus now success v).trans (h.standard v), hcounts, ?_⟩
  have hsaturated := hcounts success
  rw [counter_updateStatus, if_pos rfl, h.standard success] at hsaturated
  have hmet := met_iff (hstd success).1 hsaturated
  rw [alive_updateStatus, h.standard success]
  split
  · rename_i hle
    exact (failedLast_append_of_met (fun v => (hstd v).1) (hmet.mpr hle)).symm
  · rename_i hlt
    exact h.alive.trans (failedLast_append_of_not_met (fun v => (hstd v).1) (mt hmet.mp hlt)).symm

theorem create_follows (addr : Bytes) (weight : Int) (hs : 1 ≤ s_std) (hf : 1 ≤ f_std) :
    Follows (create addr weight s_std f_std) [] (create addr weight s_std f_std) := by
  have hstd : ∀ v, 1 ≤ (create addr weight s_std f_std).standard v := by
    rintro (_ | _)
    · exact hf
    · exact hs
  have hzero : ∀ v, (create addr weight s_std f_std).counter v = 0 := by
    rintro (_ | _) <;> rfl
  refine ⟨fun v => rfl, fun v => ?_, iff_of_false (by simp [create]) ?_⟩
  · rw [hzero v]
    refine ⟨le_refl 0, by have := hstd v; omega, fun j _ => ?_⟩
    rw [List.suffix_nil, List.replicate_eq_nil_iff]
    omega
  · rintro ⟨n, -, hmet⟩
    rw [List.take_nil, Met, List.suffix_nil, List.replicate_eq_nil_iff] at hmet
    have := hstd false
    omega

theorem after_follows (addr : Bytes) (weight : Int) (hs : 1 ≤ s_std) (hf : 1 ≤ f_std)
    (hs' : s_std < 2 ^ 31 - 1) (hf' : f_std < 2 ^ 31 - 1) (results : List Bool) :
    Follows (create addr weight s_std f_std) results
      ((create addr weight s_std f_std).after results) := by
  induction results using List.reverseRecOn with
  | nil => exact create_follows addr weight hs hf
  | append_singleton results success ih =>
    rw [after, List.foldl_append]
    refine ih.step ?_ success
    rintro (_ | _)
    · exact ⟨hf, hf'⟩
    · exact ⟨hs, hs'⟩

theorem counter_replicate (node : ProbedNode) (h0 : node.counter v = 0)
    (hmax : node.standard v < 2 ^ 31) (k : Nat) (hk : (k : Int) ≤ node.standard v) :
    (node.after (List.replicate k v)).counter v = k ∧
      (node.after (List.replicate k v)).standard v = node.standard v := by
  induction k with
  | zero => exact ⟨h0, rfl⟩
  | succ k ih =>
    obtain ⟨hcount, hstd⟩ := ih (by omega)
    have hinc : increment (k : Int) = k + 1 := increment_of_lt (by omega) (by omega)
    rw [List.replicate_succ', after, List.foldl_append]
    change (updateStatus _ v).counter v = _ ∧ (updateStatus _ v).standard v = _
    rw [counter_updateStatus, if_pos rfl, standard_updateStatus]
    change saturate ((node.after _).standard v) ((node.after _).counter v) = _ ∧
      (node.after _).standard v = _
    rw [hcount, hstd, saturate, hinc]
    refine ⟨?_, rfl⟩
    split <;> omega

/-- One result more than a standard of `INT_MAX` asks for wraps the counter. -/
theorem counter_wraps (node : ProbedNode) (h0 : node.counter v = 0)
    (hmax : node.standard v = 2 ^ 31 - 1) :
    ∃ results, (node.after results).counter v = -2 ^ 31 := by
  obtain ⟨k, hk⟩ := Int.eq_ofNat_of_zero_le (show (0 : Int) ≤ 2 ^ 31 - 1 by decide)
  obtain ⟨hcount, hstd⟩ := counter_replicate node h0 (by omega) k (by omega)
  refine ⟨List.replicate k v ++ [v], ?_⟩
  rw [after, List.foldl_append]
  change (updateStatus (node.after _) v).counter v = _
  rw [counter_updateStatus, if_pos rfl, hcount, hstd, hmax, ← hk]
  decide

/-- For standards of type `int` that are at least 1. -/
theorem followsProbes_iff (hs : 1 ≤ s_std) (hs' : s_std < 2 ^ 31) (hf : 1 ≤ f_std)
    (hf' : f_std < 2 ^ 31) :
    FollowsProbes s_std f_std ↔ s_std < 2 ^ 31 - 1 ∧ f_std < 2 ^ 31 - 1 := by
  constructor
  · intro h
    constructor
    · by_contra hmax
      obtain ⟨results, hwraps⟩ := counter_wraps (v := true) (create [] 1 s_std f_std) rfl
        (show s_std = 2 ^ 31 - 1 by omega)
      have hlow := (h [] 1 results).2.1.1
      rw [show ((create [] 1 s_std f_std).after results).success_count_ = -2 ^ 31 from hwraps] at hlow
      exact absurd hlow (by decide)
    · by_contra hmax
      obtain ⟨results, hwraps⟩ := counter_wraps (v := false) (create [] 1 s_std f_std) rfl
        (show f_std = 2 ^ 31 - 1 by omega)
      have hlow := (h [] 1 results).2.2.1
      rw [show ((create [] 1 s_std f_std).after results).fail_count_ = -2 ^ 31 from hwraps] at hlow
      exact absurd hlow (by decide)
  · rintro ⟨hsmax, hfmax⟩ addr weight results
    have hfollows := after_follows addr weight hs hf hsmax hfmax results
    exact ⟨hfollows.alive, ⟨(hfollows.counts true).1, (hfollows.counts true).2.1⟩,
      (hfollows.counts false).1, (hfollows.counts false).2.1⟩

/-- The standards that the constructor has by default. -/
theorem followsProbes_default : FollowsProbes 3 2 :=
  (followsProbes_iff (by decide) (by decide) (by decide) (by decide)).mpr (by decide)

/-- `INT_MAX` successes for a node to be alive: one more and the counter is negative. -/
theorem not_followsProbes_max : ¬ ∀ s_std f_std : Int, 1 ≤ s_std → s_std < 2 ^ 31 → 1 ≤ f_std →
    f_std < 2 ^ 31 → FollowsProbes s_std f_std := by
  intro h
  obtain ⟨results, hwraps⟩ := counter_wraps (v := true) (create [] 1 (2 ^ 31 - 1) 2) rfl rfl
  have hlow := (h (2 ^ 31 - 1) 2 (by decide) (by decide) (by decide) (by decide) [] 1 results).2.1.1
  rw [show ((create [] 1 (2 ^ 31 - 1) 2).after results).success_count_ = -2 ^ 31 from hwraps] at hlow
  exact absurd hlow (by decide)

end VortexNet.ProbedNode
