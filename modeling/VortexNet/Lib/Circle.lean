import Mathlib.Data.Prod.Lex

/-!
# The next point on a circle

The keys of a linear order are taken as points of a circle: going up from `h`,
the largest key is followed by the smallest. `Next P h e` says that `e` is the
first entry of `P` met from `h` on. Entries that come or go change what is next
only to or from themselves.
-/

namespace Circles

variable {κ : Type u} {ν : Type v} [LinearOrder κ] {P Q : κ × ν → Prop} {h k l : κ} {e f : κ × ν}

/-- The place of `k` on the way round from `h`: the keys below `h` come last. -/
def rank (h k : κ) : Bool ×ₗ κ := toLex (decide (k < h), k)

theorem rank_injective (h : κ) : Function.Injective (rank h) := fun _ _ hkl =>
  congrArg (fun p => (ofLex p).2) hkl

theorem rank_le_of_le (hk : h ≤ k) (hl : h ≤ l → k ≤ l) : rank h k ≤ rank h l := by
  rcases le_or_gt h l with hhl | hlh
  · simp [rank, Prod.Lex.toLex_le_toLex, hk.not_gt, hhl.not_gt, hl hhl]
  · simp [rank, Prod.Lex.toLex_le_toLex, hk.not_gt, hlh]

theorem rank_le_of_lt (hl : l < h) (hkl : k ≤ l) : rank h k ≤ rank h l := by
  simp [rank, Prod.Lex.toLex_le_toLex, hl, hkl, hkl.trans_lt hl]

def SingleValued (P : κ × ν → Prop) : Prop := ∀ e f, P e → P f → e.1 = f.1 → e = f

structure Next (P : κ × ν → Prop) (h : κ) (e : κ × ν) : Prop where
  mem : P e
  first : ∀ f, P f → rank h e.1 ≤ rank h f.1

theorem Next.unique (he : Next P h e) (hf : Next P h f) (hP : SingleValued P) : e = f :=
  hP e f he.mem hf.mem (rank_injective h ((he.first f hf.mem).antisymm (hf.first e he.mem)))

theorem Next.of_subset (hf : Next Q h f) (hPQ : ∀ e, P e → Q e) (hmem : P f) : Next P h f :=
  ⟨hmem, fun e he => hf.first e (hPQ e he)⟩

theorem Next.congr (he : Next P h e) (hPQ : ∀ e, P e ↔ Q e) : Next Q h e :=
  he.of_subset (fun e => (hPQ e).mpr) ((hPQ e).mp he.mem)

theorem Next.eq_or_added (he : Next P h e) (hf : Next Q h f) (hP : SingleValued P)
    (hPQ : ∀ e, P e → Q e) : f = e ∨ ¬ P f := by
  by_cases hmem : P f
  · exact .inl ((hf.of_subset hPQ hmem).unique he hP)
  · exact .inr hmem

end Circles
