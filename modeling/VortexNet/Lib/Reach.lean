/-!
# Reachable states of a step function

A system is a partial step function on states and events; an event that is
not enabled has no successor. `Reach step C s t` says that `t` is reached from
`s` by steps that each meet `C` in the state they are taken from, so a
statement about every run and one about the runs of restricted steps are the
same statement at two conditions.
-/

namespace Systems

/-- States reached from `s` by steps that each meet `C`. -/
inductive Reach (step : σ → ε → Option σ) (C : σ → ε → Prop) (s : σ) : σ → Prop
  | refl : Reach step C s s
  | tail : Reach step C s t → C t e → step t e = some u → Reach step C s u

/-- The condition every step meets. -/
def Always (_ : σ) (_ : ε) : Prop := True

variable {step : σ → ε → Option σ} {C D : σ → ε → Prop}

theorem Reach.mono (hcd : ∀ t e, C t e → D t e) (h : Reach step C s t) : Reach step D s t := by
  induction h with
  | refl => exact .refl
  | tail _ hc hs ih => exact .tail ih (hcd _ _ hc) hs

theorem Reach.trans (h₁ : Reach step C s t) (h₂ : Reach step C t u) : Reach step C s u := by
  induction h₂ with
  | refl => exact h₁
  | tail _ hc hs ih => exact .tail ih hc hs

theorem Reach.single (h : step s e = some t) : Reach step Always s t :=
  .tail .refl trivial h

/-- What one step preserves under `C`, every state reached under `C` has. -/
theorem Reach.invariant {I : σ → Prop} (h : Reach step C s t) (hi : I s)
    (hstep : ∀ t e u, I t → C t e → step t e = some u → I u) : I t := by
  induction h with
  | refl => exact hi
  | tail _ hc hs ih => exact hstep _ _ _ ih hc hs

instance (t : σ) (e : ε) : Decidable (Always t e) := .isTrue trivial

/-- The state after a list of events, when each is enabled and meets `C` in its turn. -/
def exec (step : σ → ε → Option σ) (C : σ → ε → Prop) [∀ t e, Decidable (C t e)] :
    σ → List ε → Option σ
  | s, [] => some s
  | s, e :: l => if C s e then (step s e).bind fun t => exec step C t l else none

theorem exec_append [∀ t e, Decidable (C t e)] (l l' : List ε) :
    exec step C s (l ++ l') = (exec step C s l).bind fun t => exec step C t l' := by
  induction l generalizing s with
  | nil => rfl
  | cons e l ih =>
    simp only [List.cons_append, exec]
    split
    · cases step s e with
      | none => rfl
      | some u => exact ih
    · rfl

theorem Reach.of_exec [∀ t e, Decidable (C t e)] (h : exec step C s l = some t) :
    Reach step C s t := by
  induction l generalizing s with
  | nil => cases h; exact .refl
  | cons e l ih =>
    simp only [exec] at h
    split at h
    · rename_i hc
      obtain ⟨u, hu, ht⟩ := Option.bind_eq_some_iff.mp h
      exact Reach.trans (.tail .refl hc hu) (ih ht)
    · cases h

end Systems
