import VortexNet.Lib.Incremental

/-!
# What a parser reads

A parser of arriving input as a relation: the text it takes off the front of
the input, what the rest of the input has to begin with, and what it reads.
`Reads p T` says that `T` is that relation exactly, so from a chain of parsers
it gives both directions at once: what is read is of the form that `T` says,
and every text of that form is read.
-/

namespace Incremental

abbrev Reading (τ : Type u) (α : Type v) := Nat → List τ → List τ → α → Prop

def Reads (p : Parser τ α) (T : Reading τ α) : Prop :=
  ∀ pos l a c, p ⟨pos, l⟩ = .done a c ↔
    ∃ w, l = w ++ c.rest ∧ c.pos = pos + w.length ∧ T pos w c.rest a

/-- One reading after the other; the second goes by what the first has read. -/
def Reading.andThen (T : Reading τ α) (U : α → Reading τ β) : Reading τ β :=
  fun pos w rest b => ∃ w₁ w₂ a, w = w₁ ++ w₂ ∧ T pos w₁ (w₂ ++ rest) a ∧ U a (pos + w₁.length) w₂ rest b

variable {p : Parser τ α} {q : α → Parser τ β} {T T' : Reading τ α} {U : α → Reading τ β}
  {stop reject : τ → Bool}

theorem bind_assoc {r : β → Parser τ γ} : p >>= q >>= r = p >>= fun a => q a >>= r := by
  funext c
  simp only [Bind.bind]
  cases p c <;> rfl

theorem Reads.iff (h : Reads p T) (heq : ∀ pos w rest a, T pos w rest a ↔ T' pos w rest a) :
    Reads p T' := by
  intro pos l a c
  rw [h pos l a c]
  simp only [heq]

theorem Reads.pure (a : α) : Reads (pure a : Parser τ α) fun _ w _ b => w = [] ∧ b = a := by
  rintro pos l b ⟨pos', rest⟩
  constructor
  · rintro ⟨⟩
    exact ⟨[], rfl, rfl, rfl, rfl⟩
  · rintro ⟨w, hl, hpos, rfl, rfl⟩
    have hl : l = rest := hl
    have hpos : pos' = pos := hpos
    rw [hl, hpos]
    rfl

theorem Reads.fail : Reads (fail : Parser τ α) fun _ _ _ _ => False := by
  intro pos l a c
  constructor
  · rintro ⟨⟩
  · rintro ⟨_, _, _, ⟨⟩⟩

theorem Reads.bind (hp : Reads p T) (hq : ∀ a, Reads (q a) (U a)) :
    Reads (p >>= q) (T.andThen U) := by
  intro pos l b c
  rw [bind_done]
  constructor
  · rintro ⟨a, c', h₁, h₂⟩
    obtain ⟨w₁, hl, hpos, hT⟩ := (hp pos l a c').mp h₁
    obtain ⟨w₂, hl', hpos', hU⟩ := (hq a c'.pos c'.rest b c).mp h₂
    refine ⟨w₁ ++ w₂, ?_, ?_, w₁, w₂, a, rfl, hl' ▸ hT, hpos ▸ hU⟩
    · rw [hl, hl', List.append_assoc]
    · rw [hpos', hpos, List.length_append, Nat.add_assoc]
  · rintro ⟨_, hl, hpos, w₁, w₂, a, rfl, hT, hU⟩
    refine ⟨a, ⟨pos + w₁.length, w₂ ++ c.rest⟩, (hp ..).mpr ⟨w₁, ?_, rfl, hT⟩,
      (hq ..).mpr ⟨w₂, rfl, ?_, hU⟩⟩
    · rw [hl, List.append_assoc]
    · rw [hpos, List.length_append, Nat.add_assoc]

theorem Reads.ite {b : Prop} [Decidable b] {p q : Parser τ α} (hp : b → Reads p T)
    (hq : ¬ b → Reads q T') : Reads (if b then p else q) fun pos w rest a =>
      b ∧ T pos w rest a ∨ ¬ b ∧ T' pos w rest a := by
  by_cases hb : b
  · rw [if_pos hb]
    exact (hp hb).iff fun _ _ _ _ => by simp [hb]
  · rw [if_neg hb]
    exact (hq hb).iff fun _ _ _ _ => by simp [hb]

theorem Reads.failIf (b : Prop) [Decidable b] :
    Reads (failIf b : Parser τ Unit) fun _ w _ _ => ¬ b ∧ w = [] := by
  refine (Reads.ite (fun _ => Reads.fail) fun _ => Reads.pure ()).iff fun _ _ _ _ => ?_
  simp

theorem Reads.peek : Reads (peek : Parser τ τ) fun _ w rest x => w = [] ∧ rest.head? = some x := by
  rintro pos l x ⟨pos', rest⟩
  cases l with
  | nil =>
    simp only [Incremental.peek, reduceCtorEq, false_iff]
    rintro ⟨w, hl, -, -, hx⟩
    rw [(List.append_eq_nil_iff.mp hl.symm).2] at hx
    cases hx
  | cons y l =>
    simp only [Incremental.peek, Result.done.injEq, Cursor.mk.injEq]
    constructor
    · rintro ⟨rfl, rfl, rfl⟩
      exact ⟨[], rfl, rfl, rfl, rfl⟩
    · rintro ⟨_, hl, hpos, rfl, hx⟩
      have hl : y :: l = rest := hl
      subst hl
      exact ⟨Option.some.inj hx, hpos.symm, rfl⟩

theorem Reads.advance : Reads (advance : Parser τ Unit) fun _ w _ _ => w.length = 1 := by
  rintro pos l ⟨⟩ ⟨pos', rest⟩
  cases l with
  | nil =>
    simp only [Incremental.advance, reduceCtorEq, false_iff, not_exists, not_and]
    intro w hl _ hw
    simp [(List.append_eq_nil_iff.mp hl.symm).1] at hw
  | cons y l =>
    simp only [Incremental.advance, Result.done.injEq, Cursor.mk.injEq, true_and]
    constructor
    · rintro ⟨rfl, rfl⟩
      exact ⟨[y], rfl, rfl, rfl⟩
    · rintro ⟨w, hl, hpos, hw⟩
      obtain ⟨x, rfl⟩ := List.length_eq_one_iff.mp hw
      exact ⟨hpos.symm, (List.cons.inj hl).2⟩

theorem Reads.need (n : Nat) :
    Reads (need n : Parser τ Unit) fun _ w rest _ => w = [] ∧ n ≤ rest.length := by
  rintro pos l ⟨⟩ ⟨pos', rest⟩
  simp only [Incremental.need]
  split
  · rename_i hlt
    simp only [reduceCtorEq, false_iff, not_exists, not_and]
    rintro _ hl - rfl hle
    exact absurd hlt (Nat.not_lt_of_le (hl ▸ hle))
  · rename_i hle
    simp only [Result.done.injEq, Cursor.mk.injEq, true_and]
    constructor
    · rintro ⟨rfl, rfl⟩
      exact ⟨[], rfl, rfl, rfl, Nat.le_of_not_lt hle⟩
    · rintro ⟨_, hl, hpos, rfl, -⟩
      exact ⟨hpos.symm, hl⟩

theorem Reads.expect [DecidableEq τ] (x : τ) :
    Reads (expect x) fun _ w _ _ => w = [x] := by
  refine (Reads.peek.bind fun y => Reads.ite (fun _ => Reads.advance) fun _ => Reads.fail).iff ?_
  intro pos w rest a
  constructor
  · rintro ⟨_, w₂, y, rfl, ⟨rfl, hhead⟩, ⟨rfl, hlen⟩ | ⟨-, ⟨⟩⟩⟩
    obtain ⟨z, rfl⟩ := List.length_eq_one_iff.mp hlen
    rw [Option.some.inj hhead]
    rfl
  · rintro rfl
    exact ⟨[], [x], x, rfl, ⟨rfl, rfl⟩, .inl ⟨rfl, rfl⟩⟩

theorem Reads.expect_seq [DecidableEq τ] {q : Parser τ β} {U : Reading τ β} (x : τ) (hq : Reads q U) :
    Reads (Incremental.expect x >>= fun _ => q) fun pos w rest b =>
      ∃ w', w = x :: w' ∧ U (pos + 1) w' rest b := by
  refine ((Reads.expect x).bind fun _ => hq).iff fun pos w rest b => ?_
  constructor
  · rintro ⟨_, w', _, rfl, rfl, hU⟩
    exact ⟨w', rfl, hU⟩
  · rintro ⟨w', rfl, hU⟩
    exact ⟨[x], w', (), rfl, rfl, hU⟩

theorem scanFrom_iff {pos : Nat} {l text : List τ} {c : Cursor τ} :
    scanFrom stop reject pos l = .done text c ↔ l = text ++ c.rest ∧ c.pos = pos + text.length ∧
      (∀ x ∈ text, stop x = false ∧ reject x = false) ∧ ∃ x ∈ c.rest.head?, stop x = true := by
  induction l generalizing pos text with
  | nil =>
    simp only [scanFrom, reduceCtorEq, false_iff]
    rintro ⟨hl, -, -, x, hx, -⟩
    rw [(List.append_eq_nil_iff.mp hl.symm).2] at hx
    cases hx
  | cons y l ih =>
    obtain ⟨pos', rest⟩ := c
    cases hs : stop y with
    | true =>
      simp only [scanFrom, hs, if_true, Result.done.injEq, Cursor.mk.injEq]
      constructor
      · rintro ⟨rfl, rfl, rfl⟩
        exact ⟨rfl, rfl, by simp, y, rfl, hs⟩
      · rintro ⟨hl, hpos, hall, -⟩
        cases text with
        | nil => exact ⟨rfl, hpos.symm, hl⟩
        | cons x text =>
          have hx := (hall x List.mem_cons_self).1
          rw [← (List.cons.inj hl).1, hs] at hx
          cases hx
    | false =>
      cases hr : reject y with
      | true =>
        simp only [scanFrom, hs, hr, Bool.false_eq_true, if_false, if_true, reduceCtorEq, false_iff]
        rintro ⟨hl, -, hall, x, hx, hstop⟩
        cases text with
        | nil =>
          have hl : y :: l = rest := hl
          rw [← hl] at hx
          cases hx
          exact Bool.noConfusion (hs.symm.trans hstop)
        | cons x text =>
          have hx := (hall x List.mem_cons_self).2
          rw [← (List.cons.inj hl).1, hr] at hx
          cases hx
      | false =>
        rw [scanFrom_cons hs hr]
        constructor
        · intro h
          split at h
          · rename_i text' c' heq
            cases h
            obtain ⟨hl, hpos, hall, hstop⟩ := ih.mp heq
            refine ⟨by rw [List.cons_append, ← hl], by rw [hpos, List.length_cons]; omega, ?_, hstop⟩
            rintro x hx
            rcases List.mem_cons.mp hx with rfl | hx
            · exact ⟨hs, hr⟩
            · exact hall x hx
          · cases h
          · cases h
        · rintro ⟨hl, hpos, hall, x, hx, hstop⟩
          cases text with
          | nil =>
            have hl : y :: l = rest := hl
            rw [← hl] at hx
            cases hx
            exact Bool.noConfusion (hs.symm.trans hstop)
          | cons z text =>
            obtain ⟨rfl, htext⟩ := List.cons.inj hl
            have htail : scanFrom stop reject (pos + 1) l = .done text ⟨pos', rest⟩ := by
              refine ih.mpr ⟨htext, ?_, fun x hx => hall x (List.mem_cons_of_mem _ hx), x, hx, hstop⟩
              rw [hpos, List.length_cons]
              omega
            rw [htail]

theorem Reads.scan (stop reject : τ → Bool) : Reads (scan stop reject) fun pos w rest s =>
    s = ⟨pos, w⟩ ∧ (∀ x ∈ w, stop x = false ∧ reject x = false) ∧ ∃ x ∈ rest.head?, stop x = true := by
  rintro pos l s c
  constructor
  · intro h
    unfold Incremental.scan at h
    split at h
    · rename_i text c' heq
      cases h
      obtain ⟨hl, hpos, hall, hstop⟩ := scanFrom_iff.mp heq
      exact ⟨text, hl, hpos, rfl, hall, hstop⟩
    · cases h
    · cases h
  · rintro ⟨w, hl, hpos, rfl, hall, hstop⟩
    unfold Incremental.scan
    rw [scanFrom_iff.mpr ⟨hl, hpos, hall, hstop⟩]

theorem Slice.In.append {s : Slice τ} (h : s.In l) (more : List τ) : s.In (l ++ more) := by
  rw [Slice.In, List.drop_append]
  exact h.trans (List.prefix_append _ _)

end Incremental
