/-!
# Parsers of input that is still arriving

A parser works at a cursor and is done, needs more input, or fails. It is
`Stable` when more input changes neither what it has read nor that it failed.
A stable parser that reads the whole of an input reads the same from any input
that goes on after it, and needs more on every proper beginning of it.
-/

namespace Incremental

structure Cursor (τ : Type u) where
  pos : Nat
  rest : List τ
  deriving DecidableEq

inductive Result (τ : Type u) (α : Type v)
  | done (a : α) (c : Cursor τ)
  | incomplete
  | bad
  deriving DecidableEq

def Parser (τ : Type u) (α : Type v) := Cursor τ → Result τ α

structure Slice (τ : Type u) where
  pos : Nat
  text : List τ
  deriving DecidableEq

instance : Monad (Parser τ) where
  pure a c := .done a c
  bind p f c := match p c with
    | .done a c' => f a c'
    | .incomplete => .incomplete
    | .bad => .bad

-- ---------------------------------------------------------------------------
-- Primitives
-- ---------------------------------------------------------------------------

def fail : Parser τ α := fun _ => .bad

def failIf (c : Prop) [Decidable c] : Parser τ Unit := if c then fail else pure ()

def peek : Parser τ τ := fun c =>
  match c.rest with
  | [] => .incomplete
  | x :: _ => .done x c

def advance : Parser τ Unit := fun c =>
  match c.rest with
  | [] => .incomplete
  | _ :: xs => .done () ⟨c.pos + 1, xs⟩

/-- At least `n` more tokens have arrived. -/
def need (n : Nat) : Parser τ Unit := fun c =>
  if c.rest.length < n then .incomplete else .done () c

def scanFrom (stop reject : τ → Bool) (pos : Nat) : List τ → Result τ (List τ)
  | [] => .incomplete
  | x :: xs =>
    if stop x then .done [] ⟨pos, x :: xs⟩
    else if reject x then .bad
    else match scanFrom stop reject (pos + 1) xs with
      | .done text c => .done (x :: text) c
      | .incomplete => .incomplete
      | .bad => .bad

/-- Up to the first token that `stop` holds of; a token that `reject` holds of fails. -/
def scan (stop reject : τ → Bool) : Parser τ (Slice τ) := fun c =>
  match scanFrom stop reject c.pos c.rest with
  | .done text c' => .done ⟨c.pos, text⟩ c'
  | .incomplete => .incomplete
  | .bad => .bad

def expect [DecidableEq τ] (x : τ) : Parser τ Unit := do
  let y ← peek
  if y = x then advance else fail

-- ---------------------------------------------------------------------------
-- Stability
-- ---------------------------------------------------------------------------

def Cursor.append (c : Cursor τ) (more : List τ) : Cursor τ := ⟨c.pos, c.rest ++ more⟩

structure Stable (p : Parser τ α) : Prop where
  consumes : ∀ c a c', p c = .done a c' →
    ∃ used, c.rest = used ++ c'.rest ∧ c'.pos = c.pos + used.length
  done_append : ∀ c a c' more, p c = .done a c' → p (c.append more) = .done a (c'.append more)
  bad_append : ∀ c more, p c = .bad → p (c.append more) = .bad

variable {p : Parser τ α} {q : α → Parser τ β}

theorem bind_done {c : Cursor τ} :
    (p >>= q) c = .done b c'' ↔ ∃ a c', p c = .done a c' ∧ q a c' = .done b c'' := by
  show (match p c with | .done a c' => q a c' | .incomplete => .incomplete | .bad => .bad) = _ ↔ _
  cases p c with
  | done a c' => exact ⟨fun h => ⟨a, c', rfl, h⟩, by rintro ⟨_, _, h₁, h₂⟩; cases h₁; exact h₂⟩
  | incomplete => simp
  | bad => simp

theorem bind_bad {c : Cursor τ} :
    (p >>= q) c = .bad ↔ p c = .bad ∨ ∃ a c', p c = .done a c' ∧ q a c' = .bad := by
  show (match p c with | .done a c' => q a c' | .incomplete => .incomplete | .bad => .bad) = _ ↔ _
  cases p c with
  | done a c' =>
    refine ⟨fun h => .inr ⟨a, c', rfl, h⟩, ?_⟩
    rintro (h | ⟨_, _, h₁, h₂⟩)
    · cases h
    · cases h₁
      exact h₂
  | incomplete => simp
  | bad => simp

theorem Stable.pure (a : α) : Stable (pure a : Parser τ α) where
  consumes c _ c' h := by
    cases h
    exact ⟨[], rfl, rfl⟩
  done_append c _ c' more h := by
    cases h
    rfl
  bad_append c more h := nomatch h

theorem Stable.bind (hp : Stable p) (hq : ∀ a, Stable (q a)) : Stable (p >>= q) where
  consumes c b c'' h := by
    obtain ⟨a, c', h₁, h₂⟩ := bind_done.mp h
    obtain ⟨u, hu, hpos⟩ := hp.consumes c a c' h₁
    obtain ⟨v, hv, hpos'⟩ := (hq a).consumes c' b c'' h₂
    exact ⟨u ++ v, by simp [hu, hv], by simp [hpos', hpos, Nat.add_assoc]⟩
  done_append c b c'' more h := by
    obtain ⟨a, c', h₁, h₂⟩ := bind_done.mp h
    exact bind_done.mpr ⟨a, _, hp.done_append c a c' more h₁, (hq a).done_append c' b c'' more h₂⟩
  bad_append c more h := by
    rcases bind_bad.mp h with h | ⟨a, c', h₁, h₂⟩
    · exact bind_bad.mpr (.inl (hp.bad_append c more h))
    · exact bind_bad.mpr
        (.inr ⟨a, _, hp.done_append c a c' more h₁, (hq a).bad_append c' more h₂⟩)

theorem Stable.fail : Stable (fail : Parser τ α) where
  consumes _ _ _ h := nomatch h
  done_append _ _ _ _ h := nomatch h
  bad_append _ _ _ := rfl

theorem Stable.peek : Stable (peek : Parser τ τ) where
  consumes c a c' h := by
    unfold Incremental.peek at h
    split at h
    · cases h
    · cases h
      exact ⟨[], rfl, rfl⟩
  done_append c a c' more h := by
    unfold Incremental.peek at h
    split at h
    · cases h
    · rename_i x xs hx
      cases h
      simp [Incremental.peek, Cursor.append, hx]
  bad_append c more h := by
    unfold Incremental.peek at h
    split at h <;> cases h

theorem Stable.advance : Stable (advance : Parser τ Unit) where
  consumes c a c' h := by
    unfold Incremental.advance at h
    split at h
    · cases h
    · rename_i x xs hx
      cases h
      exact ⟨[x], hx, rfl⟩
  done_append c a c' more h := by
    unfold Incremental.advance at h
    split at h
    · cases h
    · rename_i x xs hx
      cases h
      simp [Incremental.advance, Cursor.append, hx]
  bad_append c more h := by
    unfold Incremental.advance at h
    split at h <;> cases h

theorem Stable.need (n : Nat) : Stable (need n : Parser τ Unit) where
  consumes c a c' h := by
    unfold Incremental.need at h
    split at h
    · cases h
    · cases h
      exact ⟨[], rfl, rfl⟩
  done_append c a c' more h := by
    unfold Incremental.need at h
    split at h
    · cases h
    · rename_i hlen
      cases h
      simp only [Incremental.need, Cursor.append, List.length_append]
      exact if_neg (by omega)
  bad_append c more h := by
    unfold Incremental.need at h
    split at h <;> cases h

variable {stop reject : τ → Bool} {l : List τ}

theorem scanFrom_cons (hs : stop x = false) (hr : reject x = false) :
    scanFrom stop reject pos (x :: l) = match scanFrom stop reject (pos + 1) l with
      | .done text c => .done (x :: text) c
      | .incomplete => .incomplete
      | .bad => .bad := by
  simp [scanFrom, hs, hr]

theorem scanFrom_done (h : scanFrom stop reject pos l = .done text c) :
    l = text ++ c.rest ∧ c.pos = pos + text.length := by
  induction l generalizing pos text with
  | nil => cases h
  | cons x xs ih =>
    simp only [scanFrom] at h
    split at h
    · cases h
      exact ⟨rfl, rfl⟩
    · split at h
      · cases h
      · split at h
        · rename_i heq
          cases h
          obtain ⟨hl, hpos⟩ := ih heq
          exact ⟨by rw [List.cons_append, ← hl], by rw [hpos, List.length_cons]; omega⟩
        · cases h
        · cases h

theorem scanFrom_append (more : List τ) (h : scanFrom stop reject pos l ≠ .incomplete) :
    scanFrom stop reject pos (l ++ more) = match scanFrom stop reject pos l with
      | .done text c => .done text (c.append more)
      | .incomplete => .incomplete
      | .bad => .bad := by
  induction l generalizing pos with
  | nil => exact absurd rfl h
  | cons x xs ih =>
    rw [List.cons_append]
    cases hs : stop x with
    | true => simp [scanFrom, hs, Cursor.append]
    | false =>
      cases hr : reject x with
      | true => simp [scanFrom, hs, hr]
      | false =>
        simp only [scanFrom_cons hs hr] at h ⊢
        rw [ih fun hi => h (by rw [hi])]
        cases scanFrom stop reject (pos + 1) xs <;> rfl

theorem scan_done {c : Cursor τ} (h : scan stop reject c = .done s c') :
    s.pos = c.pos ∧ c.rest = s.text ++ c'.rest ∧ c'.pos = c.pos + s.text.length := by
  unfold scan at h
  split at h
  · rename_i heq
    cases h
    exact ⟨rfl, scanFrom_done heq⟩
  · cases h
  · cases h

theorem Stable.scan (stop reject : τ → Bool) : Stable (scan stop reject) where
  consumes c s c' h := ⟨s.text, (scan_done h).2⟩
  done_append c s c' more h := by
    unfold Incremental.scan at h ⊢
    split at h
    · rename_i heq
      cases h
      have hne : scanFrom stop reject c.pos c.rest ≠ .incomplete := by simp [heq]
      have hmore := heq ▸ scanFrom_append more hne
      simp only [Cursor.append, hmore]
    · cases h
    · cases h
  bad_append c more h := by
    unfold Incremental.scan at h ⊢
    split at h
    · cases h
    · cases h
    · rename_i heq
      have hne : scanFrom stop reject c.pos c.rest ≠ .incomplete := by simp [heq]
      have hmore := heq ▸ scanFrom_append more hne
      simp only [Cursor.append, hmore]

theorem Stable.ite {c : Prop} [Decidable c] {p q : Parser τ α} (hp : Stable p) (hq : Stable q) :
    Stable (if c then p else q) := by
  split
  · exact hp
  · exact hq

theorem Stable.failIf (c : Prop) [Decidable c] : Stable (failIf c : Parser τ Unit) :=
  .ite .fail (.pure ())

theorem Stable.expect [DecidableEq τ] (x : τ) : Stable (expect x) :=
  Stable.peek.bind fun _ => .ite .advance .fail

-- ---------------------------------------------------------------------------
-- Places in the input
-- ---------------------------------------------------------------------------

def Cursor.In (l : List τ) (c : Cursor τ) : Prop := c.rest = l.drop c.pos

def Slice.In (l : List τ) (s : Slice τ) : Prop := s.text <+: l.drop s.pos

def Yields (l : List τ) (Q : α → Prop) (p : Parser τ α) : Prop :=
  ∀ c a c', c.In l → p c = .done a c' → Q a

theorem Stable.cursor_in (hp : Stable p) {c c' : Cursor τ} (hc : c.In l) (h : p c = .done a c') :
    c'.In l := by
  obtain ⟨used, hused, hpos⟩ := hp.consumes c a c' h
  have hdrop : l.drop c'.pos = (l.drop c.pos).drop used.length := by rw [List.drop_drop, hpos]
  rw [Cursor.In, hdrop, ← hc, hused, List.drop_left]

theorem Slice.In.take {s : Slice τ} (h : s.In l) : (l.drop s.pos).take s.text.length = s.text :=
  (List.prefix_iff_eq_take.mp h).symm

section
variable {Q : α → Prop} {R : β → Prop}

theorem Yields.pure (h : Q a) : Yields l Q (pure a : Parser τ α) := by
  intro c a' c' _ hp
  cases hp
  exact h

theorem Yields.fail : Yields l Q (fail : Parser τ α) := nofun

theorem Yields.bind (hp : Stable p) (hQ : Yields l Q p) (hR : ∀ a, Q a → Yields l R (q a)) :
    Yields l R (p >>= q) := by
  intro c b c'' hc h
  obtain ⟨a, c', h₁, h₂⟩ := bind_done.mp h
  exact hR a (hQ c a c' hc h₁) c' b c'' (hp.cursor_in hc h₁) h₂

theorem Yields.seq (hp : Stable p) (hR : ∀ a, Yields l R (q a)) : Yields l R (p >>= q) :=
  bind (Q := fun _ => True) hp (fun _ _ _ _ _ => trivial) fun a _ => hR a

theorem Yields.ite {c : Prop} [Decidable c] {p q : Parser τ α} (hp : Yields l Q p)
    (hq : Yields l Q q) : Yields l Q (if c then p else q) := by
  split
  · exact hp
  · exact hq

theorem Yields.scan (stop reject : τ → Bool) : Yields l (Slice.In l) (scan stop reject) := by
  intro c s c' hc h
  obtain ⟨hpos, hrest, -⟩ := scan_done h
  exact ⟨c'.rest, by rw [hpos, ← hc, hrest]⟩

end

-- ---------------------------------------------------------------------------
-- Whole inputs
-- ---------------------------------------------------------------------------

/-- The parser reads `a` from exactly the input `l`. -/
def Accepts (p : Parser τ α) (l : List τ) (a : α) : Prop := p ⟨0, l⟩ = .done a ⟨l.length, []⟩

instance [DecidableEq τ] [DecidableEq α] (p : Parser τ α) (l : List τ) (a : α) :
    Decidable (Accepts p l a) :=
  inferInstanceAs (Decidable (_ = _))

theorem Accepts.append (hp : Stable p) (h : Accepts p l a) (more : List τ) :
    p ⟨0, l ++ more⟩ = .done a ⟨l.length, more⟩ :=
  hp.done_append _ _ _ more h

theorem Accepts.incomplete (hp : Stable p) (h : Accepts p (l₁ ++ l₂) a) (hne : l₂ ≠ []) :
    p ⟨0, l₁⟩ = .incomplete := by
  cases hr : p ⟨0, l₁⟩ with
  | incomplete => rfl
  | bad => exact nomatch (hp.bad_append _ l₂ hr).symm.trans h
  | done b c =>
    have := (hp.done_append _ _ _ l₂ hr).symm.trans h
    simp only [Cursor.append, Result.done.injEq, Cursor.mk.injEq, List.append_eq_nil_iff] at this
    exact absurd this.2.2.2 hne

/-- Two inputs that one input starts with are the same input. -/
theorem Accepts.unique (hp : Stable p) (h₁ : Accepts p l₁ a₁) (h₂ : Accepts p l₂ a₂)
    (h : l₁ ++ m₁ = l₂ ++ m₂) : l₁ = l₂ ∧ a₁ = a₂ := by
  have h' := (h₁.append hp m₁).symm.trans (h ▸ h₂.append hp m₂)
  simp only [Result.done.injEq, Cursor.mk.injEq] at h'
  obtain ⟨ha, -, hm⟩ := h'
  subst hm
  exact ⟨List.append_cancel_right h, ha⟩

end Incremental
