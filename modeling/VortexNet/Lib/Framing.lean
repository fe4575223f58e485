import Mathlib.Data.List.Basic

/-!
# Messages in a stream

A decoder takes one message off the front of what has come, needs more, or gives
up. Taking off all there is, and later all there is of what was left and what has
come since, gives what the whole stream gives at once (`Decoder.drain_append`).
-/

namespace Framing

inductive Next (τ : Type u) (α : Type v)
  | message (a : α) (rest : List τ)
  | more
  | stop
  deriving DecidableEq

structure Decoder (τ : Type u) (α : Type v) where
  next : List τ → Next τ α
  shrinks : ∀ {s a rest}, next s = .message a rest → rest.length < s.length
  message_append : ∀ {s a rest}, next s = .message a rest →
    ∀ t, next (s ++ t) = .message a (rest ++ t)
  stop_append : ∀ {s}, next s = .stop → ∀ t, next (s ++ t) = .stop

namespace Decoder

variable (d : Decoder τ α) {s rest : List τ} {a : α}

def drainFrom : Nat → List τ → List α × List τ
  | 0, s => ([], s)
  | fuel + 1, s =>
    match d.next s with
    | .message a rest => (a :: (drainFrom fuel rest).1, (drainFrom fuel rest).2)
    | .more => ([], s)
    | .stop => ([], s)

def drain (s : List τ) : List α × List τ := d.drainFrom s.length s

/-- No message is at the front. -/
def Waits (s : List τ) : Prop := ∀ a rest, d.next s ≠ .message a rest

theorem waits_nil : d.Waits [] := fun _ _ h => Nat.not_lt_zero _ (d.shrinks h)

theorem waits_of_more (h : d.next s = .more) : d.Waits s := fun _ _ h' => by cases h.symm.trans h'

theorem waits_of_stop (h : d.next s = .stop) : d.Waits s := fun _ _ h' => by cases h.symm.trans h'

theorem drainFrom_waits (h : d.Waits s) (fuel : Nat) : d.drainFrom fuel s = ([], s) := by
  cases fuel with
  | zero => rfl
  | succ fuel =>
    rw [drainFrom]
    split
    · exact absurd ‹_› (h _ _)
    · rfl
    · rfl

/-- Fuel for the length of the input is enough. -/
theorem drainFrom_eq (h : s.length ≤ fuel) : d.drainFrom fuel s = d.drain s := by
  suffices ∀ fuel' ≥ s.length, d.drainFrom fuel s = d.drainFrom fuel' s from
    this s.length (Nat.le_refl _)
  induction fuel generalizing s with
  | zero =>
    obtain rfl := List.length_eq_zero_iff.mp (Nat.le_zero.mp h)
    exact fun fuel' _ => (d.drainFrom_waits d.waits_nil fuel').symm
  | succ fuel ih =>
    intro fuel' h'
    cases hn : d.next s with
    | message a rest =>
      have hlt := d.shrinks hn
      cases fuel' with
      | zero => omega
      | succ fuel' => simp only [drainFrom, hn, ih (s := rest) (by omega) fuel' (by omega)]
    | more => rw [d.drainFrom_waits (d.waits_of_more hn), d.drainFrom_waits (d.waits_of_more hn)]
    | stop => rw [d.drainFrom_waits (d.waits_of_stop hn), d.drainFrom_waits (d.waits_of_stop hn)]

theorem drain_waits (h : d.Waits s) : d.drain s = ([], s) := d.drainFrom_waits h _

theorem drain_message (h : d.next s = .message a rest) :
    d.drain s = (a :: (d.drain rest).1, (d.drain rest).2) := by
  have hlt := d.shrinks h
  have hs : d.drainFrom (s.length + 1) s = d.drain s := d.drainFrom_eq (Nat.le_succ _)
  have hrest : d.drainFrom s.length rest = d.drain rest := d.drainFrom_eq (Nat.le_of_lt hlt)
  rw [← hs, drainFrom, h]
  simp only [hrest]

/-- An input is a message and a shorter input, or no message is at its front. -/
theorem induct {P : List τ → Prop} (s : List τ) (waits : ∀ s, d.Waits s → P s)
    (message : ∀ s a rest, d.next s = .message a rest → P rest → P s) : P s := by
  generalize hn : s.length = n
  induction n using Nat.strongRecOn generalizing s with
  | ind n ih =>
    by_cases h : d.Waits s
    · exact waits s h
    · simp only [Waits, ne_eq, not_forall, not_not] at h
      obtain ⟨a, rest, h⟩ := h
      exact message s a rest h (ih rest.length (hn ▸ d.shrinks h) rest rfl)

/-- What comes later meets what was left. -/
theorem drain_append (s t : List τ) : d.drain (s ++ t) =
    ((d.drain s).1 ++ (d.drain ((d.drain s).2 ++ t)).1, (d.drain ((d.drain s).2 ++ t)).2) := by
  induction s using d.induct with
  | waits s h => rw [d.drain_waits h, List.nil_append]
  | message s a rest h ih => rw [d.drain_message (d.message_append h t), d.drain_message h, ih,
      List.cons_append]

theorem drain_stopped (h : d.next (d.drain s).2 = .stop) (t : List τ) :
    d.drain (s ++ t) = ((d.drain s).1, (d.drain s).2 ++ t) := by
  rw [d.drain_append, d.drain_waits (d.waits_of_stop (d.stop_append h t)), List.append_nil]

theorem drain_encoded {enc : β → List τ} {value : β → α} (bs : List β)
    (h : ∀ b ∈ bs, ∀ t, d.next (enc b ++ t) = .message (value b) t) :
    d.drain (bs.flatMap enc) = (bs.map value, []) := by
  induction bs with
  | nil => exact d.drain_waits d.waits_nil
  | cons b bs ih =>
    rw [List.flatMap_cons, d.drain_message (h b List.mem_cons_self _),
      ih fun c hc => h c (List.mem_cons_of_mem b hc), List.map_cons]

end Decoder

end Framing
