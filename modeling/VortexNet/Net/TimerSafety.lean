import Mathlib.Data.List.Nodup
import Mathlib.Data.List.Perm.Basic
import VortexNet.Net.TimerQueue

/-!
# Timers are freed once and never run again

`getExpired` puts the timers it takes out back into `activeTimers_`, and
nothing takes a fired timer out of it. So `cancelInLoop` frees a timer of the
batch that `handleRead` still holds, and reads a timer already deleted.
`timers_safe` covers every run in which each processed `cancel` names a timer
that is still in `timers_`, or one that is in neither set; `cancel_faults` says
that from such a run any other cancel leads to a fault.
-/

namespace VortexNet.TimerQueue

open Systems (Reach Always exec)

def CancelFinal (log : List Log) : Prop :=
  log.Pairwise fun later earlier => ∀ now seq, later = .ran now seq → earlier ≠ .cancelled seq

/-- No fault, and no callback run after its cancel. -/
def Safe : Except Fault TimerQueue → Prop
  | .ok q => CancelFinal q.log
  | .error _ => False

/-- A cancel names a timer in `timers_`, or one that is not in `activeTimers_`. -/
def CancelsPending : Except Fault TimerQueue → Event → Prop
  | .ok q, .cancel timerid _ =>
    timerid.timer_ ∈ q.activeTimers_ → timerid.timer_ ∈ q.timers_.map Prod.snd
  | _, _ => True

instance : ∀ s event, Decidable (CancelsPending s event)
  | .ok q, .cancel timerid _ => inferInstanceAs
      (Decidable (timerid.timer_ ∈ q.activeTimers_ → timerid.timer_ ∈ q.timers_.map Prod.snd))
  | .ok _, .addTimer .. => .isTrue trivial
  | .ok _, .handleRead .. => .isTrue trivial
  | .ok _, .return_ _ => .isTrue trivial
  | .error _, _ => .isTrue trivial

-- ---------------------------------------------------------------------------
-- The set of entries
-- ---------------------------------------------------------------------------

theorem entry_eq (h₁ : ¬ entryLt x y = true) (h₂ : ¬ entryLt y x = true) : x = y := by
  simp only [entryLt, Bool.decide_or, Bool.decide_and, Bool.or_eq_true, Bool.and_eq_true,
    decide_eq_true_eq, not_or, not_and] at h₁ h₂
  have h : x.1 = y.1 := by omega
  exact Prod.ext h (by have := h₁.2 h; have := h₂.2 h.symm; omega)

theorem mem_setInsert {l : List Entry} : x ∈ setInsert e l ↔ x = e ∨ x ∈ l := by
  induction l with
  | nil => exact List.mem_singleton.trans (by simp)
  | cons y l ih =>
    simp only [setInsert]
    split
    · exact List.mem_cons
    · rename_i hey
      split
      · rw [List.mem_cons, ih, List.mem_cons]
        exact or_left_comm
      · rename_i hye
        rw [entry_eq hey hye, List.mem_cons]
        exact (or_self_left ..).symm

theorem setInsert_perm (h : e ∉ l) : (setInsert e l).Perm (e :: l) := by
  induction l with
  | nil => exact .refl _
  | cons x xs ih =>
    simp only [setInsert]
    split
    · exact .refl _
    · rename_i hex
      split
      · exact ((ih fun hm => h (List.mem_cons_of_mem _ hm)).cons x).trans (.swap e x xs)
      · rename_i hxe
        exact absurd (by simp [entry_eq hex hxe]) h

-- ---------------------------------------------------------------------------
-- The invariant
-- ---------------------------------------------------------------------------

structure Inv (q : TimerQueue) (batch : List Entry) : Prop where
  /-- An entry's timer exists and expires at the entry's key. -/
  keys : ∀ e ∈ q.timers_, ∃ t, q.heap e.2 = some t ∧ t.expiration_ = e.1
  nodup : q.timers_.Nodup
  held : ∀ e ∈ batch, (q.heap e.2).isSome ∧ e.2 ∉ q.timers_.map Prod.snd
  held_nodup : (batch.map Prod.snd).Nodup
  /-- A timer that exists is owned: by the set or by the batch. -/
  owned : ∀ a, (q.heap a).isSome → a ∈ q.timers_.map Prod.snd ∨ a ∈ batch.map Prod.snd
  active : ∀ e ∈ q.timers_, e.2 ∈ q.activeTimers_
  issued : ∀ a t, q.heap a = some t → ⟨a, t.sequence_⟩ ∈ q.issued
  unique : ∀ id ∈ q.issued, ∀ id' ∈ q.issued, id.sequence_ = id'.sequence_ → id = id'
  created : ∀ id ∈ q.issued, id.sequence_ ≤ q.num_created
  gone : ∀ seq, .cancelled seq ∈ q.log → ∀ a t, q.heap a = some t → t.sequence_ ≠ seq
  cancelled : ∀ seq, .cancelled seq ∈ q.log → seq ≤ q.num_created
  final : CancelFinal q.log

def Phase.batch : Phase → List Entry
  | .idle => []
  | .running _ expired _ => expired

def Phase.next : Phase → List Entry
  | .idle => []
  | .running _ _ next => next

structure WF (q : TimerQueue) : Prop where
  inv : Inv q q.phase.batch
  batch_active : ∀ e ∈ q.phase.batch, e.2 ∈ q.activeTimers_
  next_held : q.phase.next ⊆ q.phase.batch

variable {q q' : TimerQueue} {batch : List Entry} {e : Entry} {a : Nat} {t : Timer}

theorem init_inv : Inv init [] := by
  constructor <;> simp [init, CancelFinal]

theorem Inv.of_mem (hi : Inv q batch) (h : a ∈ q.timers_.map Prod.snd) :
    ∃ t, q.heap a = some t ∧ (t.expiration_, a) ∈ q.timers_ := by
  obtain ⟨e, he, rfl⟩ := List.mem_map.mp h
  obtain ⟨t, ht, hk⟩ := hi.keys e he
  exact ⟨t, ht, hk ▸ he⟩

theorem Inv.entry_unique (hi : Inv q batch) (he : e ∈ q.timers_) (he' : e' ∈ q.timers_)
    (h : e.2 = e'.2) : e = e' := by
  obtain ⟨t, ht, hk⟩ := hi.keys e he
  obtain ⟨t', ht', hk'⟩ := hi.keys e' he'
  rw [h, ht'] at ht
  cases ht
  exact Prod.ext (hk.symm.trans hk') h

theorem deref_of (h : q.heap a = some t) : q.deref a = .ok t := by
  simp [deref, h]

theorem delete_of (h : (q.heap a).isSome) :
    q.delete a = .ok { q with heap := Function.update q.heap a none } := by
  obtain ⟨t, ht⟩ := Option.isSome_iff_exists.mp h
  simp [delete, ht]

theorem insert_of (h : q.heap a = some t) :
    ∃ erliest, q.insert a = .ok ({ q with
      timers_ := setInsert (t.expiration_, a) q.timers_
      activeTimers_ := q.activeTimers_.insert a }, erliest) := by
  simp only [TimerQueue.insert, deref_of h, bind, Except.bind, pure, Except.pure]
  exact ⟨_, rfl⟩

theorem Inv.insert (hi : Inv q (e :: batch)) (ht : q.heap e.2 = some t) :
    Inv { q with
      timers_ := setInsert (t.expiration_, e.2) q.timers_
      activeTimers_ := q.activeTimers_.insert e.2 } batch := by
  have hnot := (hi.held e List.mem_cons_self).2
  have hnew : (t.expiration_, e.2) ∉ q.timers_ := fun hm => hnot (List.mem_map.mpr ⟨_, hm, rfl⟩)
  have hperm := setInsert_perm hnew
  have hmem : ∀ x, x ∈ setInsert (t.expiration_, e.2) q.timers_ ↔
      x = (t.expiration_, e.2) ∨ x ∈ q.timers_ := fun x => hperm.mem_iff.trans List.mem_cons
  have hnodup := List.nodup_cons.mp hi.held_nodup
  constructor
  case keys =>
    intro x hx
    rcases (hmem x).mp hx with rfl | hx
    · exact ⟨t, ht, rfl⟩
    · exact hi.keys x hx
  case nodup => exact hperm.nodup_iff.mpr (List.nodup_cons.mpr ⟨hnew, hi.nodup⟩)
  case held =>
    intro x hx
    refine ⟨(hi.held x (List.mem_cons_of_mem _ hx)).1, fun hm => ?_⟩
    obtain ⟨y, hy, hyx⟩ := List.mem_map.mp hm
    rcases (hmem y).mp hy with rfl | hy
    · exact hnodup.1 (List.mem_map.mpr ⟨x, hx, hyx.symm⟩)
    · exact (hi.held x (List.mem_cons_of_mem _ hx)).2 (List.mem_map.mpr ⟨y, hy, hyx⟩)
  case held_nodup => exact hnodup.2
  case owned =>
    intro a ha
    rcases hi.owned a ha with h | h
    · obtain ⟨y, hy, rfl⟩ := List.mem_map.mp h
      exact .inl (List.mem_map.mpr ⟨y, (hmem y).mpr (.inr hy), rfl⟩)
    · rcases List.mem_cons.mp h with rfl | h
      · exact .inl (List.mem_map.mpr ⟨_, (hmem _).mpr (.inl rfl), rfl⟩)
      · exact .inr h
  case active =>
    intro x hx
    rcases (hmem x).mp hx with rfl | hx
    · exact List.mem_insert_self
    · exact List.mem_insert_of_mem (hi.active x hx)
  case issued => exact hi.issued
  case unique => exact hi.unique
  case created => exact hi.created
  case gone => exact hi.gone
  case cancelled => exact hi.cancelled
  case final => exact hi.final

theorem Inv.restart (hi : Inv q (e :: batch)) (ht : q.heap e.2 = some t) (expiration : Int) :
    Inv { q with heap := Function.update q.heap e.2 (some { t with expiration_ := expiration }) }
      (e :: batch) := by
  have hnot := (hi.held e List.mem_cons_self).2
  have hsome : ∀ a, (Function.update q.heap e.2 (some { t with expiration_ := expiration }) a).isSome
      ↔ (q.heap a).isSome := by
    intro a
    by_cases h : a = e.2
    · simp [h, ht]
    · simp [h]
  have hseq : ∀ a t', Function.update q.heap e.2 (some { t with expiration_ := expiration }) a =
      some t' → ∃ u, q.heap a = some u ∧ u.sequence_ = t'.sequence_ := by
    intro a t' h
    by_cases ha : a = e.2
    · subst ha
      simp only [Function.update_self, Option.some.injEq] at h
      exact ⟨t, ht, h ▸ rfl⟩
    · rw [Function.update_of_ne ha] at h
      exact ⟨t', h, rfl⟩
  constructor
  case keys =>
    intro x hx
    have hne : x.2 ≠ e.2 := fun h => hnot (List.mem_map.mpr ⟨x, hx, h⟩)
    obtain ⟨u, hu, hk⟩ := hi.keys x hx
    exact ⟨u, (Function.update_of_ne hne _ _).trans hu, hk⟩
  case nodup => exact hi.nodup
  case held => exact fun x hx => ⟨(hsome x.2).mpr (hi.held x hx).1, (hi.held x hx).2⟩
  case held_nodup => exact hi.held_nodup
  case owned => exact fun a ha => hi.owned a ((hsome a).mp ha)
  case active => exact hi.active
  case issued =>
    intro a t' h
    obtain ⟨u, hu, hs⟩ := hseq a t' h
    exact hs ▸ hi.issued a u hu
  case unique => exact hi.unique
  case created => exact hi.created
  case gone =>
    intro seq hm a t' h
    obtain ⟨u, hu, hs⟩ := hseq a t' h
    exact hs ▸ hi.gone seq hm a u hu
  case cancelled => exact hi.cancelled
  case final => exact hi.final

theorem update_none (h : Function.update q.heap a none b = some t) : b ≠ a ∧ q.heap b = some t := by
  by_cases hb : b = a
  · subst hb
    simp at h
  · exact ⟨hb, by rwa [Function.update_of_ne hb] at h⟩

theorem Inv.delete (hi : Inv q (e :: batch)) :
    Inv { q with heap := Function.update q.heap e.2 none } batch := by
  have hnot := (hi.held e List.mem_cons_self).2
  have hnodup := List.nodup_cons.mp hi.held_nodup
  have hlive : ∀ b, (Function.update q.heap e.2 none b).isSome → b ≠ e.2 ∧ (q.heap b).isSome := by
    intro b h
    obtain ⟨t, ht⟩ := Option.isSome_iff_exists.mp h
    have := update_none ht
    exact ⟨this.1, this.2 ▸ rfl⟩
  constructor
  case keys =>
    intro x hx
    have hne : x.2 ≠ e.2 := fun h => hnot (List.mem_map.mpr ⟨x, hx, h⟩)
    obtain ⟨u, hu, hk⟩ := hi.keys x hx
    exact ⟨u, (Function.update_of_ne hne _ _).trans hu, hk⟩
  case nodup => exact hi.nodup
  case held =>
    intro x hx
    have hne : x.2 ≠ e.2 := fun h => hnodup.1 (List.mem_map.mpr ⟨x, hx, h⟩)
    have := hi.held x (List.mem_cons_of_mem _ hx)
    exact ⟨by simpa [Function.update_of_ne hne] using this.1, this.2⟩
  case held_nodup => exact hnodup.2
  case owned =>
    intro a ha
    obtain ⟨hne, ha⟩ := hlive a ha
    rcases hi.owned a ha with h | h
    · exact .inl h
    · exact .inr ((List.mem_cons.mp h).resolve_left hne)
  case active => exact hi.active
  case issued => exact fun a t h => hi.issued a t (update_none h).2
  case unique => exact hi.unique
  case created => exact hi.created
  case gone => exact fun seq hm a t h => hi.gone seq hm a t (update_none h).2
  case cancelled => exact hi.cancelled
  case final => exact hi.final

-- ---------------------------------------------------------------------------
-- handleRead
-- ---------------------------------------------------------------------------

theorem Inv.settle (hi : Inv q (e :: batch)) (now : Int) :
    ∃ r, q.settle now e = .ok r ∧ Inv r batch ∧ r.phase = q.phase := by
  obtain ⟨t, ht⟩ := Option.isSome_iff_exists.mp (hi.held e List.mem_cons_self).1
  simp only [TimerQueue.settle, deref_of ht, bind, Except.bind]
  split
  · have hr := hi.restart ht (now + t.interval_)
    have hself := Function.update_self e.2 (some { t with expiration_ := now + t.interval_ }) q.heap
    obtain ⟨_, hins⟩ := insert_of (q := { q with heap := Function.update q.heap e.2 (some
      { t with expiration_ := now + t.interval_ }) }) hself
    rw [hins]
    exact ⟨_, rfl, hr.insert hself, rfl⟩
  · rw [delete_of (ht ▸ rfl)]
    exact ⟨_, rfl, hi.delete, rfl⟩

theorem Inv.sweep (hi : Inv q batch) (now : Int) :
    ∃ r, batch.foldlM (fun q e => q.settle now e) q = .ok r ∧ Inv r [] ∧ r.phase = q.phase := by
  induction batch generalizing q with
  | nil => exact ⟨q, rfl, hi, rfl⟩
  | cons e batch ih =>
    obtain ⟨q₁, h₁, hi₁, hp₁⟩ := hi.settle now
    obtain ⟨r, h, hr, hp⟩ := ih hi₁
    exact ⟨r, by simp only [List.foldlM_cons, h₁, bind, Except.bind]; exact h, hr, hp.trans hp₁⟩

theorem Inv.frame (hi : Inv q batch) (c : List Nat) (b : Bool) (w : Option Int) (p : Phase) :
    Inv { q with cancelingTimers_ := c, callingExpiredTimers_ := b, timerfd_ := w, phase := p }
      batch :=
  ⟨hi.keys, hi.nodup, hi.held, hi.held_nodup, hi.owned, hi.active, hi.issued, hi.unique,
    hi.created, hi.gone, hi.cancelled, hi.final⟩

theorem Inv.finish (hi : Inv q batch) (now clock : Int) :
    ∃ r, q.finish now clock batch = .ok r ∧ Inv r [] ∧ r.phase = .idle := by
  obtain ⟨r, h, hr, -⟩ := hi.sweep now
  have hr' := hr.frame [] r.callingExpiredTimers_ r.timerfd_ .idle
  simp only [TimerQueue.finish, h, bind, Except.bind]
  split
  · exact ⟨_, rfl, hr', rfl⟩
  · rename_i e l heq
    obtain ⟨t, ht, -⟩ := hr'.keys e (heq ▸ List.mem_cons_self)
    rw [deref_of ht]
    exact ⟨_, rfl, hr'.frame _ _ _ _, rfl⟩

theorem Inv.ran (hi : Inv q batch) (ht : q.heap a = some t) (now : Int) :
    Inv { q with log := .ran now t.sequence_ :: q.log } batch where
  keys := hi.keys
  nodup := hi.nodup
  held := hi.held
  held_nodup := hi.held_nodup
  owned := hi.owned
  active := hi.active
  issued := hi.issued
  unique := hi.unique
  created := hi.created
  gone seq hm := hi.gone seq ((List.mem_cons.mp hm).resolve_left nofun)
  cancelled seq hm := hi.cancelled seq ((List.mem_cons.mp hm).resolve_left nofun)
  final := by
    refine List.pairwise_cons.mpr ⟨fun earlier hm now' seq h hc => ?_, hi.final⟩
    cases h
    exact hi.gone _ (hc ▸ hm) a t ht rfl

theorem WF.resume (h : WF q) (clock : Int) : ∃ r, q.resume clock = .ok r ∧ WF r := by
  obtain ⟨hi, ha, hc⟩ := h
  rw [TimerQueue.resume]
  cases hp : q.phase with
  | idle => exact ⟨q, rfl, hi, ha, hc⟩
  | running now expired next =>
    rw [hp] at hi ha hc
    cases next with
    | nil =>
      obtain ⟨r, hr, hi', hp'⟩ := hi.finish now clock
      refine ⟨r, hr, ?_, ?_, ?_⟩ <;> rw [hp']
      · exact hi'
      · exact nofun
      · exact fun _ => id
    | cons e next =>
      obtain ⟨t, ht⟩ := Option.isSome_iff_exists.mp (hi.held e (hc List.mem_cons_self)).1
      simp only [deref_of ht, bind, Except.bind]
      exact ⟨_, rfl, (hi.ran ht now).frame _ _ _ _, ha, fun x hx => hc (List.mem_cons_of_mem _ hx)⟩

theorem mem_foldl_insert {l : List Entry} {s : List Nat} (h : a ∈ s) :
    a ∈ l.foldl (fun s e => s.insert e.2) s := by
  induction l generalizing s with
  | nil => exact h
  | cons e l ih => exact ih (List.mem_insert_of_mem h)

theorem mem_foldl_insert_self {l : List Entry} {s : List Nat} (h : e ∈ l) :
    e.2 ∈ l.foldl (fun s e => s.insert e.2) s := by
  induction l generalizing s with
  | nil => cases h
  | cons x l ih =>
    rcases List.mem_cons.mp h with rfl | h
    · rw [List.foldl_cons]
      exact mem_foldl_insert List.mem_insert_self
    · exact ih h

theorem Inv.getExpired (hi : Inv q []) (now : Int) :
    Inv (q.getExpired now).2 (q.getExpired now).1 := by
  let due : Entry → Bool := (entryLt · (now, UINTPTR_MAX))
  have hsplit : q.timers_.takeWhile due ++ q.timers_.dropWhile due = q.timers_ :=
    List.takeWhile_append_dropWhile
  have hnodup : (q.timers_.map Prod.snd).Nodup :=
    hi.nodup.map_on fun x hx y hy h => hi.entry_unique hx hy h
  rw [← hsplit, List.map_append] at hnodup
  obtain ⟨hdue, -, hdisj⟩ := List.nodup_append.mp hnodup
  have htake : ∀ x ∈ q.timers_.takeWhile due, x ∈ q.timers_ :=
    fun x hx => hsplit ▸ List.mem_append_left _ hx
  have hdrop : ∀ x ∈ q.timers_.dropWhile due, x ∈ q.timers_ :=
    fun x hx => hsplit ▸ List.mem_append_right _ hx
  constructor
  case keys => exact fun x hx => hi.keys x (hdrop x hx)
  case nodup => exact hi.nodup.sublist (List.dropWhile_sublist _)
  case held =>
    intro x hx
    obtain ⟨t, ht, -⟩ := hi.keys x (htake x hx)
    refine ⟨by simp [TimerQueue.getExpired, ht], fun hm => ?_⟩
    exact hdisj x.2 (List.mem_map.mpr ⟨x, hx, rfl⟩) x.2 hm rfl
  case held_nodup => exact hdue
  case owned =>
    intro a ha
    have h := (hi.owned a ha).resolve_right (by simp)
    rw [← hsplit, List.map_append] at h
    exact (List.mem_append.mp h).symm
  case active => exact fun x hx => mem_foldl_insert (hi.active x (hdrop x hx))
  case issued => exact hi.issued
  case unique => exact hi.unique
  case created => exact hi.created
  case gone => exact hi.gone
  case cancelled => exact hi.cancelled
  case final => exact hi.final

theorem WF.handleRead (h : WF q) (hp : q.phase = .idle) (now clock : Int) :
    ∃ r, q.handleRead now clock = .ok r ∧ WF r := by
  have hi := h.inv
  rw [hp] at hi
  have hg := (hi.frame q.cancelingTimers_ q.callingExpiredTimers_
    (q.timerfd_.filter (now < ·)) q.phase).getExpired now
  exact WF.resume ⟨hg.frame _ true _ (.running now _ _), fun x => mem_foldl_insert_self,
    fun _ => id⟩ clock

-- ---------------------------------------------------------------------------
-- addTimer and cancel
-- ---------------------------------------------------------------------------

/-- A new timer belongs to nobody until `insert`: it stands in front of the batch. -/
theorem Inv.newTimer (hi : Inv q batch) (h : q.heap a = none) (when_ : Int) (interval : Nat) :
    Inv (q.newTimer a when_ interval) ((when_, a) :: batch) := by
  have hne : ∀ b, (q.heap b).isSome → b ≠ a := fun b hb hba => by simp [hba, h] at hb
  have hkeep : ∀ b, (q.heap b).isSome → (q.newTimer a when_ interval).heap b = q.heap b :=
    fun b hb => Function.update_of_ne (hne b hb) _ _
  have hnot : a ∉ q.timers_.map Prod.snd := fun hm => by
    obtain ⟨t, ht, -⟩ := hi.of_mem hm
    simp [h] at ht
  have hcases : ∀ b t, (q.newTimer a when_ interval).heap b = some t →
      b = a ∧ t.sequence_ = q.num_created + 1 ∨ q.heap b = some t := by
    intro b t hb
    by_cases hba : b = a
    · subst hba
      simp only [TimerQueue.newTimer, Function.update_self, Option.some.injEq] at hb
      exact .inl ⟨rfl, hb ▸ rfl⟩
    · exact .inr ((Function.update_of_ne hba _ _).symm.trans hb)
  have hfresh : ∀ id ∈ q.issued, id.sequence_ ≠ q.num_created + 1 := fun id hm => by
    have := hi.created id hm
    omega
  constructor
  case keys =>
    intro x hx
    obtain ⟨t, ht, hk⟩ := hi.keys x hx
    exact ⟨t, (hkeep x.2 (ht ▸ rfl)).trans ht, hk⟩
  case nodup => exact hi.nodup
  case held =>
    intro x hx
    rcases List.mem_cons.mp hx with rfl | hx
    · exact ⟨by simp [TimerQueue.newTimer], hnot⟩
    · have hl := hi.held x hx
      exact ⟨(hkeep x.2 hl.1).symm ▸ hl.1, hl.2⟩
  case held_nodup =>
    refine List.nodup_cons.mpr ⟨fun hm => ?_, hi.held_nodup⟩
    obtain ⟨x, hx, hxa⟩ := List.mem_map.mp hm
    exact hne x.2 (hi.held x hx).1 hxa
  case owned =>
    intro b hb
    obtain ⟨t, ht⟩ := Option.isSome_iff_exists.mp hb
    rcases hcases b t ht with ⟨rfl, -⟩ | ht
    · exact .inr List.mem_cons_self
    · exact (hi.owned b (ht ▸ rfl)).imp_right (List.mem_cons_of_mem _)
  case active => exact hi.active
  case issued =>
    intro b t ht
    rcases hcases b t ht with ⟨rfl, hs⟩ | ht
    · exact hs ▸ List.mem_cons_self
    · exact List.mem_cons_of_mem _ (hi.issued b t ht)
  case unique =>
    intro id hid id' hid' hs
    rcases List.mem_cons.mp hid with rfl | hid <;> rcases List.mem_cons.mp hid' with rfl | hid'
    · rfl
    · exact absurd hs.symm (hfresh id' hid')
    · exact absurd hs (hfresh id hid)
    · exact hi.unique id hid id' hid' hs
  case created =>
    intro id hid
    rcases List.mem_cons.mp hid with rfl | hid
    · exact Nat.le_refl _
    · exact Nat.le_succ_of_le (hi.created id hid)
  case gone =>
    intro seq hm b t ht
    rcases hcases b t ht with ⟨-, hs⟩ | ht
    · have := hi.cancelled seq hm
      omega
    · exact hi.gone seq hm b t ht
  case cancelled => exact fun seq hm => Nat.le_succ_of_le (hi.cancelled seq hm)
  case final => exact hi.final

theorem WF.addTimer (h : WF q) (ha : q.heap a = none) (when_ : Int) (interval : Nat) (clock : Int) :
    ∃ r, q.addTimer a when_ interval clock = .ok r ∧ WF r := by
  have hnew := h.inv.newTimer ha when_ interval
  have ht : (q.newTimer a when_ interval).heap a = some ⟨when_, interval, q.num_created + 1⟩ :=
    Function.update_self ..
  have hins := hnew.insert ht
  have hwf : ∀ w, WF { q.newTimer a when_ interval with
      timers_ := setInsert (when_, a) q.timers_
      activeTimers_ := q.activeTimers_.insert a
      timerfd_ := w } := fun w =>
    ⟨hins.frame _ _ _ _, fun x hx => List.mem_insert_of_mem (h.batch_active x hx), h.next_held⟩
  obtain ⟨erliest, hb⟩ := insert_of ht
  simp only [TimerQueue.addTimer, addTimerInLoop, hb, bind, Except.bind]
  cases erliest with
  | true =>
    simp only [if_true, deref, ht]
    exact ⟨_, rfl, hwf _⟩
  | false => exact ⟨_, rfl, hwf _⟩

theorem Inv.take (hi : Inv q batch) (he : e ∈ q.timers_) :
    Inv { q with
      timers_ := q.timers_.erase e
      activeTimers_ := q.activeTimers_.erase e.2 } (e :: batch) := by
  have hne : ∀ x ∈ q.timers_.erase e, x.2 ≠ e.2 := fun x hx h => by
    cases hi.entry_unique (List.mem_of_mem_erase hx) he h
    exact hi.nodup.not_mem_erase hx
  constructor
  case keys => exact fun x hx => hi.keys x (List.mem_of_mem_erase hx)
  case nodup => exact hi.nodup.erase e
  case held =>
    intro x hx
    rcases List.mem_cons.mp hx with rfl | hx
    · obtain ⟨t, ht, -⟩ := hi.keys x he
      refine ⟨ht ▸ rfl, fun hm => ?_⟩
      obtain ⟨y, hy, hyx⟩ := List.mem_map.mp hm
      exact hne y hy hyx
    · refine ⟨(hi.held x hx).1, fun hm => (hi.held x hx).2 ?_⟩
      obtain ⟨y, hy, hyx⟩ := List.mem_map.mp hm
      exact List.mem_map.mpr ⟨y, List.mem_of_mem_erase hy, hyx⟩
  case held_nodup =>
    refine List.nodup_cons.mpr ⟨fun hm => ?_, hi.held_nodup⟩
    obtain ⟨x, hx, hxe⟩ := List.mem_map.mp hm
    exact (hi.held x hx).2 (List.mem_map.mpr ⟨e, he, hxe.symm⟩)
  case owned =>
    intro a ha
    rcases hi.owned a ha with h | h
    · obtain ⟨x, hx, rfl⟩ := List.mem_map.mp h
      by_cases hxe : x = e
      · exact .inr (hxe ▸ List.mem_cons_self)
      · exact .inl (List.mem_map.mpr ⟨x, (List.mem_erase_of_ne hxe).mpr hx, rfl⟩)
    · exact .inr (List.mem_cons_of_mem _ h)
  case active =>
    exact fun x hx => (List.mem_erase_of_ne (hne x hx)).mpr (hi.active x (List.mem_of_mem_erase hx))
  case issued => exact hi.issued
  case unique => exact hi.unique
  case created => exact hi.created
  case gone => exact hi.gone
  case cancelled => exact hi.cancelled
  case final => exact hi.final

theorem Inv.cancel (hi : Inv q batch) (hid : timerid ∈ q.issued) (h : q.heap timerid.timer_ = none) :
    Inv { q with log := .cancelled timerid.sequence_ :: q.log } batch where
  keys := hi.keys
  nodup := hi.nodup
  held := hi.held
  held_nodup := hi.held_nodup
  owned := hi.owned
  active := hi.active
  issued := hi.issued
  unique := hi.unique
  created := hi.created
  gone seq hm a t ht hs := by
    rcases List.mem_cons.mp hm with hm | hm
    · cases hm
      cases hi.unique _ (hi.issued a t ht) timerid hid hs
      exact nomatch ht.symm.trans h
    · exact hi.gone seq hm a t ht hs
  cancelled seq hm := by
    rcases List.mem_cons.mp hm with hm | hm
    · cases hm
      exact hi.created timerid hid
    · exact hi.cancelled seq hm
  final := List.pairwise_cons.mpr ⟨fun _ _ _ _ => nofun, hi.final⟩

theorem WF.cancelInLoop (h : WF q)
    (hp : timerid.timer_ ∈ q.activeTimers_ → timerid.timer_ ∈ q.timers_.map Prod.snd) (clock : Int) :
    ∃ r, q.cancelInLoop timerid clock = .ok r ∧ WF r ∧ r.heap timerid.timer_ = none ∧
      r.issued = q.issued := by
  obtain ⟨a, seq⟩ := timerid
  simp only [TimerQueue.cancelInLoop] at hp ⊢
  split
  · rename_i ha
    obtain ⟨t, ht, he⟩ := h.inv.of_mem (hp ha)
    obtain ⟨x, l, hl⟩ := List.exists_cons_of_ne_nil (List.ne_nil_of_mem he)
    have htake := (h.inv.take he).delete
    have hact : ∀ y ∈ q.phase.batch, y.2 ∈ q.activeTimers_.erase a := by
      intro y hy
      have hya : y.2 ≠ a := fun hya => (h.inv.held y hy).2 (hya.symm ▸ hp ha)
      exact (List.mem_erase_of_ne hya).mpr (h.batch_active y hy)
    simp only [deref_of ht, hl, bind, Except.bind]
    split
    all_goals
      rw [delete_of (ht ▸ rfl)]
      exact ⟨_, rfl, ⟨hl ▸ htake.frame _ _ _ _, hact, h.next_held⟩, Function.update_self .., rfl⟩
  · rename_i ha
    have hgone : q.heap a = none := by
      by_contra hne
      refine ha ?_
      rcases h.inv.owned a (Option.isSome_iff_ne_none.mpr hne) with hm | hm
      all_goals obtain ⟨x, hx, rfl⟩ := List.mem_map.mp hm
      · exact h.inv.active x hx
      · exact h.batch_active x hx
    split
    · exact ⟨_, rfl, ⟨h.inv.frame _ _ _ _, h.batch_active, h.next_held⟩, hgone, rfl⟩
    · exact ⟨q, rfl, h, hgone, rfl⟩

theorem WF.cancel (h : WF q) (hid : timerid ∈ q.issued)
    (hp : timerid.timer_ ∈ q.activeTimers_ → timerid.timer_ ∈ q.timers_.map Prod.snd) (clock : Int) :
    ∃ r, q.cancel timerid clock = .ok r ∧ WF r := by
  obtain ⟨r, hr, hwf, hgone, hissued⟩ := h.cancelInLoop hp clock
  simp only [TimerQueue.cancel, hr, bind, Except.bind]
  exact ⟨_, rfl, hwf.inv.cancel (hissued ▸ hid) hgone, hwf.batch_active, hwf.next_held⟩

-- ---------------------------------------------------------------------------
-- Every run
-- ---------------------------------------------------------------------------

theorem WF.step (h : WF q) (hc : CancelsPending (.ok q) event) (hs : q.stepOk event = some s) :
    ∃ r, s = .ok r ∧ WF r := by
  cases event <;> simp only [stepOk, Option.ite_none_right_eq_some, Option.some.injEq] at hs
  case addTimer a when_ interval clock =>
    obtain ⟨⟨ha, -⟩, rfl⟩ := hs
    exact h.addTimer (Option.isNone_iff_eq_none.mp ha) when_ interval clock
  case cancel timerid clock =>
    obtain ⟨hid, rfl⟩ := hs
    exact h.cancel hid hc clock
  case handleRead now clock =>
    obtain ⟨hp, rfl⟩ := hs
    exact h.handleRead hp now clock
  case return_ clock =>
    obtain ⟨-, rfl⟩ := hs
    exact h.resume clock

theorem init_wf : WF init := ⟨init_inv, nofun, fun _ => id⟩

theorem reach_wf (h : Reach step CancelsPending (.ok init) s) : ∃ q, s = .ok q ∧ WF q := by
  refine h.invariant (I := fun s => ∃ q, s = .ok q ∧ WF q) ⟨init, rfl, init_wf⟩ ?_
  rintro _ e u ⟨q, rfl, hq⟩ hc hs
  exact hq.step hc hs

theorem timers_safe (h : Reach step CancelsPending (.ok init) s) : Safe s := by
  obtain ⟨q, rfl, hq⟩ := reach_wf h
  exact hq.inv.final

-- ---------------------------------------------------------------------------
-- Every other cancel
-- ---------------------------------------------------------------------------

theorem settle_heap (h : q.settle now x = .ok r) (hne : a ≠ x.2) : r.heap a = q.heap a := by
  cases ht : q.heap x.2 with
  | none => simp [settle, deref, ht, bind, Except.bind] at h
  | some t =>
    simp only [settle, deref_of ht, bind, Except.bind] at h
    split at h
    · obtain ⟨_, hins⟩ := insert_of (q := { q with heap := Function.update q.heap x.2 (some
        { t with expiration_ := now + t.interval_ }) }) (Function.update_self x.2 _ _)
      rw [hins] at h
      cases h
      exact Function.update_of_ne hne _ _
    · rw [delete_of (ht ▸ rfl)] at h
      cases h
      exact Function.update_of_ne hne _ _

theorem settle_faults (h : q.heap x.2 = none) : q.settle now x = .error (.useAfterFree x.2) := by
  simp [settle, deref, h, bind, Except.bind]

/-- The second loop reaches the deleted timer unless it faults before. -/
theorem sweep_faults (now : Int) (he : e ∈ batch) (h : q.heap e.2 = none) :
    ∃ f, batch.foldlM (fun q e => q.settle now e) q = .error f := by
  induction batch generalizing q with
  | nil => cases he
  | cons x batch ih =>
    rw [List.foldlM_cons]
    by_cases hx : e.2 = x.2
    · rw [settle_faults (hx ▸ h)]
      exact ⟨_, rfl⟩
    · have he' : e ∈ batch := (List.mem_cons.mp he).resolve_left fun hex => hx (hex ▸ rfl)
      cases hs : q.settle now x with
      | error f => exact ⟨f, rfl⟩
      | ok r => exact ih he' ((settle_heap hs hx).trans h)

/-- While `handleRead` holds a deleted timer, the returns of its callbacks lead to a fault. -/
theorem dangling_faults {expired next : List Entry} (hp : q.phase = .running now expired next)
    (he : e ∈ expired) (h : q.heap e.2 = none) :
    ∃ f, Reach step Always (.ok q) (.error f) := by
  have hstep : step (.ok q) (.return_ 0) = some (q.resume 0) := by simp [step, stepOk, hp]
  induction next generalizing q with
  | nil =>
    obtain ⟨f, hf⟩ := sweep_faults now he h
    refine ⟨f, .single (hstep.trans ?_)⟩
    simp [resume, hp, finish, hf, bind, Except.bind]
  | cons x next ih =>
    cases ht : q.heap x.2 with
    | none =>
      refine ⟨.useAfterFree x.2, .single (hstep.trans ?_)⟩
      simp [resume, hp, deref, ht, bind, Except.bind]
    | some t =>
      let r : TimerQueue :=
        { q with phase := .running now expired next, log := .ran now t.sequence_ :: q.log }
      have hr : q.resume 0 = .ok r := by
        simp only [resume, hp, deref_of ht, bind, Except.bind]
        rfl
      obtain ⟨f, hf⟩ := @ih r rfl h (by simp [step, stepOk, r])
      exact ⟨f, Reach.trans (.single (hr ▸ hstep)) hf⟩

/-- Any other cancel reads a deleted timer, or deletes one that `handleRead` still holds. -/
theorem cancel_faults (h : Reach step CancelsPending (.ok init) (.ok q)) (hid : timerid ∈ q.issued)
    (hc : ¬ CancelsPending (.ok q) (.cancel timerid clock)) :
    ∃ s, Reach step Always (.ok q) s ∧ ¬ Safe s := by
  obtain ⟨_, hq, hwf⟩ := reach_wf h
  cases hq
  obtain ⟨hact, hnot⟩ := Classical.not_imp.mp hc
  have hstep : step (.ok q) (.cancel timerid clock) = some (q.cancel timerid clock) :=
    if_pos hid
  simp only [cancel, cancelInLoop, if_pos hact, bind, Except.bind] at hstep
  cases ht : q.heap timerid.timer_ with
  | none =>
    simp only [deref, ht] at hstep
    exact ⟨_, .single hstep, id⟩
  | some t =>
    simp only [deref_of ht] at hstep
    cases hl : q.timers_ with
    | nil =>
      simp only [hl] at hstep
      exact ⟨_, .single hstep, id⟩
    | cons x l =>
      -- the timer is held by the batch, and is deleted all the same
      obtain ⟨e, he, hea⟩ := List.mem_map.mp ((hwf.inv.owned _ (ht ▸ rfl)).resolve_left hnot)
      have hne : (t.expiration_, timerid.timer_) ≠ x := fun hx =>
        hnot (List.mem_map.mpr ⟨x, hl ▸ List.mem_cons_self, hx ▸ rfl⟩)
      have hgone : ∃ r, step (.ok q) (.cancel timerid clock) = some (.ok r) ∧ r.phase = q.phase ∧
          r.heap timerid.timer_ = none := by
        simp only [hl, if_neg hne] at hstep
        rw [delete_of (ht ▸ rfl)] at hstep
        exact ⟨_, hstep, rfl, Function.update_self ..⟩
      obtain ⟨r, hr, hphase, hnone⟩ := hgone
      cases hp : q.phase with
      | idle => simp [hp, Phase.batch] at he
      | running now expired next =>
        rw [hp] at he hphase
        obtain ⟨f, hf⟩ := dangling_faults hphase he (hea ▸ hnone)
        exact ⟨.error f, Reach.trans (.single hr) hf, id⟩

-- ---------------------------------------------------------------------------
-- Runs
-- ---------------------------------------------------------------------------

/-- Two timers, one cancelled before it is due; the other runs, and its callback adds a
third at the address that became free. -/
def pendingRun : List Event :=
  [.addTimer 16 1000 0 0, .addTimer 32 2000 500 0, .cancel ⟨16, 1⟩ 10, .handleRead 2000 2000,
    .addTimer 16 9000 0 2010, .return_ 2020]

theorem timers_safe_pending :
    ∃ s, exec step CancelsPending (.ok init) pendingRun = some s ∧ Safe s := by
  have hrun : (exec step CancelsPending (.ok init) pendingRun).isSome := by decide
  obtain ⟨s, hs⟩ := Option.isSome_iff_exists.mp hrun
  exact ⟨s, hs, timers_safe (.of_exec hs)⟩

def selfCancel : List Event :=
  [.addTimer 16 1000 0 0, .addTimer 32 9000 0 0, .handleRead 1000 1000, .cancel ⟨16, 1⟩ 1010,
    .return_ 1020]

theorem not_timers_safe : ¬ ∀ s, Reach step Always (.ok init) s → Safe s := by
  intro h
  have hrun : exec step Always (.ok init) selfCancel = some (.error (.useAfterFree 16)) := by rfl
  exact h _ (.of_exec hrun)

end VortexNet.TimerQueue
