import VortexNet.Net.TimerSafety

/-!
# The two sets of a timer queue

`timers_` and `activeTimers_` are to hold the same timers, all of them alive.
`handleRead` breaks this when it deletes a timer, because the address stays in
`activeTimers_`; so it has to be left with repeating timers only. `cancelInLoop`
compares addresses and not sequence numbers: the id of a timer that is gone hits
the timer that now has its address, and after the first `handleRead` it leaves
its address in `cancelingTimers_`.
-/

namespace VortexNet.TimerQueue

open Systems (Reach Always exec)

/-- Both sets hold the same timers, which exist and expire at their keys. -/
structure Agrees (q : TimerQueue) : Prop where
  same : ∀ a, a ∈ q.timers_.map Prod.snd ↔ a ∈ q.activeTimers_
  live : ∀ a ∈ q.activeTimers_, (q.heap a).isSome
  keys : ∀ e ∈ q.timers_, ∃ t, q.heap e.2 = some t ∧ t.expiration_ = e.1

/-- The timer that the id was given for is deleted. -/
def Gone (q : TimerQueue) (timerid : TimerId) : Prop :=
  (q.heap timerid.timer_).map Timer.sequence_ ≠ some timerid.sequence_

instance (q : TimerQueue) (timerid : TimerId) : Decidable (Gone q timerid) :=
  inferInstanceAs (Decidable (_ ≠ _))

/-- Only repeating timers expire. A cancel names a timer that is in the set, or one that is
gone while its address is not in use again and no `handleRead` has begun yet. -/
def KeepsAgreement : Except Fault TimerQueue → Event → Prop
  | .ok q, .cancel timerid _ =>
    if Gone q timerid then timerid.timer_ ∉ q.activeTimers_ ∧ q.callingExpiredTimers_ = false
    else timerid.timer_ ∈ q.timers_.map Prod.snd
  | .ok q, .handleRead now _ =>
    ∀ e ∈ (q.getExpired now).1, (q.heap e.2).all (·.repeat_) = true
  | _, _ => True

structure Steady (q : TimerQueue) (batch : List Entry) : Prop where
  owned : ∀ a ∈ q.activeTimers_, a ∈ q.timers_.map Prod.snd ∨ a ∈ batch.map Prod.snd
  nodup : q.activeTimers_.Nodup
  repeats : ∀ e ∈ batch, (q.heap e.2).all (·.repeat_) = true
  canceling : q.cancelingTimers_ = []

variable {q r : TimerQueue} {batch : List Entry} {e x : Entry} {a : Nat} {t : Timer}
  {l : List Entry} {now clock : Int} {timerid : TimerId} {event : Event}
  {s : Except Fault TimerQueue}

theorem mem_map_setInsert : a ∈ (setInsert e l).map Prod.snd ↔ a = e.2 ∨ a ∈ l.map Prod.snd := by
  simp [mem_setInsert, or_and_right, exists_or, eq_comm]

theorem CancelsPending.of_keeps (h : KeepsAgreement s event) : CancelsPending s event := by
  cases s with
  | error f => trivial
  | ok q =>
    cases event with
    | cancel timerid clock =>
      simp only [KeepsAgreement] at h
      intro hact
      split at h
      · exact absurd hact h.1
      · exact h
    | _ => trivial

-- ---------------------------------------------------------------------------
-- handleRead
-- ---------------------------------------------------------------------------

theorem Steady.insert {left : List Entry} (h : Steady q batch) (expiration : Int) (a : Nat)
    (hsub : ∀ x ∈ left, x ∈ batch) (hkept : ∀ x ∈ batch, x.2 = a ∨ x ∈ left) :
    Steady { q with
      timers_ := setInsert (expiration, a) q.timers_
      activeTimers_ := q.activeTimers_.insert a } left where
  owned b hb := by
    refine Or.imp_left mem_map_setInsert.mpr ?_
    rcases List.mem_insert_iff.mp hb with rfl | hb
    · exact .inl (.inl rfl)
    · rcases h.owned b hb with hb | hb
      · exact .inl (.inr hb)
      · obtain ⟨x, hx, rfl⟩ := List.mem_map.mp hb
        exact (hkept x hx).imp .inl fun hx => List.mem_map_of_mem hx
  nodup := h.nodup.insert
  repeats x hx := h.repeats x (hsub x hx)
  canceling := h.canceling

theorem Steady.restart (h : Steady q batch) (ht : q.heap a = some t) (expiration : Int) :
    Steady { q with heap := Function.update q.heap a (some { t with expiration_ := expiration }) }
      batch where
  owned := h.owned
  nodup := h.nodup
  repeats x hx := by
    have hrep := h.repeats x hx
    dsimp only
    by_cases hxa : x.2 = a
    · rw [hxa, ht] at hrep
      rw [hxa, Function.update_self]
      exact hrep
    · rwa [Function.update_of_ne hxa]
  canceling := h.canceling

theorem Steady.frame (h : Steady q batch) (w : Option Int) (b : Bool) (p : Phase) (log : List Log) :
    Steady { q with timerfd_ := w, callingExpiredTimers_ := b, phase := p, log := log } batch :=
  ⟨h.owned, h.nodup, h.repeats, h.canceling⟩

theorem Steady.settle (h : Steady q (e :: batch)) (hr : q.settle now e = .ok r) :
    Steady r batch := by
  cases ht : q.heap e.2 with
  | none => simp [TimerQueue.settle, deref, ht, bind, Except.bind] at hr
  | some t =>
    have hrep : t.repeat_ = true := by simpa [ht] using h.repeats e List.mem_cons_self
    have hagain : (t.repeat_ && decide (e.2 ∉ q.cancelingTimers_)) = true := by
      simp [hrep, h.canceling]
    simp only [TimerQueue.settle, deref_of ht, bind, Except.bind, if_pos hagain] at hr
    have hself := Function.update_self e.2 (some { t with expiration_ := now + t.interval_ }) q.heap
    obtain ⟨_, hins⟩ := insert_of (q := { q with heap := Function.update q.heap e.2 (some
      { t with expiration_ := now + t.interval_ }) }) hself
    rw [hins] at hr
    cases hr
    exact (h.restart ht _).insert _ _ (fun _ => List.mem_cons_of_mem _)
      fun x hx => (List.mem_cons.mp hx).imp_left (congrArg Prod.snd)

theorem Steady.sweep (h : Steady q batch)
    (hr : batch.foldlM (fun q e => q.settle now e) q = .ok r) : Steady r [] := by
  induction batch generalizing q with
  | nil =>
    cases hr
    exact h
  | cons e batch ih =>
    rw [List.foldlM_cons] at hr
    cases hs : q.settle now e with
    | error f =>
      rw [hs] at hr
      cases hr
    | ok q' =>
      rw [hs] at hr
      exact ih (h.settle hs) hr

theorem Steady.finish (h : Steady q batch) (hr : q.finish now clock batch = .ok r) :
    Steady r [] ∧ r.phase = .idle := by
  cases hs : batch.foldlM (fun q e => q.settle now e) q with
  | error f => simp [TimerQueue.finish, hs, bind, Except.bind] at hr
  | ok q' =>
    have hq := h.sweep hs
    have hdone : Steady { q' with cancelingTimers_ := [], phase := .idle } [] :=
      ⟨hq.owned, hq.nodup, hq.repeats, rfl⟩
    simp only [TimerQueue.finish, hs, bind, Except.bind] at hr
    split at hr
    · cases hr
      exact ⟨hdone, rfl⟩
    · rename_i e l heq
      cases ht : q'.heap e.2 with
      | none =>
        rw [deref, ht] at hr
        cases hr
      | some t =>
        rw [deref, ht] at hr
        cases hr
        exact ⟨hdone.frame .., rfl⟩

theorem Steady.resume (h : Steady q q.phase.batch) (hr : q.resume clock = .ok r) :
    Steady r r.phase.batch := by
  rw [TimerQueue.resume] at hr
  cases hp : q.phase with
  | idle =>
    rw [hp] at hr
    cases hr
    exact h
  | running now expired next =>
    rw [hp] at h hr
    cases next with
    | nil =>
      obtain ⟨hsteady, hidle⟩ := h.finish hr
      rwa [hidle]
    | cons e next =>
      cases ht : q.heap e.2 with
      | none => simp [deref, ht, bind, Except.bind] at hr
      | some t =>
        simp only [deref_of ht, bind, Except.bind] at hr
        cases hr
        exact h.frame ..

theorem foldl_insert_nodup {s : List Nat} (h : s.Nodup) :
    (l.foldl (fun s e => s.insert e.2) s).Nodup := by
  induction l generalizing s with
  | nil => exact h
  | cons e l ih => exact ih h.insert

theorem mem_of_foldl_insert {s : List Nat} (h : a ∈ l.foldl (fun s e => s.insert e.2) s) :
    a ∈ s ∨ a ∈ l.map Prod.snd := by
  induction l generalizing s with
  | nil => exact .inl h
  | cons e l ih =>
    rcases ih h with h | h
    · rcases List.mem_insert_iff.mp h with rfl | h
      · exact .inr List.mem_cons_self
      · exact .inl h
    · exact .inr (List.mem_cons_of_mem _ h)

theorem Steady.getExpired (h : Steady q []) (hrep : ∀ e ∈ (q.getExpired now).1,
    (q.heap e.2).all (·.repeat_) = true) : Steady (q.getExpired now).2 (q.getExpired now).1 where
  owned a ha := by
    rcases mem_of_foldl_insert ha with ha | ha
    · have htimers := (h.owned a ha).resolve_right List.not_mem_nil
      have hsplit : q.timers_.takeWhile (entryLt · (now, UINTPTR_MAX)) ++
          q.timers_.dropWhile (entryLt · (now, UINTPTR_MAX)) = q.timers_ :=
        List.takeWhile_append_dropWhile
      rw [← hsplit, List.map_append, List.mem_append] at htimers
      exact htimers.symm
    · exact .inr ha
  nodup := foldl_insert_nodup h.nodup
  repeats := hrep
  canceling := h.canceling

theorem Steady.handleRead (h : Steady q []) (hrep : ∀ e ∈ (q.getExpired now).1,
    (q.heap e.2).all (·.repeat_) = true) (hr : q.handleRead now clock = .ok r) :
    Steady r r.phase.batch := by
  have hg := (h.frame (q.timerfd_.filter (now < ·)) q.callingExpiredTimers_ q.phase q.log).getExpired
    hrep
  exact Steady.resume (hg.frame _ true (.running now _ _) _) hr

-- ---------------------------------------------------------------------------
-- addTimer and cancel
-- ---------------------------------------------------------------------------

theorem Steady.newTimer (h : Steady q batch) (ha : q.heap a = none)
    (hlive : ∀ x ∈ batch, (q.heap x.2).isSome) (when_ : Int) (interval : Nat) :
    Steady (q.newTimer a when_ interval) batch where
  owned := h.owned
  nodup := h.nodup
  repeats x hx := by
    have hxa : x.2 ≠ a := by
      rintro rfl
      exact absurd (hlive x hx) (by simp [ha])
    have hsame : (q.newTimer a when_ interval).heap x.2 = q.heap x.2 := Function.update_of_ne hxa ..
    rw [hsame]
    exact h.repeats x hx
  canceling := h.canceling

theorem Steady.addTimer (h : Steady q batch) (ha : q.heap a = none)
    (hlive : ∀ x ∈ batch, (q.heap x.2).isSome) {when_ : Int} {interval : Nat}
    (hr : q.addTimer a when_ interval clock = .ok r) : Steady r batch ∧ r.phase = q.phase := by
  have ht : (q.newTimer a when_ interval).heap a = some ⟨when_, interval, q.num_created + 1⟩ :=
    Function.update_self ..
  have hins := (h.newTimer ha hlive when_ interval).insert when_ a (fun _ => id) fun _ => .inr
  obtain ⟨erliest, heq⟩ := insert_of ht
  simp only [TimerQueue.addTimer, addTimerInLoop, heq, bind, Except.bind] at hr
  cases erliest with
  | true =>
    simp only [if_true, deref, ht] at hr
    cases hr
    exact ⟨hins.frame .., rfl⟩
  | false =>
    cases hr
    exact ⟨hins, rfl⟩

theorem Steady.erase (h : Steady q batch) (hi : Inv q batch) (he : e ∈ q.timers_) :
    Steady { q with
      heap := Function.update q.heap e.2 none
      timers_ := q.timers_.erase e
      activeTimers_ := q.activeTimers_.erase e.2 } batch where
  owned b hb := by
    obtain ⟨hne, hb⟩ := h.nodup.mem_erase_iff.mp hb
    refine (h.owned b hb).imp_left fun hb => ?_
    obtain ⟨x, hx, rfl⟩ := List.mem_map.mp hb
    exact List.mem_map_of_mem ((List.mem_erase_of_ne fun hxe => hne (congrArg Prod.snd hxe)).mpr hx)
  nodup := h.nodup.erase _
  repeats x hx := by
    have hne : x.2 ≠ e.2 := fun heq =>
      (hi.held x hx).2 (List.mem_map.mpr ⟨e, he, heq.symm⟩)
    dsimp only
    rw [Function.update_of_ne hne]
    exact h.repeats x hx
  canceling := h.canceling

theorem Inv.cancelInLoop_pending (hi : Inv q batch) (hact : timerid.timer_ ∈ q.activeTimers_)
    (hp : timerid.timer_ ∈ q.timers_.map Prod.snd) (clock : Int) :
    ∃ e ∈ q.timers_, ∃ w, e.2 = timerid.timer_ ∧ q.cancelInLoop timerid clock = .ok { q with
      heap := Function.update q.heap e.2 none
      timers_ := q.timers_.erase e
      activeTimers_ := q.activeTimers_.erase e.2
      timerfd_ := w } := by
  obtain ⟨t, ht, he⟩ := hi.of_mem hp
  obtain ⟨x, l, hl⟩ := List.exists_cons_of_ne_nil (List.ne_nil_of_mem he)
  refine ⟨_, he, ?_⟩
  simp only [cancelInLoop, if_pos hact, deref_of ht, hl, bind, Except.bind]
  split
  · rw [delete_of (ht ▸ rfl)]
    exact ⟨(q.resetTimerfd x.1 clock).timerfd_, trivial, by rw [← hl]; rfl⟩
  · rw [delete_of (ht ▸ rfl)]
    exact ⟨q.timerfd_, trivial, by rw [← hl]⟩

theorem cancelInLoop_gone (hact : timerid.timer_ ∉ q.activeTimers_)
    (hcalling : q.callingExpiredTimers_ = false) (clock : Int) :
    q.cancelInLoop timerid clock = .ok q := by
  simp only [cancelInLoop, if_neg hact, hcalling, Bool.false_eq_true, if_false]
  rfl

theorem Steady.cancel (h : Steady q batch) (hi : Inv q batch)
    (hc : KeepsAgreement (.ok q) (.cancel timerid clock)) (hr : q.cancel timerid clock = .ok r) :
    Steady r batch ∧ r.phase = q.phase := by
  simp only [KeepsAgreement] at hc
  simp only [TimerQueue.cancel, bind, Except.bind] at hr
  split at hc
  · rw [cancelInLoop_gone hc.1 hc.2] at hr
    cases hr
    exact ⟨h.frame .., rfl⟩
  · obtain ⟨e', he', heq⟩ := List.mem_map.mp hc
    obtain ⟨e, he, w, -, hcancel⟩ := hi.cancelInLoop_pending (heq ▸ hi.active e' he') hc clock
    rw [hcancel] at hr
    cases hr
    exact ⟨(h.erase hi he).frame .., rfl⟩

-- ---------------------------------------------------------------------------
-- Every run
-- ---------------------------------------------------------------------------

theorem Steady.step (h : Steady q q.phase.batch) (hwf : WF q) (hc : KeepsAgreement (.ok q) event)
    (hs : q.stepOk event = some (.ok r)) : Steady r r.phase.batch := by
  cases event <;> simp only [stepOk, Option.ite_none_right_eq_some, Option.some.injEq] at hs
  case addTimer a when_ interval clock =>
    obtain ⟨⟨ha, -⟩, hs⟩ := hs
    obtain ⟨hsteady, hphase⟩ := h.addTimer (Option.isNone_iff_eq_none.mp ha)
      (fun x hx => (hwf.inv.held x hx).1) hs
    rwa [hphase]
  case cancel timerid clock =>
    obtain ⟨-, hs⟩ := hs
    obtain ⟨hsteady, hphase⟩ := h.cancel hwf.inv hc hs
    rwa [hphase]
  case handleRead now clock =>
    obtain ⟨hp, hs⟩ := hs
    rw [hp] at h
    exact h.handleRead hc hs
  case return_ clock =>
    obtain ⟨-, hs⟩ := hs
    exact h.resume hs

theorem reach_steady (h : Reach step KeepsAgreement (.ok init) s) :
    ∃ q, s = .ok q ∧ WF q ∧ Steady q q.phase.batch := by
  refine h.invariant (I := fun s => ∃ q, s = .ok q ∧ WF q ∧ Steady q q.phase.batch)
    ⟨init, rfl, init_wf, ⟨nofun, .nil, nofun, rfl⟩⟩ ?_
  rintro _ e u ⟨q, rfl, hwf, hsteady⟩ hc hs
  obtain ⟨r, rfl, hwf'⟩ := hwf.step (.of_keeps hc) hs
  exact ⟨r, rfl, hwf', hsteady.step hwf hc hs⟩

theorem Steady.agrees (h : Steady q []) (hi : Inv q []) : Agrees q where
  same a := by
    constructor
    · intro ha
      obtain ⟨e, he, rfl⟩ := List.mem_map.mp ha
      exact hi.active e he
    · exact fun ha => (h.owned a ha).resolve_right List.not_mem_nil
  live a ha := by
    obtain ⟨t, ht, -⟩ := hi.of_mem ((h.owned a ha).resolve_right List.not_mem_nil)
    exact ht ▸ rfl
  keys := hi.keys

theorem cancelInLoop_active (hact : timerid.timer_ ∈ q.activeTimers_)
    (hr : q.cancelInLoop timerid clock = .ok r) : r.heap timerid.timer_ = none := by
  simp only [cancelInLoop, if_pos hact, bind, Except.bind] at hr
  cases ht : q.heap timerid.timer_ with
  | none =>
    rw [deref, ht] at hr
    cases hr
  | some t =>
    rw [deref_of ht] at hr
    cases hl : q.timers_ with
    | nil =>
      rw [hl] at hr
      cases hr
    | cons x l =>
      simp only [hl] at hr
      split at hr
      all_goals
        rw [delete_of (ht ▸ rfl)] at hr
        cases hr
        exact Function.update_self ..

/-- A cancel of an id whose timer is gone does nothing exactly where it keeps the agreement. -/
theorem WF.cancel_gone_iff (hwf : WF q) (h : Steady q q.phase.batch) (hgone : Gone q timerid) :
    q.cancelInLoop timerid clock = .ok q ↔ KeepsAgreement (.ok q) (.cancel timerid clock) := by
  simp only [KeepsAgreement, if_pos hgone]
  constructor
  · intro hsame
    have hact : timerid.timer_ ∉ q.activeTimers_ := by
      intro hact
      have hnone := cancelInLoop_active hact hsame
      rcases h.owned _ hact with hp | hp
      · obtain ⟨t, ht, -⟩ := hwf.inv.of_mem hp
        exact nomatch ht.symm.trans hnone
      · obtain ⟨e, he, heq⟩ := List.mem_map.mp hp
        have hlive := (hwf.inv.held e he).1
        rw [heq, hnone] at hlive
        cases hlive
    refine ⟨hact, ?_⟩
    by_contra hcalling
    rw [Bool.not_eq_false] at hcalling
    simp only [TimerQueue.cancelInLoop, if_neg hact, hcalling, if_true] at hsame
    have hcanceling := congrArg cancelingTimers_ (Except.ok.inj hsame)
    rw [h.canceling] at hcanceling
    cases hcanceling
  · exact fun hc => cancelInLoop_gone hc.1 hc.2 clock

theorem timers_agree (h : Reach step KeepsAgreement (.ok init) s) : ∃ q, s = .ok q ∧
    (q.phase = .idle → Agrees q) ∧ ∀ timerid, Gone q timerid → ∀ clock,
      (q.cancelInLoop timerid clock = .ok q ↔ KeepsAgreement (.ok q) (.cancel timerid clock)) := by
  obtain ⟨q, rfl, hwf, hsteady⟩ := reach_steady h
  refine ⟨q, rfl, fun hidle => ?_, fun timerid hgone clock => hwf.cancel_gone_iff hsteady hgone⟩
  have hi := hwf.inv
  rw [hidle] at hi hsteady
  exact hsteady.agrees hi

instance : ∀ s event, Decidable (KeepsAgreement s event)
  | .ok q, .cancel timerid _ => inferInstanceAs (Decidable
      (if Gone q timerid then timerid.timer_ ∉ q.activeTimers_ ∧ q.callingExpiredTimers_ = false
      else timerid.timer_ ∈ q.timers_.map Prod.snd))
  | .ok q, .handleRead now _ => inferInstanceAs (Decidable
      (∀ e ∈ (q.getExpired now).1, (q.heap e.2).all (·.repeat_) = true))
  | .ok _, .addTimer .. => .isTrue trivial
  | .ok _, .return_ _ => .isTrue trivial
  | .error _, _ => .isTrue trivial

/-- Of two timers one is cancelled, and its id is used once more; the other one repeats, and
from its callback a third is added. -/
def repeatingRun : List Event :=
  [.addTimer 16 1000 500 0, .addTimer 32 2000 0 0, .cancel ⟨32, 2⟩ 10, .cancel ⟨32, 2⟩ 20,
    .handleRead 1000 1000, .addTimer 48 9000 0 1010, .return_ 1020, .cancel ⟨48, 3⟩ 1030]

theorem timers_agree_repeating :
    ∃ q, exec step KeepsAgreement (.ok init) repeatingRun = some (.ok q) ∧
      q.timers_ = [(1500, 16)] ∧ Agrees q := by
  have hrun : (exec step KeepsAgreement (.ok init) repeatingRun).any (fun s =>
      s.toOption.any fun q => q.timers_ = [(1500, 16)] ∧ q.phase = .idle) = true := by decide
  obtain ⟨s, hs, hall⟩ := (Option.any_eq_true _ _).mp hrun
  obtain ⟨q, rfl, hagrees, -⟩ := timers_agree (.of_exec hs)
  obtain ⟨htimers, hidle⟩ := of_decide_eq_true hall
  exact ⟨q, hs, htimers, hagrees hidle⟩

def oneShotRun : List Event := [.addTimer 16 1000 0 0, .handleRead 1000 1000, .return_ 1000]

def recycledRun : List Event :=
  [.addTimer 16 1000 0 0, .cancel ⟨16, 1⟩ 10, .addTimer 16 9000 500 20]

/-- The address of the deleted timer stays in `activeTimers_`, and the id of the first timer
deletes the second one. -/
theorem not_timers_agree :
    (¬ ∀ s, Reach step Always (.ok init) s → ∃ q, s = .ok q ∧ (q.phase = .idle → Agrees q)) ∧
    ¬ ∀ s, Reach step Always (.ok init) s → ∃ q, s = .ok q ∧
      ∀ timerid ∈ q.issued, Gone q timerid → ∀ clock, q.cancelInLoop timerid clock = .ok q := by
  constructor
  · intro h
    have hrun : (exec step Always (.ok init) oneShotRun).any (fun s =>
        s.toOption.any fun q => q.timers_ = [] ∧ q.activeTimers_ = [16] ∧ q.phase = .idle) =
          true := by decide
    obtain ⟨s, hs, hall⟩ := (Option.any_eq_true _ _).mp hrun
    obtain ⟨q, rfl, hagrees⟩ := h s (.of_exec hs)
    obtain ⟨htimers, hactive, hidle⟩ := of_decide_eq_true hall
    have hmem := ((hagrees hidle).same 16).mpr (by rw [hactive]; exact List.mem_cons_self)
    rw [htimers] at hmem
    cases hmem
  · intro h
    have hrun : (exec step Always (.ok init) recycledRun).any (fun s => s.toOption.any
        fun q => q.activeTimers_ = [16] ∧ q.heap 16 = some ⟨9000, 500, 2⟩ ∧ ⟨16, 1⟩ ∈ q.issued) =
          true := by decide
    obtain ⟨s, hs, hall⟩ := (Option.any_eq_true _ _).mp hrun
    obtain ⟨q, rfl, hsame⟩ := h s (.of_exec hs)
    obtain ⟨hactive, hheap, hissued⟩ := of_decide_eq_true hall
    have hgone : Gone q ⟨16, 1⟩ := by simp [Gone, hheap]
    have hnone := cancelInLoop_active (by rw [hactive]; exact List.mem_cons_self)
      (hsame ⟨16, 1⟩ hissued hgone 30)
    rw [hheap] at hnone
    cases hnone

end VortexNet.TimerQueue
