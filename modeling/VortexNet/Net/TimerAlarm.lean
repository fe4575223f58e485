import VortexNet.Net.TimerSafety

/-!
# The kernel alarm

The alarm is set in three places: when an inserted timer is the earliest, when
the first entry is cancelled (for that entry's own time, which the entries after
it are not before), and at the end of `handleRead`. In between the events of the
loop it is never later than the first entry needs, or the 100 microseconds that
`resetTimerfd` keeps from the clock.
-/

namespace VortexNet.TimerQueue

open Systems (Reach Always exec)

def ByTime (l : List Entry) : Prop := l.Pairwise (·.1 ≤ ·.1)

/-- Whether `insert` finds a timer with this expiration to be the earliest. -/
def earliest (q : TimerQueue) (when_ : Int) : Bool := q.timers_.head?.all (when_ < ·.1)

def alarmAt (expiration clock : Int) : Int := clock + max (expiration - clock) 100

variable {q r : TimerQueue} {batch l : List Entry} {e : Entry} {a : Nat} {t : Timer}
  {now clock when_ : Int} {interval : Nat} {timerid : TimerId} {event : Event}

-- ---------------------------------------------------------------------------
-- The order of the entries
-- ---------------------------------------------------------------------------

theorem ByTime.setInsert (h : ByTime l) (e : Entry) : ByTime (setInsert e l) := by
  induction l with
  | nil => exact List.pairwise_singleton _ _
  | cons x l ih =>
    obtain ⟨hx, hl⟩ := List.pairwise_cons.mp h
    simp only [TimerQueue.setInsert]
    split
    · rename_i hlt
      have hex : e.1 ≤ x.1 := by
        simp only [entryLt, decide_eq_true_eq] at hlt
        omega
      refine List.pairwise_cons.mpr ⟨fun y hy => ?_, h⟩
      rcases List.mem_cons.mp hy with rfl | hy
      · exact hex
      · exact Int.le_trans hex (hx y hy)
    · split
      · rename_i hlt
        have hxe : x.1 ≤ e.1 := by
          simp only [entryLt, decide_eq_true_eq] at hlt
          omega
        refine List.pairwise_cons.mpr ⟨fun y hy => ?_, ih hl⟩
        rcases mem_setInsert.mp hy with rfl | hy
        · exact hxe
        · exact hx y hy
      · exact h

-- ---------------------------------------------------------------------------
-- What each function does to the entries and the alarm
-- ---------------------------------------------------------------------------

theorem insert_eq (h : q.heap a = some t) :
    q.insert a = .ok ({ q with
      timers_ := setInsert (t.expiration_, a) q.timers_
      activeTimers_ := q.activeTimers_.insert a }, q.earliest t.expiration_) := by
  simp only [TimerQueue.insert, deref_of h, bind, Except.bind, pure, Except.pure, earliest]
  cases q.timers_ <;> rfl

theorem addTimer_eq (q : TimerQueue) (a : Nat) (when_ : Int) (interval : Nat) (clock : Int) :
    q.addTimer a when_ interval clock = .ok { q.newTimer a when_ interval with
      timers_ := setInsert (when_, a) q.timers_
      activeTimers_ := q.activeTimers_.insert a
      timerfd_ := if q.earliest when_ then some (alarmAt when_ clock) else q.timerfd_ } := by
  have ht : (q.newTimer a when_ interval).heap a = some ⟨when_, interval, q.num_created + 1⟩ :=
    Function.update_self ..
  have hearliest : (q.newTimer a when_ interval).earliest when_ = q.earliest when_ := rfl
  simp only [addTimer, addTimerInLoop, insert_eq ht, bind, Except.bind, hearliest]
  cases q.earliest when_ with
  | true =>
    simp only [if_true, deref, ht]
    rfl
  | false => rfl

theorem cancel_alarm (h : WF q)
    (hp : timerid.timer_ ∈ q.activeTimers_ → timerid.timer_ ∈ q.timers_.map Prod.snd)
    (hr : q.cancel timerid clock = .ok r) : r.phase = q.phase ∧
    (timerid.timer_ ∉ q.activeTimers_ ∧ r.timers_ = q.timers_ ∧ r.timerfd_ = q.timerfd_ ∨
      timerid.timer_ ∈ q.activeTimers_ ∧ ∃ t e rest, q.heap timerid.timer_ = some t ∧
        q.timers_ = e :: rest ∧ r.timers_ = q.timers_.erase (t.expiration_, timerid.timer_) ∧
        r.timerfd_ = if (t.expiration_, timerid.timer_) = e then some (alarmAt e.1 clock)
          else q.timerfd_) := by
  simp only [TimerQueue.cancel, TimerQueue.cancelInLoop] at hr
  by_cases hact : timerid.timer_ ∈ q.activeTimers_
  · obtain ⟨t, ht, he⟩ := h.inv.of_mem (hp hact)
    obtain ⟨e, rest, hl⟩ := List.exists_cons_of_ne_nil (List.ne_nil_of_mem he)
    simp only [if_pos hact, deref_of ht, hl, bind, Except.bind, pure, Except.pure] at hr
    split at hr
    · cases hr
    · rename_i r₁ hdel
      cases hr
      split at hdel
      · rename_i hfirst
        rw [delete_of (ht ▸ rfl)] at hdel
        cases hdel
        exact ⟨rfl, .inr ⟨hact, t, e, rest, ht, hl, hl.symm ▸ rfl, (if_pos hfirst).symm⟩⟩
      · rename_i hfirst
        rw [delete_of (ht ▸ rfl)] at hdel
        cases hdel
        exact ⟨rfl, .inr ⟨hact, t, e, rest, ht, hl, hl.symm ▸ rfl, (if_neg hfirst).symm⟩⟩
  · simp only [if_neg hact, bind, Except.bind, pure, Except.pure] at hr
    split at hr
    · cases hr
    · rename_i r₁ hsame
      cases hr
      split at hsame
      · cases hsame
        exact ⟨rfl, .inl ⟨hact, rfl, rfl⟩⟩
      · cases hsame
        exact ⟨rfl, .inl ⟨hact, rfl, rfl⟩⟩

theorem settle_cases (h : q.settle now e = .ok r) : ∃ t, q.heap e.2 = some t ∧
    (t.repeat_ = true ∧ e.2 ∉ q.cancelingTimers_ ∧ r = { q with
        heap := Function.update q.heap e.2 (some { t with expiration_ := now + t.interval_ })
        timers_ := setInsert (now + t.interval_, e.2) q.timers_
        activeTimers_ := q.activeTimers_.insert e.2 } ∨
      (t.repeat_ = false ∨ e.2 ∈ q.cancelingTimers_) ∧
        r = { q with heap := Function.update q.heap e.2 none }) := by
  cases ht : q.heap e.2 with
  | none => simp [TimerQueue.settle, deref, ht, bind, Except.bind] at h
  | some t =>
    refine ⟨t, rfl, ?_⟩
    simp only [TimerQueue.settle, deref_of ht, bind, Except.bind, pure, Except.pure] at h
    split at h
    · rename_i hrepeat
      simp only [Bool.and_eq_true, decide_eq_true_eq] at hrepeat
      rw [insert_eq (Function.update_self ..)] at h
      cases h
      exact .inl ⟨hrepeat.1, hrepeat.2, rfl⟩
    · rename_i hrepeat
      rw [delete_of (ht ▸ rfl)] at h
      cases h
      refine .inr ⟨?_, rfl⟩
      by_cases hr : t.repeat_ = true
      · exact .inr (by simpa [hr] using hrepeat)
      · exact .inl (by simpa using hr)

theorem settle_byTime (hb : ByTime q.timers_) (h : q.settle now e = .ok r) : ByTime r.timers_ := by
  obtain ⟨t, -, ⟨-, -, rfl⟩ | ⟨-, rfl⟩⟩ := settle_cases h
  · exact hb.setInsert _
  · exact hb

theorem sweep_byTime (hb : ByTime q.timers_)
    (h : batch.foldlM (fun q e => q.settle now e) q = .ok r) : ByTime r.timers_ := by
  induction batch generalizing q with
  | nil =>
    cases h
    exact hb
  | cons e batch ih =>
    rw [List.foldlM_cons] at h
    cases hs : q.settle now e with
    | error f =>
      rw [hs] at h
      cases h
    | ok q₁ =>
      rw [hs] at h
      exact ih (settle_byTime hb hs) h

theorem finish_alarm (hi : Inv q batch) (hb : ByTime q.timers_)
    (h : q.finish now clock batch = .ok r) : r.phase = .idle ∧ ByTime r.timers_ ∧
      ∀ e rest, r.timers_ = e :: rest → r.timerfd_ = some (alarmAt e.1 clock) := by
  obtain ⟨q₁, hsweep, hi₁, -⟩ := hi.sweep now
  have hb₁ := sweep_byTime hb hsweep
  simp only [TimerQueue.finish, hsweep, bind, Except.bind, pure, Except.pure] at h
  split at h
  · rename_i hnil
    cases h
    exact ⟨rfl, hb₁, fun e rest hcons => by rw [hnil] at hcons; cases hcons⟩
  · rename_i e l hcons
    obtain ⟨t, ht, hkey⟩ := (hi₁.frame [] q₁.callingExpiredTimers_ q₁.timerfd_ .idle).keys e
      (hcons ▸ List.mem_cons_self)
    simp only [deref_of ht, hkey] at h
    cases h
    refine ⟨rfl, hb₁, fun e' rest hcons' => ?_⟩
    cases hcons.symm.trans hcons'
    rfl

theorem resume_alarm (h : WF q) (hp : q.phase ≠ .idle) (hb : ByTime q.timers_)
    (hr : q.resume clock = .ok r) : ByTime r.timers_ ∧
      (r.phase = .idle → ∀ e rest, r.timers_ = e :: rest → r.timerfd_ = some (alarmAt e.1 clock)) := by
  have hi := h.inv
  rw [TimerQueue.resume] at hr
  cases hphase : q.phase with
  | idle => exact absurd hphase hp
  | running now expired next =>
    rw [hphase] at hi hr
    cases next with
    | nil =>
      obtain ⟨-, hb', halarm⟩ := finish_alarm hi hb hr
      exact ⟨hb', fun _ => halarm⟩
    | cons e next =>
      simp only [bind, Except.bind, pure, Except.pure] at hr
      split at hr
      · cases hr
      · cases hr
        exact ⟨hb, fun hidle => by cases hidle⟩

theorem getExpired_byTime (hb : ByTime q.timers_) : ByTime (q.getExpired now).2.timers_ :=
  hb.sublist (List.dropWhile_sublist _)

-- ---------------------------------------------------------------------------
-- Every run
-- ---------------------------------------------------------------------------

/-- The clock at the `resetTimerfd` of a step from `q` to `r`: after an insertion before all
entries, in a cancel of the first entry, and at the end of a `handleRead` that leaves entries. -/
def armedBy (q r : TimerQueue) : Event → Option Int
  | .addTimer _ when_ _ clock => if q.earliest when_ then some clock else none
  | .cancel timerid clock =>
    if timerid.timer_ ∈ q.activeTimers_ ∧
        (q.heap timerid.timer_).map (fun t => (t.expiration_, timerid.timer_)) = q.timers_.head? then
      some clock
    else none
  | .handleRead _ clock | .return_ clock =>
    if r.phase = .idle ∧ r.timers_ ≠ [] then some clock else none

/-- A queue and the clock when its alarm was last set. -/
structure Alarm where
  queue : Except Fault TimerQueue
  armed : Option Int

def Alarm.step (s : Alarm) (event : Event) : Option Alarm :=
  (TimerQueue.step s.queue event).map fun queue => match s.queue, queue with
    | .ok q, .ok r => ⟨queue, (armedBy q r event).or s.armed⟩
    | _, _ => ⟨queue, s.armed⟩

def Alarm.CancelsPending (s : Alarm) (event : Event) : Prop :=
  TimerQueue.CancelsPending s.queue event

instance (s : Alarm) (event : Event) : Decidable (Alarm.CancelsPending s event) :=
  inferInstanceAs (Decidable (TimerQueue.CancelsPending _ _))

/-- No entry waits for an alarm that is later than its time and than 100 microseconds after the
alarm was last set. -/
def Covered (q : TimerQueue) (armed : Option Int) : Prop :=
  ∀ e ∈ q.timers_, ∃ alarm clock, q.timerfd_ = some alarm ∧ armed = some clock ∧
    alarm ≤ max e.1 (clock + 100)

structure Watched (q : TimerQueue) (armed : Option Int) : Prop where
  wf : WF q
  byTime : ByTime q.timers_
  covered : q.phase = .idle → Covered q armed

variable {armed : Option Int}

theorem alarmAt_le (h : when_ ≤ e.1) : alarmAt when_ clock ≤ max e.1 (clock + 100) := by
  unfold alarmAt
  omega

/-- Entries that are all no earlier than the alarm was set for. -/
theorem Covered.of_alarm (halarm : q.timerfd_ = some (alarmAt when_ clock))
    (hle : ∀ e ∈ q.timers_, when_ ≤ e.1) : Covered q (some clock) :=
  fun e he => ⟨_, clock, halarm, rfl, alarmAt_le (hle e he)⟩

theorem Covered.addTimer (hb : ByTime q.timers_) (h : Covered q armed)
    (hr : q.addTimer a when_ interval clock = .ok r) :
    Covered r ((if q.earliest when_ then some clock else none).or armed) := by
  rw [addTimer_eq] at hr
  cases hr
  by_cases hfirst : q.earliest when_ = true
  · simp only [if_pos hfirst]
    refine Covered.of_alarm (show _ = some (alarmAt when_ clock) from rfl) fun e he => ?_
    rcases mem_setInsert.mp he with rfl | he
    · exact Int.le_refl _
    · cases hl : q.timers_ with
      | nil =>
        rw [hl] at he
        cases he
      | cons first rest =>
        have hlt : when_ < first.1 := by simpa [earliest, hl] using hfirst
        rw [hl] at he
        rcases List.mem_cons.mp he with rfl | he
        · exact Int.le_of_lt hlt
        · exact Int.le_trans (Int.le_of_lt hlt) ((List.pairwise_cons.mp (hl ▸ hb)).1 e he)
  · simp only [if_neg hfirst]
    intro e he
    rcases mem_setInsert.mp he with rfl | he
    · cases hl : q.timers_ with
      | nil => simp [earliest, hl] at hfirst
      | cons first rest =>
        have hle : first.1 ≤ when_ := by simpa [earliest, hl] using hfirst
        obtain ⟨alarm, clock', halarm, harmed, hbound⟩ := h first (hl ▸ List.mem_cons_self)
        exact ⟨alarm, clock', halarm, harmed, by omega⟩
    · obtain ⟨alarm, clock', halarm, harmed, hbound⟩ := h e he
      exact ⟨alarm, clock', halarm, harmed, hbound⟩

theorem Covered.cancel (hwf : WF q) (hb : ByTime q.timers_) (h : Covered q armed)
    (hp : timerid.timer_ ∈ q.activeTimers_ → timerid.timer_ ∈ q.timers_.map Prod.snd)
    (hr : q.cancel timerid clock = .ok r) :
    Covered r ((armedBy q r (.cancel timerid clock)).or armed) := by
  obtain ⟨-, ⟨hact, htimers, halarm⟩ | ⟨hact, t, first, rest, ht, hl, htimers, halarm⟩⟩ :=
    cancel_alarm hwf hp hr
  · rw [armedBy, if_neg (fun hboth => hact hboth.1)]
    intro e he
    rw [htimers] at he
    obtain ⟨alarm, clock', hset, harmed, hbound⟩ := h e he
    exact ⟨alarm, clock', halarm.trans hset, harmed, hbound⟩
  · by_cases hfirst : (t.expiration_, timerid.timer_) = first
    · have hhead : timerid.timer_ ∈ q.activeTimers_ ∧
          (q.heap timerid.timer_).map (fun t => (t.expiration_, timerid.timer_)) =
            q.timers_.head? := ⟨hact, by rw [ht, hl, Option.map_some, hfirst]; rfl⟩
      rw [armedBy, if_pos hhead]
      rw [if_pos hfirst] at halarm
      refine Covered.of_alarm halarm fun e he => ?_
      rw [htimers, hl] at he
      rcases List.mem_cons.mp (List.mem_of_mem_erase he) with rfl | he
      · exact Int.le_refl _
      · exact (List.pairwise_cons.mp (hl ▸ hb)).1 e he
    · have hhead : ¬ (timerid.timer_ ∈ q.activeTimers_ ∧
          (q.heap timerid.timer_).map (fun t => (t.expiration_, timerid.timer_)) =
            q.timers_.head?) := fun hboth => by
        rw [ht, hl] at hboth
        exact hfirst (Option.some.inj hboth.2)
      rw [armedBy, if_neg hhead]
      rw [if_neg hfirst] at halarm
      intro e he
      rw [htimers] at he
      obtain ⟨alarm, clock', hset, harmed, hbound⟩ := h e (List.mem_of_mem_erase he)
      exact ⟨alarm, clock', halarm.trans hset, harmed, hbound⟩

theorem Watched.resume (hwf : WF q) (hp : q.phase ≠ .idle) (hb : ByTime q.timers_)
    (hr : q.resume clock = .ok r) :
    Watched r ((if r.phase = .idle ∧ r.timers_ ≠ [] then some clock else none).or armed) := by
  obtain ⟨r', hr', hwf'⟩ := hwf.resume clock
  cases hr.symm.trans hr'
  obtain ⟨hb', halarm⟩ := resume_alarm hwf hp hb hr
  refine ⟨hwf', hb', fun hidle => ?_⟩
  cases hl : r.timers_ with
  | nil =>
    intro e he
    rw [hl] at he
    cases he
  | cons first rest =>
    rw [if_pos ⟨hidle, by simp⟩]
    refine Covered.of_alarm (halarm hidle first rest hl) fun e he => ?_
    rw [hl] at he
    rcases List.mem_cons.mp he with rfl | he
    · exact Int.le_refl _
    · exact (List.pairwise_cons.mp (hl ▸ hb')).1 e he

theorem Watched.step (h : Watched q armed) (hc : CancelsPending (.ok q) event)
    (hs : q.stepOk event = some s) : ∃ r, s = .ok r ∧ Watched r ((armedBy q r event).or armed) := by
  obtain ⟨r, rfl, hwf⟩ := h.wf.step hc hs
  refine ⟨r, rfl, ?_⟩
  cases event with
  | addTimer a when_ interval clock =>
    obtain ⟨-, hr⟩ := Option.ite_none_right_eq_some.mp hs
    have hr := Option.some.inj hr
    refine ⟨hwf, ?_, fun hidle => ?_⟩
    · rw [addTimer_eq] at hr
      cases hr
      exact h.byTime.setInsert _
    · have hsame : q.phase = .idle := by
        rw [addTimer_eq] at hr
        cases hr
        exact hidle
      exact (h.covered hsame).addTimer h.byTime hr
  | cancel timerid clock =>
    obtain ⟨-, hr⟩ := Option.ite_none_right_eq_some.mp hs
    have hr := Option.some.inj hr
    obtain ⟨hphase, hcases⟩ := cancel_alarm h.wf hc hr
    refine ⟨hwf, ?_, fun hidle => (h.covered (hphase ▸ hidle)).cancel h.wf h.byTime hc hr⟩
    rcases hcases with ⟨-, htimers, -⟩ | ⟨-, t, first, rest, -, -, htimers, -⟩
    · rw [htimers]
      exact h.byTime
    · rw [htimers]
      exact h.byTime.sublist List.erase_sublist
  | handleRead now clock =>
    obtain ⟨hidle, hr⟩ := Option.ite_none_right_eq_some.mp hs
    have hr := Option.some.inj hr
    have hi := h.wf.inv
    rw [hidle] at hi
    have hg := (hi.frame q.cancelingTimers_ q.callingExpiredTimers_
      (q.timerfd_.filter (now < ·)) q.phase).getExpired now
    exact Watched.resume ⟨hg.frame _ true _ (.running now _ _), fun x => mem_foldl_insert_self,
      fun _ => id⟩ nofun (getExpired_byTime h.byTime) hr
  | return_ clock =>
    obtain ⟨hp, hr⟩ := Option.ite_none_right_eq_some.mp hs
    exact Watched.resume h.wf hp h.byTime (Option.some.inj hr)

/-- Between the events of the loop, a timer that waits has an alarm set for it in time. -/
theorem alarm_in_time {s : Alarm} (h : Reach Alarm.step Alarm.CancelsPending ⟨.ok init, none⟩ s) :
    ∃ q, s.queue = .ok q ∧ (q.phase = .idle → Covered q s.armed) := by
  obtain ⟨q, hq, hwatched⟩ := h.invariant
    (I := fun s => ∃ q, s.queue = .ok q ∧ Watched q s.armed)
    ⟨init, rfl, init_wf, List.Pairwise.nil, fun _ _ => nofun⟩ (by
      rintro ⟨queue, armed⟩ event u ⟨q, rfl, hq⟩ hc hs
      obtain ⟨queue, hqueue, rfl⟩ := Option.map_eq_some_iff.mp hs
      obtain ⟨r, rfl, hr⟩ := hq.step hc hqueue
      exact ⟨r, rfl, hr⟩)
  exact ⟨q, hq, hwatched.covered⟩

/-- The first timer is cancelled, which sets the alarm for its own time; the second runs, and
from its callback a third is added. -/
def alarmRun : List Event :=
  [.addTimer 16 1000 0 0, .addTimer 32 2000 500 0, .cancel ⟨16, 1⟩ 10, .handleRead 2000 2001,
    .addTimer 48 2400 0 2010, .return_ 2450]

theorem alarm_in_time_run : ∃ s q, exec Alarm.step Alarm.CancelsPending ⟨.ok init, none⟩ alarmRun =
    some s ∧ s.queue = .ok q ∧ q.timers_ = [(2400, 48), (2500, 32)] ∧ Covered q s.armed := by
  have hrun : (exec Alarm.step Alarm.CancelsPending ⟨.ok init, none⟩ alarmRun).any (fun s =>
      s.queue.toOption.any fun q => q.timers_ = [(2400, 48), (2500, 32)] ∧ q.phase = .idle) =
        true := by decide
  obtain ⟨s, hs, hall⟩ := (Option.any_eq_true _ _).mp hrun
  obtain ⟨q, hq, hcovered⟩ := alarm_in_time (.of_exec hs)
  rw [hq] at hall
  obtain ⟨htimers, hidle⟩ := of_decide_eq_true hall
  exact ⟨s, q, hs, hq, htimers, hcovered hidle⟩

end VortexNet.TimerQueue
