import VortexNet.Net.TimerAlarm

/-!
# Which callbacks run, and when

Where nothing is cancelled, a `handleRead` runs the callbacks of the entries
that are due, first to last, whatever these callbacks add. A timer that repeats
goes back into the set for its interval after that `now`, so it is not due again
before; one that does not is deleted.
-/

namespace VortexNet.TimerQueue

open Systems (Reach Always exec)

def due (q : TimerQueue) (now : Int) : List Entry := q.timers_.filter (·.1 ≤ now)

def sequence (q : TimerQueue) (e : Entry) : Nat := ((q.heap e.2).map Timer.sequence_).getD 0

def runs (q : TimerQueue) (now : Int) (l : List Entry) : List Log :=
  l.reverse.map fun e => .ran now (q.sequence e)

/-- A timer that runs twice is one that repeats, and the runs are its interval apart. The list has
the intervals of the timers in the order of their creation. -/
def Spaced (intervals : List Nat) (log : List Log) : Prop :=
  log.Pairwise fun later earlier => ∀ (now' now : Int) (seq : Nat), later = .ran now' seq →
    earlier = .ran now seq → ∃ interval : Nat, intervals[seq - 1]? = some interval ∧ 0 < interval ∧ now + interval ≤ now'

/-- A queue and the intervals of its timers. -/
structure History where
  queue : Except Fault TimerQueue
  intervals : List Nat

def History.step (s : History) (event : Event) : Option History :=
  (TimerQueue.step s.queue event).map fun queue => ⟨queue, match event with
    | .addTimer _ _ interval _ => s.intervals ++ [interval]
    | _ => s.intervals⟩

def NoCancel (_ : History) : Event → Prop
  | .cancel .. => False
  | .addTimer .. | .handleRead .. | .return_ _ => True

variable {q r : TimerQueue} {batch l : List Entry} {e : Entry} {a : Nat} {t : Timer}
  {now clock when_ : Int} {interval : Nat} {event : Event} {intervals : List Nat}
  {s : Except Fault TimerQueue} {log : List Log}

-- ---------------------------------------------------------------------------
-- What is due
-- ---------------------------------------------------------------------------

theorem takeWhile_eq_filter (hb : ByTime l) (hbelow : ∀ e ∈ l, e.2 < UINTPTR_MAX) :
    l.takeWhile (entryLt · (now, UINTPTR_MAX)) = l.filter (·.1 ≤ now) := by
  induction l with
  | nil => rfl
  | cons e l ih =>
    obtain ⟨he, hl⟩ := List.pairwise_cons.mp hb
    obtain ⟨hebelow, hlbelow⟩ := List.forall_mem_cons.mp hbelow
    have hlt : entryLt e (now, UINTPTR_MAX) = decide (e.1 ≤ now) := by
      simp only [entryLt, decide_eq_decide]
      omega
    by_cases hdue : e.1 ≤ now
    · rw [List.takeWhile_cons_of_pos (by simpa [hlt] using hdue),
        List.filter_cons_of_pos (by simpa using hdue), ih hl hlbelow]
    · rw [List.takeWhile_cons_of_neg (by simpa [hlt] using hdue),
        List.filter_cons_of_neg (by simpa using hdue)]
      refine (List.filter_eq_nil_iff.mpr fun x hx => ?_).symm
      have := he x hx
      simp only [decide_eq_true_eq]
      omega

theorem getExpired_fst (hb : ByTime q.timers_) (hbelow : ∀ e ∈ q.timers_, e.2 < UINTPTR_MAX) :
    (q.getExpired now).1 = q.due now :=
  takeWhile_eq_filter hb hbelow

theorem sweep_log (h : batch.foldlM (fun q e => q.settle now e) q = .ok r) : r.log = q.log := by
  induction batch generalizing q with
  | nil =>
    cases h
    rfl
  | cons e batch ih =>
    rw [List.foldlM_cons] at h
    cases hs : q.settle now e with
    | error f =>
      rw [hs] at h
      cases h
    | ok q₁ =>
      rw [hs] at h
      refine (ih (q := q₁) h).trans ?_
      obtain ⟨t, -, ⟨-, -, rfl⟩ | ⟨-, rfl⟩⟩ := settle_cases hs
      · rfl
      · rfl

theorem finish_sweep (h : q.finish now clock batch = .ok r) :
    ∃ q₁ w, batch.foldlM (fun q e => q.settle now e) q = .ok q₁ ∧
      r = { q₁ with cancelingTimers_ := [], phase := .idle, timerfd_ := w } := by
  simp only [TimerQueue.finish, bind, Except.bind, pure, Except.pure] at h
  split at h
  · cases h
  · rename_i q₁ hsweep
    split at h
    · cases h
      exact ⟨q₁, _, hsweep, rfl⟩
    · split at h
      · cases h
      · cases h
        exact ⟨q₁, _, hsweep, rfl⟩

-- ---------------------------------------------------------------------------
-- One handleRead
-- ---------------------------------------------------------------------------

def Handling (q : TimerQueue) (now : Int) (r : TimerQueue) : Prop :=
  ∃ done next, q.due now = done ++ next ∧ r.log = q.runs now done ++ q.log ∧
    (∀ e ∈ next, r.heap e.2 = q.heap e.2) ∧
    (r.phase = .running now (q.due now) next ∨ r.phase = .idle ∧ next = [])

theorem runs_append_singleton (q : TimerQueue) (now : Int) (l : List Entry) (e : Entry) :
    q.runs now (l ++ [e]) = .ran now (q.sequence e) :: q.runs now l := by
  simp [runs]

theorem Handling.resume (h : Handling q now r) (hp : r.phase ≠ .idle)
    (hr : r.resume clock = .ok r') : Handling q now r' := by
  obtain ⟨done, next, hdue, hlog, hheap, hphase | ⟨hidle, -⟩⟩ := h
  · rw [TimerQueue.resume, hphase] at hr
    cases next with
    | nil =>
      obtain ⟨q₁, w, hsweep, rfl⟩ := finish_sweep hr
      exact ⟨done, [], hdue, (sweep_log hsweep).trans hlog, by simp, .inr ⟨rfl, rfl⟩⟩
    | cons e next =>
      simp only [bind, Except.bind, pure, Except.pure] at hr
      split at hr
      · cases hr
      · rename_i t ht
        cases hr
        have hseq : q.sequence e = t.sequence_ := by
          have hsome : r.heap e.2 = some t := by
            unfold deref at ht
            split at ht
            · rename_i t' ht'
              cases ht
              exact ht'
            · cases ht
          rw [sequence, ← hheap e List.mem_cons_self, hsome]
          rfl
        refine ⟨done ++ [e], next, by rw [hdue, List.append_assoc]; rfl, ?_,
          fun x hx => hheap x (List.mem_cons_of_mem _ hx), .inl rfl⟩
        rw [runs_append_singleton, hseq, hlog]
        rfl
  · exact absurd hidle hp

theorem Handling.addTimer (h : Handling q now r) (hwf : WF r) (ha : r.heap a = none)
    (hr : r.addTimer a when_ interval clock = .ok r') : Handling q now r' := by
  obtain ⟨done, next, hdue, hlog, hheap, hphase⟩ := h
  rw [addTimer_eq] at hr
  cases hr
  refine ⟨done, next, hdue, hlog, fun e he => ?_, hphase⟩
  have hne : e.2 ≠ a := by
    rintro rfl
    rcases hphase with hphase | ⟨-, rfl⟩
    · have hheld := hwf.inv.held e (hwf.next_held (by rw [hphase]; exact he))
      rw [ha] at hheld
      cases hheld.1
    · cases he
  exact (Function.update_of_ne hne _ _).trans (hheap e he)

theorem Handling.start (hb : ByTime q.timers_) (hbelow : ∀ e ∈ q.timers_, e.2 < UINTPTR_MAX)
    (hr : q.handleRead now clock = .ok r) : Handling q now r := by
  refine Handling.resume (r := { ({ q with timerfd_ := q.timerfd_.filter (now < ·) } :
      TimerQueue).getExpired now |>.2 with
    callingExpiredTimers_ := true, phase := .running now (q.due now) (q.due now) })
    ⟨[], q.due now, rfl, rfl, fun _ _ => rfl, .inl rfl⟩ nofun
    (show TimerQueue.resume _ clock = .ok r from ?_)
  rw [← getExpired_fst hb hbelow]
  exact hr

/-- The timer of the entry has run only where its interval since then is over at the entry's time. -/
def Rested (q : TimerQueue) (e : Entry) : Prop :=
  ∀ t, q.heap e.2 = some t → ∀ now, .ran now t.sequence_ ∈ q.log →
    0 < t.interval_ ∧ now + t.interval_ ≤ e.1

def RanBy (q : TimerQueue) (now : Int) (e : Entry) : Prop :=
  ∀ t, q.heap e.2 = some t → ∀ now', .ran now' t.sequence_ ∈ q.log → now' ≤ now

structure Recorded (q : TimerQueue) (intervals : List Nat) : Prop where
  below : ∀ a, (q.heap a).isSome → a < UINTPTR_MAX
  created : intervals.length = q.num_created
  interval : ∀ a t, q.heap a = some t →
    1 ≤ t.sequence_ ∧ intervals[t.sequence_ - 1]? = some t.interval_
  logged : ∀ now seq, .ran now seq ∈ q.log → seq ≤ q.num_created
  spaced : Spaced intervals q.log

structure Paced (q : TimerQueue) (intervals : List Nat) : Prop where
  wf : WF q
  byTime : ByTime q.timers_
  recorded : Recorded q intervals
  rested : ∀ e ∈ q.timers_, Rested q e
  next_nodup : (q.phase.next.map Prod.snd).Nodup
  next_rested : ∀ e ∈ q.phase.next, Rested q e
  next_due : ∀ now expired next, q.phase = .running now expired next → ∀ e ∈ next, e.1 ≤ now
  ranBy : ∀ now expired next, q.phase = .running now expired next → ∀ e ∈ expired, RanBy q now e

theorem Inv.sequence_inj (hi : Inv q batch) (ha : q.heap a = some t) (hb : q.heap b = some t')
    (h : t.sequence_ = t'.sequence_) : a = b := by
  have hid := hi.unique _ (hi.issued a t ha) _ (hi.issued b t' hb) h
  exact congrArg TimerId.timer_ hid

theorem Spaced.append (h : Spaced intervals log) (interval : Nat) :
    Spaced (intervals ++ [interval]) log := by
  refine List.Pairwise.imp (fun hrel now' now seq hlater hearlier => ?_) h
  obtain ⟨i, hi, hpos, hle⟩ := hrel now' now seq hlater hearlier
  have hlt := (List.getElem?_eq_some_iff.mp hi).1
  exact ⟨i, by rw [List.getElem?_append_left hlt, hi], hpos, hle⟩

theorem Recorded.of_heap (h : Recorded q intervals)
    (hsub : ∀ a t, r.heap a = some t → ∃ t', q.heap a = some t' ∧ t.sequence_ = t'.sequence_ ∧
      t.interval_ = t'.interval_)
    (hcreated : r.num_created = q.num_created) (hlog : r.log = q.log) : Recorded r intervals where
  below a ha := by
    obtain ⟨t, ht⟩ := Option.isSome_iff_exists.mp ha
    obtain ⟨t', ht', -⟩ := hsub a t ht
    exact h.below a (ht' ▸ rfl)
  created := h.created.trans hcreated.symm
  interval a t ha := by
    obtain ⟨t', ht', hseq, hint⟩ := hsub a t ha
    rw [hseq, hint]
    exact h.interval a t' ht'
  logged := by
    rw [hlog, hcreated]
    exact h.logged
  spaced := by
    rw [hlog]
    exact h.spaced

theorem Recorded.congr (h : Recorded q intervals) (hheap : r.heap = q.heap)
    (hcreated : r.num_created = q.num_created) (hlog : r.log = q.log) : Recorded r intervals :=
  h.of_heap (fun _ t ha => ⟨t, hheap ▸ ha, rfl, rfl⟩) hcreated hlog

theorem update_some (h : Function.update q.heap a (some t) b = some t') :
    b = a ∧ t' = t ∨ b ≠ a ∧ q.heap b = some t' := by
  by_cases hba : b = a
  · subst hba
    rw [Function.update_self] at h
    exact .inl ⟨rfl, (Option.some.inj h).symm⟩
  · rw [Function.update_of_ne hba] at h
    exact .inr ⟨hba, h⟩

structure Swept (q : TimerQueue) (intervals : List Nat) (now : Int) (batch : List Entry) : Prop where
  inv : Inv q batch
  byTime : ByTime q.timers_
  recorded : Recorded q intervals
  rested : ∀ e ∈ q.timers_, Rested q e
  ranBy : ∀ e ∈ batch, RanBy q now e

theorem Rested.of_heap (h : Rested q e) (hheap : r.heap e.2 = q.heap e.2) (hlog : r.log = q.log) :
    Rested r e := fun t ht now hm => h t (hheap ▸ ht) now (hlog ▸ hm)

theorem RanBy.of_heap (h : RanBy q now e) (hheap : r.heap e.2 = q.heap e.2) (hlog : r.log = q.log) :
    RanBy r now e := fun t ht now hm => h t (hheap ▸ ht) now (hlog ▸ hm)

theorem Swept.settle (h : Swept q intervals now (e :: batch)) (hr : q.settle now e = .ok r) :
    Swept r intervals now batch := by
  obtain ⟨r', hr', hinv, -⟩ := h.inv.settle now
  cases hr.symm.trans hr'
  have hkept : ∀ x ∈ q.timers_, x.2 ≠ e.2 := fun x hx hxe =>
    (h.inv.held e List.mem_cons_self).2 (List.mem_map.mpr ⟨x, hx, hxe⟩)
  have hleft : ∀ x ∈ batch, x.2 ≠ e.2 := fun x hx hxe =>
    (List.nodup_cons.mp h.inv.held_nodup).1 (List.mem_map.mpr ⟨x, hx, hxe⟩)
  have hran := List.forall_mem_cons.mp h.ranBy
  refine ⟨hinv, settle_byTime h.byTime hr, ?_, ?_, ?_⟩
  all_goals obtain ⟨t, ht, ⟨hrepeat, -, rfl⟩ | ⟨-, rfl⟩⟩ := settle_cases hr
  · refine h.recorded.of_heap (fun a t' ha => ?_) rfl rfl
    rcases update_some ha with ⟨rfl, rfl⟩ | ⟨-, ha⟩
    · exact ⟨t, ht, rfl, rfl⟩
    · exact ⟨t', ha, rfl, rfl⟩
  · refine h.recorded.of_heap (fun a t' ha => ?_) rfl rfl
    exact ⟨t', (update_none ha).2, rfl, rfl⟩
  · intro x hx
    rcases mem_setInsert.mp hx with rfl | hx
    · intro t' ht' now' hm
      obtain ⟨-, rfl⟩ := (update_some ht').resolve_right fun hne => hne.1 rfl
      have hle := hran.1 t ht now' hm
      have hpos : 0 < t.interval_ := by simpa [Timer.repeat_] using hrepeat
      refine ⟨hpos, ?_⟩
      dsimp only
      omega
    · exact (h.rested x hx).of_heap (Function.update_of_ne (hkept x hx) _ _) rfl
  · exact fun x hx => (h.rested x hx).of_heap (Function.update_of_ne (hkept x hx) _ _) rfl
  · exact fun x hx => (hran.2 x hx).of_heap (Function.update_of_ne (hleft x hx) _ _) rfl
  · exact fun x hx => (hran.2 x hx).of_heap (Function.update_of_ne (hleft x hx) _ _) rfl

theorem Swept.sweep (h : Swept q intervals now batch)
    (hr : batch.foldlM (fun q e => q.settle now e) q = .ok r) : Swept r intervals now [] := by
  induction batch generalizing q with
  | nil =>
    cases hr
    exact h
  | cons e batch ih =>
    rw [List.foldlM_cons] at hr
    cases hs : q.settle now e with
    | error f =>
      rw [hs] at hr
      cases hr
    | ok q₁ =>
      rw [hs] at hr
      exact ih (h.settle hs) hr

theorem Recorded.ran (h : Recorded q intervals) (ht : q.heap e.2 = some t) (hrested : Rested q e)
    (hdue : e.1 ≤ now) : Recorded { q with log := .ran now t.sequence_ :: q.log } intervals where
  below := h.below
  created := h.created
  interval := h.interval
  logged now' seq hm := by
    rcases List.mem_cons.mp hm with hm | hm
    · cases hm
      have hint := (h.interval e.2 t ht).2
      have hone := (h.interval e.2 t ht).1
      have hlt := (List.getElem?_eq_some_iff.mp hint).1
      rw [h.created] at hlt
      change t.sequence_ ≤ q.num_created
      omega
    · exact h.logged now' seq hm
  spaced := by
    refine List.pairwise_cons.mpr ⟨fun earlier hm now' now'' seq hlater hearlier => ?_, h.spaced⟩
    cases hlater
    subst hearlier
    obtain ⟨hpos, hle⟩ := hrested t ht now'' hm
    exact ⟨t.interval_, (h.interval e.2 t ht).2, hpos, Int.le_trans hle hdue⟩

theorem Paced.resume (h : Paced q intervals) (hr : q.resume clock = .ok r) : Paced r intervals := by
  obtain ⟨r', hr', hwf⟩ := h.wf.resume clock
  cases hr.symm.trans hr'
  have hi := h.wf.inv
  have hnext := h.wf.next_held
  have hnodup := h.next_nodup
  have hrested := h.next_rested
  rw [TimerQueue.resume] at hr
  cases hp : q.phase with
  | idle =>
    rw [hp] at hr
    cases hr
    exact h
  | running now expired next =>
    rw [hp] at hr hi hnext hnodup hrested
    have hranBy := h.ranBy now expired next hp
    have hdue := h.next_due now expired next hp
    cases next with
    | nil =>
      obtain ⟨q₁, w, hsweep, rfl⟩ := finish_sweep hr
      have hswept := Swept.sweep ⟨hi, h.byTime, h.recorded, h.rested, hranBy⟩ hsweep
      exact ⟨hwf, hswept.byTime, hswept.recorded.congr rfl rfl rfl, hswept.rested,
        List.nodup_nil, by simp [Phase.next], by simp, by simp⟩
    | cons e next =>
      have hheld := hi.held e (hnext List.mem_cons_self)
      obtain ⟨t, ht⟩ := Option.isSome_iff_exists.mp hheld.1
      simp only [deref_of ht, bind, Except.bind, pure, Except.pure] at hr
      cases hr
      -- another entry's timer does not run now
      have hother : ∀ x : Entry, x.2 ≠ e.2 → Rested q x →
          Rested { q with phase := .running now expired next, log := .ran now t.sequence_ :: q.log } x := by
        intro x hxe hx t' ht' now' hm
        rcases List.mem_cons.mp hm with hm | hm
        · injection hm with hnow hseq
          exact absurd (hi.sequence_inj ht' ht hseq) hxe
        · exact hx t' ht' now' hm
      refine ⟨hwf, h.byTime, ?_, fun x hx => ?_, (List.nodup_cons.mp hnodup).2, fun x hx => ?_, ?_, ?_⟩
      · have hran := h.recorded.ran ht (hrested e List.mem_cons_self) (hdue e List.mem_cons_self)
        exact hran.congr rfl rfl rfl
      · refine hother x (fun hxe => hheld.2 (List.mem_map.mpr ⟨x, hx, hxe⟩)) (h.rested x hx)
      · refine hother x (fun hxe => ?_) (hrested x (List.mem_cons_of_mem _ hx))
        exact (List.nodup_cons.mp hnodup).1 (List.mem_map.mpr ⟨x, hx, hxe⟩)
      · rintro now' expired' next' hphase x hx
        cases hphase
        exact hdue x (List.mem_cons_of_mem _ hx)
      · rintro now' expired' next' hphase x hx t' ht' now'' hm
        cases hphase
        rcases List.mem_cons.mp hm with hm | hm
        · injection hm with hnow hseq
          exact Int.le_of_eq hnow
        · exact hranBy x hx t' ht' now'' hm

theorem Paced.below (h : Paced q intervals) : ∀ e ∈ q.timers_, e.2 < UINTPTR_MAX := by
  intro e he
  obtain ⟨t, ht, -⟩ := h.wf.inv.keys e he
  exact h.recorded.below e.2 (ht ▸ rfl)

theorem Paced.handleRead (h : Paced q intervals) (hidle : q.phase = .idle)
    (hr : q.handleRead now clock = .ok r) : Paced r intervals := by
  have hi := h.wf.inv
  rw [hidle] at hi
  have hg := (hi.frame q.cancelingTimers_ q.callingExpiredTimers_
    (q.timerfd_.filter (now < ·)) q.phase).getExpired now
  have hdue : ∀ e ∈ q.timers_.takeWhile (entryLt · (now, UINTPTR_MAX)), e.1 ≤ now := by
    intro e he
    rw [takeWhile_eq_filter h.byTime h.below] at he
    simpa using (List.mem_filter.mp he).2
  have hmem : ∀ e ∈ q.timers_.takeWhile (entryLt · (now, UINTPTR_MAX)), e ∈ q.timers_ :=
    fun e he => (List.takeWhile_sublist _).subset he
  refine Paced.resume ⟨⟨hg.frame _ true _ (.running now _ _),
    fun x => mem_foldl_insert_self, fun _ => id⟩, getExpired_byTime h.byTime,
    h.recorded.congr rfl rfl rfl, fun e he => h.rested e ((List.dropWhile_sublist _).subset he),
    hg.held_nodup, fun e he => h.rested e (hmem e he), ?_, ?_⟩
    (show TimerQueue.resume _ clock = .ok r from hr)
  · rintro now' expired next hphase e he
    cases hphase
    exact hdue e he
  · rintro now' expired next hphase e he t ht now'' hm
    cases hphase
    have hrested := h.rested e (hmem e he) t ht now'' hm
    have hle := hdue e he
    omega

theorem Paced.addTimer (h : Paced q intervals) (ha : q.heap a = none) (hbelow : a < UINTPTR_MAX)
    (hr : q.addTimer a when_ interval clock = .ok r) : Paced r (intervals ++ [interval]) := by
  obtain ⟨r', hr', hwf⟩ := h.wf.addTimer ha when_ interval clock
  cases hr.symm.trans hr'
  rw [addTimer_eq] at hr
  cases hr
  have hne : ∀ {b : Nat}, (q.heap b).isSome → b ≠ a := fun hb hba => by simp [hba, ha] at hb
  have hold : ∀ e : Entry, (q.heap e.2).isSome → Function.update q.heap a
      (some ⟨when_, interval, q.num_created + 1⟩) e.2 = q.heap e.2 :=
    fun e he => Function.update_of_ne (hne he) _ _
  have hset : ∀ e ∈ q.timers_, (q.heap e.2).isSome := fun e he => by
    obtain ⟨t, ht, -⟩ := h.wf.inv.keys e he
    exact ht ▸ rfl
  have hbatch : ∀ e ∈ q.phase.batch, (q.heap e.2).isSome := fun e he => (h.wf.inv.held e he).1
  have hnext : ∀ e ∈ q.phase.next, (q.heap e.2).isSome := fun e he => hbatch e (h.wf.next_held he)
  refine ⟨hwf, h.byTime.setInsert _, ⟨fun b hb => ?_, ?_, fun b t hb => ?_, fun now seq hm => ?_,
    h.recorded.spaced.append interval⟩, fun e he => ?_, h.next_nodup, fun e he => ?_, h.next_due, ?_⟩
  · obtain ⟨t, ht⟩ := Option.isSome_iff_exists.mp hb
    rcases update_some ht with ⟨rfl, -⟩ | ⟨-, ht⟩
    · exact hbelow
    · exact h.recorded.below b (ht ▸ rfl)
  · rw [List.length_append, h.recorded.created]
    rfl
  · have hlen := h.recorded.created
    rcases update_some hb with ⟨rfl, rfl⟩ | ⟨-, hb⟩
    · refine ⟨Nat.le_add_left _ _, ?_⟩
      rw [Nat.add_sub_cancel, ← hlen, List.getElem?_append_right (Nat.le_refl _), Nat.sub_self]
      rfl
    · obtain ⟨hone, hint⟩ := h.recorded.interval b t hb
      refine ⟨hone, ?_⟩
      rw [List.getElem?_append_left (List.getElem?_eq_some_iff.mp hint).1, hint]
  · exact Nat.le_succ_of_le (h.recorded.logged now seq hm)
  · rcases mem_setInsert.mp he with rfl | he
    · intro t ht now hm
      obtain ⟨-, rfl⟩ := (update_some ht).resolve_right fun hne => hne.1 rfl
      -- the timer is new: its number is larger than those in the log
      exact absurd (h.recorded.logged now _ hm) (by simp)
    · exact (h.rested e he).of_heap (hold e (hset e he)) rfl
  · exact (h.next_rested e he).of_heap (hold e (hnext e he)) rfl
  · rintro now expired next hphase e he
    have hp : q.phase = .running now expired next := hphase
    have hmem : e ∈ q.phase.batch := by
      rw [hp]
      exact he
    exact (h.ranBy now expired next hp e he).of_heap (hold e (hbatch e hmem)) rfl

theorem Paced.step (h : Paced q intervals) (hs : History.step ⟨.ok q, intervals⟩ event = some s')
    (hc : NoCancel ⟨.ok q, intervals⟩ event) : ∃ r, s'.queue = .ok r ∧ Paced r s'.intervals := by
  obtain ⟨queue, hqueue, rfl⟩ := Option.map_eq_some_iff.mp hs
  cases event with
  | addTimer a when_ interval clock =>
    obtain ⟨⟨ha, hbelow⟩, rfl⟩ := Option.ite_none_right_eq_some.mp hqueue |>.imp_right Option.some.inj
    have ha := Option.isNone_iff_eq_none.mp ha
    obtain ⟨r, hr, -⟩ := h.wf.addTimer ha when_ interval clock
    exact ⟨r, hr, h.addTimer ha hbelow hr⟩
  | cancel => cases hc
  | handleRead now clock =>
    obtain ⟨hidle, rfl⟩ := Option.ite_none_right_eq_some.mp hqueue |>.imp_right Option.some.inj
    obtain ⟨r, hr, -⟩ := h.wf.handleRead hidle now clock
    exact ⟨r, hr, h.handleRead hidle hr⟩
  | return_ clock =>
    obtain ⟨-, rfl⟩ := Option.ite_none_right_eq_some.mp hqueue |>.imp_right Option.some.inj
    obtain ⟨r, hr, -⟩ := h.wf.resume clock
    exact ⟨r, hr, h.resume hr⟩

instance (s : History) : DecidablePred (NoCancel s)
  | .cancel .. => .isFalse id
  | .addTimer .. | .handleRead .. | .return_ _ => .isTrue trivial

end VortexNet.TimerQueue
