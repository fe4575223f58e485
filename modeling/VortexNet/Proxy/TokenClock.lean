import Mathlib.Logic.Function.Basic
import VortexNet.Proxy.RateBound

/-!
# Clock readings and timestamps

The three functions of `TokenBucket.cc` in any number of threads: a step is an
atomic load, a sample of the clock, an attempt of a CAS, or a store. The clock
is one for all threads and never goes back. A timestamp that a thread holds was
loaded before the thread samples the clock, and no timestamp is published that
is later than the sample it was computed from.
-/

namespace VortexNet

open Systems (Reach Always exec)

namespace TokenBucket

inductive Work
  | tryAcquire (need : UInt32)
  | availableTokens
  | update (new_capacity new_refill_rate : UInt32)
  deriving DecidableEq

inductive Progress
  | called
  | configured (cfg : Config)
  | loaded (cfg : Config) (cur : State)
  /-- The next thing computed is `now - cur.timestamp_ms`. -/
  | sampled (cfg : Config) (cur : State) (now : UInt32)
  /-- `update` has written `state_` and not `config_`. -/
  | settled
  deriving DecidableEq

/-- A bucket, the calls in progress by their threads, and the milliseconds since `kEpoch`. -/
structure Timed where
  bucket : TokenBucket
  threads : Nat → Option (Work × Progress) := fun _ => none
  update_mutex_ : Bool := false
  clock : Nat := 0

namespace Timed

/-- `spurious` is a failure that `compare_exchange_weak` may report at any time. -/
inductive Event
  | tick (ms : Nat)
  | call (i : Nat) (work : Work)
  | loadConfig (i : Nat)
  | loadState (i : Nat)
  | sample (i : Nat)
  | attempt (i : Nat) (spurious : Bool)
  | storeConfig (i : Nat)

def setThread (r : Timed) (i : Nat) (t : Option (Work × Progress)) : Timed :=
  { r with threads := Function.update r.threads i t }

def setState (r : Timed) (next : State) : Timed :=
  { r with bucket := { r.bucket with state_ := next } }

/-- The call of thread `i` goes on, or returns. -/
def call (r : Timed) (i : Nat) : Work → Option Timed
  | .tryAcquire need =>
    if need = 0 then some r else some (r.setThread i (some (.tryAcquire need, .called)))
  | .availableTokens => some (r.setThread i (some (.availableTokens, .called)))
  | .update new_capacity new_refill_rate =>
    if r.update_mutex_ then none
    else some { r.setThread i (some (.update new_capacity new_refill_rate, .called)) with
      update_mutex_ := true }

def loadConfig (r : Timed) (i : Nat) (work : Work) : Timed :=
  let cfg := r.bucket.config_
  match work with
  | .tryAcquire need =>
    r.setThread i (if need > cfg.capacity then none else some (work, .configured cfg))
  | .availableTokens | .update _ _ => r.setThread i (some (work, .configured cfg))

/-- What follows a sample of the clock, up to and with the CAS. -/
def attempt (r : Timed) (i : Nat) (spurious : Bool) (cfg : Config) (cur : State) (now : UInt32) :
    Work → Timed
  | .tryAcquire need => match settle cfg cur now need with
    | none => r.setThread i none
    | some next =>
      if r.bucket.state_ = cur ∧ spurious = false then (r.setState next).setThread i none
      else r.setThread i (some (.tryAcquire need, .loaded cfg r.bucket.state_))
  | .availableTokens => r.setThread i none
  | .update new_capacity new_refill_rate =>
    if r.bucket.state_ = cur ∧ spurious = false then
      (r.setState (resettle cfg cur now new_capacity)).setThread i
        (some (.update new_capacity new_refill_rate, .settled))
    else r.setThread i (some (.update new_capacity new_refill_rate, .loaded cfg r.bucket.state_))

def step (r : Timed) : Event → Option Timed
  | .tick ms => some { r with clock := r.clock + ms }
  | .call i work => if r.threads i = none then r.call i work else none
  | .loadConfig i => match r.threads i with
    | some (work, .called) => some (r.loadConfig i work)
    | _ => none
  | .loadState i => match r.threads i with
    | some (work, .configured cfg) => some (r.setThread i (some (work, .loaded cfg r.bucket.state_)))
    | _ => none
  | .sample i => match r.threads i with
    | some (work, .loaded cfg cur) =>
      some (r.setThread i (some (work, .sampled cfg cur (nowMs r.clock))))
    | _ => none
  | .attempt i spurious => match r.threads i with
    | some (work, .sampled cfg cur now) => some (r.attempt i spurious cfg cur now work)
    | _ => none
  | .storeConfig i => match r.threads i with
    | some (.update new_capacity new_refill_rate, .settled) =>
      some { r.setThread i none with
        bucket := { r.bucket with config_ := ⟨new_capacity, new_refill_rate⟩ }
        update_mutex_ := false }
    | _ => none

-- ---------------------------------------------------------------------------
-- Timestamps
-- ---------------------------------------------------------------------------

variable {r r' : Timed} {e : Event} {cfg : Config} {cur next : State} {now need : UInt32}
  {clock clock' : Nat} {work : Work} {t : Option (Work × Progress)} {i : Nat}

/-- No pass of `tryAcquire` moves the timestamp past the reading it was given. -/
theorem settle_timestamp_le (h : settle cfg cur now need = some next)
    (hts : cur.timestamp_ms ≤ now) : next.timestamp_ms ≤ now := by
  rw [UInt32.le_iff_toNat_le] at hts ⊢
  have hnow := now.toNat_lt
  have hsettle : settle cfg cur (nowMs now.toNat) need = _ :=
    settle_eq (UInt32.ofNat_toNat (x := cur.timestamp_ms)) hts (by omega)
  have hcharge := charged_le cfg.refill_rate.toNat (now.toNat - cur.timestamp_ms.toNat)
  rw [nowMs, UInt32.ofNat_toNat, h] at hsettle
  split at hsettle
  · cases hsettle
  · rw [Option.some.inj hsettle]
    simp only [nowMs, UInt32.toNat_ofNat']
    omega

def Progress.Timely (clock : Nat) : Progress → Prop
  | .loaded _ cur => cur.timestamp_ms.toNat ≤ clock
  | .sampled _ cur now => cur.timestamp_ms ≤ now ∧ now.toNat ≤ clock
  | .called | .configured _ | .settled => True

structure Timely (r : Timed) : Prop where
  state : r.bucket.state_.timestamp_ms.toNat ≤ r.clock
  thread : ∀ i work p, r.threads i = some (work, p) → Progress.Timely r.clock p

theorem Progress.Timely.mono {p : Progress} (h : Progress.Timely clock p) (hle : clock ≤ clock') :
    Progress.Timely clock' p := by
  cases p with
  | loaded cfg cur => exact Nat.le_trans h hle
  | sampled cfg cur now => exact ⟨h.1, Nat.le_trans h.2 hle⟩
  | _ => trivial

theorem Timely.setThread (h : Timely r) (i : Nat)
    (ht : ∀ work p, t = some (work, p) → Progress.Timely r.clock p) : Timely (r.setThread i t) := by
  refine ⟨h.state, fun j work p hj => ?_⟩
  by_cases hji : j = i
  · subst hji
    exact ht work p (by simpa [Timed.setThread] using hj)
  · exact h.thread j work p (by simpa [Timed.setThread, hji] using hj)

theorem Timely.setState (h : Timely r) (hn : next.timestamp_ms.toNat ≤ r.clock) :
    Timely (r.setState next) :=
  ⟨hn, h.thread⟩

theorem Timely.idle (h : Timely r) (i : Nat) : Timely (r.setThread i none) :=
  h.setThread i fun _ _ hn => by cases hn

theorem Timely.attempt (h : Timely r) (hp : Progress.Timely r.clock (.sampled cfg cur now))
    (spurious : Bool) (work : Work) : Timely (r.attempt i spurious cfg cur now work) := by
  obtain ⟨hts, hnow⟩ := hp
  have hreload : ∀ work', Timely (r.setThread i (some (work', .loaded cfg r.bucket.state_))) :=
    fun work' => h.setThread i fun _ _ hs => by cases hs; exact h.state
  cases work with
  | tryAcquire need =>
    simp only [Timed.attempt]
    split
    · exact h.idle i
    · rename_i next hnext
      split
      · have hle := UInt32.le_iff_toNat_le.mp (settle_timestamp_le hnext hts)
        exact (h.setState (Nat.le_trans hle hnow)).idle i
      · exact hreload _
  | availableTokens => exact h.idle i
  | update new_capacity new_refill_rate =>
    simp only [Timed.attempt]
    split
    · refine (h.setState ?_).setThread i fun _ _ hs => by cases hs; trivial
      exact hnow
    · exact hreload _

theorem attempt_clock (r : Timed) (i : Nat) (spurious : Bool) (work : Work) :
    (r.attempt i spurious cfg cur now work).clock = r.clock := by
  cases work with
  | tryAcquire need =>
    simp only [Timed.attempt]
    split
    · rfl
    · split <;> rfl
  | availableTokens => rfl
  | update new_capacity new_refill_rate =>
    simp only [Timed.attempt]
    split <;> rfl

theorem Timely.step (h : r.clock < 2 ^ 32 → Timely r) (hs : step r e = some r')
    (hw : r'.clock < 2 ^ 32) : Timely r' := by
  cases e with
  | tick ms =>
    cases hs
    have hle : r.clock ≤ r.clock + ms := Nat.le_add_right _ _
    have hr := h (Nat.lt_of_le_of_lt hle hw)
    exact ⟨Nat.le_trans hr.state hle, fun i work p hi => (hr.thread i work p hi).mono hle⟩
  | call i work =>
    simp only [Timed.step] at hs
    split at hs
    · cases work with
      | tryAcquire need =>
        simp only [Timed.call] at hs
        split at hs
        · cases hs
          exact h hw
        · cases hs
          exact (h hw).setThread i fun _ _ hc => by cases hc; trivial
      | availableTokens =>
        cases hs
        exact (h hw).setThread i fun _ _ hc => by cases hc; trivial
      | update new_capacity new_refill_rate =>
        simp only [Timed.call] at hs
        split at hs
        · cases hs
        · cases hs
          have hset := (h hw).setThread (t := some (.update new_capacity new_refill_rate, .called))
            i fun _ _ hc => by cases hc; trivial
          exact ⟨hset.state, hset.thread⟩
    · cases hs
  | loadConfig i =>
    simp only [Timed.step] at hs
    split at hs
    · rename_i work hi
      cases hs
      cases work with
      | tryAcquire need =>
        refine Timely.setThread (h hw) i fun _ _ hc => ?_
        split at hc
        · cases hc
        · cases hc
          trivial
      | availableTokens | update => exact Timely.setThread (h hw) i fun _ _ hc => by cases hc; trivial
    · cases hs
  | loadState i =>
    simp only [Timed.step] at hs
    split at hs
    · cases hs
      exact Timely.setThread (h hw) i fun _ _ hc => by cases hc; exact (h hw).state
    · cases hs
  | sample i =>
    simp only [Timed.step] at hs
    split at hs
    · rename_i work cfg cur hi
      cases hs
      refine Timely.setThread (h hw) i fun _ _ hc => ?_
      cases hc
      -- the timestamp was loaded when the clock stood no later than now
      have hcur : cur.timestamp_ms.toNat ≤ r.clock := (h hw).thread i _ _ hi
      have hnow : (nowMs r.clock).toNat = r.clock := by
        rw [nowMs, UInt32.toNat_ofNat', Nat.mod_eq_of_lt (show r.clock < 2 ^ 32 from hw)]
      exact ⟨UInt32.le_iff_toNat_le.mpr (hnow.symm ▸ hcur), Nat.le_of_eq hnow⟩
    · cases hs
  | attempt i spurious =>
    simp only [Timed.step] at hs
    split at hs
    · rename_i work cfg cur now hi
      cases hs
      rw [attempt_clock] at hw
      exact (h hw).attempt ((h hw).thread i _ _ hi) spurious work
    · cases hs
  | storeConfig i =>
    simp only [Timed.step] at hs
    split at hs
    · cases hs
      have hset := (h hw).idle i
      exact ⟨hset.state, hset.thread⟩
    · cases hs

/-- Whenever a thread is about to compute `now - timestamp_ms`, the difference is that of the
two times: it does not wrap. -/
theorem elapsed_exact {capacity rate : UInt32}
    (h : Reach step Always { bucket := init capacity rate } r) (hw : r.clock < 2 ^ 32)
    (hi : r.threads i = some (work, .sampled cfg cur now)) :
    cur.timestamp_ms ≤ now ∧
      (now - cur.timestamp_ms).toNat = now.toNat - cur.timestamp_ms.toNat := by
  have htimely := h.invariant (I := fun r => r.clock < 2 ^ 32 → Timely r)
    (fun _ => ⟨Nat.zero_le _, fun _ _ _ hn => by cases hn⟩) fun _ _ _ hr _ hs hw => Timely.step hr hs hw
  have hle := ((htimely hw).thread i _ _ hi).1
  exact ⟨hle, UInt32.toNat_sub_of_le _ _ hle⟩

/-- Three threads: the first samples the clock late, after the second has moved the timestamp
and an `update` has published a later one. -/
theorem elapsed_exact_run : ∃ r, exec step Always { bucket := init 100 1000 }
      [.tick 3, .call 0 (.tryAcquire 5), .loadConfig 0, .loadState 0, .call 1 (.tryAcquire 7),
        .loadConfig 1, .loadState 1, .tick 4, .sample 1, .sample 0, .attempt 1 false,
        .call 2 (.update 50 10), .loadConfig 2, .loadState 2, .tick 9, .sample 2,
        .attempt 2 false, .attempt 0 false, .tick 1, .sample 0] = some r ∧
    r.threads 0 = some (.tryAcquire 5, .sampled ⟨100, 1000⟩ ⟨16, 50⟩ 17) ∧
    (16 : UInt32) ≤ 17 ∧ ((17 : UInt32) - 16).toNat = 17 - 16 := by
  obtain ⟨r, hr, hi, hclock⟩ : ∃ r, exec step Always { bucket := init 100 1000 }
      [.tick 3, .call 0 (.tryAcquire 5), .loadConfig 0, .loadState 0, .call 1 (.tryAcquire 7),
        .loadConfig 1, .loadState 1, .tick 4, .sample 1, .sample 0, .attempt 1 false,
        .call 2 (.update 50 10), .loadConfig 2, .loadState 2, .tick 9, .sample 2,
        .attempt 2 false, .attempt 0 false, .tick 1, .sample 0] = some r ∧
      r.threads 0 = some (.tryAcquire 5, .sampled ⟨100, 1000⟩ ⟨16, 50⟩ 17) ∧ r.clock = 17 :=
    ⟨_, rfl, by decide, rfl⟩
  exact ⟨r, hr, hi, elapsed_exact (.of_exec hr) (by omega) hi⟩

end Timed

end TokenBucket

end VortexNet
