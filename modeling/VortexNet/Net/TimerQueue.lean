import Mathlib.Algebra.Group.Nat.Defs
import Mathlib.Logic.Function.Basic
import VortexNet.Lib.Reach

/-!
# The timer queue

`TimerQueue.cc` on its loop thread. Timer objects live in a heap, a `Timer*` is
an address in it, and the allocator may hand out an address again once its
object is deleted. Reading or deleting through an address with no object, or
reading `*timers_.end()`, is undefined in the source and a `Fault` here.
Timestamps and intervals are in microseconds.

The steps are those between which user code runs: `handleRead` goes up to its
first callback, and the return from a callback goes on to the next one or, after
the last, through the rest of `handleRead`. While a callback runs, and between
events, user code adds and cancels timers.
-/

namespace VortexNet

open Systems (Reach exec)

namespace TimerQueue

structure Timer where
  expiration_ : Int
  interval_ : Nat
  sequence_ : Nat
  deriving DecidableEq

def Timer.repeat_ (t : Timer) : Bool := 0 < t.interval_

structure TimerId where
  timer_ : Nat
  sequence_ : Nat
  deriving DecidableEq

abbrev Entry := Int × Nat

inductive Fault
  | useAfterFree (timer : Nat)
  | doubleDelete (timer : Nat)
  | endDereferenced
  deriving DecidableEq

/-- Whether `handleRead` is under way: its `now`, the expired batch and what of
the batch has not been run yet. -/
inductive Phase
  | idle
  | running (now : Int) (expired next : List Entry)
  deriving DecidableEq

/-- What happened to a timer, by its sequence number. -/
inductive Log
  | ran (now : Int) (sequence : Nat)
  | cancelled (sequence : Nat)
  deriving DecidableEq

end TimerQueue

/-- `timerfd_` is the moment the kernel alarm is set for. `issued` and `log`
record the ids returned by `addTimer` and, newest first, what was run and
cancelled. -/
structure TimerQueue where
  heap : Nat → Option TimerQueue.Timer
  num_created : Nat
  timers_ : List TimerQueue.Entry
  activeTimers_ : List Nat
  cancelingTimers_ : List Nat
  callingExpiredTimers_ : Bool
  timerfd_ : Option Int
  phase : TimerQueue.Phase
  issued : List TimerQueue.TimerId
  log : List TimerQueue.Log

namespace TimerQueue

def init : TimerQueue where
  heap := fun _ => none
  num_created := 0
  timers_ := []
  activeTimers_ := []
  cancelingTimers_ := []
  callingExpiredTimers_ := false
  timerfd_ := none
  phase := .idle
  issued := []
  log := []

-- ---------------------------------------------------------------------------
-- std::set<Entry>
-- ---------------------------------------------------------------------------

/-- `std::pair`'s order: by timestamp, then by address. -/
def entryLt (x y : Entry) : Bool := x.1 < y.1 ∨ x.1 = y.1 ∧ x.2 < y.2

def setInsert (e : Entry) : List Entry → List Entry
  | [] => [e]
  | x :: xs =>
    if entryLt e x then e :: x :: xs
    else if entryLt x e then x :: setInsert e xs
    else x :: xs

def UINTPTR_MAX : Nat := 2 ^ 64 - 1

-- ---------------------------------------------------------------------------
-- The functions of the source
-- ---------------------------------------------------------------------------

def deref (q : TimerQueue) (timer : Nat) : Except Fault Timer :=
  match q.heap timer with
  | some t => .ok t
  | none => .error (.useAfterFree timer)

def delete (q : TimerQueue) (timer : Nat) : Except Fault TimerQueue :=
  match q.heap timer with
  | some _ => .ok { q with heap := Function.update q.heap timer none }
  | none => .error (.doubleDelete timer)

/-- At least 100 microseconds from the clock reading `clock` on. -/
def resetTimerfd (q : TimerQueue) (expiration clock : Int) : TimerQueue :=
  { q with timerfd_ := some (clock + max (expiration - clock) 100) }

def insert (q : TimerQueue) (timer : Nat) : Except Fault (TimerQueue × Bool) := do
  let t ← q.deref timer
  let erliest := match q.timers_ with
    | [] => true
    | e :: _ => t.expiration_ < e.1
  return ({ q with
    timers_ := setInsert (t.expiration_, timer) q.timers_
    activeTimers_ := q.activeTimers_.insert timer }, erliest)

def addTimerInLoop (q : TimerQueue) (timer : Nat) (clock : Int) : Except Fault TimerQueue := do
  let (q, erliest) ← q.insert timer
  if erliest then
    let t ← q.deref timer
    return q.resetTimerfd t.expiration_ clock
  else return q

/-- `new Timer` at the address the allocator chose. -/
def newTimer (q : TimerQueue) (timer : Nat) (when_ : Int) (interval : Nat) : TimerQueue :=
  { q with
    heap := Function.update q.heap timer (some ⟨when_, interval, q.num_created + 1⟩)
    num_created := q.num_created + 1
    issued := ⟨timer, q.num_created + 1⟩ :: q.issued }

def addTimer (q : TimerQueue) (timer : Nat) (when_ : Int) (interval : Nat) (clock : Int) :
    Except Fault TimerQueue :=
  (q.newTimer timer when_ interval).addTimerInLoop timer clock

def cancelInLoop (q : TimerQueue) (timerid : TimerId) (clock : Int) : Except Fault TimerQueue := do
  let timer := timerid.timer_
  if timer ∈ q.activeTimers_ then
    let t ← q.deref timer
    -- `it` compares equal to `begin()` at the first entry, and at `end()` of an empty set
    let q ← match q.timers_ with
      | [] => .error .endDereferenced
      | e :: _ => .ok (if (t.expiration_, timer) = e then q.resetTimerfd e.1 clock else q)
    { q with
      timers_ := q.timers_.erase (t.expiration_, timer)
      activeTimers_ := q.activeTimers_.erase timer }.delete timer
  else if q.callingExpiredTimers_ then
    return { q with cancelingTimers_ := q.cancelingTimers_.insert timer }
  else return q

def cancel (q : TimerQueue) (timerid : TimerId) (clock : Int) : Except Fault TimerQueue := do
  let q ← q.cancelInLoop timerid clock
  return { q with log := .cancelled timerid.sequence_ :: q.log }

/-- The entries below `(now, UINTPTR_MAX)` leave the set; their timers are
inserted into `activeTimers_`. -/
def getExpired (q : TimerQueue) (now : Int) : List Entry × TimerQueue :=
  let expired := q.timers_.takeWhile (entryLt · (now, UINTPTR_MAX))
  (expired, { q with
    timers_ := q.timers_.dropWhile (entryLt · (now, UINTPTR_MAX))
    activeTimers_ := expired.foldl (fun s e => s.insert e.2) q.activeTimers_ })

/-- The second loop of `handleRead`, at one entry of the batch. -/
def settle (q : TimerQueue) (now : Int) (e : Entry) : Except Fault TimerQueue := do
  let t ← q.deref e.2
  if t.repeat_ && e.2 ∉ q.cancelingTimers_ then
    let restarted := { t with expiration_ := now + t.interval_ }
    let (q, _) ← { q with heap := Function.update q.heap e.2 (some restarted) }.insert e.2
    return q
  else q.delete e.2

/-- The rest of `handleRead` once every callback has run. -/
def finish (q : TimerQueue) (now clock : Int) (expired : List Entry) : Except Fault TimerQueue := do
  let q ← expired.foldlM (fun q e => q.settle now e) q
  let q := { q with cancelingTimers_ := [], phase := .idle }
  match q.timers_ with
  | [] => return q
  | e :: _ =>
    let t ← q.deref e.2
    return q.resetTimerfd t.expiration_ clock

/-- From the end of one callback to the start of the next, or to the end of `handleRead`. -/
def resume (q : TimerQueue) (clock : Int) : Except Fault TimerQueue :=
  match q.phase with
  | .idle => .ok q
  | .running now expired [] => q.finish now clock expired
  | .running now expired (e :: next) => do
    let t ← q.deref e.2
    return { q with phase := .running now expired next, log := .ran now t.sequence_ :: q.log }

/-- `handleRead` up to its first callback; reading the timerfd disarms an alarm that is due. -/
def handleRead (q : TimerQueue) (now clock : Int) : Except Fault TimerQueue :=
  let q := { q with timerfd_ := q.timerfd_.filter (now < ·) }
  let (expired, q) := q.getExpired now
  { q with callingExpiredTimers_ := true, phase := .running now expired expired }.resume clock

inductive Event
  | addTimer (timer : Nat) (when_ : Int) (interval : Nat) (clock : Int)
  | cancel (timerid : TimerId) (clock : Int)
  | handleRead (now clock : Int)
  | return_ (clock : Int)
  deriving DecidableEq

/-- A step of a queue that has not faulted. `addTimer` allocates a free address
and `cancel` names an id that `addTimer` returned. -/
def stepOk (q : TimerQueue) : Event → Option (Except Fault TimerQueue)
  | .addTimer timer when_ interval clock =>
    if (q.heap timer).isNone ∧ timer < UINTPTR_MAX then
      some (q.addTimer timer when_ interval clock)
    else none
  | .cancel timerid clock => if timerid ∈ q.issued then some (q.cancel timerid clock) else none
  | .handleRead now clock => if q.phase = .idle then some (q.handleRead now clock) else none
  | .return_ clock => if q.phase ≠ .idle then some (q.resume clock) else none

def step : Except Fault TimerQueue → Event → Option (Except Fault TimerQueue)
  | .ok q, e => q.stepOk e
  | .error _, _ => none

end TimerQueue

end VortexNet
