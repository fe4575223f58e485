import Mathlib.Algebra.Group.Nat.Defs
import VortexNet.Lib.Reach

/-!
# The event loop and its wakeup

`EventLoop.cc`: the loop thread between its calls to `poll`, the queue of
pending functors and the eventfd that interrupts `poll`. The unit of
interleaving is one access to shared data: a call of `queueInLoop` on another
thread is its locked `push_back` and, later, its `wakeup`; the loop thread
stops at each place where a callback or another thread may act.

`wakeup_kept` covers every run in which a functor that queues another one
finds an unread wakeup. `queueInLoop` writes none itself in that case, so
without it the new functor waits for the poll timeout.
-/

namespace VortexNet

open Systems (Reach exec)

namespace EventLoop

structure Queued (φ : Type) where
  ticket : Nat
  functor : φ
  deriving DecidableEq

inductive Active
  | wakeupChannel
  | other
  deriving DecidableEq

/-- Where the loop thread stands. In `handle` and `run` the callback of the
first entry is executing. -/
inductive At (φ : Type)
  | outside
  | test
  | poll
  | handle (activeChannels_ : List Active)
  | doPendingFunctors
  | swap
  | run (functors : List (Queued φ))
  deriving DecidableEq

/-- The calls of other threads that still have to run `wakeup()`: the thread
and, for `queueInLoop`, the ticket of what it pushed. -/
abbrev Calls := List (Nat × Option Nat)

end EventLoop

structure EventLoop (φ : Type) where
  quit_ : Bool
  callingPendingFunctors_ : Bool
  pendingFunctors_ : List (EventLoop.Queued φ)
  wakeupFd_ : Nat
  loopAt : EventLoop.At φ
  calls : EventLoop.Calls
  tickets : Nat
  deriving DecidableEq

namespace EventLoop

variable {φ : Type}

/-- Before `loop()` is called: nothing queued, the eventfd at zero. -/
def init : EventLoop φ where
  quit_ := false
  callingPendingFunctors_ := false
  pendingFunctors_ := []
  wakeupFd_ := 0
  loopAt := .outside
  calls := []
  tickets := 0

/-- `wakeup`: adds one to the eventfd, which refuses to pass `2^64 - 2`. -/
def wakeup (s : EventLoop φ) : EventLoop φ :=
  { s with wakeupFd_ := if s.wakeupFd_ < 2 ^ 64 - 2 then s.wakeupFd_ + 1 else s.wakeupFd_ }

def handleReading (s : EventLoop φ) : EventLoop φ := { s with wakeupFd_ := 0 }

def push (s : EventLoop φ) (cb : φ) : EventLoop φ :=
  { s with pendingFunctors_ := s.pendingFunctors_ ++ [⟨s.tickets, cb⟩], tickets := s.tickets + 1 }

/-- `queueInLoop` on the loop thread, where `isInLoopThread()` is true. -/
def queueInLoop (s : EventLoop φ) (cb : φ) : EventLoop φ :=
  if !s.callingPendingFunctors_ then (s.push cb).wakeup else s.push cb

def inCallback (s : EventLoop φ) : Bool :=
  match s.loopAt with
  | .outside => true
  | .handle (.other :: _) => true
  | .run (_ :: _) => true
  | _ => false

/-- The loop thread's own next step; `reported` is what `poll` fills in. -/
def advance (s : EventLoop φ) (reported : List Active) : Option (EventLoop φ) :=
  match s.loopAt with
  | .outside => some { s with quit_ := false, loopAt := .test }
  | .test => some { s with loopAt := if s.quit_ then .outside else .poll }
  | .poll =>
    if .wakeupChannel ∈ reported → 0 < s.wakeupFd_ then some { s with loopAt := .handle reported }
    else none
  | .handle (.wakeupChannel :: cs) => some { s.handleReading with loopAt := .handle cs }
  | .handle (.other :: cs) => some { s with loopAt := .handle cs }
  | .handle [] => some { s with loopAt := .doPendingFunctors }
  | .doPendingFunctors => some { s with callingPendingFunctors_ := true, loopAt := .swap }
  | .swap => some { s with pendingFunctors_ := [], loopAt := .run s.pendingFunctors_ }
  | .run (_ :: fs) => some { s with loopAt := .run fs }
  | .run [] => some { s with callingPendingFunctors_ := false, loopAt := .test }

inductive Event (φ : Type)
  | advance (reported : List Active)
  | queueInLoop (cb : φ)
  | quit
  /-- Another thread's `queueInLoop`, up to its `wakeup()`. -/
  | push (thread : Nat) (cb : φ)
  /-- Another thread's `quit`, up to its `wakeup()`. -/
  | quitFrom (thread : Nat)
  /-- The `wakeup()` that ends another thread's call. -/
  | wakeup (thread : Nat)

def step (s : EventLoop φ) : Event φ → Option (EventLoop φ)
  | .advance reported => s.advance reported
  | .queueInLoop cb => if s.inCallback then some (s.queueInLoop cb) else none
  | .quit => if s.inCallback then some { s with quit_ := true } else none
  | .push t cb =>
    if t ∈ s.calls.map Prod.fst then none
    else some { s.push cb with calls := (t, some s.tickets) :: s.calls }
  | .quitFrom t =>
    if t ∈ s.calls.map Prod.fst then none
    else some { s with quit_ := true, calls := (t, none) :: s.calls }
  | .wakeup t =>
    if t ∈ s.calls.map Prod.fst then
      some { s.wakeup with calls := s.calls.filter (·.1 ≠ t) }
    else none

/-- A queued functor whose `queueInLoop` call has returned is still in the vector. -/
def Waiting (s : EventLoop φ) : Prop :=
  ∃ q ∈ s.pendingFunctors_, (some q.ticket) ∉ s.calls.map Prod.snd

/-- The loop is about to block in `poll` with such a functor only if a wakeup is unread. -/
def WakeupKept (s : EventLoop φ) : Prop := s.loopAt = .poll → s.Waiting → 0 < s.wakeupFd_

/-- The loop thread queues a functor from a running functor only while a wakeup
is unread. -/
def QueuesAwake (s : EventLoop φ) : Event φ → Prop
  | .queueInLoop _ => s.callingPendingFunctors_ = true → 0 < s.wakeupFd_
  | _ => True

instance (s : EventLoop φ) (e : Event φ) : Decidable (s.QueuesAwake e) := by
  cases e <;> unfold QueuesAwake <;> infer_instance

-- ---------------------------------------------------------------------------
-- The pieces of a step
-- ---------------------------------------------------------------------------

@[simp] theorem wakeup_pos (s : EventLoop φ) : 0 < s.wakeup.wakeupFd_ := by
  simp only [wakeup]
  split <;> omega

@[simp] theorem wakeup_loopAt (s : EventLoop φ) : s.wakeup.loopAt = s.loopAt := rfl

@[simp] theorem push_loopAt (s : EventLoop φ) (cb : φ) : (s.push cb).loopAt = s.loopAt := rfl

@[simp] theorem push_wakeupFd_ (s : EventLoop φ) (cb : φ) :
    (s.push cb).wakeupFd_ = s.wakeupFd_ := rfl

def At.awake : At φ → Bool
  | .outside | .test | .poll | .run _ => true
  | _ => false

/-- The invariant: a functor that is waiting while the loop thread is past its
swap has its wakeup unread. -/
def Inv (s : EventLoop φ) : Prop := s.loopAt.awake = true → s.Waiting → 0 < s.wakeupFd_

theorem not_waiting_of_nil {s : EventLoop φ} (h : s.pendingFunctors_ = []) : ¬ s.Waiting := by
  rintro ⟨_, hq, -⟩
  rw [h] at hq
  cases hq

theorem Waiting.of_push {s : EventLoop φ}
    (h : Waiting { s.push cb with calls := (t, some s.tickets) :: s.calls }) : s.Waiting := by
  obtain ⟨q, hq, hc⟩ := h
  simp only [push, List.mem_append, List.mem_cons, List.not_mem_nil, or_false, List.map_cons,
    not_or, Option.some.injEq] at hq hc
  rcases hq with hq | rfl
  · exact ⟨q, hq, hc.2⟩
  · exact absurd rfl hc.1

theorem Waiting.of_quitFrom {s : EventLoop φ}
    (h : Waiting { s with quit_ := true, calls := (t, none) :: s.calls }) : s.Waiting := by
  obtain ⟨q, hq, hc⟩ := h
  exact ⟨q, hq, fun hm => hc (List.mem_cons_of_mem _ hm)⟩

theorem Inv.advance (hi : Inv s) (h : s.advance reported = some t) : Inv t := by
  unfold EventLoop.advance at h
  split at h <;> rename_i hat
  case h_3 =>
    split at h
    · cases h; exact nofun
    · cases h
  all_goals cases h
  case h_1 | h_9 => exact fun _ hw => hi (by rw [hat]; rfl) hw
  case h_2 => exact fun _ hw => hi (by rw [hat]; rfl) hw
  case h_8 => exact fun _ hw => (not_waiting_of_nil rfl hw).elim
  case h_10 => exact fun _ hw => hi (by rw [hat]; rfl) hw
  all_goals exact nofun

theorem Inv.step (hi : Inv s) (hc : QueuesAwake s e) (h : s.step e = some t) : Inv t := by
  cases e with
  | advance reported => exact hi.advance h
  | queueInLoop cb =>
    simp only [EventLoop.step] at h
    split at h
    · cases h
      intro _ _
      unfold EventLoop.queueInLoop
      split
      · simp
      · exact hc (by simp_all)
    · cases h
  | quit =>
    simp only [EventLoop.step] at h
    split at h
    · cases h; exact hi
    · cases h
  | push t cb =>
    simp only [EventLoop.step] at h
    split at h
    · cases h
    · cases h; exact fun ha hw => hi ha hw.of_push
  | quitFrom t =>
    simp only [EventLoop.step] at h
    split at h
    · cases h
    · cases h; exact fun ha hw => hi ha hw.of_quitFrom
  | wakeup t =>
    simp only [EventLoop.step] at h
    split at h
    · cases h; exact fun _ _ => wakeup_pos s
    · cases h

theorem Inv.wakeupKept (hi : Inv s) : s.WakeupKept :=
  fun hat hw => hi (by rw [hat]; rfl) hw

theorem init_inv : Inv (init : EventLoop φ) := fun _ hw => (not_waiting_of_nil rfl hw).elim

-- ---------------------------------------------------------------------------
-- A functor queued from a functor
-- ---------------------------------------------------------------------------

structure Shape (s : EventLoop φ) : Prop where
  flag : s.callingPendingFunctors_ = true → s.loopAt = .swap ∨ ∃ fs, s.loopAt = .run fs
  fresh : ∀ n, some n ∈ s.calls.map Prod.snd → n < s.tickets

theorem Shape.advance (hi : Shape s) (h : s.advance reported = some t) : Shape t := by
  unfold EventLoop.advance at h
  split at h <;> rename_i hat
  case h_3 =>
    split at h
    · cases h; exact ⟨fun hf => by simpa [hat] using hi.flag hf, hi.fresh⟩
    · cases h
  all_goals cases h
  case h_7 => exact ⟨fun _ => .inl rfl, hi.fresh⟩
  case h_8 => exact ⟨fun _ => .inr ⟨_, rfl⟩, hi.fresh⟩
  case h_9 => exact ⟨fun _ => .inr ⟨_, rfl⟩, hi.fresh⟩
  case h_10 => exact ⟨nofun, hi.fresh⟩
  all_goals exact ⟨fun hf => by simpa [hat] using hi.flag hf, hi.fresh⟩

theorem Shape.step (hi : Shape s) (h : s.step e = some t) : Shape t := by
  cases e with
  | advance reported => exact hi.advance h
  | queueInLoop cb =>
    simp only [EventLoop.step] at h
    split at h
    · cases h
      unfold EventLoop.queueInLoop
      split <;> exact ⟨hi.flag, fun n hn => Nat.lt_succ_of_lt (hi.fresh n hn)⟩
    · cases h
  | quit =>
    simp only [EventLoop.step] at h
    split at h
    · cases h; exact ⟨hi.flag, hi.fresh⟩
    · cases h
  | push t cb =>
    simp only [EventLoop.step] at h
    split at h
    · cases h
    · cases h
      refine ⟨hi.flag, fun n hn => ?_⟩
      simp only [List.map_cons, List.mem_cons, Option.some.injEq] at hn
      rcases hn with rfl | hn
      · exact Nat.lt_succ_self _
      · exact Nat.lt_succ_of_lt (hi.fresh n hn)
  | quitFrom t =>
    simp only [EventLoop.step] at h
    split at h
    · cases h
    · cases h; exact ⟨hi.flag, fun n hn => hi.fresh n (by simpa using hn)⟩
  | wakeup t =>
    simp only [EventLoop.step] at h
    split at h
    · cases h
      refine ⟨hi.flag, fun n hn => hi.fresh n ?_⟩
      obtain ⟨c, hc, hn⟩ := List.mem_map.mp hn
      exact List.mem_map.mpr ⟨c, (List.mem_filter.mp hc).1, hn⟩
    · cases h

/-- Left alone, the loop thread runs out its functors and comes back to `poll`. -/
theorem returns_to_poll {s : EventLoop φ} (hat : s.loopAt = .run fs) (hq : s.quit_ = false) :
    Reach step Systems.Always s { s with callingPendingFunctors_ := false, loopAt := .poll } := by
  induction fs generalizing s with
  | nil =>
    refine .tail (.tail .refl trivial (e := .advance [])
      (u := { s with callingPendingFunctors_ := false, loopAt := .test }) ?_) trivial
      (e := .advance []) ?_
    · simp [EventLoop.step, EventLoop.advance, hat]
    · simp [EventLoop.step, EventLoop.advance, hq]
  | cons f fs ih =>
    have hone : s.step (.advance []) = some { s with loopAt := .run fs } := by
      simp [EventLoop.step, EventLoop.advance, hat]
    exact Reach.trans (.tail .refl trivial hone) (ih (s := { s with loopAt := .run fs }) rfl hq)

/-- A functor queued by a running functor with no wakeup unread is stranded:
from there the loop thread alone comes to block on it. -/
theorem stranded (h : Reach step Systems.Always (init : EventLoop φ) s)
    (hb : ¬ QueuesAwake s e) (hs : s.step e = some t) (hq : s.quit_ = false) :
    ∃ u, Reach step Systems.Always t u ∧ ¬ u.WakeupKept := by
  have hi : Shape s := h.invariant ⟨nofun, nofun⟩ fun _ _ _ hi _ hs => hi.step hs
  cases e with
  | queueInLoop cb =>
    obtain ⟨hflag, hfd⟩ := Classical.not_imp.mp hb
    replace hfd := Nat.eq_zero_of_not_pos hfd
    simp only [EventLoop.step, EventLoop.queueInLoop, hflag] at hs
    split at hs
    · rename_i hin
      cases hs
      obtain ⟨fs, hat⟩ : ∃ fs, s.loopAt = .run fs := by
        rcases hi.flag hflag with hat | hat
        · simp [inCallback, hat] at hin
        · exact hat
      refine ⟨_, returns_to_poll (s := s.push cb) hat hq, fun hk => ?_⟩
      have hpos := hk rfl ⟨⟨s.tickets, cb⟩, by simp [push], fun hm =>
        Nat.lt_irrefl _ (hi.fresh _ hm)⟩
      exact absurd hpos (by simp [hfd])
    · cases hs
  | _ => exact absurd trivial hb

/-- One functor that queues another: the loop is about to block with it pending
and the eventfd at zero. -/
theorem not_wakeup_kept : ∃ s, Reach step Systems.Always (init : EventLoop Nat) s ∧
    s.loopAt = .poll ∧ s.calls = [] ∧ s.pendingFunctors_ ≠ [] ∧ s.wakeupFd_ = 0 :=
  ⟨_, .of_exec (l := [.advance [], .advance [], .push 1 7, .wakeup 1,
    .advance [.wakeupChannel], .advance [], .advance [], .advance [], .advance [],
    .queueInLoop 8, .advance [], .advance [], .advance []]) rfl, by decide⟩

/-- In every run whose functors queue functors only while a wakeup is unread,
the loop never blocks on a waiting functor without one, nor on any pending
functor while no other thread is inside a call. -/
theorem wakeup_kept (h : Reach step QueuesAwake (init : EventLoop φ) s) :
    s.WakeupKept ∧
      (s.loopAt = .poll → s.calls = [] → s.pendingFunctors_ ≠ [] → 0 < s.wakeupFd_) := by
  have hk := (h.invariant init_inv fun _ _ _ hi hc hs => hi.step hc hs).wakeupKept
  refine ⟨hk, fun hat hcalls hne => hk hat ?_⟩
  obtain ⟨q, qs, hq⟩ := List.exists_cons_of_ne_nil hne
  exact ⟨q, by simp [hq], by simp [hcalls]⟩

/-- A functor another thread queues once the loop is about to block wakes it. -/
theorem wakeup_kept_pushed : ∃ s, Reach step QueuesAwake (init : EventLoop Nat) s ∧
    s.loopAt = .poll ∧ s.pendingFunctors_ ≠ [] ∧ 0 < s.wakeupFd_ :=
  have h : Reach step QueuesAwake (init : EventLoop Nat) _ :=
    .of_exec (l := [.advance [], .advance [], .push 1 7, .wakeup 1]) rfl
  ⟨_, h, rfl, by decide, (wakeup_kept h).2 rfl rfl (by decide)⟩

end EventLoop

end VortexNet
