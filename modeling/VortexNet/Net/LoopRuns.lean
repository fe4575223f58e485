import Mathlib.Data.List.Basic
import VortexNet.Net.EventLoop

/-!
# What the loop runs and when it stops

The functors of an event loop run in the order of the locked `push_back`s, each
once. A `quit` that finds the loop inside `loop()` is kept, and ends it before
another `poll`; one that comes before is undone by the `quit_ = false` that
`loop()` begins with.
-/

namespace VortexNet.EventLoop

open Systems (Reach Always)

variable {φ : Type} {s t u : EventLoop φ} {e : Event φ}

-- ---------------------------------------------------------------------------
-- The order of the functors
-- ---------------------------------------------------------------------------

def functors (s : EventLoop φ) : List (Queued φ) := match s.loopAt with
  | .run functors => functors
  | _ => []

def pushed (s : EventLoop φ) : Event φ → List (Queued φ)
  | .queueInLoop cb | .push _ cb => [⟨s.tickets, cb⟩]
  | .advance _ | .quit | .quitFrom _ | .wakeup _ => []

def returned (s : EventLoop φ) : Event φ → List (Queued φ)
  | .advance _ => s.functors.take 1
  | _ => []

/-- A loop with all that was queued and all that has run. -/
structure History (φ : Type) where
  loop : EventLoop φ
  queued : List (Queued φ) := []
  ran : List (Queued φ) := []

def History.step (h : History φ) (e : Event φ) : Option (History φ) :=
  (h.loop.step e).map fun loop =>
    { loop, queued := h.queued ++ pushed h.loop e, ran := h.ran ++ returned h.loop e }

/-- What has run, what is being run and what is pending are what was queued, in this order. -/
structure History.InOrder (h : History φ) : Prop where
  order : h.ran ++ h.loop.functors ++ h.loop.pendingFunctors_ = h.queued
  tickets : h.queued.map Queued.ticket = List.range h.loop.tickets

theorem advance_functors (h : s.advance reported = some t) :
    s.functors ++ s.pendingFunctors_ = s.functors.take 1 ++ (t.functors ++ t.pendingFunctors_) ∧
      t.tickets = s.tickets := by
  simp only [EventLoop.advance] at h
  split at h <;> rename_i hat
  case h_3 =>
    split at h <;> cases h
    simp [functors, hat]
  case h_2 =>
    cases h
    cases hq : s.quit_ <;> simp [functors, hat]
  all_goals
    cases h
    simp [functors, handleReading, hat]

theorem step_functors (h : s.step e = some t) :
    s.functors ++ s.pendingFunctors_ ++ pushed s e =
      returned s e ++ (t.functors ++ t.pendingFunctors_) ∧
    t.tickets = s.tickets + (pushed s e).length := by
  cases e with
  | advance reported =>
    obtain ⟨horder, htickets⟩ := advance_functors h
    exact ⟨by rw [pushed, List.append_nil, horder, returned], by rw [htickets]; rfl⟩
  | queueInLoop cb =>
    simp only [EventLoop.step] at h
    split at h <;> cases h
    unfold EventLoop.queueInLoop
    split <;> simp [functors, push, wakeup, pushed, returned]
  | quit =>
    simp only [EventLoop.step] at h
    split at h <;> cases h
    simp [functors, pushed, returned]
  | push thread cb =>
    simp only [EventLoop.step] at h
    split at h <;> cases h
    simp [functors, push, pushed, returned]
  | quitFrom thread =>
    simp only [EventLoop.step] at h
    split at h <;> cases h
    simp [functors, pushed, returned]
  | wakeup thread =>
    simp only [EventLoop.step] at h
    split at h <;> cases h
    simp [functors, wakeup, pushed, returned]

theorem pushed_tickets (s : EventLoop φ) (e : Event φ) :
    (pushed s e).map Queued.ticket = List.range' s.tickets (pushed s e).length := by
  cases e <;> rfl

theorem History.InOrder.step {h h' : History φ} (hi : h.InOrder) (hs : h.step e = some h') :
    h'.InOrder := by
  obtain ⟨loop, hloop, rfl⟩ := Option.map_eq_some_iff.mp hs
  obtain ⟨horder, htickets⟩ := step_functors hloop
  constructor
  · show h.ran ++ returned h.loop e ++ loop.functors ++ loop.pendingFunctors_ = h.queued ++ pushed h.loop e
    rw [← hi.order, List.append_assoc, List.append_assoc, ← horder]
    simp only [List.append_assoc]
  · show (h.queued ++ pushed h.loop e).map Queued.ticket = List.range loop.tickets
    have hsplit := List.range'_append_1 (s := 0) (m := h.loop.tickets) (n := (pushed h.loop e).length)
    rw [Nat.zero_add] at hsplit
    rw [List.map_append, hi.tickets, pushed_tickets, htickets, List.range_eq_range',
      List.range_eq_range', hsplit]

/-- In every interleaving the functors run in the order in which they were pushed, each once. -/
theorem runs_in_order {h : History φ} (hr : Reach History.step Always { loop := init } h) :
    h.ran ++ h.loop.functors ++ h.loop.pendingFunctors_ = h.queued ∧
      h.queued.map Queued.ticket = List.range h.loop.tickets := by
  have hi := hr.invariant ⟨rfl, rfl⟩ fun _ _ _ hi _ hs => History.InOrder.step hi hs
  exact ⟨hi.order, hi.tickets⟩

/-- The second of two functors that another thread has queued queues a third. -/
theorem runs_in_order_batch : ∃ h : History Nat, Reach History.step Always { loop := init } h ∧
    h.ran = [⟨0, 7⟩] ∧ h.queued = [⟨0, 7⟩, ⟨1, 8⟩, ⟨2, 9⟩] ∧
      h.ran ++ h.loop.functors ++ h.loop.pendingFunctors_ = h.queued :=
  have hr : Reach History.step Always ({ loop := init } : History Nat) _ :=
    .of_exec (l := [.advance [], .advance [], .push 1 7, .wakeup 1, .push 1 8, .wakeup 1,
      .advance [.wakeupChannel], .advance [], .advance [], .advance [], .advance [], .advance [],
      .queueInLoop 9]) rfl
  ⟨_, hr, rfl, rfl, (runs_in_order hr).1⟩

-- ---------------------------------------------------------------------------
-- Quitting
-- ---------------------------------------------------------------------------

/-- How far the loop thread is in one pass of `loop()`, from its `poll` to its return. -/
def At.rank : At φ → Nat
  | .poll => 0
  | .handle _ => 1
  | .doPendingFunctors => 2
  | .swap => 3
  | .run _ => 4
  | .test => 5
  | .outside => 6

/-- The loop thread is inside `loop()`, past its `quit_ = false`. -/
def Inside (s : EventLoop φ) (_ : Event φ) : Prop := s.loopAt ≠ .outside

theorem quit_step (hq : s.quit_ = true) (hat : s.loopAt ≠ .outside) (h : s.step e = some t) :
    t.quit_ = true ∧ s.loopAt.rank ≤ t.loopAt.rank := by
  cases e with
  | advance reported =>
    simp only [EventLoop.step, EventLoop.advance] at h
    split at h <;> rename_i hloop
    case h_1 => exact absurd hloop hat
    case h_3 =>
      split at h <;> cases h
      exact ⟨hq, by simp [hloop, At.rank]⟩
    all_goals
      cases h
      simp [hloop, hq, At.rank, handleReading]
  | queueInLoop cb =>
    simp only [EventLoop.step] at h
    split at h <;> cases h
    unfold EventLoop.queueInLoop
    split <;> exact ⟨hq, Nat.le_refl _⟩
  | quit =>
    simp only [EventLoop.step] at h
    split at h <;> cases h
    exact ⟨rfl, Nat.le_refl _⟩
  | push thread cb =>
    simp only [EventLoop.step] at h
    split at h <;> cases h
    exact ⟨hq, Nat.le_refl _⟩
  | quitFrom thread =>
    simp only [EventLoop.step] at h
    split at h <;> cases h
    exact ⟨rfl, Nat.le_refl _⟩
  | wakeup thread =>
    simp only [EventLoop.step] at h
    split at h <;> cases h
    exact ⟨hq, Nat.le_refl _⟩

theorem loopAt_step (he : ∀ reported, e ≠ .advance reported) (h : s.step e = some t) :
    t.loopAt = s.loopAt := by
  cases e with
  | advance reported => exact absurd rfl (he reported)
  | queueInLoop cb =>
    simp only [EventLoop.step] at h
    split at h <;> cases h
    unfold EventLoop.queueInLoop
    split <;> rfl
  | quit | push thread cb | quitFrom thread | wakeup thread =>
    simp only [EventLoop.step] at h
    split at h <;> cases h
    rfl

theorem quit_run (h : Reach step Inside s t) (hq : s.quit_ = true) :
    t.quit_ = true ∧ s.loopAt.rank ≤ t.loopAt.rank := by
  induction h with
  | refl => exact ⟨hq, Nat.le_refl _⟩
  | tail _ hinside hs ih =>
    obtain ⟨hquit, hrank⟩ := quit_step ih.1 hinside hs
    exact ⟨hquit, Nat.le_trans ih.2 hrank⟩

/-- A loop that is to quit and about to block finds a wakeup, or a thread is about to write one. -/
def QuitWakes (s : EventLoop φ) : Prop :=
  s.loopAt = .poll → s.quit_ = true → (∃ thread, (thread, none) ∈ s.calls) ∨ 0 < s.wakeupFd_

theorem QuitWakes.step (hi : QuitWakes s) (h : s.step e = some t) : QuitWakes t := by
  cases e with
  | advance reported =>
    simp only [EventLoop.step, EventLoop.advance] at h
    split at h <;> rename_i hloop
    case h_2 =>
      cases h
      intro hpoll hquit
      simp only at hpoll hquit
      rw [if_pos hquit] at hpoll
      cases hpoll
    case h_3 =>
      split at h <;> cases h
      intro hpoll
      cases hpoll
    all_goals
      cases h
      intro hpoll
      cases hpoll
  | queueInLoop cb =>
    simp only [EventLoop.step] at h
    split at h <;> cases h
    rename_i hcallback
    intro hpoll
    have hat : s.loopAt = .poll := by
      rw [← hpoll]
      unfold EventLoop.queueInLoop
      split <;> rfl
    simp [inCallback, hat] at hcallback
  | quit =>
    simp only [EventLoop.step] at h
    split at h <;> cases h
    rename_i hcallback
    intro hpoll
    have hat : s.loopAt = .poll := hpoll
    simp [inCallback, hat] at hcallback
  | push thread cb =>
    simp only [EventLoop.step] at h
    split at h <;> cases h
    intro hpoll hquit
    rcases hi hpoll hquit with ⟨thread', hmem⟩ | hpos
    · exact .inl ⟨thread', List.mem_cons_of_mem _ hmem⟩
    · exact .inr hpos
  | quitFrom thread =>
    simp only [EventLoop.step] at h
    split at h <;> cases h
    exact fun _ _ => .inl ⟨thread, List.mem_cons_self⟩
  | wakeup thread =>
    simp only [EventLoop.step] at h
    split at h <;> cases h
    exact fun _ _ => .inr (wakeup_pos s)

theorem quitWakes_init : QuitWakes (init : EventLoop φ) := by
  intro hpoll
  cases hpoll

def Advances (s : EventLoop φ) (e : Event φ) : Prop :=
  e = .advance [] ∧ s.loopAt ≠ .outside ∧ s.loopAt ≠ .test

def AtTest (s t : EventLoop φ) : Prop := t.loopAt = .test ∧ t.quit_ = s.quit_

theorem AtTest.step (hat : s.loopAt ≠ .outside ∧ s.loopAt ≠ .test)
    (h : s.step (.advance []) = some t) (hq : t.quit_ = s.quit_)
    (ht : ∃ u, Reach EventLoop.step Advances t u ∧ AtTest t u) :
    ∃ u, Reach EventLoop.step Advances s u ∧ AtTest s u := by
  obtain ⟨u, hu, htest, hquit⟩ := ht
  exact ⟨u, .trans (.tail .refl ⟨rfl, hat⟩ h) hu, htest, hquit.trans hq⟩

theorem run_to_test (h : s.loopAt = .run fs) : ∃ t, Reach step Advances s t ∧ AtTest s t := by
  induction fs generalizing s with
  | nil =>
    refine AtTest.step (t := { s with callingPendingFunctors_ := false, loopAt := .test })
      (by simp [h]) ?_ rfl ⟨_, .refl, rfl, rfl⟩
    simp [EventLoop.step, EventLoop.advance, h]
  | cons f fs ih =>
    refine AtTest.step (t := { s with loopAt := .run fs }) (by simp [h]) ?_ rfl (ih rfl)
    simp [EventLoop.step, EventLoop.advance, h]

theorem doPendingFunctors_to_test (h : s.loopAt = .doPendingFunctors) :
    ∃ t, Reach step Advances s t ∧ AtTest s t := by
  refine AtTest.step (t := { s with callingPendingFunctors_ := true, loopAt := .swap }) (by simp [h]) ?_
    rfl (AtTest.step (by simp) rfl rfl (run_to_test rfl))
  simp [EventLoop.step, EventLoop.advance, h]

theorem handle_to_test (h : s.loopAt = .handle cs) : ∃ t, Reach step Advances s t ∧ AtTest s t := by
  induction cs generalizing s with
  | nil =>
    refine AtTest.step (t := { s with loopAt := .doPendingFunctors }) (by simp [h]) ?_ rfl
      (doPendingFunctors_to_test rfl)
    simp [EventLoop.step, EventLoop.advance, h]
  | cons c cs ih =>
    cases c with
    | wakeupChannel =>
      refine AtTest.step (t := { s.handleReading with loopAt := .handle cs }) (by simp [h]) ?_ rfl (ih rfl)
      simp [EventLoop.step, EventLoop.advance, h]
    | other =>
      refine AtTest.step (t := { s with loopAt := .handle cs }) (by simp [h]) ?_ rfl (ih rfl)
      simp [EventLoop.step, EventLoop.advance, h]

/-- From anywhere in `loop()` the loop thread comes to the test, when its `poll` and callbacks return. -/
theorem to_test (h : s.loopAt ≠ .outside) : ∃ t, Reach step Advances s t ∧ AtTest s t := by
  cases hat : s.loopAt with
  | outside => exact absurd hat h
  | test => exact ⟨s, .refl, hat, rfl⟩
  | poll =>
    refine AtTest.step (t := { s with loopAt := .handle [] }) (by simp [hat]) ?_ rfl (handle_to_test rfl)
    simp [EventLoop.step, EventLoop.advance, hat]
  | handle cs => exact handle_to_test hat
  | doPendingFunctors => exact doPendingFunctors_to_test hat
  | swap =>
    refine AtTest.step (t := { s with pendingFunctors_ := [], loopAt := .run s.pendingFunctors_ })
      (by simp [hat]) ?_ rfl (run_to_test rfl)
    simp [EventLoop.step, EventLoop.advance, hat]
  | run fs => exact run_to_test hat

/-- A `quit` that finds the loop inside `loop()` is not lost: the `poll` it may find is woken, there
is no other, and the loop returns. -/
theorem quit_kept (hr : Reach step Always init s) (hq : s.quit_ = true) (hat : s.loopAt ≠ .outside) :
    (s.loopAt = .poll → (∃ thread, (thread, none) ∈ s.calls) ∨ 0 < s.wakeupFd_) ∧
      (∀ t, Reach step Inside s t → t.quit_ = true ∧ s.loopAt.rank ≤ t.loopAt.rank) ∧
      ∃ t, Reach step Inside s t ∧ t.loopAt = .outside := by
  have hwakes : QuitWakes s := hr.invariant quitWakes_init fun _ _ _ hi _ hs => hi.step hs
  refine ⟨fun hpoll => hwakes hpoll hq, fun t ht => quit_run ht hq, ?_⟩
  obtain ⟨t, ht, htest, hquit⟩ := to_test hat
  have hleave : t.step (.advance []) = some { t with loopAt := .outside } := by
    simp [EventLoop.step, EventLoop.advance, htest, hquit.trans hq]
  exact ⟨_, .tail (ht.mono fun _ _ h => h.2.1) (by simp [Inside, htest]) hleave, rfl⟩

/-- A `quit` from another thread while the loop blocks. -/
theorem quit_kept_blocked : ∃ s : EventLoop Nat, s.loopAt = .poll ∧ s.quit_ = true ∧
    ∃ t, Reach step Inside s t ∧ t.loopAt = .outside :=
  have h : Reach step Always (init : EventLoop Nat) _ :=
    .of_exec (l := [.advance [], .advance [], .quitFrom 1]) rfl
  ⟨_, rfl, rfl, (quit_kept h rfl nofun).2.2⟩

end VortexNet.EventLoop
