import VortexNet.Net.LoopRuns

/-!
# A thread with a loop

`EventLoopThread.cc` with `Thread::start` and `Thread::join`: the thread that
owns the object, the thread it starts, and the `EventLoop` on the stack of that
one. A section under `mutex_` is one step, as nothing else touches `loop_` at
that time; the destructor reads `loop_` without the mutex, and `quit` is its two
accesses, `quit_ = true` and `wakeup()`. `exit_`, which nothing reads, is left
out.

As long as the destructor alone quits the loop, `startLoop` hands out a loop
that is there, and no thread is left when the object is gone. The destructor
returns if its `quit` finds the loop inside `loop()`, and never does if it comes
before `loop()` has begun.
-/

namespace VortexNet

open Systems (Reach Always)

namespace EventLoopThread

/-- Where the owner stands: in `constructed` and `started` it has the object, in `startLoop` it is
about to lock, in `waiting` it is in `cond_.wait`. The last five are of the destructor. -/
inductive Owner
  | constructed
  | startLoop
  | waiting
  | started
  | destructor
  | quit
  | wakeup
  | join
  | destroyed
  deriving DecidableEq

/-- Where `threadFunc` stands: before it publishes its loop it runs `callback_`. -/
inductive Child
  | none
  | callback
  | loop
  | ending
  | finished
  deriving DecidableEq

def Child.alive : Child → Bool
  | .callback | .loop | .ending => true
  | .none | .finished => false

end EventLoopThread

/-- `loop_` is whether the pointer is set, and `loop` the loop that it points to. -/
structure EventLoopThread (φ : Type) where
  loop_ : Bool
  owner : EventLoopThread.Owner
  child : EventLoopThread.Child
  loop : EventLoop φ
  deriving DecidableEq

namespace EventLoopThread

variable {φ : Type}

def init : EventLoopThread φ where
  loop_ := false
  owner := .constructed
  child := .none
  loop := EventLoop.init

inductive Event (φ : Type)
  /-- `thread_.start()`. -/
  | startLoop
  /-- The owner has the mutex and tests `loop_`. -/
  | lock
  | spuriousWakeup
  | destructor
  /-- The destructor tests `loop_`. -/
  | look
  | quit
  | wakeup
  | join
  /-- `threadFunc` sets `loop_` and notifies. -/
  | publish
  /-- `threadFunc` clears `loop_` and ends. -/
  | clear
  /-- An event of the loop. -/
  | loop (e : EventLoop.Event φ)

/-- Code of the user runs on the thread of the loop: `callback_`, or a callback in `loop()`. -/
def inUserCode (s : EventLoopThread φ) : Bool :=
  match s.child, s.loop.loopAt with
  | .callback, _ => true
  | .loop, .outside => false
  | .loop, _ => true
  | _, _ => false

/-- `loop()` goes on, a callback uses the loop, or another thread that has a pointer to it does. -/
def enabled (s : EventLoopThread φ) : EventLoop.Event φ → Bool
  | .advance _ => s.child = .loop
  | .queueInLoop _ | .quit => s.inUserCode
  | .push .. | .quitFrom _ | .wakeup _ => s.child.alive

def looped (s : EventLoopThread φ) (e : EventLoop.Event φ) (loop : EventLoop φ) : EventLoopThread φ :=
  match e, loop.loopAt with
  | .advance _, .outside => { s with loop, child := .ending }
  | _, _ => { s with loop }

def step (s : EventLoopThread φ) : Event φ → Option (EventLoopThread φ)
  | .startLoop =>
    if s.owner = .constructed then some { s with owner := .startLoop, child := .callback } else none
  | .lock =>
    if s.owner = .startLoop then some { s with owner := if s.loop_ then .started else .waiting } else none
  | .spuriousWakeup => if s.owner = .waiting then some { s with owner := .startLoop } else none
  | .destructor =>
    if s.owner = .constructed ∨ s.owner = .started then some { s with owner := .destructor } else none
  | .look =>
    if s.owner = .destructor then some { s with owner := if s.loop_ then .quit else .destroyed } else none
  | .quit =>
    -- `loop_` is read again, and has to point to a loop
    if s.owner = .quit ∧ s.loop_ then some { s with owner := .wakeup, loop := { s.loop with quit_ := true } }
    else none
  | .wakeup =>
    if s.owner = .wakeup then some { s with owner := .join, loop := s.loop.wakeup } else none
  | .join => if s.owner = .join ∧ s.child = .finished then some { s with owner := .destroyed } else none
  | .publish =>
    if s.child = .callback then some { s with
      loop_ := true, child := .loop, owner := if s.owner = .waiting then .startLoop else s.owner }
    else none
  | .clear => if s.child = .ending then some { s with loop_ := false, child := .finished } else none
  | .loop e => if s.enabled e then (s.loop.step e).map (s.looped e) else none

/-- Nothing but the destructor quits the loop. -/
def OnlyDestructor (_ : EventLoopThread φ) : Event φ → Prop
  | .loop .quit | .loop (.quitFrom _) => False
  | _ => True

instance (s : EventLoopThread φ) (e : Event φ) : Decidable (OnlyDestructor s e) := by
  unfold OnlyDestructor
  split <;> infer_instance

-- ---------------------------------------------------------------------------
-- Where the two threads can be
-- ---------------------------------------------------------------------------

def Owner.allows : Owner → Child → Bool
  | .constructed, .none => true
  | .startLoop, .callback | .startLoop, .loop => true
  | .waiting, .callback => true
  | .started, .loop | .quit, .loop => true
  | .destructor, .none | .destructor, .loop => true
  | .wakeup, .loop | .wakeup, .ending | .wakeup, .finished => true
  | .join, .loop | .join, .ending | .join, .finished => true
  | .destroyed, .none | .destroyed, .finished => true
  | _, _ => false

def Owner.hasQuit : Owner → Bool
  | .wakeup | .join | .destroyed => true
  | _ => false

structure Handshake (s : EventLoopThread φ) : Prop where
  allows : s.owner.allows s.child = true
  pointer : s.loop_ = true ↔ s.child = .loop ∨ s.child = .ending
  unquit : s.owner.hasQuit = false → s.loop.quit_ = false

variable {s t u : EventLoopThread φ} {e : Event φ} {loop : EventLoop φ} {a : EventLoop.Event φ}

theorem quit_of_step (hc : OnlyDestructor s (.loop a)) (h : s.loop.step a = some loop)
    (hq : s.loop.quit_ = false) : loop.quit_ = false := by
  cases a with
  | quit => exact hc.elim
  | quitFrom thread => exact hc.elim
  | advance reported =>
    simp only [EventLoop.step, EventLoop.advance] at h
    split at h
    case h_3 =>
      split at h <;> cases h
      exact hq
    all_goals
      cases h
      first | exact hq | rfl
  | queueInLoop cb =>
    simp only [EventLoop.step] at h
    split at h <;> cases h
    unfold EventLoop.queueInLoop
    split <;> exact hq
  | push thread cb =>
    simp only [EventLoop.step] at h
    split at h <;> cases h
    exact hq
  | wakeup thread =>
    simp only [EventLoop.step] at h
    split at h <;> cases h
    exact hq

theorem outside_of_step (h : s.loop.step (.advance reported) = some loop) (hat : loop.loopAt = .outside) :
    s.loop.loopAt = .test ∧ s.loop.quit_ = true := by
  simp only [EventLoop.step, EventLoop.advance] at h
  split at h <;> rename_i hloop
  case h_2 =>
    cases h
    simp only at hat
    split at hat
    · exact ⟨hloop, by assumption⟩
    · cases hat
  case h_3 =>
    split at h <;> cases h
    cases hat
  all_goals
    cases h
    cases hat

theorem looped_cases (s : EventLoopThread φ) (a : EventLoop.Event φ) (loop : EventLoop φ) :
    (s.looped a loop = { s with loop } ∧ ∀ reported, a = .advance reported → loop.loopAt ≠ .outside) ∨
      ∃ reported, a = .advance reported ∧ loop.loopAt = .outside ∧
        s.looped a loop = { s with loop, child := .ending } := by
  unfold looped
  split
  · rename_i reported hat
    exact .inr ⟨reported, rfl, hat, rfl⟩
  · rename_i hnot
    exact .inl ⟨rfl, fun reported ha hat => hnot reported ha hat⟩

theorem Handshake.looped (hi : Handshake s) (hc : OnlyDestructor s (.loop a))
    (h : s.step (.loop a) = some t) : Handshake t := by
  simp only [EventLoopThread.step] at h
  split at h
  · rename_i henabled
    obtain ⟨loop, hloop, rfl⟩ := Option.map_eq_some_iff.mp h
    have hunquit : s.owner.hasQuit = false → loop.quit_ = false :=
      fun ho => quit_of_step hc hloop (hi.unquit ho)
    rcases looped_cases s a loop with ⟨heq, -⟩ | ⟨reported, rfl, hat, heq⟩
    · rw [heq]
      exact ⟨hi.allows, hi.pointer, hunquit⟩
    · rw [heq]
      have hchild : s.child = .loop := of_decide_eq_true henabled
      have hquit := (outside_of_step hloop hat).2
      have hallows := hi.allows
      rw [hchild] at hallows
      refine ⟨?_, by simp [hi.pointer, hchild], hunquit⟩
      -- before the destructor has quit, the loop cannot have returned
      cases ho : s.owner with
      | wakeup | join => rfl
      | destroyed => simp [ho, Owner.allows] at hallows
      | _ => exact absurd (hi.unquit (by rw [ho]; rfl)) (by simp [hquit])
  · cases h

theorem Handshake.step (hi : Handshake s) (hc : OnlyDestructor s e) (h : s.step e = some t) :
    Handshake t := by
  obtain ⟨hallows, hpointer, hunquit⟩ := hi
  cases e with
  | loop a => exact Handshake.looped ⟨hallows, hpointer, hunquit⟩ hc h
  | startLoop =>
    simp only [EventLoopThread.step] at h
    split at h <;> cases h
    rename_i ho
    rw [ho] at hallows
    cases hchild : s.child <;> simp [hchild, Owner.allows] at hallows
    exact ⟨rfl, by simp [hpointer, hchild], fun _ => hunquit (by rw [ho]; rfl)⟩
  | lock =>
    simp only [EventLoopThread.step] at h
    split at h <;> cases h
    rename_i ho
    rw [ho] at hallows
    have hquit := hunquit (by rw [ho]; rfl)
    refine ⟨?_, hpointer, fun _ => hquit⟩
    cases hchild : s.child <;> simp [hchild, Owner.allows] at hallows
    · rw [if_neg (by simp [hpointer, hchild])]
      rfl
    · rw [if_pos (by simp [hpointer, hchild])]
      rfl
  | spuriousWakeup =>
    simp only [EventLoopThread.step] at h
    split at h <;> cases h
    rename_i ho
    rw [ho] at hallows
    refine ⟨?_, hpointer, fun _ => hunquit (by rw [ho]; rfl)⟩
    cases hchild : s.child <;> simp [hchild, Owner.allows] at hallows
    rfl
  | destructor =>
    simp only [EventLoopThread.step] at h
    split at h <;> cases h
    rename_i ho
    refine ⟨?_, hpointer, fun _ => ?_⟩
    · rcases ho with ho | ho
      all_goals
        rw [ho] at hallows
        cases hchild : s.child <;> simp [hchild, Owner.allows] at hallows
        rfl
    · rcases ho with ho | ho <;> exact hunquit (by rw [ho]; rfl)
  | look =>
    simp only [EventLoopThread.step] at h
    split at h <;> cases h
    rename_i ho
    rw [ho] at hallows
    have hquit := hunquit (by rw [ho]; rfl)
    refine ⟨?_, hpointer, fun _ => hquit⟩
    cases hchild : s.child <;> simp [hchild, Owner.allows] at hallows
    · rw [if_neg (by simp [hpointer, hchild])]
      rfl
    · rw [if_pos (by simp [hpointer, hchild])]
      rfl
  | quit =>
    simp only [EventLoopThread.step] at h
    split at h <;> cases h
    rename_i ho
    rw [ho.1] at hallows
    refine ⟨?_, hpointer, nofun⟩
    cases hchild : s.child <;> simp [hchild, Owner.allows] at hallows
    rfl
  | wakeup =>
    simp only [EventLoopThread.step] at h
    split at h <;> cases h
    rename_i ho
    rw [ho] at hallows
    refine ⟨?_, hpointer, nofun⟩
    cases hchild : s.child <;> simp [hchild, Owner.allows] at hallows <;> rfl
  | join =>
    simp only [EventLoopThread.step] at h
    split at h <;> cases h
    rename_i ho
    exact ⟨by rw [ho.2]; rfl, hpointer, nofun⟩
  | publish =>
    simp only [EventLoopThread.step] at h
    split at h <;> cases h
    rename_i hchild
    rw [hchild] at hallows
    refine ⟨?_, by simp, fun hq => hunquit ?_⟩
    · cases ho : s.owner <;> simp [ho, Owner.allows] at hallows <;> rfl
    · cases ho : s.owner <;> simp [ho, Owner.allows] at hallows <;> rfl
  | clear =>
    simp only [EventLoopThread.step] at h
    split at h <;> cases h
    rename_i hchild
    rw [hchild] at hallows
    refine ⟨?_, by simp, hunquit⟩
    cases ho : s.owner <;> simp [ho, Owner.allows] at hallows <;> rfl

theorem init_handshake : Handshake (init : EventLoopThread φ) := ⟨rfl, by simp [init], fun _ => rfl⟩

theorem reach_handshake (h : Reach step OnlyDestructor (init : EventLoopThread φ) s) : Handshake s :=
  h.invariant init_handshake fun _ _ _ hi hc hs => hi.step hc hs

/-- While the destructor alone quits the loop: what `startLoop` gives is a loop that is there, as it
is when the destructor quits it, and no thread is left when the object is gone. -/
theorem outlives (h : Reach step OnlyDestructor (init : EventLoopThread φ) s) :
    (s.owner = .started → s.loop_ = true ∧ s.child = .loop) ∧
      (s.owner = .quit → s.loop_ = true ∧ s.child = .loop) ∧
      (s.owner = .destroyed → s.child = .none ∨ s.child = .finished) := by
  have hi := reach_handshake h
  have hallows := hi.allows
  refine ⟨fun ho => ?_, fun ho => ?_, fun ho => ?_⟩
  all_goals
    rw [ho] at hallows
    cases hchild : s.child <;> simp [hchild, Owner.allows, hi.pointer] at hallows ⊢

def startRun : List (Event Nat) := [.startLoop, .lock, .publish, .lock]

theorem outlives_started : ∃ s : EventLoopThread Nat, Reach step OnlyDestructor init s ∧
    s.owner = .started ∧ s.loop_ = true ∧ s.child = .loop :=
  have h : Reach step OnlyDestructor (init : EventLoopThread Nat) _ := .of_exec (l := startRun) rfl
  ⟨_, h, rfl, (outlives h).1 rfl⟩

/-- The loop may be gone when the `quit` that has ended it comes to its `wakeup()`. -/
theorem wakeup_after_loop : ∃ s : EventLoopThread Nat, Reach step OnlyDestructor init s ∧
    s.owner = .wakeup ∧ s.child.alive = false :=
  have h : Reach step OnlyDestructor (init : EventLoopThread Nat) _ :=
    .of_exec (l := startRun ++ [.loop (.advance []), .destructor, .look, .quit, .loop (.advance []), .clear])
      rfl
  ⟨_, h, rfl, rfl⟩

-- ---------------------------------------------------------------------------
-- Whether the destructor returns
-- ---------------------------------------------------------------------------

structure Quitting (s : EventLoopThread φ) : Prop where
  owner : s.owner.hasQuit = true
  child : s.child = .loop ∨ s.child = .ending ∨ s.child = .finished
  quit : s.child = .loop → s.loop.quit_ = true ∧ s.loop.loopAt ≠ .outside

structure Lost (s : EventLoopThread φ) : Prop where
  owner : s.owner = .wakeup ∨ s.owner = .join
  child : s.child = .loop
  quit : s.loop.loopAt = .outside ∨ s.loop.quit_ = false

theorem inside_of_step (hat : s.loop.loopAt ≠ .outside) (h : s.loop.step a = some loop)
    (hreturn : ∀ reported, a = .advance reported → loop.loopAt ≠ .outside) : loop.loopAt ≠ .outside := by
  by_cases ha : ∃ reported, a = .advance reported
  · obtain ⟨reported, ha⟩ := ha
    exact hreturn reported ha
  · rwa [EventLoop.loopAt_step (fun reported heq => ha ⟨reported, heq⟩) h]

theorem Quitting.step (hi : Quitting s) (h : s.step e = some t) : Quitting t := by
  obtain ⟨howner, hchild, hquit⟩ := hi
  cases e with
  | loop a =>
    simp only [EventLoopThread.step] at h
    split at h
    · obtain ⟨loop, hloop, rfl⟩ := Option.map_eq_some_iff.mp h
      rcases looped_cases s a loop with ⟨heq, hreturn⟩ | ⟨reported, rfl, hat, heq⟩
      · rw [heq]
        refine ⟨howner, hchild, fun hc => ?_⟩
        obtain ⟨hq, hat⟩ := hquit hc
        exact ⟨(EventLoop.quit_step hq hat hloop).1, inside_of_step hat hloop hreturn⟩
      · rw [heq]
        exact ⟨howner, .inr (.inl rfl), nofun⟩
    · cases h
  | wakeup =>
    simp only [EventLoopThread.step] at h
    split at h <;> cases h
    exact ⟨rfl, hchild, hquit⟩
  | join =>
    simp only [EventLoopThread.step] at h
    split at h <;> cases h
    exact ⟨rfl, hchild, hquit⟩
  | clear =>
    simp only [EventLoopThread.step] at h
    split at h <;> cases h
    exact ⟨howner, .inr (.inr rfl), nofun⟩
  | publish =>
    simp only [EventLoopThread.step] at h
    split at h <;> cases h
    rename_i hcallback
    simp [hcallback] at hchild
  | destructor =>
    simp only [EventLoopThread.step] at h
    split at h <;> cases h
    rename_i ho
    rcases ho with ho | ho <;> simp [ho, Owner.hasQuit] at howner
  | quit =>
    simp only [EventLoopThread.step] at h
    split at h <;> cases h
    rename_i ho
    simp [ho.1, Owner.hasQuit] at howner
  | startLoop | lock | spuriousWakeup | look =>
    simp only [EventLoopThread.step] at h
    split at h <;> cases h
    rename_i ho
    simp [ho, Owner.hasQuit] at howner

/-- The first step of `loop()` undoes a `quit` that came before it. -/
theorem lost_of_step (hc : OnlyDestructor s (.loop a)) (hq : s.loop.loopAt = .outside ∨ s.loop.quit_ = false)
    (h : s.loop.step a = some loop) : loop.loopAt = .outside ∨ loop.quit_ = false := by
  rcases hq with hat | hq
  · by_cases ha : ∃ reported, a = .advance reported
    · obtain ⟨reported, rfl⟩ := ha
      simp only [EventLoop.step, EventLoop.advance, hat] at h
      cases h
      exact .inr rfl
    · exact .inl ((EventLoop.loopAt_step (fun reported heq => ha ⟨reported, heq⟩) h).trans hat)
  · exact .inr (quit_of_step hc h hq)

theorem Lost.step (hi : Lost s) (hc : OnlyDestructor s e) (h : s.step e = some t) : Lost t := by
  obtain ⟨howner, hchild, hquit⟩ := hi
  cases e with
  | loop a =>
    simp only [EventLoopThread.step] at h
    split at h
    · obtain ⟨loop, hloop, rfl⟩ := Option.map_eq_some_iff.mp h
      rcases looped_cases s a loop with ⟨heq, -⟩ | ⟨reported, rfl, hat, heq⟩
      · rw [heq]
        exact ⟨howner, hchild, lost_of_step hc hquit hloop⟩
      · obtain ⟨htest, hq⟩ := outside_of_step hloop hat
        simp [htest, hq] at hquit
    · cases h
  | wakeup =>
    simp only [EventLoopThread.step] at h
    split at h <;> cases h
    exact ⟨.inr rfl, hchild, hquit⟩
  | join =>
    simp only [EventLoopThread.step] at h
    split at h <;> cases h
    rename_i ho
    exact Child.noConfusion (hchild.symm.trans ho.2)
  | clear | publish =>
    simp only [EventLoopThread.step] at h
    split at h <;> cases h
    rename_i hc'
    exact Child.noConfusion (hchild.symm.trans hc')
  | destructor =>
    simp only [EventLoopThread.step] at h
    split at h <;> cases h
    rename_i ho
    rcases ho with ho | ho <;> simp [ho] at howner
  | quit =>
    simp only [EventLoopThread.step] at h
    split at h <;> cases h
    rename_i ho
    simp [ho.1] at howner
  | startLoop | lock | spuriousWakeup | look =>
    simp only [EventLoopThread.step] at h
    split at h <;> cases h
    rename_i ho
    simp [ho] at howner

theorem step_loop (henabled : s.enabled a = true) (h : s.loop.step a = some loop) :
    s.step (.loop a) = some (s.looped a loop) := by
  simp only [EventLoopThread.step, henabled, if_true, h, Option.map_some]

theorem reach_then (hr : Reach EventLoopThread.step OnlyDestructor s t) (e : Event φ)
    (hc : OnlyDestructor t e) (h : t.step e = some u) : Reach EventLoopThread.step OnlyDestructor s u :=
  .tail hr hc h

theorem reach_advances (hchild : s.child = .loop)
    (h : Reach EventLoop.step EventLoop.Advances s.loop loop) :
    Reach EventLoopThread.step OnlyDestructor s { s with loop } := by
  induction h with
  | refl => exact .refl
  | @tail l a l' _ hc hs ih =>
    obtain ⟨rfl, -, htest⟩ := hc
    have hstep : EventLoopThread.step { s with loop := l } (.loop (.advance [])) = _ :=
      step_loop (decide_eq_true hchild) hs
    rcases looped_cases { s with loop := l } (.advance []) l' with ⟨heq, -⟩ | ⟨reported, -, hat, -⟩
    · rw [heq] at hstep
      exact reach_then ih (.loop (.advance [])) trivial hstep
    · exact absurd (outside_of_step (s := { s with loop := l }) hs hat).1 htest

theorem Quitting.child_finishes (hi : Quitting s) :
    ∃ t, Reach EventLoopThread.step OnlyDestructor s t ∧ t.owner = s.owner ∧ t.child = .finished := by
  have hclear : ∀ t : EventLoopThread φ, t.child = .ending →
      Reach EventLoopThread.step OnlyDestructor t { t with loop_ := false, child := .finished } := by
    intro t ht
    refine reach_then .refl .clear trivial ?_
    simp [EventLoopThread.step, ht]
  rcases hi.child with hchild | hchild | hchild
  · obtain ⟨hq, hat⟩ := hi.quit hchild
    obtain ⟨loop, hloop, htest, hquit⟩ := EventLoop.to_test hat
    have hreturn : loop.step (.advance []) = some { loop with loopAt := .outside } := by
      simp [EventLoop.step, EventLoop.advance, htest, hquit.trans hq]
    have hstep : EventLoopThread.step { s with loop } (.loop (.advance [])) = _ :=
      step_loop (decide_eq_true hchild) hreturn
    have hended : (looped { s with loop } (.advance []) { loop with loopAt := .outside }).child = .ending :=
      rfl
    exact ⟨_, .trans (reach_then (reach_advances hchild hloop) (.loop (.advance [])) trivial hstep)
      (hclear _ hended), rfl, rfl⟩
  · exact ⟨_, hclear s hchild, rfl, rfl⟩
  · exact ⟨s, .refl, rfl, hchild⟩

theorem Quitting.returns (hi : Quitting s) :
    ∃ t, Reach EventLoopThread.step OnlyDestructor s t ∧ t.owner = .destroyed := by
  obtain ⟨t, ht, howner, hchild⟩ := hi.child_finishes
  have hjoin : ∀ u : EventLoopThread φ, u.owner = .join → u.child = .finished →
      u.step .join = some { u with owner := .destroyed } := by
    intro u ho hc
    simp [EventLoopThread.step, ho, hc]
  have hq := hi.owner
  cases ho : s.owner with
  | wakeup =>
    have hwake : t.step .wakeup = some { t with owner := .join, loop := t.loop.wakeup } := by
      simp [EventLoopThread.step, howner, ho]
    exact ⟨_, reach_then (reach_then ht .wakeup trivial hwake) .join trivial (hjoin _ rfl hchild), rfl⟩
  | join => exact ⟨_, reach_then ht .join trivial (hjoin _ (howner.trans ho) hchild), rfl⟩
  | destroyed => exact ⟨s, .refl, ho⟩
  | _ => simp [ho, Owner.hasQuit] at hq

/-- The destructor returns, however the threads go on, exactly when its `quit` finds the loop inside
`loop()`; otherwise it never does. -/
theorem destructor_returns_iff (h : Reach step OnlyDestructor (init : EventLoopThread φ) s)
    (hq : s.step .quit = some t) :
    (s.loop.loopAt ≠ .outside → ∀ u, Reach step OnlyDestructor t u →
        ∃ v, Reach step OnlyDestructor u v ∧ v.owner = .destroyed) ∧
      (s.loop.loopAt = .outside → ∀ u, Reach step OnlyDestructor t u → u.owner ≠ .destroyed) := by
  have hchild : s.child = .loop := by
    simp only [EventLoopThread.step] at hq
    split at hq
    · rename_i ho
      exact ((outlives h).2.1 ho.1).2
    · cases hq
  simp only [EventLoopThread.step] at hq
  split at hq <;> cases hq
  constructor
  · intro hat u hu
    have hi : Quitting u := hu.invariant ⟨rfl, .inl hchild, fun _ => ⟨rfl, hat⟩⟩
      fun _ _ _ hi _ hs => hi.step hs
    exact hi.returns
  · intro hat u hu ho
    have hi : Lost u := hu.invariant ⟨.inl rfl, hchild, .inl hat⟩ fun _ _ _ hi hc hs => hi.step hc hs
    rcases hi.owner with ho' | ho' <;> cases ho'.symm.trans ho

theorem destructor_returns_iff_both :
    (∃ s t : EventLoopThread Nat, Reach step OnlyDestructor init s ∧ s.step .quit = some t ∧
      ∃ v, Reach step OnlyDestructor t v ∧ v.owner = .destroyed) ∧
    ∃ s t : EventLoopThread Nat, Reach step OnlyDestructor init s ∧ s.step .quit = some t ∧
      ∀ u, Reach step OnlyDestructor t u → u.owner ≠ .destroyed :=
  have hin : Reach step OnlyDestructor (init : EventLoopThread Nat) _ :=
    .of_exec (l := startRun ++ [.loop (.advance []), .destructor, .look]) rfl
  have hbefore : Reach step OnlyDestructor (init : EventLoopThread Nat) _ :=
    .of_exec (l := startRun ++ [.destructor, .look]) rfl
  ⟨⟨_, _, hin, rfl, (destructor_returns_iff hin rfl).1 nofun _ .refl⟩,
    ⟨_, _, hbefore, rfl, (destructor_returns_iff hbefore rfl).2 rfl⟩⟩

end EventLoopThread

end VortexNet
