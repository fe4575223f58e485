import VortexNet.Net.ServerSteps

/-!
# What a server keeps

Every run of a server, whatever the order of its threads: no connection is
freed while a poller, a loop or a functor still refers to it, none is kept once
it is closed and the loops are idle, and each is found under its own name until
it is closed.
-/

namespace VortexNet.TcpServer

open Systems (Reach Always exec)
open TcpConnection (Lifecycle)

variable {s s' : TcpServer} {c l : Nat} {e : Event} {nameArg : List Char} {listenAddr : InetAddress}
  {numThreads : Int} {writeComplete : Bool} {C : Hosted → Hosted.Event → Prop}

theorem init_placed : Placed (init nameArg listenAddr numThreads writeComplete) where
  number := (by decide : 1 ≤ 1 ∧ 1 < 2 ^ 31)
  tasks _ _ hmem := nomatch hmem
  reported _ _ hr := nomatch hr
  entries _ hmem := nomatch hmem
  loops c hc := by
    have hlt : c < 1 := hc.2
    exact absurd hc.1 (Nat.not_le_of_lt hlt)
  base := rfl
  unmade _ _ := rfl

theorem reach_placed {D : TcpServer → Event → Prop}
    (hr : Reach step D (init nameArg listenAddr numThreads writeComplete) s) : Placed s :=
  hr.invariant init_placed fun _ _ _ hw _ h1 => hw.step h1

/-- In a run of the server each connection runs as a `Hosted` one. -/
theorem reach_view (hC : Free C)
    (hr : Reach step (Each C) (init nameArg listenAddr numThreads writeComplete) s)
    (hc : s.made c) : ∃ writeComplete, Reach Hosted.step C (Hosted.init writeComplete) (s.view c) := by
  induction hr with
  | refl =>
    have hlt : c < 1 := hc.2
    exact absurd hc.1 (Nat.not_le_of_lt hlt)
  | @tail t e u hr he h1 ih =>
    have hw := reach_placed hr
    by_cases hbefore : t.made c
    · obtain ⟨writeComplete, hview⟩ := ih hbefore
      exact ⟨writeComplete, hview.trans (reach_step hC hw hbefore he h1)⟩
    · exact reach_made hC hw hbefore h1 hc

theorem free_setsOpen : Free Hosted.SetsOpen :=
  ⟨fun _ => trivial, fun _ => trivial, fun _ _ => trivial, fun _ => trivial⟩

theorem free_closesOnce : Free Hosted.ClosesOnce :=
  ⟨fun _ => ⟨trivial, nofun⟩, fun _ => ⟨trivial, nofun⟩, fun _ _ => ⟨trivial, nofun⟩,
    fun _ => ⟨trivial, nofun⟩⟩

theorem free_always : Free fun _ _ => True :=
  ⟨fun _ => trivial, fun _ => trivial, fun _ _ => trivial, fun _ => trivial⟩

-- ---------------------------------------------------------------------------
-- Nothing refers to a connection that is gone
-- ---------------------------------------------------------------------------

theorem holds_of_task {task : Task} (hmem : task ∈ (s.loop l).todo)
    (hl : l ∈ loop_ :: s.threadpool_.loops_) (hholds : task.holds c = true) : s.holds c = true := by
  have hloop : (s.loop l).holds c = true := by
    rcases List.mem_append.mp hmem with hmem | hmem
    · refine Bool.or_eq_true_iff.mpr (.inr ?_)
      cases hat : (s.loop l).loopAt with
      | run ran functors =>
        rw [hat] at hmem
        exact List.any_eq_true.mpr ⟨task, List.mem_append_right _ hmem, hholds⟩
      | poll | handle | event =>
        rw [hat] at hmem
        cases hmem
    · exact Bool.or_eq_true_iff.mpr (.inl (List.any_eq_true.mpr ⟨task, hmem, hholds⟩))
  have hany : (loop_ :: s.threadpool_.loops_).any (fun l => (s.loop l).holds c) = true :=
    List.any_eq_true.mpr ⟨l, hl, hloop⟩
  rw [holds, hany, Bool.or_true, Bool.true_or]

theorem holds_of_mapped (hm : (s.view c).mapped = true) : s.holds c = true := by
  have hmem : (s.connName c, c) ∈ s.connections_ := of_decide_eq_true hm
  have hany : s.connections_.any (·.2 = c) = true := List.any_eq_true.mpr ⟨_, hmem, decide_eq_true rfl⟩
  rw [holds, hany, Bool.true_or, Bool.true_or]

theorem mem_view_todo {j : Job} (hj : j ∈ (s.view c).todo) :
    .job c j ∈ (s.loop (s.getLoop c)).todo := by
  obtain ⟨task, hmem, htask⟩ := List.mem_filterMap.mp hj
  cases task with
  | removeConnection d => cases htask
  | job d j' =>
    simp only [Task.job?, Option.ite_none_right_eq_some, Option.some.injEq] at htask
    obtain ⟨rfl, rfl⟩ := htask
    exact hmem

theorem view_todo_of_mem {j : Job} (hmem : .job c j ∈ (s.loop (s.getLoop c)).todo) :
    j ∈ (s.view c).todo :=
  List.mem_filterMap.mpr ⟨_, hmem, if_pos rfl⟩

theorem holds_of_kept (hw : Placed s) (hc : s.made c) (hk : (s.view c).Kept) : s.holds c = true := by
  rcases hk with hm | hr | hd
  · exact holds_of_mapped hm
  · have hmem : .removeConnection c ∈ (s.loop loop_).todo := List.count_pos_iff.mp hr
    exact holds_of_task hmem List.mem_cons_self (decide_eq_true rfl)
  · exact holds_of_task (mem_view_todo hd) (hw.loops c hc) (by simp [Task.holds, Job.owns])

/-- Whatever still has the address of a connection finds it alive: the pollers of the loops, the
channels that a loop is going through, and the functors, also those that capture only `this`. -/
structure NoDangling (s : TcpServer) : Prop where
  registered : ∀ c, (s.conn c).index_ ≠ .kNew → s.holds c = true
  reported : ∀ l c, (s.loop l).loopAt.reports c = true → s.holds c = true
  queued : ∀ l c j, .job c j ∈ (s.loop l).todo → s.holds c = true

/-- As long as no other thread sets the state of a closed connection, or queues a `shutdownInLoop`
for one. -/
theorem noDangling (hr : Reach step (Each Hosted.SetsOpen)
    (init nameArg listenAddr numThreads writeComplete) s) : NoDangling s := by
  have hw := reach_placed hr
  have hboth : ∀ c, s.made c → (s.view c).Sound ∧ (s.view c).Staged := by
    intro c hc
    obtain ⟨_, hview⟩ := reach_view free_setsOpen hr hc
    exact ⟨Hosted.reach_sound hview, Hosted.reach_staged hview⟩
  refine ⟨fun c hi => ?_, fun l c hreports => ?_, fun l c j hmem => ?_⟩
  · have hc : s.made c := by
      by_contra hc
      rw [hw.unmade c hc] at hi
      exact hi rfl
    exact holds_of_kept hw hc ((hboth c hc).1.registered hi)
  · obtain ⟨hc, rfl⟩ := hw.reported l c hreports
    have hs := (hboth c hc).1
    exact holds_of_kept hw hc (hs.registered (hs.polled hreports))
  · obtain ⟨hc, rfl⟩ := hw.tasks l _ hmem
    obtain ⟨hs, hst⟩ := hboth c hc
    cases hown : j.owns with
    | true => exact holds_of_task hmem (hw.loops c hc) (by simp [Task.holds, hown])
    | false => exact holds_of_kept hw hc (hs.kept_of_raw hst (view_todo_of_mem hmem) hown)

/-- A connection on the first of two threads sends, and meets the end of its input in the same batch;
the server forgets it while its loop has not run the functor of the write yet. -/
def closingRun : List Event :=
  [.start, .poll 0 [.acceptChannel_], .accept true, .advance 0, .advance 0, .poll 1 [], .advance 1,
    .functor 1 .all, .advance 1, .poll 1 [.channel_ 1], .handleEvent 1 { EPOLLIN := true, EPOLLOUT := true },
    .send 1 .all, .callback 1 .eof false, .poll 0 [], .advance 0, .functor 0 .all, .advance 0]

theorem noDangling_closing : ∃ s,
    exec step (Each Hosted.SetsOpen) (init [] ⟨(127, 0, 0, 1), 80⟩ 2 true) closingRun = some s ∧
      s.connections_ = [] ∧ (s.loop 1).pendingFunctors_ =
        [.job 1 .writeCompleteCallback_, .job 1 .connectDestroyed] ∧ NoDangling s := by
  have hrun : (exec step (Each Hosted.SetsOpen) (init [] ⟨(127, 0, 0, 1), 80⟩ 2 true) closingRun).any
      (fun s => s.connections_ = [] ∧ (s.loop 1).pendingFunctors_ =
        [.job 1 .writeCompleteCallback_, .job 1 .connectDestroyed]) = true := by
    decide +kernel
  obtain ⟨s, hs, hall⟩ := (Option.any_eq_true _ _).mp hrun
  obtain ⟨hmap, hpending⟩ := of_decide_eq_true hall
  exact ⟨s, hs, hmap, hpending, noDangling (.of_exec hs)⟩

/-- A thread finds the connection open, and shuts it down once it is gone. -/
def lateRun : List Event :=
  [.start, .poll 0 [.acceptChannel_], .accept true, .advance 0, .advance 0, .poll 1 [], .advance 1,
    .functor 1 .all, .remote 1 (.look .shutdown), .call 1 .forceClose, .advance 1, .poll 0 [], .advance 0,
    .functor 0 .all, .advance 0, .poll 1 [], .advance 1, .functor 1 .all, .advance 1,
    .remote 1 (.set .shutdown), .remote 1 (.queue .shutdown)]

theorem not_noDangling : ∃ s,
    Reach step Always (init [] ⟨(127, 0, 0, 1), 80⟩ 2 true) s ∧
      s.holds 1 = false ∧ (s.loop 1).pendingFunctors_ = [.job 1 .shutdownInLoop] ∧ ¬ NoDangling s := by
  have hrun : (exec step Always (init [] ⟨(127, 0, 0, 1), 80⟩ 2 true)
      lateRun).any (fun s => s.holds 1 = false ∧
        (s.loop 1).pendingFunctors_ = [.job 1 .shutdownInLoop]) = true := by
    decide +kernel
  obtain ⟨s, hs, hall⟩ := (Option.any_eq_true _ _).mp hrun
  obtain ⟨hholds, hpending⟩ := of_decide_eq_true hall
  refine ⟨s, .of_exec hs, hholds, hpending, fun h => ?_⟩
  have hqueued := h.queued 1 1 .shutdownInLoop (List.mem_append_right _ (hpending ▸ List.mem_cons_self))
  exact Bool.noConfusion (hholds.symm.trans hqueued)

-- ---------------------------------------------------------------------------
-- Nothing is kept for ever
-- ---------------------------------------------------------------------------

/-- The loops have nothing to do: all of them wait in their polls. -/
def Idle (s : TcpServer) : Prop := ∀ l ∈ loop_ :: s.threadpool_.loops_, s.loop l = {}

instance (s : TcpServer) : Decidable s.Idle := inferInstanceAs (Decidable (∀ l ∈ _, _))

/-- What is left of a connection when nothing is on its way to it. -/
structure Settled (s : TcpServer) (c : Nat) : Prop where
  holds : s.holds c = true ↔ (s.conn c).life.state_ ≠ .kDisconnected
  mapped : (s.connName c, c) ∈ s.connections_ ↔ (s.conn c).life.state_ ≠ .kDisconnected
  opened : (s.conn c).life.state_ ≠ .kDisconnected → (s.conn c).index_ = .kAdded
  closed : (s.conn c).life.state_ = .kDisconnected →
    (s.conn c).life.destroyed = true ∧ (s.conn c).index_ = .kNew

theorem view_mapped : (s.view c).mapped = true ↔ (s.connName c, c) ∈ s.connections_ := by
  simp [view]

theorem holds_only_open (hr : Reach step (Each Hosted.SetsOpen)
    (init nameArg listenAddr numThreads writeComplete) s) (hidle : Idle s) (hc : s.made c)
    (hcalled : (s.conn c).called = false) : Settled s c := by
  have hw := reach_placed hr
  obtain ⟨_, hview⟩ := reach_view free_setsOpen hr hc
  have hnone : ∀ l ∈ loop_ :: s.threadpool_.loops_, (s.loop l).todo = [] := by
    intro l hl
    rw [hidle l hl]
    rfl
  have htodo : (s.view c).todo = [] := by
    show (s.loop (s.getLoop c)).todo.filterMap _ = []
    rw [hnone _ (hw.loops c hc)]
    rfl
  have hremoving : (s.view c).removing = 0 := by
    show (s.loop loop_).todo.count _ = 0
    rw [hnone _ List.mem_cons_self]
    rfl
  have hloops : (loop_ :: s.threadpool_.loops_).any (fun l => (s.loop l).holds c) = false := by
    refine List.any_eq_false.mpr fun l hl => ?_
    rw [hidle l hl]
    exact Bool.false_ne_true
  have hholds : s.holds c = true ↔ (s.connName c, c) ∈ s.connections_ := by
    rw [holds, hloops, hcalled, Bool.or_false, Bool.or_false, List.any_eq_true]
    constructor
    · rintro ⟨entry, hmem, hentry⟩
      have hname := (hw.entries entry hmem).2
      rw [of_decide_eq_true hentry] at hname
      rw [← hname, ← of_decide_eq_true hentry]
      exact hmem
    · exact fun hmem => ⟨_, hmem, decide_eq_true rfl⟩
  rcases (Hosted.reach_sound hview).settled (Hosted.reach_staged hview) htodo hremoving with
    ⟨hmapped, hindex, hopen⟩ | ⟨hmapped, hindex, hstate, hdestroyed⟩
  · have hne : (s.conn c).life.state_ ≠ .kDisconnected := by
      have hopen : (s.conn c).life.state_ = .kConnected ∨ (s.conn c).life.state_ = .kDisconnecting := hopen
      rcases hopen with hopen | hopen <;> simp [hopen]
    have hmem := view_mapped.mp hmapped
    exact ⟨iff_of_true (hholds.mpr hmem) hne, iff_of_true hmem hne, fun _ => hindex,
      fun hd => absurd hd hne⟩
  · have hnot : (s.connName c, c) ∉ s.connections_ := fun hmem =>
      Bool.noConfusion (hmapped.symm.trans (view_mapped.mpr hmem))
    have hstate : (s.conn c).life.state_ = .kDisconnected := hstate
    exact ⟨iff_of_false (fun h => hnot (hholds.mp h)) (fun h => h hstate),
      iff_of_false hnot fun h => h hstate, fun h => absurd hstate h, fun _ => ⟨hdestroyed, hindex⟩⟩

/-- The batch of the first thread is run, and its functors are released. -/
def closedRun : List Event :=
  closingRun ++ [.callback 1 .bytes false, .advance 1, .advance 1, .functor 1 .all, .functor 1 .all,
    .advance 1]

theorem holds_only_open_closed : ∃ s,
    exec step (Each Hosted.SetsOpen) (init [] ⟨(127, 0, 0, 1), 80⟩ 2 true) closedRun = some s ∧
      (s.conn 1).life.state_ = .kDisconnected ∧ s.holds 1 = false ∧ Settled s 1 := by
  have hrun : (exec step (Each Hosted.SetsOpen) (init [] ⟨(127, 0, 0, 1), 80⟩ 2 true) closedRun).any
      (fun s => s.Idle ∧ s.made 1 ∧ (s.conn 1).called = false ∧
        (s.conn 1).life.state_ = .kDisconnected ∧ s.holds 1 = false) = true := by
    decide +kernel
  obtain ⟨s, hs, hall⟩ := (Option.any_eq_true _ _).mp hrun
  obtain ⟨hidle, hmade, hcalled, hstate, hholds⟩ := of_decide_eq_true hall
  exact ⟨s, hs, hstate, hholds, holds_only_open (.of_exec hs) hidle hmade hcalled⟩

-- ---------------------------------------------------------------------------
-- Names
-- ---------------------------------------------------------------------------

def Keyed (s : TcpServer) : Prop := (s.connections_.map Prod.fst).Nodup

theorem Keyed.erase (hk : Keyed s) (name : List Char) :
    ((s.connections_.filter (·.1 ≠ name)).map Prod.fst).Nodup :=
  List.Nodup.sublist (List.Sublist.map _ List.filter_sublist) hk

theorem Keyed.apply (hk : Keyed s) (effect : Effect) : Keyed (apply c s effect) := by
  cases effect with
  | closeCallback_ =>
    simp only [TcpServer.apply, removeConnection]
    split
    · exact hk.erase _
    · exact hk
  | queueInLoop job => exact hk

theorem Keyed.applyAll (hk : Keyed s) (r : Conn × List Effect) : Keyed (s.applyAll c r) := by
  have hfold : ∀ (effects : List Effect) s, Keyed s → Keyed (effects.foldl (TcpServer.apply c) s) := by
    intro effects
    induction effects with
    | nil => exact fun _ hk => hk
    | cons effect effects ih => exact fun s hk => ih _ (hk.apply effect)
  exact hfold r.2 _ hk

theorem Keyed.newConnection (hk : Keyed s) : Keyed s.newConnection := by
  have hconstruct : Keyed s.construct := by
    refine List.nodup_cons.mpr ⟨fun hmem => ?_, hk.erase _⟩
    obtain ⟨entry, hentry, hname⟩ := List.mem_map.mp hmem
    exact of_decide_eq_true (List.mem_filter.mp hentry).2 hname
  unfold TcpServer.newConnection
  dsimp only
  split
  · exact hconstruct.applyAll _
  · exact hconstruct

theorem Keyed.step (hk : Keyed s) (h1 : step s e = some s') : Keyed s' := by
  cases e with
  | start =>
    cases h1
    unfold start
    split <;> exact hk
  | poll l activeChannels_ =>
    simp only [TcpServer.step, Option.ite_none_right_eq_some, Option.some.injEq] at h1
    obtain ⟨-, rfl⟩ := h1
    exact hk
  | accept connected =>
    simp only [TcpServer.step] at h1
    split at h1
    case h_2 => cases h1
    split at h1
    · cases h1
      exact hk
    · split at h1
      · cases h1
        exact Keyed.newConnection hk
      · cases h1
  | handleEvent | advance =>
    simp only [TcpServer.step] at h1
    split at h1 <;> cases h1 <;> exact hk
  | callback l input drained =>
    simp only [TcpServer.step] at h1
    split at h1 <;> cases h1
    rename_i c part parts rest _
    have hset : Keyed (s.setAt l (.event c parts rest)) := hk
    exact hset.applyAll _
  | functor l w =>
    simp only [TcpServer.step] at h1
    split at h1 <;> cases h1
    rename_i ran task functors _
    have hset : Keyed (s.setAt l (.run (ran ++ [task]) functors)) := hk
    cases task with
    | removeConnection c => exact hset.erase _
    | job c j => exact hset.applyAll _
  | call | send =>
    simp only [TcpServer.step, Option.ite_none_right_eq_some, Option.some.injEq] at h1
    obtain ⟨-, rfl⟩ := h1
    exact hk.applyAll _
  | remote c r =>
    simp only [TcpServer.step, Option.ite_none_right_eq_some, Option.map_eq_some_iff] at h1
    obtain ⟨-, r', -, rfl⟩ := h1
    exact hk.applyAll _

theorem Keyed.lookup (hk : Keyed s) {name : List Char} (hmem : (name, c) ∈ s.connections_) :
    s.connections_.lookup name = some c := by
  obtain ⟨before, after, hsplit⟩ := List.append_of_mem hmem
  refine List.lookup_eq_some_iff.mpr ⟨before, after, hsplit, fun entry hentry => ?_⟩
  rw [Keyed, hsplit, List.map_append, List.nodup_append] at hk
  have hne := hk.2.2 entry.1 (List.mem_map_of_mem hentry) name (by simp)
  exact bne_iff_ne.mpr hne.symm

/-- A connection that is not closed is found under its own name, whatever was accepted since. -/
theorem found_by_name (hr : Reach step (Each Hosted.SetsOpen)
    (init nameArg listenAddr numThreads writeComplete) s) (hc : s.made c)
    (hopen : (s.conn c).life.state_ ≠ .kDisconnected) :
    s.connections_.lookup (s.connName c) = some c := by
  have hk : Keyed s := hr.invariant List.nodup_nil fun _ _ _ hk _ h1 => hk.step h1
  obtain ⟨_, hview⟩ := reach_view free_setsOpen hr hc
  refine hk.lookup (view_mapped.mp ?_)
  by_cases hst : (s.conn c).life.state_ = .kConnecting
  · obtain ⟨writeComplete, hinit⟩ := (Hosted.reach_staged hview).connecting hst
    rw [hinit]
    rfl
  · exact ((Hosted.reach_sound hview).opened (Hosted.open_of_ne hst hopen)).1

/-- Three connections on two threads, of which the second is closed. -/
theorem found_by_name_third : ∃ s, exec step (Each Hosted.SetsOpen) (init ['s'] ⟨(127, 0, 0, 1), 80⟩ 2 true)
      [.start, .poll 0 [.acceptChannel_, .acceptChannel_, .acceptChannel_], .accept true, .accept true,
        .accept true, .poll 2 [], .advance 2, .functor 2 .all, .call 2 .forceClose, .advance 0,
        .functor 0 .all] = some s ∧
    s.connections_.map Prod.snd = [3, 1] ∧ s.connections_.lookup (s.connName 3) = some 3 := by
  have hrun : (exec step (Each Hosted.SetsOpen) (init ['s'] ⟨(127, 0, 0, 1), 80⟩ 2 true)
      [.start, .poll 0 [.acceptChannel_, .acceptChannel_, .acceptChannel_], .accept true, .accept true,
        .accept true, .poll 2 [], .advance 2, .functor 2 .all, .call 2 .forceClose, .advance 0,
        .functor 0 .all]).any
      (fun s => s.made 3 ∧ (s.conn 3).life.state_ ≠ .kDisconnected ∧
        s.connections_.map Prod.snd = [3, 1]) = true := by
    decide +kernel
  obtain ⟨s, hs, hall⟩ := (Option.any_eq_true _ _).mp hrun
  obtain ⟨hmade, hopen, hmap⟩ := of_decide_eq_true hall
  exact ⟨s, hs, hmap, found_by_name (.of_exec hs) hmade hopen⟩

-- ---------------------------------------------------------------------------
-- Callbacks
-- ---------------------------------------------------------------------------

/-- The loops take each connection through its lifecycle, and no other way. -/
theorem refines_lifecycle (hr : Reach step Always (init nameArg listenAddr numThreads writeComplete) s)
    (hc : s.made c) : Reach Lifecycle.step Always {} (s.conn c).life := by
  have hr : Reach step (Each fun _ _ => True) (init nameArg listenAddr numThreads writeComplete) s := by
    refine hr.mono fun t e _ => ?_
    unfold Each
    split <;> trivial
  obtain ⟨_, hview⟩ := reach_view free_always hr hc
  exact Hosted.reach_life (fun _ _ _ _ _ _ => trivial) hview

theorem refines_lifecycle_closed : ∃ s,
    exec step Always (init [] ⟨(127, 0, 0, 1), 80⟩ 2 true) closedRun = some s ∧
      (s.conn 1).life.destroyed = true ∧ Reach Lifecycle.step Always {} (s.conn 1).life := by
  have hrun : (exec step Always (init [] ⟨(127, 0, 0, 1), 80⟩ 2 true) closedRun).any
      (fun s => s.made 1 ∧ (s.conn 1).life.destroyed = true) = true := by
    decide +kernel
  obtain ⟨s, hs, hall⟩ := (Option.any_eq_true _ _).mp hrun
  obtain ⟨hmade, hdestroyed⟩ := of_decide_eq_true hall
  exact ⟨s, hs, hdestroyed, refines_lifecycle (.of_exec hs) hmade⟩

/-- No call on another thread sets the state of a closed connection or queues a `shutdownInLoop`
for one, and no channel closes one. -/
theorem up_down_close_once (hr : Reach step (Each Hosted.ClosesOnce)
    (init nameArg listenAddr numThreads writeComplete) s) (hc : s.made c) :
    Lifecycle.CalledOnce (s.conn c).life := by
  obtain ⟨_, hview⟩ := reach_view free_closesOnce hr hc
  exact Hosted.calledOnce hview

theorem up_down_close_once_closed : ∃ s,
    exec step (Each Hosted.ClosesOnce) (init [] ⟨(127, 0, 0, 1), 80⟩ 2 true) closedRun = some s ∧
      (s.conn 1).life.destroyed = true ∧ Lifecycle.CalledOnce (s.conn 1).life := by
  have hrun : (exec step (Each Hosted.ClosesOnce) (init [] ⟨(127, 0, 0, 1), 80⟩ 2 true) closedRun).any
      (fun s => s.made 1 ∧ (s.conn 1).life.destroyed = true) = true := by
    decide +kernel
  obtain ⟨s, hs, hall⟩ := (Option.any_eq_true _ _).mp hrun
  obtain ⟨hmade, hdestroyed⟩ := of_decide_eq_true hall
  exact ⟨s, hs, hdestroyed, up_down_close_once (.of_exec hs) hmade⟩

end VortexNet.TcpServer
