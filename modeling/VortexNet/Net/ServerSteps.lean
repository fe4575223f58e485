import VortexNet.Net.ServerViews

/-!
# The steps of a server

Whatever the threads do, in any order, every connection moves as a `Hosted` one
does, so what holds in all runs of one holds of all connections of a server.
-/

namespace VortexNet.TcpServer

open Systems (Reach Always exec)
open TcpConnection (Call Revents)

variable {s s' : TcpServer} {c d l : Nat} {e : Event}

-- ---------------------------------------------------------------------------
-- Everything stays in its place
-- ---------------------------------------------------------------------------

theorem Placed.queueInLoop (hw : Placed s) (task : Task) (hmade : s.made task.subject) :
    Placed (s.queueInLoop (s.home task) task) where
  number := hw.number
  tasks l task' hmem := by
    rw [todo_queueInLoop] at hmem
    rcases List.mem_append.mp hmem with hmem | hmem
    · exact hw.tasks l task' hmem
    · split at hmem
      · rename_i hl
        cases List.mem_singleton.mp hmem
        exact ⟨hmade, hl⟩
      · cases hmem
  reported l c hr := by
    rw [loopAt_queueInLoop] at hr
    exact hw.reported l c hr
  entries := hw.entries
  loops := hw.loops
  base := hw.base
  unmade := hw.unmade

theorem Placed.removeConnectionInLoop (hw : Placed s) (hc : s.made c) :
    Placed (s.removeConnectionInLoop c) := by
  have herased : Placed { s with connections_ := s.connections_.filter (·.1 ≠ s.connName c) } :=
    ⟨hw.number, hw.tasks, hw.reported, fun entry hmem => hw.entries entry (List.mem_filter.mp hmem).1,
      hw.loops, hw.base, hw.unmade⟩
  exact herased.queueInLoop (.job c .connectDestroyed) hc

theorem Placed.apply (hw : Placed s) (hc : s.made c) (effect : Effect) :
    Placed (apply c s effect) := by
  cases effect with
  | closeCallback_ =>
    simp only [TcpServer.apply, removeConnection]
    split
    · exact hw.removeConnectionInLoop hc
    · exact hw.queueInLoop (.removeConnection c) hc
  | queueInLoop job => exact hw.queueInLoop (.job c job) hc

theorem Placed.applyAll (hw : Placed s) (hc : s.made c) (r : Conn × List Effect) :
    Placed (s.applyAll c r) := by
  have hfold : ∀ (effects : List Effect) s, Placed s → s.made c → Placed (effects.foldl (TcpServer.apply c) s) := by
    intro effects
    induction effects with
    | nil => exact fun _ hw _ => hw
    | cons effect effects ih =>
      intro s hw hc
      refine ih _ (hw.apply hc effect) ?_
      rwa [made, apply_nexConnId_]
  exact hfold r.2 _ (hw.conn hc r.1) hc

theorem Placed.loop (hw : Placed s) {x : Loop} (htasks : ∀ task ∈ x.todo, task ∈ (s.loop l).todo)
    (hreports : ∀ c, x.loopAt.reports c = true →
      (s.loop l).loopAt.reports c = true ∨ s.made c ∧ s.getLoop c = l) :
    Placed { s with loop := Function.update s.loop l x } where
  number := hw.number
  tasks l' task hmem := by
    have hmem : task ∈ (Function.update s.loop l x l').todo := hmem
    rw [Function.update_apply] at hmem
    split at hmem
    · rename_i hl
      rw [hl]
      exact hw.tasks l task (htasks task hmem)
    · exact hw.tasks l' task hmem
  reported l' c hr := by
    have hr : (Function.update s.loop l x l').loopAt.reports c = true := hr
    rw [Function.update_apply] at hr
    split at hr
    · rename_i hl
      rw [hl]
      exact (hreports c hr).elim (hw.reported l c) id
    · exact hw.reported l' c hr
  entries := hw.entries
  loops := hw.loops
  base := hw.base
  unmade := hw.unmade

-- ---------------------------------------------------------------------------
-- A new connection
-- ---------------------------------------------------------------------------

theorem construct_made : s.construct.made c ↔ s.made c ∨ 1 ≤ s.nexConnId_ ∧ c = s.nexConnId_ := by
  show 1 ≤ c ∧ c < s.nexConnId_ + 1 ↔ (1 ≤ c ∧ c < s.nexConnId_) ∨ _
  omega

theorem construct_getLoop_of_ne (h : c ≠ s.nexConnId_) : s.construct.getLoop c = s.getLoop c :=
  Function.update_of_ne h ..

theorem made_ne (hc : s.made c) : c ≠ s.nexConnId_ := Nat.ne_of_lt hc.2

theorem Placed.construct (hw : Placed s) (hid : s.nexConnId_ < 2 ^ 31 - 1) :
    Placed s.construct where
  number := ⟨Nat.succ_pos _, show s.nexConnId_ + 1 < 2 ^ 31 by omega⟩
  tasks l task hmem := by
    obtain ⟨hmade, hl⟩ := hw.tasks l task hmem
    refine ⟨construct_made.mpr (.inl hmade), hl.trans ?_⟩
    cases task with
    | removeConnection c => rfl
    | job c j => exact (construct_getLoop_of_ne (made_ne hmade)).symm
  reported l c hr := by
    obtain ⟨hmade, hl⟩ := hw.reported l c hr
    exact ⟨construct_made.mpr (.inl hmade), (construct_getLoop_of_ne (made_ne hmade)).trans hl⟩
  entries entry hmem := by
    rcases List.mem_cons.mp hmem with rfl | hmem
    · exact ⟨construct_made.mpr (.inr ⟨hw.number.1, rfl⟩), rfl⟩
    · obtain ⟨hmade, hname⟩ := hw.entries entry (List.mem_filter.mp hmem).1
      exact ⟨construct_made.mpr (.inl hmade), hname⟩
  loops c hc := by
    have hloops : s.construct.threadpool_.loops_ = s.threadpool_.loops_ :=
      EventLoopThreadPool.getNextLoop_loops_
    rw [hloops]
    rcases construct_made.mp hc with hc | ⟨-, rfl⟩
    · rw [construct_getLoop_of_ne (made_ne hc)]
      exact hw.loops c hc
    · have hnew : s.construct.getLoop s.nexConnId_ = s.threadpool_.getNextLoop.1 :=
        Function.update_self ..
      rw [hnew, ← hw.base]
      exact EventLoopThreadPool.getNextLoop_mem
  base := EventLoopThreadPool.getNextLoop_baseloop_.trans hw.base
  unmade c hc := by
    have hne : c ≠ s.nexConnId_ := fun h => hc (construct_made.mpr (.inr ⟨hw.number.1, h⟩))
    exact (Function.update_of_ne hne ..).trans (hw.unmade c fun h => hc (construct_made.mpr (.inl h)))

theorem view_construct_of_ne (hw : Placed s) (hc : s.made c) : s.construct.view c = s.view c := by
  have hne := made_ne hc
  have hname : s.connName c ≠ s.connName s.nexConnId_ := by
    refine fun hname => hne (connName_inj ?_ hw.number.2 hname)
    exact Nat.lt_trans hc.2 hw.number.2
  refine Hosted.ext ?_ (decide_eq_decide.mpr ?_) rfl ?_ ?_
  · exact Function.update_of_ne hne ..
  · show (s.connName c, c) ∈ _ :: s.connections_.filter _ ↔ _
    simp [hname]
  · show (s.loop (s.construct.getLoop c)).todo.filterMap _ = _
    rw [construct_getLoop_of_ne hne]
    rfl
  · show (s.loop (s.construct.getLoop c)).loopAt.reports c = _
    rw [construct_getLoop_of_ne hne]
    rfl

theorem view_construct_self (hw : Placed s) : s.construct.view s.nexConnId_ =
    { Hosted.init s.writeCompleteCallback_ with todo := [] } := by
  have hnot : ¬ s.made s.nexConnId_ := fun h => Nat.lt_irrefl _ h.2
  have htask : ∀ l, ∀ task ∈ (s.loop l).todo, task.subject ≠ s.nexConnId_ :=
    fun l task hmem h => hnot (h ▸ (hw.tasks l task hmem).1)
  refine Hosted.ext ?_ (decide_eq_true (List.mem_cons_self ..)) ?_ ?_ ?_
  · exact Function.update_self ..
  · refine List.count_eq_zero.mpr fun hmem => ?_
    exact htask loop_ _ hmem rfl
  · refine List.filterMap_eq_nil_iff.mpr fun task hmem => ?_
    cases task with
    | removeConnection c => rfl
    | job c j => exact if_neg (htask _ _ hmem)
  · refine Bool.eq_false_iff.mpr fun hr => ?_
    exact hnot (hw.reported _ _ hr).1

structure Free (C : Hosted → Hosted.Event → Prop) : Prop where
  polled : ∀ h, C h .polled
  handled : ∀ h, C h .handled
  functor : ∀ h w, C h (.functor w)
  removeConnectionInLoop : ∀ h, C h .removeConnectionInLoop

theorem Placed.newConnection (hw : Placed s) (hid : s.nexConnId_ < 2 ^ 31 - 1) :
    Placed s.newConnection := by
  have hnew : s.construct.made s.nexConnId_ := construct_made.mpr (.inr ⟨hw.number.1, rfl⟩)
  unfold TcpServer.newConnection
  dsimp only
  split
  · exact (hw.construct hid).applyAll hnew _
  · have hloop : s.construct.home (.job s.nexConnId_ .connectEstablished) = s.threadpool_.getNextLoop.1 :=
      Function.update_self ..
    rw [← hloop]
    exact (hw.construct hid).queueInLoop (.job s.nexConnId_ .connectEstablished) hnew

theorem view_newConnection_of_ne (hw : Placed s) (hid : s.nexConnId_ < 2 ^ 31 - 1) (hc : s.made c) :
    s.newConnection.view c = s.view c := by
  have hne := made_ne hc
  unfold newConnection
  dsimp only
  split
  · rw [act, view_applyAll_of_ne (hw.construct hid) (construct_made.mpr (.inl hc))
      (construct_made.mpr (.inr ⟨hw.number.1, rfl⟩)) hne (act_plain ..), view_construct_of_ne hw hc]
  · rw [view_queue_job_of_ne hne, view_construct_of_ne hw hc]

theorem reach_newConnection {C : Hosted → Hosted.Event → Prop} (hC : Free C) (hw : Placed s) :
    Reach Hosted.step C (Hosted.init s.writeCompleteCallback_)
      (s.newConnection.view s.nexConnId_) := by
  have hview := view_construct_self hw
  unfold newConnection
  dsimp only
  split
  · have hact := reach_applyAll_self (s := s.construct) (c := s.nexConnId_) hC.removeConnectionInLoop
      (act_plain (s.construct.conn s.nexConnId_) (.run .connectEstablished .all))
    have hconn : s.construct.conn s.nexConnId_ = { writeCompleteCallback_ := s.writeCompleteCallback_ } :=
      Function.update_self ..
    rw [hview, hconn] at hact
    refine Reach.trans (.tail .refl (hC.functor _ .all) rfl) ?_
    rw [act, hconn]
    exact hact
  · have hloop : s.construct.getLoop s.nexConnId_ = s.threadpool_.getNextLoop.1 :=
      Function.update_self ..
    rw [← hloop, view_queue_job_self, hview]
    exact .refl

-- ---------------------------------------------------------------------------
-- A step of the server
-- ---------------------------------------------------------------------------

def acting (s : TcpServer) : Event → Option (Nat × Hosted.Event)
  | .callback l input drained =>
    match (s.loop l).loopAt with
    | .event c (part :: _) _ => some (c, .handle part input drained)
    | _ => none
  | .functor l w =>
    match (s.loop l).loopAt with
    | .run _ (.job c _ :: _) => some (c, .functor w)
    | _ => none
  | .call c call => some (c, .call call)
  | .send c w => some (c, .send w)
  | .remote c r => some (c, .remote r)
  | _ => none

/-- `C` holds of what a step does to its connection. -/
def Each (C : Hosted → Hosted.Event → Prop) (s : TcpServer) (e : Event) : Prop :=
  match s.acting e with
  | some (c, event) => C (s.view c) event
  | none => True

instance (C : Hosted → Hosted.Event → Prop) [∀ h, DecidablePred (C h)] (s : TcpServer) (e : Event) :
    Decidable (s.Each C e) := by
  unfold Each
  split <;> infer_instance

theorem Placed.setAt (hw : Placed s) {loopAt : At}
    (hf : ∀ task ∈ loopAt.functors, task ∈ (s.loop l).loopAt.functors)
    (hreports : ∀ c, loopAt.reports c = true →
      (s.loop l).loopAt.reports c = true ∨ s.made c ∧ s.getLoop c = l) :
    Placed (s.setAt l loopAt) := by
  refine hw.loop (fun task hmem => ?_) hreports
  rcases List.mem_append.mp hmem with hmem | hmem
  · exact List.mem_append_left _ (hf task hmem)
  · exact List.mem_append_right _ hmem

theorem Placed.made_of_registered (hw : Placed s) (h : s.registered l (.channel_ c)) :
    s.made c ∧ s.getLoop c = l := by
  refine ⟨?_, h.1⟩
  by_contra hc
  have hnew := h.2
  rw [hw.unmade c hc] at hnew
  cases hnew

theorem Placed.step (hw : Placed s) (h1 : step s e = some s') : Placed s' := by
  cases e with
  | start =>
    cases h1
    unfold start
    split
    · exact ⟨hw.number, hw.tasks, hw.reported, hw.entries,
        fun c hc => List.mem_cons.mpr ((List.mem_cons.mp (hw.loops c hc)).imp_right
          (List.mem_append_left _)), hw.base, hw.unmade⟩
    · exact ⟨hw.number, hw.tasks, hw.reported, hw.entries, hw.loops, hw.base, hw.unmade⟩
  | poll l activeChannels_ =>
    simp only [TcpServer.step, Option.ite_none_right_eq_some, Option.some.injEq] at h1
    obtain ⟨⟨-, hregistered⟩, rfl⟩ := h1
    refine hw.setAt (List.forall_mem_nil _) fun c hr => .inr ?_
    exact hw.made_of_registered (hregistered _ (of_decide_eq_true hr))
  | accept connected =>
    simp only [TcpServer.step] at h1
    split at h1
    · rename_i rest hat
      have hset : Placed (s.setAt loop_ (.handle rest)) := by
        refine hw.setAt (List.forall_mem_nil _) fun c hr => .inl ?_
        rw [hat]
        exact decide_eq_true (List.mem_cons_of_mem _ (of_decide_eq_true hr))
      split at h1
      · cases h1
        exact hset
      · split at h1
        · rename_i hid
          cases h1
          exact hset.newConnection hid
        · cases h1
    · cases h1
  | handleEvent l revents_ =>
    simp only [TcpServer.step] at h1
    split at h1
    · rename_i c rest hat
      cases h1
      refine hw.setAt ?_ fun d hr => .inl ?_
      · intro task hmem
        split at hmem <;> cases hmem
      · rw [hat]
        split at hr
        · rcases Bool.or_eq_true_iff.mp hr with hr | hr
          · cases of_decide_eq_true hr
            exact decide_eq_true List.mem_cons_self
          · exact decide_eq_true (List.mem_cons_of_mem _ (of_decide_eq_true hr))
        · exact decide_eq_true (List.mem_cons_of_mem _ (of_decide_eq_true hr))
    · cases h1
  | callback l input drained =>
    simp only [TcpServer.step] at h1
    split at h1
    · rename_i c part parts rest hat
      cases h1
      have hmade : s.made c := (hw.reported l c (by rw [hat]; simp [At.reports])).1
      have hset : Placed (s.setAt l (.event c parts rest)) := by
        refine hw.setAt (List.forall_mem_nil _) fun d hr => .inl ?_
        rw [hat]
        exact hr
      exact hset.applyAll hmade _
    · cases h1
  | functor l w =>
    simp only [TcpServer.step] at h1
    split at h1
    · rename_i ran task functors hat
      cases h1
      have hmade := (hw.tasks l task (List.mem_append_left _ (by rw [hat]; exact List.mem_cons_self))).1
      have hset : Placed (s.setAt l (.run (ran ++ [task]) functors)) := by
        refine hw.setAt (fun task hmem => ?_) fun c hr => Bool.noConfusion hr
        rw [hat]
        exact List.mem_cons_of_mem _ hmem
      cases task with
      | removeConnection c => exact hset.removeConnectionInLoop hmade
      | job c j => exact hset.applyAll hmade _
    · cases h1
  | advance l =>
    simp only [TcpServer.step] at h1
    split at h1
    · rename_i c rest hat
      cases h1
      refine hw.setAt (List.forall_mem_nil _) fun d hr => .inl ?_
      rw [hat]
      exact Bool.or_eq_true_iff.mpr (.inr hr)
    · rename_i hat
      cases h1
      refine hw.loop (fun task hmem => ?_) fun c hr => Bool.noConfusion hr
      rw [Loop.todo, hat]
      simpa [Loop.todo, At.functors] using hmem
    · cases h1
      exact hw.setAt (List.forall_mem_nil _) fun c hr => Bool.noConfusion hr
    · cases h1
  | call c call =>
    simp only [TcpServer.step, Option.ite_none_right_eq_some, Option.some.injEq] at h1
    obtain ⟨⟨hmade, -⟩, rfl⟩ := h1
    exact hw.applyAll hmade _
  | send c w =>
    simp only [TcpServer.step, Option.ite_none_right_eq_some, Option.some.injEq] at h1
    obtain ⟨⟨hmade, -⟩, rfl⟩ := h1
    exact hw.applyAll hmade _
  | remote c r =>
    simp only [TcpServer.step, Option.ite_none_right_eq_some, Option.map_eq_some_iff] at h1
    obtain ⟨hmade, r', -, rfl⟩ := h1
    exact hw.applyAll hmade _

theorem newConnection_nexConnId_ (s : TcpServer) : s.newConnection.nexConnId_ = s.nexConnId_ + 1 := by
  unfold newConnection
  dsimp only
  split
  · exact applyAll_nexConnId_ ..
  · rfl

theorem step_nexConnId_ (he : e ≠ .accept true) (h1 : step s e = some s') :
    s'.nexConnId_ = s.nexConnId_ := by
  cases e with
  | start =>
    cases h1
    unfold start
    split <;> rfl
  | poll | call | send =>
    simp only [step, Option.ite_none_right_eq_some, Option.some.injEq] at h1
    obtain ⟨-, rfl⟩ := h1
    first | rfl | exact applyAll_nexConnId_ ..
  | accept connected =>
    cases connected with
    | true => exact absurd rfl he
    | false =>
      simp only [step] at h1
      split at h1 <;> cases h1
      rfl
  | handleEvent | advance =>
    simp only [step] at h1
    split at h1 <;> cases h1 <;> rfl
  | callback =>
    simp only [step] at h1
    split at h1 <;> cases h1
    exact applyAll_nexConnId_ ..
  | functor l w =>
    simp only [step] at h1
    split at h1 <;> cases h1
    rename_i task _ _
    cases task with
    | removeConnection c => rfl
    | job c j => exact applyAll_nexConnId_ ..
  | remote c r =>
    simp only [step, Option.ite_none_right_eq_some, Option.map_eq_some_iff] at h1
    obtain ⟨-, r', -, rfl⟩ := h1
    exact applyAll_nexConnId_ ..

section Views

variable {C : Hosted → Hosted.Event → Prop}

theorem reach_active (hC : Free C) {h : Hosted} {b : Bool}
    (hb : b = true → h.active = true ∨ h.conn.index_ = .kAdded) :
    Reach Hosted.step C h { h with active := b } := by
  cases b with
  | false => exact .tail .refl (hC.handled h) rfl
  | true =>
    rcases hb rfl with ha | hi
    · have hsame : { h with active := true } = h := by rw [← ha]
      rw [hsame]
      exact .refl
    · exact .tail .refl (hC.polled h) (if_pos hi)

theorem view_active (hat : (s.loop (s.getLoop c)).loopAt = loopAt) :
    (s.view c).active = loopAt.reports c := by
  rw [← hat]
  rfl

theorem loopAt_setAt (s : TcpServer) (l : Nat) (loopAt : At) : ((s.setAt l loopAt).loop l).loopAt = loopAt :=
  congrArg Loop.loopAt (Function.update_self l _ s.loop)

theorem reach_setAt (hC : Free C) {a : At} (hf : a.functors = (s.loop l).loopAt.functors)
    (hreports : a.reports c = true → (s.loop l).loopAt.reports c = true ∨
      (s.conn c).index_ = .kAdded) :
    Reach Hosted.step C (s.view c) ((s.setAt l a).view c) := by
  rw [view_setAt hf]
  refine reach_active hC fun hb => ?_
  split at hb
  · rename_i hl
    subst hl
    exact hreports hb
  · exact .inl hb

theorem view_setAt_same {a : At} (hf : a.functors = (s.loop l).loopAt.functors)
    (hr : a.reports c = (s.loop l).loopAt.reports c) :
    (s.setAt l a).view c = s.view c := by
  rw [view_setAt hf]
  refine Hosted.ext rfl rfl rfl rfl ?_
  dsimp only
  split
  · rename_i hl
    subst hl
    exact hr
  · rfl

theorem view_pop {ran functors : List Task} {task : Task}
    (hat : (s.loop l).loopAt = .run ran (task :: functors)) :
    s.view c = { (s.setAt l (.run (ran ++ [task]) functors)).view c with
      removing := (if loop_ = l then [task].count (.removeConnection c) else 0) +
        ((s.setAt l (.run (ran ++ [task]) functors)).view c).removing
      todo := (if s.getLoop c = l then [task].filterMap (Task.job? c) else []) ++
        ((s.setAt l (.run (ran ++ [task]) functors)).view c).todo } := by
  have htodo : (s.loop l).todo = [task] ++ (functors ++ (s.loop l).pendingFunctors_) := by
    rw [Loop.todo, hat]
    rfl
  rw [setAt, view_loop]
  refine Hosted.ext rfl rfl ?_ ?_ ?_ <;> dsimp only
  · split
    · rename_i hl
      show (s.loop loop_).todo.count _ = _
      rw [hl, htodo, List.count_append]
      rfl
    · exact (Nat.zero_add _).symm
  · split
    · rename_i hl
      show (s.loop (s.getLoop c)).todo.filterMap _ = _
      rw [hl, htodo, List.filterMap_append]
      rfl
    · rfl
  · split
    · rename_i hl
      have hat : (s.loop (s.getLoop c)).loopAt = .run ran (task :: functors) := hl ▸ hat
      exact (view_active hat).trans rfl
    · rfl

theorem view_pop_remove {ran functors : List Task}
    (hat : (s.loop loop_).loopAt = .run ran (.removeConnection c :: functors)) :
    s.view c = { (s.setAt loop_ (.run (ran ++ [.removeConnection c]) functors)).view c with
      removing := ((s.setAt loop_ (.run (ran ++ [.removeConnection c]) functors)).view c).removing + 1 } := by
  rw [view_pop (c := c) hat]
  ext1 <;> simp [Task.job?, Nat.add_comm]

theorem view_pop_job {ran functors : List Task} {j : Job}
    (hat : (s.loop (s.getLoop c)).loopAt = .run ran (.job c j :: functors)) :
    s.view c = { (s.setAt (s.getLoop c) (.run (ran ++ [.job c j]) functors)).view c with
      todo := j :: ((s.setAt (s.getLoop c) (.run (ran ++ [.job c j]) functors)).view c).todo } := by
  rw [view_pop (c := c) hat]
  ext1 <;> simp [Task.job?]

theorem view_pop_of_ne {ran functors : List Task} {task : Task} (hne : task.subject ≠ c)
    (hat : (s.loop l).loopAt = .run ran (task :: functors)) :
    (s.setAt l (.run (ran ++ [task]) functors)).view c = s.view c := by
  rw [view_pop (c := c) hat]
  cases task with
  | removeConnection d =>
    have hd : d ≠ c := hne
    ext1 <;> simp [Task.job?, hd]
  | job d j =>
    have hd : d ≠ c := hne
    ext1 <;> simp [Task.job?, hd]

theorem reach_applyAll (hC : Free C) (hw : Placed s) (hc : s.made c) (hd : s.made d)
    {r : Conn × List Effect} (hr : Plain r.2) {v : Hosted.Event}
    (hv : c = d → C (s.view c) v)
    (hstep : c = d → Hosted.step (s.view c) v = some ((s.view c).applyAll r)) :
    Reach Hosted.step C (s.view c) ((s.applyAll d r).view c) := by
  by_cases h : c = d
  · subst h
    exact Reach.trans (.tail .refl (hv rfl) (hstep rfl))
      (reach_applyAll_self hC.removeConnectionInLoop hr)
  · rw [view_applyAll_of_ne hw hc hd h hr]
    exact .refl

theorem reach_functor (hC : Free C) (hw : Placed s) (hc : s.made c) {w : Write}
    (h1 : step s (.functor l w) = some s') : Reach Hosted.step C (s.view c) (s'.view c) := by
  simp only [step] at h1
  split at h1
  case h_2 => cases h1
  rename_i ran task functors hat
  cases h1
  obtain ⟨hmade, hhome⟩ :=
    hw.tasks l task (List.mem_append_left _ (by rw [hat]; exact List.mem_cons_self))
  have hset : Placed (s.setAt l (.run (ran ++ [task]) functors)) := by
    refine hw.setAt (fun task hmem => ?_) nofun
    rw [hat]
    exact List.mem_cons_of_mem _ hmem
  by_cases hne : task.subject = c
  · cases task with
    | removeConnection d =>
      have hd : d = c := hne
      have hl : l = loop_ := hhome
      subst hd hl
      refine .tail .refl (hC.removeConnectionInLoop _) ?_
      rw [view_pop_remove hat, Hosted.step_removeConnectionInLoop]
      exact congrArg some view_removeConnectionInLoop_self.symm
    | job d j =>
      have hd : d = c := hne
      have hl : l = s.getLoop d := hhome
      subst hd hl
      have hstep := Hosted.step_functor (view_active (loopAt_setAt s (s.getLoop d)
        (.run (ran ++ [.job d j]) functors))) j w
      rw [← view_pop_job hat] at hstep
      exact Reach.trans (.tail .refl (hC.functor _ w) hstep)
        (reach_applyAll_self hC.removeConnectionInLoop (act_plain ..))
  · have hsame := view_pop_of_ne hne hat
    rw [← hsame]
    cases task with
    | removeConnection d =>
      have hne : c ≠ d := Ne.symm hne
      have hview := view_removeConnectionInLoop_of_ne hset hc hmade hne
      exact hview ▸ .refl
    | job d j =>
      have hne : c ≠ d := Ne.symm hne
      have hview := view_applyAll_of_ne hset hc hmade hne (act_plain (s.conn d) (.run j w))
      exact hview ▸ .refl

theorem view_swap (hat : (s.loop l).loopAt = .handle []) :
    view { s with
      loop := Function.update s.loop l
        { loopAt := .run [] (s.loop l).pendingFunctors_, pendingFunctors_ := [] } } c = s.view c := by
  have htodo : ({ loopAt := .run [] (s.loop l).pendingFunctors_, pendingFunctors_ := [] } : Loop).todo =
      (s.loop l).todo := by
    rw [Loop.todo, Loop.todo, hat]
    exact List.append_nil _
  rw [view_loop, htodo]
  refine Hosted.ext rfl rfl ?_ ?_ ?_ <;> dsimp only <;> split
  · rename_i hl
    exact hl ▸ rfl
  · rfl
  · rename_i hl
    exact hl ▸ rfl
  · rfl
  · rename_i hl
    have hat : (s.loop (s.getLoop c)).loopAt = .handle [] := hl ▸ hat
    exact (view_active hat).symm
  · rfl

/-- What a step of the server is to a connection that was made before it. -/
theorem reach_step (hC : Free C) (hw : Placed s) (hc : s.made c) (he : s.Each C e)
    (h1 : step s e = some s') : Reach Hosted.step C (s.view c) (s'.view c) := by
  cases e with
  | start =>
    cases h1
    unfold start
    split <;> exact .refl
  | poll l activeChannels_ =>
    simp only [step, Option.ite_none_right_eq_some, Option.some.injEq] at h1
    obtain ⟨⟨hat, hregistered⟩, rfl⟩ := h1
    refine reach_setAt hC (by rw [hat]; rfl) fun hr => .inr ?_
    exact (hregistered _ (of_decide_eq_true hr)).2
  | accept connected =>
    simp only [step] at h1
    split at h1
    case h_2 => cases h1
    rename_i rest hat
    have hreports : ∀ d, (At.handle rest).reports d = true →
        (s.loop loop_).loopAt.reports d = true := by
      intro d hr
      rw [hat]
      exact decide_eq_true (List.mem_cons_of_mem _ (of_decide_eq_true hr))
    have hreach := reach_setAt (s := s) (c := c) (l := loop_) (a := .handle rest) hC
      (by rw [hat]; rfl) fun hr => .inl (hreports c hr)
    split at h1
    · cases h1
      exact hreach
    · split at h1
      · rename_i hid
        cases h1
        have hset : Placed (s.setAt loop_ (.handle rest)) :=
          hw.setAt nofun fun d hr => .inl (hreports d hr)
        have hview := view_newConnection_of_ne hset hid hc
        rw [hview]
        exact hreach
      · cases h1
  | handleEvent l revents_ =>
    simp only [step] at h1
    split at h1
    · rename_i d rest hat
      cases h1
      refine reach_setAt hC ?_ fun hr => .inl ?_
      · rw [hat]
        split <;> rfl
      · rw [hat]
        split at hr
        · rcases Bool.or_eq_true_iff.mp hr with hr | hr
          · cases of_decide_eq_true hr
            exact decide_eq_true List.mem_cons_self
          · exact decide_eq_true (List.mem_cons_of_mem _ (of_decide_eq_true hr))
        · exact decide_eq_true (List.mem_cons_of_mem _ (of_decide_eq_true hr))
    · cases h1
  | callback l input drained =>
    simp only [step] at h1
    split at h1
    case h_2 => cases h1
    rename_i d part parts rest hat
    cases h1
    obtain ⟨hmade, hl⟩ := hw.reported l d (by rw [hat]; simp [At.reports])
    have hset : Placed (s.setAt l (.event d parts rest)) := by
      refine hw.setAt nofun fun d' hr => .inl ?_
      rw [hat]
      exact hr
    have hsame := view_setAt_same (s := s) (c := c) (l := l) (a := .event d parts rest)
      (by rw [hat]; rfl) (by rw [hat]; rfl)
    rw [← hsame]
    refine reach_applyAll hC hset hc hmade (act_plain ..) (v := .handle part input drained) ?_ ?_
    · rintro rfl
      rw [hsame]
      simpa [Each, acting, hat] using he
    · rintro rfl
      have hactive : ((s.setAt l (.event c parts rest)).view c).active = true := by
        rw [hsame]
        have hat : (s.loop (s.getLoop c)).loopAt = .event c (part :: parts) rest := hl ▸ hat
        rw [view_active hat]
        simp [At.reports]
      exact if_pos hactive
  | functor l w => exact reach_functor hC hw hc h1
  | advance l =>
    simp only [step] at h1
    split at h1
    · rename_i d rest hat
      cases h1
      refine reach_setAt hC (by rw [hat]; rfl) fun hr => .inl ?_
      rw [hat]
      exact Bool.or_eq_true_iff.mpr (.inr hr)
    · rename_i hat
      cases h1
      have hsame := view_swap (c := c) hat
      rw [hsame]
      exact .refl
    · rename_i hat
      cases h1
      exact reach_setAt hC (by rw [hat]; rfl) nofun
    · cases h1
  | call d call =>
    simp only [step, Option.ite_none_right_eq_some, Option.some.injEq] at h1
    obtain ⟨⟨hmade, -⟩, rfl⟩ := h1
    refine reach_applyAll hC hw hc hmade (act_plain ..) (v := .call call) ?_ ?_
    · rintro rfl
      exact he
    · rintro rfl
      rfl
  | send d w =>
    simp only [step, Option.ite_none_right_eq_some, Option.some.injEq] at h1
    obtain ⟨⟨hmade, -⟩, rfl⟩ := h1
    refine reach_applyAll hC hw hc hmade (act_plain ..) (v := .send w) ?_ ?_
    · rintro rfl
      exact he
    · rintro rfl
      rfl
  | remote d r =>
    simp only [step, Option.ite_none_right_eq_some, Option.map_eq_some_iff] at h1
    obtain ⟨hmade, r', hr, rfl⟩ := h1
    refine reach_applyAll hC hw hc hmade (remote_plain hr) (v := .remote r) ?_ ?_
    · rintro rfl
      exact he
    · rintro rfl
      show ((s.conn c).remote r).map (s.view c).applyAll = _
      rw [hr]
      rfl

/-- A connection that a step makes is one that a `Hosted` run starts with. -/
theorem reach_made (hC : Free C) (hw : Placed s) (hnot : ¬ s.made c) (h1 : step s e = some s')
    (hc : s'.made c) : ∃ writeComplete,
      Reach Hosted.step C (Hosted.init writeComplete) (s'.view c) := by
  by_cases he : e = .accept true
  · subst he
    simp only [step] at h1
    split at h1
    case h_2 => cases h1
    rename_i rest hat
    simp only [Bool.not_true, Bool.false_eq_true, if_false, Option.ite_none_right_eq_some,
      Option.some.injEq] at h1
    obtain ⟨hid, rfl⟩ := h1
    have hset : Placed (s.setAt loop_ (.handle rest)) := by
      refine hw.setAt (List.forall_mem_nil _) fun d hr => .inl ?_
      rw [hat]
      exact decide_eq_true (List.mem_cons_of_mem _ (of_decide_eq_true hr))
    have hnew : c = s.nexConnId_ := by
      have hlt : c < s.nexConnId_ + 1 := hc.2.trans_eq (newConnection_nexConnId_ _)
      have hge : ¬ c < s.nexConnId_ := fun h => hnot ⟨hc.1, h⟩
      omega
    rw [hnew]
    exact ⟨_, reach_newConnection hC hset⟩
  · refine absurd hc fun hc => hnot ?_
    rwa [made, ← step_nexConnId_ he h1]

end Views

end VortexNet.TcpServer
