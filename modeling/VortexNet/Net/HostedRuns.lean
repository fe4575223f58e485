import VortexNet.Net.ServerConnection

/-!
# The runs of a connection of a server

`Staged` holds in every run, and makes each one a run of the connection's
lifecycle. `Sound` holds while no other thread touches a closed connection: it
keeps the object as long as a functor or the poller refers to it, and lets go of
it afterwards. What a functor that captures only `this` relies on is the order
of the queue, where it comes before `connectDestroyed`.
-/

namespace VortexNet.TcpServer

open Systems (Reach Always exec)
open TcpConnection (Lifecycle Call Revents)
open EPollPoller (Events Index kNoneEvent kReadEvent kWriteEvent nextIndex nextIndex_ne_new)

namespace Hosted

-- ---------------------------------------------------------------------------
-- The pieces of a step
-- ---------------------------------------------------------------------------

variable {c : Conn} {h h' : Hosted} {e : Event} {writeComplete : Bool}

theorem foldl_apply_conn (h : Hosted) (effects : List Effect) :
    (effects.foldl apply h).conn = h.conn := by
  induction effects generalizing h with
  | nil => rfl
  | cons effect effects ih =>
    rw [List.foldl_cons, ih]
    cases effect <;> rfl

@[simp] theorem applyAll_conn (h : Hosted) (r : Conn × List Effect) : (h.applyAll r).conn = r.1 :=
  foldl_apply_conn ..

@[simp] theorem applyAll_nil (h : Hosted) (c : Conn) : h.applyAll (c, []) = { h with conn := c } := rfl

@[simp] theorem applyAll_close (h : Hosted) (c : Conn) :
    h.applyAll (c, [.closeCallback_]) = { h with conn := c, removing := h.removing + 1 } := rfl

@[simp] theorem applyAll_queue (h : Hosted) (c : Conn) (job : Job) :
    h.applyAll (c, [.queueInLoop job]) = { h with conn := c, todo := h.todo ++ [job] } := rfl

theorem step_removeConnectionInLoop (h : Hosted) :
    step { h with removing := h.removing + 1 } .removeConnectionInLoop =
      some { h with mapped := false, todo := h.todo ++ [.connectDestroyed] } := by
  simp [step]

theorem step_functor (ha : h.active = false) (job : Job) (w : Write) :
    step { h with todo := job :: h.todo } (.functor w) =
      some (h.applyAll (h.conn.act (.run job w))) :=
  if_neg (by simp [ha])

theorem sendInLoop_life (c : Conn) (w : Write) : (c.sendInLoop w).1.life = c.life := by
  unfold Conn.sendInLoop
  split
  · rfl
  · cases w with
    | rest high => dsimp only; split <;> rfl
    | all | fault => rfl

theorem forceCloseInLoop_life (c : Conn) : c.forceCloseInLoop.1.life = c.life.forceCloseInLoop := by
  unfold Conn.forceCloseInLoop Lifecycle.forceCloseInLoop
  split <;> rfl

theorem call_life (c : Conn) (call : Call) : (c.call call).1.life = c.life.call call := by
  cases call with
  | shutdown =>
    simp only [Conn.call, Lifecycle.call, Lifecycle.finds, decide_eq_true_eq]
    split <;> rfl
  | forceClose =>
    simp only [Conn.call, Lifecycle.call, Lifecycle.finds, Bool.or_eq_true, decide_eq_true_eq]
    split
    · exact forceCloseInLoop_life _
    · rfl

theorem connectDestroyed_life (c : Conn) : c.connectDestroyed.life = c.life.connectDestroyed := by
  unfold Conn.connectDestroyed Lifecycle.connectDestroyed
  split <;> rfl

theorem connectDestroyed_frame (c : Conn) :
    c.connectDestroyed.life.closing = c.life.closing ∧
      c.connectDestroyed.queueing = c.queueing ∧ c.connectDestroyed.index_ = .kNew := by
  unfold Conn.connectDestroyed
  split <;> exact ⟨rfl, rfl, rfl⟩

def lifeEvent (h : Hosted) : Event → Option Lifecycle.Event
  | .handle .closeCallback_ _ _ => some (.handleEvent { EPOLLHUP := true } .error)
  | .handle .readCallback_ .eof _ => some (.handleEvent { EPOLLIN := true } .eof)
  | .functor _ =>
    match h.todo.head? with
    | some .connectEstablished => some (.connectEstablished [])
    | some .connectDestroyed => some .connectDestroyed
    | some .forceCloseInLoop => some .forceCloseInLoop
    | _ => none
  | .call call => some (.call call)
  | .remote (.look call) => some (.look call)
  | .remote (.set call) => some (.set call)
  | _ => none

structure Staged (h : Hosted) : Prop where
  connecting : h.conn.life.state_ = .kConnecting → ∃ writeComplete, h = init writeComplete
  established : h.conn.life.state_ ≠ .kConnecting → .connectEstablished ∉ h.todo
  counted : h.conn.life.closing =
    h.todo.count .forceCloseInLoop + h.conn.queueing.count .forceClose

theorem Staged.life (hs : Staged h) (h1 : step h e = some h') :
    (h.lifeEvent e).elim (h'.conn.life = h.conn.life)
      fun event => Lifecycle.step h.conn.life event = some h'.conn.life := by
  have hactive : h.active = true → h.conn.life.state_ ≠ .kConnecting := by
    intro ha hst
    obtain ⟨writeComplete, rfl⟩ := hs.connecting hst
    cases ha
  cases e with
  | polled =>
    simp only [step, Option.ite_none_right_eq_some, Option.some.injEq] at h1
    obtain ⟨-, rfl⟩ := h1
    rfl
  | handled =>
    cases h1
    rfl
  | handle part input drained =>
    simp only [step, Option.ite_none_right_eq_some, Option.some.injEq] at h1
    obtain ⟨ha, rfl⟩ := h1
    rw [applyAll_conn]
    cases part with
    | closeCallback_ => exact if_neg (hactive ha)
    | readCallback_ =>
      cases input with
      | eof => exact if_neg (hactive ha)
      | bytes | error => rfl
    | writeCallback_ =>
      show (h.conn.handleWrite drained).1.life = _
      unfold Conn.handleWrite
      split <;> rfl
  | functor w =>
    cases htodo : h.todo with
    | nil => simp [step, htodo] at h1
    | cons job todo =>
      simp only [step, htodo, Option.ite_none_left_eq_some, Option.some.injEq] at h1
      obtain ⟨-, rfl⟩ := h1
      rw [applyAll_conn]
      have hne : job ≠ .connectEstablished → h.conn.life.state_ ≠ .kConnecting := by
        intro hjob hst
        obtain ⟨writeComplete, rfl⟩ := hs.connecting hst
        exact hjob (List.cons.inj htodo).1.symm
      cases job with
      | connectEstablished =>
        have hst : h.conn.life.state_ = .kConnecting := by
          by_contra hst
          exact hs.established hst (htodo ▸ List.mem_cons_self)
        simp only [lifeEvent, htodo, List.head?_cons, Option.elim_some, Lifecycle.step, hst]
        rfl
      | connectDestroyed =>
        simp only [lifeEvent, htodo, List.head?_cons, Option.elim_some, Lifecycle.step]
        rw [if_neg (hne (by decide))]
        exact congrArg some (connectDestroyed_life _).symm
      | forceCloseInLoop =>
        simp only [lifeEvent, htodo, List.head?_cons, Option.elim_some, Lifecycle.step]
        have hpos : 0 < h.conn.life.closing := by
          rw [hs.counted, htodo, List.count_cons_self]
          omega
        rw [if_pos hpos]
        exact congrArg some (forceCloseInLoop_life
          { h.conn with life := { h.conn.life with closing := h.conn.life.closing - 1 } }).symm
      | sendInLoop =>
        simp only [lifeEvent, htodo, List.head?_cons, Option.elim_none]
        exact sendInLoop_life _ w
      | shutdownInLoop | writeCompleteCallback_ | highWaterMarkCallback_ =>
        simp only [lifeEvent, htodo, List.head?_cons, Option.elim_none]
        rfl
  | call call =>
    cases h1
    rw [applyAll_conn]
    exact congrArg some (call_life ..).symm
  | send w =>
    cases h1
    rw [applyAll_conn]
    show (h.conn.send w).1.life = _
    unfold Conn.send
    split
    · exact sendInLoop_life _ w
    · rfl
  | remote r =>
    simp only [step, Option.map_eq_some_iff] at h1
    obtain ⟨r', hr, rfl⟩ := h1
    rw [applyAll_conn]
    cases r with
    | look call | set call =>
      simp only [Conn.remote, Option.map_eq_some_iff] at hr
      obtain ⟨life, hlife, rfl⟩ := hr
      exact hlife
    | queue call | lookSend | queueSend =>
      simp only [Conn.remote, Option.ite_none_right_eq_some, Option.some.injEq] at hr
      obtain ⟨-, rfl⟩ := hr
      rfl
  | removeConnectionInLoop =>
    simp only [step, Option.ite_none_right_eq_some, Option.some.injEq] at h1
    obtain ⟨-, rfl⟩ := h1
    rfl

-- ---------------------------------------------------------------------------
-- What an act can do
-- ---------------------------------------------------------------------------

inductive Acts (c : Conn) : Conn × List Effect → Prop
  | quiet : Acts c (c, [])
  | shuts : c.life.state_ = .kConnected → Acts c (c.setState .kDisconnecting, [])
  | closes : c.life.state_ ≠ .kConnecting → Acts c c.handleClose
  | writes (c' : Conn) (jobs : List Job) : c.life.state_ ≠ .kConnecting →
      (c.life.state_ = .kDisconnected → c.IsWriteEnabled = true) →
      (c' = c ∨ c' = c.update .enableWriting ∨ c' = c.update .disableWriting) →
      (jobs = [] ∨ jobs = [.writeCompleteCallback_] ∨ jobs = [.highWaterMarkCallback_]) →
      Acts c (c', jobs.map .queueInLoop)

theorem sendInLoop_acts (hne : c.life.state_ ≠ .kConnecting) (w : Write) :
    Acts c (c.sendInLoop w) := by
  unfold Conn.sendInLoop
  split
  · exact .quiet
  · rename_i hopen
    cases w with
    | all =>
      dsimp only
      split
      · exact .writes c [.writeCompleteCallback_] hne (absurd · hopen) (.inl rfl) (.inr (.inl rfl))
      · exact .quiet
    | rest high =>
      have hc' : ∀ c', c' = (if c.IsWriteEnabled then c else c.update .enableWriting) →
          c' = c ∨ c' = c.update .enableWriting ∨ c' = c.update .disableWriting := by
        rintro c' rfl
        split
        · exact .inl rfl
        · exact .inr (.inl rfl)
      cases high with
      | true => exact .writes _ [.highWaterMarkCallback_] hne (absurd · hopen) (hc' _ rfl) (.inr (.inr rfl))
      | false => exact .writes _ [] hne (absurd · hopen) (hc' _ rfl) (.inl rfl)
    | fault => exact .quiet

theorem forceCloseInLoop_acts (c : Conn) : Acts c c.forceCloseInLoop := by
  unfold Conn.forceCloseInLoop
  split
  · rename_i hopen
    exact .closes fun hst => by simp [hst] at hopen
  · exact .quiet

theorem call_acts (c : Conn) (call : Call) : Acts c (c.call call) := by
  cases call with
  | shutdown =>
    simp only [Conn.call]
    split
    · exact .shuts ‹_›
    · exact .quiet
  | forceClose =>
    simp only [Conn.call]
    split
    · -- `handleClose` overwrites the state that `forceClose` has set.
      rename_i hopen
      have hsame : (c.setState .kDisconnecting).forceCloseInLoop = c.handleClose := if_pos (.inr rfl)
      rw [hsame]
      exact .closes fun hst => by simp [hst] at hopen
    · exact .quiet

theorem send_acts (c : Conn) (w : Write) : Acts c (c.send w) := by
  unfold Conn.send
  split
  · rename_i hst
    exact sendInLoop_acts (by simp [hst]) w
  · exact .quiet

theorem handle_acts (hne : c.life.state_ ≠ .kConnecting) (part : Part) (input : Input)
    (drained : Bool) : Acts c (c.act (.handle part input drained)) := by
  cases part with
  | closeCallback_ => exact .closes hne
  | readCallback_ =>
    cases input with
    | eof => exact .closes hne
    | bytes | error => exact .quiet
  | writeCallback_ =>
    show Acts c (c.handleWrite drained)
    unfold Conn.handleWrite
    split
    · rename_i hw
      have hw : c.IsWriteEnabled = true := (Bool.and_eq_true_iff.mp hw).1
      split
      · exact .writes _ [.writeCompleteCallback_] hne (fun _ => hw) (.inr (.inr rfl)) (.inr (.inl rfl))
      · exact .writes _ [] hne (fun _ => hw) (.inr (.inr rfl)) (.inl rfl)
    · exact .quiet

theorem run_acts (hne : c.life.state_ ≠ .kConnecting) (w : Write) {job : Job}
    (hjob : job ≠ .connectEstablished ∧ job ≠ .connectDestroyed ∧ job ≠ .forceCloseInLoop) :
    Acts c (c.act (.run job w)) := by
  cases job with
  | connectEstablished => exact absurd rfl hjob.1
  | connectDestroyed => exact absurd rfl hjob.2.1
  | forceCloseInLoop => exact absurd rfl hjob.2.2
  | sendInLoop => exact sendInLoop_acts hne w
  | shutdownInLoop | writeCompleteCallback_ | highWaterMarkCallback_ => exact .quiet

theorem applyAll_map (h : Hosted) (c : Conn) (jobs : List Job) :
    h.applyAll (c, jobs.map .queueInLoop) = { h with conn := c, todo := h.todo ++ jobs } := by
  unfold applyAll
  induction jobs generalizing h with
  | nil => simp
  | cons job jobs ih =>
    have hone := ih (h := { h with todo := h.todo ++ [job] })
    simpa [apply] using hone

-- ---------------------------------------------------------------------------
-- Every run
-- ---------------------------------------------------------------------------

theorem Staged.acted (hs : Staged h) {r : Conn × List Effect} (ha : Acts h.conn r) :
    Staged (h.applyAll r) := by
  cases ha with
  | quiet => exact hs
  | shuts hst => exact ⟨nofun, fun _ => hs.established (by simp [hst]), hs.counted⟩
  | closes hne => exact ⟨nofun, fun _ => hs.established hne, hs.counted⟩
  | writes c' jobs hne _ hc' hjobs =>
    rw [applyAll_map]
    have hlife : c'.life = h.conn.life := by rcases hc' with rfl | rfl | rfl <;> rfl
    have hqueueing : c'.queueing = h.conn.queueing := by rcases hc' with rfl | rfl | rfl <;> rfl
    have hnot : .connectEstablished ∉ jobs ∧ jobs.count .forceCloseInLoop = 0 := by
      rcases hjobs with rfl | rfl | rfl <;> decide
    refine ⟨fun hst => absurd (hlife ▸ hst) hne, fun _ hmem => ?_, ?_⟩
    · exact (List.mem_append.mp hmem).elim (hs.established hne) hnot.1
    · show c'.life.closing = (h.todo ++ jobs).count _ + c'.queueing.count _
      rw [hlife, hqueueing, hs.counted, List.count_append, hnot.2, Nat.add_zero]

theorem Staged.popped (hs : Staged h) {job : Job} {todo : List Job} (htodo : h.todo = job :: todo)
    (hne : h.conn.life.state_ ≠ .kConnecting) (hjob : job ≠ .forceCloseInLoop) :
    Staged { h with todo } := by
  refine ⟨fun hst => absurd hst hne, fun _ hmem => ?_, ?_⟩
  · exact hs.established hne (htodo ▸ List.mem_cons_of_mem _ hmem)
  · have hcounted := hs.counted
    rwa [htodo, List.count_cons_of_ne hjob] at hcounted

theorem Staged.closing (hs : Staged h) {todo : List Job} (htodo : h.todo = .forceCloseInLoop :: todo)
    (hne : h.conn.life.state_ ≠ .kConnecting) :
    Staged { h with
      todo
      conn := { h.conn with life := { h.conn.life with closing := h.conn.life.closing - 1 } } } := by
  refine ⟨fun hst => absurd hst hne, fun _ hmem => ?_, ?_⟩
  · exact hs.established hne (htodo ▸ List.mem_cons_of_mem _ hmem)
  · have hcounted := hs.counted
    rw [htodo, List.count_cons_self] at hcounted
    show h.conn.life.closing - 1 = todo.count _ + h.conn.queueing.count _
    omega

/-- The first functor of a connection establishes it, and no other does. -/
theorem Staged.established_iff (hs : Staged h) {job : Job} {todo : List Job}
    (htodo : h.todo = job :: todo) :
    h.conn.life.state_ = .kConnecting ↔ job = .connectEstablished := by
  constructor
  · intro hst
    obtain ⟨writeComplete, rfl⟩ := hs.connecting hst
    exact (List.cons.inj htodo).1.symm
  · rintro rfl
    by_contra hst
    exact hs.established hst (htodo ▸ List.mem_cons_self)

theorem Staged.functor (hs : Staged h) {w : Write} (h1 : step h (.functor w) = some h') :
    Staged h' := by
  cases htodo : h.todo with
  | nil => simp [step, htodo] at h1
  | cons job todo =>
    simp only [step, htodo, Option.ite_none_left_eq_some, Option.some.injEq] at h1
    obtain ⟨-, rfl⟩ := h1
    by_cases hst : h.conn.life.state_ = .kConnecting
    · cases (hs.established_iff htodo).mp hst
      obtain ⟨writeComplete, rfl⟩ := hs.connecting hst
      cases htodo
      exact ⟨nofun, fun _ => List.not_mem_nil, rfl⟩
    · have hjob : job ≠ .connectEstablished := fun hjob => hst ((hs.established_iff htodo).mpr hjob)
      by_cases hclose : job = .forceCloseInLoop
      · subst hclose
        exact (hs.closing htodo hst).acted (forceCloseInLoop_acts _)
      · have hpopped := hs.popped htodo hst hclose
        by_cases hdestroy : job = .connectDestroyed
        · subst hdestroy
          refine ⟨fun hst' => ?_, fun _ => hpopped.established hst, ?_⟩
          · have hst' : h.conn.connectDestroyed.life.state_ = .kConnecting := hst'
            rw [connectDestroyed_life, Lifecycle.connectDestroyed] at hst'
            split at hst'
            · cases hst'
            · exact absurd hst' hst
          · have hcounted := hpopped.counted
            obtain ⟨hclosing, hqueueing, -⟩ := connectDestroyed_frame h.conn
            show h.conn.connectDestroyed.life.closing =
              todo.count _ + h.conn.connectDestroyed.queueing.count _
            rw [hclosing, hqueueing]
            exact hcounted
        · exact hpopped.acted (run_acts hst w ⟨hjob, hdestroy, hclose⟩)

theorem Staged.remote (hs : Staged h) {r : Remote} (h1 : step h (.remote r) = some h') :
    Staged h' := by
  simp only [step, Option.map_eq_some_iff] at h1
  obtain ⟨r', hr, rfl⟩ := h1
  have hne : h.conn.life.state_ ≠ .kConnecting := by
    intro hst
    obtain ⟨writeComplete, rfl⟩ := hs.connecting hst
    cases r with
    | look call => cases call <;> simp [Conn.remote, Lifecycle.step, Lifecycle.finds, init] at hr
    | set call => simp [Conn.remote, Lifecycle.step, init] at hr
    | queue call | lookSend | queueSend => simp [Conn.remote, init] at hr
  cases r with
  | look call =>
    simp only [Conn.remote, Lifecycle.step, Option.map_eq_some_iff, Option.ite_none_right_eq_some,
      Option.some.injEq] at hr
    obtain ⟨-, ⟨-, rfl⟩, rfl⟩ := hr
    exact ⟨fun hst => absurd hst hne, fun _ => hs.established hne, hs.counted⟩
  | set call =>
    simp only [Conn.remote, Lifecycle.step, Option.map_eq_some_iff, Option.ite_none_right_eq_some,
      Option.some.injEq] at hr
    obtain ⟨-, ⟨-, rfl⟩, rfl⟩ := hr
    refine ⟨fun hst => ?_, fun _ => hs.established hne, ?_⟩
    · cases hst
    have hcounted := hs.counted
    cases call with
    | shutdown => simpa using hcounted
    | forceClose => simpa [← Nat.add_assoc] using hcounted
  | queue call =>
    simp only [Conn.remote, Option.ite_none_right_eq_some, Option.some.injEq] at hr
    obtain ⟨hmem, rfl⟩ := hr
    refine ⟨fun hst => absurd hst hne, fun _ hmem => ?_, ?_⟩
    · rcases List.mem_append.mp hmem with hmem | hmem
      · exact hs.established hne hmem
      · cases call <;> cases List.mem_singleton.mp hmem
    · have hcounted := hs.counted
      show h.conn.life.closing = (h.todo ++ [jobOf call]).count _ + (h.conn.queueing.erase call).count _
      cases call with
      | shutdown =>
        simpa [jobOf, List.count_erase_of_ne] using hcounted
      | forceClose =>
        have hpos : 0 < h.conn.queueing.count .forceClose := List.count_pos_iff.mpr hmem
        rw [List.count_append, List.count_erase_self]
        simp only [jobOf, List.count_singleton_self]
        omega
  | lookSend =>
    simp only [Conn.remote, Option.ite_none_right_eq_some, Option.some.injEq] at hr
    obtain ⟨-, rfl⟩ := hr
    exact ⟨fun hst => absurd hst hne, fun _ => hs.established hne, hs.counted⟩
  | queueSend =>
    simp only [Conn.remote, Option.ite_none_right_eq_some, Option.some.injEq] at hr
    obtain ⟨-, rfl⟩ := hr
    refine ⟨fun hst => absurd hst hne, fun _ hmem => ?_, ?_⟩
    · rcases List.mem_append.mp hmem with hmem | hmem
      · exact hs.established hne hmem
      · cases List.mem_singleton.mp hmem
    · simpa using hs.counted

theorem Staged.step (hs : Staged h) (h1 : step h e = some h') : Staged h' := by
  cases e with
  | polled =>
    simp only [Hosted.step, Option.ite_none_right_eq_some, Option.some.injEq] at h1
    obtain ⟨hadded, rfl⟩ := h1
    refine ⟨fun hst => ?_, hs.established, hs.counted⟩
    obtain ⟨writeComplete, rfl⟩ := hs.connecting hst
    cases hadded
  | handled =>
    cases h1
    refine ⟨fun hst => ?_, hs.established, hs.counted⟩
    obtain ⟨writeComplete, rfl⟩ := hs.connecting hst
    exact ⟨writeComplete, rfl⟩
  | handle part input drained =>
    simp only [Hosted.step, Option.ite_none_right_eq_some, Option.some.injEq] at h1
    obtain ⟨hactive, rfl⟩ := h1
    refine hs.acted (handle_acts (fun hst => ?_) part input drained)
    obtain ⟨writeComplete, rfl⟩ := hs.connecting hst
    cases hactive
  | functor w => exact hs.functor h1
  | call call =>
    cases h1
    exact hs.acted (call_acts ..)
  | send w =>
    cases h1
    exact hs.acted (send_acts ..)
  | remote r => exact hs.remote h1
  | removeConnectionInLoop =>
    simp only [Hosted.step, Option.ite_none_right_eq_some, Option.some.injEq] at h1
    obtain ⟨hpos, rfl⟩ := h1
    have hne : h.conn.life.state_ ≠ .kConnecting := by
      intro hst
      obtain ⟨writeComplete, rfl⟩ := hs.connecting hst
      exact absurd hpos (Nat.lt_irrefl 0)
    refine ⟨fun hst => absurd hst hne, fun _ hmem => ?_, ?_⟩
    · rcases List.mem_append.mp hmem with hmem | hmem
      · exact hs.established hne hmem
      · cases List.mem_singleton.mp hmem
    · simpa using hs.counted

theorem init_staged (writeComplete : Bool) : Staged (init writeComplete) :=
  ⟨fun _ => ⟨writeComplete, rfl⟩, fun hne => absurd rfl hne, rfl⟩

-- ---------------------------------------------------------------------------
-- Where no other thread touches a closed connection
-- ---------------------------------------------------------------------------

/-- A call on another thread neither sets the state of a connection that has been closed since it
looked, nor queues a `shutdownInLoop` for it. -/
def SetsOpen (h : Hosted) : Event → Prop
  | .remote (.set _) | .remote (.queue .shutdown) => h.conn.life.state_ ≠ .kDisconnected
  | _ => True

instance (h : Hosted) : DecidablePred (SetsOpen h)
  | .remote (.set _) | .remote (.queue .shutdown) => inferInstanceAs (Decidable (_ ≠ _))
  | .remote (.look _) | .remote (.queue .forceClose) | .remote .lookSend | .remote .queueSend => .isTrue trivial
  | .polled | .handled | .handle .. | .functor _ | .call _ | .send _ | .removeConnectionInLoop =>
    .isTrue trivial

def Kept (h : Hosted) : Prop := h.mapped = true ∨ 0 < h.removing ∨ .connectDestroyed ∈ h.todo

structure Sound (h : Hosted) : Prop where
  opened : h.conn.life.state_ = .kConnected ∨ h.conn.life.state_ = .kDisconnecting →
    h.mapped = true ∧ h.removing = 0 ∧ h.conn.index_ = .kAdded ∧
      h.conn.events_ &&& kReadEvent = kReadEvent
  closed : h.conn.life.state_ = .kDisconnected →
    h.conn.events_ = kNoneEvent ∧ (h.mapped = true → 0 < h.removing)
  unmapped : h.mapped = false → h.conn.life.destroyed = true ∨ .connectDestroyed ∈ h.todo
  destroying : h.conn.life.destroyed = true ∨ .connectDestroyed ∈ h.todo →
    h.mapped = false ∧ h.conn.life.state_ = .kDisconnected
  registered : h.conn.index_ ≠ .kNew → h.Kept
  polled : h.active = true → h.conn.index_ ≠ .kNew
  /-- What captures only `this` was queued before `connectDestroyed`. -/
  ordered : h.todo.Pairwise fun first second => first = .connectDestroyed → second.owns = true
  destroyed : h.conn.life.destroyed = true → ∀ job ∈ h.todo, job.owns = true

theorem update_index_ne_new (c : Conn) (call : EPollPoller.Call) : (c.update call).index_ ≠ .kNew :=
  nextIndex_ne_new _ _

theorem update_writing (hread : c.events_ &&& kReadEvent = kReadEvent) (hindex : c.index_ = .kAdded)
    {call : EPollPoller.Call} (hcall : call = .enableWriting ∨ call = .disableWriting) :
    (c.update call).index_ = .kAdded ∧ (c.update call).events_ &&& kReadEvent = kReadEvent := by
  have hkept : (c.update call).events_ &&& kReadEvent = kReadEvent := by
    rcases hcall with rfl | rfl
    · show (c.events_ ||| kWriteEvent) &&& kReadEvent = kReadEvent
      rw [BitVec.and_or_distrib_right, hread]
      decide
    · show c.events_ &&& ~~~kWriteEvent &&& kReadEvent = kReadEvent
      have hbits : ~~~kWriteEvent &&& kReadEvent = kReadEvent := by decide
      rw [BitVec.and_assoc, hbits, hread]
  refine ⟨?_, hkept⟩
  have hsome : call.events c.events_ ≠ kNoneEvent := by
    intro h0
    have hkept : call.events c.events_ &&& kReadEvent = kReadEvent := hkept
    rw [h0] at hkept
    exact absurd hkept (by decide)
  show nextIndex c.index_ (call.events c.events_) = .kAdded
  simp [nextIndex, hindex, hsome]

theorem not_writeEnabled (h0 : c.events_ = kNoneEvent) : c.IsWriteEnabled = false := by
  rw [Conn.IsWriteEnabled, h0]
  decide

theorem Sound.undestroyed (hs : Sound h) (hne : h.conn.life.state_ ≠ .kDisconnected) :
    h.conn.life.destroyed = false ∧ .connectDestroyed ∉ h.todo := by
  constructor
  · exact Bool.eq_false_iff.mpr fun hd => hne (hs.destroying (.inl hd)).2
  · exact fun hd => hne (hs.destroying (.inr hd)).2

theorem Sound.queued (hs : Sound h) {jobs : List Job}
    (hjobs : ∀ job ∈ jobs, job.owns = true ∨ h.conn.life.state_ ≠ .kDisconnected)
    (hnot : .connectDestroyed ∉ jobs) : Sound { h with todo := h.todo ++ jobs } := by
  have hmem : .connectDestroyed ∈ h.todo ++ jobs ↔ .connectDestroyed ∈ h.todo := by
    simp [hnot]
  refine ⟨hs.opened, hs.closed, fun hm => ?_, fun hd => ?_, fun hi => ?_, hs.polled, ?_, fun hd job hjob => ?_⟩
  · exact (hs.unmapped hm).imp_right hmem.mpr
  · exact hs.destroying (hd.imp_right hmem.mp)
  · exact (hs.registered hi).imp_right fun hk => hk.imp_right hmem.mpr
  · refine List.pairwise_append.mpr ⟨hs.ordered, ?_, ?_⟩
    · refine List.pairwise_of_forall_mem_list fun first hfirst _ _ hd => ?_
      exact absurd (hd ▸ hfirst) hnot
    · rintro first hfirst job hjob rfl
      exact (hjobs job hjob).resolve_right fun hne => (hs.undestroyed hne).2 hfirst
  · rcases List.mem_append.mp hjob with hjob | hjob
    · exact hs.destroyed hd job hjob
    · refine (hjobs job hjob).resolve_right fun hne => ?_
      exact Bool.noConfusion ((hs.undestroyed hne).1.symm.trans hd)

theorem Sound.close (hs : Sound h) : Sound (h.applyAll h.conn.handleClose) := by
  refine ⟨?_, fun _ => ⟨rfl, fun _ => Nat.succ_pos _⟩, hs.unmapped, fun hd => ?_, fun _ => ?_,
    fun _ => update_index_ne_new _ _, hs.ordered, hs.destroyed⟩
  · rintro (hst | hst) <;> cases hst
  · exact ⟨(hs.destroying hd).1, rfl⟩
  · exact .inr (.inl (Nat.succ_pos _))

theorem Sound.shut (hs : Sound h)
    (hopen : h.conn.life.state_ = .kConnected ∨ h.conn.life.state_ = .kDisconnecting) :
    Sound { h with conn := h.conn.setState .kDisconnecting } := by
  refine ⟨fun _ => hs.opened hopen, nofun, hs.unmapped, fun hd => ?_, hs.registered, hs.polled,
    hs.ordered, hs.destroyed⟩
  have hst := (hs.destroying hd).2
  rcases hopen with hopen | hopen <;> cases hopen.symm.trans hst

theorem open_of_ne (hc : c.life.state_ ≠ .kConnecting) (hd : c.life.state_ ≠ .kDisconnected) :
    c.life.state_ = .kConnected ∨ c.life.state_ = .kDisconnecting :=
  Lifecycle.up_of_ne hc hd

theorem Sound.acted (hs : Sound h) {r : Conn × List Effect} (ha : Acts h.conn r) :
    Sound (h.applyAll r) := by
  cases ha with
  | quiet => exact hs
  | shuts hst => exact hs.shut (.inl hst)
  | closes => exact hs.close
  | writes c' jobs hne hwrites hc' hjobs =>
    have hclosed : h.conn.life.state_ ≠ .kDisconnected := by
      intro hst
      have hoff := not_writeEnabled (hs.closed hst).1
      exact Bool.noConfusion (hoff.symm.trans (hwrites hst))
    have hopen := open_of_ne hne hclosed
    obtain ⟨hmapped, hremoving, hindex, hread⟩ := hs.opened hopen
    have hlife : c'.life = h.conn.life := by rcases hc' with rfl | rfl | rfl <;> rfl
    have hkept : c'.index_ = .kAdded ∧ c'.events_ &&& kReadEvent = kReadEvent := by
      rcases hc' with rfl | rfl | rfl
      · exact ⟨hindex, hread⟩
      · exact update_writing hread hindex (.inl rfl)
      · exact update_writing hread hindex (.inr rfl)
    have hwritten : Sound { h with conn := c' } := by
      refine ⟨fun _ => ⟨hmapped, hremoving, hkept⟩, fun hst => absurd (hlife ▸ hst) hclosed, fun hm => ?_,
        fun hd => ?_, fun _ => .inl hmapped, fun _ => by simp [hkept.1], hs.ordered, fun hd => ?_⟩
      · exact Bool.noConfusion (Eq.trans hm.symm hmapped)
      · have hd : h.conn.life.destroyed = true ∨ .connectDestroyed ∈ h.todo := hlife ▸ hd
        exact absurd (hs.destroying hd).2 hclosed
      · exact hs.destroyed (hlife ▸ hd)
    rw [applyAll_map]
    refine hwritten.queued (fun _ _ => .inr (hlife ▸ hclosed)) ?_
    rcases hjobs with rfl | rfl | rfl <;> decide

theorem Sound.popped (hs : Sound h) {job : Job} {todo : List Job} (htodo : h.todo = job :: todo)
    (hjob : job ≠ .connectDestroyed) : Sound { h with todo } := by
  have hmem : .connectDestroyed ∈ h.todo ↔ .connectDestroyed ∈ todo := by
    simp [htodo, hjob.symm]
  refine ⟨hs.opened, hs.closed, fun hm => (hs.unmapped hm).imp_right hmem.mp,
    fun hd => hs.destroying (hd.imp_right hmem.mpr), fun hi => ?_, hs.polled, ?_, fun hd job' hjob' => ?_⟩
  · exact (hs.registered hi).imp_right fun hk => hk.imp_right hmem.mp
  · exact (List.pairwise_cons.mp (htodo ▸ hs.ordered)).2
  · exact hs.destroyed hd job' (htodo ▸ List.mem_cons_of_mem _ hjob')

theorem Sound.life (hs : Sound h) (life : Lifecycle) (hstate : life.state_ = h.conn.life.state_)
    (hdestroyed : life.destroyed = h.conn.life.destroyed) :
    Sound { h with conn := { h.conn with life } } :=
  ⟨fun hst => hs.opened (hstate ▸ hst), fun hst => hs.closed (hstate ▸ hst),
    fun hm => hdestroyed.symm ▸ hs.unmapped hm, fun hd => hstate.symm ▸ hs.destroying (hdestroyed ▸ hd),
    hs.registered, hs.polled, hs.ordered, fun hd => hs.destroyed (hdestroyed ▸ hd)⟩

theorem established_sound (writeComplete : Bool) : Sound
    { conn := { writeCompleteCallback_ := writeComplete : Conn }.connectEstablished, todo := [] } where
  opened _ := ⟨rfl, rfl, rfl, by cases writeComplete <;> decide⟩
  closed hst := nomatch hst
  unmapped hm := nomatch hm
  destroying hd := hd.elim nofun nofun
  registered _ := .inl rfl
  polled ha := nomatch ha
  ordered := .nil
  destroyed hd := nomatch hd

theorem Sound.functor (hs : Sound h) (hst : Staged h) {w : Write}
    (h1 : step h (.functor w) = some h') : Sound h' := by
  cases htodo : h.todo with
  | nil => simp [Hosted.step, htodo] at h1
  | cons job todo =>
    simp only [Hosted.step, htodo, Option.ite_none_left_eq_some, Option.some.injEq] at h1
    obtain ⟨hactive, rfl⟩ := h1
    have hconnecting := hst.established_iff htodo
    cases job with
    | connectEstablished =>
      obtain ⟨writeComplete, rfl⟩ := hst.connecting (hconnecting.mpr rfl)
      cases htodo
      exact established_sound writeComplete
    | connectDestroyed =>
      obtain ⟨hmapped, hclosed⟩ := hs.destroying (.inr (htodo ▸ List.mem_cons_self))
      have hrest : ∀ job ∈ todo, job.owns = true := by
        intro job hjob
        have hordered := hs.ordered
        rw [htodo] at hordered
        exact (List.pairwise_cons.mp hordered).1 job hjob rfl
      have hconn : h.conn.connectDestroyed =
          { h.conn with life := { h.conn.life with destroyed := true }, index_ := .kNew } := by
        rw [Conn.connectDestroyed, if_neg (by simp [hclosed])]
      show Sound { h with todo, conn := h.conn.connectDestroyed }
      rw [hconn]
      refine ⟨fun hopen => ?_, fun _ => ⟨(hs.closed hclosed).1, fun hm => ?_⟩, fun _ => .inl rfl,
        fun _ => ⟨hmapped, hclosed⟩, fun hi => absurd rfl hi, fun ha => absurd ha hactive, ?_, fun _ => hrest⟩
      · have hopen : h.conn.life.state_ = .kConnected ∨ h.conn.life.state_ = .kDisconnecting := hopen
        rcases hopen with hopen | hopen <;> cases hopen.symm.trans hclosed
      · exact Bool.noConfusion (Eq.trans hm.symm hmapped)
      · exact (List.pairwise_cons.mp (htodo ▸ hs.ordered)).2
    | forceCloseInLoop =>
      have hpopped := (hs.popped htodo (by decide)).life
        { h.conn.life with closing := h.conn.life.closing - 1 } rfl rfl
      exact hpopped.acted (forceCloseInLoop_acts _)
    | sendInLoop | shutdownInLoop | writeCompleteCallback_ | highWaterMarkCallback_ =>
      refine (hs.popped htodo (by decide)).acted (run_acts (fun hc => ?_) w ?_)
      · cases hconnecting.mp hc
      · decide

theorem Sound.remote (hs : Sound h) {r : Remote} (hc : SetsOpen h (.remote r)) (hst : Staged h)
    (h1 : step h (.remote r) = some h') : Sound h' := by
  simp only [Hosted.step, Option.map_eq_some_iff] at h1
  obtain ⟨r', hr, rfl⟩ := h1
  cases r with
  | look call =>
    simp only [Conn.remote, Lifecycle.step, Option.map_eq_some_iff, Option.ite_none_right_eq_some,
      Option.some.injEq] at hr
    obtain ⟨-, ⟨-, rfl⟩, rfl⟩ := hr
    exact hs.life { h.conn.life with calling := call :: h.conn.life.calling } rfl rfl
  | set call =>
    simp only [Conn.remote, Lifecycle.step, Option.map_eq_some_iff, Option.ite_none_right_eq_some,
      Option.some.injEq] at hr
    obtain ⟨-, ⟨hmem, rfl⟩, rfl⟩ := hr
    have hne : h.conn.life.state_ ≠ .kConnecting := by
      intro hconnecting
      obtain ⟨writeComplete, rfl⟩ := hst.connecting hconnecting
      cases hmem
    have hset := hs.shut (open_of_ne hne hc)
    exact ⟨hset.opened, hset.closed, hset.unmapped, hset.destroying, hset.registered, hset.polled,
      hset.ordered, hset.destroyed⟩
  | queue call =>
    simp only [Conn.remote, Option.ite_none_right_eq_some, Option.some.injEq] at hr
    obtain ⟨-, rfl⟩ := hr
    have hqueued : Sound { h with todo := h.todo ++ [jobOf call] } := by
      refine hs.queued (fun job hjob => ?_) (by cases call <;> decide)
      cases List.mem_singleton.mp hjob
      cases call with
      | shutdown => exact .inr hc
      | forceClose => exact .inl rfl
    exact ⟨hqueued.opened, hqueued.closed, hqueued.unmapped, hqueued.destroying, hqueued.registered,
      hqueued.polled, hqueued.ordered, hqueued.destroyed⟩
  | lookSend =>
    simp only [Conn.remote, Option.ite_none_right_eq_some, Option.some.injEq] at hr
    obtain ⟨-, rfl⟩ := hr
    exact ⟨hs.opened, hs.closed, hs.unmapped, hs.destroying, hs.registered, hs.polled, hs.ordered,
      hs.destroyed⟩
  | queueSend =>
    simp only [Conn.remote, Option.ite_none_right_eq_some, Option.some.injEq] at hr
    obtain ⟨-, rfl⟩ := hr
    have hqueued : Sound { h with todo := h.todo ++ [.sendInLoop] } := by
      refine hs.queued (fun job hjob => ?_) (by decide)
      cases List.mem_singleton.mp hjob
      exact .inl rfl
    exact ⟨hqueued.opened, hqueued.closed, hqueued.unmapped, hqueued.destroying, hqueued.registered,
      hqueued.polled, hqueued.ordered, hqueued.destroyed⟩

theorem Sound.removal (hs : Sound h) (hst : Staged h) (hpos : 0 < h.removing) :
    h.conn.life.state_ = .kDisconnected := by
  by_contra hne
  by_cases hc : h.conn.life.state_ = .kConnecting
  · obtain ⟨writeComplete, rfl⟩ := hst.connecting hc
    exact absurd hpos (Nat.lt_irrefl 0)
  · exact Nat.ne_of_gt hpos (hs.opened (open_of_ne hc hne)).2.1

theorem Sound.step (hs : Sound h) (hst : Staged h) (hc : SetsOpen h e) (h1 : step h e = some h') :
    Sound h' := by
  cases e with
  | polled =>
    simp only [Hosted.step, Option.ite_none_right_eq_some, Option.some.injEq] at h1
    obtain ⟨hadded, rfl⟩ := h1
    exact ⟨hs.opened, hs.closed, hs.unmapped, hs.destroying, hs.registered,
      fun _ hnew => Index.noConfusion (hadded.symm.trans hnew), hs.ordered, hs.destroyed⟩
  | handled =>
    cases h1
    exact ⟨hs.opened, hs.closed, hs.unmapped, hs.destroying, hs.registered, nofun, hs.ordered,
      hs.destroyed⟩
  | handle part input drained =>
    simp only [Hosted.step, Option.ite_none_right_eq_some, Option.some.injEq] at h1
    obtain ⟨hactive, rfl⟩ := h1
    refine hs.acted (handle_acts (fun hconnecting => ?_) part input drained)
    obtain ⟨writeComplete, rfl⟩ := hst.connecting hconnecting
    cases hactive
  | functor w => exact hs.functor hst h1
  | call call =>
    cases h1
    exact hs.acted (call_acts ..)
  | send w =>
    cases h1
    exact hs.acted (send_acts ..)
  | remote r => exact hs.remote hc hst h1
  | removeConnectionInLoop =>
    simp only [Hosted.step, Option.ite_none_right_eq_some, Option.some.injEq] at h1
    obtain ⟨hpos, rfl⟩ := h1
    have hclosed := hs.removal hst hpos
    have hlast : .connectDestroyed ∈ h.todo ++ [.connectDestroyed] := by simp
    refine ⟨fun hopen => ?_, fun _ => ⟨(hs.closed hclosed).1, nofun⟩, fun _ => .inr hlast,
      fun _ => ⟨rfl, hclosed⟩, fun _ => .inr (.inr hlast), hs.polled, ?_, fun hd job hjob => ?_⟩
    · have hopen : h.conn.life.state_ = .kConnected ∨ h.conn.life.state_ = .kDisconnecting := hopen
      rcases hopen with hopen | hopen <;> cases hopen.symm.trans hclosed
    · refine List.pairwise_append.mpr ⟨hs.ordered, List.pairwise_singleton .., fun _ _ job hjob _ => ?_⟩
      rw [List.mem_singleton.mp hjob]
      rfl
    · rcases List.mem_append.mp hjob with hjob | hjob
      · exact hs.destroyed hd job hjob
      · rw [List.mem_singleton.mp hjob]
        rfl

theorem init_sound (writeComplete : Bool) : Sound (init writeComplete) where
  opened hopen := hopen.elim nofun nofun
  closed hst := nomatch hst
  unmapped hm := nomatch hm
  destroying hd := hd.elim nofun (fun hmem => nomatch List.mem_singleton.mp hmem)
  registered hi := absurd rfl hi
  polled ha := nomatch ha
  ordered := List.pairwise_singleton ..
  destroyed hd := nomatch hd

theorem reach_staged {C : Hosted → Event → Prop} (hr : Reach step C (init writeComplete) h) :
    Staged h :=
  hr.invariant (init_staged writeComplete) fun _ _ _ hs _ h1 => hs.step h1

theorem reach_sound (hr : Reach step SetsOpen (init writeComplete) h) : Sound h := by
  have hboth : Staged h ∧ Sound h := by
    refine hr.invariant (I := fun h => Staged h ∧ Sound h)
      ⟨init_staged writeComplete, init_sound writeComplete⟩ ?_
    rintro h e h' ⟨hst, hs⟩ hc h1
    exact ⟨hst.step h1, hs.step hst hc h1⟩
  exact hboth.2

/-- What captures only `this` is queued while something else keeps the connection. -/
theorem Sound.kept_of_raw (hs : Sound h) (hst : Staged h) {job : Job} (hjob : job ∈ h.todo)
    (hraw : job.owns = false) : h.Kept := by
  by_cases hc : h.conn.life.state_ = .kConnecting
  · obtain ⟨writeComplete, rfl⟩ := hst.connecting hc
    exact .inl rfl
  · by_cases hd : h.conn.life.state_ = .kDisconnected
    · cases hm : h.mapped with
      | true => exact .inl hm
      | false =>
        refine .inr (.inr ((hs.unmapped hm).resolve_left fun hdestroyed => ?_))
        exact Bool.noConfusion (hraw.symm.trans (hs.destroyed hdestroyed job hjob))
    · exact .inl (hs.opened (open_of_ne hc hd)).1

/-- With no functor left the map holds the connection exactly while it is open, and one that the map
does not hold is gone from the poller as well. -/
theorem Sound.settled (hs : Sound h) (hst : Staged h) (htodo : h.todo = [])
    (hremoving : h.removing = 0) :
    (h.mapped = true ∧ h.conn.index_ = .kAdded ∧
      (h.conn.life.state_ = .kConnected ∨ h.conn.life.state_ = .kDisconnecting)) ∨
    (h.mapped = false ∧ h.conn.index_ = .kNew ∧ h.conn.life.state_ = .kDisconnected ∧
      h.conn.life.destroyed = true) := by
  have hc : h.conn.life.state_ ≠ .kConnecting := by
    intro hc
    obtain ⟨writeComplete, rfl⟩ := hst.connecting hc
    cases htodo
  by_cases hd : h.conn.life.state_ = .kDisconnected
  · have hm : h.mapped = false := Bool.eq_false_iff.mpr fun hm => by
      have hpos := (hs.closed hd).2 hm
      omega
    have hnot : .connectDestroyed ∉ h.todo := by simp [htodo]
    refine .inr ⟨hm, ?_, hd, (hs.unmapped hm).resolve_right hnot⟩
    by_contra hi
    rcases hs.registered hi with hk | hk | hk
    · exact Bool.noConfusion (hm.symm.trans hk)
    · omega
    · exact hnot hk
  · have hopen := open_of_ne hc hd
    obtain ⟨hm, -, hi, -⟩ := hs.opened hopen
    exact .inl ⟨hm, hi, hopen⟩

-- ---------------------------------------------------------------------------
-- Its lifecycle
-- ---------------------------------------------------------------------------

theorem reach_life {C : Hosted → Event → Prop} {D : Lifecycle → Lifecycle.Event → Prop}
    (hcd : ∀ h e event, Reach step C (init writeComplete) h → C h e → h.lifeEvent e = some event →
      D h.conn.life event)
    (hr : Reach step C (init writeComplete) h) : Reach Lifecycle.step D {} h.conn.life := by
  induction hr with
  | refl => exact .refl
  | @tail t e u hr hc h1 ih =>
    have hlife := (reach_staged hr).life h1
    cases he : t.lifeEvent e with
    | none =>
      rw [he] at hlife
      have hsame : u.conn.life = t.conn.life := hlife
      rwa [hsame]
    | some event =>
      rw [he] at hlife
      exact .tail ih (hcd t e event hr hc he) hlife

/-- The channel closes the connection. -/
def closes : Event → Bool
  | .handle .closeCallback_ _ _ | .handle .readCallback_ .eof _ => true
  | _ => false

/-- The channel, moreover, does not close a closed connection again. -/
def ClosesOnce (h : Hosted) (e : Event) : Prop :=
  SetsOpen h e ∧ (closes e = true → h.conn.life.state_ ≠ .kDisconnected)

instance (h : Hosted) : DecidablePred (ClosesOnce h) := fun _ =>
  inferInstanceAs (Decidable (_ ∧ _))

/-- The server destroys a connection only after it was closed, so what remains of the conditions on
its lifecycle is what the channel and other threads do. -/
theorem calledOnce (hr : Reach step ClosesOnce (init writeComplete) h) :
    Lifecycle.CalledOnce h.conn.life := by
  refine Lifecycle.Staged.calledOnce (Reach.invariant
    (reach_life (D := Lifecycle.ClosesOnce) (fun h e event hr hc he => ?_) hr)
    Lifecycle.staged_init fun _ _ _ hi hc hs => hi.step hc hs)
  have hs := reach_sound (hr.mono fun _ _ hc => hc.1)
  cases e with
  | polled | handled | send _ | removeConnectionInLoop => cases he
  | call call =>
    cases he
    trivial
  | handle part input drained =>
    cases part with
    | closeCallback_ =>
      cases he
      exact ⟨fun _ => hc.2 rfl, by decide⟩
    | readCallback_ =>
      cases input with
      | eof =>
        cases he
        exact ⟨fun _ => hc.2 rfl, by decide⟩
      | bytes | error => cases he
    | writeCallback_ => cases he
  | functor w =>
    cases htodo : h.todo with
    | nil => simp [lifeEvent, htodo] at he
    | cons job todo =>
      simp only [lifeEvent, htodo, List.head?_cons] at he
      cases job with
      | connectDestroyed =>
        cases he
        have hclosed := (hs.destroying (.inr (htodo ▸ List.mem_cons_self))).2
        exact fun hst => nomatch hclosed.symm.trans hst
      | connectEstablished | forceCloseInLoop =>
        cases he
        trivial
      | sendInLoop | shutdownInLoop | writeCompleteCallback_ | highWaterMarkCallback_ => cases he
  | remote r =>
    cases r with
    | look call =>
      cases he
      trivial
    | set call =>
      cases he
      exact hc.1
    | queue call | lookSend | queueSend => cases he

end Hosted

end VortexNet.TcpServer
