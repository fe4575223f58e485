import VortexNet.Net.TcpConnection

/-!
# Sending and shutting down from several threads

`send` and `shutdown` of `TcpConnection.cc` called on any thread. On another
thread than the loop's a call looks at `state_`, and later queues a functor; a
`shutdown()` sets the state in between.

The FIN should go out after the data of every `send` that had returned before
`shutdown()` was called, and nothing should be written after it. It does when no
`send` is queued, or about to be, at the time.
-/

namespace VortexNet.TcpConnection

open Systems (Reach Always exec)

/-- A functor in the loop's queue. `returned` says that the `send` that queued it had returned
before `shutdown()` was called. -/
inductive Task
  | sendInLoop (data : Bytes) (returned : Bool)
  | shutdownInLoop
  deriving DecidableEq

inductive Foreign
  | send (data : Bytes)
  | shutdown
  deriving DecidableEq

def Task.isSend : Task → Bool
  | .sendInLoop _ _ => true
  | .shutdownInLoop => false

def Foreign.isSend : Foreign → Bool
  | .send _ => true
  | .shutdown => false

/-- `calling` are calls on other threads that have found `kConnected`, and `setting` the number of
`shutdown()`s that have set the state and not yet queued their functor. The last three fields are
outside the program: whether `shutdown()` was called, the data that had not been written when a FIN
was sent, and the number of `::write`s after the first FIN. -/
structure Shared where
  conn : TcpConnection
  calling : List Foreign := []
  setting : Nat := 0
  tasks : List Task := []
  shutting : Bool := false
  owed : List (List Bytes) := []
  late : Nat := 0
  deriving DecidableEq

namespace Shared

def returned (tasks : List Task) : List Bytes :=
  tasks.filterMap fun
    | .sendInLoop data true => some data
    | _ => none

/-- The connection after an event; `writes` says that there was a `::write`. -/
def advance (s : Shared) (writes : Bool) (conn : TcpConnection) : Shared :=
  { s with
    conn
    owed := if s.conn.fins.length < conn.fins.length then returned s.tasks :: s.owed else s.owed
    late := if writes && s.conn.fins ≠ [] then s.late + 1 else s.late }

def writesNow (conn : TcpConnection) : Bool :=
  conn.state_ ≠ .kDisconnected && !conn.writing && conn.outputBuffer_.readableBytes = 0

def runSend (conn : TcpConnection) (data : Bytes) (w : Written) : Option TcpConnection :=
  if conn.state_ = .kDisconnected then some conn
  else { conn with sent := conn.sent ++ data }.sendInLoop data w

/-- `w` is what `::write` does if the event comes to it. -/
inductive Event
  | send (data : Bytes) (w : Written)
  | shutdown
  | look (call : Foreign)
  /-- A `shutdown()` on another thread sets the state. -/
  | set
  | queueSend (data : Bytes)
  | queueShutdown
  | functor (w : Written)
  | handleWrite (w : Written)
  deriving DecidableEq

def step (s : Shared) : Event → Option Shared
  | .send data w => do
    let conn ← s.conn.send data w
    some (s.advance (s.conn.state_ = .kConnected && writesNow s.conn) conn)
  | .shutdown => some { s.advance false s.conn.shutdown with
      shutting := s.shutting || s.conn.state_ = .kConnected }
  | .look call =>
    if s.conn.state_ = .kConnected then
      some { s with calling := call :: s.calling, shutting := s.shutting || call = .shutdown }
    else none
  | .set =>
    if .shutdown ∈ s.calling then some { s with
      conn := { s.conn with state_ := .kDisconnecting }
      calling := s.calling.erase .shutdown
      setting := s.setting + 1 }
    else none
  | .queueSend data =>
    if .send data ∈ s.calling then some { s with
      calling := s.calling.erase (.send data)
      tasks := s.tasks ++ [.sendInLoop data !s.shutting] }
    else none
  | .queueShutdown =>
    if 0 < s.setting then some { s with
      setting := s.setting - 1
      tasks := s.tasks ++ [.shutdownInLoop] }
    else none
  | .functor w => match s.tasks with
    | .sendInLoop data _ :: tasks => do
      let conn ← runSend s.conn data w
      some ({ s with tasks }.advance (writesNow s.conn) conn)
    | .shutdownInLoop :: tasks => some ({ s with tasks }.advance false s.conn.shutdownInLoop)
    | [] => none
  | .handleWrite w => some (s.advance s.conn.writing (s.conn.handleWrite w))

/-- Each FIN comes after all that was sent, no data of a `send` that had returned in time was still
queued then, and nothing is written after the first. -/
structure FinLast (s : Shared) : Prop where
  last : ∀ written ∈ s.conn.fins, written = s.conn.sent
  owed : ∀ datas ∈ s.owed, datas = []
  late : s.late = 0

-- ---------------------------------------------------------------------------
-- When the FIN goes out
-- ---------------------------------------------------------------------------

def sendsFin (s : Shared) : Event → Bool
  | .shutdown => s.conn.state_ = .kConnected && !s.conn.writing
  | .functor _ => s.tasks.head? = some .shutdownInLoop && !s.conn.writing
  | .handleWrite (.bytes n) => s.conn.writing && 0 < n && s.conn.state_ = .kDisconnecting &&
      (s.conn.flush n).outputBuffer_.readableBytes = 0
  | _ => false

def NoSends (s : Shared) : Prop :=
  (∀ task ∈ s.tasks, task.isSend = false) ∧ ∀ call ∈ s.calling, call.isSend = false

/-- Arrays of real size, and writes that fit. -/
def Fits (s : Shared) : Event → Prop
  | .send data w => data.length ≤ Buffer.max_size ∧ w.Fits data.length
  | .look (.send data) => data.length ≤ Buffer.max_size
  | .functor w => match s.tasks with
    | .sendInLoop data _ :: _ => w.Fits data.length
    | _ => True
  | .handleWrite w => w.Fits s.conn.outputBuffer_.readableBytes
  | _ => True

def SendsFirst (s : Shared) (e : Event) : Prop := Fits s e ∧ (sendsFin s e = true → NoSends s)

instance (s : Shared) : DecidablePred (Fits s)
  | .send _ _ => inferInstanceAs (Decidable (_ ∧ _))
  | .look (.send _) => inferInstanceAs (Decidable (_ ≤ _))
  | .functor w => match h : s.tasks with
    | .sendInLoop data _ :: _ => decidable_of_iff (w.Fits data.length) (by simp [Fits, h])
    | .shutdownInLoop :: _ => .isTrue (by simp [Fits, h])
    | [] => .isTrue (by simp [Fits, h])
  | .handleWrite _ => inferInstanceAs (Decidable (Written.Fits _ _))
  | .shutdown | .look .shutdown | .set | .queueSend _ | .queueShutdown => .isTrue trivial

instance (s : Shared) : Decidable (NoSends s) := inferInstanceAs (Decidable (_ ∧ _))

instance (s : Shared) (e : Event) : Decidable (SendsFirst s e) :=
  inferInstanceAs (Decidable (_ ∧ (_ → _)))

-- ---------------------------------------------------------------------------
-- Events of the connection
-- ---------------------------------------------------------------------------

variable {conn conn' : TcpConnection} {data : Bytes} {w : Written} {s s' : Shared} {e : Event}

structure Shut (conn : TcpConnection) : Prop where
  writing : conn.writing = false
  state : conn.state_ = .kDisconnecting
  all : ∀ written ∈ conn.fins, written = conn.sent

structure Kept (conn : TcpConnection) : Prop where
  owes : Owes { conn with fins := [] } []
  shut : conn.fins ≠ [] → Shut conn

theorem Kept.opened (h : Kept conn) (hfins : conn.fins = []) : Owes conn [] := by
  have howes := h.owes
  rwa [← hfins] at howes

theorem kept_of_owes (h : Owes conn []) (hst : conn.state_ = .kConnected ∨ conn.state_ = .kDisconnecting) :
    Kept conn := by
  refine ⟨⟨h.sound, h.stream, h.interest, .inl rfl⟩, fun hne => ?_⟩
  obtain ⟨hfins, hwriting, hstate⟩ := h.fin.resolve_left hne
  exact ⟨hwriting, hst.resolve_left hstate, by simp [hfins]⟩

theorem keep_kept (h : conn.keep data = some conn') :
    conn'.state_ = conn.state_ ∧ conn'.fins = conn.fins := by
  unfold TcpConnection.keep at h
  split at h
  · cases h
  · obtain ⟨outputBuffer_, -, rfl⟩ := Option.map_eq_some_iff.mp h
    have hs := same_queueHighWaterMark conn conn.outputBuffer_.readableBytes data.length
    exact ⟨hs.state_, hs.fins⟩

theorem writeNow_kept (conn : TcpConnection) (data : Bytes) (w : Written) :
    (conn.writeNow data w).1.state_ = conn.state_ ∧ (conn.writeNow data w).1.fins = conn.fins := by
  cases w with
  | error errno => exact ⟨rfl, rfl⟩
  | bytes n =>
    simp only [writeNow]
    split
    · have hs := @same_queueWriteComplete (conn.take (data.take n))
      exact ⟨hs.state_, hs.fins⟩
    · exact ⟨rfl, rfl⟩

theorem sendInLoop_kept (h : conn.sendInLoop data w = some conn') :
    conn'.state_ = conn.state_ ∧ conn'.fins = conn.fins := by
  unfold TcpConnection.sendInLoop at h
  split at h
  · cases h
    exact ⟨rfl, rfl⟩
  · split at h
    rename_i conn₁ nwrote faultError hnow
    have hfirst : conn₁.state_ = conn.state_ ∧ conn₁.fins = conn.fins := by
      split at hnow
      · have hkept := writeNow_kept conn data w
        rwa [hnow] at hkept
      · cases hnow
        exact ⟨rfl, rfl⟩
    split at h
    · obtain ⟨hstate, hfins⟩ := keep_kept h
      exact ⟨hstate.trans hfirst.1, hfins.trans hfirst.2⟩
    · cases h
      exact hfirst

theorem shutdownInLoop_state (conn : TcpConnection) : conn.shutdownInLoop.state_ = conn.state_ := by
  unfold TcpConnection.shutdownInLoop
  split <;> rfl

theorem flushed_state (conn : TcpConnection) : conn.flushed.state_ = conn.state_ := by
  have hs := (@same_queueWriteComplete conn.disableWriting).state_
  simp only [flushed]
  split
  · split
    · exact (shutdownInLoop_state _).trans hs
    · exact hs
  · rfl

theorem handleWrite_state (conn : TcpConnection) (w : Written) :
    (conn.handleWrite w).state_ = conn.state_ := by
  unfold TcpConnection.handleWrite
  split
  · cases w with
    | error errno => rfl
    | bytes n =>
      dsimp only
      split
      · exact (flushed_state _).trans (flush_fields conn n).1
      · rfl
  · rfl

theorem flushed_fins (hfins : conn.fins = []) (h : conn.flushed.fins ≠ []) :
    conn.outputBuffer_.readableBytes = 0 ∧ conn.state_ = .kDisconnecting := by
  have hs := @same_queueWriteComplete conn.disableWriting
  simp only [flushed] at h
  split at h
  · rename_i hempty
    split at h
    · rename_i hst
      exact ⟨hempty, hs.state_.symm.trans hst⟩
    · exact absurd (hs.fins.trans hfins) h
  · exact absurd hfins h

theorem handleWrite_fins (hfins : conn.fins = []) (h : (conn.handleWrite w).fins ≠ []) :
    ∃ n, w = .bytes n ∧ conn.writing = true ∧ 0 < n ∧ conn.state_ = .kDisconnecting ∧
      (conn.flush n).outputBuffer_.readableBytes = 0 := by
  unfold TcpConnection.handleWrite at h
  split at h
  · rename_i hwriting
    cases w with
    | error errno => exact absurd hfins h
    | bytes n =>
      dsimp only at h
      split at h
      · rename_i hpos
        obtain ⟨hstate, -, hflush, -⟩ := flush_fields conn n
        obtain ⟨hempty, hst⟩ := flushed_fins (hflush.trans hfins) h
        exact ⟨n, rfl, hwriting, hpos, hstate.symm.trans hst, hempty⟩
      · exact absurd hfins h
  · exact absurd hfins h

theorem Kept.shutdownInLoop (h : Kept conn) (hst : conn.state_ = .kDisconnecting) :
    Kept conn.shutdownInLoop := by
  by_cases hfins : conn.fins = []
  · refine kept_of_owes ((h.opened hfins).shutdownInLoop hfins (by simp [hst])) (.inr ?_)
    unfold TcpConnection.shutdownInLoop
    split <;> exact hst
  · obtain ⟨hwriting, -, hall⟩ := h.shut hfins
    have hempty : conn.outputBuffer_.readable = [] := by
      by_contra hne
      exact Bool.noConfusion (hwriting.symm.trans (h.owes.interest.mpr hne))
    have hwritten : conn.written = conn.sent := by simpa [hempty] using h.owes.stream
    have heq : conn.shutdownInLoop = conn.shutdownWrite := by
      simp [TcpConnection.shutdownInLoop, hwriting]
    rw [heq]
    refine ⟨⟨h.owes.sound, h.owes.stream, h.owes.interest, .inl rfl⟩, fun _ => ⟨hwriting, hst, ?_⟩⟩
    intro written hmem
    rcases List.mem_append.mp hmem with hmem | hmem
    · exact hall written hmem
    · exact (List.mem_singleton.mp hmem).trans hwritten

-- ---------------------------------------------------------------------------
-- Runs
-- ---------------------------------------------------------------------------

/-- After a FIN no `send` is left on its way, and a functor of `shutdown()` comes after its state. -/
structure Orderly (s : Shared) : Prop where
  kept : Kept s.conn
  state : s.conn.state_ = .kConnected ∨ s.conn.state_ = .kDisconnecting
  noSends : s.conn.fins ≠ [] → NoSends s
  queued : ∀ data returned, .sendInLoop data returned ∈ s.tasks → data.length ≤ Buffer.max_size
  called : ∀ data, .send data ∈ s.calling → data.length ≤ Buffer.max_size
  set : .shutdownInLoop ∈ s.tasks ∨ 0 < s.setting → s.conn.state_ = .kDisconnecting
  owed : ∀ datas ∈ s.owed, datas = []
  late : s.late = 0

theorem Orderly.finLast (h : Orderly s) : FinLast s := by
  refine ⟨fun written hmem => ?_, h.owed, h.late⟩
  exact (h.kept.shut (List.ne_nil_of_mem hmem)).all written hmem

theorem returned_nil {tasks : List Task} (h : ∀ task ∈ tasks, task.isSend = false) :
    returned tasks = [] := by
  refine List.filterMap_eq_nil_iff.mpr fun task hmem => ?_
  cases task with
  | sendInLoop data returned => exact Bool.noConfusion (h _ hmem)
  | shutdownInLoop => rfl

theorem Orderly.advance (h : Orderly s) {writes : Bool} (hkept : Kept conn)
    (hst : conn.state_ = s.conn.state_ ∨ conn.state_ = .kDisconnecting)
    (hfin : conn.fins ≠ [] → NoSends s) (hwrites : writes = true → s.conn.fins = []) :
    Orderly (s.advance writes conn) := by
  constructor
  · exact hkept
  · rcases hst with hst | hst
    · exact (hst ▸ h.state : conn.state_ = .kConnected ∨ conn.state_ = .kDisconnecting)
    · exact .inr hst
  · exact hfin
  · exact h.queued
  · exact h.called
  · intro hset
    exact hst.elim (fun hst => hst.trans (h.set hset)) id
  · intro datas hmem
    simp only [Shared.advance] at hmem
    split at hmem
    · rename_i hgrew
      have hne : conn.fins ≠ [] := List.ne_nil_of_length_pos (Nat.zero_lt_of_lt hgrew)
      rcases List.mem_cons.mp hmem with rfl | hmem
      · exact returned_nil (hfin hne).1
      · exact h.owed datas hmem
    · exact h.owed datas hmem
  · simp only [Shared.advance]
    split
    · rename_i hlate
      obtain ⟨hw, hne⟩ := Bool.and_eq_true_iff.mp hlate
      exact absurd (hwrites hw) (of_decide_eq_true hne)
    · exact h.late

theorem Orderly.open_of_connected (h : Orderly s) (hst : s.conn.state_ = .kConnected) :
    s.conn.fins = [] := by
  by_contra hne
  exact nomatch hst.symm.trans (h.kept.shut hne).state

theorem Orderly.sent (h : Orderly s) (hfins : s.conn.fins = []) (hsize : data.length ≤ Buffer.max_size)
    (hw : w.Fits data.length)
    (hs : { s.conn with sent := s.conn.sent ++ data }.sendInLoop data w = some conn) :
    conn.state_ = s.conn.state_ ∧ conn.fins = [] ∧ Kept conn := by
  have hopen := h.kept.opened hfins
  have howes : Owes { s.conn with sent := s.conn.sent ++ data } data :=
    ⟨hopen.sound, by simp [← hopen.stream], hopen.interest, .inl hfins⟩
  have hne : s.conn.state_ ≠ .kDisconnected := by
    rcases h.state with hst | hst <;> simp [hst]
  obtain ⟨hstate, hkept⟩ := sendInLoop_kept hs
  have hstate : conn.state_ = s.conn.state_ := hstate
  refine ⟨hstate, hkept.trans hfins, ?_⟩
  exact kept_of_owes (howes.sendInLoop hne hfins hsize hw hs) (hstate ▸ h.state)

theorem Orderly.send (h : Orderly s) (hfits : Fits s (.send data w))
    (hs : step s (.send data w) = some s') : Orderly s' := by
  simp only [Shared.step, Option.bind_eq_bind, Option.bind_eq_some_iff, Option.some.injEq] at hs
  obtain ⟨conn, hsend, rfl⟩ := hs
  unfold TcpConnection.send at hsend
  split at hsend
  · rename_i hst
    have hfins := h.open_of_connected hst
    obtain ⟨hstate, hnone, hkept⟩ := h.sent hfins hfits.1 hfits.2 hsend
    exact h.advance hkept (.inl hstate) (fun hne => absurd hnone hne) fun _ => hfins
  · rename_i hst
    cases hsend
    exact h.advance h.kept (.inl rfl) h.noSends fun hw => by simp [hst] at hw

theorem Orderly.shutdown (h : Orderly s) (hc : SendsFirst s .shutdown)
    (hs : step s .shutdown = some s') : Orderly s' := by
  cases hs
  suffices hadvance : Orderly (s.advance false s.conn.shutdown) from
    ⟨hadvance.kept, hadvance.state, hadvance.noSends, hadvance.queued, hadvance.called,
      hadvance.set, hadvance.owed, hadvance.late⟩
  by_cases hst : s.conn.state_ = .kConnected
  · have hfins := h.open_of_connected hst
    have hstate : s.conn.shutdown.state_ = .kDisconnecting := by
      rw [TcpConnection.shutdown, if_pos hst, shutdownInLoop_state]
    have howes := (h.kept.opened hfins).shutdown
    refine h.advance (kept_of_owes howes (.inr hstate)) (.inr hstate) (fun hne => ?_) nofun
    refine hc.2 ?_
    cases hwriting : s.conn.writing with
    | false => simp [sendsFin, hst, hwriting]
    | true => simp [TcpConnection.shutdown, TcpConnection.shutdownInLoop, hst, hwriting, hfins] at hne
  · have hsame : s.conn.shutdown = s.conn := if_neg hst
    rw [hsame]
    exact h.advance h.kept (.inl rfl) h.noSends nofun

theorem Orderly.popped (h : Orderly s) {task : Task} {tasks : List Task}
    (hq : s.tasks = task :: tasks) : Orderly { s with tasks } := by
  have hsub : ∀ t ∈ tasks, t ∈ s.tasks := fun t hmem => hq ▸ List.mem_cons_of_mem _ hmem
  refine ⟨h.kept, h.state, fun hne => ?_, fun data returned hmem => ?_, h.called, fun hset => ?_,
    h.owed, h.late⟩
  · obtain ⟨htasks, hcalling⟩ := h.noSends hne
    exact ⟨fun t hmem => htasks t (hsub t hmem), hcalling⟩
  · exact h.queued data returned (hsub _ hmem)
  · exact h.set (hset.imp_left (hsub _))

theorem Orderly.functor (h : Orderly s) (hc : SendsFirst s (.functor w))
    (hs : step s (.functor w) = some s') : Orderly s' := by
  cases hq : s.tasks with
  | nil => simp [Shared.step, hq] at hs
  | cons task tasks =>
    have hpopped := h.popped hq
    cases task with
    | sendInLoop data returned =>
      simp only [Shared.step, hq, Option.bind_eq_bind, Option.bind_eq_some_iff,
        Option.some.injEq] at hs
      obtain ⟨conn, hsend, rfl⟩ := hs
      have hfins : s.conn.fins = [] := by
        by_contra hne
        have hnone := (h.noSends hne).1 _ (hq ▸ List.mem_cons_self)
        exact Bool.noConfusion hnone
      have hne : s.conn.state_ ≠ .kDisconnected := by
        rcases h.state with hst | hst <;> simp [hst]
      have hfits : w.Fits data.length := by
        have hfits := hc.1
        simpa only [Fits, hq] using hfits
      rw [runSend, if_neg hne] at hsend
      obtain ⟨hstate, hnone, hkept⟩ :=
        h.sent hfins (h.queued data returned (hq ▸ List.mem_cons_self)) hfits hsend
      exact hpopped.advance hkept (.inl hstate) (fun hne => absurd hnone hne) fun _ => hfins
    | shutdownInLoop =>
      simp only [Shared.step, hq, Option.some.injEq] at hs
      subst hs
      have hst : s.conn.state_ = .kDisconnecting := h.set (.inl (hq ▸ List.mem_cons_self))
      refine hpopped.advance (h.kept.shutdownInLoop hst) (.inl (shutdownInLoop_state _))
        (fun hne => ?_) nofun
      cases hwriting : s.conn.writing with
      | true =>
        have hsame : s.conn.shutdownInLoop = s.conn := by
          simp [TcpConnection.shutdownInLoop, hwriting]
        exact hpopped.noSends (hsame ▸ hne)
      | false =>
        obtain ⟨htasks, hcalling⟩ := hc.2 (by simp [sendsFin, hq, hwriting])
        exact ⟨fun t hmem => htasks t (hq ▸ List.mem_cons_of_mem _ hmem), hcalling⟩

theorem Orderly.handleWrite (h : Orderly s) (hc : SendsFirst s (.handleWrite w))
    (hs : step s (.handleWrite w) = some s') : Orderly s' := by
  cases hs
  by_cases hfins : s.conn.fins = []
  · have hstate := handleWrite_state s.conn w
    have howes := (h.kept.opened hfins).handleWrite (w := w)
    refine h.advance (kept_of_owes howes (hstate ▸ h.state)) (.inl hstate) (fun hne => hc.2 ?_)
      fun _ => hfins
    obtain ⟨n, rfl, hwriting, hpos, hst, hempty⟩ := handleWrite_fins hfins hne
    simp [sendsFin, hwriting, hpos, hst, hempty]
  · have hwriting := (h.kept.shut hfins).writing
    have hsame : s.conn.handleWrite w = s.conn := by simp [TcpConnection.handleWrite, hwriting]
    rw [hsame]
    exact h.advance h.kept (.inl rfl) h.noSends fun hw => Bool.noConfusion (hwriting.symm.trans hw)

theorem Orderly.step (h : Orderly s) (hc : SendsFirst s e) (hs : step s e = some s') :
    Orderly s' := by
  cases e with
  | send data w => exact h.send hc.1 hs
  | shutdown => exact h.shutdown hc hs
  | functor w => exact h.functor hc hs
  | handleWrite w => exact h.handleWrite hc hs
  | look call =>
    simp only [Shared.step, Option.ite_none_right_eq_some, Option.some.injEq] at hs
    obtain ⟨hst, rfl⟩ := hs
    have hfins := h.open_of_connected hst
    refine ⟨h.kept, h.state, fun hne => absurd hfins hne, h.queued, fun data hmem => ?_, h.set,
      h.owed, h.late⟩
    rcases List.mem_cons.mp hmem with rfl | hmem
    · exact hc.1
    · exact h.called data hmem
  | set =>
    simp only [Shared.step, Option.ite_none_right_eq_some, Option.some.injEq] at hs
    obtain ⟨-, rfl⟩ := hs
    have howes := h.kept.owes
    refine ⟨⟨⟨howes.sound, howes.stream, howes.interest, .inl rfl⟩, fun hne => ?_⟩, .inr rfl,
      fun hne => ?_, h.queued, fun data hmem => ?_, fun _ => rfl, h.owed, h.late⟩
    · obtain ⟨hwriting, -, hall⟩ := h.kept.shut hne
      exact ⟨hwriting, rfl, hall⟩
    · obtain ⟨htasks, hcalling⟩ := h.noSends hne
      exact ⟨htasks, fun call hmem => hcalling call (List.mem_of_mem_erase hmem)⟩
    · exact h.called data (List.mem_of_mem_erase hmem)
  | queueSend data =>
    simp only [Shared.step, Option.ite_none_right_eq_some, Option.some.injEq] at hs
    obtain ⟨hcall, rfl⟩ := hs
    refine ⟨h.kept, h.state, fun hne => ?_, fun data' returned hmem => ?_, fun data' hmem => ?_,
      fun hset => ?_, h.owed, h.late⟩
    · exact Bool.noConfusion ((h.noSends hne).2 _ hcall)
    · rcases List.mem_append.mp hmem with hmem | hmem
      · exact h.queued data' returned hmem
      · cases List.mem_singleton.mp hmem
        exact h.called data hcall
    · exact h.called data' (List.mem_of_mem_erase hmem)
    · exact h.set (hset.imp_left fun hmem => by simpa using hmem)
  | queueShutdown =>
    simp only [Shared.step, Option.ite_none_right_eq_some, Option.some.injEq] at hs
    obtain ⟨hset, rfl⟩ := hs
    refine ⟨h.kept, h.state, fun hne => ?_, fun data returned hmem => ?_, h.called,
      fun _ => h.set (.inr hset), h.owed, h.late⟩
    · obtain ⟨htasks, hcalling⟩ := h.noSends hne
      refine ⟨fun task hmem => ?_, hcalling⟩
      rcases List.mem_append.mp hmem with hmem | hmem
      · exact htasks task hmem
      · cases List.mem_singleton.mp hmem
        rfl
    · refine h.queued data returned ?_
      simpa using hmem

theorem orderly_established {mark : Nat} {complete high : Bool} :
    Orderly { conn := established mark complete high } where
  kept := kept_of_owes owes_established (.inl rfl)
  state := .inl rfl
  noSends hne := absurd rfl hne
  queued _ _ := nofun
  called _ := nofun
  set hset := hset.elim nofun (absurd · (Nat.lt_irrefl 0))
  owed _ := nofun
  late := rfl

theorem finLast_of_sendsFirst {mark : Nat} {complete high : Bool}
    (h : Reach step SendsFirst { conn := established mark complete high } s) : FinLast s := by
  refine Orderly.finLast (h.invariant orderly_established ?_)
  intro s e s' horderly hc hs
  exact horderly.step hc hs

/-- A `send` and a `shutdown()` on other threads around a `send` on the loop's, which the socket
takes in part; `handleWrite` sends the rest and the FIN, and the functor of `shutdown()` another. -/
def waitingRun : List Event :=
  [.look (.send [1, 2]), .look .shutdown, .queueSend [1, 2], .send [3] (.bytes 0), .set,
    .functor (.bytes 0), .queueShutdown, .handleWrite (.bytes 3), .functor (.bytes 0)]

theorem finLast_of_sendsFirst_waiting : ∃ s,
    exec step SendsFirst { conn := established 100 true true } waitingRun = some s ∧
      s.conn.fins = [[3, 1, 2], [3, 1, 2]] ∧ FinLast s := by
  have hrun : (exec step SendsFirst { conn := established 100 true true } waitingRun).any
      (fun s => s.conn.fins = [[3, 1, 2], [3, 1, 2]]) = true := by
    decide +kernel
  obtain ⟨s, hs, hfins⟩ := (Option.any_eq_true _ _).mp hrun
  exact ⟨s, hs, of_decide_eq_true hfins, finLast_of_sendsFirst (.of_exec hs)⟩

/-- A `send` on another thread has queued its data and returned when `shutdown()` on the loop's
sends the FIN; the functor writes it afterwards. -/
theorem not_finLast : ∃ s,
    Reach step Always { conn := established 100 true true } s ∧
      s.owed = [[[1]]] ∧ s.conn.fins = [[]] ∧ s.late = 1 ∧ ¬ FinLast s := by
  have hrun : (exec step Always { conn := established 100 true true }
      [.look (.send [1]), .queueSend [1], .shutdown, .functor (.bytes 1)]).any
      (fun s => s.owed = [[[1]]] ∧ s.conn.fins = [[]] ∧ s.late = 1) = true := by
    decide +kernel
  obtain ⟨s, hs, hall⟩ := (Option.any_eq_true _ _).mp hrun
  obtain ⟨howed, hfins, hlate⟩ := of_decide_eq_true hall
  exact ⟨s, .of_exec hs, howed, hfins, hlate, fun h => nomatch hlate.symm.trans h.late⟩

end Shared

end VortexNet.TcpConnection
