import Mathlib.Logic.Function.Basic
import VortexNet.Net.ConnectorOrder
import VortexNet.Net.TcpConnection

/-!
# The connection of a client

`TcpClient.cc` on its loop thread, over its connector. Connections are known by
the number that goes into their name. A user's callback is the list of the calls
it makes; `forceClose()` in one comes back through `handleClose` before the
callback returns.

A connection is alive until it is closed. One that `conn_` no longer refers to
stays so while the user holds it.
-/

namespace VortexNet

open Connector (Errno Functor Timer)
open TcpConnection (StateE)
open Systems (Reach Always exec)

/-- `removed` are the connections for which `removeConnection` was executed. -/
structure TcpClient where
  connector_ : Connector
  conn_ : Option Nat := none
  nexConnId_ : Nat := 1
  retry_ : Bool
  connect_ : Bool := true
  states : Nat → StateE := fun _ => .kDisconnected
  removed : List Nat := []

namespace TcpClient

/-- A client, with the error callback and the retries of its connector as the user set them. -/
def fresh (errorCallback retry : Bool) : TcpClient where
  connector_ := .fresh true errorCallback retry
  retry_ := retry

inductive Call
  | forceClose
  | shutdown
  | connect (savedErrno : Errno)
  | disconnect
  | stop
  deriving DecidableEq

def setState (t : TcpClient) (id : Nat) (state : StateE) : TcpClient :=
  { t with states := Function.update t.states id state }

/-- `conn->shutdown()`. -/
def shutdown (t : TcpClient) (id : Nat) : TcpClient :=
  if t.states id = .kConnected then t.setState id .kDisconnecting else t

def connect (t : TcpClient) (savedErrno : Errno) : TcpClient :=
  { t with
    connect_ := true
    connector_ := (t.connector_.command .start).start (some t.connector_.commands.length) savedErrno }

def connectFrom (t : TcpClient) : TcpClient :=
  { t with
    connect_ := true
    connector_ := (t.connector_.command .start).startFrom t.connector_.commands.length }

/-- `disconnect()`, which without a connection dereferences a null pointer. -/
def disconnect (t : TcpClient) : Option TcpClient :=
  t.conn_.map { t with connect_ := false }.shutdown

def stop (t : TcpClient) : TcpClient :=
  let t := { t with
    connect_ := false
    connector_ := (t.connector_.command .stop).stop t.connector_.commands.length }
  match t.conn_ with
  | some id => t.shutdown id
  | none => t

def removeConnection (t : TcpClient) (id : Nat) : TcpClient :=
  let t := { t with conn_ := none, removed := id :: t.removed }
  if t.retry_ && t.connect_ then
    { t with connector_ := (t.connector_.command .restart).restart }
  else t

/-- A call from the callback that reports `id` down, when `forceClose()` does nothing. -/
def Call.run (t : TcpClient) (id : Nat) : Call → Option TcpClient
  | .forceClose => some t
  | .shutdown => some (t.shutdown id)
  | .connect savedErrno => some (t.connect savedErrno)
  | .disconnect => t.disconnect
  | .stop => some t.stop

def handleClose (t : TcpClient) (id : Nat) (down : List Call) : Option TcpClient := do
  let t ← down.foldlM (Call.run · id) (t.setState id .kDisconnected)
  some (t.removeConnection id)

def forceClose (t : TcpClient) (id : Nat) (down : List Call) : Option TcpClient :=
  if t.states id = .kConnected ∨ t.states id = .kDisconnecting then
    (t.setState id .kDisconnecting).handleClose id down
  else some t

def Call.runUp (t : TcpClient) (id : Nat) (down : List Call) : Call → Option TcpClient
  | .forceClose => t.forceClose id down
  | call => call.run t id

/-- `newConnection`, where `connectEstablished` runs the callback before `conn_` is set. -/
def newConnection (t : TcpClient) (up down : List Call) : Option TcpClient := do
  let id := t.nexConnId_
  let t := { t with nexConnId_ := id + 1 }.setState id .kConnected
  let t ← up.foldlM (Call.runUp · id down) t
  some { t with conn_ := some id }

-- ---------------------------------------------------------------------------
-- Runs
-- ---------------------------------------------------------------------------

/-- `savedErrno` is what `::connect` says if the event comes to it. -/
inductive Event
  | connect (savedErrno : Errno)
  | connectFrom
  | disconnect
  | stop
  | shutdown (id : Nat)
  | functor (savedErrno : Errno)
  | timer (i : Nat) (savedErrno : Errno)
  /-- An event on the channel of an attempt, with the callbacks of the connection it may make. -/
  | handleEvent (error write : Option Errno) (up down : List Call)
  /-- A connection is closed, by its peer or by `forceClose()`. -/
  | handleClose (id : Nat) (down : List Call)
  deriving DecidableEq

def step (t : TcpClient) : Event → Option TcpClient
  | .connect savedErrno => some (t.connect savedErrno)
  | .connectFrom => some t.connectFrom
  | .disconnect => t.disconnect
  | .stop => some t.stop
  | .shutdown id => some (t.shutdown id)
  | .functor savedErrno => do
    let (k, _) ← t.connector_.stepLive (.functor savedErrno)
    some { t with connector_ := k }
  | .timer i savedErrno => do
    let (k, _) ← t.connector_.stepLive (.timer i savedErrno)
    some { t with connector_ := k }
  | .handleEvent error write up down => do
    let (k, handed) ← t.connector_.stepLive (.handleEvent error write)
    let t := { t with connector_ := k }
    if handed.isSome then t.newConnection up down else some t
  | .handleClose id down =>
    if 1 ≤ id ∧ id < t.nexConnId_ then t.handleClose id down else none

-- ---------------------------------------------------------------------------
-- One connection
-- ---------------------------------------------------------------------------

def Alive (t : TcpClient) (id : Nat) : Prop := t.states id ≠ .kDisconnected

/-- `conn_` refers to no connection that was removed, and one connection at most is alive. -/
structure Single (t : TcpClient) : Prop where
  current : ∀ id ∈ t.conn_, id ∉ t.removed
  alive : ∀ id id', t.Alive id → t.Alive id' → id = id'

def Call.begins : Call → Bool
  | .connect savedErrno => savedErrno.begins
  | _ => false

def Event.begins (t : TcpClient) : Event → Bool
  | .connect savedErrno => savedErrno.begins
  | .functor savedErrno => match t.connector_.pendingFunctors_.head? with
    | some (.startInLoop _) => t.connector_.connect_ && savedErrno.begins
    | _ => false
  | .timer i savedErrno => match t.connector_.timers[i]? with
    | some (_, .retry) => savedErrno.begins
    | some (_, .restart) => t.connector_.connect_ && savedErrno.begins
    | none => false
  | _ => false

def NoneBut (t : TcpClient) (id : Nat) : Prop := ∀ id' < t.nexConnId_, t.Alive id' → id' = id

/-- An attempt begins only when no connection is alive, and the callback that reports a
connection up does not close it. -/
def BeginsAlone (t : TcpClient) (e : Event) : Prop :=
  (e.begins t = true → ∀ id < t.nexConnId_, ¬ t.Alive id) ∧
    match e with
    | .handleEvent _ _ up _ => ∀ call ∈ up, call ≠ .forceClose ∧ call.begins = false
    | .handleClose id down => (∃ call ∈ down, call.begins = true) → t.NoneBut id
    | _ => True

instance (t : TcpClient) : DecidablePred t.Alive := fun _ => inferInstanceAs (Decidable (_ ≠ _))

instance (t : TcpClient) (id : Nat) : Decidable (t.NoneBut id) :=
  inferInstanceAs (Decidable (∀ id' < _, _))

instance (t : TcpClient) : DecidablePred (BeginsAlone t)
  | .handleEvent _ _ up _ => inferInstanceAs (Decidable (_ ∧ ∀ call ∈ up, _))
  | .handleClose _ down => inferInstanceAs (Decidable (_ ∧ ((∃ call ∈ down, _) → _)))
  | .connect _ | .connectFrom | .disconnect | .stop | .shutdown _ | .functor _ | .timer _ _ =>
    inferInstanceAs (Decidable (_ ∧ True))

-- ---------------------------------------------------------------------------
-- The attempt of the connector
-- ---------------------------------------------------------------------------

variable {k : Connector} {savedErrno : Errno} {label : Option Nat}

theorem startInLoop_idle (hch : k.channel_ = none)
    (hb : k.connect_ = true → savedErrno.begins = false) :
    (k.startInLoop label savedErrno).channel_ = none := by
  unfold Connector.startInLoop
  split
  · rename_i hc
    have hb := hb hc
    cases savedErrno
    case EAGAIN | ECONNREFUSED | ENETUNREACH => exact (Connector.retry_quiet _ _ _).1
    case other => exact hch
    all_goals cases hb
  · exact hch

theorem functor_idle {functor : Functor} (hch : k.channel_ = none)
    (hb : ∀ start, functor = .startInLoop start → k.connect_ = true → savedErrno.begins = false) :
    (functor.run k savedErrno).channel_ = none := by
  cases functor with
  | startInLoop start => exact startInLoop_idle hch (hb start rfl)
  | stopInLoop stop => rwa [Functor.run, Connector.stopInLoop_none stop hch]
  | release => exact hch
  | errorCallback => exact hch

theorem timer_idle {timer : Timer} (hch : k.channel_ = none)
    (hb : timer = .retry ∨ k.connect_ = true → savedErrno.begins = false) :
    (timer.run k savedErrno).channel_ = none := by
  cases timer with
  | retry => exact startInLoop_idle (k := { k with connect_ := true }) hch fun _ => hb (.inl rfl)
  | restart => exact startInLoop_idle hch fun hc => hb (.inr hc)

/-- A socket is handed over after its channel was dropped. -/
theorem handed_idle (k : Connector) (channel : Connector.Channel) (error write : Option Errno)
    (hh : (k.handleEvent channel error write).2.isSome = true) :
    (k.handleEvent channel error write).1.channel_ = none := by
  have hwrite : ∀ (k : Connector) (err : Errno), (k.handleWrite channel err).2.isSome = true →
      (k.handleWrite channel err).1.channel_ = none := by
    intro k err hh
    by_cases hstate : k.state_ = .kConnecting
    · by_cases herr : err = .zero
      · cases hc : k.connect_ with
        | true =>
          simp only [Connector.handleWrite, hstate, herr, hc, ne_eq, not_true, if_false, if_true]
          split <;> rfl
        | false => simp [Connector.handleWrite, hstate, herr, hc] at hh
      · simp [Connector.handleWrite, hstate, herr] at hh
    · simp [Connector.handleWrite, hstate] at hh
  cases write with
  | some err => exact hwrite _ err hh
  | none => cases hh

-- ---------------------------------------------------------------------------
-- Calls
-- ---------------------------------------------------------------------------

variable {t t' t'' : TcpClient} {id : Nat} {e : Event}

structure Steady (t t' : TcpClient) : Prop where
  next : t'.nexConnId_ = t.nexConnId_
  removed : t'.removed = t.removed
  conn : t'.conn_ = t.conn_
  alive : ∀ id, t'.Alive id → t.Alive id

structure Calm (t t' : TcpClient) : Prop extends Steady t t' where
  idle : t.connector_.channel_ = none → t'.connector_.channel_ = none

theorem Steady.refl (t : TcpClient) : Steady t t := ⟨rfl, rfl, rfl, fun _ h => h⟩

theorem Steady.trans (h₁ : Steady t t') (h₂ : Steady t' t'') : Steady t t'' where
  next := h₂.next.trans h₁.next
  removed := h₂.removed.trans h₁.removed
  conn := h₂.conn.trans h₁.conn
  alive id h := h₁.alive id (h₂.alive id h)

theorem Calm.refl (t : TcpClient) : Calm t t := ⟨.refl t, fun h => h⟩

theorem Calm.trans (h₁ : Calm t t') (h₂ : Calm t' t'') : Calm t t'' :=
  ⟨h₁.toSteady.trans h₂.toSteady, fun h => h₂.idle (h₁.idle h)⟩

theorem shutdown_calm (t : TcpClient) (id : Nat) : Calm t (t.shutdown id) := by
  unfold shutdown
  split
  · rename_i hc
    refine ⟨⟨rfl, rfl, rfl, fun other h => ?_⟩, fun h => h⟩
    by_cases ho : other = id
    · subst ho
      simp [Alive, hc]
    · simpa [Alive, setState, ho] using h
  · exact .refl t

theorem connect_steady (t : TcpClient) (savedErrno : Errno) : Steady t (t.connect savedErrno) :=
  ⟨rfl, rfl, rfl, fun _ h => h⟩

theorem connect_calm (t : TcpClient) (hb : savedErrno.begins = false) :
    Calm t (t.connect savedErrno) :=
  ⟨connect_steady t savedErrno, fun h =>
    startInLoop_idle (k := { t.connector_.command .start with connect_ := true }) h fun _ => hb⟩

theorem disconnect_calm (h : t.disconnect = some t') : Calm t t' := by
  obtain ⟨id, -, rfl⟩ := Option.map_eq_some_iff.mp h
  have hoff : Calm t { t with connect_ := false } := ⟨⟨rfl, rfl, rfl, fun _ h => h⟩, fun h => h⟩
  exact hoff.trans (shutdown_calm _ id)

theorem stop_calm (t : TcpClient) : Calm t t.stop := by
  have hoff : Calm t { t with
      connect_ := false
      connector_ := (t.connector_.command .stop).stop t.connector_.commands.length } :=
    ⟨⟨rfl, rfl, rfl, fun _ h => h⟩, fun h => h⟩
  simp only [stop]
  split
  · exact hoff.trans (shutdown_calm _ _)
  · exact hoff

theorem Call.run_steady {call : Call} (h : call.run t id = some t') : Steady t t' := by
  cases call with
  | forceClose =>
    cases h
    exact .refl t
  | shutdown =>
    cases h
    exact (shutdown_calm t id).toSteady
  | connect savedErrno =>
    cases h
    exact connect_steady t savedErrno
  | disconnect => exact (disconnect_calm h).toSteady
  | stop =>
    cases h
    exact (stop_calm t).toSteady

theorem Call.run_calm {call : Call} (h : call.run t id = some t') (hb : call.begins = false) :
    Calm t t' := by
  cases call with
  | forceClose =>
    cases h
    exact .refl t
  | shutdown =>
    cases h
    exact shutdown_calm t id
  | connect savedErrno =>
    cases h
    exact connect_calm t hb
  | disconnect => exact disconnect_calm h
  | stop =>
    cases h
    exact stop_calm t

theorem Call.runUp_eq {call : Call} {down : List Call} (hne : call ≠ .forceClose) :
    call.runUp t id down = call.run t id := by
  cases call with
  | forceClose => exact absurd rfl hne
  | _ => rfl

theorem foldlM_keeps {R : TcpClient → TcpClient → Prop} {run : TcpClient → Call → Option TcpClient}
    {calls : List Call} (hrefl : ∀ t, R t t) (htrans : ∀ t t' t'', R t t' → R t' t'' → R t t'')
    (hrun : ∀ call ∈ calls, ∀ t t', run t call = some t' → R t t')
    (h : calls.foldlM run t = some t') : R t t' := by
  induction calls generalizing t with
  | nil =>
    cases h
    exact hrefl _
  | cons call calls ih =>
    rw [List.foldlM_cons] at h
    obtain ⟨mid, hmid, hrest⟩ := Option.bind_eq_some_iff.mp h
    obtain ⟨hcall, hcalls⟩ := List.forall_mem_cons.mp hrun
    exact htrans _ _ _ (hcall _ _ hmid) (ih hcalls hrest)

-- ---------------------------------------------------------------------------
-- Runs
-- ---------------------------------------------------------------------------

structure Sole (t : TcpClient) : Prop where
  single : Single t
  idle : ∀ id, t.Alive id → t.connector_.channel_ = none
  created : ∀ id, t.Alive id → id < t.nexConnId_
  numbered : ∀ id ∈ t.removed, id < t.nexConnId_

theorem Sole.steady (h : Sole t) (hs : Steady t t')
    (hch : ∀ id, t'.Alive id → t'.connector_.channel_ = none) : Sole t' := by
  refine ⟨⟨?_, fun a b ha hb => h.single.alive a b (hs.alive a ha) (hs.alive b hb)⟩, hch,
    fun id ha => ?_, ?_⟩
  · rw [hs.conn, hs.removed]
    exact h.single.current
  · rw [hs.next]
    exact h.created id (hs.alive id ha)
  · rw [hs.next, hs.removed]
    exact h.numbered

theorem Sole.calm (h : Sole t) (hc : Calm t t') : Sole t' :=
  h.steady hc.toSteady fun id ha => hc.idle (h.idle id (hc.alive id ha))

theorem setState_closed (t : TcpClient) (id other : Nat) :
    (t.setState id .kDisconnected).Alive other ↔ other ≠ id ∧ t.Alive other := by
  by_cases h : other = id <;> simp [Alive, setState, h]

theorem Sole.handleClose (h : Sole t) (hid : id < t.nexConnId_) {down : List Call}
    (hdown : (∃ call ∈ down, call.begins = true) → t.NoneBut id)
    (hs : t.handleClose id down = some t') : Sole t' := by
  obtain ⟨closed, hclosed⟩ : ∃ closed, closed = t.setState id .kDisconnected := ⟨_, rfl⟩
  have hfirst : Sole closed := by
    subst hclosed
    exact h.calm ⟨⟨rfl, rfl, rfl, fun other ha => ((setState_closed t id other).mp ha).2⟩, fun h => h⟩
  simp only [TcpClient.handleClose, Option.bind_eq_bind, ← hclosed] at hs
  obtain ⟨after, hafter, hs⟩ := Option.bind_eq_some_iff.mp hs
  cases hs
  have hsteady : Steady closed after :=
    foldlM_keeps .refl (fun _ _ _ => .trans) (fun call _ _ _ => Call.run_steady) hafter
  have hsole : Sole after := by
    by_cases hb : ∃ call ∈ down, call.begins = true
    · refine hfirst.steady hsteady fun other ha => ?_
      subst hclosed
      obtain ⟨hne, halive⟩ := (setState_closed t id other).mp (hsteady.alive other ha)
      exact absurd (hdown hb other (h.created other halive) halive) hne
    · refine hfirst.calm (foldlM_keeps .refl (fun _ _ _ => .trans) (fun call hmem _ _ hcall => ?_) hafter)
      exact Call.run_calm hcall (Bool.eq_false_iff.mpr fun hbegins => hb ⟨call, hmem, hbegins⟩)
  have hnext : id < after.nexConnId_ := by
    rw [hsteady.next, hclosed]
    exact hid
  have hremoved : Sole { after with conn_ := none, removed := id :: after.removed } :=
    ⟨⟨nofun, hsole.single.alive⟩, hsole.idle, hsole.created,
      List.forall_mem_cons.mpr ⟨hnext, hsole.numbered⟩⟩
  simp only [removeConnection]
  split
  · exact hremoved.calm ⟨⟨rfl, rfl, rfl, fun _ h => h⟩, fun h => h⟩
  · exact hremoved

theorem Sole.newConnection (h : Sole t) (hnone : ∀ id, ¬ t.Alive id)
    (hch : t.connector_.channel_ = none) {up down : List Call}
    (hup : ∀ call ∈ up, call ≠ .forceClose ∧ call.begins = false)
    (hs : t.newConnection up down = some t') : Sole t' := by
  obtain ⟨made, hmade⟩ : ∃ made,
      made = { t with nexConnId_ := t.nexConnId_ + 1 }.setState t.nexConnId_ .kConnected := ⟨_, rfl⟩
  have halive : ∀ id, made.Alive id → id = t.nexConnId_ := by
    intro id ha
    by_contra hne
    subst hmade
    exact hnone id (by simpa [Alive, setState, hne] using ha)
  have hremoved : made.removed = t.removed := by rw [hmade]; rfl
  have hnext : made.nexConnId_ = t.nexConnId_ + 1 := by rw [hmade]; rfl
  have hfirst : Sole made := by
    refine ⟨⟨?_, fun a b ha hb => (halive a ha).trans (halive b hb).symm⟩, fun _ _ => ?_,
      fun id ha => ?_, fun id hmem => ?_⟩
    · rw [hremoved, hmade]
      exact h.single.current
    · rw [hmade]
      exact hch
    · rw [hnext, halive id ha]
      exact Nat.lt_succ_self _
    · rw [hnext]
      exact Nat.lt_succ_of_lt (h.numbered id (hremoved ▸ hmem))
  simp only [TcpClient.newConnection, Option.bind_eq_bind, ← hmade] at hs
  obtain ⟨after, hafter, hs⟩ := Option.bind_eq_some_iff.mp hs
  cases hs
  have hcalm : Calm made after := by
    refine foldlM_keeps .refl (fun _ _ _ => .trans) (fun call hmem t t' hcall => ?_) hafter
    obtain ⟨hne, hb⟩ := hup call hmem
    rw [Call.runUp_eq hne] at hcall
    exact Call.run_calm hcall hb
  have hsole := hfirst.calm hcalm
  refine ⟨⟨?_, hsole.single.alive⟩, hsole.idle, hsole.created, hsole.numbered⟩
  rintro id hmem hgone
  obtain rfl := Option.some.inj hmem
  rw [hcalm.removed, hremoved] at hgone
  exact Nat.lt_irrefl _ (h.numbered _ hgone)

theorem Sole.step (h : Sole t) (hc : BeginsAlone t e) (hs : step t e = some t') : Sole t' := by
  have hquiet : e.begins t = true → ∀ id, ¬ t.Alive id := fun hb id ha =>
    hc.1 hb id (h.created id ha) ha
  cases e with
  | connect savedErrno =>
    cases hs
    refine h.steady (connect_steady t savedErrno) fun id ha => ?_
    cases hb : savedErrno.begins with
    | true => exact absurd ha (hquiet hb id)
    | false => exact (connect_calm t hb).idle (h.idle id ha)
  | connectFrom =>
    cases hs
    exact h.calm ⟨⟨rfl, rfl, rfl, fun _ h => h⟩, fun h => h⟩
  | disconnect => exact h.calm (disconnect_calm hs)
  | stop =>
    cases hs
    exact h.calm (stop_calm t)
  | shutdown id =>
    cases hs
    exact h.calm (shutdown_calm t id)
  | functor savedErrno =>
    obtain ⟨⟨k, handed⟩, hk, hs⟩ := Option.bind_eq_some_iff.mp hs
    cases hs
    refine h.steady ⟨rfl, rfl, rfl, fun _ h => h⟩ fun id ha => ?_
    cases hq : t.connector_.pendingFunctors_ with
    | nil => simp [Connector.stepLive, hq] at hk
    | cons functor functors =>
      simp only [Connector.stepLive, hq, Option.some.injEq, Prod.mk.injEq] at hk
      obtain ⟨rfl, -⟩ := hk
      refine functor_idle (k := { t.connector_ with pendingFunctors_ := functors }) (h.idle id ha)
        fun start hstart hwant => Bool.eq_false_iff.mpr fun hb => hquiet ?_ id ha
      have hwant : t.connector_.connect_ = true := hwant
      simp [Event.begins, hq, hstart, hwant, hb]
  | timer i savedErrno =>
    obtain ⟨⟨k, handed⟩, hk, hs⟩ := Option.bind_eq_some_iff.mp hs
    cases hs
    refine h.steady ⟨rfl, rfl, rfl, fun _ h => h⟩ fun id ha => ?_
    cases ht : t.connector_.timers[i]? with
    | none => simp [Connector.stepLive, ht] at hk
    | some timer =>
      obtain ⟨delay, timer⟩ := timer
      simp only [Connector.stepLive, ht, Option.some.injEq, Prod.mk.injEq] at hk
      obtain ⟨rfl, -⟩ := hk
      refine timer_idle (k := { t.connector_ with timers := t.connector_.timers.eraseIdx i })
        (h.idle id ha) fun hfires => Bool.eq_false_iff.mpr fun hb => hquiet ?_ id ha
      cases timer with
      | retry => simp [Event.begins, ht, hb]
      | restart =>
        have hwant : t.connector_.connect_ = true := hfires.resolve_left (by simp)
        simp [Event.begins, ht, hwant, hb]
  | handleEvent error write up down =>
    obtain ⟨⟨k, handed⟩, hk, hs⟩ := Option.bind_eq_some_iff.mp hs
    cases hch : t.connector_.channel_ with
    | none => simp [Connector.stepLive, hch] at hk
    | some channel =>
      -- An attempt was under way, so no connection is alive.
      have hnone : ∀ id, ¬ t.Alive id := fun id ha => by
        cases (h.idle id ha).symm.trans hch
      have hsole : Sole { t with connector_ := k } :=
        h.steady ⟨rfl, rfl, rfl, fun _ h => h⟩ fun id ha => absurd ha (hnone id)
      simp only [Connector.stepLive, hch, Option.ite_none_right_eq_some, Option.some.injEq] at hk
      obtain ⟨-, hk⟩ := hk
      dsimp only at hs
      split at hs
      · rename_i hhanded
        have hidle := handed_idle t.connector_ channel error write
        rw [hk] at hidle
        exact hsole.newConnection hnone (hidle hhanded) hc.2 hs
      · cases hs
        exact hsole
  | handleClose id down =>
    simp only [TcpClient.step] at hs
    split at hs
    · rename_i hid
      exact h.handleClose hid.2 hc.2 hs
    · cases hs

theorem sole_fresh (errorCallback retry : Bool) : Sole (fresh errorCallback retry) :=
  ⟨⟨nofun, fun _ _ h => absurd rfl h⟩, fun _ _ => rfl, fun _ h => absurd rfl h, nofun⟩

/-- As long as attempts begin alone, the client has one connection, and refers to no removed one. -/
theorem single_of_beginsAlone {errorCallback retry : Bool}
    (h : Reach step BeginsAlone (fresh errorCallback retry) t) : Single t :=
  (h.invariant (sole_fresh errorCallback retry) fun _ _ _ hi hc hs => hi.step hc hs).single

/-- A connection whose callbacks shut it down and connect again, and the one after it. -/
theorem single_of_beginsAlone_reconnect : ∃ t, exec step BeginsAlone (fresh false true)
      [.connect .EINPROGRESS, .handleEvent none (some .zero) [.shutdown] [], .functor .zero,
        .handleClose 1 [.connect .EINPROGRESS], .timer 0 .EINPROGRESS,
        .handleEvent none (some .zero) [] []] = some t ∧
    t.conn_ = some 2 ∧ t.removed = [1] ∧ Single t := by
  obtain ⟨t, ht, hconn, hremoved⟩ : ∃ t, exec step BeginsAlone (fresh false true)
      [.connect .EINPROGRESS, .handleEvent none (some .zero) [.shutdown] [], .functor .zero,
        .handleClose 1 [.connect .EINPROGRESS], .timer 0 .EINPROGRESS,
        .handleEvent none (some .zero) [] []] = some t ∧ t.conn_ = some 2 ∧ t.removed = [1] :=
    ⟨_, rfl, rfl, rfl⟩
  exact ⟨t, ht, hconn, hremoved, single_of_beginsAlone (.of_exec ht)⟩

/-- A callback closes the connection it reports up: `conn_` is set to it after it was removed. And
two calls of `connect()` end in two connections. -/
theorem not_single :
    (∃ t, Reach step Always (fresh true false) t ∧ t.conn_ = some 1 ∧ 1 ∈ t.removed) ∧
    ∃ t, Reach step Always (fresh true false) t ∧ t.Alive 1 ∧ t.Alive 2 := by
  constructor
  · exact ⟨_, .of_exec (l := [.connect .EINPROGRESS,
      .handleEvent none (some .zero) [.forceClose] []]) rfl, rfl, by decide⟩
  · exact ⟨_, .of_exec (l := [.connect .EINPROGRESS, .handleEvent none (some .zero) [] [],
      .connect .EINPROGRESS, .handleEvent none (some .zero) [] []]) rfl, by decide, by decide⟩

end TcpClient

end VortexNet
