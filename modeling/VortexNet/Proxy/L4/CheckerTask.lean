import Mathlib.Data.List.Forall2
import VortexNet.Net.Connector
import VortexNet.Net.TcpConnection

/-!
# The probes of a health check

`CheckerTask.cc` on its loop thread, with the `TcpClient` and the `Connector` that
all probes of a node share. Probes are numbered by the calls of `start()` that
begin one. Of the timers only those of two seconds that are pending are kept, by
the probe that set them; of the connections the one that the client refers to.

`origins` and `log` are outside the program: for each functor in the loop's
queue the probe whose event put it there, and which probe's event did what to
the probe of its time.
-/

namespace VortexNet

open Connector (Errno Functor)
open Systems (Reach Always exec)

namespace CheckerTask

/-- What an event of the probe `source` did to the probe that was the last one begun, or to the
one whose timer or attempt it was. -/
inductive Effect
  /-- `node_->updateStatus(success)`. -/
  | updated (probe source : Nat) (success : Bool)
  | cancelled (probe source : Nat)
  /-- `is_probing_` was true and is false. -/
  | ended (probe source : Nat)
  /-- A queued stop has dropped the attempt. -/
  | torn (probe source : Nat)
  deriving DecidableEq

structure Conn where
  source : Nat
  state_ : TcpConnection.StateE
  deriving DecidableEq

def Conn.shutdown (conn : Conn) : Conn :=
  if conn.state_ = .kConnected then { conn with state_ := .kDisconnecting } else conn

end CheckerTask

/-- `conn_` is that of the client. -/
structure CheckerTask where
  connector_ : Connector :=
    { newConnectionCallback_ := true, errorCallback_ := true, retry_ := false }
  conn_ : Option CheckerTask.Conn := none
  has_determined_ : Bool := false
  is_probing_ : Bool := false
  timerId_ : Option Nat := none
  timers : List Nat := []
  probe : Nat := 0
  origins : List Nat := []
  log : List CheckerTask.Effect := []
  deriving DecidableEq

namespace CheckerTask

def EMFILE : Errno := .other 24

def queuedBy (t : CheckerTask) (source : Nat) (k : Connector) : CheckerTask :=
  { t with
    connector_ := k
    origins := t.origins ++
      List.replicate (k.pendingFunctors_.length - t.connector_.pendingFunctors_.length) source }

/-- `loop_->cancel(*timerId_)`. -/
def cancel (t : CheckerTask) (source : Nat) : CheckerTask :=
  match t.timerId_ with
  | some timer =>
    if timer ∈ t.timers then
      { t with timers := t.timers.filter (· ≠ timer), log := .cancelled timer source :: t.log }
    else t
  | none => t

def updateStatus (t : CheckerTask) (source : Nat) (success : Bool) : CheckerTask :=
  { t with log := .updated t.probe source success :: t.log }

/-- `is_probing_=false`. -/
def endProbe (t : CheckerTask) (source : Nat) : CheckerTask :=
  if t.is_probing_ then { t with is_probing_ := false, log := .ended t.probe source :: t.log } else t

/-- `client_->stop()`. -/
def clientStop (t : CheckerTask) (source : Nat) : CheckerTask :=
  let t := t.queuedBy source ((t.connector_.command .stop).stop source)
  { t with conn_ := t.conn_.map Conn.shutdown }

/-- `start()` with `client_->connect()`. -/
def start (t : CheckerTask) (savedErrno : Errno) : CheckerTask :=
  if t.is_probing_ then t
  else
    let probe := t.probe + 1
    let t := { t with is_probing_ := true, has_determined_ := false, probe }
    let t := t.queuedBy probe ((t.connector_.command .start).start (some probe) savedErrno)
    { t with timerId_ := some probe, timers := t.timers ++ [probe] }

def onTimeout (t : CheckerTask) (source : Nat) : CheckerTask :=
  if t.has_determined_ then t
  else
    let t := { t with has_determined_ := true }.updateStatus source false
    (t.clientStop source).endProbe source

def onDisconnected (t : CheckerTask) (source : Nat) : CheckerTask := (t.cancel source).endProbe source

/-- `TcpClient::newConnection`, and the branch of `onConnection` for a connection that is up.
`forceClose()` comes back through `onConnection` and `removeConnection`; after that the client
refers to the closed connection. -/
def newConnection (t : CheckerTask) (source : Nat) : CheckerTask :=
  let t := t.cancel source
  if t.has_determined_ then { t with conn_ := some ⟨source, .kConnected⟩ }
  else
    let t := { t with has_determined_ := true }.updateStatus source true
    let t := { t.onDisconnected source with conn_ := none }
    { t.endProbe source with conn_ := some ⟨source, .kDisconnected⟩ }

def onError (t : CheckerTask) (source : Nat) (saveError : Errno) : CheckerTask :=
  if t.has_determined_ then t
  else
    let t := { t with has_determined_ := true }
    if saveError = .EAGAIN ∨ saveError = EMFILE then t.endProbe source
    else (((t.cancel source).updateStatus source false).clientStop source).endProbe source

/-- A functor that an event of `source` queued, with the attempt that a stop drops. -/
def runFunctor (t : CheckerTask) (functor : Functor) (source : Nat) (savedErrno : Errno) :
    CheckerTask :=
  let dropped := t.connector_.channel_.bind (·.start)
  let t := t.queuedBy source (functor.run t.connector_ savedErrno)
  match functor with
  | .errorCallback saveError => t.onError source saveError
  | .stopInLoop _ => { t with log := dropped.toList.map (.torn · source) ++ t.log }
  | _ => t

/-- An event on the channel of the attempt of `source`. -/
def handleEvent (t : CheckerTask) (channel : Connector.Channel) (source : Nat)
    (error write : Option Errno) : CheckerTask :=
  let (k, handed) := t.connector_.handleEvent channel error write
  let t := t.queuedBy source k
  if handed.isSome then t.newConnection source else t

-- ---------------------------------------------------------------------------
-- Runs
-- ---------------------------------------------------------------------------

/-- `savedErrno` is what `::connect` says. -/
inductive Event
  | start (savedErrno : Errno)
  | timer (probe : Nat)
  | functor
  | handleEvent (error write : Option Errno)
  /-- The connection of the client is closed from the other side. -/
  | peerClose
  deriving DecidableEq

def step (t : CheckerTask) : Event → Option CheckerTask
  | .start savedErrno => some (t.start savedErrno)
  | .timer probe =>
    if probe ∈ t.timers then some ({ t with timers := t.timers.erase probe }.onTimeout probe)
    else none
  | .functor => match t.connector_.pendingFunctors_, t.origins with
    | functor :: functors, source :: origins =>
      let t := { t with connector_ := { t.connector_ with pendingFunctors_ := functors }, origins }
      some (t.runFunctor functor source .zero)
    | _, _ => none
  | .handleEvent error write => do
    let channel ← t.connector_.channel_
    let source ← channel.start
    if channel.fd ∈ t.connector_.registered then some (t.handleEvent channel source error write)
    else none
  | .peerClose => do
    let conn ← t.conn_
    if conn.state_ = .kConnected ∨ conn.state_ = .kDisconnecting then
      some { t.onDisconnected conn.source with conn_ := none }
    else none

-- ---------------------------------------------------------------------------
-- Verdicts
-- ---------------------------------------------------------------------------

def Effect.own : Effect → Bool
  | .updated probe source _ => probe = source
  | .cancelled probe source => probe = source
  | .ended probe source => probe = source
  | .torn probe source => probe = source

def Effect.verdict : Effect → Option Nat
  | .updated probe _ _ => some probe
  | _ => none

/-- The probes that got a verdict, one for each call of `updateStatus`. -/
def verdicts (t : CheckerTask) : List Nat := t.log.filterMap Effect.verdict

/-- Each probe gets one verdict at most; its own events decide and end it. -/
structure Probed (t : CheckerTask) : Prop where
  own : ∀ e ∈ t.log, e.own = true
  once : t.verdicts.Nodup

/-- A `start()` that begins a probe finds no timer of an earlier one, and neither a stop nor an
error of an earlier one in the queue. -/
def StartsClean (t : CheckerTask) : Event → Prop
  | .start _ => t.is_probing_ = true ∨
      t.timers = [] ∧ ∀ functor ∈ t.connector_.pendingFunctors_, functor = .release
  | _ => True

instance (t : CheckerTask) : DecidablePred (StartsClean t)
  | .start _ => inferInstanceAs (Decidable (_ ∨ _))
  | .timer _ | .functor | .handleEvent _ _ | .peerClose => .isTrue trivial

-- ---------------------------------------------------------------------------
-- The connector of a health check
-- ---------------------------------------------------------------------------

structure Reporting (k : Connector) : Prop where
  retry : k.retry_ = false
  error : k.errorCallback_ = true
  new : k.newConnectionCallback_ = true

variable {k : Connector} {channel : Connector.Channel} {p source : Nat} {savedErrno : Errno}

theorem Reporting.retried (h : Reporting k) (fd : Nat) (e : Errno) :
    Reporting (k.retry fd e) ∧ (k.retry fd e).connect_ = k.connect_ ∧
      (k.retry fd e).channel_ = none ∧ (k.retry fd e).state_ = .kDisconnected ∧
      ∃ functors, (k.retry fd e).pendingFunctors_ = k.pendingFunctors_ ++ functors ∧
        ∀ f ∈ functors, f = .release ∨ f = .errorCallback e := by
  obtain ⟨hr, he, hn⟩ := h
  cases hch : k.channel_ with
  | none =>
    simp only [Connector.retry, hch, Connector.close, hr, he, Bool.and_false, Bool.false_eq_true,
      if_false, Bool.not_false, Bool.and_true, if_true, Connector.queueInLoop]
    exact ⟨⟨rfl, rfl, hn⟩, trivial, trivial, trivial, [.errorCallback e], rfl, by simp⟩
  | some channel =>
    simp only [Connector.retry, hch, Connector.close, Connector.dropChannel, hr, he, Bool.and_false,
      Bool.false_eq_true, if_false, Bool.not_false, Bool.and_true, if_true, Connector.queueInLoop]
    exact ⟨⟨rfl, rfl, hn⟩, trivial, trivial, trivial, [.release, .errorCallback e], by simp,
      by simp⟩

/-- What a `start()` without an older attempt comes to: an attempt, an error, or nothing. -/
theorem Reporting.started (h : Reporting k) (hch : k.channel_ = none) (p : Nat)
    (savedErrno : Errno) :
    Reporting (k.start (some p) savedErrno) ∧
      ((∃ fd, (k.start (some p) savedErrno).channel_ = some ⟨fd, some p⟩) ∧
          (k.start (some p) savedErrno).pendingFunctors_ = k.pendingFunctors_ ∨
        (k.start (some p) savedErrno).channel_ = none ∧
          ∃ functors, (k.start (some p) savedErrno).pendingFunctors_ =
            k.pendingFunctors_ ++ functors ∧
            ∀ f ∈ functors, f = .release ∨ f = .errorCallback savedErrno) := by
  have hcreated : Reporting ({ k with connect_ := true }.createNonblocking) :=
    ⟨h.retry, h.error, h.new⟩
  simp only [Connector.start, Connector.startInLoop, if_true]
  cases savedErrno
  case EAGAIN | ECONNREFUSED | ENETUNREACH =>
    obtain ⟨hk, -, hnone, -, hq⟩ := hcreated.retried k.sockets _
    exact ⟨hk, .inr ⟨hnone, hq⟩⟩
  case other => exact ⟨⟨h.retry, h.error, h.new⟩, .inr ⟨hch, [], by simp [Connector.connect,
    Connector.close, Connector.createNonblocking], nofun⟩⟩
  all_goals
    simp only [Connector.connect, Connector.connecting, Connector.createNonblocking, hch]
    exact ⟨⟨h.retry, h.error, h.new⟩, .inl ⟨⟨_, rfl⟩, trivial⟩⟩

theorem Reporting.handled (h : Reporting k) (channel : Connector.Channel)
    (error write : Option Errno) (heq : k.handleEvent channel error write = (k', handed)) :
    Reporting k' ∧ k'.connect_ = k.connect_ ∧
      (handed = none ∧ k'.channel_ = k.channel_ ∧ k'.pendingFunctors_ = k.pendingFunctors_ ∨
        handed = none ∧ k'.channel_ = none ∧ (∃ functors,
          k'.pendingFunctors_ = k.pendingFunctors_ ++ functors ∧
          ∀ f ∈ functors, f = .release ∨ ∃ e, f = .errorCallback e) ∨
        handed.isSome = true ∧ k.connect_ = true ∧ k'.channel_ = none ∧
          k'.pendingFunctors_ = k.pendingFunctors_ ++ [.release]) := by
  have hretried : ∀ err, (k.retry channel.fd err, none) = (k', handed) →
      Reporting k' ∧ k'.connect_ = k.connect_ ∧ handed = none ∧ k'.channel_ = none ∧
        ∃ functors, k'.pendingFunctors_ = k.pendingFunctors_ ++ functors ∧
          ∀ f ∈ functors, f = .release ∨ ∃ e, f = .errorCallback e := by
    rintro err ⟨⟩
    obtain ⟨hk, hc, hnone, -, functors, hq, hf⟩ := h.retried channel.fd err
    exact ⟨hk, hc, rfl, hnone, functors, hq, fun f hmem => (hf f hmem).imp_right fun e => ⟨_, e⟩⟩
  cases error with
  | some err =>
    have heq : (k.retry channel.fd err, none) = (k', handed) := by
      cases write with
      | none => exact heq
      | some => exact (if_pos (by simp [Connector.handleError, (h.retried _ _).2.2.2.1])).symm.trans heq
    obtain ⟨hk, hc, hretry⟩ := hretried err heq
    exact ⟨hk, hc, .inr (.inl hretry)⟩
  | none => cases write with
    | none =>
      cases heq
      exact ⟨h, rfl, .inl ⟨rfl, rfl, rfl⟩⟩
    | some err =>
      simp only [Connector.handleEvent, Connector.handleWrite] at heq
      split at heq
      · cases heq
        exact ⟨h, rfl, .inl ⟨rfl, rfl, rfl⟩⟩
      · split at heq
        · cases hc : k.connect_ with
          | true =>
            simp only [hc, if_true, Connector.dropChannel, Connector.queueInLoop, h.new] at heq
            cases heq
            exact ⟨⟨h.retry, h.error, rfl⟩, rfl, .inr (.inr ⟨rfl, rfl, rfl, rfl⟩)⟩
          | false =>
            simp only [hc, Bool.false_eq_true, if_false, Connector.close] at heq
            cases heq
            exact ⟨⟨h.retry, h.error, h.new⟩, rfl, .inl ⟨rfl, rfl, rfl⟩⟩
        · obtain ⟨hk, hc, hretry⟩ := hretried err heq
          exact ⟨hk, hc, .inr (.inl hretry)⟩

-- ---------------------------------------------------------------------------
-- Verdicts of the last probe
-- ---------------------------------------------------------------------------

variable {t t' : CheckerTask} {success : Bool}

structure Fair (t : CheckerTask) : Prop where
  own : ∀ e ∈ t.log, e.own = true
  once : t.verdicts.Nodup
  past : ∀ q ∈ t.verdicts, q ≤ t.probe
  fresh : t.has_determined_ = false → t.probe ∉ t.verdicts

theorem Fair.congr (h : Fair t) (hl : t'.log = t.log) (hp : t'.probe = t.probe)
    (hd : t'.has_determined_ = false → t.has_determined_ = false) : Fair t' := by
  obtain ⟨hown, honce, hpast, hfresh⟩ := h
  simp only [verdicts] at honce hpast hfresh
  constructor
  · rwa [hl]
  · rwa [verdicts, hl]
  · rwa [verdicts, hl, hp]
  · intro h
    rw [verdicts, hl, hp]
    exact hfresh (hd h)

theorem Fair.effect (h : Fair t) {e : Effect} (hown : e.own = true) (hv : e.verdict = none) :
    Fair { t with log := e :: t.log } := by
  have hverdicts : verdicts { t with log := e :: t.log } = t.verdicts := by
    simp [verdicts, hv]
  constructor
  · exact List.forall_mem_cons.mpr ⟨hown, h.own⟩
  · rw [hverdicts]
    exact h.once
  · rw [hverdicts]
    exact h.past
  · rw [hverdicts]
    exact h.fresh

theorem Fair.update (h : Fair t) (hs : source = t.probe) (hd : t.has_determined_ = true)
    (hfresh : t.probe ∉ t.verdicts) : Fair (t.updateStatus source success) := by
  have hverdicts : (t.updateStatus source success).verdicts = t.probe :: t.verdicts := rfl
  constructor
  · exact List.forall_mem_cons.mpr ⟨decide_eq_true hs.symm, h.own⟩
  · rw [hverdicts]
    exact List.nodup_cons.mpr ⟨hfresh, h.once⟩
  · rw [hverdicts]
    exact List.forall_mem_cons.mpr ⟨Nat.le_refl _, h.past⟩
  · intro h
    exact Bool.noConfusion (hd.symm.trans h)

theorem cancel_eq (t : CheckerTask) (source : Nat) :
    ∃ timers log, t.cancel source = { t with timers, log } ∧ (∀ p ∈ timers, p ∈ t.timers) ∧
      (log = t.log ∨ ∃ timer ∈ t.timerId_, log = .cancelled timer source :: t.log) := by
  unfold cancel
  split
  · rename_i timer hid
    split
    · exact ⟨_, _, rfl, fun p hp => (List.mem_filter.mp hp).1, .inr ⟨timer, hid, rfl⟩⟩
    · exact ⟨_, _, rfl, fun p hp => hp, .inl rfl⟩
  · exact ⟨_, _, rfl, fun p hp => hp, .inl rfl⟩

@[simp] theorem cancel_connector : (t.cancel source).connector_ = t.connector_ := by
  obtain ⟨timers, log, heq, -⟩ := cancel_eq t source
  rw [heq]

@[simp] theorem cancel_probe : (t.cancel source).probe = t.probe := by
  obtain ⟨timers, log, heq, -⟩ := cancel_eq t source
  rw [heq]

@[simp] theorem cancel_timerId : (t.cancel source).timerId_ = t.timerId_ := by
  obtain ⟨timers, log, heq, -⟩ := cancel_eq t source
  rw [heq]

@[simp] theorem cancel_determined : (t.cancel source).has_determined_ = t.has_determined_ := by
  obtain ⟨timers, log, heq, -⟩ := cancel_eq t source
  rw [heq]

theorem Fair.cancel (h : Fair t) (hid : ∀ timer ∈ t.timerId_, timer = source) :
    Fair (t.cancel source) ∧ (t.cancel source).verdicts = t.verdicts := by
  obtain ⟨timers, log, heq, -, hlog⟩ := cancel_eq t source
  rw [heq]
  rcases hlog with rfl | ⟨timer, hmem, rfl⟩
  · exact ⟨h.congr rfl rfl id, rfl⟩
  · have hown : Effect.own (.cancelled timer source) = true := decide_eq_true (hid timer hmem)
    exact ⟨(h.effect hown rfl).congr rfl rfl id, rfl⟩

theorem endProbe_eq (t : CheckerTask) (source : Nat) :
    ∃ log, t.endProbe source = { t with is_probing_ := false, log } ∧
      (log = t.log ∨ log = .ended t.probe source :: t.log) := by
  unfold endProbe
  split
  · exact ⟨_, rfl, .inr rfl⟩
  · rename_i h
    refine ⟨t.log, ?_, .inl rfl⟩
    rw [← Bool.eq_false_iff.mpr h]

@[simp] theorem endProbe_connector : (t.endProbe source).connector_ = t.connector_ := by
  obtain ⟨log, heq, -⟩ := endProbe_eq t source
  rw [heq]

@[simp] theorem endProbe_probe : (t.endProbe source).probe = t.probe := by
  obtain ⟨log, heq, -⟩ := endProbe_eq t source
  rw [heq]

theorem Fair.endProbe (h : Fair t) (hs : source = t.probe) : Fair (t.endProbe source) := by
  obtain ⟨log, heq, hlog⟩ := endProbe_eq t source
  rw [heq]
  rcases hlog with rfl | rfl
  · exact h.congr rfl rfl id
  · have hown : Effect.own (.ended t.probe source) = true := decide_eq_true hs.symm
    exact (h.effect hown rfl).congr rfl rfl id

-- ---------------------------------------------------------------------------
-- Timers and functors of the last probe
-- ---------------------------------------------------------------------------

def Due (probe : Nat) : Functor → Nat → Prop
  | .release, _ => True
  | .startInLoop _, _ => False
  | _, source => source = probe

structure Held (t : CheckerTask) : Prop where
  connector : Reporting t.connector_
  queue : List.Forall₂ (Due t.probe) t.connector_.pendingFunctors_ t.origins
  timers : ∀ p ∈ t.timers, p = t.probe
  timerId : ∀ timer ∈ t.timerId_, timer = t.probe
  channel : ∀ channel ∈ t.connector_.channel_, channel.start = some t.probe
  failed : ∀ e, .errorCallback e ∈ t.connector_.pendingFunctors_ → t.connector_.channel_ = none
  closed : ∀ conn ∈ t.conn_, conn.state_ = .kDisconnected

theorem Held.congr (h : Held t) (hk : t'.connector_ = t.connector_) (hp : t'.probe = t.probe)
    (ho : t'.origins = t.origins) (ht : ∀ p ∈ t'.timers, p ∈ t.timers)
    (hi : t'.timerId_ = t.timerId_) (hc : ∀ conn ∈ t'.conn_, conn.state_ = .kDisconnected) :
    Held t' := by
  obtain ⟨hconnector, hqueue, htimers, htimer, hchannel, hfailed, -⟩ := h
  constructor
  · rwa [hk]
  · rwa [hk, hp, ho]
  · intro p hmem
    rw [hp]
    exact htimers p (ht p hmem)
  · rwa [hi, hp]
  · rwa [hk, hp]
  · rwa [hk]
  · exact hc

theorem Held.cancel (h : Held t) (source : Nat) : Held (t.cancel source) := by
  obtain ⟨timers, log, heq, hsub, -⟩ := cancel_eq t source
  rw [heq]
  exact h.congr rfl rfl rfl hsub rfl h.closed

theorem Held.endProbe (h : Held t) (source : Nat) : Held (t.endProbe source) := by
  obtain ⟨log, heq, -⟩ := endProbe_eq t source
  rw [heq]
  exact h.congr rfl rfl rfl (fun _ hp => hp) rfl h.closed

theorem due_append {functors more : List Functor} {origins : List Nat}
    (h : List.Forall₂ (Due p) functors origins) (hmore : ∀ f ∈ more, Due p f source) :
    List.Forall₂ (Due p) (functors ++ more) (origins ++ List.replicate more.length source) := by
  induction h with
  | nil =>
    induction more with
    | nil => exact .nil
    | cons f more ih =>
      obtain ⟨hf, hmore⟩ := List.forall_mem_cons.mp hmore
      exact .cons hf (ih hmore)
  | cons hd _ ih => exact .cons hd ih

theorem due_release {functors : List Functor} {origins : List Nat}
    (h : List.Forall₂ (Due p) functors origins) (hclean : ∀ f ∈ functors, f = .release) (q : Nat) :
    List.Forall₂ (Due q) functors origins := by
  induction h with
  | nil => exact .nil
  | cons _ _ ih =>
    obtain ⟨hf, hrest⟩ := List.forall_mem_cons.mp hclean
    subst hf
    exact .cons trivial (ih hrest)

theorem Held.queuedBy (h : Held t) {k : Connector} {functors : List Functor}
    (hk : Reporting k) (hq : k.pendingFunctors_ = t.connector_.pendingFunctors_ ++ functors)
    (hdue : ∀ f ∈ functors, Due t.probe f source)
    (hch : ∀ channel ∈ k.channel_, channel.start = some t.probe)
    (hfailed : ∀ e, .errorCallback e ∈ k.pendingFunctors_ → k.channel_ = none) :
    Held (t.queuedBy source k) := by
  have hlen : k.pendingFunctors_.length - t.connector_.pendingFunctors_.length = functors.length := by
    rw [hq, List.length_append, Nat.add_sub_cancel_left]
  refine ⟨hk, ?_, h.timers, h.timerId, hch, hfailed, h.closed⟩
  simp only [CheckerTask.queuedBy, hlen]
  rw [hq]
  exact due_append h.queue hdue

theorem Held.dropped (h : Held t) {k : Connector} {functors : List Functor}
    (hk : Reporting k) (hq : k.pendingFunctors_ = t.connector_.pendingFunctors_ ++ functors)
    (hdue : ∀ f ∈ functors, Due t.probe f source) (hnone : k.channel_ = none) :
    Held (t.queuedBy source k) :=
  h.queuedBy hk hq hdue (by simp [hnone]) fun _ _ => hnone

theorem Held.quiet (h : Held t) {k : Connector} (hk : Reporting k)
    (hq : k.pendingFunctors_ = t.connector_.pendingFunctors_)
    (hch : ∀ channel ∈ k.channel_, channel.start = some t.probe)
    (hfailed : ∀ e, .errorCallback e ∈ k.pendingFunctors_ → k.channel_ = none) :
    Held (t.queuedBy source k) :=
  h.queuedBy hk (hq.trans (List.append_nil _).symm) nofun hch hfailed

-- ---------------------------------------------------------------------------
-- Handlers
-- ---------------------------------------------------------------------------

/-- An attempt is of a probe under way, or a stop is queued for it; while it is wanted its probe
is not determined. -/
structure Sound (t : CheckerTask) : Prop where
  fair : Fair t
  held : Held t
  stopping : t.connector_.channel_ ≠ none →
    t.is_probing_ = true ∨ ∃ stop, .stopInLoop stop ∈ t.connector_.pendingFunctors_
  undecided : t.connector_.channel_ ≠ none → t.connector_.connect_ = true →
    t.has_determined_ = false

theorem Sound.idle (hf : Fair t) (hh : Held t) (hnone : t.connector_.channel_ = none) : Sound t :=
  ⟨hf, hh, fun h => absurd hnone h, fun h => absurd hnone h⟩

theorem Sound.stopped (hf : Fair t) (hh : Held t) (hs : source = t.probe) :
    Sound ((t.clientStop source).endProbe source) := by
  have hstop : Fair (t.clientStop source) := hf.congr rfl rfl id
  have hqueued : Held (t.queuedBy source ((t.connector_.command .stop).stop source)) :=
    hh.queuedBy ⟨hh.connector.retry, hh.connector.error, hh.connector.new⟩ rfl (by simp [Due, hs])
      hh.channel fun e hmem => hh.failed e ((List.mem_append.mp hmem).resolve_right (by simp))
  have hheld : Held (t.clientStop source) := by
    refine hqueued.congr rfl rfl rfl (fun _ hp => hp) rfl fun conn hmem => ?_
    obtain ⟨old, hold, rfl⟩ := Option.map_eq_some_iff.mp hmem
    rw [Conn.shutdown, if_neg (by simp [hh.closed old hold])]
    exact hh.closed old hold
  have hlast : .stopInLoop source ∈ (t.clientStop source).connector_.pendingFunctors_ :=
    List.mem_append_right _ List.mem_cons_self
  have hoff : (t.clientStop source).connector_.connect_ = false := rfl
  constructor
  · exact hstop.endProbe hs
  · exact hheld.endProbe source
  · intro
    rw [endProbe_connector]
    exact .inr ⟨_, hlast⟩
  · intro _ hc
    rw [endProbe_connector] at hc
    exact Bool.noConfusion (hoff.symm.trans hc)

theorem Fair.determined (h : Fair t) : Fair { t with has_determined_ := true } :=
  h.congr rfl rfl nofun

theorem Held.determined (h : Held t) : Held { t with has_determined_ := true } :=
  h.congr rfl rfl rfl (fun _ hp => hp) rfl h.closed

theorem Held.update (h : Held t) : Held (t.updateStatus source success) :=
  h.congr rfl rfl rfl (fun _ hp => hp) rfl h.closed

theorem Sound.onTimeout (h : Sound t) (hs : source = t.probe) : Sound (t.onTimeout source) := by
  unfold CheckerTask.onTimeout
  split
  · exact h
  · rename_i hd
    have hfresh := h.fair.fresh (Bool.eq_false_iff.mpr hd)
    exact Sound.stopped (h.fair.determined.update hs rfl hfresh) h.held.determined.update hs

theorem Sound.onError (h : Sound t) (hnone : t.connector_.channel_ = none) (hs : source = t.probe)
    (saveError : Errno) : Sound (t.onError source saveError) := by
  unfold CheckerTask.onError
  split
  · exact h
  · rename_i hd
    have hfresh := h.fair.fresh (Bool.eq_false_iff.mpr hd)
    dsimp only
    split
    · exact Sound.idle (h.fair.determined.endProbe hs) (h.held.determined.endProbe source)
        (by simpa using hnone)
    · have hid : ∀ timer ∈ t.timerId_, timer = source := fun timer hmem =>
        (h.held.timerId timer hmem).trans hs.symm
      obtain ⟨hcancel, hverdicts⟩ := h.fair.determined.cancel hid
      refine Sound.stopped (hcancel.update ?_ ?_ ?_) (h.held.determined.cancel source).update ?_
      · simpa using hs
      · simp
      · rw [hverdicts, cancel_probe]
        exact hfresh
      · simpa [CheckerTask.updateStatus] using hs

theorem Sound.newConnection (h : Sound t) (hnone : t.connector_.channel_ = none)
    (hd : t.has_determined_ = false) (hs : source = t.probe) : Sound (t.newConnection source) := by
  have hid : ∀ timer ∈ t.timerId_, timer = source := fun timer hmem =>
    (h.held.timerId timer hmem).trans hs.symm
  obtain ⟨hcancel, hverdicts⟩ := h.fair.cancel hid
  obtain ⟨up, heq⟩ : ∃ up : CheckerTask,
      up = { t.cancel source with has_determined_ := true }.updateStatus source true := ⟨_, rfl⟩
  have hup : Fair up := by
    rw [heq]
    refine hcancel.determined.update (by simpa using hs) rfl ?_
    show (t.cancel source).probe ∉ (t.cancel source).verdicts
    rw [hverdicts, cancel_probe]
    exact h.fair.fresh hd
  have hheld : Held up := heq ▸ (h.held.cancel source).determined.update
  have hprobe : source = up.probe := by simpa [heq, CheckerTask.updateStatus] using hs
  have htimer : up.timerId_ = t.timerId_ := by simp [heq, CheckerTask.updateStatus]
  have hchannel : up.connector_.channel_ = none := by simpa [heq, CheckerTask.updateStatus] using hnone
  have hdown : Fair (up.onDisconnected source) :=
    ((hup.cancel (htimer ▸ hid)).1).endProbe (by simpa using hprobe)
  have hdown' : Held (up.onDisconnected source) := (hheld.cancel source).endProbe source
  have hgone : Fair ({ up.onDisconnected source with conn_ := none }.endProbe source) := by
    refine Fair.endProbe (hdown.congr rfl rfl id) ?_
    simpa [CheckerTask.onDisconnected] using hprobe
  have hcleared : Held { up.onDisconnected source with conn_ := none } :=
    hdown'.congr rfl rfl rfl (fun _ hp => hp) rfl (by simp)
  have hgone' := hcleared.endProbe source
  simp only [CheckerTask.newConnection, cancel_determined, hd, Bool.false_eq_true, if_false, ← heq]
  refine Sound.idle (hgone.congr rfl rfl id)
    (hgone'.congr rfl rfl rfl (fun _ hp => hp) rfl (by simp)) ?_
  simpa [CheckerTask.onDisconnected] using hchannel

-- ---------------------------------------------------------------------------
-- Runs
-- ---------------------------------------------------------------------------

theorem Sound.start (h : Sound t) (hc : StartsClean t (.start savedErrno)) :
    Sound (t.start savedErrno) := by
  unfold CheckerTask.start
  split
  · exact h
  · rename_i hp
    obtain ⟨htimers, hclean⟩ := hc.resolve_left hp
    have hnone : t.connector_.channel_ = none := by
      by_contra hsome
      obtain ⟨stop, hmem⟩ := (h.stopping hsome).resolve_left hp
      exact nomatch hclean _ hmem
    obtain ⟨begun, hbegun⟩ : ∃ begun : CheckerTask, begun = { t with
        is_probing_ := true, has_determined_ := false, probe := t.probe + 1
        timerId_ := some (t.probe + 1), timers := t.timers ++ [t.probe + 1] } := ⟨_, rfl⟩
    have hheld : Held begun := by
      subst hbegun
      refine ⟨h.held.connector, due_release h.held.queue hclean _, ?_, ?_, ?_, ?_, h.held.closed⟩
      · simp [htimers]
      · simp
      · simp [hnone]
      · exact fun _ _ => hnone
    have hfair : Fair begun := by
      subst hbegun
      refine ⟨h.fair.own, h.fair.once, fun q hq => Nat.le_succ_of_le (h.fair.past q hq), ?_⟩
      exact fun _ hmem => absurd (h.fair.past _ hmem) (Nat.not_succ_le_self _)
    have hreport : Reporting (t.connector_.command .start) :=
      ⟨h.held.connector.retry, h.held.connector.error, h.held.connector.new⟩
    obtain ⟨hk, hcases⟩ := hreport.started hnone (t.probe + 1) savedErrno
    have hqueued : Held (begun.queuedBy (t.probe + 1)
        ((t.connector_.command .start).start (some (t.probe + 1)) savedErrno)) := by
      have hprobe : begun.probe = t.probe + 1 := by rw [hbegun]
      have hconnector : begun.connector_ = t.connector_ := by rw [hbegun]
      rcases hcases with ⟨⟨fd, hch⟩, hq⟩ | ⟨hnone, functors, hq, hf⟩
      · refine hheld.quiet hk (hq.trans ?_) ?_ ?_
        · rw [hconnector]
          rfl
        · rintro channel hmem
          obtain rfl := Option.some.inj (hch.symm.trans hmem)
          rw [hprobe]
        · intro e hmem
          rw [hq] at hmem
          exact nomatch hclean _ hmem
      · refine hheld.dropped hk (hq.trans (by rw [hconnector]; rfl)) (fun f hmem => ?_) hnone
        rcases hf f hmem with rfl | rfl
        · trivial
        · exact hprobe.symm
    subst hbegun
    exact ⟨hfair.congr rfl rfl id, hqueued.congr rfl rfl rfl (fun _ hp => hp) rfl h.held.closed,
      fun _ => .inl rfl, fun _ _ => rfl⟩

theorem Held.popped (h : Held t) {functor : Functor} {functors : List Functor} {origins : List Nat}
    (hq : t.connector_.pendingFunctors_ = functor :: functors) (ho : t.origins = source :: origins) :
    Due t.probe functor source ∧ Held { t with
      connector_ := { t.connector_ with pendingFunctors_ := functors }, origins } := by
  have hqueue := h.queue
  rw [hq, ho] at hqueue
  obtain ⟨hdue, hrest⟩ := List.forall₂_cons.mp hqueue
  refine ⟨hdue, ⟨h.connector.retry, h.connector.error, h.connector.new⟩, hrest, h.timers, h.timerId,
    h.channel, fun e hmem => h.failed e ?_, h.closed⟩
  rw [hq]
  exact List.mem_cons_of_mem _ hmem

theorem Reporting.torn (h : Reporting k) (stop : Nat) :
    Reporting (k.stopInLoop stop) ∧ (k.stopInLoop stop).channel_ = none ∧
      (k.stopInLoop stop).pendingFunctors_ = k.pendingFunctors_ := by
  cases hch : k.channel_ with
  | none =>
    rw [Connector.stopInLoop_none stop hch]
    exact ⟨⟨h.retry, h.error, h.new⟩, hch, rfl⟩
  | some channel =>
    rw [Connector.stopInLoop_some stop hch]
    exact ⟨⟨h.retry, h.error, h.new⟩, rfl, rfl⟩

theorem Sound.functor (h : Sound t) {functor : Functor} {functors : List Functor}
    {origins : List Nat} (hq : t.connector_.pendingFunctors_ = functor :: functors)
    (ho : t.origins = source :: origins) :
    Sound (runFunctor { t with
      connector_ := { t.connector_ with pendingFunctors_ := functors }, origins }
      functor source .zero) := by
  obtain ⟨hdue, hheld⟩ := h.held.popped hq ho
  obtain ⟨rest, hrest⟩ : ∃ rest : CheckerTask, rest = { t with
      connector_ := { t.connector_ with pendingFunctors_ := functors }, origins } := ⟨_, rfl⟩
  rw [← hrest] at hheld ⊢
  have hfair : Fair rest := hrest ▸ h.fair.congr rfl rfl id
  have hsame : Held (rest.queuedBy source rest.connector_) :=
    hheld.queuedBy hheld.connector (List.append_nil _).symm nofun hheld.channel hheld.failed
  cases functor with
  | startInLoop => exact hdue.elim
  | release =>
    refine ⟨hfair.congr rfl rfl id, hsame, fun hsome => ?_, ?_⟩
    · subst hrest
      refine (h.stopping hsome).imp_right fun ⟨stop, hmem⟩ => ⟨stop, ?_⟩
      rw [hq] at hmem
      exact (List.mem_cons.mp hmem).resolve_left nofun
    · subst hrest
      exact h.undecided
  | stopInLoop stop =>
    obtain ⟨hk, hnone, hsameq⟩ := hheld.connector.torn stop
    have hdropped : Held (rest.queuedBy source (rest.connector_.stopInLoop stop)) :=
      hheld.quiet hk hsameq (by simp [hnone]) fun _ _ => hnone
    refine Sound.idle ?_ (hdropped.congr rfl rfl rfl (fun _ hp => hp) rfl hheld.closed) hnone
    have hsource : source = rest.probe := by
      subst hrest
      exact hdue
    have hqueued : Fair (rest.queuedBy source (rest.connector_.stopInLoop stop)) :=
      hfair.congr rfl rfl id
    simp only [runFunctor, Functor.run]
    cases hch : rest.connector_.channel_ with
    | none => exact hqueued
    | some channel =>
      rw [Option.bind_some, hheld.channel channel hch]
      exact hqueued.effect (decide_eq_true hsource.symm) rfl
  | errorCallback saveError =>
    have hnone : rest.connector_.channel_ = none := by
      subst hrest
      exact h.held.failed saveError (by simp [hq])
    have hidle : Sound (rest.queuedBy source rest.connector_) :=
      Sound.idle (hfair.congr rfl rfl id) hsame hnone
    refine hidle.onError hnone ?_ saveError
    subst hrest
    exact hdue

theorem Sound.handleEvent (h : Sound t) (hch : t.connector_.channel_ = some channel)
    (hs : channel.start = some source) (error write : Option Errno) :
    Sound (t.handleEvent channel source error write) := by
  have hsource : source = t.probe :=
    Option.some.inj (hs.symm.trans (h.held.channel channel hch))
  simp only [CheckerTask.handleEvent]
  cases heq : t.connector_.handleEvent channel error write with
  | mk k handed =>
    obtain ⟨hk, hconnect, hcases⟩ := h.held.connector.handled channel error write heq
    rcases hcases with ⟨rfl, hsame, hq⟩ | ⟨rfl, hnone, functors, hq, hf⟩ | ⟨hhanded, hc, hnone, hq⟩
    · have hheld : Held (t.queuedBy source k) :=
        h.held.quiet hk hq (hsame ▸ h.held.channel) (by rw [hq, hsame]; exact h.held.failed)
      show Sound (t.queuedBy source k)
      refine ⟨h.fair.congr rfl rfl id, hheld, fun hsome => ?_, fun hsome hc => ?_⟩
      · simp only [queuedBy, hq]
        exact h.stopping (hsame ▸ hsome)
      · exact h.undecided (hsame ▸ hsome) (hconnect ▸ hc)
    · refine Sound.idle (h.fair.congr rfl rfl id) (h.held.dropped hk hq (fun f hmem => ?_) hnone) hnone
      rcases hf f hmem with rfl | ⟨e, rfl⟩
      · trivial
      · exact hsource
    · have hidle : Sound (t.queuedBy source k) :=
        Sound.idle (h.fair.congr rfl rfl id) (h.held.dropped hk hq (by simp [Due]) hnone) hnone
      rw [if_pos hhanded]
      exact hidle.newConnection hnone (h.undecided (by simp [hch]) hc) hsource

theorem Sound.step (h : Sound t) (hc : StartsClean t e) (hs : step t e = some t') : Sound t' := by
  cases e with
  | start savedErrno =>
    cases hs
    exact h.start hc
  | timer probe =>
    simp only [CheckerTask.step, Option.ite_none_right_eq_some, Option.some.injEq] at hs
    obtain ⟨hmem, rfl⟩ := hs
    have hrest : Sound { t with timers := t.timers.erase probe } :=
      ⟨h.fair.congr rfl rfl id, h.held.congr rfl rfl rfl (fun _ hp => List.mem_of_mem_erase hp) rfl
        h.held.closed, h.stopping, h.undecided⟩
    exact hrest.onTimeout (h.held.timers probe hmem)
  | functor =>
    simp only [CheckerTask.step] at hs
    split at hs
    · rename_i functor functors source origins hq ho
      cases hs
      exact h.functor hq ho
    · cases hs
  | handleEvent error write =>
    simp only [CheckerTask.step, Option.bind_eq_bind, Option.bind_eq_some_iff,
      Option.ite_none_right_eq_some, Option.some.injEq] at hs
    obtain ⟨channel, hch, source, hsource, -, rfl⟩ := hs
    exact h.handleEvent hch hsource error write
  | peerClose =>
    simp only [CheckerTask.step, Option.bind_eq_bind, Option.bind_eq_some_iff,
      Option.ite_none_right_eq_some] at hs
    obtain ⟨conn, hconn, hopen, -⟩ := hs
    simp [h.held.closed conn hconn] at hopen

theorem sound_init : Sound {} := by
  refine Sound.idle ⟨nofun, List.nodup_nil, nofun, fun _ => nofun⟩ ?_ rfl
  exact ⟨⟨rfl, rfl, rfl⟩, .nil, nofun, nofun, nofun, nofun, nofun⟩

/-- As long as probes begin clean, each gets its own verdict, and no more than one. -/
theorem probed_of_clean (h : Reach step StartsClean {} t) : Probed t := by
  have hsound : Sound t := h.invariant sound_init fun _ _ _ hi hc hs => hi.step hc hs
  exact ⟨hsound.fair.own, hsound.fair.once⟩

/-- A success, a timeout and a refusal, one after the other. -/
theorem probed_of_clean_three : ∃ t, exec step StartsClean {}
    [.start .EINPROGRESS, .handleEvent none (some .zero), .functor,
      .start .EINPROGRESS, .timer 2, .functor,
      .start .ECONNREFUSED, .functor, .functor] = some t ∧
    t.verdicts = [3, 2, 1] ∧ t.timers = [] ∧ Probed t := by
  have hrun : (exec step StartsClean {}
      [.start .EINPROGRESS, .handleEvent none (some .zero), .functor,
        .start .EINPROGRESS, .timer 2, .functor,
        .start .ECONNREFUSED, .functor, .functor]).any
      (fun t => t.verdicts = [3, 2, 1] ∧ t.timers = []) = true := by
    decide
  obtain ⟨t, ht, h⟩ := (Option.any_eq_true _ _).mp hrun
  obtain ⟨hverdicts, htimers⟩ := of_decide_eq_true h
  exact ⟨t, ht, hverdicts, htimers, probed_of_clean (.of_exec ht)⟩

/-- A probe that `EAGAIN` has ended leaves its timer, which decides the next one. -/
theorem not_probed : ¬ ∀ t, Reach step Always {} t → Probed t := by
  intro hall
  have hrun : (exec step Always {}
      [.start .EAGAIN, .functor, .start .EINPROGRESS, .timer 1]).any
      (fun t => .updated 2 1 false ∈ t.log) = true := by
    decide
  obtain ⟨t, ht, h⟩ := (Option.any_eq_true _ _).mp hrun
  exact absurd ((hall t (.of_exec ht)).own _ (of_decide_eq_true h)) (by decide)

end CheckerTask

end VortexNet
