import VortexNet.Lib.Reach

/-!
# The connector

`Connector.cc` on its loop thread, with the timers and the functors that it
leaves behind. A socket is known by the number of `connect()` calls before its
own; `registered` are the sockets whose `Channel` is in the poller.

`commands` and `log` are outside the object: what the user has called, newest
first, and what became of the sockets. A command is known by its place among
the commands, and a timer acts for the last of them.
-/

namespace VortexNet

open Systems (Reach Always exec)

namespace Connector

inductive StateE
  | kDisconnected
  | kConnected
  | kConnecting
  deriving DecidableEq

inductive Errno
  | zero
  | EINPROGRESS
  | EINTR
  | EISCONN
  | EAGAIN
  | ECONNREFUSED
  | ENETUNREACH
  | other (errno : Nat)
  deriving DecidableEq

/-- The `Channel` of an attempt, and the number of the command that it was begun for. -/
structure Channel where
  fd : Nat
  start : Option Nat
  deriving DecidableEq

inductive Functor
  | startInLoop (start : Nat)
  | stopInLoop (stop : Nat)
  /-- The empty functor that owns a `Channel` until the events are handled. -/
  | release
  | errorCallback (saveError : Errno)
  deriving DecidableEq

def Functor.ownsConnector : Functor → Bool
  | .stopInLoop _ => true
  | _ => false

inductive Timer
  | retry
  | restart
  deriving DecidableEq

inductive Command
  | start
  | stop
  | restart
  deriving DecidableEq

inductive Log
  /-- A new socket, and the user's last command. -/
  | socket (fd : Nat) (last : Option Command)
  | handed (fd : Nat)
  | closed (fd : Nat) (registered : Bool)
  /-- `stopInLoop` of a `stop()` ends an attempt. -/
  | torn (channel : Channel) (stop : Nat)
  deriving DecidableEq

end Connector

structure Connector where
  state_ : Connector.StateE := .kDisconnected
  connect_ : Bool := false
  channel_ : Option Connector.Channel := none
  newConnectionCallback_ : Bool
  errorCallback_ : Bool
  retryDelayMs_ : Nat := 500
  retry_ : Bool
  sockets : Nat := 0
  registered : List Nat := []
  pendingFunctors_ : List Connector.Functor := []
  timers : List (Nat × Connector.Timer) := []
  commands : List Connector.Command := []
  log : List Connector.Log := []
  destroyed : Bool := false
  deriving DecidableEq

namespace Connector

def kInitRetryDelayMs : Nat := 500
def kMaxRetryDelayMs : Nat := 30 * 1000

def close (k : Connector) (fd : Nat) : Connector :=
  { k with log := .closed fd (fd ∈ k.registered) :: k.log }

def queueInLoop (k : Connector) (cb : Functor) : Connector :=
  { k with pendingFunctors_ := k.pendingFunctors_ ++ [cb] }

def runAfter (k : Connector) (delayMs : Nat) (timer : Timer) : Connector :=
  { k with timers := k.timers ++ [(delayMs, timer)] }

/-- `channel_->disableAll()`, `channel_->remove()`, and the member is empty. -/
def dropChannel (k : Connector) (channel : Channel) : Connector :=
  { k with registered := k.registered.filter (· ≠ channel.fd), channel_ := none }

def connecting (k : Connector) (fd : Nat) (start : Option Nat) : Connector :=
  let k := { k with state_ := .kConnecting }
  let k := match k.channel_ with
    | some channel => (k.dropChannel channel).close channel.fd
    | none => k
  { k with channel_ := some ⟨fd, start⟩, registered := fd :: k.registered }

def retry (k : Connector) (sockfd : Nat) (saveError : Errno) : Connector :=
  let k := { k with state_ := .kDisconnected }
  let k := match k.channel_ with
    | some channel => (k.dropChannel channel).queueInLoop .release
    | none => k
  let k := k.close sockfd
  if k.connect_ && k.retry_ then
    { k.runAfter k.retryDelayMs_ .retry with
      retryDelayMs_ := min (2 * k.retryDelayMs_) kMaxRetryDelayMs }
  else if !k.retry_ && k.errorCallback_ then k.queueInLoop (.errorCallback saveError)
  else k

def createNonblocking (k : Connector) : Connector :=
  { k with sockets := k.sockets + 1, log := .socket k.sockets k.commands.head? :: k.log }

def connect (k : Connector) (start : Option Nat) (savedErrno : Errno) : Connector :=
  let sockfd := k.sockets
  let k := k.createNonblocking
  match savedErrno with
  | .zero | .EINPROGRESS | .EINTR | .EISCONN => k.connecting sockfd start
  | .EAGAIN | .ECONNREFUSED | .ENETUNREACH => k.retry sockfd savedErrno
  | .other _ => k.close sockfd

def startInLoop (k : Connector) (start : Option Nat) (savedErrno : Errno) : Connector :=
  if k.connect_ then k.connect start savedErrno else k

/-- `start()` on the loop thread, where `runInLoop` runs `startInLoop` at once. -/
def start (k : Connector) (start : Option Nat) (savedErrno : Errno) : Connector :=
  { k with connect_ := true }.startInLoop start savedErrno

/-- `start()` on another thread. -/
def startFrom (k : Connector) (start : Nat) : Connector :=
  { k with connect_ := true }.queueInLoop (.startInLoop start)

def stop (k : Connector) (stop : Nat) : Connector :=
  { k with connect_ := false }.queueInLoop (.stopInLoop stop)

def stopInLoop (k : Connector) (stop : Nat) : Connector :=
  let k := { k with state_ := .kDisconnected }
  match k.channel_ with
  | some channel => { k.dropChannel channel with log := .torn channel stop :: k.log }
  | none => k

def restart (k : Connector) : Connector :=
  { k with state_ := .kDisconnected, retryDelayMs_ := kInitRetryDelayMs, connect_ := true }.runAfter
    kInitRetryDelayMs .restart

def handleError (k : Connector) (fd : Nat) (err : Errno) : Connector := k.retry fd err

/-- `handleWrite()`, and the socket that it hands to `newConnectionCallback_`. -/
def handleWrite (k : Connector) (channel : Channel) (err : Errno) : Connector × Option Nat :=
  if k.state_ ≠ .kConnecting then (k, none)
  else if err = .zero then
    let k := { k with state_ := .kConnected }
    if k.connect_ then
      let k := (k.dropChannel channel).queueInLoop .release
      if k.newConnectionCallback_ then
        ({ k with log := .handed channel.fd :: k.log }, some channel.fd)
      else (k, none)
    else (k.close channel.fd, none)
  else (k.retry channel.fd err, none)

/-- One call of `handleEvent` on the channel: `EPOLLERR` and `EPOLLOUT`, each with what
`SO_ERROR` says when it is handled. -/
def handleEvent (k : Connector) (channel : Channel) (error write : Option Errno) :
    Connector × Option Nat :=
  let k := match error with
    | some err => k.handleError channel.fd err
    | none => k
  match write with
  | some err => k.handleWrite channel err
  | none => (k, none)

/-- `~Connector`. -/
def destroy (k : Connector) : Connector :=
  match k.channel_ with
  | some channel => { k.dropChannel channel with destroyed := true }
  | none => { k with destroyed := true }

def Functor.run (k : Connector) (savedErrno : Errno) : Functor → Connector
  | .startInLoop start => k.startInLoop (some start) savedErrno
  | .stopInLoop stop => k.stopInLoop stop
  | .release => k
  | .errorCallback _ => k

/-- The number of the last command. -/
def inForce (k : Connector) : Option Nat :=
  match k.commands with
  | [] => none
  | _ :: commands => some commands.length

def Timer.run (k : Connector) (savedErrno : Errno) : Timer → Connector
  | .retry => k.start k.inForce savedErrno
  | .restart => k.startInLoop k.inForce savedErrno

section

variable {k : Connector} {channel : Channel} (stop : Nat)

theorem stopInLoop_none (h : k.channel_ = none) :
    k.stopInLoop stop = { k with state_ := .kDisconnected } := by
  simp only [stopInLoop, h]

theorem stopInLoop_some (h : k.channel_ = some channel) : k.stopInLoop stop =
    { { k with state_ := .kDisconnected }.dropChannel channel with
      log := .torn channel stop :: k.log } := by
  simp only [stopInLoop, h, dropChannel]

theorem destroy_none (h : k.channel_ = none) : k.destroy = { k with destroyed := true } := by
  simp only [destroy, h]

theorem destroy_some (h : k.channel_ = some channel) :
    k.destroy = { k.dropChannel channel with destroyed := true } := by
  simp only [destroy, h]

end

-- ---------------------------------------------------------------------------
-- Runs
-- ---------------------------------------------------------------------------

/-- What the constructor leaves, with the settings of its owner. -/
def fresh (newConnectionCallback errorCallback retry : Bool) : Connector where
  newConnectionCallback_ := newConnectionCallback
  errorCallback_ := errorCallback
  retry_ := retry

/-- `savedErrno` is what `::connect` says if the event comes to it. -/
inductive Event
  | start (savedErrno : Errno)
  | startFrom
  | stop
  | restart
  | functor (savedErrno : Errno)
  | timer (i : Nat) (savedErrno : Errno)
  | handleEvent (error write : Option Errno)
  | destroy
  deriving DecidableEq

def command (k : Connector) (c : Command) : Connector := { k with commands := c :: k.commands }

/-- The events of a connector that has not been destroyed, with the socket handed over. -/
def stepLive (k : Connector) : Event → Option (Connector × Option Nat)
  | .start savedErrno =>
    some ((k.command .start).start (some k.commands.length) savedErrno, none)
  | .startFrom => some ((k.command .start).startFrom k.commands.length, none)
  | .stop => some ((k.command .stop).stop k.commands.length, none)
  | .restart => some ((k.command .restart).restart, none)
  | .functor savedErrno => match k.pendingFunctors_ with
    | [] => none
    | functor :: functors => some (functor.run { k with pendingFunctors_ := functors } savedErrno, none)
  | .timer i savedErrno => match k.timers[i]? with
    | none => none
    | some timer => some (timer.2.run { k with timers := k.timers.eraseIdx i } savedErrno, none)
  | .handleEvent error write => match k.channel_ with
    | none => none
    | some channel =>
      if channel.fd ∈ k.registered then some (k.handleEvent channel error write) else none
  | .destroy =>
    if k.pendingFunctors_.any (·.ownsConnector) then none else some (k.destroy, none)

def step (k : Connector) (e : Event) : Option Connector :=
  if k.destroyed then none else (k.stepLive e).map Prod.fst

end Connector

end VortexNet
