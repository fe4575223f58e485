import VortexNet.Net.EPollPoller
import VortexNet.Net.Lifecycle

/-!
# A connection of a server, seen alone

`TcpConnection.cc` as a `TcpServer` uses it: the object with its channel, and
what outside of it keeps it alive and still calls it. That is the server's map,
the `removeConnection` functors on the way to the base loop, and the functors
queued on the connection's own loop. Some of these capture a
`TcpConnectionPtr`, and others only `this`.

What a handler asks of the server and of the loop is returned beside the new
object, in the order of the source. The calls of a user's callback are steps of
their own.
-/

namespace VortexNet

open Systems (Reach Always exec)
open TcpConnection (Lifecycle Call Revents)

namespace TcpServer

open EPollPoller (Events Index kNoneEvent kReadEvent kWriteEvent nextIndex nextIndex_ne_new)

-- ---------------------------------------------------------------------------
-- The object
-- ---------------------------------------------------------------------------

inductive Job
  | connectEstablished
  | connectDestroyed
  | forceCloseInLoop
  | sendInLoop
  | shutdownInLoop
  | writeCompleteCallback_
  | highWaterMarkCallback_
  deriving DecidableEq

/-- The lambda captures a `TcpConnectionPtr`, and not only `this`. -/
def Job.owns : Job → Bool
  | .connectEstablished | .connectDestroyed | .forceCloseInLoop | .sendInLoop => true
  | .shutdownInLoop | .writeCompleteCallback_ | .highWaterMarkCallback_ => false

inductive Effect
  | closeCallback_
  | queueInLoop (job : Job)
  deriving DecidableEq

/-- `queueing` are calls on other threads that have set `state_` and have yet to queue their functor,
`sending` those of `send` that have found `kConnected`. -/
structure Conn where
  life : Lifecycle := {}
  events_ : Events := kNoneEvent
  index_ : Index := .kNew
  writeCompleteCallback_ : Bool := true
  queueing : List Call := []
  sending : Nat := 0
  deriving DecidableEq

/-- What `::write` leaves of the data: nothing, a rest, which may reach the high-water mark, or
nothing that can be sent. -/
inductive Write
  | all
  | rest (high : Bool)
  | fault
  deriving DecidableEq

inductive Input
  | bytes
  | eof
  | error
  deriving DecidableEq

/-- The callbacks that `handleEventWithGuard` makes. The one for errors only logs. -/
inductive Part
  | closeCallback_
  | readCallback_
  | writeCallback_
  deriving DecidableEq

def handleEventWithGuard (revents_ : Revents) : List Part :=
  (if revents_.EPOLLHUP && !revents_.EPOLLIN then [.closeCallback_] else []) ++
    (if revents_.EPOLLIN || revents_.EPOLLPRI then [.readCallback_] else []) ++
    (if revents_.EPOLLOUT then [.writeCallback_] else [])

namespace Conn

def update (c : Conn) (call : EPollPoller.Call) : Conn :=
  { c with
    events_ := call.events c.events_
    index_ := nextIndex c.index_ (call.events c.events_) }

def IsWriteEnabled (c : Conn) : Bool := c.events_ &&& kWriteEvent ≠ 0

def setState (c : Conn) (state_ : TcpConnection.StateE) : Conn :=
  { c with life := { c.life with state_ } }

def sendInLoop (c : Conn) (w : Write) : Conn × List Effect :=
  if c.life.state_ = .kDisconnected then (c, [])
  else match w with
  | .all =>
    -- With writing enabled nothing is written, so only no data at all leaves no rest.
    (c, if !c.IsWriteEnabled && c.writeCompleteCallback_ then
      [.queueInLoop .writeCompleteCallback_] else [])
  | .rest high =>
    (if c.IsWriteEnabled then c else c.update .enableWriting,
      if high then [.queueInLoop .highWaterMarkCallback_] else [])
  | .fault => (c, [])

def send (c : Conn) (w : Write) : Conn × List Effect :=
  if c.life.state_ = .kConnected then c.sendInLoop w else (c, [])

def handleClose (c : Conn) : Conn × List Effect :=
  ({ c with life := c.life.handleClose }.update .disableAll, [.closeCallback_])

def forceCloseInLoop (c : Conn) : Conn × List Effect :=
  if c.life.state_ = .kConnected ∨ c.life.state_ = .kDisconnecting then c.handleClose else (c, [])

/-- `shutdown` and `forceClose` on the connection's own loop. -/
def call (c : Conn) : Call → Conn × List Effect
  | .shutdown =>
    if c.life.state_ = .kConnected then (c.setState .kDisconnecting, []) else (c, [])
  | .forceClose =>
    if c.life.state_ = .kConnected ∨ c.life.state_ = .kDisconnecting then
      (c.setState .kDisconnecting).forceCloseInLoop
    else (c, [])

def connectEstablished (c : Conn) : Conn :=
  { c with life := c.life.connectEstablished [] }.update .enableReading

def connectDestroyed (c : Conn) : Conn :=
  let c := if c.life.state_ = .kConnected then
      { c with life := { c.life with state_ := .kDisconnected, downs := c.life.downs + 1 } }.update
        .disableAll
    else c
  { c with life := { c.life with destroyed := true }, index_ := .kNew }

def handleRead (c : Conn) : Input → Conn × List Effect
  | .bytes | .error => (c, [])
  | .eof => c.handleClose

def handleWrite (c : Conn) (drained : Bool) : Conn × List Effect :=
  if c.IsWriteEnabled && drained then
    (c.update .disableWriting, if c.writeCompleteCallback_ then
      [.queueInLoop .writeCompleteCallback_] else [])
  else (c, [])

/-- A functor of the loop's queue. Those of the user's callbacks only call the connection. -/
def run (c : Conn) (w : Write) : Job → Conn × List Effect
  | .connectEstablished => (c.connectEstablished, [])
  | .connectDestroyed => (c.connectDestroyed, [])
  | .forceCloseInLoop =>
    { c with life := { c.life with closing := c.life.closing - 1 } }.forceCloseInLoop
  | .sendInLoop => c.sendInLoop w
  | .shutdownInLoop | .writeCompleteCallback_ | .highWaterMarkCallback_ => (c, [])

theorem update_poller {κ : Type} [DecidableEq κ] {p p' : EPollPoller κ} {k : κ} {fd : Nat} {c : Conn}
    {call : EPollPoller.Call} (hp : p.channel k = ⟨fd, c.events_, c.index_⟩)
    (h : EPollPoller.step p (.call k call) = some p') :
    p'.channel k = ⟨fd, (c.update call).events_, (c.update call).index_⟩ := by
  rw [EPollPoller.setEvents_channel h, hp]
  rfl

theorem connectDestroyed_poller {κ : Type} [DecidableEq κ] {p p' : EPollPoller κ} {k : κ} {fd : Nat}
    {c : Conn} (hp : p.channel k = ⟨fd, c.events_, c.index_⟩) (hc : c.life.state_ ≠ .kConnected)
    (h : EPollPoller.step p (.remove k) = some p') :
    p'.channel k = ⟨fd, c.connectDestroyed.events_, c.connectDestroyed.index_⟩ := by
  rw [EPollPoller.removeChannel_channel h, hp, connectDestroyed, if_neg hc]

end Conn

inductive Act
  | handle (part : Part) (input : Input) (drained : Bool)
  | run (job : Job) (w : Write)
  | call (call : Call)
  | send (w : Write)
  deriving DecidableEq

def Conn.act (c : Conn) : Act → Conn × List Effect
  | .handle .closeCallback_ _ _ => c.handleClose
  | .handle .readCallback_ input _ => c.handleRead input
  | .handle .writeCallback_ _ drained => c.handleWrite drained
  | .run job w => c.run w job
  | .call call => c.call call
  | .send w => c.send w

/-- What another thread does with it, one access to shared data at a time. -/
inductive Remote
  | look (call : Call)
  | set (call : Call)
  | queue (call : Call)
  | lookSend
  | queueSend
  deriving DecidableEq

def jobOf : Call → Job
  | .shutdown => .shutdownInLoop
  | .forceClose => .forceCloseInLoop

def Conn.remote (c : Conn) : Remote → Option (Conn × List Effect)
  | .look call => (c.life.step (.look call)).map fun life => ({ c with life }, [])
  | .set call => (c.life.step (.set call)).map fun life =>
      ({ c with life, queueing := call :: c.queueing }, [])
  | .queue call =>
    if call ∈ c.queueing then
      some ({ c with queueing := c.queueing.erase call }, [.queueInLoop (jobOf call)])
    else none
  | .lookSend =>
    if c.life.state_ = .kConnected then some ({ c with sending := c.sending + 1 }, []) else none
  | .queueSend =>
    if 0 < c.sending then some ({ c with sending := c.sending - 1 }, [.queueInLoop .sendInLoop])
    else none

-- ---------------------------------------------------------------------------
-- What holds it and calls it
-- ---------------------------------------------------------------------------

/-- `removing` are the `removeConnection` functors queued on the base loop, `todo` the functors of the
connection's own loop that have not run, in order, and `active` says that the last poll reported its
channel, and the loop has not come to its functors since. -/
@[ext] structure Hosted where
  conn : Conn := {}
  mapped : Bool := true
  removing : Nat := 0
  todo : List Job := [.connectEstablished]
  active : Bool := false
  deriving DecidableEq

namespace Hosted

/-- As `newConnection` leaves it to its loop. -/
def init (writeComplete : Bool) : Hosted := { conn := { writeCompleteCallback_ := writeComplete } }

def apply (h : Hosted) : Effect → Hosted
  | .closeCallback_ => { h with removing := h.removing + 1 }
  | .queueInLoop job => { h with todo := h.todo ++ [job] }

def applyAll (h : Hosted) (r : Conn × List Effect) : Hosted :=
  r.2.foldl apply { h with conn := r.1 }

inductive Event
  | polled
  | handled
  | handle (part : Part) (input : Input) (drained : Bool)
  | functor (w : Write)
  | call (call : Call)
  | send (w : Write)
  | remote (r : Remote)
  | removeConnectionInLoop
  deriving DecidableEq

def step (h : Hosted) : Event → Option Hosted
  | .polled => if h.conn.index_ = .kAdded then some { h with active := true } else none
  | .handled => some { h with active := false }
  | .handle part input drained =>
    if h.active then some (h.applyAll (h.conn.act (.handle part input drained))) else none
  | .functor w =>
    match h.todo with
    | [] => none
    | job :: todo =>
      if h.active then none else some ({ h with todo }.applyAll (h.conn.act (.run job w)))
  | .call call => some (h.applyAll (h.conn.act (.call call)))
  | .send w => some (h.applyAll (h.conn.act (.send w)))
  | .remote r => (h.conn.remote r).map h.applyAll
  | .removeConnectionInLoop =>
    if 0 < h.removing then some { h with
      mapped := false
      removing := h.removing - 1
      todo := h.todo ++ [.connectDestroyed] }
    else none

end Hosted

end TcpServer

end VortexNet
