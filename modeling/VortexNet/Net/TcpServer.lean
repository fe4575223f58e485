import VortexNet.Net.EventLoopThreadPool
import VortexNet.Net.ServerConnection

/-!
# A server and its loops

`TcpServer.cc` over `EventLoopThreadPool.cc`, the threads of all loops running
side by side. A connection is known by the number that `newConnection` gives
it. Each loop is at its poll, among the channels that the poll reported, inside
the callbacks of one of them, or among the functors of a batch, whose vector
holds also those that have run until the batch is done.

The base loop is loop 0, and the `i`-th thread of the pool runs loop `i + 1`.
Poll may return at any time, so the wakeups are left out, and so is the
destructor.
-/

namespace VortexNet

open Systems (Reach Always exec)
open TcpConnection (Lifecycle Call Revents)

structure InetAddress where
  ip : BitVec 8 × BitVec 8 × BitVec 8 × BitVec 8
  port : BitVec 16
  deriving DecidableEq

namespace InetAddress

/-- `snprintf` into a buffer of `size` bytes. -/
def snprintf (size : Nat) (text : List Char) : List Char := text.take (size - 1)

/-- `inet_ntop`: four numbers with dots between them. -/
def toIp (a : InetAddress) : List Char :=
  Nat.toDigits 10 a.ip.1.toNat ++ '.' :: Nat.toDigits 10 a.ip.2.1.toNat ++ '.' ::
    Nat.toDigits 10 a.ip.2.2.1.toNat ++ '.' :: Nat.toDigits 10 a.ip.2.2.2.toNat

def INET_ADDRSTRLEN : Nat := 16

def toIpPort (a : InetAddress) : List Char :=
  a.toIp ++ snprintf (INET_ADDRSTRLEN + 8 - a.toIp.length) (':' :: Nat.toDigits 10 a.port.toNat)

end InetAddress

namespace TcpServer

inductive Task
  | removeConnection (c : Nat)
  | job (c : Nat) (job : Job)
  deriving DecidableEq

inductive Source
  | acceptChannel_
  | channel_ (c : Nat)
  deriving DecidableEq

inductive At
  | poll
  | handle (activeChannels_ : List Source)
  | event (c : Nat) (parts : List Part) (activeChannels_ : List Source)
  | run (ran functors : List Task)
  deriving DecidableEq

structure Loop where
  loopAt : At := .poll
  pendingFunctors_ : List Task := []
  deriving DecidableEq

end TcpServer

/-- `getLoop` and `conn` are the connections that `newConnection` made, by their numbers. -/
structure TcpServer where
  name_ : List Char
  listenAddr : InetAddress
  writeCompleteCallback_ : Bool
  threadpool_ : EventLoopThreadPool Nat
  started_ : Nat := 0
  listenning_ : Bool := false
  nexConnId_ : Nat := 1
  connections_ : List (List Char × Nat) := []
  getLoop : Nat → Nat := fun _ => 0
  conn : Nat → TcpServer.Conn := fun _ => {}
  loop : Nat → TcpServer.Loop := fun _ => {}

namespace TcpServer

open InetAddress (snprintf)

def loop_ : Nat := 0

def init (nameArg : List Char) (listenAddr : InetAddress) (numThreads : Int)
    (writeComplete : Bool) : TcpServer where
  name_ := nameArg
  listenAddr
  writeCompleteCallback_ := writeComplete
  threadpool_ := .init loop_ numThreads

def ipPort_ (s : TcpServer) : List Char := s.listenAddr.toIpPort

/-- The name of the connection numbered `c`. -/
def connName (s : TcpServer) (c : Nat) : List Char :=
  s.name_ ++ snprintf 64 (s.ipPort_ ++ '#' :: Nat.toDigits 10 c)

-- ---------------------------------------------------------------------------
-- The functions of the server
-- ---------------------------------------------------------------------------

def queueInLoop (s : TcpServer) (l : Nat) (task : Task) : TcpServer :=
  { s with
    loop := Function.update s.loop l
      { s.loop l with pendingFunctors_ := (s.loop l).pendingFunctors_ ++ [task] } }

def removeConnectionInLoop (s : TcpServer) (c : Nat) : TcpServer :=
  { s with connections_ := s.connections_.filter (·.1 ≠ s.connName c) }.queueInLoop (s.getLoop c)
    (.job c .connectDestroyed)

def removeConnection (s : TcpServer) (c : Nat) : TcpServer :=
  if s.getLoop c = loop_ then s.removeConnectionInLoop c
  else s.queueInLoop loop_ (.removeConnection c)

def apply (c : Nat) (s : TcpServer) : Effect → TcpServer
  | .closeCallback_ => s.removeConnection c
  | .queueInLoop job => s.queueInLoop (s.getLoop c) (.job c job)

def applyAll (s : TcpServer) (c : Nat) (r : Conn × List Effect) : TcpServer :=
  r.2.foldl (apply c) { s with conn := Function.update s.conn c r.1 }

def act (s : TcpServer) (c : Nat) (a : Act) : TcpServer := s.applyAll c ((s.conn c).act a)

def construct (s : TcpServer) : TcpServer :=
  let (ioloop, threadpool_) := s.threadpool_.getNextLoop
  { s with
    threadpool_
    nexConnId_ := s.nexConnId_ + 1
    connections_ := (s.connName s.nexConnId_, s.nexConnId_) ::
      s.connections_.filter (·.1 ≠ s.connName s.nexConnId_)
    getLoop := Function.update s.getLoop s.nexConnId_ ioloop
    conn := Function.update s.conn s.nexConnId_ { writeCompleteCallback_ := s.writeCompleteCallback_ } }

def newConnection (s : TcpServer) : TcpServer :=
  let ioloop := s.threadpool_.getNextLoop.1
  if ioloop = loop_ then s.construct.act s.nexConnId_ (.run .connectEstablished .all)
  else s.construct.queueInLoop ioloop (.job s.nexConnId_ .connectEstablished)

def start (s : TcpServer) : TcpServer :=
  if s.started_ = 0 then { s with
    started_ := s.started_ + 1
    threadpool_ := s.threadpool_.start (· + 1)
    listenning_ := true }
  else { s with started_ := s.started_ + 1 }

-- ---------------------------------------------------------------------------
-- Who holds a connection
-- ---------------------------------------------------------------------------

def Task.holds (c : Nat) : Task → Bool
  | .removeConnection d => d = c
  | .job d j => d = c && j.owns

/-- The functors of both vectors, and the guard of `Channel::handleEvent`. -/
def Loop.holds (c : Nat) (l : Loop) : Bool :=
  l.pendingFunctors_.any (Task.holds c) ||
    match l.loopAt with
    | .event d _ _ => d = c
    | .run ran functors => (ran ++ functors).any (Task.holds c)
    | .poll | .handle _ => false

def Conn.called (c : Conn) : Bool := c.life.calling ≠ [] || c.queueing ≠ [] || 0 < c.sending

/-- Some `TcpConnectionPtr` is left: in the map, with a loop, or with a thread inside a call. -/
def holds (s : TcpServer) (c : Nat) : Bool :=
  s.connections_.any (·.2 = c) || (loop_ :: s.threadpool_.loops_).any (fun l => (s.loop l).holds c) ||
    (s.conn c).called

-- ---------------------------------------------------------------------------
-- The threads
-- ---------------------------------------------------------------------------

def setAt (s : TcpServer) (l : Nat) (loopAt : At) : TcpServer :=
  { s with loop := Function.update s.loop l { s.loop l with loopAt } }

def runTask (s : TcpServer) (w : Write) : Task → TcpServer
  | .removeConnection c => s.removeConnectionInLoop c
  | .job c job => s.act c (.run job w)

inductive Event
  | start
  | poll (l : Nat) (activeChannels_ : List Source)
  /-- `Acceptor::handleRead`, whose `accept` may fail. -/
  | accept (connected : Bool)
  | handleEvent (l : Nat) (revents_ : Revents)
  | callback (l : Nat) (input : Input) (drained : Bool)
  | functor (l : Nat) (w : Write)
  /-- The thread goes on to its next phase. -/
  | advance (l : Nat)
  /-- A call of a callback, on the connection's own loop. -/
  | call (c : Nat) (call : Call)
  | send (c : Nat) (w : Write)
  | remote (c : Nat) (r : Remote)
  deriving DecidableEq

def registered (s : TcpServer) (l : Nat) : Source → Prop
  | .acceptChannel_ => l = loop_ ∧ s.listenning_ = true
  | .channel_ c => s.getLoop c = l ∧ (s.conn c).index_ = .kAdded

instance (s : TcpServer) (l : Nat) : DecidablePred (s.registered l)
  | .acceptChannel_ | .channel_ _ => inferInstanceAs (Decidable (_ ∧ _))

def made (s : TcpServer) (c : Nat) : Prop := 1 ≤ c ∧ c < s.nexConnId_

instance (s : TcpServer) (c : Nat) : Decidable (s.made c) := inferInstanceAs (Decidable (_ ∧ _))

/-- No connection is made once its number would overflow an `int`. -/
def step (s : TcpServer) : Event → Option TcpServer
  | .start => some s.start
  | .poll l activeChannels_ =>
    if (s.loop l).loopAt = .poll ∧ ∀ source ∈ activeChannels_, s.registered l source then
      some (s.setAt l (.handle activeChannels_))
    else none
  | .accept connected =>
    match (s.loop loop_).loopAt with
    | .handle (.acceptChannel_ :: rest) =>
      if !connected then some (s.setAt loop_ (.handle rest))
      else if s.nexConnId_ < 2 ^ 31 - 1 then some (s.setAt loop_ (.handle rest)).newConnection
      else none
    | _ => none
  | .handleEvent l revents_ =>
    match (s.loop l).loopAt with
    | .handle (.channel_ c :: rest) =>
      some (s.setAt l (if s.holds c then .event c (handleEventWithGuard revents_) rest else .handle rest))
    | _ => none
  | .callback l input drained =>
    match (s.loop l).loopAt with
    | .event c (part :: parts) rest =>
      some ((s.setAt l (.event c parts rest)).act c (.handle part input drained))
    | _ => none
  | .functor l w =>
    match (s.loop l).loopAt with
    | .run ran (task :: functors) => some ((s.setAt l (.run (ran ++ [task]) functors)).runTask w task)
    | _ => none
  | .advance l =>
    match (s.loop l).loopAt with
    | .event _ [] rest => some (s.setAt l (.handle rest))
    | .handle [] => some { s with
        loop := Function.update s.loop l
          { loopAt := .run [] (s.loop l).pendingFunctors_, pendingFunctors_ := [] } }
    | .run _ [] => some (s.setAt l .poll)
    | _ => none
  | .call c call =>
    if s.made c ∧ (s.loop (s.getLoop c)).loopAt ≠ .poll then some (s.act c (.call call)) else none
  | .send c w =>
    if s.made c ∧ (s.loop (s.getLoop c)).loopAt ≠ .poll then some (s.act c (.send w)) else none
  | .remote c r => if s.made c then ((s.conn c).remote r).map (s.applyAll c) else none

end TcpServer

end VortexNet
