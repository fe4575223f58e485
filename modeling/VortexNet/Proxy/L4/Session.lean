import VortexNet.Net.TcpConnection
import VortexNet.Proxy.Common.Selector

/-!
# A session of the L4 proxy

`LB_Server.h` and `RemoteClient.cc` of the L4 proxy for one client connection,
with the `TcpClient` and the `Connector` they use, on one loop thread. The
session ends when the client's `TcpConnection` is destroyed, and its
`RemoteClient` with it; so the weak pointer `context_` always locks. Retrying
is enabled by the constructor of `RemoteClient`, so `retry_` is true throughout.
Of `TcpClient` and `Connector` there is what one connection and one attempt at a
time need (`Hosted.client_refined` has the whole of them beside it).

`stream` and `closed` record what the program does not: the bytes the client
has sent, and what was sent on backend connections that are gone.
-/

namespace VortexNet

open Picohttpparser
open Systems (Reach Always exec)
open TcpConnection (StateE)

namespace L4

-- ---------------------------------------------------------------------------
-- The connector
-- ---------------------------------------------------------------------------

/-- What `::connect` says: 0, EINPROGRESS, EINTR or EISCONN; EAGAIN, ECONNREFUSED or
ENETUNREACH; any other errno. -/
inductive Outcome
  | connecting
  | refused
  | error
  deriving DecidableEq

/-- What a `Connector` waits for: the socket of `channel_`, or one of its timers. -/
inductive Attempt
  | none
  | connecting
  | retryTimer
  | restartTimer
  deriving DecidableEq

/-- `stopping` counts the calls of `stopInLoop` in the loop's queue. -/
structure Connector where
  connect_ : Bool := false
  attempt : Attempt := .none
  stopping : Nat := 0
  deriving DecidableEq

namespace Connector

def retry (k : Connector) : Connector :=
  { k with attempt := if k.connect_ then .retryTimer else .none }

def connect (k : Connector) : Outcome → Connector
  | .connecting => { k with attempt := .connecting }
  | .refused => k.retry
  | .error => { k with attempt := .none }

def startInLoop (k : Connector) (outcome : Outcome) : Connector :=
  if k.connect_ then k.connect outcome else { k with attempt := .none }

def start (k : Connector) (outcome : Outcome) : Connector :=
  { k with connect_ := true }.startInLoop outcome

def restart (k : Connector) : Connector := { k with connect_ := true, attempt := .restartTimer }

def stop (k : Connector) : Connector := { k with connect_ := false, stopping := k.stopping + 1 }

/-- The timers are not cancelled. -/
def stopInLoop (k : Connector) : Connector :=
  { k with
    stopping := k.stopping - 1
    attempt := if k.attempt = .connecting then .none else k.attempt }

end Connector

-- ---------------------------------------------------------------------------
-- The client of a backend
-- ---------------------------------------------------------------------------

structure Backend where
  state_ : StateE := .kConnected
  inputBuffer_ : Bytes := []
  sent : Bytes := []
  deriving DecidableEq

namespace Backend

def send (b : Backend) (buf : Bytes) : Backend × Bytes :=
  if b.state_ = .kConnected then ({ b with sent := b.sent ++ buf }, []) else (b, buf)

def shutdown (b : Backend) : Backend :=
  if b.state_ = .kConnected then { b with state_ := .kDisconnecting } else b

end Backend

structure TcpClient where
  connect_ : Bool := true
  connector_ : Connector := {}
  conn_ : Option Backend := none
  closed : List Bytes := []
  deriving DecidableEq

namespace TcpClient

def connect (tc : TcpClient) (outcome : Outcome) : TcpClient :=
  { tc with connect_ := true, connector_ := tc.connector_.start outcome }

def stop (tc : TcpClient) : TcpClient :=
  { tc with
    connect_ := false
    connector_ := tc.connector_.stop
    conn_ := tc.conn_.map Backend.shutdown }

/-- Whether there is a connection, the client and what is left in `buf`. -/
def send (tc : TcpClient) (buf : Bytes) : Bool × TcpClient × Bytes :=
  match tc.conn_ with
  | some conn =>
    let (conn, buf) := conn.send buf
    (true, { tc with conn_ := some conn }, buf)
  | none => (false, tc, buf)

def removeConnection (tc : TcpClient) : TcpClient :=
  let tc := { tc with
    conn_ := none
    closed := tc.conn_.toList.map Backend.sent ++ tc.closed }
  if tc.connect_ then { tc with connector_ := tc.connector_.restart } else tc

end TcpClient

structure RemoteClient where
  tc_ : TcpClient := {}
  pendingBuffer_ : Bytes := []
  deriving DecidableEq

namespace RemoteClient

def stop (r : RemoteClient) : RemoteClient := { r with tc_ := r.tc_.stop }

def connect (r : RemoteClient) (outcome : Outcome) : RemoteClient :=
  { r with tc_ := r.tc_.connect outcome }

def sendToBackend (r : RemoteClient) (buf : Bytes) : RemoteClient × Bytes :=
  let (sent, tc_, buf) := r.tc_.send buf
  if sent then ({ r with tc_ }, buf)
  else ({ r with tc_, pendingBuffer_ := r.pendingBuffer_ ++ buf }, [])

/-- `newConnection` and, in it, the branch of `onConnection` for a connection that is up. -/
def newConnection (r : RemoteClient) : RemoteClient :=
  let (conn, _) := ({} : Backend).send r.pendingBuffer_
  { r with tc_ := { r.tc_ with conn_ := some conn }, pendingBuffer_ := [] }

end RemoteClient

-- ---------------------------------------------------------------------------
-- The session
-- ---------------------------------------------------------------------------

/-- The client's `TcpConnection`. `context_` is empty or holds a `RemoteClient`. -/
structure Client where
  state_ : StateE := .kConnecting
  alive : Bool := true
  inputBuffer_ : Bytes := []
  output : Bytes := []
  context_ : Option RemoteClient := none
  deriving DecidableEq

namespace Client

def shutdown (c : Client) : Client :=
  if c.state_ = .kConnected then { c with state_ := .kDisconnecting } else c

def send (c : Client) (buf : Bytes) : Client × Bytes :=
  if c.state_ = .kConnected then ({ c with output := c.output ++ buf }, []) else (c, buf)

def reading (c : Client) : Bool := c.state_ = .kConnected || c.state_ = .kDisconnecting

end Client

/-- `fault` says that the null pointer of an `any_cast` was dereferenced. -/
structure Session where
  client : Client := {}
  stream : Bytes := []
  fault : Bool := false
  deriving DecidableEq

structure LB_Server where
  hash : Bytes → Nat
  selector_ : Selector

/-- The constructor. -/
def LB_Server.new (hash : Bytes → Nat) (serverGroup_ : List Bytes) : LB_Server where
  hash
  selector_ := .ofGroup hash serverGroup_

namespace LB_Server

/-- The address is not the one that stands for none. -/
def Available (lb : LB_Server) (ip : Bytes) : Prop :=
  Selector.toIp (lb.selector_.getNextServer lb.hash ip) ≠ ascii "0.0.0.0"

instance (lb : LB_Server) (ip : Bytes) : Decidable (lb.Available ip) :=
  inferInstanceAs (Decidable (_ ≠ _))

def onConnection (lb : LB_Server) (ip : Bytes) (outcome : Outcome) (c : Client) : Client :=
  if lb.Available ip then { c with context_ := some (({} : RemoteClient).connect outcome) }
  else c.shutdown

end LB_Server

namespace Session

def setRemote (s : Session) (r : RemoteClient) : Session :=
  { s with client := { s.client with context_ := some r } }

/-- `LB_Server::onConnection` for a client that is down. -/
def onDisconnection (s : Session) : Session :=
  match s.client.context_ with
  | some r => s.setRemote r.stop
  | none => { s with fault := true }

/-- `LB_Server::onMessage`. -/
def onMessage (s : Session) : Session :=
  match s.client.context_ with
  | some r =>
    let (r, buf) := r.sendToBackend s.client.inputBuffer_
    { s with client := { s.client with context_ := some r, inputBuffer_ := buf } }
  | none => { s with fault := true }

/-- `RemoteClient::onMessage` on the connection `conn`. -/
def relay (s : Session) (r : RemoteClient) (conn : Backend) : Session :=
  let (client, buf) := s.client.send conn.inputBuffer_
  let r := { r with tc_ := { r.tc_ with conn_ := some { conn with inputBuffer_ := buf } } }
  { s with client }.setRemote r

/-- `handleClose` of the backend connection: the branch of `RemoteClient::onConnection` for a
connection that is down, and `removeConnection`. -/
def backendDown (s : Session) (r : RemoteClient) : Session :=
  { s with client := s.client.shutdown }.setRemote { r with tc_ := r.tc_.removeConnection }

end Session

-- ---------------------------------------------------------------------------
-- Events
-- ---------------------------------------------------------------------------

inductive Event
  | established (outcome : Outcome)
  | read (data : Bytes)
  | close
  /-- The client's `TcpConnection` is destroyed. -/
  | destroyed
  /-- The socket of the connector is writable, without an error or with one. -/
  | connected
  | connectFailed
  | timer (outcome : Outcome)
  | stopInLoop
  | backendRead (data : Bytes)
  | backendClose
  deriving DecidableEq

def remoteStep (s : Session) (r : RemoteClient) (e : Event) : Option Session :=
  let connector_ := r.tc_.connector_
  let set (r : RemoteClient) (k : Connector) := { r with tc_ := { r.tc_ with connector_ := k } }
  match e with
  | .connected =>
    if connector_.attempt = .connecting then
      let r := set r { connector_ with attempt := .none }
      some (s.setRemote (if connector_.connect_ then r.newConnection else r))
    else none
  | .connectFailed =>
    if connector_.attempt = .connecting then some (s.setRemote (set r connector_.retry)) else none
  | .timer outcome => match connector_.attempt with
    | .retryTimer => some (s.setRemote (set r (connector_.start outcome)))
    | .restartTimer => some (s.setRemote (set r (connector_.startInLoop outcome)))
    | _ => none
  | .stopInLoop =>
    if 0 < connector_.stopping then some (s.setRemote (set r connector_.stopInLoop)) else none
  | .backendRead data =>
    if data ≠ [] then
      r.tc_.conn_.map fun conn => s.relay r { conn with inputBuffer_ := conn.inputBuffer_ ++ data }
    else none
  | .backendClose => if r.tc_.conn_.isSome then some (s.backendDown r) else none
  | _ => none

/-- A step for a client at `ip`. -/
def step (lb : LB_Server) (ip : Bytes) (s : Session) (e : Event) : Option Session :=
  if s.fault ∨ !s.client.alive then none
  else match e with
    | .established outcome =>
      if s.client.state_ = .kConnecting then
        some { s with client := lb.onConnection ip outcome { s.client with state_ := .kConnected } }
      else none
    | .read data =>
      if s.client.reading ∧ data ≠ [] then
        some ({ s with
          client := { s.client with inputBuffer_ := s.client.inputBuffer_ ++ data }
          stream := s.stream ++ data }).onMessage
      else none
    | .close =>
      if s.client.reading then
        some ({ s with client := { s.client with state_ := .kDisconnected } }).onDisconnection
      else none
    | .destroyed =>
      if s.client.state_ = .kDisconnected then
        some { s with client := { s.client with alive := false } }
      else none
    | e => s.client.context_.bind fun r => remoteStep s r e

end L4

end VortexNet
