import Mathlib.Logic.Function.Basic
import VortexNet.Net.TcpConnection
import VortexNet.Proxy.Common.Selector
import VortexNet.Proxy.L7.ApiKeyAuth
import VortexNet.Proxy.L7.HttpContext
import VortexNet.Proxy.TokenBucket

/-!
# The L7 gateway

`LB_Server.h`, `RemoteClient.cc` and `ConnecitonPool.cc` on one loop thread,
with the `TcpConnection`s they use. Clients and `RemoteClient`s are numbered in
the order of their creation. A `RemoteClient` lives while the pool or the
context of a live client refers to it; after that its callbacks do nothing.
Other threads change what the loops share, keys, routes and limiters, between
any two events.

`consumed`, `foreign`, `forwarded`, `exchange` and the log record what the
program does not: positions in a client's byte stream, bytes that a backend sent
before the current client was bound and those forwarded to it since, and what
went to whom.
-/

namespace VortexNet

open Picohttpparser
open Systems (Reach Always exec)
open TcpConnection (StateE)

namespace L7

-- ---------------------------------------------------------------------------
-- Connections
-- ---------------------------------------------------------------------------

structure Client where
  state_ : StateE := .kConnecting
  alive : Bool := false
  inputBuffer_ : Bytes := []
  output : Bytes := []
  context : HttpContext := {}
  consumed : Nat := 0
  deriving DecidableEq

namespace Client

def send (c : Client) (data : Bytes) : Client :=
  if c.state_ = .kConnected then { c with output := c.output ++ data } else c

def shutdown (c : Client) : Client :=
  if c.state_ = .kConnected then { c with state_ := .kDisconnecting } else c

def retrieve (c : Client) (len : Nat) : Client :=
  { c with
    inputBuffer_ := c.inputBuffer_.drop len
    consumed := c.consumed + min len c.inputBuffer_.length }

/-- A malformed head makes the parser empty the buffer. -/
def parseRequest (c : Client) : Bool × Client :=
  let (parsed, parser, buf) := c.context.parser_.parseRequest c.inputBuffer_
  (parsed, { c with
    context := { c.context with parser_ := parser }
    inputBuffer_ := buf
    consumed := c.consumed + (c.inputBuffer_.length - buf.length) })

def consumeBody (c : Client) (n : Nat) : Client :=
  let (parser, _) := c.context.parser_.consumeBody c.inputBuffer_ n
  { c.retrieve n with context := { c.context with parser_ := parser } }

end Client

/-- The request that a `RemoteClient` was last bound for: its method, what the backend has
sent since, and what of that was written to the client. -/
structure Exchange where
  method : Bytes := []
  got : Bytes := []
  relayed : Bytes := []
  deriving DecidableEq

/-- `conn_` is the state of the `TcpConnection` that `tc_` holds, if it holds one;
`connecting` says that a connection attempt is under way. -/
structure RemoteClient where
  targetNode : Bytes := []
  connecting : Bool := true
  conn_ : Option StateE := none
  inputBuffer_ : Bytes := []
  output : Bytes := []
  clientConn_ : Option Nat := none
  is_busy_ : Bool := false
  pendingBuffer_ : Bytes := []
  foreign : Nat := 0
  forwarded : Bytes := []
  exchange : Exchange := {}
  deriving DecidableEq

namespace RemoteClient

def bindClient (r : RemoteClient) (conn : Nat) (method : Bytes) : RemoteClient :=
  { r with
    clientConn_ := some conn
    is_busy_ := true
    foreign := r.inputBuffer_.length
    forwarded := []
    exchange := { method } }

def unbind (r : RemoteClient) : RemoteClient := { r with clientConn_ := none, is_busy_ := false }

/-- A connection that is closing drops the bytes; without one they wait in `pendingBuffer_`. -/
def sendToBackend (r : RemoteClient) (data : Bytes) : RemoteClient :=
  let r := { r with forwarded := r.forwarded ++ data }
  match r.conn_ with
  | none => { r with pendingBuffer_ := r.pendingBuffer_ ++ data }
  | some .kConnected => { r with output := r.output ++ data }
  | some _ => r

def disconnect (r : RemoteClient) : RemoteClient :=
  if r.conn_ = some .kConnected then { r with conn_ := some .kDisconnecting } else r

def retrieve (r : RemoteClient) (len : Nat) : RemoteClient :=
  { r with inputBuffer_ := r.inputBuffer_.drop len, foreign := r.foreign - len }

end RemoteClient

-- ---------------------------------------------------------------------------
-- Admission
-- ---------------------------------------------------------------------------

/-- The part of an `LB_Server` that its loops share. `hash` is `std::hash<std::string>`. -/
structure LB_Server where
  hash : Bytes → Nat
  im_selector_ : Selector := {}
  default_llm_selector_ : Option Selector := none
  route_table_ : List (Bytes × Selector) := []
  auth_ : ApiKeyAuthenticator := {}
  llm_limiter_ : TokenBucket := .init 8192 2048
  im_limiter_ : TokenBucket := .init 10000 5000

def tooManyRequestsResponse : Bytes := ascii
  "HTTP/1.1 429 Too Many Requests\r\nContent-Type: application/json\r\nContent-Length: 29\r\nConnection: close\r\n\r\n\x7b\"error\":\"Too Many Requests\"\x7d"

def notFoundResponse : Bytes := ascii
  "HTTP/1.1 404 Not Found\r\nContent-Length: 0\r\nConnection: close\r\n\r\n"

/-- What becomes of a request: an error response, or the backend it goes to. -/
inductive Verdict
  | refuse (response : Bytes)
  | forward (targetAddr : Bytes)
  deriving DecidableEq

def LB_Server.judge (lb : LB_Server) (parser : HttpContext) (buf : Bytes) (now : Nat) :
    LB_Server × Verdict :=
  let request := parser.parser_.request
  if (ascii "/v1").isPrefixOf request.path then
    if !lb.auth_.authenticate request.headers buf then
      (lb, .refuse ApiKeyAuthenticator.unauthorizedResponse)
    else
      let quarter := (parser.parser_.contentLength / 4).toUInt32
      let estimated_tokens := if 1 < quarter then quarter else 1
      let (ok, limiter) := lb.llm_limiter_.tryAcquire (TokenBucket.nowMs now) estimated_tokens
      let lb := { lb with llm_limiter_ := limiter }
      if !ok then (lb, .refuse tooManyRequestsResponse)
      else
        let model_name := parser.parseModelName buf
        match lb.route_table_.lookup model_name with
        | some selector => (lb, .forward (selector.getNextServer lb.hash model_name))
        | none => match lb.default_llm_selector_ with
          | some selector => (lb, .forward (selector.getNextServer lb.hash model_name))
          | none => (lb, .refuse notFoundResponse)
  else if (ascii "/im").isPrefixOf request.path || (ascii "/api/im").isPrefixOf request.path then
    let (ok, limiter) := lb.im_limiter_.tryAcquire (TokenBucket.nowMs now) 1
    let lb := { lb with im_limiter_ := limiter }
    if !ok then (lb, .refuse tooManyRequestsResponse)
    else (lb, .forward (lb.im_selector_.getNextServer lb.hash request.path))
  else (lb, .refuse notFoundResponse)

-- ---------------------------------------------------------------------------
-- A client and a backend connection
-- ---------------------------------------------------------------------------

inductive Entry
  /-- `sendToBackend` with `len` bytes from `pos` on of the client's stream. -/
  | forwarded (pos len : Nat)
  /-- The request of `len` bytes at `pos` was answered 401, 404 or 429. -/
  | refused (pos len : Nat)
  /-- `send` to the client of backend bytes, the first `foreign` of them older than its binding. -/
  | relayed (foreign : Nat) (data : Bytes)
  /-- `consumeBody` of `len` bytes, of a client or a backend, in the body of a request or not. -/
  | counted (ofClient ofRequest : Bool) (len : Nat)
  /-- `returnConnection`, with what was left in the backend's input buffer. -/
  | returned (left : Bytes) (exchange : Exchange)
  deriving DecidableEq

/-- What one callback works on: a client, a `RemoteClient`, and what happened, newest first.
`finished` says that the response is over and `returnCallback_` is due. -/
structure Link where
  conn : Client
  remote : RemoteClient
  trace : List Entry := []
  finished : Bool := false
  deriving DecidableEq

namespace Link

def parser (l : Link) : HttpParser := l.conn.context.parser_

def setParser (l : Link) (parser : HttpParser) : Link :=
  { l with conn := { l.conn with context := { l.conn.context with parser_ := parser } } }

-- From the client to the backend

/-- `sendToBackend(buf,n)`, the bytes staying in the buffer. -/
def forward (l : Link) (n : Nat) : Link :=
  let data := l.conn.inputBuffer_.take n
  { l with
    remote := l.remote.sendToBackend data
    trace := .forwarded l.conn.consumed data.length :: l.trace }

def retrieveRequest (l : Link) (n : Nat) : Link := { l with conn := l.conn.retrieve n }

/-- `consumeBody` on the client's buffer. -/
def consumeRequest (l : Link) (n : Nat) : Link :=
  { l with conn := l.conn.consumeBody n, trace := .counted true l.parser.isRequest n :: l.trace }

def resetIfGotAll (l : Link) : Link :=
  if l.parser.gotAll then { l with conn := { l.conn with context := l.conn.context.reset } } else l

/-- The branch of `LB_Server::onMessage` for a body. -/
def forwardBody (l : Link) : Link :=
  let n := min l.conn.inputBuffer_.length l.parser.bytesRemaining
  ((l.forward n).consumeRequest n).resetIfGotAll

/-- The end of `LB_Server::onMessage` for a head: the head, and the body bytes after it. -/
def forwardHead (l : Link) : Link :=
  let header_len := l.parser.headerLen
  let l := (l.forward header_len).retrieveRequest header_len
  let n := min l.conn.inputBuffer_.length l.parser.bytesRemaining
  let l := if 0 < n then (l.forward n).consumeRequest n else l
  l.resetIfGotAll

-- From the backend to the client

/-- `client_conn_ptr->send(buf->peek(),n)`. -/
def relay (l : Link) (n : Nat) : Link :=
  let data := l.remote.inputBuffer_.take n
  let written := if l.conn.state_ = .kConnected then data else []
  { l with
    conn := l.conn.send data
    remote := { l.remote with
      exchange := { l.remote.exchange with relayed := l.remote.exchange.relayed ++ written } }
    trace := .relayed (min n l.remote.foreign) data :: l.trace }

def retrieve (l : Link) (n : Nat) : Link := { l with remote := l.remote.retrieve n }

/-- `consumeBody` on the backend's buffer. -/
def consumeResponse (l : Link) (n : Nat) : Link :=
  let (parser, _) := l.parser.consumeBody l.remote.inputBuffer_ n
  { (l.setParser parser).retrieve n with trace := .counted false l.parser.isRequest n :: l.trace }

/-- The parser is reset and `returnCallback_` is called. -/
def finish (l : Link) : Link :=
  { l with conn := { l.conn with context := l.conn.context.reset }, finished := true }

def finishIfGotAll (l : Link) : Link := if l.parser.gotAll then l.finish else l

/-- The mark the source takes for the end of a chunked body. -/
def zeroChunk : Bytes := ascii "0\r\n\r\n"

/-- `send(buf)`, which empties the buffer when the client is connected. -/
def relayChunks (l : Link) : Link :=
  let buf := l.remote.inputBuffer_
  let finished := (find zeroChunk buf).isSome
  let l := if l.conn.state_ = .kConnected then (l.relay buf.length).retrieve buf.length
    else l.relay buf.length
  if finished then l.finish else l

def relayBody (l : Link) : Link :=
  let n := min l.remote.inputBuffer_.length l.parser.bytesRemaining
  ((l.relay n).consumeResponse n).finishIfGotAll

def relayHead (l : Link) : Link :=
  let header_len := l.parser.headerLen
  let l := (l.relay header_len).retrieve header_len
  if !l.parser.isResponseChunked then
    let n := min l.remote.inputBuffer_.length l.parser.bytesRemaining
    let l := if 0 < n then (l.relay n).consumeResponse n else l
    l.finishIfGotAll
  else l.relayChunks

/-- The branch of `RemoteClient::onMessage` for a client that is still there. -/
def relayResponse (l : Link) : Link :=
  if l.parser.isExpectingBody then
    if !l.parser.isResponseChunked then l.relayBody else l.relayChunks
  else
    let (parsed, parser) := l.parser.parseResponse l.remote.inputBuffer_
    let l := l.setParser parser
    if parsed then l.relayHead else l

end Link

-- ---------------------------------------------------------------------------
-- The gateway
-- ---------------------------------------------------------------------------

structure Log where
  client : Nat
  remote : Option Nat
  entry : Entry
  deriving DecidableEq

/-- `errors` are the `RemoteClient`s with an `errorCallback_` in the loop's queue, `fault` the
client through whose null `client_` a call was made. -/
structure Gateway where
  lb : LB_Server
  clients : Nat → Client := fun _ => {}
  clientCount : Nat := 0
  remotes : Nat → RemoteClient := fun _ => {}
  remoteCount : Nat := 0
  idle_map_ : Bytes → List Nat := fun _ => []
  errors : List Nat := []
  log : List Log := []
  fault : Option Nat := none

def max_conns_ : Nat := 10

namespace Gateway

def setClient (g : Gateway) (c : Nat) (conn : Client) : Gateway :=
  { g with clients := Function.update g.clients c conn }

def setRemote (g : Gateway) (r : Nat) (remote : RemoteClient) : Gateway :=
  { g with remotes := Function.update g.remotes r remote }

def addLog (g : Gateway) (c : Nat) (r : Option Nat) (trace : List Entry) : Gateway :=
  { g with log := trace.map (⟨c, r, ·⟩) ++ g.log }

def link (g : Gateway) (c r : Nat) : Link := { conn := g.clients c, remote := g.remotes r }

def setLink (g : Gateway) (c r : Nat) (l : Link) : Gateway :=
  ((g.setClient c l.conn).setRemote r l.remote).addLog c (some r) l.trace

/-- Someone refers to the `RemoteClient`: its node's idle list or a live client's context. -/
def held (g : Gateway) (r : Nat) : Bool :=
  r ∈ g.idle_map_ (g.remotes r).targetNode ∨
    ∃ c < g.clientCount, (g.clients c).alive ∧ (g.clients c).context.client_ = some r

def borrowConnection (g : Gateway) (targetNode : Bytes) : Nat × Gateway :=
  match (g.idle_map_ targetNode).getLast? with
  | some r =>
    (r, { g with
      idle_map_ := Function.update g.idle_map_ targetNode (g.idle_map_ targetNode).dropLast })
  | none =>
    (g.remoteCount,
      { g.setRemote g.remoteCount { targetNode } with remoteCount := g.remoteCount + 1 })

def returnConnection (g : Gateway) (c r : Nat) : Gateway :=
  let remote := { (g.remotes r).unbind with pendingBuffer_ := [] }
  let idle := g.idle_map_ remote.targetNode
  let g := g.addLog c (some r) [.returned remote.inputBuffer_ remote.exchange]
  if idle.length < max_conns_ then
    { g.setRemote r remote with
      idle_map_ := Function.update g.idle_map_ remote.targetNode (idle ++ [r]) }
  else g.setRemote r remote.disconnect

/-- The length of the request at the front of the buffer, head and body. -/
def requestLen (conn : Client) : Nat :=
  conn.context.parser_.headerLen +
    if conn.context.parser_.isExpectingBody then conn.context.parser_.contentLength else 0

/-- The error response and `shutdown()`. The head stays in the buffer, and the parser as the
head has left it. -/
def refuse (g : Gateway) (c : Nat) (response : Bytes) : Gateway :=
  let conn := g.clients c
  (g.setClient c (conn.send response).shutdown).addLog c none
    [.refused conn.consumed (requestLen conn)]

/-- A head that has passed the checks. -/
def accept (g : Gateway) (c : Nat) (targetAddr : Bytes) : Gateway :=
  let (r, g) := g.borrowConnection targetAddr
  let conn := g.clients c
  let remote := (g.remotes r).bindClient c conn.context.parser_.request.method
  let conn := { conn with context := conn.context.BoundRClient r }
  g.setLink c r (Link.forwardHead { conn, remote })

/-- The call through a null `client_`. -/
def nullCall (g : Gateway) (c : Nat) : Gateway :=
  let conn := g.clients c
  let n := min conn.inputBuffer_.length conn.context.parser_.bytesRemaining
  { g.addLog c none [.forwarded conn.consumed n] with fault := some c }

-- `TcpConnection::handleRead`, up to the callback

def read (g : Gateway) (c : Nat) (data : Bytes) : Gateway :=
  g.setClient c { g.clients c with inputBuffer_ := (g.clients c).inputBuffer_ ++ data }

def receive (g : Gateway) (r : Nat) (data : Bytes) : Gateway :=
  let remote := g.remotes r
  g.setRemote r { remote with
    inputBuffer_ := remote.inputBuffer_ ++ data
    exchange := { remote.exchange with got := remote.exchange.got ++ data } }

end Gateway

/-- `LB_Server::onMessage` for client `c`. -/
def LB_Server.onMessage (g : Gateway) (c now : Nat) : Gateway :=
  let conn := g.clients c
  if conn.context.parser_.isExpectingBody then
    match conn.context.client_ with
    | some r => g.setLink c r (g.link c r).forwardBody
    | none => g.nullCall c
  else
    let (parsed, conn) := conn.parseRequest
    let g := g.setClient c conn
    if parsed then
      let (lb, verdict) := g.lb.judge conn.context conn.inputBuffer_ now
      let g := { g with lb }
      match verdict with
      | .refuse response => g.refuse c response
      | .forward targetAddr => g.accept c targetAddr
    else g

/-- `RemoteClient::onMessage`; without its client it closes the connection. -/
def RemoteClient.onMessage (g : Gateway) (r : Nat) : Gateway :=
  let remote := g.remotes r
  match remote.clientConn_ with
  | some c =>
    if (g.clients c).alive ∧ remote.is_busy_ then
      let l := (g.link c r).relayResponse
      let g := g.setLink c r l
      if l.finished then g.returnConnection c r else g
    else g.setRemote r remote.disconnect
  | none => g.setRemote r remote.disconnect

-- ---------------------------------------------------------------------------
-- Connections coming up and going down
-- ---------------------------------------------------------------------------

def badGatewayResponse : Bytes := ascii "HTTP/1.1 502 Bad Gateway\r\n\r\n"

namespace Gateway

/-- The client that `clientConn_.lock()` returns. -/
def lock (g : Gateway) (r : Nat) : Option Nat :=
  (g.remotes r).clientConn_.filter fun c => (g.clients c).alive

/-- `newConnection` and the branch of `onConnection` for a connection that is up. -/
def backendUp (g : Gateway) (r : Nat) : Gateway :=
  let remote := { g.remotes r with connecting := false, conn_ := some .kConnected }
  if (g.lock r).isSome then
    g.setRemote r { remote with output := remote.output ++ remote.pendingBuffer_, pendingBuffer_ := [] }
  else g.setRemote r remote

/-- `handleClose` and the branch of `onConnection` for a connection that is down. -/
def backendDown (g : Gateway) (r : Nat) : Gateway :=
  let remote := g.remotes r
  let down := { g.setRemote r { remote with conn_ := none } with errors := r :: g.errors }
  if remote.is_busy_ then
    match g.lock r with
    | some c => down.setClient c ((g.clients c).send badGatewayResponse).shutdown
    | none => down
  else down

/-- The `errorCallback_` of the pool. -/
def errorCallback (g : Gateway) (r : Nat) : Gateway :=
  let targetNode := (g.remotes r).targetNode
  { g with
    errors := g.errors.erase r
    idle_map_ := Function.update g.idle_map_ targetNode
      ((g.idle_map_ targetNode).filter (· ≠ r)) }

end Gateway

-- ---------------------------------------------------------------------------
-- Events
-- ---------------------------------------------------------------------------

/-- `now` is a reading of the steady clock in milliseconds. -/
inductive Event
  | accept
  | clientRead (c : Nat) (data : Bytes) (now : Nat)
  | clientClose (c : Nat)
  /-- The last reference to a closed client connection goes. -/
  | clientGone (c : Nat)
  | backendUp (r : Nat)
  /-- A connection attempt is given up. -/
  | backendFailed (r : Nat)
  | backendRead (r : Nat) (data : Bytes)
  | backendDown (r : Nat)
  | errorCallback (r : Nat)
  /-- Other threads have used or changed what the loops share. -/
  | shared (lb : LB_Server)

def Client.open_ (c : Client) : Bool :=
  c.alive && (c.state_ = .kConnected || c.state_ = .kDisconnecting)

def Gateway.stepOk (g : Gateway) : Event → Option Gateway
  | .accept => some
      { g.setClient g.clientCount { state_ := .kConnected, alive := true } with
        clientCount := g.clientCount + 1 }
  | .clientRead c data now =>
    if (g.clients c).open_ ∧ data ≠ [] then some (LB_Server.onMessage (g.read c data) c now)
    else none
  | .clientClose c =>
    let conn := g.clients c
    if conn.open_ then some (g.setClient c { conn with state_ := .kDisconnected }) else none
  | .clientGone c =>
    let conn := g.clients c
    if conn.alive ∧ conn.state_ = .kDisconnected then
      some (g.setClient c { conn with alive := false })
    else none
  | .backendUp r =>
    if g.held r ∧ (g.remotes r).connecting then some (g.backendUp r) else none
  | .backendFailed r =>
    if (g.remotes r).connecting then
      some (g.setRemote r { g.remotes r with connecting := false })
    else none
  | .backendRead r data =>
    if (g.remotes r).conn_.isSome ∧ data ≠ [] then
      let g := g.receive r data
      some (if g.held r then RemoteClient.onMessage g r else g)
    else none
  | .backendDown r =>
    if (g.remotes r).conn_.isSome then
      some (if g.held r then g.backendDown r else g.setRemote r { g.remotes r with conn_ := none })
    else none
  | .errorCallback r => if r ∈ g.errors then some (g.errorCallback r) else none
  | .shared lb => some { g with lb }

def step (g : Gateway) (e : Event) : Option Gateway := if g.fault = none then g.stepOk e else none

end L7

end VortexNet
