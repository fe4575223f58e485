import Mathlib.Data.List.Basic
import VortexNet.Proxy.L7.Gateway

/-!
# What the callbacks leave alone

A read from a backend does not touch the client's side of a link: its input
buffer, its connection state, what was forwarded and refused. A read from a
client leaves the responses alone in the same way.
-/

namespace VortexNet.L7

open Picohttpparser

def unconfigured : LB_Server := { hash := fun _ => 0 }

-- ---------------------------------------------------------------------------
-- Updates
-- ---------------------------------------------------------------------------

namespace Gateway

variable {g : Gateway} {c d r s : Nat} {conn : Client} {remote : RemoteClient} {l : Link}

@[simp] theorem setClient_clients : (g.setClient c conn).clients = Function.update g.clients c conn := rfl
@[simp] theorem setClient_lb : (g.setClient c conn).lb = g.lb := rfl
@[simp] theorem setClient_remotes : (g.setClient c conn).remotes = g.remotes := rfl
@[simp] theorem setClient_idle : (g.setClient c conn).idle_map_ = g.idle_map_ := rfl
@[simp] theorem setClient_log : (g.setClient c conn).log = g.log := rfl
@[simp] theorem setClient_fault : (g.setClient c conn).fault = g.fault := rfl
@[simp] theorem setClient_clientCount : (g.setClient c conn).clientCount = g.clientCount := rfl
@[simp] theorem setClient_remoteCount : (g.setClient c conn).remoteCount = g.remoteCount := rfl

@[simp] theorem setRemote_clients : (g.setRemote r remote).clients = g.clients := rfl
@[simp] theorem setRemote_remotes :
    (g.setRemote r remote).remotes = Function.update g.remotes r remote := rfl
@[simp] theorem setRemote_idle : (g.setRemote r remote).idle_map_ = g.idle_map_ := rfl
@[simp] theorem setRemote_log : (g.setRemote r remote).log = g.log := rfl
@[simp] theorem setRemote_fault : (g.setRemote r remote).fault = g.fault := rfl
@[simp] theorem setRemote_clientCount : (g.setRemote r remote).clientCount = g.clientCount := rfl
@[simp] theorem setRemote_remoteCount : (g.setRemote r remote).remoteCount = g.remoteCount := rfl

@[simp] theorem setLink_clients : (g.setLink c r l).clients = Function.update g.clients c l.conn := rfl
@[simp] theorem setLink_remotes :
    (g.setLink c r l).remotes = Function.update g.remotes r l.remote := rfl
@[simp] theorem setLink_idle : (g.setLink c r l).idle_map_ = g.idle_map_ := rfl
@[simp] theorem setLink_log :
    (g.setLink c r l).log = l.trace.map (⟨c, some r, ·⟩) ++ g.log := rfl
@[simp] theorem setLink_fault : (g.setLink c r l).fault = g.fault := rfl
@[simp] theorem setLink_clientCount : (g.setLink c r l).clientCount = g.clientCount := rfl
@[simp] theorem setLink_remoteCount : (g.setLink c r l).remoteCount = g.remoteCount := rfl

@[simp] theorem link_conn : (g.link c r).conn = g.clients c := rfl
@[simp] theorem link_remote : (g.link c r).remote = g.remotes r := rfl

theorem returnConnection_clients : (g.returnConnection c r).clients = g.clients := by
  simp only [returnConnection]
  split <;> rfl

theorem returnConnection_log : (g.returnConnection c r).log =
    ⟨c, some r, .returned (g.remotes r).inputBuffer_ (g.remotes r).exchange⟩ :: g.log := by
  simp only [returnConnection]
  split <;> rfl

theorem returnConnection_fault : (g.returnConnection c r).fault = g.fault := by
  simp only [returnConnection]
  split <;> rfl

theorem returnConnection_clientCount : (g.returnConnection c r).clientCount = g.clientCount := by
  simp only [returnConnection]
  split <;> rfl

theorem borrowConnection_clients : (g.borrowConnection a).2.clients = g.clients := by
  simp only [borrowConnection]
  split <;> rfl

theorem borrowConnection_log : (g.borrowConnection a).2.log = g.log := by
  simp only [borrowConnection]
  split <;> rfl

theorem borrowConnection_fault : (g.borrowConnection a).2.fault = g.fault := by
  simp only [borrowConnection]
  split <;> rfl

theorem borrowConnection_clientCount : (g.borrowConnection a).2.clientCount = g.clientCount := by
  simp only [borrowConnection]
  split <;> rfl

structure Lent (g g' : Gateway) (a : Bytes) (r : Nat) : Prop where
  count : g.remoteCount ≤ g'.remoteCount
  known : r < g'.remoteCount
  remotes : ∀ s, s ≠ r → g'.remotes s = g.remotes s
  source : (g.idle_map_ a).getLast? = some r ∧ g'.remotes r = g.remotes r ∨
    r = g.remoteCount ∧ g'.remotes r = { targetNode := a }
  idle : ∀ b, (g'.idle_map_ b).Sublist (g.idle_map_ b)
  gone : ∀ b, r ∉ g'.idle_map_ b

theorem borrowConnection_lent (hnodup : ∀ a, (g.idle_map_ a).Nodup)
    (hidle : ∀ a, ∀ r ∈ g.idle_map_ a, r < g.remoteCount ∧ (g.remotes r).targetNode = a) :
    Lent g (g.borrowConnection a).2 a (g.borrowConnection a).1 := by
  unfold borrowConnection
  cases hlast : (g.idle_map_ a).getLast? with
  | some r =>
    dsimp only
    obtain ⟨hk, hnode⟩ := hidle a r (List.mem_of_getLast? hlast)
    have hsplit : (g.idle_map_ a).dropLast ++ [r] = g.idle_map_ a :=
      List.dropLast_append_getLast? r hlast
    refine ⟨le_rfl, hk, fun _ _ => rfl, .inl ⟨hlast, rfl⟩, fun b => ?_, fun b hb => ?_⟩
    · by_cases hab : b = a
      · subst hab
        simp only [Function.update_self]
        exact List.dropLast_sublist _
      · simp only [Function.update_of_ne hab]
        exact .refl _
    · by_cases hab : b = a
      · subst hab
        simp only [Function.update_self] at hb
        have hn := hnodup b
        rw [← hsplit] at hn
        exact (List.nodup_append.mp hn).2.2 r hb r (List.mem_singleton_self r) rfl
      · simp only [Function.update_of_ne hab] at hb
        exact hab ((hidle b r hb).2.symm.trans hnode)
  | none =>
    refine ⟨Nat.le_succ _, Nat.lt_succ_self _, fun s hs => ?_, .inr ⟨rfl, ?_⟩, fun _ => .refl _,
      fun b hb => absurd (hidle b _ hb).1 (Nat.lt_irrefl _)⟩
    · exact Function.update_of_ne hs ..
    · exact Function.update_self ..

end Gateway

-- ---------------------------------------------------------------------------
-- Entries and verdicts
-- ---------------------------------------------------------------------------

def Verdict.isRefuse : Verdict → Bool
  | .refuse _ => true
  | .forward _ => false

namespace Entry

def ofRequest : Entry → Bool
  | .forwarded .. => true
  | .refused .. => true
  | _ => false

def ofResponse : Entry → Bool
  | .relayed .. => true
  | .counted .. => true
  | _ => false

def foreign : Entry → Nat
  | .relayed foreign _ => foreign
  | _ => 0

def isReturned : Entry → Bool
  | .returned .. => true
  | _ => false

theorem ofRequest_eq {e : Entry} (h : e.ofResponse = true) : e.ofRequest = false := by
  cases e <;> first | rfl | cases h

theorem isReturned_eq {e : Entry} (h : e.ofResponse = true) : e.isReturned = false := by
  cases e <;> first | rfl | cases h

end Entry

-- ---------------------------------------------------------------------------
-- Backend reads
-- ---------------------------------------------------------------------------

namespace Link

variable {l l' l'' : Link} {n : Nat}

structure Quiet (l l' : Link) : Prop where
  inputBuffer : l'.conn.inputBuffer_ = l.conn.inputBuffer_
  consumed : l'.conn.consumed = l.conn.consumed
  state : l'.conn.state_ = l.conn.state_
  alive : l'.conn.alive = l.conn.alive
  client : l'.conn.context.client_ = l.conn.context.client_ ∨
    l'.finished = true ∧ l'.conn.context.client_ = none
  node : l'.remote.targetNode = l.remote.targetNode
  bound : l'.remote.clientConn_ = l.remote.clientConn_
  busy : l'.remote.is_busy_ = l.remote.is_busy_
  connection : l'.remote.conn_ = l.remote.conn_
  got : l'.remote.exchange.got = l.remote.exchange.got
  method : l'.remote.exchange.method = l.remote.exchange.method
  foreign : l.remote.foreign = 0 → l'.remote.foreign = 0
  trace : ∃ t, l'.trace = t ++ l.trace ∧
    ∀ e ∈ t, e.ofResponse = true ∧ (l.remote.foreign = 0 → e.foreign = 0)
  finished : l.finished = true → l'.finished = true

theorem Quiet.refl (l : Link) : Quiet l l :=
  ⟨rfl, rfl, rfl, rfl, .inl rfl, rfl, rfl, rfl, rfl, rfl, rfl, id, ⟨[], rfl, nofun⟩, id⟩

theorem Quiet.trans (h₁ : Quiet l l') (h₂ : Quiet l' l'') : Quiet l l'' where
  inputBuffer := h₂.inputBuffer.trans h₁.inputBuffer
  consumed := h₂.consumed.trans h₁.consumed
  state := h₂.state.trans h₁.state
  alive := h₂.alive.trans h₁.alive
  client := by
    rcases h₂.client with h | h
    · rcases h₁.client with h' | h'
      · exact .inl (h.trans h')
      · exact .inr ⟨h₂.finished h'.1, h.trans h'.2⟩
    · exact .inr h
  node := h₂.node.trans h₁.node
  bound := h₂.bound.trans h₁.bound
  busy := h₂.busy.trans h₁.busy
  connection := h₂.connection.trans h₁.connection
  got := h₂.got.trans h₁.got
  method := h₂.method.trans h₁.method
  foreign := fun h => h₂.foreign (h₁.foreign h)
  trace := by
    obtain ⟨t, ht, he⟩ := h₁.trace
    obtain ⟨u, hu, he'⟩ := h₂.trace
    refine ⟨u ++ t, by rw [hu, ht, List.append_assoc], fun e hm => ?_⟩
    rcases List.mem_append.mp hm with hm | hm
    · exact ⟨(he' e hm).1, fun h => (he' e hm).2 (h₁.foreign h)⟩
    · exact he e hm
  finished := fun h => h₂.finished (h₁.finished h)

theorem send_state {conn : Client} {data : Bytes} : (conn.send data).state_ = conn.state_ := by
  unfold Client.send
  split <;> rfl

theorem send_fields (conn : Client) (data : Bytes) :
    (conn.send data).inputBuffer_ = conn.inputBuffer_ ∧ (conn.send data).consumed = conn.consumed ∧
      (conn.send data).alive = conn.alive ∧ (conn.send data).context = conn.context := by
  unfold Client.send
  split <;> exact ⟨rfl, rfl, rfl, rfl⟩

theorem relay_context (l : Link) (n : Nat) : (l.relay n).conn.context = l.conn.context :=
  (send_fields l.conn _).2.2.2

theorem parser_relay (l : Link) (n : Nat) : (l.relay n).parser = l.parser :=
  congrArg HttpContext.parser_ (relay_context l n)

theorem setParser_quiet (l : Link) (p : HttpParser) : Quiet l (l.setParser p) :=
  ⟨rfl, rfl, rfl, rfl, .inl rfl, rfl, rfl, rfl, rfl, rfl, rfl, id, ⟨[], rfl, nofun⟩, id⟩

theorem relay_quiet (l : Link) (n : Nat) : Quiet l (l.relay n) := by
  obtain ⟨hb, hc, ha, hx⟩ := send_fields l.conn (l.remote.inputBuffer_.take n)
  refine ⟨hb, hc, send_state, ha, .inl (congrArg _ hx), rfl, rfl, rfl, rfl, rfl, rfl, id,
    ⟨[_], rfl, ?_⟩, id⟩
  simp +contextual [Entry.ofResponse, Entry.foreign]

theorem retrieve_quiet (l : Link) (n : Nat) : Quiet l (l.retrieve n) := by
  refine ⟨rfl, rfl, rfl, rfl, .inl rfl, rfl, rfl, rfl, rfl, rfl, rfl, fun h => ?_,
    ⟨[], rfl, nofun⟩, id⟩
  simp [retrieve, RemoteClient.retrieve, h]

theorem consumeResponse_quiet (l : Link) (n : Nat) : Quiet l (l.consumeResponse n) := by
  refine ⟨rfl, rfl, rfl, rfl, .inl rfl, rfl, rfl, rfl, rfl, rfl, rfl, fun h => ?_,
    ⟨[_], rfl, by simp [Entry.ofResponse, Entry.foreign]⟩, id⟩
  simp [consumeResponse, setParser, retrieve, RemoteClient.retrieve, h]

theorem finish_quiet (l : Link) : Quiet l l.finish := by
  refine ⟨rfl, rfl, rfl, rfl, ?_, rfl, rfl, rfl, rfl, rfl, rfl, id, ⟨[], rfl, nofun⟩, fun _ => rfl⟩
  simp only [finish, HttpContext.reset]
  split
  · exact .inl rfl
  · exact .inr (by simp)

theorem finishIfGotAll_quiet (l : Link) : Quiet l l.finishIfGotAll := by
  unfold finishIfGotAll
  split
  · exact finish_quiet l
  · exact .refl l

theorem relayBody_quiet (l : Link) : Quiet l l.relayBody :=
  ((relay_quiet l _).trans (consumeResponse_quiet _ _)).trans (finishIfGotAll_quiet _)

theorem relayChunks_quiet (l : Link) : Quiet l l.relayChunks := by
  have hsent : Quiet l (if l.conn.state_ = .kConnected then
      (l.relay l.remote.inputBuffer_.length).retrieve l.remote.inputBuffer_.length
      else l.relay l.remote.inputBuffer_.length) := by
    split
    · exact (relay_quiet l _).trans (retrieve_quiet _ _)
    · exact relay_quiet l _
  simp only [relayChunks]
  split
  · exact hsent.trans (finish_quiet _)
  · exact hsent

theorem relayHead_quiet (l : Link) : Quiet l l.relayHead := by
  have hhead := (relay_quiet l l.parser.headerLen).trans (retrieve_quiet _ l.parser.headerLen)
  simp only [relayHead]
  split
  · refine hhead.trans (.trans ?_ (finishIfGotAll_quiet _))
    split
    · exact (relay_quiet _ _).trans (consumeResponse_quiet _ _)
    · exact .refl _
  · exact hhead.trans (relayChunks_quiet _)

theorem relayResponse_quiet (l : Link) : Quiet l l.relayResponse := by
  simp only [relayResponse]
  split
  · split
    · exact relayBody_quiet l
    · exact relayChunks_quiet l
  · split
    · exact (setParser_quiet l _).trans (relayHead_quiet _)
    · exact setParser_quiet l _

theorem resetIfGotAll_inputBuffer (l : Link) :
    l.resetIfGotAll.conn.inputBuffer_ = l.conn.inputBuffer_ := by
  unfold resetIfGotAll
  split <;> rfl

end Link

theorem onResponse_fault {g : Gateway} {r : Nat} : (RemoteClient.onMessage g r).fault = g.fault := by
  simp only [RemoteClient.onMessage]
  split
  · split
    · split
      · exact Gateway.returnConnection_fault
      · rfl
    · rfl
  · rfl

-- ---------------------------------------------------------------------------
-- Client reads
-- ---------------------------------------------------------------------------

namespace Client

variable {conn conn' : Client}

theorem parseRequest_eq {conn : Client} (h : conn.parseRequest = (parsed, conn')) :
    ∃ p buf, conn.context.parser_.parseRequest conn.inputBuffer_ = (parsed, p, buf) ∧
      conn' = { conn with
        context := { conn.context with parser_ := p }
        inputBuffer_ := buf
        consumed := conn.consumed + (conn.inputBuffer_.length - buf.length) } := by
  cases h
  exact ⟨_, _, rfl, rfl⟩

theorem parseRequest_kept (h : conn.parseRequest = (parsed, conn')) :
    conn'.alive = conn.alive ∧ conn.consumed ≤ conn'.consumed ∧
      (parsed = true ↔ 0 < ret (phr_parse_request conn.inputBuffer_)) := by
  obtain ⟨p, buf, hp, rfl⟩ := parseRequest_eq h
  refine ⟨rfl, Nat.le_add_right _ _, ?_⟩
  cases parsed with
  | true => simpa using (HttpParser.parseRequest_parsed hp).1
  | false => simpa using (HttpParser.parseRequest_unparsed hp).1

theorem parseRequest_parsed (h : conn.parseRequest = (true, conn')) :
    conn'.inputBuffer_ = conn.inputBuffer_ ∧ conn'.consumed = conn.consumed ∧
      0 < conn'.context.parser_.headerLen := by
  obtain ⟨p, buf, hp, rfl⟩ := parseRequest_eq h
  obtain ⟨hpos, rfl, hlen⟩ := HttpParser.parseRequest_parsed hp
  exact ⟨rfl, by simp, by simp [HttpParser.headerLen, hlen, hpos]⟩

theorem parseRequest_context (h : conn.parseRequest = (parsed, conn')) :
    conn'.context.client_ = conn.context.client_ ∧ conn'.open_ = conn.open_ ∧
      (parsed = false → conn'.context.parser_.isExpectingBody =
        conn.context.parser_.isExpectingBody) := by
  obtain ⟨p, buf, hp, rfl⟩ := parseRequest_eq h
  refine ⟨rfl, rfl, ?_⟩
  rintro rfl
  rw [(HttpParser.parseRequest_unparsed hp).2]
  rfl

end Client

-- ---------------------------------------------------------------------------
-- The other events
-- ---------------------------------------------------------------------------

structure Untouched (g g' : Gateway) : Prop where
  fault : g'.fault = g.fault
  log : g'.log = g.log
  clientCount : g'.clientCount = g.clientCount
  remoteCount : g'.remoteCount = g.remoteCount
  inputBuffer : ∀ c, (g'.clients c).inputBuffer_ = (g.clients c).inputBuffer_
  consumed : ∀ c, (g'.clients c).consumed = (g.clients c).consumed
  context : ∀ c, (g'.clients c).context = (g.clients c).context
  alive : ∀ c, (g'.clients c).alive = true → (g.clients c).alive = true
  opened : ∀ c, (g'.clients c).open_ = true → (g.clients c).open_ = true
  connected : ∀ c, (g'.clients c).state_ = .kConnected → (g.clients c).state_ = .kConnected
  received : ∀ r, (g'.remotes r).inputBuffer_ = (g.remotes r).inputBuffer_
  bound : ∀ r, (g'.remotes r).clientConn_ = (g.remotes r).clientConn_
  busy : ∀ r, (g'.remotes r).is_busy_ = (g.remotes r).is_busy_
  foreign : ∀ r, (g'.remotes r).foreign = (g.remotes r).foreign
  exchange : ∀ r, (g'.remotes r).exchange = (g.remotes r).exchange
  node : ∀ r, (g'.remotes r).targetNode = (g.remotes r).targetNode
  idle : ∀ a, (g'.idle_map_ a).Sublist (g.idle_map_ a)

def Event.reads : Event → Bool
  | .accept => true
  | .clientRead .. => true
  | .backendRead .. => true
  | _ => false

section
variable {g g' : Gateway} {c r : Nat} {conn : Client} {remote : RemoteClient}

theorem untouched_setClient (hb : conn.inputBuffer_ = (g.clients c).inputBuffer_)
    (hn : conn.consumed = (g.clients c).consumed) (hx : conn.context = (g.clients c).context)
    (ha : conn.alive = true → (g.clients c).alive = true)
    (ho : conn.open_ = true → (g.clients c).open_ = true)
    (hs : conn.state_ = .kConnected → (g.clients c).state_ = .kConnected) :
    Untouched g (g.setClient c conn) where
  fault := rfl
  log := rfl
  clientCount := rfl
  remoteCount := rfl
  inputBuffer d := by by_cases h : d = c <;> simp [h, hb]
  consumed d := by by_cases h : d = c <;> simp [h, hn]
  context d := by by_cases h : d = c <;> simp [h, hx]
  alive d := by
    by_cases h : d = c
    · subst h
      simpa using ha
    · simp [h]
  opened d := by
    by_cases h : d = c
    · subst h
      simpa using ho
    · simp [h]
  connected d := by
    by_cases h : d = c
    · subst h
      simpa using hs
    · simp [h]
  received _ := rfl
  bound _ := rfl
  busy _ := rfl
  foreign _ := rfl
  exchange _ := rfl
  node _ := rfl
  idle _ := .refl _

theorem untouched_setRemote (hb : remote.inputBuffer_ = (g.remotes r).inputBuffer_)
    (hc : remote.clientConn_ = (g.remotes r).clientConn_)
    (hy : remote.is_busy_ = (g.remotes r).is_busy_) (hf : remote.foreign = (g.remotes r).foreign)
    (he : remote.exchange = (g.remotes r).exchange)
    (hn : remote.targetNode = (g.remotes r).targetNode) : Untouched g (g.setRemote r remote) where
  fault := rfl
  log := rfl
  clientCount := rfl
  remoteCount := rfl
  inputBuffer _ := rfl
  consumed _ := rfl
  context _ := rfl
  alive _ h := h
  opened _ h := h
  connected _ h := h
  received s := by by_cases h : s = r <;> simp [h, hb]
  bound s := by by_cases h : s = r <;> simp [h, hc]
  busy s := by by_cases h : s = r <;> simp [h, hy]
  foreign s := by by_cases h : s = r <;> simp [h, hf]
  exchange s := by by_cases h : s = r <;> simp [h, he]
  node s := by by_cases h : s = r <;> simp [h, hn]
  idle _ := .refl _

theorem Untouched.trans (h₁ : Untouched g g') (h₂ : Untouched g' g'') : Untouched g g'' where
  fault := h₂.fault.trans h₁.fault
  log := h₂.log.trans h₁.log
  clientCount := h₂.clientCount.trans h₁.clientCount
  remoteCount := h₂.remoteCount.trans h₁.remoteCount
  inputBuffer c := (h₂.inputBuffer c).trans (h₁.inputBuffer c)
  consumed c := (h₂.consumed c).trans (h₁.consumed c)
  context c := (h₂.context c).trans (h₁.context c)
  alive c h := h₁.alive c (h₂.alive c h)
  opened c h := h₁.opened c (h₂.opened c h)
  connected c h := h₁.connected c (h₂.connected c h)
  received r := (h₂.received r).trans (h₁.received r)
  bound r := (h₂.bound r).trans (h₁.bound r)
  busy r := (h₂.busy r).trans (h₁.busy r)
  foreign r := (h₂.foreign r).trans (h₁.foreign r)
  exchange r := (h₂.exchange r).trans (h₁.exchange r)
  node r := (h₂.node r).trans (h₁.node r)
  idle a := (h₂.idle a).trans (h₁.idle a)

theorem shutdown_open : conn.shutdown.open_ = conn.open_ := by
  unfold Client.shutdown
  split
  · rename_i h
    simp [Client.open_, h]
  · rfl

theorem shutdown_state : conn.shutdown.state_ ≠ .kConnected := by
  unfold Client.shutdown
  split
  · simp
  · exact ‹_›

theorem shutdown_fields (conn : Client) (data : Bytes) :
    (conn.send data).shutdown.inputBuffer_ = conn.inputBuffer_ ∧
      (conn.send data).shutdown.consumed = conn.consumed ∧
      (conn.send data).shutdown.alive = conn.alive ∧
      (conn.send data).shutdown.context = conn.context := by
  have h := Link.send_fields conn data
  unfold Client.shutdown
  split <;> exact h

theorem refuse_clients : (g.refuse c response).clients =
    Function.update g.clients c ((g.clients c).send response).shutdown := rfl

theorem refused_context : (conn.send response).shutdown.context = conn.context :=
  (shutdown_fields _ _).2.2.2

theorem untouched_backendDown : Untouched g (g.backendDown r) := by
  have hclosed : Untouched g (g.setRemote r { g.remotes r with conn_ := none }) :=
    untouched_setRemote rfl rfl rfl rfl rfl rfl
  have hdown : Untouched g { g.setRemote r { g.remotes r with conn_ := none } with
      errors := r :: g.errors } := { hclosed with }
  simp only [Gateway.backendDown]
  split
  · split
    · rename_i c _
      obtain ⟨hb, hn, ha, hx⟩ := shutdown_fields (g.clients c) badGatewayResponse
      refine hdown.trans (untouched_setClient hb hn hx (fun h => ha ▸ h) (fun h => ?_) fun h => ?_)
      · rwa [shutdown_open, Client.open_, (Link.send_fields _ _).2.2.1, Link.send_state] at h
      · exact absurd h shutdown_state
    · exact hdown
  · exact hdown

theorem untouched_errorCallback : Untouched g (g.errorCallback r) where
  fault := rfl
  log := rfl
  clientCount := rfl
  remoteCount := rfl
  inputBuffer _ := rfl
  consumed _ := rfl
  context _ := rfl
  alive _ h := h
  opened _ h := h
  connected _ h := h
  received _ := rfl
  bound _ := rfl
  busy _ := rfl
  foreign _ := rfl
  exchange _ := rfl
  node _ := rfl
  idle a := by
    by_cases h : a = (g.remotes r).targetNode
    · subst h
      simp [Gateway.errorCallback, List.filter_sublist]
    · simp [Gateway.errorCallback, h]

theorem untouched_lb (lb : LB_Server) : Untouched g { g with lb } :=
  ⟨rfl, rfl, rfl, rfl, fun _ => rfl, fun _ => rfl, fun _ => rfl, fun _ h => h, fun _ h => h,
    fun _ h => h, fun _ => rfl, fun _ => rfl, fun _ => rfl, fun _ => rfl, fun _ => rfl, fun _ => rfl,
    fun _ => .refl _⟩

theorem untouched_of_step (h : g.stepOk e = some g') (he : e.reads = false) : Untouched g g' := by
  cases e with
  | accept => cases he
  | clientRead => cases he
  | backendRead => cases he
  | clientClose c =>
    simp only [Gateway.stepOk, Option.ite_none_right_eq_some, Option.some.injEq] at h
    obtain ⟨-, rfl⟩ := h
    exact untouched_setClient rfl rfl rfl id (by simp [Client.open_]) nofun
  | clientGone c =>
    simp only [Gateway.stepOk, Option.ite_none_right_eq_some, Option.some.injEq] at h
    obtain ⟨-, rfl⟩ := h
    exact untouched_setClient rfl rfl rfl nofun nofun id
  | backendUp r =>
    simp only [Gateway.stepOk, Option.ite_none_right_eq_some, Option.some.injEq] at h
    obtain ⟨-, rfl⟩ := h
    simp only [Gateway.backendUp]
    split <;> exact untouched_setRemote rfl rfl rfl rfl rfl rfl
  | backendFailed r =>
    simp only [Gateway.stepOk, Option.ite_none_right_eq_some, Option.some.injEq] at h
    obtain ⟨-, rfl⟩ := h
    exact untouched_setRemote rfl rfl rfl rfl rfl rfl
  | backendDown r =>
    simp only [Gateway.stepOk, Option.ite_none_right_eq_some, Option.some.injEq] at h
    obtain ⟨-, rfl⟩ := h
    split
    · exact untouched_backendDown
    · exact untouched_setRemote rfl rfl rfl rfl rfl rfl
  | errorCallback r =>
    simp only [Gateway.stepOk, Option.ite_none_right_eq_some, Option.some.injEq] at h
    obtain ⟨-, rfl⟩ := h
    exact untouched_errorCallback
  | shared lb =>
    cases h
    exact untouched_lb lb

end

end VortexNet.L7
