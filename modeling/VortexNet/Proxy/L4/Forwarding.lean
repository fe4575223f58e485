import VortexNet.Proxy.L4.Session

/-!
# What the backend connections of an L4 session receive

Its backend connections together receive the client's stream, in order, each
byte once (`consecutive`). So a connection that a reconnect has opened receives
the stream from its beginning only as long as none before it was sent anything.
-/

namespace VortexNet

open Picohttpparser
open Systems (Reach Always exec)

namespace L4

namespace RemoteClient

/-- What was sent on each backend connection, the last one first. -/
def connections (r : RemoteClient) : List Bytes :=
  r.tc_.conn_.toList.map Backend.sent ++ r.tc_.closed

def sent (r : RemoteClient) : Bytes := r.connections.reverse.flatten

def Unused (r : RemoteClient) : Prop := ∀ data ∈ r.tc_.closed, data = []

end RemoteClient

def Session.connections (s : Session) : List Bytes :=
  s.client.context_.elim [] RemoteClient.connections

/-- Each backend connection receives the client's stream from its beginning. -/
def Session.Forwards (s : Session) : Prop := ∀ data ∈ s.connections, data <+: s.stream

/-- Bytes go to a connection only when none have gone to one before it: what is read goes to
one that is up, and what is pending to one that comes up. -/
def First (s : Session) : Event → Prop
  | .read _ => ∀ r ∈ s.client.context_,
    r.tc_.conn_.any (fun conn => conn.state_ = .kConnected) = true → r.Unused
  | .connected => ∀ r ∈ s.client.context_,
    r.tc_.connector_.connect_ = true → r.pendingBuffer_ ≠ [] → r.Unused
  | _ => True

-- ---------------------------------------------------------------------------
-- Nothing is lost, repeated or reordered
-- ---------------------------------------------------------------------------

variable {lb : LB_Server} {ip : Bytes} {s s' : Session} {r r' : RemoteClient} {e : Event}
  {stream buf : Bytes}

structure Sends (r : RemoteClient) (stream buf : Bytes) : Prop where
  stream_eq : r.sent ++ r.pendingBuffer_ ++ buf = stream
  pending : r.tc_.conn_.isSome = true → r.pendingBuffer_ = []
  idle : r.tc_.conn_.isSome = true → r.tc_.connector_.attempt = .none

structure Kept (s : Session) : Prop where
  fresh : s.client.state_ = .kConnecting →
    s.stream = [] ∧ s.client.inputBuffer_ = [] ∧ s.client.context_ = none
  sends : ∀ r, s.client.context_ = some r → Sends r s.stream s.client.inputBuffer_

def Grown (s : Session) (e : Event) (s' : Session) : Prop :=
  s'.connections = s.connections ∨ s'.connections = [] :: s.connections ∨
    ∃ r data, s.client.context_ = some r ∧ s'.connections = data :: r.tc_.closed ∧
      (First s e → r.Unused)

theorem Sends.conn_none (h : Sends r stream buf) (ha : r.tc_.connector_.attempt ≠ .none) :
    r.tc_.conn_ = none := by
  cases hconn : r.tc_.conn_ with
  | none => rfl
  | some conn => exact absurd (h.idle (by rw [hconn]; rfl)) ha

theorem Sends.quiet (h : Sends r stream buf) (hconn : r'.connections = r.connections)
    (hpending : r'.pendingBuffer_ = r.pendingBuffer_)
    (hsome : r'.tc_.conn_.isSome = true → r.tc_.conn_.isSome = true ∧
      (r.tc_.connector_.attempt = .none → r'.tc_.connector_.attempt = .none)) :
    Sends r' stream buf where
  stream_eq := by rw [RemoteClient.sent, hconn, hpending]; exact h.stream_eq
  pending hs := hpending.trans (h.pending (hsome hs).1)
  idle hs := (hsome hs).2 (h.idle (hsome hs).1)

theorem connections_stop : r.stop.connections = r.connections := by
  cases hconn : r.tc_.conn_ with
  | none => simp [RemoteClient.connections, RemoteClient.stop, TcpClient.stop, hconn]
  | some conn =>
    simp only [RemoteClient.connections, RemoteClient.stop, TcpClient.stop, hconn, Option.map_some,
      Option.toList_some, List.map_cons, Backend.shutdown]
    split <;> rfl

theorem Sends.stop (h : Sends r stream buf) : Sends r.stop stream buf :=
  h.quiet connections_stop rfl fun hs =>
    ⟨by simpa [RemoteClient.stop, TcpClient.stop] using hs, id⟩

theorem connections_removeConnection :
    { r with tc_ := r.tc_.removeConnection }.connections = r.connections := by
  unfold TcpClient.removeConnection RemoteClient.connections
  dsimp only
  split <;> rfl

theorem Sends.removeConnection (h : Sends r stream buf) :
    Sends { r with tc_ := r.tc_.removeConnection } stream buf := by
  refine h.quiet connections_removeConnection rfl fun hs => ?_
  simp only [TcpClient.removeConnection] at hs
  split at hs <;> cases hs

theorem Sends.read (h : Sends r stream buf) (data : Bytes) :
    Sends r (stream ++ data) (buf ++ data) where
  stream_eq := by rw [← h.stream_eq, List.append_assoc, List.append_assoc, List.append_assoc]
  pending := h.pending
  idle := h.idle

theorem Sends.newConnection (h : Sends r stream buf) (hnone : r.tc_.conn_ = none)
    (hattempt : r.tc_.connector_.attempt = .none) :
    Sends r.newConnection stream buf ∧
      r.newConnection.connections = r.pendingBuffer_ :: r.tc_.closed := by
  have hconn : r.newConnection.connections = r.pendingBuffer_ :: r.tc_.closed := by
    simp [RemoteClient.newConnection, RemoteClient.connections, Backend.send]
  refine ⟨⟨?_, fun _ => rfl, fun _ => hattempt⟩, hconn⟩
  have hbefore := h.stream_eq
  rw [RemoteClient.sent, hconn]
  simpa [RemoteClient.sent, RemoteClient.connections, hnone, RemoteClient.newConnection] using hbefore

theorem Sends.sendToBackend (h : Sends r stream buf) :
    Sends (r.sendToBackend buf).1 stream (r.sendToBackend buf).2 ∧
      ((r.sendToBackend buf).1.connections = r.connections ∨
        ∃ data, (r.sendToBackend buf).1.connections = data :: r.tc_.closed ∧
          r.tc_.conn_.any (fun conn => conn.state_ = .kConnected) = true) := by
  have hs := h.stream_eq
  cases hconn : r.tc_.conn_ with
  | none =>
    simp only [RemoteClient.sendToBackend, TcpClient.send, hconn]
    refine ⟨⟨?_, ?_, ?_⟩, .inl ?_⟩
    · simpa [RemoteClient.sent, RemoteClient.connections, hconn] using hs
    · simp [hconn]
    · simp [hconn]
    · simp [RemoteClient.connections, hconn]
  | some conn =>
    have hpending := h.pending (by rw [hconn]; rfl)
    have hidle := h.idle (by rw [hconn]; rfl)
    by_cases hst : conn.state_ = .kConnected
    · have hsend : conn.send buf = ({ conn with sent := conn.sent ++ buf }, []) := if_pos hst
      simp only [RemoteClient.sendToBackend, TcpClient.send, hconn, hsend, if_true]
      refine ⟨⟨?_, fun _ => hpending, fun _ => hidle⟩, .inr ⟨conn.sent ++ buf, ?_, ?_⟩⟩
      · simp only [RemoteClient.sent, RemoteClient.connections, hconn, hpending] at hs ⊢
        simpa using hs
      · simp [RemoteClient.connections]
      · simp [hst]
    · have hsend : conn.send buf = (conn, buf) := if_neg hst
      simp only [RemoteClient.sendToBackend, TcpClient.send, hconn, hsend, if_true]
      refine ⟨⟨?_, fun _ => hpending, fun _ => hidle⟩, .inl ?_⟩
      · simp only [RemoteClient.sent, RemoteClient.connections, hconn] at hs ⊢
        exact hs
      · simp [RemoteClient.connections, hconn]

-- ---------------------------------------------------------------------------
-- One step
-- ---------------------------------------------------------------------------

structure SameClient (s s' : Session) : Prop where
  stream : s'.stream = s.stream
  inputBuffer_ : s'.client.inputBuffer_ = s.client.inputBuffer_
  fresh : s'.client.state_ = .kConnecting → s.client.state_ = .kConnecting

theorem Kept.setRemote (h : Kept s) (hr : s.client.context_ = some r) (hsame : SameClient s s')
    (hr' : s'.client.context_ = some r') (hs : Sends r' s.stream s.client.inputBuffer_) : Kept s' where
  fresh hst := by
    obtain ⟨-, -, hnone⟩ := h.fresh (hsame.fresh hst)
    cases hnone.symm.trans hr
  sends r'' hr'' := by
    cases hr'.symm.trans hr''
    rw [hsame.stream, hsame.inputBuffer_]
    exact hs

theorem sameClient_backendDown : SameClient s (s.backendDown r) := by
  unfold Session.backendDown Client.shutdown
  split
  · exact ⟨rfl, rfl, (fun h => by cases h)⟩
  · exact ⟨rfl, rfl, id⟩

theorem sameClient_relay : SameClient s (s.relay r conn) := by
  have hsend : (s.client.send conn.inputBuffer_).1.state_ = s.client.state_ ∧
      (s.client.send conn.inputBuffer_).1.inputBuffer_ = s.client.inputBuffer_ := by
    unfold Client.send
    split <;> exact ⟨rfl, rfl⟩
  exact ⟨rfl, hsend.2, fun h => hsend.1.symm.trans h⟩

theorem remoteStep_spec (h : Kept s) (hr : s.client.context_ = some r)
    (hs : remoteStep s r e = some s') : Kept s' ∧ Grown s e s' := by
  have hsends := h.sends r hr
  have hconns : s.connections = r.connections := by rw [Session.connections, hr]; rfl
  -- A change of the connector alone.
  have hset : ∀ k : Connector, (r.tc_.conn_.isSome = true → k.attempt = .none) →
      Kept (s.setRemote { r with tc_ := { r.tc_ with connector_ := k } }) ∧
        Grown s e (s.setRemote { r with tc_ := { r.tc_ with connector_ := k } }) := fun k hk =>
    ⟨h.setRemote hr ⟨rfl, rfl, id⟩ rfl (hsends.quiet rfl rfl fun hsome => ⟨hsome, fun _ => hk hsome⟩),
      .inl hconns.symm⟩
  have hset_attempt : ∀ k : Connector, r.tc_.connector_.attempt ≠ .none →
      Kept (s.setRemote { r with tc_ := { r.tc_ with connector_ := k } }) ∧
        Grown s e (s.setRemote { r with tc_ := { r.tc_ with connector_ := k } }) := by
    intro k hattempt
    refine hset k fun hsome => ?_
    rw [hsends.conn_none hattempt] at hsome
    cases hsome
  cases e with
  | established | read | close | destroyed => simp [remoteStep] at hs
  | connected =>
    simp only [remoteStep] at hs
    split at hs <;> cases hs
    rename_i hattempt
    have hne : r.tc_.connector_.attempt ≠ .none := by rw [hattempt]; simp
    have hnone := hsends.conn_none hne
    split
    · rename_i hconnect
      obtain ⟨hnew, hopened⟩ := Sends.newConnection (r := { r with tc_ := { r.tc_ with
        connector_ := { r.tc_.connector_ with attempt := .none } } })
        (hsends.quiet rfl rfl fun hsome => ⟨hsome, fun _ => rfl⟩) hnone rfl
      refine ⟨h.setRemote hr ⟨rfl, rfl, id⟩ rfl hnew, .inr ?_⟩
      by_cases hpending : r.pendingBuffer_ = []
      · refine .inl (hopened.trans ?_)
        rw [hconns, RemoteClient.connections, hnone]
        simp [hpending]
      · exact .inr ⟨r, _, hr, hopened, fun hfirst => hfirst r hr hconnect hpending⟩
    · exact hset_attempt _ hne
  | connectFailed =>
    simp only [remoteStep] at hs
    split at hs <;> cases hs
    rename_i hattempt
    exact hset_attempt _ (by rw [hattempt]; simp)
  | timer =>
    simp only [remoteStep] at hs
    split at hs <;> cases hs <;> rename_i hattempt
    · exact hset_attempt _ (by rw [hattempt]; simp)
    · exact hset_attempt _ (by rw [hattempt]; simp)
  | stopInLoop =>
    simp only [remoteStep] at hs
    split at hs <;> cases hs
    refine hset _ fun hsome => ?_
    simp [Connector.stopInLoop, hsends.idle hsome]
  | backendRead data =>
    simp only [remoteStep] at hs
    split at hs
    · obtain ⟨conn, hconn, rfl⟩ := Option.map_eq_some_iff.mp hs
      refine ⟨h.setRemote hr sameClient_relay rfl (hsends.quiet ?_ rfl ?_), .inl (Eq.trans ?_ hconns.symm)⟩
      · simp [RemoteClient.connections, hconn]
      · exact fun _ => ⟨by rw [hconn]; rfl, id⟩
      · simp [Session.connections, Session.relay, Session.setRemote, RemoteClient.connections, hconn]
    · cases hs
  | backendClose =>
    simp only [remoteStep] at hs
    split at hs <;> cases hs
    refine ⟨h.setRemote hr sameClient_backendDown rfl hsends.removeConnection, .inl ?_⟩
    rw [hconns]
    exact connections_removeConnection

theorem Kept.step (h : Kept s) (hs : step lb ip s e = some s') : Kept s' ∧ Grown s e s' := by
  unfold L4.step at hs
  split at hs
  · cases hs
  · cases e with
    | established outcome =>
      simp only at hs
      split at hs <;> cases hs
      rename_i hst
      obtain ⟨hstream, hbuf, hnone⟩ := h.fresh hst
      unfold LB_Server.onConnection
      split
      · refine ⟨⟨(fun h => by cases h), ?_⟩, .inl ?_⟩
        · rintro r ⟨⟩
          exact ⟨by rw [hstream, hbuf]; rfl, (fun h => by cases h), (fun h => by cases h)⟩
        · simp only [Session.connections, hnone]
          rfl
      · refine ⟨⟨(fun h => by cases h), ?_⟩, .inl rfl⟩
        intro r hr
        cases hnone.symm.trans hr
    | read data =>
      simp only at hs
      split at hs <;> cases hs
      rename_i hreading
      have hst : s.client.state_ ≠ .kConnecting := by
        intro hst
        simp [Client.reading, hst] at hreading
      unfold Session.onMessage
      dsimp only
      cases hr : s.client.context_ with
      | some r =>
        have hconns : s.connections = r.connections := by rw [Session.connections, hr]; rfl
        obtain ⟨hsends, hgrown⟩ := ((h.sends r hr).read data).sendToBackend
        refine ⟨⟨fun h => absurd h hst, ?_⟩, ?_⟩
        · rintro r' ⟨⟩
          exact hsends
        · rcases hgrown with hsame | ⟨sent, hsent, hup⟩
          · exact .inl (Eq.trans hsame hconns.symm)
          · exact .inr (.inr ⟨r, sent, hr, hsent, fun hfirst => hfirst r hr hup⟩)
      | none =>
        refine ⟨⟨fun h => absurd h hst, fun r hr' => ?_⟩, .inl ?_⟩
        · cases hr'
        · simp [Session.connections, hr]
    | close =>
      simp only at hs
      split at hs <;> cases hs
      unfold Session.onDisconnection
      cases hr : s.client.context_ with
      | some r =>
        refine ⟨h.setRemote hr ⟨rfl, rfl, (fun h => by cases h)⟩ rfl (h.sends r hr).stop, .inl ?_⟩
        exact Eq.trans connections_stop (by rw [Session.connections, hr]; rfl)
      | none =>
        refine ⟨⟨(fun h => by cases h), fun r hr' => ?_⟩, .inl ?_⟩
        · cases hr'
        · simp [Session.connections, hr]
    | destroyed =>
      simp only at hs
      split at hs <;> cases hs
      exact ⟨⟨h.fresh, h.sends⟩, .inl rfl⟩
    | _ =>
      obtain ⟨r, hr, hstep⟩ := Option.bind_eq_some_iff.mp hs
      exact remoteStep_spec h hr hstep

-- ---------------------------------------------------------------------------
-- Runs
-- ---------------------------------------------------------------------------

theorem kept_init : Kept {} := ⟨fun _ => ⟨rfl, rfl, rfl⟩, fun r hr => by cases hr⟩

theorem kept_of_reach (h : Reach (step lb ip) C {} s) : Kept s :=
  h.invariant kept_init fun _ _ _ hkept _ hs => (hkept.step hs).1

theorem Kept.begins (h : Kept s) : s.connections.reverse.flatten <+: s.stream := by
  cases hr : s.client.context_ with
  | none => simp [Session.connections, hr]
  | some r =>
    rw [Session.connections, hr, ← (h.sends r hr).stream_eq, List.append_assoc]
    exact List.prefix_append _ _

/-- Every connection receives the stream from where the one before it has stopped. -/
theorem consecutive (h : Reach (step lb ip) C {} s) (hc : s.connections = newer ++ data :: older) :
    older.reverse.flatten ++ data <+: s.stream := by
  have hall := (kept_of_reach h).begins
  rw [hc] at hall
  simp only [List.reverse_append, List.reverse_cons, List.flatten_append, List.append_assoc,
    List.flatten_singleton] at hall
  exact List.IsPrefix.trans ⟨_, (List.append_assoc _ _ _)⟩ hall

def Whole (s : Session) : Prop :=
  ∀ data ∈ s.connections, data = [] ∨ data = s.connections.reverse.flatten

theorem Whole.step (h : Whole s) (hgrown : Grown s e s') (hfirst : First s e) : Whole s' := by
  rcases hgrown with hsame | hnew | ⟨r, data, hr, hsent, hunused⟩
  · rwa [Whole, hsame]
  · intro x hx
    rw [hnew] at hx ⊢
    rcases List.mem_cons.mp hx with rfl | hx
    · exact .inl rfl
    · simpa using h x hx
  · have hall : ∀ x ∈ r.tc_.closed, x = [] := hunused hfirst
    have hnil : r.tc_.closed.reverse.flatten = [] :=
      List.flatten_eq_nil_iff.mpr fun x hx => hall x (List.mem_reverse.mp hx)
    intro x hx
    rw [hsent] at hx ⊢
    rcases List.mem_cons.mp hx with rfl | hx
    · exact .inr (by simp [hnil])
    · exact .inl (hall x hx)

theorem forwards_first (h : Reach (step lb ip) First {} s) : s.Forwards := by
  have hinv := h.invariant (I := fun s => Kept s ∧ Whole s) ⟨kept_init, List.forall_mem_nil _⟩
    fun _ _ _ hi hfirst hs => ⟨(hi.1.step hs).1, hi.2.step (hi.1.step hs).2 hfirst⟩
  intro data hdata
  rcases hinv.2 data hdata with rfl | rfl
  · exact List.nil_prefix
  · exact hinv.1.begins

instance (r : RemoteClient) : Decidable r.Unused := inferInstanceAs (Decidable (∀ data ∈ _, _))

instance (s : Session) (e : Event) : Decidable (First s e) :=
  match e with
  | .read _ | .connected => inferInstanceAs (Decidable (∀ r ∈ s.client.context_, _))
  | .established _ | .close | .destroyed | .connectFailed | .timer _ | .stopInLoop
  | .backendRead _ | .backendClose => .isTrue trivial

/-- One backend, and a session in which it refuses the first connection and closes the second
one after four bytes. -/
def oneBackend : LB_Server := .new List.length [ascii "10.0.0.1:80"]

def retriedRun : List Event :=
  [.established .refused, .read [1, 2], .timer .connecting, .read [3], .connected, .read [4],
    .backendClose, .read [5], .close, .stopInLoop, .destroyed]

theorem forwards_first_retried : ∃ s, exec (step oneBackend (ascii "10.0.0.9")) First {} retriedRun =
    some s ∧ s.connections = [[1, 2, 3, 4]] ∧ s.Forwards := by
  have hrun : (exec (step oneBackend (ascii "10.0.0.9")) First {} retriedRun).any
      (fun s => s.connections = [[1, 2, 3, 4]]) = true := by decide +kernel
  obtain ⟨s, hs, hconns⟩ := (Option.any_eq_true _ _).mp hrun
  exact ⟨s, hs, of_decide_eq_true hconns, forwards_first (.of_exec hs)⟩

def reconnectedRun : List Event :=
  [.established .connecting, .connected, .read [1], .backendClose, .timer .connecting, .connected,
    .read [2]]

theorem not_forwards_reconnected :
    ¬ ∀ s, Reach (step oneBackend (ascii "10.0.0.9")) Always {} s → s.Forwards := by
  intro h
  have hrun : (exec (step oneBackend (ascii "10.0.0.9")) Always {} reconnectedRun).any
      (fun s => s.connections = [[2], [1]] ∧ s.stream = [1, 2]) = true := by decide +kernel
  obtain ⟨s, hs, hall⟩ := (Option.any_eq_true _ _).mp hrun
  obtain ⟨hconns, hstream⟩ := of_decide_eq_true hall
  have hbegins : [2] <+: s.stream := h s (.of_exec hs) _ (by rw [hconns]; exact List.mem_cons_self)
  rw [hstream] at hbegins
  exact absurd hbegins (by decide)

end L4

end VortexNet
