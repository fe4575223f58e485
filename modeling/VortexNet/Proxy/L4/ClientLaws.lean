import VortexNet.Net.TcpClient
import VortexNet.Proxy.L4.Session

/-!
# The client of a session and the library's

A session keeps of its `TcpClient` and its `Connector` what the calls of a
`RemoteClient` bring about: one connection, one attempt or one timer at a time.
Each operation keeps it in agreement with the `TcpClient` of the library.
-/

namespace VortexNet

open Connector (Errno)

namespace L4

def Outcome.of : Errno → Outcome
  | .zero | .EINPROGRESS | .EINTR | .EISCONN => .connecting
  | .EAGAIN | .ECONNREFUSED | .ENETUNREACH => .refused
  | .other _ => .error

/-- An `errno` with the outcome. -/
def Outcome.errno : Outcome → Errno
  | .connecting => .zero
  | .refused => .ECONNREFUSED
  | .error => .other 0

theorem Outcome.of_errno (outcome : Outcome) : Outcome.of outcome.errno = outcome := by
  cases outcome <;> rfl

-- ---------------------------------------------------------------------------
-- The connector
-- ---------------------------------------------------------------------------

/-- `k` waits for the attempt. A channel that is left by a connection that came after `stop()`
waits for nothing. -/
def Attempt.WaitsIn (k : VortexNet.Connector) : Attempt → Prop
  | .none => k.timers = [] ∧ (k.channel_ = .none ∨ k.state_ ≠ .kConnecting ∧ k.connect_ = false)
  | .connecting => k.timers = [] ∧ k.state_ = .kConnecting ∧
    ∃ channel, k.channel_ = some channel ∧ channel.fd ∈ k.registered
  | .retryTimer => k.channel_ = .none ∧ ∃ delayMs, k.timers = [(delayMs, .retry)]
  | .restartTimer => k.channel_ = .none ∧ ∃ delayMs, k.timers = [(delayMs, .restart)]

namespace Connector

/-- Everything but the attempt is as in `k`. -/
structure Agrees (κ : Connector) (k : VortexNet.Connector) : Prop where
  connect : k.connect_ = κ.connect_
  retry : k.retry_ = true
  callback : k.newConnectionCallback_ = true
  stops : k.pendingFunctors_.countP (·.ownsConnector) = κ.stopping
  starts : ∀ f ∈ k.pendingFunctors_, f.begins = none

structure Follows (κ : Connector) (k : VortexNet.Connector) : Prop extends Agrees κ k where
  waits : κ.attempt.WaitsIn k

variable {κ : Connector} {k k' : VortexNet.Connector} {channel : VortexNet.Connector.Channel}
  {cb : VortexNet.Connector.Functor} {cbs : List VortexNet.Connector.Functor}
  {label : Option Nat} {savedErrno : Errno} {attempt : Attempt}

theorem Agrees.quiet (h : κ.Agrees k) (hconnect : k'.connect_ = k.connect_)
    (hretry : k'.retry_ = k.retry_)
    (hcallback : k'.newConnectionCallback_ = k.newConnectionCallback_)
    (hqueue : ∃ functors, k'.pendingFunctors_ = k.pendingFunctors_ ++ functors ∧
      ∀ f ∈ functors, f.plain = true) : { κ with attempt }.Agrees k' := by
  obtain ⟨functors, hqueue, hplain⟩ := hqueue
  have hnone : ∀ f ∈ functors, f.begins = none ∧ f.ends = none := fun f hf =>
    of_decide_eq_true (hplain f hf)
  constructor
  · rw [hconnect, h.connect]
  · rw [hretry, h.retry]
  · rw [hcallback, h.callback]
  · have hzero : functors.countP (·.ownsConnector) = 0 := by
      refine List.countP_eq_zero.mpr fun f hf => ?_
      cases f with
      | stopInLoop => cases (hnone _ hf).2
      | _ => exact Bool.false_ne_true
    rw [hqueue, List.countP_append, hzero, h.stops, Nat.add_zero]
  · rw [hqueue]
    intro f hf
    rcases List.mem_append.mp hf with hf | hf
    · exact h.starts f hf
    · exact (hnone f hf).1

theorem Agrees.unqueued (h : κ.Agrees k) (hconnect : k'.connect_ = k.connect_)
    (hretry : k'.retry_ = k.retry_)
    (hcallback : k'.newConnectionCallback_ = k.newConnectionCallback_)
    (hqueue : k'.pendingFunctors_ = k.pendingFunctors_) : { κ with attempt }.Agrees k' :=
  h.quiet hconnect hretry hcallback
    ⟨[], hqueue.trans (List.append_nil _).symm, List.forall_mem_nil _⟩

theorem retry_settings (k : VortexNet.Connector) (fd : Nat) (err : Errno) :
    (k.retry fd err).state_ = .kDisconnected ∧ (k.retry fd err).retry_ = k.retry_ ∧
      (k.retry fd err).newConnectionCallback_ = k.newConnectionCallback_ := by
  unfold VortexNet.Connector.retry
  dsimp only
  cases k.channel_ <;> dsimp only <;> split <;> (try split) <;> exact ⟨rfl, rfl, rfl⟩

theorem retry_timers (hretry : k.retry_ = true) (fd : Nat) (err : Errno) :
    (k.retry fd err).timers =
      if k.connect_ then k.timers ++ [(k.retryDelayMs_, .retry)] else k.timers := by
  unfold VortexNet.Connector.retry
  cases hch : k.channel_ <;> cases hc : k.connect_ <;>
    simp [hretry, VortexNet.Connector.runAfter, VortexNet.Connector.close,
      VortexNet.Connector.dropChannel, VortexNet.Connector.queueInLoop]

theorem Agrees.retry_follows (h : κ.Agrees k) (htimers : k.timers = []) (fd : Nat) (err : Errno) :
    κ.retry.Follows (k.retry fd err) := by
  obtain ⟨hch, hc, -, -, hq⟩ := VortexNet.Connector.retry_quiet k fd err
  obtain ⟨-, hretry, hcallback⟩ := retry_settings k fd err
  refine ⟨h.quiet hc hretry hcallback hq, ?_⟩
  have htimers' := retry_timers h.retry fd err
  rw [htimers, h.connect] at htimers'
  unfold Connector.retry
  cases hconnect : κ.connect_ <;> rw [hconnect] at htimers'
  · exact ⟨htimers', .inl hch⟩
  · exact ⟨hch, _, htimers'⟩

theorem Agrees.connect_follows (h : κ.Agrees k) (hch : k.channel_ = none)
    (htimers : k.timers = []) :
    (κ.connect (.of savedErrno)).Follows (k.connect label savedErrno) := by
  have hmade : κ.Agrees k.createNonblocking := ⟨h.connect, h.retry, h.callback, h.stops, h.starts⟩
  unfold VortexNet.Connector.connect
  cases savedErrno with
  | EAGAIN | ECONNREFUSED | ENETUNREACH => exact hmade.retry_follows htimers _ _
  | other => exact ⟨hmade.unqueued rfl rfl rfl rfl, htimers, .inl hch⟩
  | zero | EINPROGRESS | EINTR | EISCONN =>
    have hch : k.createNonblocking.channel_ = none := hch
    simp only [VortexNet.Connector.connecting, hch]
    exact ⟨hmade.unqueued rfl rfl rfl rfl, htimers, rfl, _, rfl, List.mem_cons_self⟩

theorem Agrees.startInLoop_follows (h : κ.Agrees k) (hch : k.channel_ = none)
    (htimers : k.timers = []) :
    (κ.startInLoop (.of savedErrno)).Follows (k.startInLoop label savedErrno) := by
  unfold VortexNet.Connector.startInLoop Connector.startInLoop
  rw [h.connect]
  split
  · exact h.connect_follows hch htimers
  · exact ⟨⟨h.connect, h.retry, h.callback, h.stops, h.starts⟩, htimers, .inl hch⟩

theorem Agrees.start_follows (h : κ.Agrees k) (hch : k.channel_ = none) (htimers : k.timers = []) :
    (κ.start (.of savedErrno)).Follows (k.start label savedErrno) :=
  Agrees.startInLoop_follows (κ := { κ with connect_ := true }) (k := { k with connect_ := true })
    ⟨rfl, h.retry, h.callback, h.stops, h.starts⟩ hch htimers

theorem Follows.stop (h : κ.Follows k) (n : Nat) : κ.stop.Follows (k.stop n) := by
  refine ⟨⟨rfl, h.retry, h.callback, ?_, fun f hf => ?_⟩, ?_⟩
  · show List.countP _ (k.pendingFunctors_ ++ [_]) = κ.stopping + 1
    rw [List.countP_append, h.stops]
    rfl
  · rcases List.mem_append.mp hf with hf | hf
    · exact h.starts f hf
    · cases List.mem_singleton.mp hf
      rfl
  · have hwaits := h.waits
    show κ.attempt.WaitsIn (k.stop n)
    cases hattempt : κ.attempt with
    | none =>
      rw [hattempt] at hwaits
      exact ⟨hwaits.1, hwaits.2.imp_right fun hleft => ⟨hleft.1, rfl⟩⟩
    | _ =>
      rw [hattempt] at hwaits
      exact hwaits

theorem stopInLoop_settings (k : VortexNet.Connector) (n : Nat) :
    (k.stopInLoop n).connect_ = k.connect_ ∧ (k.stopInLoop n).retry_ = k.retry_ ∧
      (k.stopInLoop n).newConnectionCallback_ = k.newConnectionCallback_ ∧
      (k.stopInLoop n).pendingFunctors_ = k.pendingFunctors_ := by
  cases hch : k.channel_ with
  | none =>
    rw [VortexNet.Connector.stopInLoop_none n hch]
    exact ⟨rfl, rfl, rfl, rfl⟩
  | some channel =>
    rw [VortexNet.Connector.stopInLoop_some n hch]
    exact ⟨rfl, rfl, rfl, rfl⟩

theorem waits_stopInLoop (h : attempt.WaitsIn k) (n : Nat) :
    (if attempt = .connecting then Attempt.none else attempt).WaitsIn (k.stopInLoop n) := by
  cases hch : k.channel_ with
  | none =>
    rw [VortexNet.Connector.stopInLoop_none n hch]
    cases attempt with
    | none => exact ⟨h.1, .inl hch⟩
    | connecting => exact ⟨h.1, .inl hch⟩
    | retryTimer => exact h
    | restartTimer => exact h
  | some channel =>
    rw [VortexNet.Connector.stopInLoop_some n hch]
    cases attempt with
    | none => exact ⟨h.1, .inl rfl⟩
    | connecting => exact ⟨h.1, .inl rfl⟩
    | retryTimer => cases h.1.symm.trans hch
    | restartTimer => cases h.1.symm.trans hch

theorem Follows.command (h : κ.Follows k) (c : VortexNet.Connector.Command) :
    κ.Follows (k.command c) :=
  ⟨⟨h.connect, h.retry, h.callback, h.stops, h.starts⟩, h.waits⟩

theorem Follows.restart (h : κ.Follows k) (hattempt : κ.attempt = .none) (hch : k.channel_ = none) :
    κ.restart.Follows k.restart := by
  have hwaits := h.waits
  rw [hattempt] at hwaits
  refine ⟨⟨rfl, h.retry, h.callback, h.stops, h.starts⟩, hch,
    VortexNet.Connector.kInitRetryDelayMs, ?_⟩
  show k.timers ++ [_] = _
  rw [hwaits.1, List.nil_append]

theorem Follows.functor (h : κ.Follows k) (hqueue : k.pendingFunctors_ = cb :: cbs)
    (savedErrno : Errno) :
    (if cb.ownsConnector then κ.stopInLoop else κ).Follows
      (cb.run { k with pendingFunctors_ := cbs } savedErrno) := by
  have hstarts : ∀ f ∈ cbs, f.begins = none := fun f hf =>
    h.starts f (by rw [hqueue]; exact List.mem_cons_of_mem _ hf)
  have hstops := h.stops
  rw [hqueue, List.countP_cons] at hstops
  have hrest : cb.ownsConnector = false → κ.Follows { k with pendingFunctors_ := cbs } := by
    intro howns
    rw [howns] at hstops
    exact ⟨⟨h.connect, h.retry, h.callback, hstops, hstarts⟩, h.waits⟩
  cases cb with
  | startInLoop => cases h.starts _ (by rw [hqueue]; exact List.mem_cons_self)
  | release => exact hrest rfl
  | errorCallback => exact hrest rfl
  | stopInLoop n =>
    have hwaits := waits_stopInLoop (k := { k with pendingFunctors_ := cbs }) h.waits n
    have hcount : cbs.countP (·.ownsConnector) = κ.stopping - 1 := by
      rw [← hstops]
      rfl
    have hagrees :
        { κ with stopping := κ.stopping - 1 }.Agrees { k with pendingFunctors_ := cbs } :=
      ⟨h.connect, h.retry, h.callback, hcount, hstarts⟩
    obtain ⟨hc, hr, hcb, hq⟩ := stopInLoop_settings { k with pendingFunctors_ := cbs } n
    exact ⟨hagrees.unqueued hc hr hcb hq, hwaits⟩

theorem Follows.timer {timer : Nat × VortexNet.Connector.Timer} (h : κ.Follows k) {i : Nat}
    (htimer : k.timers[i]? = some timer) (savedErrno : Errno) :
    κ.attempt = .retryTimer ∧ (κ.start (.of savedErrno)).Follows
        (timer.2.run { k with timers := k.timers.eraseIdx i } savedErrno) ∨
      κ.attempt = .restartTimer ∧ (κ.startInLoop (.of savedErrno)).Follows
        (timer.2.run { k with timers := k.timers.eraseIdx i } savedErrno) := by
  have hwaits := h.waits
  have hagrees : κ.Agrees { k with timers := k.timers.eraseIdx i } :=
    ⟨h.connect, h.retry, h.callback, h.stops, h.starts⟩
  have hlone : ∀ delayMs t, k.timers = [(delayMs, t)] →
      timer = (delayMs, t) ∧ k.timers.eraseIdx i = [] := by
    intro delayMs t ht
    rw [ht] at htimer ⊢
    cases i with
    | zero =>
      cases htimer
      exact ⟨rfl, rfl⟩
    | succ i => cases htimer
  cases hattempt : κ.attempt with
  | none | connecting =>
    rw [hattempt] at hwaits
    rw [hwaits.1] at htimer
    cases htimer
  | retryTimer =>
    rw [hattempt] at hwaits
    obtain ⟨hch, delayMs, ht⟩ := hwaits
    obtain ⟨rfl, hnil⟩ := hlone _ _ ht
    exact .inl ⟨rfl, hagrees.start_follows hch hnil⟩
  | restartTimer =>
    rw [hattempt] at hwaits
    obtain ⟨hch, delayMs, ht⟩ := hwaits
    obtain ⟨rfl, hnil⟩ := hlone _ _ ht
    exact .inr ⟨rfl, hagrees.startInLoop_follows hch hnil⟩

theorem handleWrite_idle (hstate : k.state_ ≠ .kConnecting) (err : Errno) :
    k.handleWrite channel err = (k, none) := if_pos hstate

theorem handleEvent_error (k : VortexNet.Connector) (channel : VortexNet.Connector.Channel)
    (err : Errno) (write : Option Errno) :
    k.handleEvent channel (some err) write = (k.retry channel.fd err, none) := by
  cases write with
  | none => rfl
  | some write =>
    refine handleWrite_idle (k := k.retry channel.fd err) ?_ write
    rw [(retry_settings k channel.fd err).1]
    exact VortexNet.Connector.StateE.noConfusion

theorem retry_none (hconnect : κ.connect_ = false) (hattempt : κ.attempt = .none) :
    κ.retry = κ := by
  cases κ
  cases hconnect
  cases hattempt
  rfl

theorem Follows.handleEvent_left (h : κ.Follows k) (hch : k.channel_ = some channel)
    (hstate : k.state_ ≠ .kConnecting) (error write : Option Errno) :
    ∃ k', k.handleEvent channel error write = (k', none) ∧ κ.Follows k' := by
  have hwaits := h.waits
  obtain ⟨hattempt, htimers, hconnect⟩ :
      κ.attempt = .none ∧ k.timers = [] ∧ k.connect_ = false := by
    cases hattempt : κ.attempt <;> rw [hattempt] at hwaits
    · rcases hwaits.2 with hnone | ⟨-, hconnect⟩
      · cases hnone.symm.trans hch
      · exact ⟨rfl, hwaits.1, hconnect⟩
    · exact absurd hwaits.2.1 hstate
    · cases hwaits.1.symm.trans hch
    · cases hwaits.1.symm.trans hch
  cases error with
  | some err =>
    have hfollows := h.retry_follows htimers channel.fd err
    rw [retry_none (h.connect.symm.trans hconnect) hattempt] at hfollows
    exact ⟨_, handleEvent_error k channel err write, hfollows⟩
  | none =>
    cases write with
    | some err => exact ⟨k, handleWrite_idle hstate err, h⟩
    | none => exact ⟨k, rfl, h⟩

theorem Follows.connecting (h : κ.Follows k) (hch : k.channel_ = some channel)
    (hstate : k.state_ = .kConnecting) : κ.attempt = .connecting ∧ k.timers = [] := by
  have hwaits := h.waits
  cases hattempt : κ.attempt <;> rw [hattempt] at hwaits
  · rcases hwaits.2 with hnone | ⟨hnot, -⟩
    · cases hnone.symm.trans hch
    · exact absurd hstate hnot
  · exact ⟨rfl, hwaits.1⟩
  · cases hwaits.1.symm.trans hch
  · cases hwaits.1.symm.trans hch

theorem Follows.handleWrite_zero (h : κ.Follows k) (hch : k.channel_ = some channel)
    (hstate : k.state_ = .kConnecting) :
    ∃ k', k.handleWrite channel .zero = (k', if κ.connect_ then some channel.fd else none) ∧
      { κ with attempt := .none }.Follows k' ∧ (κ.connect_ = true → k'.channel_ = none) := by
  have htimers := (h.connecting hch hstate).2
  have hconnect := h.connect
  have hcallback := h.callback
  rcases Bool.eq_false_or_eq_true κ.connect_ with hc | hc <;> rw [hc] at hconnect
  · refine ⟨{ ({ k with state_ := .kConnected }.dropChannel channel).queueInLoop .release with
      log := .handed channel.fd :: k.log }, ?_, ⟨?_, htimers, .inl rfl⟩, fun _ => rfl⟩
    · simp [VortexNet.Connector.handleWrite, hstate, hconnect, hcallback, hc,
        VortexNet.Connector.dropChannel, VortexNet.Connector.queueInLoop]
    · exact h.quiet rfl rfl rfl ⟨[.release], rfl, List.forall_mem_singleton.mpr rfl⟩
  · refine ⟨{ k with state_ := .kConnected }.close channel.fd, ?_,
      ⟨?_, htimers, .inr ⟨VortexNet.Connector.StateE.noConfusion, hconnect⟩⟩, fun hc' => ?_⟩
    · simp [VortexNet.Connector.handleWrite, hstate, hconnect, hc]
    · exact h.unqueued rfl rfl rfl rfl
    · cases hc.symm.trans hc'

theorem Follows.handleWrite_error (h : κ.Follows k) (hch : k.channel_ = some channel)
    (hstate : k.state_ = .kConnecting) (err : Errno) (herr : err ≠ .zero) :
    ∃ k', k.handleWrite channel err = (k', none) ∧ κ.retry.Follows k' := by
  refine ⟨k.retry channel.fd err, ?_, h.retry_follows (h.connecting hch hstate).2 channel.fd err⟩
  simp [VortexNet.Connector.handleWrite, hstate, herr]

end Connector

-- ---------------------------------------------------------------------------
-- The client
-- ---------------------------------------------------------------------------

namespace TcpClient

structure Follows (tc : TcpClient) (t : VortexNet.TcpClient) : Prop where
  connector : tc.connector_.Follows t.connector_
  connect : t.connect_ = tc.connect_
  retry : t.retry_ = true
  conn : t.conn_.map t.states = tc.conn_.map Backend.state_
  idle : tc.conn_.isSome = true → tc.connector_.attempt = .none ∧ t.connector_.channel_ = none
  alive : ∀ id, t.Alive id → t.conn_ = some id
  current : ∀ id, t.conn_ = some id → t.Alive id ∧ 1 ≤ id ∧ id < t.nexConnId_
  numbered : 1 ≤ t.nexConnId_

variable {tc tc' : TcpClient} {κ : Connector} {k : VortexNet.Connector} {t t' : VortexNet.TcpClient}
  {id : Nat} {savedErrno : Errno}

theorem follows_connect (errorCallback : Bool) (savedErrno : Errno) :
    (({} : TcpClient).connect (.of savedErrno)).Follows
      ((VortexNet.TcpClient.fresh errorCallback true).connect savedErrno) where
  connector := Connector.Agrees.start_follows ⟨rfl, rfl, rfl, rfl, List.forall_mem_nil _⟩ rfl rfl
  connect := rfl
  retry := rfl
  conn := rfl
  idle h := by cases h
  alive id h := absurd rfl h
  current id h := by cases h
  numbered := Nat.le_refl 1

theorem Follows.conn_none (h : tc.Follows t) (hnone : tc.conn_ = none) : t.conn_ = none := by
  have hconn := h.conn
  rw [hnone] at hconn
  exact Option.map_eq_none_iff.mp hconn

theorem Follows.data (h : tc.Follows t) (hconnector : tc'.connector_ = tc.connector_)
    (hconnect : tc'.connect_ = tc.connect_)
    (hconn : tc'.conn_.map Backend.state_ = tc.conn_.map Backend.state_) : tc'.Follows t where
  connector := by rw [hconnector]; exact h.connector
  connect := by rw [hconnect]; exact h.connect
  retry := h.retry
  conn := h.conn.trans hconn.symm
  idle hs := by
    rw [hconnector]
    refine h.idle ?_
    rwa [← Option.isSome_map, ← hconn, Option.isSome_map]
  alive := h.alive
  current := h.current
  numbered := h.numbered

theorem Follows.setConnector (h : tc.Follows t) (hk : κ.Follows k)
    (hidle : tc.conn_.isSome = true → κ.attempt = .none ∧ k.channel_ = none) :
    { tc with connector_ := κ }.Follows { t with connector_ := k } where
  connector := hk
  connect := h.connect
  retry := h.retry
  conn := h.conn
  idle := hidle
  alive := h.alive
  current := h.current
  numbered := h.numbered

theorem Follows.shutdown (h : tc.Follows t) (hid : t.conn_ = some id) :
    { tc with conn_ := tc.conn_.map Backend.shutdown }.Follows (t.shutdown id) := by
  have hconn := h.conn
  rw [hid, Option.map_some] at hconn
  obtain ⟨conn, hconn, hstate⟩ := Option.map_eq_some_iff.mp hconn.symm
  unfold VortexNet.TcpClient.shutdown
  split
  · rename_i hup
    refine ⟨h.connector, h.connect, h.retry, ?_, fun _ => h.idle (by rw [hconn]; rfl), ?_, ?_,
      h.numbered⟩
    · simp [VortexNet.TcpClient.setState, hid, hconn, Backend.shutdown, hstate.trans hup]
    · intro other halive
      by_cases hother : other = id
      · exact hother ▸ hid
      · refine h.alive other ?_
        simpa [VortexNet.TcpClient.Alive, VortexNet.TcpClient.setState, hother] using halive
    · intro other hother
      cases hid.symm.trans hother
      refine ⟨?_, (h.current id hid).2⟩
      simp [VortexNet.TcpClient.Alive, VortexNet.TcpClient.setState]
  · rename_i hup
    refine h.data rfl rfl ?_
    simp [hconn, Backend.shutdown, hstate, hup]

theorem Follows.stop (h : tc.Follows t) : tc.stop.Follows t.stop := by
  have hstopped : { tc with connect_ := false, connector_ := tc.connector_.stop }.Follows
      { t with
        connect_ := false
        connector_ := (t.connector_.command .stop).stop t.connector_.commands.length } :=
    ⟨(h.connector.command .stop).stop _, rfl, h.retry, h.conn, h.idle, h.alive, h.current,
      h.numbered⟩
  simp only [VortexNet.TcpClient.stop]
  split
  · rename_i id hid
    exact hstopped.shutdown hid
  · rename_i hid
    have hconn := h.conn
    rw [hid] at hconn
    refine hstopped.data rfl rfl ?_
    simp [TcpClient.stop, Option.map_eq_none_iff.mp hconn.symm]

theorem Follows.newConnection (h : tc.Follows t) (hnone : tc.conn_ = none)
    (hattempt : tc.connector_.attempt = .none) (hch : t.connector_.channel_ = none) {conn : Backend}
    (hstate : conn.state_ = .kConnected) :
    ∃ t', t.newConnection [] [] = some t' ∧ { tc with conn_ := some conn }.Follows t' := by
  refine ⟨_, rfl, h.connector, h.connect, h.retry, ?_, fun _ => ⟨hattempt, hch⟩, ?_, ?_,
    Nat.le_succ_of_le h.numbered⟩
  · simp [VortexNet.TcpClient.setState, hstate]
  · intro id halive
    by_cases hid : id = t.nexConnId_
    · rw [hid]
    · have hdead := h.alive id (by
        simpa [VortexNet.TcpClient.Alive, VortexNet.TcpClient.setState, hid] using halive)
      cases hdead.symm.trans (h.conn_none hnone)
  · rintro id ⟨⟩
    refine ⟨?_, h.numbered, Nat.lt_succ_self _⟩
    simp [VortexNet.TcpClient.Alive, VortexNet.TcpClient.setState]

theorem Follows.handleClose (h : tc.Follows t) (halive : t.Alive id) :
    tc.conn_.isSome = true ∧
      ∃ t', t.handleClose id [] = some t' ∧ tc.removeConnection.Follows t' := by
  have hid := h.alive id halive
  have hsome : tc.conn_.isSome = true := by
    rw [← Option.isSome_map, ← h.conn, hid]
    rfl
  obtain ⟨hattempt, hch⟩ := h.idle hsome
  have hdead : ∀ other, (t.setState id .kDisconnected).Alive other → False := by
    intro other hother
    by_cases ho : other = id
    · simp [VortexNet.TcpClient.Alive, VortexNet.TcpClient.setState, ho] at hother
    · have hsame := h.alive other (by
        simpa [VortexNet.TcpClient.Alive, VortexNet.TcpClient.setState, ho] using hother)
      exact ho (Option.some.inj (hsame.symm.trans hid))
  refine ⟨hsome, _, rfl, ?_⟩
  have hconnect := h.connect
  unfold VortexNet.TcpClient.removeConnection TcpClient.removeConnection
  simp only [VortexNet.TcpClient.setState, h.retry, hconnect, Bool.true_and]
  split
  · exact ⟨(h.connector.command .restart).restart hattempt hch, rfl, rfl, rfl,
      (fun hs => by cases hs), fun other hother => (hdead other hother).elim,
      (fun _ h => by cases h), h.numbered⟩
  · exact ⟨h.connector, rfl, rfl, rfl, (fun hs => by cases hs),
      fun other hother => (hdead other hother).elim, (fun _ h => by cases h), h.numbered⟩

end TcpClient

end L4

end VortexNet
