import VortexNet.Proxy.L4.ClientLaws

/-!
# A session beside the library's client

A session with the `TcpClient` of the library beside it, driven by the same
calls, has a step for each step of that one, and comes to the states that it has
alone (`Hosted.client_refined`).
-/

namespace VortexNet

open Picohttpparser
open Systems (Reach Always exec)
open Connector (Errno)

namespace L4

-- ---------------------------------------------------------------------------
-- The session beside the client
-- ---------------------------------------------------------------------------

/-- A session, and the library's client that its `RemoteClient` owns. -/
structure Hosted where
  session : Session := {}
  client : VortexNet.TcpClient

namespace Hosted

inductive Event
  | client (e : VortexNet.TcpClient.Event)
  | session (e : L4.Event)

def eventOf (t : VortexNet.TcpClient) : VortexNet.TcpClient.Event → Option L4.Event
  | .connect savedErrno => some (.established (.of savedErrno))
  | .stop => some .close
  | .functor _ =>
    if t.connector_.pendingFunctors_.head?.any (·.ownsConnector) then some .stopInLoop else none
  | .timer _ savedErrno => some (.timer (.of savedErrno))
  | .handleEvent error write _ _ =>
    if t.connector_.state_ ≠ .kConnecting then none
    else match error, write with
      | none, none => none
      | none, some .zero => some .connected
      | _, _ => some .connectFailed
  | .handleClose _ _ => some .backendClose
  | .connectFrom | .disconnect | .shutdown _ => none

def step (lb : LB_Server) (ip : Bytes) (h : Hosted) : Event → Option Hosted
  | .client e => do
    let client ← h.client.step e
    match eventOf h.client e with
    | some e => (L4.step lb ip h.session e).map fun session => { session, client }
    | none => some { h with client }
  | .session e => (L4.step lb ip h.session e).map fun session => { h with session }

/-- The calls that `LB_Server` and `RemoteClient` make of the client, and what its loop reports;
the callbacks of the connection make no calls of it. -/
def Called (lb : LB_Server) (ip : Bytes) (h : Hosted) : VortexNet.TcpClient.Event → Prop
  | .connect _ => h.session.client.state_ = .kConnecting ∧ lb.Available ip
  | .stop => h.session.client.reading = true ∧ h.session.client.context_.isSome = true
  | .functor _ | .timer _ _ => True
  | .handleEvent _ _ up down => up = [] ∧ down = []
  | .handleClose id down => h.client.Alive id ∧ down = []
  | .connectFrom | .disconnect | .shutdown _ => False

/-- The other events of the session are those that leave the client alone. -/
def Meets (lb : LB_Server) (ip : Bytes) (h : Hosted) : Event → Prop
  | .client e => h.session.fault = false ∧ h.session.client.alive = true ∧ h.Called lb ip e
  | .session (.established _) => ¬ lb.Available ip
  | .session .close => h.session.client.context_ = none
  | .session (.read _) | .session .destroyed | .session (.backendRead _) => True
  | .session _ => False

structure Follows (errorCallback : Bool) (h : Hosted) : Prop where
  without : h.session.client.context_ = none → h.client = .fresh errorCallback true
  client : ∀ r, h.session.client.context_ = some r → r.tc_.Follows h.client
  fresh : h.session.client.state_ = .kConnecting → h.session.client.context_ = none

variable {errorCallback : Bool} {lb : LB_Server} {ip buf : Bytes} {host : Hosted} {s s' : Session}
  {r r' : RemoteClient} {t t' : VortexNet.TcpClient} {e : VortexNet.TcpClient.Event}
  {e' : L4.Event} {savedErrno : Errno}

def Live (s : Session) : Prop := s.fault = false ∧ s.client.alive = true

theorem step_live (hlive : Live s) (hr : s.client.context_ = some r)
    (hs : remoteStep s r e' = some s') : L4.step lb ip s e' = some s' := by
  have hgo : ¬ (s.fault = true ∨ (!s.client.alive) = true) := by simp [hlive.1, hlive.2]
  unfold L4.step
  rw [if_neg hgo]
  cases e' with
  | established | read | close | destroyed => cases hs
  | _ =>
    show Option.bind s.client.context_ _ = _
    rw [hr]
    exact hs

theorem follows_some (hr : s.client.context_ = some r) (hst : s.client.state_ ≠ .kConnecting)
    (hfollows : r.tc_.Follows t) : Follows errorCallback ⟨s, t⟩ where
  without hnone := by cases hnone.symm.trans hr
  client r' hr' := by
    cases hr.symm.trans hr'
    exact hfollows
  fresh h := absurd h hst

theorem follows_none (hnone : s.client.context_ = none) (ht : t = .fresh errorCallback true) :
    Follows errorCallback ⟨s, t⟩ where
  without _ := ht
  client r hr := by cases hnone.symm.trans hr
  fresh _ := hnone

theorem Follows.up (h : Follows errorCallback ⟨s, t⟩) (hr : s.client.context_ = some r) :
    s.client.state_ ≠ .kConnecting := by
  intro hst
  cases (h.fresh hst).symm.trans hr

theorem Follows.setRemote (h : Follows errorCallback ⟨s, t⟩) (hr : s.client.context_ = some r)
    (hr' : r'.tc_.Follows t') : Follows errorCallback ⟨s.setRemote r', t'⟩ :=
  follows_some rfl (h.up hr) hr'

theorem Follows.remote (h : Follows errorCallback ⟨s, t⟩)
    (hidle : (VortexNet.TcpClient.fresh errorCallback true).step e = none)
    (ht : t.step e = some t') : ∃ r, s.client.context_ = some r ∧ r.tc_.Follows t := by
  cases hr : s.client.context_ with
  | some r => exact ⟨r, rfl, h.client r hr⟩
  | none =>
    have hfresh : t = .fresh errorCallback true := h.without hr
    rw [hfresh, hidle] at ht
    cases ht

theorem step_quiet (he : eventOf t e = none) (ht : t.step e = some t') :
    step lb ip ⟨s, t⟩ (.client e) = some ⟨s, t'⟩ := by
  simp only [step, ht, he]
  rfl

def Matched (errorCallback : Bool) (lb : LB_Server) (ip : Bytes) (s : Session)
    (t : VortexNet.TcpClient) (e : VortexNet.TcpClient.Event) (t' : VortexNet.TcpClient) : Prop :=
  ∃ s', step lb ip ⟨s, t⟩ (.client e) = some ⟨s', t'⟩ ∧ Follows errorCallback ⟨s', t'⟩

theorem Follows.stays (h : Follows errorCallback ⟨s, t⟩) (hr : s.client.context_ = some r)
    (he : eventOf t e = none) (ht : t.step e = some t') (hr' : r.tc_.Follows t') :
    Matched errorCallback lb ip s t e t' := by
  exact ⟨s, step_quiet he ht, follows_some hr (h.up hr) hr'⟩

theorem Follows.moves (h : Follows errorCallback ⟨s', t'⟩) (he : eventOf t e = some e')
    (ht : t.step e = some t') (hs : L4.step lb ip s e' = some s') :
    Matched errorCallback lb ip s t e t' := by
  refine ⟨s', ?_, h⟩
  simp only [step, ht, he]
  show Option.map _ (L4.step lb ip s e') = _
  rw [hs]
  rfl

theorem Follows.moves_connector {κ : Connector} {k : VortexNet.Connector}
    (h : Follows errorCallback ⟨s, t⟩) (hlive : Live s) (hr : s.client.context_ = some r)
    (he : eventOf t e = some e') (ht : t.step e = some { t with connector_ := k })
    (hs : remoteStep s r e' =
      some (s.setRemote { r with tc_ := { r.tc_ with connector_ := κ } })) (hk : κ.Follows k)
    (hidle : r.tc_.conn_.isSome = true → κ.attempt = .none ∧ k.channel_ = none) :
    Matched errorCallback lb ip s t e { t with connector_ := k } := by
  have hset : { r.tc_ with connector_ := κ }.Follows { t with connector_ := k } :=
    (h.client r hr).setConnector hk hidle
  exact Follows.moves (h.setRemote hr hset) he ht
    (step_live hlive hr hs)

theorem Follows.functor (h : Follows errorCallback ⟨s, t⟩) (hlive : Live s)
    (ht : t.step (.functor savedErrno) = some t') :
    Matched errorCallback lb ip s t (.functor savedErrno) t' := by
  obtain ⟨r, hr, hfollows⟩ := h.remote rfl ht
  cases hqueue : t.connector_.pendingFunctors_ with
  | nil => simp [VortexNet.TcpClient.step, VortexNet.Connector.stepLive, hqueue] at ht
  | cons cb cbs =>
    have ht' : t' = { t with
        connector_ := cb.run { t.connector_ with pendingFunctors_ := cbs } savedErrno } := by
      simp only [VortexNet.TcpClient.step, VortexNet.Connector.stepLive, hqueue] at ht
      exact (Option.some.inj ht).symm
    have hrun := hfollows.connector.functor hqueue savedErrno
    have hstarts := hfollows.connector.starts cb (by rw [hqueue]; exact List.mem_cons_self)
    have hnone : r.tc_.conn_.isSome = true →
        (cb.run { t.connector_ with pendingFunctors_ := cbs } savedErrno).channel_ = none := by
      intro hsome
      refine VortexNet.TcpClient.functor_idle (hfollows.idle hsome).2 fun start hstart => ?_
      rw [hstart] at hstarts
      cases hstarts
    subst ht'
    cases howns : cb.ownsConnector with
    | true =>
      rw [howns, if_pos rfl] at hrun
      have hstops : 0 < r.tc_.connector_.stopping := by
        rw [← hfollows.connector.stops, hqueue, List.countP_cons, howns]
        exact Nat.succ_pos _
      have he : eventOf t (.functor savedErrno) = some .stopInLoop := by
        simp [eventOf, hqueue, howns]
      refine h.moves_connector hlive hr he ht (if_pos hstops) hrun fun hsome => ⟨?_, hnone hsome⟩
      simp [Connector.stopInLoop, (hfollows.idle hsome).1]
    | false =>
      rw [howns, if_neg Bool.false_ne_true] at hrun
      have he : eventOf t (.functor savedErrno) = none := by simp [eventOf, hqueue, howns]
      exact h.stays hr he ht
        (hfollows.setConnector hrun fun hsome => ⟨(hfollows.idle hsome).1, hnone hsome⟩)

theorem Follows.timer {i : Nat} (h : Follows errorCallback ⟨s, t⟩) (hlive : Live s)
    (ht : t.step (.timer i savedErrno) = some t') :
    Matched errorCallback lb ip s t (.timer i savedErrno) t' := by
  obtain ⟨r, hr, hfollows⟩ := h.remote rfl ht
  cases htimer : t.connector_.timers[i]? with
  | none => simp [VortexNet.TcpClient.step, VortexNet.Connector.stepLive, htimer] at ht
  | some timer =>
    have ht' : t' = { t with
        connector_ := timer.2.run { t.connector_ with timers := t.connector_.timers.eraseIdx i }
          savedErrno } := by
      simp only [VortexNet.TcpClient.step, VortexNet.Connector.stepLive, htimer] at ht
      exact (Option.some.inj ht).symm
    subst ht'
    rcases hfollows.connector.timer htimer savedErrno with
      ⟨hattempt, hrun⟩ | ⟨hattempt, hrun⟩
    · have hs : remoteStep s r (.timer (.of savedErrno)) = some (s.setRemote { r with
          tc_ := { r.tc_ with connector_ := r.tc_.connector_.start (.of savedErrno) } }) := by
        simp only [remoteStep, hattempt]
      refine h.moves_connector hlive hr rfl ht hs hrun fun hsome => ?_
      cases hattempt.symm.trans (hfollows.idle hsome).1
    · have hs : remoteStep s r (.timer (.of savedErrno)) = some (s.setRemote { r with
          tc_ := { r.tc_ with connector_ := r.tc_.connector_.startInLoop (.of savedErrno) } }) := by
        simp only [remoteStep, hattempt]
      refine h.moves_connector hlive hr rfl ht hs hrun fun hsome => ?_
      cases hattempt.symm.trans (hfollows.idle hsome).1

theorem step_handleEvent {channel : VortexNet.Connector.Channel} {error write : Option Errno}
    {k : VortexNet.Connector} {handed : Option Nat} (hch : t.connector_.channel_ = some channel)
    (hk : t.connector_.handleEvent channel error write = (k, handed))
    (ht : t.step (.handleEvent error write [] []) = some t') :
    (if handed.isSome then { t with connector_ := k }.newConnection [] []
      else some { t with connector_ := k }) = some t' := by
  by_cases hregistered : channel.fd ∈ t.connector_.registered
  · simpa [VortexNet.TcpClient.step, VortexNet.Connector.stepLive, hch, hregistered, hk] using ht
  · simp [VortexNet.TcpClient.step, VortexNet.Connector.stepLive, hch, hregistered] at ht

theorem Follows.failed {channel : VortexNet.Connector.Channel} {error write : Option Errno}
    {k : VortexNet.Connector} (h : Follows errorCallback ⟨s, t⟩) (hlive : Live s)
    (hr : s.client.context_ = some r) (hattempt : r.tc_.connector_.attempt = .connecting)
    (hch : t.connector_.channel_ = some channel)
    (hk : t.connector_.handleEvent channel error write = (k, none))
    (hretry : r.tc_.connector_.retry.Follows k)
    (he : eventOf t (.handleEvent error write [] []) = some .connectFailed)
    (ht : t.step (.handleEvent error write [] []) = some t') :
    Matched errorCallback lb ip s t (.handleEvent error write [] []) t' := by
  have ht' := step_handleEvent hch hk ht
  cases ht'
  refine h.moves_connector hlive hr he ht (if_pos hattempt) hretry fun hsome => ?_
  cases hattempt.symm.trans ((h.client r hr).idle hsome).1

theorem Follows.connected {channel : VortexNet.Connector.Channel}
    (h : Follows errorCallback ⟨s, t⟩) (hlive : Live s) (hr : s.client.context_ = some r)
    (hch : t.connector_.channel_ = some channel) (hstate : t.connector_.state_ = .kConnecting)
    (ht : t.step (.handleEvent none (some .zero) [] []) = some t') :
    Matched errorCallback lb ip s t (.handleEvent none (some .zero) [] []) t' := by
  have hfollows := h.client r hr
  have hattempt := (hfollows.connector.connecting hch hstate).1
  obtain ⟨k, hk, hidle, hdropped⟩ := hfollows.connector.handleWrite_zero hch hstate
  have hevent : t.connector_.handleEvent channel none (some .zero) =
      (k, if r.tc_.connector_.connect_ then some channel.fd else none) := hk
  have ht' := step_handleEvent hch hevent ht
  have he : eventOf t (.handleEvent none (some .zero) [] []) = some .connected := by
    simp [eventOf, hstate]
  have hnone : r.tc_.conn_ = none := by
    cases hconn : r.tc_.conn_ with
    | none => rfl
    | some conn => cases hattempt.symm.trans (hfollows.idle (by rw [hconn]; rfl)).1
  cases hconnect : r.tc_.connector_.connect_ with
  | false =>
    rw [hconnect] at ht'
    cases ht'
    have hs : remoteStep s r .connected = some (s.setRemote { r with
        tc_ := { r.tc_ with connector_ := { r.tc_.connector_ with attempt := .none } } }) := by
      simp [remoteStep, hattempt, hconnect]
    refine h.moves_connector hlive hr he ht hs hidle fun hsome => ?_
    rw [hnone] at hsome
    cases hsome
  | true =>
    rw [hconnect] at ht'
    have hset : { r.tc_ with connector_ := { r.tc_.connector_ with attempt := .none } }.Follows
        { t with connector_ := k } :=
      hfollows.setConnector hidle fun _ => ⟨rfl, hdropped hconnect⟩
    have hup : (({} : Backend).send r.pendingBuffer_).1.state_ = .kConnected := rfl
    obtain ⟨t'', hnew, hopened⟩ := hset.newConnection hnone rfl (hdropped hconnect) hup
    cases hnew.symm.trans ht'
    have hs : remoteStep s r .connected = some (s.setRemote ({ r with
        tc_ := { r.tc_ with
          connector_ := { r.tc_.connector_ with attempt := .none } } }.newConnection)) := by
      simp [remoteStep, hattempt, hconnect]
    exact (h.setRemote hr hopened).moves he ht (step_live hlive hr hs)

theorem Follows.handleEvent {error write : Option Errno} (h : Follows errorCallback ⟨s, t⟩)
    (hlive : Live s) (ht : t.step (.handleEvent error write [] []) = some t') :
    Matched errorCallback lb ip s t (.handleEvent error write [] []) t' := by
  obtain ⟨r, hr, hfollows⟩ := h.remote rfl ht
  have hconnector := hfollows.connector
  cases hch : t.connector_.channel_ with
  | none => simp [VortexNet.TcpClient.step, VortexNet.Connector.stepLive, hch] at ht
  | some channel =>
    by_cases hstate : t.connector_.state_ = .kConnecting
    · obtain ⟨hattempt, htimers⟩ := hconnector.connecting hch hstate
      cases error with
      | some err =>
        exact h.failed hlive hr hattempt hch (Connector.handleEvent_error _ channel err write)
          (hconnector.retry_follows htimers channel.fd err) (by simp [eventOf, hstate]) ht
      | none =>
        cases write with
        | none =>
          cases step_handleEvent hch rfl ht
          exact h.stays hr (by simp [eventOf, hstate]) ht hfollows
        | some err =>
          by_cases herr : err = .zero
          · subst herr
            exact h.connected hlive hr hch hstate ht
          · obtain ⟨k, hk, hretry⟩ := hconnector.handleWrite_error hch hstate err herr
            exact h.failed hlive hr hattempt hch hk hretry (by simp [eventOf, hstate, herr]) ht
    · obtain ⟨k, hk, hleft⟩ := hconnector.handleEvent_left hch hstate error write
      cases step_handleEvent hch hk ht
      refine h.stays hr (by simp [eventOf, hstate]) ht (hfollows.setConnector hleft fun hsome => ?_)
      cases hch.symm.trans (hfollows.idle hsome).2

theorem Follows.handleClose {id : Nat} (h : Follows errorCallback ⟨s, t⟩) (hlive : Live s)
    (halive : t.Alive id) (ht : t.step (.handleClose id []) = some t') :
    Matched errorCallback lb ip s t (.handleClose id []) t' := by
  have hcontext : ∃ r, s.client.context_ = some r := by
    cases hr : s.client.context_ with
    | some r => exact ⟨r, rfl⟩
    | none =>
      have hfresh : t = .fresh errorCallback true := h.without hr
      rw [hfresh] at halive
      exact absurd rfl halive
  obtain ⟨r, hr⟩ := hcontext
  obtain ⟨hsome, t'', hclose, hfollows⟩ := (h.client r hr).handleClose halive
  have ht' : t'' = t' := by
    by_cases hid : 1 ≤ id ∧ id < t.nexConnId_
    · rw [VortexNet.TcpClient.step, if_pos hid] at ht
      exact Option.some.inj (hclose.symm.trans ht)
    · rw [VortexNet.TcpClient.step, if_neg hid] at ht
      cases ht
  subst ht'
  have hs : remoteStep s r .backendClose = some (s.backendDown r) := if_pos hsome
  refine (follows_some rfl ?_ hfollows).moves rfl ht (step_live hlive hr hs)
  show s.client.shutdown.state_ ≠ .kConnecting
  unfold Client.shutdown
  split
  · exact TcpConnection.StateE.noConfusion
  · exact h.up hr

theorem Follows.connect (h : Follows errorCallback ⟨s, t⟩) (hlive : Live s)
    (hfresh : s.client.state_ = .kConnecting) (havailable : lb.Available ip)
    (ht : t.step (.connect savedErrno) = some t') :
    Matched errorCallback lb ip s t (.connect savedErrno) t' := by
  have hnone := h.fresh hfresh
  have hclient : t = .fresh errorCallback true := h.without hnone
  subst hclient
  have hs : L4.step lb ip s (.established (.of savedErrno)) = some { s with
      client := { s.client with
        state_ := .kConnected
        context_ := some (({} : RemoteClient).connect (.of savedErrno)) } } := by
    simp [L4.step, hlive.1, hlive.2, hfresh, LB_Server.onConnection, havailable]
  have hfollows := TcpClient.follows_connect errorCallback savedErrno
  cases ht
  exact (follows_some rfl TcpConnection.StateE.noConfusion hfollows).moves rfl rfl hs

theorem Follows.stop (h : Follows errorCallback ⟨s, t⟩) (hlive : Live s)
    (hreading : s.client.reading = true) (hsome : s.client.context_.isSome = true)
    (ht : t.step .stop = some t') : Matched errorCallback lb ip s t .stop t' := by
  obtain ⟨r, hr⟩ := Option.isSome_iff_exists.mp hsome
  have hs : L4.step lb ip s .close =
      some ({ s with client := { s.client with state_ := .kDisconnected } }.setRemote r.stop) := by
    simp [L4.step, hlive.1, hlive.2, hreading, Session.onDisconnection, hr]
  have hfollows := (h.client r hr).stop
  cases ht
  exact (follows_some rfl TcpConnection.StateE.noConfusion hfollows).moves rfl rfl hs

theorem sendToBackend_follows (h : r.tc_.Follows t) : (r.sendToBackend buf).1.tc_.Follows t := by
  cases hconn : r.tc_.conn_ with
  | none =>
    have heq : (r.sendToBackend buf).1.tc_ = r.tc_ := by
      simp [RemoteClient.sendToBackend, TcpClient.send, hconn]
    rwa [heq]
  | some conn =>
    have heq : (r.sendToBackend buf).1.tc_ = { r.tc_ with conn_ := some (conn.send buf).1 } := by
      simp [RemoteClient.sendToBackend, TcpClient.send, hconn]
    rw [heq]
    refine h.data rfl rfl ?_
    rw [hconn]
    unfold Backend.send
    split <;> rfl

theorem Follows.session (h : Follows errorCallback ⟨s, t⟩)
    (hm : Meets lb ip ⟨s, t⟩ (.session e')) (hs : L4.step lb ip s e' = some s') :
    Follows errorCallback ⟨s', t⟩ := by
  unfold L4.step at hs
  split at hs
  · cases hs
  · cases e' with
    | established =>
      simp only at hs
      split at hs <;> cases hs
      rename_i hst
      have hunavailable : ¬ lb.Available ip := hm
      simp only [LB_Server.onConnection, hunavailable, if_false, Client.shutdown, if_true]
      exact follows_none (h.fresh hst) (h.without (h.fresh hst))
    | read data =>
      simp only at hs
      split at hs <;> cases hs
      unfold Session.onMessage
      dsimp only
      cases hr : s.client.context_ with
      | some r => exact follows_some rfl (h.up hr) (sendToBackend_follows (h.client r hr))
      | none => exact follows_none rfl (h.without hr)
    | close =>
      simp only at hs
      split at hs <;> cases hs
      have hnone : s.client.context_ = none := hm
      simp only [Session.onDisconnection, hnone]
      exact follows_none rfl (h.without hnone)
    | destroyed =>
      simp only at hs
      split at hs <;> cases hs
      exact ⟨h.without, h.client, h.fresh⟩
    | backendRead data =>
      obtain ⟨r, hr, hremote⟩ := Option.bind_eq_some_iff.mp hs
      simp only [remoteStep] at hremote
      split at hremote
      · obtain ⟨conn, hconn, rfl⟩ := Option.map_eq_some_iff.mp hremote
        have hdata : { r.tc_ with conn_ := some { conn with
            inputBuffer_ := (s.client.send (conn.inputBuffer_ ++ data)).2 } }.Follows t :=
          (h.client r hr).data rfl rfl (by rw [hconn]; rfl)
        refine follows_some rfl ?_ hdata
        show (s.client.send (conn.inputBuffer_ ++ data)).1.state_ ≠ .kConnecting
        unfold Client.send
        split <;> exact h.up hr
      · cases hremote
    | _ => cases hm

theorem Follows.client_step (h : Follows errorCallback ⟨s, t⟩)
    (hm : Meets lb ip ⟨s, t⟩ (.client e)) (ht : t.step e = some t') :
    Matched errorCallback lb ip s t e t' := by
  obtain ⟨hfault, halive, hcalled⟩ := hm
  cases e with
  | connect => exact h.connect ⟨hfault, halive⟩ hcalled.1 hcalled.2 ht
  | stop => exact h.stop ⟨hfault, halive⟩ hcalled.1 hcalled.2 ht
  | functor => exact h.functor ⟨hfault, halive⟩ ht
  | timer => exact h.timer ⟨hfault, halive⟩ ht
  | handleEvent error write up down =>
    obtain ⟨rfl, rfl⟩ := hcalled
    exact h.handleEvent ⟨hfault, halive⟩ ht
  | handleClose id down =>
    obtain ⟨hid, rfl⟩ := hcalled
    exact h.handleClose ⟨hfault, halive⟩ hid ht
  | connectFrom | disconnect | shutdown => cases hcalled

theorem Follows.step {host' : Hosted} {event : Event} (h : host.Follows errorCallback)
    (hm : host.Meets lb ip event) (hs : host.step lb ip event = some host') :
    host'.Follows errorCallback := by
  cases event with
  | client e =>
    obtain ⟨t, ht, -⟩ := Option.bind_eq_some_iff.mp hs
    obtain ⟨s', hs', hfollows⟩ := h.client_step hm ht
    cases hs.symm.trans hs'
    exact hfollows
  | session e =>
    obtain ⟨s', hs', rfl⟩ := Option.map_eq_some_iff.mp hs
    exact h.session hm hs'

theorem session_step {host' : Hosted} {event : Event} (hs : host.step lb ip event = some host') :
    host'.session = host.session ∨ ∃ e, L4.step lb ip host.session e = some host'.session := by
  cases event with
  | client e =>
    obtain ⟨t, -, hs⟩ := Option.bind_eq_some_iff.mp hs
    split at hs
    · obtain ⟨s', hs', rfl⟩ := Option.map_eq_some_iff.mp hs
      exact .inr ⟨_, hs'⟩
    · cases hs
      exact .inl rfl
  | session e =>
    obtain ⟨s', hs', rfl⟩ := Option.map_eq_some_iff.mp hs
    exact .inr ⟨e, hs'⟩

-- ---------------------------------------------------------------------------
-- Each step of the session
-- ---------------------------------------------------------------------------

theorem live_of_step (hs : L4.step lb ip s e' = some s') : Live s := by
  unfold L4.step at hs
  split at hs
  · cases hs
  · rename_i hgo
    simpa [Live] using hgo

def isRemote : L4.Event → Bool
  | .established _ | .read _ | .close | .destroyed => false
  | _ => true

theorem remote_of_step (hremote : isRemote e' = true) (hs : L4.step lb ip s e' = some s') :
    ∃ r, s.client.context_ = some r ∧ remoteStep s r e' = some s' := by
  unfold L4.step at hs
  split at hs
  · cases hs
  · cases e' with
    | established | read | close | destroyed => cases hremote
    | _ => exact Option.bind_eq_some_iff.mp hs

theorem reach_client (hs : L4.step lb ip s e' = some s') (he : eventOf t e = some e')
    (hm : Called lb ip ⟨s, t⟩ e) (ht : (t.step e).isSome = true) :
    ∃ t', Reach (Hosted.step lb ip) (Meets lb ip) ⟨s, t⟩ ⟨s', t'⟩ := by
  obtain ⟨hfault, halive⟩ := live_of_step hs
  obtain ⟨t', ht⟩ := Option.isSome_iff_exists.mp ht
  have hmeets : Meets lb ip ⟨s, t⟩ (.client e) := ⟨hfault, halive, hm⟩
  refine ⟨t', .tail .refl hmeets ?_⟩
  simp only [Hosted.step, ht, he]
  show Option.map _ (L4.step lb ip s e') = _
  rw [hs]
  rfl

theorem reach_session_event (hs : L4.step lb ip s e' = some s')
    (hm : Meets lb ip ⟨s, t⟩ (.session e')) :
    ∃ t', Reach (Hosted.step lb ip) (Meets lb ip) ⟨s, t⟩ ⟨s', t'⟩ :=
  ⟨t, .tail .refl hm (by rw [Hosted.step, hs]; rfl)⟩

/-- The functors before a stop in the queue do nothing. -/
theorem Follows.reaches_stop (h : Follows errorCallback ⟨s, t⟩) (hr : s.client.context_ = some r)
    (hstops : 0 < r.tc_.connector_.stopping) (hs : L4.step lb ip s .stopInLoop = some s') :
    ∃ t', Reach (Hosted.step lb ip) (Meets lb ip) ⟨s, t⟩ ⟨s', t'⟩ := by
  have hlive := live_of_step hs
  generalize hqueue : t.connector_.pendingFunctors_ = queue
  induction queue generalizing t with
  | nil =>
    have hstops' := (h.client r hr).connector.stops
    rw [hqueue] at hstops'
    exact absurd hstops' (Nat.ne_of_lt hstops)
  | cons cb cbs ih =>
    have hrun : t.step (.functor .zero) = some { t with
        connector_ := cb.run { t.connector_ with pendingFunctors_ := cbs } .zero } := by
      simp [VortexNet.TcpClient.step, VortexNet.Connector.stepLive, hqueue]
    cases howns : cb.ownsConnector with
    | true =>
      exact reach_client hs (e := .functor .zero) (by simp [eventOf, hqueue, howns]) trivial
        (by rw [hrun]; rfl)
    | false =>
      have he : eventOf t (.functor .zero) = none := by simp [eventOf, hqueue, howns]
      have hquiet : Hosted.step lb ip ⟨s, t⟩ (.client (.functor .zero)) = some ⟨s, _⟩ :=
        step_quiet he hrun
      obtain ⟨s₁, hstep, hfollows⟩ := h.functor hlive hrun
      cases hstep.symm.trans hquiet
      have hrest : (cb.run { t.connector_ with pendingFunctors_ := cbs } .zero).pendingFunctors_ =
          cbs := by
        cases cb with
        | startInLoop =>
          cases (h.client r hr).connector.starts _ (by rw [hqueue]; exact List.mem_cons_self)
        | stopInLoop => cases howns
        | release => rfl
        | errorCallback => rfl
      obtain ⟨t', hreach⟩ := ih hfollows hrest
      have hmeets : Meets lb ip ⟨s, t⟩ (.client (.functor .zero)) := ⟨hlive.1, hlive.2, trivial⟩
      exact ⟨t', Reach.trans (.tail .refl hmeets hstep) hreach⟩

theorem Follows.channel_event (h : Follows errorCallback ⟨s, t⟩) (hr : s.client.context_ = some r)
    (hattempt : r.tc_.connector_.attempt = .connecting) (error write : Option Errno) :
    t.connector_.state_ = .kConnecting ∧
      (t.step (.handleEvent error write [] [])).isSome = true := by
  have hwaits := (h.client r hr).connector.waits
  rw [hattempt] at hwaits
  obtain ⟨-, hstate, channel, hch, hregistered⟩ := hwaits
  refine ⟨hstate, ?_⟩
  have hch : t.connector_.channel_ = some channel := hch
  have hregistered : channel.fd ∈ t.connector_.registered := hregistered
  simp only [VortexNet.TcpClient.step, VortexNet.Connector.stepLive, hch, hregistered, if_true,
    Option.bind_eq_bind, Option.bind_some]
  split <;> rfl

theorem Follows.reaches (h : Follows errorCallback ⟨s, t⟩) (hs : L4.step lb ip s e' = some s') :
    ∃ t', Reach (Hosted.step lb ip) (Meets lb ip) ⟨s, t⟩ ⟨s', t'⟩ := by
  cases e' with
  | read data => exact reach_session_event hs trivial
  | destroyed => exact reach_session_event hs trivial
  | backendRead data => exact reach_session_event hs trivial
  | established outcome =>
    have hfresh : s.client.state_ = .kConnecting := by
      unfold L4.step at hs
      split at hs
      · cases hs
      · exact (Option.ite_none_right_eq_some.mp hs).1
    by_cases havailable : lb.Available ip
    · rw [← outcome.of_errno] at hs
      exact reach_client (e := .connect outcome.errno) hs rfl ⟨hfresh, havailable⟩ rfl
    · exact reach_session_event hs havailable
  | close =>
    have hreading : s.client.reading = true := by
      unfold L4.step at hs
      split at hs
      · cases hs
      · exact (Option.ite_none_right_eq_some.mp hs).1
    cases hr : s.client.context_ with
    | none => exact reach_session_event hs hr
    | some r => exact reach_client (e := .stop) hs rfl ⟨hreading, by rw [hr]; rfl⟩ rfl
  | connected =>
    obtain ⟨r, hr, hremote⟩ := remote_of_step rfl hs
    obtain ⟨hattempt, -⟩ := Option.ite_none_right_eq_some.mp hremote
    obtain ⟨hstate, hstep⟩ := h.channel_event hr hattempt none (some .zero)
    exact reach_client (e := .handleEvent none (some .zero) [] []) hs (by simp [eventOf, hstate])
      ⟨rfl, rfl⟩ hstep
  | connectFailed =>
    obtain ⟨r, hr, hremote⟩ := remote_of_step rfl hs
    obtain ⟨hattempt, -⟩ := Option.ite_none_right_eq_some.mp hremote
    obtain ⟨hstate, hstep⟩ := h.channel_event hr hattempt (some .ECONNREFUSED) none
    exact reach_client (e := .handleEvent (some .ECONNREFUSED) none [] []) hs
      (by simp [eventOf, hstate]) ⟨rfl, rfl⟩ hstep
  | timer outcome =>
    obtain ⟨r, hr, hremote⟩ := remote_of_step rfl hs
    have htimer : ∃ timer, t.connector_.timers[0]? = some timer := by
      have hwaits := (h.client r hr).connector.waits
      simp only [remoteStep] at hremote
      split at hremote
      · rename_i hattempt
        rw [hattempt] at hwaits
        obtain ⟨-, delayMs, ht⟩ := hwaits
        exact ⟨_, by rw [ht]; rfl⟩
      · rename_i hattempt
        rw [hattempt] at hwaits
        obtain ⟨-, delayMs, ht⟩ := hwaits
        exact ⟨_, by rw [ht]; rfl⟩
      · cases hremote
    obtain ⟨timer, htimer⟩ := htimer
    rw [← outcome.of_errno] at hs
    exact reach_client (e := .timer 0 outcome.errno) hs rfl trivial
      (by simp [VortexNet.TcpClient.step, VortexNet.Connector.stepLive, htimer])
  | stopInLoop =>
    obtain ⟨r, hr, hremote⟩ := remote_of_step rfl hs
    exact h.reaches_stop hr (Option.ite_none_right_eq_some.mp hremote).1 hs
  | backendClose =>
    obtain ⟨r, hr, hremote⟩ := remote_of_step rfl hs
    have hsome := (Option.ite_none_right_eq_some.mp hremote).1
    have hconn : (t.conn_.map t.states).isSome = true := by
      rw [(h.client r hr).conn, Option.isSome_map]
      exact hsome
    rw [Option.isSome_map] at hconn
    obtain ⟨id, hid⟩ := Option.isSome_iff_exists.mp hconn
    obtain ⟨halive, hrange⟩ := (h.client r hr).current id hid
    refine reach_client (e := .handleClose id []) hs rfl ⟨halive, rfl⟩ ?_
    rw [VortexNet.TcpClient.step, if_pos hrange]
    rfl

-- ---------------------------------------------------------------------------
-- Runs
-- ---------------------------------------------------------------------------

theorem follows_of_reach (h : Reach (step lb ip) (Meets lb ip)
    { client := .fresh errorCallback true } host) : host.Follows errorCallback :=
  h.invariant (follows_none rfl rfl) fun _ _ _ h hm hs => h.step hm hs

theorem reach_session (h : Reach (step lb ip) (Meets lb ip)
    { client := .fresh errorCallback true } host) :
    Reach (L4.step lb ip) Always {} host.session := by
  induction h with
  | refl => exact .refl
  | tail _ _ hs ih =>
    rcases session_step hs with hsame | ⟨e, hsession⟩
    · rw [hsame]
      exact ih
    · exact ih.tail trivial hsession

/-- The states of a session are those that it has beside the library's client, and there it has a
step for each step of the client. -/
theorem client_refined (errorCallback : Bool) (lb : LB_Server) (ip : Bytes) :
    (∀ s, Reach (L4.step lb ip) Always {} s ↔ ∃ t, Reach (step lb ip) (Meets lb ip)
      { client := .fresh errorCallback true } ⟨s, t⟩) ∧
    ∀ host, Reach (step lb ip) (Meets lb ip) { client := .fresh errorCallback true } host →
      host.Follows errorCallback ∧ ∀ e t, host.Meets lb ip (.client e) →
        host.client.step e = some t → ∃ s, host.step lb ip (.client e) = some ⟨s, t⟩ := by
  refine ⟨fun s => ⟨fun h => ?_, fun ⟨t, h⟩ => reach_session h⟩, fun host h => ?_⟩
  · induction h with
    | refl => exact ⟨_, .refl⟩
    | tail _ _ hs ih =>
      obtain ⟨t, ht⟩ := ih
      obtain ⟨t', ht'⟩ := (follows_of_reach ht).reaches hs
      exact ⟨t', ht.trans ht'⟩
  · refine ⟨follows_of_reach h, fun e t hm ht => ?_⟩
    obtain ⟨s, hs, -⟩ := (follows_of_reach h).client_step hm ht
    exact ⟨s, hs⟩

instance (h : Hosted) (lb : LB_Server) (ip : Bytes) : DecidablePred (h.Called lb ip)
  | .connect _ | .stop | .handleClose .. => inferInstanceAs (Decidable (_ ∧ _))
  | .handleEvent _ _ up down => inferInstanceAs (Decidable (up = [] ∧ down = []))
  | .functor _ | .timer .. => .isTrue trivial
  | .connectFrom | .disconnect | .shutdown _ => .isFalse id

instance (h : Hosted) (lb : LB_Server) (ip : Bytes) (e : Event) : Decidable (h.Meets lb ip e) :=
  match e with
  | .client _ => inferInstanceAs (Decidable (_ ∧ _ ∧ _))
  | .session (.established _) => inferInstanceAs (Decidable (¬ _))
  | .session .close => inferInstanceAs (Decidable (_ = _))
  | .session (.read _) | .session .destroyed | .session (.backendRead _) => .isTrue trivial
  | .session .connected | .session .connectFailed | .session (.timer _) | .session .stopInLoop
  | .session .backendClose => .isFalse id

-- The backend refuses the first connection and closes the second one.
example :
    let lb : LB_Server := .new List.length [ascii "10.0.0.1:80"]
    let ip := ascii "10.0.0.9"
    ((exec (step lb ip) (Meets lb ip) { client := .fresh false true }
      [.client (.connect .ECONNREFUSED), .session (.read [1, 2]), .client (.timer 0 .EINPROGRESS),
        .client (.handleEvent none (some .zero) [] []), .client (.functor .zero),
        .client (.handleClose 1 []), .client .stop]).map
      fun h => h.session.client.context_.map fun r => (r.tc_.closed, r.tc_.connector_.attempt)) =
      some (some ([[1, 2]], .restartTimer)) := by
  decide +kernel

end Hosted

end L4

end VortexNet
