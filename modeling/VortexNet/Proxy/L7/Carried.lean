import VortexNet.Proxy.L7.IdlePool
import VortexNet.Proxy.L7.Upload

/-!
# Requests on their backend connections

A request that was forwarded is on a connection that is open or still being
made, or its client has been answered 502. The gateway loses it when an attempt
to connect is given up, which nobody is told, when it borrows an idle connection
that has closed or is closing, and when a client's own bytes make it let go of
the connection. `Carrying` says of an event that it does none of this.
-/

namespace VortexNet.L7

open Picohttpparser
open Systems (Reach Always exec)

/-- Connection `r` has a request of client `c`: the client's context refers to it, or it is
bound to the client. -/
def Awaits (g : Gateway) (c r : Nat) : Prop :=
  (g.clients c).context.client_ = some r ∨
    (g.remotes r).is_busy_ = true ∧ (g.remotes r).clientConn_ = some c

/-- The connection is open and what was forwarded is the last that went out on it, or it is being
made and what was forwarded waits for it. -/
def Carries (remote : RemoteClient) : Prop :=
  remote.conn_ = some .kConnected ∧ remote.pendingBuffer_ = [] ∧
      remote.forwarded <:+ remote.output ∨
    remote.conn_ = none ∧ remote.connecting = true ∧ remote.pendingBuffer_ = remote.forwarded

structure Carried (g : Gateway) (c r : Nat) : Prop where
  held : (g.clients c).context.client_ = some r
  bound : (g.remotes r).clientConn_ = some c
  busy : (g.remotes r).is_busy_ = true
  carries : Carries (g.remotes r)

def Client.badGateway (conn : Client) : Prop :=
  conn.state_ = .kDisconnecting ∧ badGatewayResponse <:+ conn.output

/-- The request of an open client is carried, or the client was answered 502. -/
def Bears (g : Gateway) (c r : Nat) : Prop :=
  (g.clients c).open_ = true → Awaits g c r → Carried g c r ∨ (g.clients c).badGateway

/-- A head that goes to `targetAddr` is the only request of its client, and an idle connection
that is borrowed for it is open. -/
def Lends (g : Gateway) (c : Nat) : Option Verdict → Prop
  | some (.forward targetAddr) => ¬ (g.clients c).badGateway →
    (g.clients c).context.client_ = none ∧
      ∀ r ∈ (g.idle_map_ targetAddr).getLast?, (g.remotes r).conn_ = some .kConnected
  | _ => True

/-- In the body of a response the client's buffer does not hold what is missing of it. -/
def Client.patient (conn : Client) : Prop :=
  let p := conn.context.parser_
  conn.context.client_ ≠ none → ¬ conn.badGateway → p.isExpectingBody = true →
    p.isRequest = false →
      szAdd p.body_bytes_read_ (min conn.inputBuffer_.length p.bytesRemaining) < p.content_length_

/-- A client that has not been answered 502 sends no head to forward while it waits for an answer,
and in the body of a response not the bytes that are missing of it; a backend does not send so
much before it has the whole request. No attempt to connect is given up that a client waits for,
and a connection in use is lost only to a client that can be told. An idle connection that is
borrowed is open. -/
def Carrying (g : Gateway) : Event → Prop
  | .clientRead c data now =>
    ((g.read c data).clients c).patient ∧ Lends g c (g.judged c data now)
  | .backendRead r data =>
    let remote := g.remotes r
    ∀ c ∈ remote.clientConn_, let conn := g.clients c
      conn.alive = true → conn.context.client_ = some r →
      conn.context.parser_.isExpectingBody = true → conn.context.parser_.isRequest = true →
        (remote.inputBuffer_ ++ data).length < conn.context.parser_.bytesRemaining
  | .backendFailed r =>
    ∀ c ∈ (g.remotes r).clientConn_, (g.clients c).open_ = true → (g.clients c).badGateway
  | .backendDown r =>
    ∀ c ∈ (g.remotes r).clientConn_, (g.clients c).open_ = true → (g.remotes r).is_busy_ = true →
      (g.clients c).state_ = .kConnected ∨ (g.clients c).badGateway
  | _ => True

variable {g g' w : Gateway} {c d r s now : Nat} {conn : Client} {l : Link} {remote : RemoteClient}

theorem Carrying.late (h : Carrying g e) : Late g e := by
  cases e with
  | backendRead r data => exact fun c hc ha hcl he hq => .inr (h c hc ha hcl he hq)
  | _ => trivial

-- ---------------------------------------------------------------------------
-- The invariant
-- ---------------------------------------------------------------------------

structure Known (g : Gateway) : Prop where
  alive : ∀ c, (g.clients c).alive = true → c < g.clientCount
  bound : ∀ r c, (g.remotes r).clientConn_ = some c → c < g.clientCount

def Borne (g : Gateway) : Prop := ∀ c r, Bears g c r

theorem open_alive (h : conn.open_ = true) : conn.alive = true := by
  rw [Client.open_, Bool.and_eq_true] at h
  exact h.1

theorem Bears.congr (h : Bears g c r) (hc : g'.clients c = g.clients c)
    (hr : g'.remotes r = g.remotes r) : Bears g' c r := by
  unfold Bears Awaits at *
  rw [hc, hr]
  intro ho ha
  rcases h ho ha with ⟨hh, hb, hy, hu⟩ | h
  · exact .inl ⟨hc ▸ hh, hr ▸ hb, hr ▸ hy, hr ▸ hu⟩
  · exact .inr h

theorem Borne.update (hi : Borne g) (hclients : ∀ d, d ≠ c → g'.clients d = g.clients d)
    (hremotes : ∀ s, s ≠ r → g'.remotes s = g.remotes s)
    (hother : ∀ d, d ≠ c → Bears g' d r) (hself : ∀ s, Bears g' c s) : Borne g' := by
  intro d s
  by_cases hd : d = c
  · subst hd
    exact hself s
  · by_cases hs : s = r
    · subst hs
      exact hother d hd
    · exact (hi d s).congr (hclients d hd) (hremotes s hs)

theorem Borne.setRemote (hi : Borne g) (h : ∀ d, Bears (g.setRemote r remote) d r) :
    Borne (g.setRemote r remote) := by
  intro d s
  by_cases hs : s = r
  · subst hs
    exact h d
  · refine (hi d s).congr rfl ?_
    simp [hs]

theorem Borne.setClient (hi : Borne g) (h : ∀ s, Bears (g.setClient c conn) c s) :
    Borne (g.setClient c conn) := by
  intro d s
  by_cases hd : d = c
  · subst hd
    exact h s
  · refine (hi d s).congr ?_ rfl
    simp [hd]

theorem Borne.sameClient (hi : Borne g) (hc : conn.context.client_ = (g.clients c).context.client_)
    (ho : conn.open_ = true → (g.clients c).open_ = true)
    (hb : (g.clients c).badGateway → conn.badGateway) : Borne (g.setClient c conn) := by
  refine hi.setClient fun s ho' ha => ?_
  simp only [Gateway.setClient_clients, Gateway.setClient_remotes, Function.update_self, Awaits]
    at ho' ha ⊢
  rcases hi c s (ho ho') (by rwa [Awaits, ← hc]) with ⟨hh, hb, hy, hu⟩ | h
  · refine .inl ⟨?_, hb, hy, hu⟩
    rw [Gateway.setClient_clients, Function.update_self]
    exact hc.trans hh
  · exact .inr (hb h)

-- ---------------------------------------------------------------------------
-- Links
-- ---------------------------------------------------------------------------

theorem Carries.send (h : Carries remote) (data : Bytes) : Carries (remote.sendToBackend data) := by
  rcases h with ⟨hc, hp, old, hout⟩ | ⟨hc, hn, hp⟩
  · simp only [RemoteClient.sendToBackend, hc]
    refine .inl ⟨rfl, hp, old, ?_⟩
    rw [← List.append_assoc, hout]
  · simp only [RemoteClient.sendToBackend, hc]
    exact .inr ⟨rfl, hn, congrArg (· ++ data) hp⟩

theorem Unsent.carries (h : Unsent remote remote') (hu : Carries remote) : Carries remote' := by
  unfold Carries
  rw [h.conn, h.connecting, h.pending, h.output, h.forwarded]
  exact hu

theorem Carries.up (h : Carries remote) : Carries { remote with
    connecting := false
    conn_ := some .kConnected
    output := remote.output ++ remote.pendingBuffer_
    pendingBuffer_ := [] } := by
  rcases h with ⟨-, hp, hout⟩ | ⟨-, -, hp⟩
  · refine .inl ⟨rfl, rfl, ?_⟩
    simpa [hp] using hout
  · refine .inl ⟨rfl, rfl, ?_⟩
    simp [hp]

namespace Link

variable {l l' l'' : Link} {n : Nat}

theorem resetIfGotAll_output (l : Link) : l.resetIfGotAll.conn.output = l.conn.output := by
  unfold resetIfGotAll
  split <;> rfl

theorem forwardBody_carries (h : Carries l.remote) : Carries l.forwardBody.remote := by
  rw [forwardBody, resetIfGotAll_remote]
  exact h.send _

theorem forwardHead_carries (h : Carries l.remote) : Carries l.forwardHead.remote := by
  have hhead := h.send (l.conn.inputBuffer_.take l.parser.headerLen)
  simp only [forwardHead, resetIfGotAll_remote]
  split
  · exact hhead.send _
  · exact hhead

theorem forwardBody_output (l : Link) : l.forwardBody.conn.output = l.conn.output := by
  rw [forwardBody, resetIfGotAll_output]
  rfl

theorem forwardHead_output (l : Link) : l.forwardHead.conn.output = l.conn.output := by
  simp only [forwardHead, resetIfGotAll_output]
  split <;> rfl

theorem forwardBody_held (he : l.parser.isExpectingBody = true)
    (h : szAdd l.parser.body_bytes_read_ (min l.conn.inputBuffer_.length l.parser.bytesRemaining) <
      l.parser.content_length_) : l.forwardBody.conn.context.client_ = l.conn.context.client_ := by
  rw [forwardBody, resetIfGotAll, if_neg]
  · rfl
  · show ¬ HttpParser.gotAll (l.parser.consumeBody l.conn.inputBuffer_ _).1 = true
    rw [HttpParser.isExpectingBody, decide_eq_true_eq] at he
    simp [HttpParser.consumeBody, HttpParser.gotAll, Nat.not_le.mpr h, he]

def Muted (l l' : Link) : Prop := l.conn.state_ ≠ .kConnected → l'.conn.output = l.conn.output

theorem Muted.trans (h₁ : Muted l l') (hs : l'.conn.state_ = l.conn.state_) (h₂ : Muted l' l'') :
    Muted l l'' := fun h => (h₂ (hs ▸ h)).trans (h₁ h)

theorem relay_muted (l : Link) (n : Nat) : Muted l (l.relay n) := by
  intro h
  simp [relay, Client.send, h]

theorem finishIfGotAll_output (l : Link) : l.finishIfGotAll.conn.output = l.conn.output := by
  unfold finishIfGotAll
  split <;> rfl

theorem relayBody_muted (l : Link) : Muted l l.relayBody := fun h =>
  (finishIfGotAll_output _).trans (relay_muted l _ h)

theorem relayChunks_muted (l : Link) : Muted l l.relayChunks := by
  intro h
  have hsent := relay_muted l l.remote.inputBuffer_.length h
  simp only [relayChunks, if_neg h]
  split <;> exact hsent

theorem relayHead_muted (l : Link) : Muted l l.relayHead := by
  intro h
  have hhead : ((l.relay l.parser.headerLen).retrieve l.parser.headerLen).conn.output =
      l.conn.output := relay_muted l l.parser.headerLen h
  have hs : ((l.relay l.parser.headerLen).retrieve l.parser.headerLen).conn.state_ ≠
      .kConnected := send_state.symm ▸ h
  simp only [relayHead]
  split
  · rw [finishIfGotAll_output]
    split
    · exact (relay_muted _ _ hs).trans hhead
    · exact hhead
  · exact (relayChunks_muted _ hs).trans hhead

theorem relayResponse_muted (l : Link) : Muted l l.relayResponse := by
  intro h
  simp only [relayResponse]
  split
  · split
    · exact relayBody_muted l h
    · exact relayChunks_muted l h
  · split
    · exact relayHead_muted (l.setParser (l.parser.parseResponse l.remote.inputBuffer_).2) h
    · rfl

end Link

theorem shutdown_badGateway (h : conn.badGateway) (data : Bytes) :
    (conn.send data).shutdown.badGateway := by
  have hs : conn.state_ ≠ .kConnected := by simp [h.1]
  simp only [Client.send, Client.shutdown, if_neg hs]
  exact h

theorem badGateway_told (h : conn.state_ = .kConnected) :
    (conn.send badGatewayResponse).shutdown.badGateway := by
  simp only [Client.send, Client.shutdown, if_pos h]
  exact ⟨rfl, List.suffix_append _ _⟩

-- ---------------------------------------------------------------------------
-- Client reads
-- ---------------------------------------------------------------------------

theorem Borne.setLink (hi : Borne g) (hcl : (g.clients c).context.client_ = some r)
    (ho : l.conn.open_ = true → (g.clients c).open_ = true)
    (hbad : (g.clients c).badGateway → l.conn.badGateway)
    (hheld : ¬ (g.clients c).badGateway → l.conn.context.client_ = some r)
    (hbound : l.remote.clientConn_ = (g.remotes r).clientConn_)
    (hbusy : l.remote.is_busy_ = (g.remotes r).is_busy_)
    (hcarries : Carries (g.remotes r) → Carries l.remote) : Borne (g.setLink c r l) := by
  refine hi.update (c := c) (r := r) (fun d hd => by simp [hd]) (fun s hs => by simp [hs])
    (fun d hd ho' ha => ?_) fun s ho' ha => ?_
  · simp only [Awaits, Gateway.setLink_clients, Function.update_of_ne hd, Gateway.setLink_remotes,
      Function.update_self, hbound, hbusy] at ho' ha ⊢
    rcases hi d r ho' ha with ⟨hh, hb, hy, hu⟩ | h
    · refine .inl ⟨?_, ?_, ?_, ?_⟩
      · simpa [hd] using hh
      · simpa [hbound] using hb
      · simpa [hbusy] using hy
      · simpa using hcarries hu
    · exact .inr h
  · simp only [Awaits, Gateway.setLink_clients, Function.update_self] at ho' ha ⊢
    by_cases hg : (g.clients c).badGateway
    · exact .inr (hbad hg)
    obtain ⟨hh, hb, hy, hu⟩ := (hi c r (ho ho') (.inl hcl)).resolve_right hg
    -- the client has no other connection
    have hs : s = r := by
      rcases ha with ha | ha
      · exact Option.some.inj (ha.symm.trans (hheld hg))
      · by_contra hs
        rw [Gateway.setLink_remotes, Function.update_of_ne hs] at ha
        have hother := (hi c s (ho ho') (.inr ha)).resolve_right hg
        exact hs (Option.some.inj (hother.held.symm.trans hcl))
    subst hs
    refine .inl ⟨?_, ?_, ?_, ?_⟩
    · simpa using hheld hg
    · simpa [hbound] using hb
    · simpa [hbusy] using hy
    · simpa using hcarries hu

theorem Borne.forwardBody (hi : Borne g) (hcl : (g.clients c).context.client_ = some r)
    (hkeep : ¬ (g.clients c).badGateway → (g.clients c).context.parser_.isRequest = false →
      (g.link c r).forwardBody.conn.context.client_ = some r) :
    Borne (g.setLink c r (g.link c r).forwardBody) := by
  have hf := Link.forwardBody_forwards (g.link c r)
  have hout := Link.forwardBody_output (g.link c r)
  have hcarries := Link.forwardBody_carries (l := g.link c r)
  generalize (g.link c r).forwardBody = l at *
  refine hi.setLink hcl (fun h => ?_) ?_ (fun hg => ?_) hf.bound hf.busy hcarries
  · rwa [Client.open_, hf.alive, hf.state] at h
  · rintro ⟨hs, hsuffix⟩
    exact ⟨hf.state.trans hs, hout.symm ▸ hsuffix⟩
  · rcases hf.client with h | ⟨hq, -⟩
    · exact h.trans hcl
    · exact hkeep hg hq

theorem borrowed_carries (hpool : Pooled g)
    (hopen : ∀ r ∈ (g.idle_map_ a).getLast?, (g.remotes r).conn_ = some .kConnected)
    (method : Bytes) :
    Carries (((g.borrowConnection a).2.remotes (g.borrowConnection a).1).bindClient c method) := by
  obtain ⟨-, -, -, hsource, -, -⟩ :=
    Gateway.borrowConnection_lent (g := g) (a := a) hpool.nodup
      fun b s hs => ⟨(hpool.parked b s hs).known, (hpool.parked b s hs).node⟩
  rcases hsource with ⟨hlast, h⟩ | ⟨-, h⟩
  · rw [h]
    exact .inl ⟨hopen _ hlast, (hpool.parked a _ (List.mem_of_getLast? hlast)).empty,
      List.nil_suffix⟩
  · rw [h]
    exact .inr ⟨rfl, rfl, rfl⟩

theorem Borne.accept (hi : Borne g) (hpool : Pooled g)
    (hq : (g.clients c).context.parser_.isRequest = true)
    (hlend : Lends g c (some (.forward a))) : Borne (g.accept c a) := by
  simp only [Lends] at hlend
  obtain ⟨-, -, hremotes, hsource, -, -⟩ :=
    Gateway.borrowConnection_lent (g := g) (a := a) hpool.nodup
      fun b s hs => ⟨(hpool.parked b s hs).known, (hpool.parked b s hs).node⟩
  have hclients := Gateway.borrowConnection_clients (g := g) (a := a)
  have hcarries₀ (hg : ¬ (g.clients c).badGateway) (method : Bytes) :=
    borrowed_carries (c := c) hpool (hlend hg).2 method
  simp only [Gateway.accept]
  generalize (g.borrowConnection a).1 = r at *
  generalize (g.borrowConnection a).2 = v at *
  rw [hclients]
  generalize hl₀ : ({
    conn := { g.clients c with context := (g.clients c).context.BoundRClient r }
    remote := (v.remotes r).bindClient c (g.clients c).context.parser_.request.method } : Link) = l₀
  have hf := Link.forwardHead_forwards l₀
  have hout := Link.forwardHead_output l₀
  have hcarries (hg : ¬ (g.clients c).badGateway) : Carries l₀.forwardHead.remote :=
    Link.forwardHead_carries (l := l₀) (hl₀ ▸ hcarries₀ hg _)
  have hq₀ : l₀.parser.isRequest = true := hl₀ ▸ hq
  have hcl₀ : l₀.conn.context.client_ = some r := hl₀ ▸ rfl
  have hbound₀ : l₀.remote.clientConn_ = some c ∧ l₀.remote.is_busy_ = true := hl₀ ▸ ⟨rfl, rfl⟩
  have hconn₀ : l₀.conn.state_ = (g.clients c).state_ ∧ l₀.conn.alive = (g.clients c).alive ∧
      l₀.conn.output = (g.clients c).output := hl₀ ▸ ⟨rfl, rfl, rfl⟩
  generalize l₀.forwardHead = l at *
  have hheld : l.conn.context.client_ = some r := by
    rcases hf.client with h | ⟨h, -⟩
    · exact h.trans hcl₀
    · exact Bool.noConfusion (h.symm.trans hq₀)
  have hbad : (g.clients c).badGateway → l.conn.badGateway := by
    rintro ⟨hs, hsuffix⟩
    refine ⟨(hf.state.trans hconn₀.1).trans hs, ?_⟩
    rwa [hout, hconn₀.2.2]
  have hbound : ((v.setLink c r l).remotes r).clientConn_ = some c := by
    simpa using hf.bound.trans hbound₀.1
  refine hi.update (c := c) (r := r) (fun d hd => by simp [hd, hclients])
    (fun s hs => by simp [hs, hremotes s hs]) (fun d hd ho ha => ?_) fun s ho ha => ?_
  · rcases ha with ha | ⟨-, ha⟩
    · -- nobody referred to what was borrowed
      simp only [Gateway.setLink_clients, Function.update_of_ne hd, hclients] at ho ha
      obtain ⟨hold, -, hp⟩ := hpool.holds d r (open_alive ho) ha
      rcases hsource with ⟨hlast, -⟩ | ⟨rfl, -⟩
      · exact absurd (List.mem_of_getLast? hlast) (hp a)
      · exact absurd hold (Nat.lt_irrefl _)
    · exact absurd (Option.some.inj (ha.symm.trans hbound)) hd
  · by_cases hg : (g.clients c).badGateway
    · refine .inr ?_
      rw [Gateway.setLink_clients, Function.update_self]
      exact hbad hg
    by_cases hs : s = r
    · subst hs
      refine .inl ⟨?_, hbound, ?_, ?_⟩
      · simpa using hheld
      · simpa using hf.busy.trans hbound₀.2
      · simpa using hcarries hg
    · -- and this client waited for nothing else
      simp only [Awaits, Gateway.setLink_clients, Function.update_self] at ho ha
      rcases ha with ha | ha
      · exact absurd (Option.some.inj (ha.symm.trans hheld)) hs
      · rw [Gateway.setLink_remotes, Function.update_of_ne hs, hremotes s hs] at ha
        have ho : (g.clients c).open_ = true := by
          rwa [Client.open_, hf.alive, hf.state, hconn₀.1, hconn₀.2.1] at ho
        have hold := (hi c s ho (.inr ha)).resolve_right hg
        exact absurd (hold.held.symm.trans (hlend hg).1) (Option.some_ne_none s)

theorem Borne.congr (hi : Borne g) (hc : g'.clients = g.clients) (hr : g'.remotes = g.remotes) :
    Borne g' := fun c r => (hi c r).congr (congrFun hc c) (congrFun hr r)

theorem Borne.onMessage (hi : Borne g) (hpool : Pooled g) (ha : (g.clients c).alive = true)
    (hbody : (g.clients c).patient)
    (hhead : (g.clients c).context.parser_.isExpectingBody = false →
      ∀ conn, (g.clients c).parseRequest = (true, conn) →
        Lends g c (some (g.lb.judge conn.context conn.inputBuffer_ now).2)) :
    Borne (LB_Server.onMessage g c now) := by
  simp only [LB_Server.onMessage]
  split
  · rename_i hb
    split
    · rename_i s hs
      exact hi.forwardBody hs fun hg hq => (Link.forwardBody_held (l := g.link c s) hb
        (hbody (hs ▸ Option.some_ne_none s) hg hb hq)).trans hs
    · exact hi.congr rfl rfl
  · rename_i hb
    have hhead := hhead (Bool.eq_false_iff.mpr hb)
    cases hp : (g.clients c).parseRequest with
    | mk parsed conn =>
      obtain ⟨p, buf, hparse, hconn⟩ := Client.parseRequest_eq hp
      have hset : Borne (g.setClient c conn) := by
        refine hi.sameClient ?_ ?_ ?_
        · rw [hconn]
        · rw [hconn]
          exact id
        · rw [hconn]
          exact id
      have hsetpool : Pooled (g.setClient c conn) := by
        refine hpool.beside (c := c) (fun d hd => by simp [hd]) (fun _ => ha) ?_ rfl rfl rfl
        simp [hconn]
      cases parsed with
      | false => exact hset
      | true =>
        have hlend := hhead conn hp
        have hw : ∃ w : Gateway, w = { g.setClient c conn with
            lb := (g.lb.judge conn.context conn.inputBuffer_ now).1 } ∧ Borne w ∧ Pooled w ∧
              w.clients c = conn ∧ w.idle_map_ = g.idle_map_ ∧ w.remotes = g.remotes :=
          ⟨_, rfl, hset.congr rfl rfl, hsetpool.beside (c := c) (fun _ _ => rfl) id rfl rfl rfl rfl,
            by simp, rfl, rfl⟩
        obtain ⟨w, hw, hborne, hwpool, hwc, hwm, hwr⟩ := hw
        simp only [if_true, Gateway.setClient_lb]
        rw [← hw]
        split
        · rename_i response _
          refine Borne.congr (g := w.setClient c ((w.clients c).send response).shutdown) ?_ rfl rfl
          refine hborne.sameClient ?_ (fun h => ?_) fun h => shutdown_badGateway h response
          · rw [refused_context]
          · rwa [shutdown_open, Client.open_, (Link.send_fields _ _).2.2.1, Link.send_state] at h
        · rename_i a hv
          rw [hv] at hlend
          refine hborne.accept hwpool ?_ ?_
          · rw [hwc, hconn]
            exact (parseRequest_message hparse).2.1
          · simp only [Lends, hwc, hwm, hwr]
            rw [hconn]
            exact hlend

theorem Borne.clientRead (hi : Borne g) (hpool : Pooled g) (ha : (g.clients c).alive = true)
    (hc : Carrying g (.clientRead c data now)) :
    Borne (LB_Server.onMessage (g.read c data) c now) := by
  obtain ⟨hbody, hhead⟩ := hc
  have hread : Borne (g.read c data) := hi.sameClient rfl id id
  have hreadpool : Pooled (g.read c data) :=
    hpool.beside (c := c) (fun d hd => by simp [Gateway.read, hd]) (fun _ => ha)
      (by simp [Gateway.read]) rfl rfl rfl
  have hself : (g.read c data).clients c =
      { g.clients c with inputBuffer_ := (g.clients c).inputBuffer_ ++ data } := by
    simp [Gateway.read]
  refine hread.onMessage hreadpool (by rw [hself]; exact ha) hbody fun hb conn hp => ?_
  have hj : g.judged c data now = some (g.lb.judge conn.context conn.inputBuffer_ now).2 := by
    simp only [Gateway.judged, hb, hp, Bool.false_eq_true, if_false, if_true]
  rw [hj] at hhead
  revert hhead
  show Lends g c (some (g.lb.judge conn.context conn.inputBuffer_ now).2) →
    Lends (g.read c data) c (some (g.lb.judge conn.context conn.inputBuffer_ now).2)
  cases (g.lb.judge conn.context conn.inputBuffer_ now).2 with
  | refuse => exact id
  | forward a =>
    simp only [Lends, hself]
    exact id

-- ---------------------------------------------------------------------------
-- Backend reads
-- ---------------------------------------------------------------------------

theorem Borne.sameRemote (hi : Borne g) (hu : Unsent (g.remotes r) remote)
    (hb : remote.clientConn_ = (g.remotes r).clientConn_)
    (hy : remote.is_busy_ = (g.remotes r).is_busy_) : Borne (g.setRemote r remote) := by
  refine hi.setRemote fun d ho ha => ?_
  simp only [Awaits, Gateway.setRemote_remotes, Function.update_self, hb, hy] at ha
  rcases hi d r ho ha with ⟨hh, hb', hy', hcarries⟩ | h
  · refine .inl ⟨hh, ?_, ?_, ?_⟩
    · simpa [hb] using hb'
    · simpa [hy] using hy'
    · simpa using hu.carries hcarries
  · exact .inr h

theorem Borne.disconnect (hi : Borne g) (h : ∀ d, (g.remotes r).clientConn_ = some d →
    ¬ ((g.clients d).alive = true ∧ (g.remotes r).is_busy_ = true)) :
    Borne (g.setRemote r (g.remotes r).disconnect) := by
  refine hi.setRemote fun d ho ha => ?_
  have hsame : (g.remotes r).disconnect.clientConn_ = (g.remotes r).clientConn_ ∧
      (g.remotes r).disconnect.is_busy_ = (g.remotes r).is_busy_ := by
    unfold RemoteClient.disconnect
    split <;> exact ⟨rfl, rfl⟩
  simp only [Awaits, Gateway.setRemote_remotes, Function.update_self, hsame] at ha
  rcases hi d r ho ha with ⟨-, hb, hy, -⟩ | hbad
  · exact absurd ⟨open_alive ho, hy⟩ (h d hb)
  · exact .inr hbad

/-- The response is over, and the client has let the connection go. -/
theorem Borne.finished (hi : Borne g) (hcl : (g.clients c).context.client_ = some r)
    (hbound : (g.remotes r).clientConn_ = some c)
    (ho : l.conn.open_ = true → (g.clients c).open_ = true)
    (hbad : (g.clients c).badGateway → l.conn.badGateway)
    (hrel : l.conn.context.client_ = none) :
    Borne ((g.setLink c r l).returnConnection c r) := by
  obtain ⟨hb', -, -, hy', -⟩ := returnConnection_remote (g := g.setLink c r l) (c := c) (r := r)
  have hclients := Gateway.returnConnection_clients (g := g.setLink c r l) (c := c) (r := r)
  refine hi.update (c := c) (r := r) (fun d hd => ?_) (fun s hs => ?_) (fun d hd ho' ha => ?_)
    fun s ho' ha => ?_
  · rw [hclients, Gateway.setLink_clients, Function.update_of_ne hd]
  · rw [returnConnection_remotes hs, Gateway.setLink_remotes, Function.update_of_ne hs]
  · rw [hclients, Gateway.setLink_clients, Function.update_of_ne hd] at ho' ⊢
    rcases ha with ha | ⟨ha, -⟩
    · rw [hclients, Gateway.setLink_clients, Function.update_of_ne hd] at ha
      rcases hi d r ho' (.inl ha) with h | h
      · exact absurd (Option.some.inj (h.bound.symm.trans hbound)) hd
      · exact .inr h
    · exact Bool.noConfusion (hy'.symm.trans ha)
  · rw [hclients, Gateway.setLink_clients, Function.update_self] at ho' ⊢
    rcases ha with ha | ha
    · rw [hclients, Gateway.setLink_clients, Function.update_self] at ha
      exact absurd (ha.symm.trans hrel) (Option.some_ne_none s)
    · by_cases hs : s = r
      · subst hs
        exact Bool.noConfusion (hy'.symm.trans ha.1)
      · rw [returnConnection_remotes hs, Gateway.setLink_remotes, Function.update_of_ne hs] at ha
        rcases hi c s (ho ho') (.inr ha) with h | h
        · exact absurd (Option.some.inj (h.held.symm.trans hcl)) hs
        · exact .inr (hbad h)

theorem Borne.backendRead (hi : Borne g) (hpool : Pooled g) (hs : AllSane g)
    (hc : Carrying g (.backendRead r data)) :
    Borne (if (g.receive r data).held r then RemoteClient.onMessage (g.receive r data) r
      else g.receive r data) := by
  have hread : Borne (g.receive r data) := hi.sameRemote ⟨rfl, rfl, rfl, rfl, rfl⟩ rfl rfl
  have hreadpool : Pooled (g.receive r data) := hpool.setRemote rfl rfl rfl rfl
  split
  · rename_i hheld
    simp only [RemoteClient.onMessage]
    split
    · rename_i c hbound
      split
      · rename_i hlive
        obtain ⟨ha, hy⟩ := hlive
        have hcl := hreadpool.answers hheld hy hbound
        have hq := Link.relayResponse_quiet ((g.receive r data).link c r)
        have hunsent := Link.relayResponse_unsent ((g.receive r data).link c r)
        have hmuted := Link.relayResponse_muted ((g.receive r data).link c r)
        have hopen : ((g.receive r data).link c r).relayResponse.conn.open_ = true →
            ((g.receive r data).clients c).open_ = true := by
          intro h
          rwa [Client.open_, hq.alive, hq.state] at h
        have hbad : ((g.receive r data).clients c).badGateway →
            ((g.receive r data).link c r).relayResponse.conn.badGateway := by
          rintro ⟨hstate, hsuffix⟩
          have hout := hmuted (by
            rw [Gateway.link_conn, hstate]
            simp)
          exact ⟨hq.state.trans hstate, hout.symm ▸ hsuffix⟩
        split
        · rename_i hfin
          refine hread.finished hcl hbound hopen hbad (Link.relayResponse_released rfl ?_ hfin)
          refine fun he => Bool.eq_false_iff.mpr fun hreq => ?_
          have hbuf : ((g.receive r data).link c r).remote.inputBuffer_ =
              (g.remotes r).inputBuffer_ ++ data := by simp [Gateway.receive]
          have hbound : (g.remotes r).clientConn_ = some c := by
            simpa [Gateway.receive] using hbound
          have := Link.relayResponse_unfinished (l := (g.receive r data).link c r)
            ((hs c).counting he hreq) he (hbuf.symm ▸ hc c hbound ha hcl he hreq)
          exact Bool.noConfusion (hfin.symm.trans this)
        · rename_i hfin
          refine hread.setLink hcl hopen hbad (fun _ => ?_) hq.bound hq.busy fun h => hunsent.carries h
          exact (hq.client.resolve_right fun h => hfin h.1).trans hcl
      · rename_i hlive
        refine hread.disconnect fun d hd => ?_
        obtain rfl := Option.some.inj (hd.symm.trans hbound)
        exact hlive
    · rename_i hbound
      exact hread.disconnect fun d hd => absurd (hd.symm.trans hbound) (Option.some_ne_none d)
  · exact hread

-- ---------------------------------------------------------------------------
-- Clients that are there
-- ---------------------------------------------------------------------------

theorem Known.update (hi : Known g) (hcc : g'.clientCount = g.clientCount)
    (ha : ∀ d, (g'.clients d).alive = true → (g.clients d).alive = true)
    (hb : ∀ s d, (g'.remotes s).clientConn_ = some d →
      (g.remotes s).clientConn_ = some d ∨ (g.clients d).alive = true) : Known g' where
  alive d h := hcc ▸ hi.alive d (ha d h)
  bound s d h := hcc ▸ (hb s d h).elim (hi.bound s d) (hi.alive d)

theorem Known.link (hi : Known g) (hcc : g'.clientCount = g.clientCount)
    (hclients : ∀ d, d ≠ c → g'.clients d = g.clients d)
    (hremotes : ∀ s, s ≠ r → g'.remotes s = g.remotes s) (hc : (g.clients c).alive = true)
    (hb : ∀ d, (g'.remotes r).clientConn_ = some d → (g.remotes r).clientConn_ = some d ∨ d = c) :
    Known g' := by
  refine hi.update hcc (fun d h => ?_) fun s d h => ?_
  · by_cases hd : d = c
    · exact hd ▸ hc
    · exact hclients d hd ▸ h
  · by_cases hs : s = r
    · subst hs
      exact (hb d h).imp_right fun hd : d = c => hd ▸ hc
    · exact .inl (hremotes s hs ▸ h)

theorem Known.accept (hi : Known g) (hpool : Pooled g) (hc : (g.clients c).alive = true) :
    Known (g.accept c a) := by
  obtain ⟨-, -, hremotes, -, -, -⟩ :=
    Gateway.borrowConnection_lent (g := g) (a := a) hpool.nodup
      fun b s hs => ⟨(hpool.parked b s hs).known, (hpool.parked b s hs).node⟩
  have hclients := Gateway.borrowConnection_clients (g := g) (a := a)
  have hcc := Gateway.borrowConnection_clientCount (g := g) (a := a)
  simp only [Gateway.accept]
  generalize (g.borrowConnection a).1 = r at *
  generalize (g.borrowConnection a).2 = v at *
  have hf := Link.forwardHead_forwards {
    conn := { v.clients c with context := (v.clients c).context.BoundRClient r }
    remote := (v.remotes r).bindClient c (v.clients c).context.parser_.request.method }
  refine hi.link (c := c) (r := r) hcc (fun d hd => by simp [hd, hclients])
    (fun s hs => by simp [hs, hremotes s hs]) hc fun d hd => .inr ?_
  simp only [Gateway.setLink_remotes, Function.update_self] at hd
  exact Option.some.inj (hd.symm.trans hf.bound)

theorem Known.onMessage (hi : Known g) (hpool : Pooled g) (hc : (g.clients c).alive = true) :
    Known (LB_Server.onMessage g c now) := by
  simp only [LB_Server.onMessage]
  split
  · split
    · rename_i r _
      have hf := Link.forwardBody_forwards (g.link c r)
      refine hi.link (c := c) (r := r) rfl (fun d hd => by simp [hd]) (fun s hs => by simp [hs]) hc
        fun d hd => .inl ?_
      simp only [Gateway.setLink_remotes, Function.update_self] at hd
      exact hf.bound ▸ hd
    · exact hi.update rfl (fun _ h => h) fun _ _ h => .inl h
  · cases hp : (g.clients c).parseRequest with
    | mk parsed conn =>
      obtain ⟨p, buf, -, hconn⟩ := Client.parseRequest_eq hp
      have hset : Known (g.setClient c conn) :=
        hi.link (c := c) (r := 0) rfl (fun d hd => by simp [hd]) (fun _ _ => rfl) hc
          fun _ h => .inl h
      have hsetpool : Pooled (g.setClient c conn) := by
        refine hpool.beside (c := c) (fun d hd => by simp [hd]) (fun _ => hc) ?_ rfl rfl rfl
        simp [hconn]
      have halive : ((g.setClient c conn).clients c).alive = true := by
        simpa [hconn] using hc
      cases parsed with
      | false => exact hset
      | true =>
        simp only [if_true]
        split
        · exact hset.link (c := c) (r := 0) rfl (fun d hd => by simp [refuse_clients, hd])
            (fun _ _ => rfl) halive fun _ h => .inl h
        · refine Known.accept ?_ ?_ halive
          · exact hset.update rfl (fun _ h => h) fun _ _ h => .inl h
          · exact hsetpool.beside (c := c) (fun _ _ => rfl) id rfl rfl rfl rfl

theorem Known.receive (hi : Known g) (r : Nat) (data : Bytes) : Known (g.receive r data) := by
  refine hi.update rfl (fun _ h => h) fun s d h => .inl ?_
  by_cases hs : s = r
  · subst hs
    simpa [Gateway.receive] using h
  · simpa [Gateway.receive, hs] using h

theorem Known.onResponse (hi : Known g) : Known (RemoteClient.onMessage g r) := by
  have hdisconnect : Known (g.setRemote r (g.remotes r).disconnect) := by
    refine hi.update rfl (fun _ h => h) fun s d h => .inl ?_
    by_cases hs : s = r
    · subst hs
      rw [Gateway.setRemote_remotes, Function.update_self] at h
      unfold RemoteClient.disconnect at h
      split at h <;> exact h
    · rwa [Gateway.setRemote_remotes, Function.update_of_ne hs] at h
  simp only [RemoteClient.onMessage]
  split
  · rename_i c _
    split
    · rename_i hlive
      have hq := Link.relayResponse_quiet (g.link c r)
      have hlink : Known (g.setLink c r (g.link c r).relayResponse) := by
        refine hi.link (c := c) (r := r) rfl (fun d hd => by simp [hd]) (fun s hs => by simp [hs])
          hlive.1 fun d hd => .inl ?_
        simp only [Gateway.setLink_remotes, Function.update_self] at hd
        exact hq.bound ▸ hd
      split
      · refine hlink.update Gateway.returnConnection_clientCount (fun d h => ?_) fun s d h => ?_
        · rwa [Gateway.returnConnection_clients] at h
        · by_cases hs : s = r
          · subst hs
            rw [returnConnection_remote.1] at h
            exact absurd h.symm (Option.some_ne_none d)
          · rw [returnConnection_remotes hs] at h
            exact .inl h
      · exact hlink
    · exact hdisconnect
  · exact hdisconnect

theorem known_step (hi : Known g) (hpool : Pooled g) (hs : step g e = some g') : Known g' := by
  simp only [step, Option.ite_none_right_eq_some] at hs
  obtain ⟨-, hs⟩ := hs
  by_cases he : e.reads = true
  · cases e with
    | accept =>
      cases hs
      refine ⟨fun c h => ?_, fun s c h => Nat.lt_succ_of_lt (hi.bound s c h)⟩
      by_cases hc : c = g.clientCount
      · exact hc ▸ Nat.lt_succ_self _
      · simp only [Gateway.setClient_clients, Function.update_of_ne hc] at h
        exact Nat.lt_succ_of_lt (hi.alive c h)
    | clientRead c data now =>
      simp only [Gateway.stepOk, Option.ite_none_right_eq_some, Option.some.injEq] at hs
      obtain ⟨⟨hopen, -⟩, rfl⟩ := hs
      have ha := open_alive hopen
      have hread : Known (g.read c data) :=
        hi.link (c := c) (r := 0) rfl (fun d hd => by simp [Gateway.read, hd]) (fun _ _ => rfl) ha
          fun _ h => .inl h
      refine hread.onMessage ?_ (by simpa [Gateway.read] using ha)
      exact hpool.beside (c := c) (fun d hd => by simp [Gateway.read, hd]) (fun _ => ha)
        (by simp [Gateway.read]) rfl rfl rfl
    | backendRead r data =>
      simp only [Gateway.stepOk, Option.ite_none_right_eq_some, Option.some.injEq] at hs
      obtain ⟨-, rfl⟩ := hs
      split
      · exact (hi.receive r data).onResponse
      · exact hi.receive r data
    | _ => cases he
  · have hu := untouched_of_step hs (Bool.eq_false_iff.mpr he)
    exact hi.update hu.clientCount hu.alive fun s d h => .inl (hu.bound s ▸ h)

-- ---------------------------------------------------------------------------
-- Connections coming up and going down
-- ---------------------------------------------------------------------------

theorem lock_carried (h : Carried g c r) (ho : (g.clients c).open_ = true) : g.lock r = some c :=
  Option.filter_eq_some_iff.mpr ⟨h.bound, open_alive ho⟩

theorem Borne.backendUp (hi : Borne g) : Borne (g.backendUp r) := by
  have hup : ∀ remote : RemoteClient, remote.clientConn_ = (g.remotes r).clientConn_ →
      remote.is_busy_ = (g.remotes r).is_busy_ →
      ((g.lock r).isSome = true → Carries (g.remotes r) → Carries remote) →
      Borne (g.setRemote r remote) := by
    intro remote hb hy hu
    refine hi.setRemote fun d ho ha => ?_
    simp only [Awaits, Gateway.setRemote_remotes, Function.update_self, hb, hy] at ha
    rcases hi d r ho ha with h | h
    · have hl := lock_carried h ho
      refine .inl ⟨h.held, ?_, ?_, ?_⟩
      · simpa [hb] using h.bound
      · simpa [hy] using h.busy
      · simpa using hu (hl ▸ rfl) h.carries
    · exact .inr h
  simp only [Gateway.backendUp]
  split
  · exact hup _ rfl rfl fun _ h => h.up
  · rename_i hl
    exact hup _ rfl rfl fun h _ => absurd h hl

theorem Borne.lost (hi : Borne g) (hb : remote.clientConn_ = (g.remotes r).clientConn_)
    (hy : remote.is_busy_ = (g.remotes r).is_busy_)
    (h : ∀ d, (g.clients d).open_ = true → Carried g d r → (g.clients d).badGateway) :
    Borne (g.setRemote r remote) := by
  refine hi.setRemote fun d ho ha => .inr ?_
  simp only [Awaits, Gateway.setRemote_remotes, Function.update_self, hb, hy] at ha
  exact (hi d r ho ha).elim (h d ho) id

theorem Borne.backendDown (hi : Borne g)
    (hc : Carrying g (.backendDown r)) : Borne (g.backendDown r) := by
  simp only [Gateway.backendDown]
  split
  · rename_i hy
    split
    · rename_i c hl
      obtain ⟨hbound, ha⟩ := Option.filter_eq_some_iff.mp hl
      refine hi.update (c := c) (r := r) (fun d hd => by simp [hd]) (fun s hs => by simp [hs])
        (fun d hd ho hawaits => ?_) fun s ho _ => ?_
      · simp only [Awaits, Gateway.setClient_clients, Function.update_of_ne hd] at ho hawaits ⊢
        have hold : Awaits g d r := by simpa [Awaits] using hawaits
        rcases hi d r ho hold with h | h
        · exact absurd (Option.some.inj (h.bound.symm.trans hbound)) hd
        · exact .inr h
      · simp only [Gateway.setClient_clients, Function.update_self] at ho ⊢
        have ho : (g.clients c).open_ = true := by
          rwa [shutdown_open, Client.open_, (Link.send_fields _ _).2.2.1, Link.send_state] at ho
        rcases hc c hbound ho hy with h | h
        · exact .inr (badGateway_told h)
        · exact .inr (shutdown_badGateway h _)
    · rename_i hl
      refine Borne.congr (g := g.setRemote r { g.remotes r with conn_ := none })
        (hi.lost rfl rfl fun d ho h => ?_) rfl rfl
      exact absurd ((lock_carried h ho).symm.trans hl) (Option.some_ne_none d)
  · rename_i hy
    refine Borne.congr (g := g.setRemote r { g.remotes r with conn_ := none })
      (hi.lost rfl rfl fun d ho h => ?_) rfl rfl
    exact absurd h.busy hy

theorem Borne.acceptClient (hi : Borne g) (hknown : Known g) : Borne
    { g.setClient g.clientCount { state_ := .kConnected, alive := true } with
      clientCount := g.clientCount + 1 } := by
  refine Borne.congr (g := g.setClient g.clientCount { state_ := .kConnected, alive := true })
    (hi.setClient fun s _ ha => ?_) rfl rfl
  simp only [Awaits, Gateway.setClient_clients, Function.update_self] at ha
  rcases ha with ha | ⟨-, ha⟩
  · cases ha
  · exact absurd (hknown.bound s _ ha) (Nat.lt_irrefl _)

theorem borne_step (hi : Borne g) (hpool : Pooled g) (hsane : AllSane g) (hknown : Known g)
    (hc : Carrying g e) (hs : step g e = some g') : Borne g' := by
  simp only [step, Option.ite_none_right_eq_some] at hs
  obtain ⟨-, hs⟩ := hs
  cases e with
  | accept =>
    cases hs
    exact hi.acceptClient hknown
  | clientRead c data now =>
    simp only [Gateway.stepOk, Option.ite_none_right_eq_some, Option.some.injEq] at hs
    obtain ⟨⟨hopen, -⟩, rfl⟩ := hs
    exact hi.clientRead hpool (open_alive hopen) hc
  | clientClose c =>
    simp only [Gateway.stepOk, Option.ite_none_right_eq_some, Option.some.injEq] at hs
    obtain ⟨-, rfl⟩ := hs
    refine hi.setClient fun s ho _ => ?_
    simp [Client.open_] at ho
  | clientGone c =>
    simp only [Gateway.stepOk, Option.ite_none_right_eq_some, Option.some.injEq] at hs
    obtain ⟨-, rfl⟩ := hs
    refine hi.setClient fun s ho _ => ?_
    simp [Client.open_] at ho
  | backendUp r =>
    simp only [Gateway.stepOk, Option.ite_none_right_eq_some, Option.some.injEq] at hs
    obtain ⟨-, rfl⟩ := hs
    exact hi.backendUp
  | backendFailed r =>
    simp only [Gateway.stepOk, Option.ite_none_right_eq_some, Option.some.injEq] at hs
    obtain ⟨-, rfl⟩ := hs
    exact hi.lost rfl rfl fun d ho h => hc d h.bound ho
  | backendRead r data =>
    simp only [Gateway.stepOk, Option.ite_none_right_eq_some, Option.some.injEq] at hs
    obtain ⟨-, rfl⟩ := hs
    exact hi.backendRead hpool hsane hc
  | backendDown r =>
    simp only [Gateway.stepOk, Option.ite_none_right_eq_some, Option.some.injEq] at hs
    obtain ⟨-, rfl⟩ := hs
    split
    · exact hi.backendDown hc
    · rename_i hheld
      refine hi.lost rfl rfl fun d ho h => absurd ?_ hheld
      simp only [Gateway.held, decide_eq_true_eq]
      exact .inr ⟨d, hknown.alive d (open_alive ho), open_alive ho, h.held⟩
  | errorCallback r =>
    simp only [Gateway.stepOk, Option.ite_none_right_eq_some, Option.some.injEq] at hs
    obtain ⟨-, rfl⟩ := hs
    exact hi.congr rfl rfl
  | shared lb =>
    cases hs
    exact hi.congr rfl rfl

end VortexNet.L7
