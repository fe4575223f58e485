import VortexNet.Proxy.L7.Counting
import VortexNet.Proxy.L7.ReturnConnection

/-!
# The idle connections

An idle connection belongs to nobody. The one way to break that is a backend
that answers early: its bytes are counted as the body of the request that the
client is still sending, and when they end it the connection goes back to the
pool while the client keeps it.
-/

namespace VortexNet.L7

open Incremental Picohttpparser
open Systems (Reach Always exec)

structure Free (g : Gateway) (a : Bytes) (r : Nat) : Prop where
  node : (g.remotes r).targetNode = a
  idle : (g.remotes r).is_busy_ = false
  unbound : (g.remotes r).clientConn_ = none
  empty : (g.remotes r).pendingBuffer_ = []
  unheld : ∀ c, (g.clients c).alive = true → (g.clients c).context.client_ ≠ some r

/-- Idle connections are free, each in one place of one list, and no list is too long. -/
structure Exclusive (g : Gateway) : Prop where
  free : ∀ a, ∀ r ∈ g.idle_map_ a, Free g a r
  nodup : ∀ a, (g.idle_map_ a).Nodup
  short : ∀ a, (g.idle_map_ a).length ≤ max_conns_

/-- A backend does not send a client, before the whole of its request has come, as many bytes as
are missing of the request's body; or its idle list is full. -/
def Late (g : Gateway) : Event → Prop
  | .backendRead r data =>
    let remote := g.remotes r
    ∀ c ∈ remote.clientConn_, let conn := g.clients c
      conn.alive = true → conn.context.client_ = some r →
      conn.context.parser_.isExpectingBody = true → conn.context.parser_.isRequest = true →
      max_conns_ ≤ (g.idle_map_ remote.targetNode).length ∨
        (remote.inputBuffer_ ++ data).length < conn.context.parser_.bytesRemaining
  | _ => True

-- ---------------------------------------------------------------------------
-- The invariant
-- ---------------------------------------------------------------------------

variable {g g' w : Gateway} {c r now : Nat} {conn : Client} {l : Link}

structure Holds (g : Gateway) (c r : Nat) : Prop where
  known : r < g.remoteCount
  bound : (g.remotes r).is_busy_ = true → (g.remotes r).clientConn_ = some c
  parked : ∀ a, r ∉ g.idle_map_ a

structure Parked (g : Gateway) (a : Bytes) (r : Nat) : Prop where
  known : r < g.remoteCount
  node : (g.remotes r).targetNode = a
  idle : (g.remotes r).is_busy_ = false
  unbound : (g.remotes r).clientConn_ = none
  empty : (g.remotes r).pendingBuffer_ = []

structure Pooled (g : Gateway) : Prop where
  holds : ∀ c r, (g.clients c).alive = true → (g.clients c).context.client_ = some r → Holds g c r
  parked : ∀ a, ∀ r ∈ g.idle_map_ a, Parked g a r
  nodup : ∀ a, (g.idle_map_ a).Nodup
  short : ∀ a, (g.idle_map_ a).length ≤ max_conns_

theorem pooled_init (lb : LB_Server) : Pooled { lb } where
  holds _ _ h := nomatch h
  parked _ _ h := nomatch h
  nodup _ := List.nodup_nil
  short _ := Nat.zero_le _

theorem Pooled.exclusive (hi : Pooled g) : Exclusive g where
  free a r hm := by
    obtain ⟨-, hnode, hidle, hunbound, hempty⟩ := hi.parked a r hm
    exact ⟨hnode, hidle, hunbound, hempty, fun c ha hc => (hi.holds c r ha hc).parked a hm⟩
  nodup := hi.nodup
  short := hi.short

-- ---------------------------------------------------------------------------
-- Updates
-- ---------------------------------------------------------------------------

theorem Pooled.update (hi : Pooled g) (hcount : g.remoteCount ≤ g'.remoteCount)
    (hclients : ∀ d, d ≠ c → g'.clients d = g.clients d)
    (hremotes : ∀ s, s ≠ r → g'.remotes s = g.remotes s)
    (hother : ∀ d, d ≠ c → (g.clients d).alive = true → (g.clients d).context.client_ = some r →
      Holds g' d r)
    (hidle : ∀ a s, s ∈ g'.idle_map_ a → s ∈ g.idle_map_ a ∧ s ≠ r ∨ s = r ∧ Parked g' a r)
    (hnodup : ∀ a, (g'.idle_map_ a).Nodup) (hshort : ∀ a, (g'.idle_map_ a).length ≤ max_conns_)
    (hlink : ∀ s, (g'.clients c).alive = true → (g'.clients c).context.client_ = some s →
      Holds g' c s) : Pooled g' where
  holds d s hd hs := by
    by_cases h : d = c
    · subst h
      exact hlink s hd hs
    · rw [hclients d h] at hd hs
      by_cases hne : s = r
      · subst hne
        exact hother d h hd hs
      obtain ⟨hk, hb, hp⟩ := hi.holds d s hd hs
      refine ⟨hk.trans_le hcount, hremotes s hne ▸ hb, fun a hm => ?_⟩
      rcases hidle a s hm with ⟨hm, -⟩ | ⟨rfl, -⟩
      · exact hp a hm
      · exact hne rfl
  parked a s hm := by
    rcases hidle a s hm with ⟨hm, hne⟩ | ⟨rfl, h⟩
    · obtain ⟨hk, hn, hy, hb, he⟩ := hi.parked a s hm
      rw [← hremotes s hne] at hn hy hb he
      exact ⟨hk.trans_le hcount, hn, hy, hb, he⟩
    · exact h
  nodup := hnodup
  short := hshort

theorem Pooled.beside (hi : Pooled g) (hd : ∀ d, d ≠ c → w.clients d = g.clients d)
    (ha : (w.clients c).alive = true → (g.clients c).alive = true)
    (hc : (w.clients c).context.client_ = (g.clients c).context.client_)
    (hr : w.remotes = g.remotes) (hn : w.remoteCount = g.remoteCount)
    (hm : w.idle_map_ = g.idle_map_) : Pooled w where
  holds d s hda hs := by
    have hold : (g.clients d).alive = true ∧ (g.clients d).context.client_ = some s := by
      by_cases h : d = c
      · subst h
        exact ⟨ha hda, hc ▸ hs⟩
      · exact ⟨hd d h ▸ hda, hd d h ▸ hs⟩
    obtain ⟨hk, hb, hp⟩ := hi.holds d s hold.1 hold.2
    exact ⟨hn ▸ hk, hr ▸ hb, hm ▸ hp⟩
  parked a s hs := by
    obtain ⟨hk, hnode, hy, hb, he⟩ := hi.parked a s (hm ▸ hs)
    exact ⟨hn ▸ hk, hr ▸ hnode, hr ▸ hy, hr ▸ hb, hr ▸ he⟩
  nodup := hm ▸ hi.nodup
  short := hm ▸ hi.short

-- ---------------------------------------------------------------------------
-- Events that read nothing
-- ---------------------------------------------------------------------------

theorem setRemote_pendingBuffer (remote : RemoteClient) (h : remote.pendingBuffer_ = [] ∨
    remote.pendingBuffer_ = (g.remotes r).pendingBuffer_) (s : Nat) :
    ((g.setRemote r remote).remotes s).pendingBuffer_ = [] ∨
      ((g.setRemote r remote).remotes s).pendingBuffer_ = (g.remotes s).pendingBuffer_ := by
  rw [Gateway.setRemote_remotes]
  by_cases hs : s = r
  · subst hs
    rwa [Function.update_self]
  · rw [Function.update_of_ne hs]
    exact .inr rfl

theorem pendingBuffer_of_step (h : g.stepOk e = some g') (he : e.reads = false) (s : Nat) :
    (g'.remotes s).pendingBuffer_ = [] ∨
      (g'.remotes s).pendingBuffer_ = (g.remotes s).pendingBuffer_ := by
  cases e with
  | accept => cases he
  | clientRead => cases he
  | backendRead => cases he
  | clientClose c =>
    simp only [Gateway.stepOk, Option.ite_none_right_eq_some, Option.some.injEq] at h
    obtain ⟨-, rfl⟩ := h
    exact .inr rfl
  | clientGone c =>
    simp only [Gateway.stepOk, Option.ite_none_right_eq_some, Option.some.injEq] at h
    obtain ⟨-, rfl⟩ := h
    exact .inr rfl
  | backendUp r =>
    simp only [Gateway.stepOk, Option.ite_none_right_eq_some, Option.some.injEq] at h
    obtain ⟨-, rfl⟩ := h
    simp only [Gateway.backendUp]
    split
    · apply setRemote_pendingBuffer
      exact .inl rfl
    · apply setRemote_pendingBuffer
      exact .inr rfl
  | backendFailed r =>
    simp only [Gateway.stepOk, Option.ite_none_right_eq_some, Option.some.injEq] at h
    obtain ⟨-, rfl⟩ := h
    apply setRemote_pendingBuffer
    exact .inr rfl
  | backendDown r =>
    simp only [Gateway.stepOk, Option.ite_none_right_eq_some, Option.some.injEq] at h
    obtain ⟨-, rfl⟩ := h
    have hdown := setRemote_pendingBuffer (g := g) (r := r)
      { g.remotes r with conn_ := none } (.inr rfl) s
    split
    · simp only [Gateway.backendDown]
      split
      · split <;> exact hdown
      · exact hdown
    · exact hdown
  | errorCallback r =>
    simp only [Gateway.stepOk, Option.ite_none_right_eq_some, Option.some.injEq] at h
    obtain ⟨-, rfl⟩ := h
    exact .inr rfl
  | shared lb =>
    cases h
    exact .inr rfl

theorem Untouched.pooled (h : Untouched g g') (hp : ∀ r, (g'.remotes r).pendingBuffer_ = [] ∨
    (g'.remotes r).pendingBuffer_ = (g.remotes r).pendingBuffer_) (hi : Pooled g) : Pooled g' where
  holds c r ha hc := by
    obtain ⟨hk, hb, hparked⟩ := hi.holds c r (h.alive c ha) (h.context c ▸ hc)
    refine ⟨h.remoteCount ▸ hk, fun hy => ?_, fun a hm => hparked a ((h.idle a).subset hm)⟩
    exact (h.bound r).trans (hb (h.busy r ▸ hy))
  parked a r hm := by
    obtain ⟨hk, hn, hy, hb, he⟩ := hi.parked a r ((h.idle a).subset hm)
    refine ⟨h.remoteCount ▸ hk, (h.node r).trans hn, (h.busy r).trans hy, (h.bound r).trans hb, ?_⟩
    exact (hp r).elim id fun hsame => hsame.trans he
  nodup a := (hi.nodup a).sublist (h.idle a)
  short a := (h.idle a).length_le.trans (hi.short a)

theorem Pooled.acceptClient (hi : Pooled g) : Pooled
    { g.setClient g.clientCount { state_ := .kConnected, alive := true } with
      clientCount := g.clientCount + 1 } where
  holds c r ha hc := by
    by_cases h : c = g.clientCount
    · simp [h] at hc
    · simp only [Gateway.setClient_clients, Function.update_of_ne h] at ha hc
      obtain ⟨hk, hb, hp⟩ := hi.holds c r ha hc
      exact ⟨hk, hb, hp⟩
  parked a r hm := by
    obtain ⟨hk, hn, hy, hb, he⟩ := hi.parked a r hm
    exact ⟨hk, hn, hy, hb, he⟩
  nodup := hi.nodup
  short := hi.short

-- ---------------------------------------------------------------------------
-- Client reads
-- ---------------------------------------------------------------------------

theorem Pooled.forwardBody (hi : Pooled g) (ha : (g.clients c).alive = true)
    (hcl : (g.clients c).context.client_ = some r) :
    Pooled (g.setLink c r (g.link c r).forwardBody) := by
  have hf := Link.forwardBody_forwards (g.link c r)
  -- what refers to the connection goes on to do so
  have hkeep : ∀ d, Holds g d r → Holds (g.setLink c r (g.link c r).forwardBody) d r := by
    rintro d ⟨hk, hb, hp⟩
    refine ⟨hk, fun hy => ?_, hp⟩
    simp only [Gateway.setLink_remotes, Function.update_self] at hy ⊢
    exact hf.bound.trans (hb (hf.busy ▸ hy))
  have hc := hi.holds c r ha hcl
  generalize (g.link c r).forwardBody = l at *
  refine hi.update (c := c) (r := r) le_rfl (fun d hd => by simp [hd]) (fun s hs => by simp [hs])
    (fun d _ hd hdr => hkeep d (hi.holds d r hd hdr))
    (fun a s hm => .inl ⟨hm, fun h => hc.parked a (h ▸ hm)⟩) hi.nodup hi.short fun s _ hs => ?_
  simp only [Gateway.setLink_clients, Function.update_self] at hs
  rcases hf.client with h | ⟨-, h⟩
  · obtain rfl : s = r := Option.some.inj (hs.symm.trans (h.trans hcl))
    exact hkeep c hc
  · exact absurd (hs.symm.trans h) (Option.some_ne_none s)

theorem Pooled.accept (hi : Pooled g) (hq : (g.clients c).context.parser_.isRequest = true) :
    Pooled (g.accept c a) := by
  obtain ⟨hcount, hk, hremotes, hsource, hidle, hgone⟩ :=
    Gateway.borrowConnection_lent (g := g) (a := a) hi.nodup
      fun b s hs => ⟨(hi.parked b s hs).known, (hi.parked b s hs).node⟩
  have hclients := Gateway.borrowConnection_clients (g := g) (a := a)
  simp only [Gateway.accept]
  generalize (g.borrowConnection a).1 = r at *
  generalize (g.borrowConnection a).2 = v at *
  rw [hclients]
  generalize hl₀ : ({
    conn := { g.clients c with context := (g.clients c).context.BoundRClient r }
    remote := (v.remotes r).bindClient c (g.clients c).context.parser_.request.method } : Link) = l₀
  have hf := Link.forwardHead_forwards l₀
  have hq₀ : l₀.parser.isRequest = true := hl₀ ▸ hq
  have hcl₀ : l₀.conn.context.client_ = some r := hl₀ ▸ rfl
  have hbound₀ : l₀.remote.clientConn_ = some c := hl₀ ▸ rfl
  generalize l₀.forwardHead = l at *
  refine hi.update (c := c) (r := r) hcount (fun d hd => by simp [hd, hclients])
    (fun s hs => by simp [hs, hremotes s hs]) (fun d _ hd hdr => ?_)
    (fun b s hm => .inl ⟨(hidle b).subset hm, fun h => hgone b (h ▸ hm)⟩)
    (fun b => (hi.nodup b).sublist (hidle b)) (fun b => (hidle b).length_le.trans (hi.short b))
    fun s _ hs => ?_
  · obtain ⟨hold, -, hp⟩ := hi.holds d r hd hdr
    rcases hsource with ⟨hlast, -⟩ | ⟨rfl, -⟩
    · exact absurd (List.mem_of_getLast? hlast) (hp a)
    · exact absurd hold (Nat.lt_irrefl _)
  · simp only [Gateway.setLink_clients, Function.update_self] at hs
    rcases hf.client with h | ⟨h, -⟩
    · obtain rfl : s = r := Option.some.inj (hs.symm.trans (h.trans hcl₀))
      refine ⟨hk, fun _ => ?_, hgone⟩
      simp only [Gateway.setLink_remotes, Function.update_self]
      exact hf.bound.trans hbound₀
    · exact Bool.noConfusion (h.symm.trans hq₀)

theorem Pooled.onMessage (hi : Pooled g) (ha : (g.clients c).alive = true) :
    Pooled (LB_Server.onMessage g c now) := by
  simp only [LB_Server.onMessage]
  split
  · split
    · rename_i r hr
      exact hi.forwardBody ha hr
    · exact hi.beside (c := c) (fun _ _ => rfl) id rfl rfl rfl rfl
  · cases hp : (g.clients c).parseRequest with
    | mk parsed conn =>
      obtain ⟨p, buf, hparse, hconn⟩ := Client.parseRequest_eq hp
      have hset : Pooled (g.setClient c conn) := by
        refine hi.beside (c := c) (fun d hd => by simp [hd]) (fun _ => ha) ?_ rfl rfl rfl
        simp [hconn]
      cases parsed with
      | false => exact hset
      | true =>
        have hw : ∃ w : Gateway, w = { g.setClient c conn with
            lb := (g.lb.judge conn.context conn.inputBuffer_ now).1 } ∧ Pooled w ∧
              w.clients c = conn :=
          ⟨_, rfl, hset.beside (c := c) (fun _ _ => rfl) id rfl rfl rfl rfl, by simp⟩
        obtain ⟨w, hw, hpool, hwc⟩ := hw
        simp only [if_true, Gateway.setClient_lb]
        rw [← hw]
        split
        · refine hpool.beside (c := c) (fun d hd => by simp [refuse_clients, hd]) ?_ ?_ rfl rfl rfl
          · rw [refuse_clients, Function.update_self, (shutdown_fields _ _).2.2.1]
            exact id
          · rw [refuse_clients, Function.update_self, refused_context]
        · refine hpool.accept ?_
          rw [hwc, hconn]
          exact (parseRequest_message hparse).2.1

-- ---------------------------------------------------------------------------
-- Backend reads
-- ---------------------------------------------------------------------------

theorem Pooled.setRemote (hi : Pooled g) (hn : remote.targetNode = (g.remotes r).targetNode)
    (hy : remote.is_busy_ = (g.remotes r).is_busy_)
    (hb : remote.clientConn_ = (g.remotes r).clientConn_)
    (hp : remote.pendingBuffer_ = (g.remotes r).pendingBuffer_) : Pooled (g.setRemote r remote) where
  holds c s ha hc := by
    obtain ⟨hk, hbound, hparked⟩ := hi.holds c s ha hc
    refine ⟨hk, ?_, hparked⟩
    by_cases hs : s = r
    · subst hs
      simpa [hy, hb] using hbound
    · simpa [hs] using hbound
  parked a s hm := by
    obtain ⟨hk, hnode, hidle, hunbound, hempty⟩ := hi.parked a s hm
    by_cases hs : s = r
    · subst hs
      refine ⟨hk, ?_, ?_, ?_, ?_⟩ <;> simpa [hn, hy, hb, hp]
    · refine ⟨hk, ?_, ?_, ?_, ?_⟩ <;> simpa [hs]
  nodup := hi.nodup
  short := hi.short

theorem Pooled.disconnect (hi : Pooled g) : Pooled (g.setRemote r (g.remotes r).disconnect) := by
  unfold RemoteClient.disconnect
  split <;> exact hi.setRemote rfl rfl rfl rfl

theorem returnConnection_full (h : max_conns_ ≤ (g.idle_map_ (g.remotes r).targetNode).length) :
    (g.returnConnection c r).idle_map_ = g.idle_map_ := by
  simp only [Gateway.returnConnection]
  rw [if_neg]
  · rfl
  · exact Nat.not_lt.mpr h

theorem returnConnection_short (h : ∀ a, (g.idle_map_ a).length ≤ max_conns_) (a : Bytes) :
    ((g.returnConnection c r).idle_map_ a).length ≤ max_conns_ := by
  by_cases hfull : max_conns_ ≤ (g.idle_map_ (g.remotes r).targetNode).length
  · rw [returnConnection_full hfull]
    exact h a
  · rcases returnConnection_idle (g := g) (c := c) (r := r) a with hsame | ⟨rfl, hmore⟩
    · rw [hsame]
      exact h a
    · rw [hmore, List.length_append]
      exact Nat.not_le.mp hfull

theorem Pooled.answers (hi : Pooled g) (hheld : g.held r = true) (hy : (g.remotes r).is_busy_ = true)
    (hb : (g.remotes r).clientConn_ = some c) : (g.clients c).context.client_ = some r := by
  simp only [Gateway.held, decide_eq_true_eq] at hheld
  rcases hheld with hm | ⟨d, -, ha, hd⟩
  · exact Bool.noConfusion ((hi.parked _ r hm).idle.symm.trans hy)
  · obtain rfl : d = c := Option.some.inj (((hi.holds d r ha hd).bound hy).symm.trans hb)
    exact hd

theorem Pooled.setRead (hi : Pooled g) (hq : Link.Quiet (g.link c r) l)
    (ha : (g.clients c).alive = true) (hcl : (g.clients c).context.client_ = some r)
    (hf : l.finished = false) : Pooled (g.setLink c r l) := by
  have hkeep : ∀ d, Holds g d r → Holds (g.setLink c r l) d r := by
    rintro d ⟨hk, hb, hp⟩
    refine ⟨hk, fun hy => ?_, hp⟩
    simp only [Gateway.setLink_remotes, Function.update_self] at hy ⊢
    exact hq.bound.trans (hb (hq.busy ▸ hy))
  have hc := hi.holds c r ha hcl
  refine hi.update (c := c) (r := r) le_rfl (fun d hd => by simp [hd]) (fun s hs => by simp [hs])
    (fun d _ hd hdr => hkeep d (hi.holds d r hd hdr))
    (fun a s hm => .inl ⟨hm, fun h => hc.parked a (h ▸ hm)⟩) hi.nodup hi.short fun s _ hs => ?_
  simp only [Gateway.setLink_clients, Function.update_self] at hs
  rcases hq.client with h | ⟨h, -⟩
  · obtain rfl : s = r := Option.some.inj (hs.symm.trans (h.trans hcl))
    exact hkeep c hc
  · exact Bool.noConfusion (h.symm.trans hf)

theorem Pooled.finished (hi : Pooled g) (hq : Link.Quiet (g.link c r) l)
    (ha : (g.clients c).alive = true) (hcl : (g.clients c).context.client_ = some r)
    (hy : (g.remotes r).is_busy_ = true)
    (hrel : l.conn.context.client_ = none ∨
      max_conns_ ≤ (g.idle_map_ (g.remotes r).targetNode).length) :
    Pooled ((g.setLink c r l).returnConnection c r) := by
  obtain ⟨hk, hbound, hp⟩ := hi.holds c r ha hcl
  have hbound := hbound hy
  obtain ⟨hb', -, hn', hy', he'⟩ := returnConnection_remote (g := g.setLink c r l) (c := c) (r := r)
  have hclients := Gateway.returnConnection_clients (g := g.setLink c r l) (c := c) (r := r)
  have hcount := returnConnection_remoteCount (g := g.setLink c r l) (c := c) (r := r)
  have hnode : ((g.setLink c r l).remotes r).targetNode = (g.remotes r).targetNode := by
    rw [Gateway.setLink_remotes, Function.update_self]
    exact hq.node
  refine hi.update (c := c) (r := r) hcount.ge (fun d hd => ?_) (fun s hs => ?_)
    (fun d hd had hdr => ?_) (fun a s hm => ?_) (fun a => ?_) (returnConnection_short hi.short)
    fun s _ hs => ?_
  · rw [hclients, Gateway.setLink_clients, Function.update_of_ne hd]
  · rw [returnConnection_remotes hs, Gateway.setLink_remotes, Function.update_of_ne hs]
  · exact absurd (Option.some.inj (((hi.holds d r had hdr).bound hy).symm.trans hbound)) hd
  · rcases returnConnection_idle (g := g.setLink c r l) (c := c) (r := r) a with h | ⟨ha, h⟩
    · rw [h] at hm
      exact .inl ⟨hm, fun h' => hp a (h' ▸ hm)⟩
    · rw [h] at hm
      rcases List.mem_append.mp hm with hm | hm
      · exact .inl ⟨hm, fun h' => hp a (h' ▸ hm)⟩
      · obtain rfl := List.mem_singleton.mp hm
        exact .inr ⟨rfl, hcount.symm ▸ hk, hn'.trans ha.symm, hy', hb', he'⟩
  · rcases returnConnection_idle (g := g.setLink c r l) (c := c) (r := r) a with h | ⟨-, h⟩
    · rw [h]
      exact hi.nodup a
    · rw [h]
      exact List.nodup_append.mpr ⟨hi.nodup a, List.pairwise_singleton _ r, fun s hs t ht h' =>
        hp a (List.mem_singleton.mp ht ▸ h' ▸ hs)⟩
  · rw [hclients, Gateway.setLink_clients, Function.update_self] at hs
    rcases hrel with hnone | hfull
    · exact absurd (hs.symm.trans hnone) (Option.some_ne_none s)
    · have hstay : ((g.setLink c r l).returnConnection c r).idle_map_ = g.idle_map_ :=
        returnConnection_full (hnode.symm ▸ hfull)
      rcases hq.client with h | ⟨-, h⟩
      · obtain rfl : s = r := Option.some.inj (hs.symm.trans (h.trans hcl))
        exact ⟨hcount.symm ▸ hk, fun h => Bool.noConfusion (hy'.symm.trans h), hstay.symm ▸ hp⟩
      · exact absurd (hs.symm.trans h) (Option.some_ne_none s)

theorem Pooled.backendRead (hi : Pooled g) (hs : AllSane g) (hc : Late g (.backendRead r data)) :
    Pooled (if (g.receive r data).held r then RemoteClient.onMessage (g.receive r data) r
      else g.receive r data) := by
  have hread : Pooled (g.receive r data) := hi.setRemote rfl rfl rfl rfl
  split
  · rename_i hheld
    simp only [RemoteClient.onMessage]
    split
    · rename_i c hbound
      split
      · rename_i hlive
        obtain ⟨ha, hy⟩ := hlive
        have hcl := hread.answers hheld hy hbound
        have hq := Link.relayResponse_quiet ((g.receive r data).link c r)
        split
        · rename_i hfin
          refine hread.finished hq ha hcl hy ?_
          have hbuf : ((g.receive r data).link c r).remote.inputBuffer_ =
              (g.remotes r).inputBuffer_ ++ data := by simp [Gateway.receive]
          have hnode : ((g.receive r data).remotes r).targetNode = (g.remotes r).targetNode := by
            simp [Gateway.receive]
          have hbound : (g.remotes r).clientConn_ = some c := by
            simpa [Gateway.receive] using hbound
          by_cases hreq : (g.clients c).context.parser_.isExpectingBody = true ∧
              (g.clients c).context.parser_.isRequest = true
          · obtain ⟨he, hreq⟩ := hreq
            rcases hc c hbound ha hcl he hreq with hfull | hlen
            · exact .inr (hnode.symm ▸ hfull)
            · have := Link.relayResponse_unfinished (l := (g.receive r data).link c r)
                ((hs c).counting he hreq) he (hbuf.symm ▸ hlen)
              exact Bool.noConfusion (hfin.symm.trans this)
          · exact .inl (Link.relayResponse_released rfl (fun he =>
              Bool.eq_false_iff.mpr fun h => hreq ⟨he, h⟩) hfin)
        · exact hread.setRead hq ha hcl (Bool.eq_false_iff.mpr ‹_›)
      · exact hread.disconnect
    · exact hread.disconnect
  · exact hread

-- ---------------------------------------------------------------------------
-- Runs
-- ---------------------------------------------------------------------------

theorem pooled_step (hi : Pooled g) (hsane : AllSane g) (hc : Late g e)
    (hs : step g e = some g') : Pooled g' := by
  simp only [step, Option.ite_none_right_eq_some] at hs
  obtain ⟨-, hs⟩ := hs
  by_cases he : e.reads = true
  · cases e with
    | accept =>
      cases hs
      exact hi.acceptClient
    | clientRead c data now =>
      simp only [Gateway.stepOk, Option.ite_none_right_eq_some, Option.some.injEq] at hs
      obtain ⟨⟨hopen, -⟩, rfl⟩ := hs
      simp only [Client.open_, Bool.and_eq_true] at hopen
      have hread : Pooled (g.read c data) :=
        hi.beside (c := c) (fun d hd => by simp [Gateway.read, hd]) (fun _ => hopen.1)
          (by simp [Gateway.read]) rfl rfl rfl
      exact hread.onMessage (by simpa [Gateway.read] using hopen.1)
    | backendRead r data =>
      simp only [Gateway.stepOk, Option.ite_none_right_eq_some, Option.some.injEq] at hs
      obtain ⟨-, rfl⟩ := hs
      exact hi.backendRead hsane hc
    | _ => cases he
  · have he := Bool.eq_false_iff.mpr he
    exact (untouched_of_step hs he).pooled (pendingBuffer_of_step hs he) hi

theorem pooled_of_reach (h : Reach step Late { lb } g) : Pooled g ∧ AllSane g :=
  h.invariant (I := fun g => Pooled g ∧ AllSane g) ⟨pooled_init lb, fun _ => sane_reset {}⟩ fun _ _ _ hi hc hs =>
    ⟨pooled_step hi.1 hi.2 hc hs, hi.2.step hs⟩

theorem idle_exclusive (h : Reach step Late { lb } g) : Exclusive g :=
  (pooled_of_reach h).1.exclusive

instance (g : Gateway) (e : Event) : Decidable (Late g e) :=
  match e with
  | .backendRead .. => inferInstanceAs (Decidable (∀ c ∈ _, _ → _ → _ → _ → _ ∨ _))
  | .accept | .clientRead .. | .clientClose _ | .clientGone _ | .backendUp _ | .backendFailed _
  | .backendDown _ | .errorCallback _ | .shared _ => .isTrue trivial

/-- After two clients have used the one connection it is idle again. -/
theorem idle_exclusive_reused : ∃ g, exec step Late { lb := unconfigured } reusedRun = some g ∧
    0 ∈ g.idle_map_ (g.remotes 0).targetNode ∧ Exclusive g := by
  have hrun : (exec step Late { lb := unconfigured } reusedRun).any
      (fun g => 0 ∈ g.idle_map_ (g.remotes 0).targetNode) = true := by decide +kernel
  obtain ⟨g, hg, hidle⟩ := (Option.any_eq_true _ _).mp hrun
  exact ⟨g, hg, of_decide_eq_true hidle, idle_exclusive (.of_exec hg)⟩

def hastyRun : List Event :=
  [.accept, .clientRead 0 (ascii "POST /im HTTP/1.1\r\nContent-Length: 2\r\n\r\nh") 0,
    .backendUp 0, .backendRead 0 (ascii "HTTP/1.1 408 Request Timeout\r\n\r\n")]

theorem not_idle_exclusive : ¬ ∀ lb g, Reach step Always { lb } g → Exclusive g := by
  intro h
  have hrun : (exec step Always { lb := unconfigured } hastyRun).any (fun g =>
      0 ∈ g.idle_map_ (g.remotes 0).targetNode ∧ (g.clients 0).alive = true ∧
        (g.clients 0).context.client_ = some 0) = true := by
    decide +kernel
  obtain ⟨g, hg, hheld⟩ := (Option.any_eq_true _ _).mp hrun
  obtain ⟨hm, ha, hc⟩ := of_decide_eq_true hheld
  exact ((h _ g (.of_exec hg)).free _ 0 hm).unheld 0 ha hc

end VortexNet.L7
