import Mathlib.Data.List.Basic
import VortexNet.Proxy.L7.LinkLaws

/-!
# Runs in which requests and responses alternate

`Orderly` says of an event that a client waits for the end of a response before
it sends on, and that a backend sends one final response for the request it has
and nothing else. Along such events a live client's backend is its own, with all
that has come relayed or in the buffer, and an idle connection has an empty one.
-/

namespace VortexNet.L7

open Incremental Picohttpparser
open Systems (Reach)

-- ---------------------------------------------------------------------------
-- The condition
-- ---------------------------------------------------------------------------

variable {g : Gateway}

/-- The bytes that backend `r` has sent for its client, with `data`, go on with one final
response, and do not look like its end before it is there. -/
def Continues (R : Response method) (got data : Bytes) : Prop :=
  got ++ data <+: R.bytes ∧ (R.parsed.headers.any HttpParser.isChunked = true →
    (find Link.zeroChunk (payload true R.head got (got ++ data))).isSome = true →
      got ++ data = R.bytes)

/-- A connected client sends nothing while its parser is in the body of a response. A backend
sends only to a connected client whose request it has, and only what `goesOn`. -/
def OrderlyIf (goesOn : Bytes → Bytes → Bytes → Prop) (g : Gateway) : Event → Prop
  | .clientRead c _ _ =>
    let conn := g.clients c
    conn.state_ = .kConnected → conn.context.client_ ≠ none →
      conn.context.parser_.isExpectingBody = true → conn.context.parser_.isRequest = true
  | .backendRead r data =>
    let remote := g.remotes r
    r ∉ g.idle_map_ remote.targetNode ∧ ∀ c ∈ remote.clientConn_,
      let conn := g.clients c
      conn.alive = true → conn.context.client_ = some r → conn.state_ = .kConnected ∧
        (conn.context.parser_.isExpectingBody = true →
          conn.context.parser_.isRequest = false) ∧
        goesOn remote.exchange.method remote.exchange.got data
  | _ => True

def Orderly : Gateway → Event → Prop :=
  OrderlyIf fun method got data => ∃ R : Response method, Continues R got data

theorem OrderlyIf.mono {p q : Bytes → Bytes → Bytes → Prop} (hpq : ∀ m got data, p m got data →
    q m got data) (h : OrderlyIf p g e) : OrderlyIf q g e := by
  cases e with
  | backendRead r data =>
    refine ⟨h.1, fun c hc ha hcl => ?_⟩
    obtain ⟨hs, hq, hgo⟩ := h.2 c hc ha hcl
    exact ⟨hs, hq, hpq _ _ _ hgo⟩
  | _ => exact h

instance (R : Response method) (got data : Bytes) : Decidable (Continues R got data) := by
  unfold Continues
  infer_instance

instance (p : Bytes → Bytes → Bytes → Prop) [∀ m got data, Decidable (p m got data)]
    (g : Gateway) (e : Event) : Decidable (OrderlyIf p g e) :=
  match e with
  | .clientRead .. => inferInstanceAs (Decidable (_ → _ → _ → _))
  | .backendRead .. => inferInstanceAs (Decidable (_ ∧ _))
  | .accept | .clientClose _ | .clientGone _ | .backendUp _ | .backendFailed _ | .backendDown _
  | .errorCallback _ | .shared _ => .isTrue trivial

-- ---------------------------------------------------------------------------
-- The invariant
-- ---------------------------------------------------------------------------

structure Linked (g : Gateway) (c r : Nat) : Prop where
  known : r < g.remoteCount
  bound : (g.remotes r).clientConn_ = some c
  busy : (g.remotes r).is_busy_ = true
  parked : ∀ a, r ∉ g.idle_map_ a
  own : (g.remotes r).foreign = 0
  stage : (g.clients c).state_ = .kConnected →
    Link.Stage (g.clients c).context.parser_ (g.remotes r) ∧ (g.remotes r).Conserved

structure Idle (g : Gateway) (a : Bytes) (r : Nat) : Prop where
  known : r < g.remoteCount
  node : (g.remotes r).targetNode = a
  bound : (g.remotes r).clientConn_ = none
  inputBuffer : (g.remotes r).inputBuffer_ = []

structure Inv (g : Gateway) : Prop where
  linked : ∀ c r, (g.clients c).alive = true → (g.clients c).context.client_ = some r → Linked g c r
  settled : ∀ c, Settled (g.clients c).context.parser_
  idle : ∀ a r, r ∈ g.idle_map_ a → Idle g a r
  nodup : ∀ a, (g.idle_map_ a).Nodup
  known : ∀ c, (g.clients c).alive = true → c < g.clientCount
  whole : ∀ m ∈ g.log, m.entry.whole

variable {g' w : Gateway} {c r now : Nat} {conn : Client} {remote : RemoteClient} {l : Link}

theorem inv_init (lb : LB_Server) : Inv { lb } where
  linked _ _ h := nomatch h
  settled _ _ := rfl
  idle _ _ h := nomatch h
  nodup _ := List.nodup_nil
  known _ h := nomatch h
  whole _ h := nomatch h

theorem Untouched.inv (h : Untouched g g') (hi : Inv g) : Inv g' where
  linked c r ha hc := by
    obtain ⟨hk, hb, hy, hp, ho, hs⟩ := hi.linked c r (h.alive c ha) (h.context c ▸ hc)
    refine ⟨h.remoteCount ▸ hk, h.bound r ▸ hb, h.busy r ▸ hy,
      fun a hm => hp a ((h.idle a).subset hm), h.foreign r ▸ ho, fun hc => ?_⟩
    obtain ⟨hstage, hcons⟩ := hs (h.connected c hc)
    rw [h.context]
    exact ⟨hstage.congr (h.received r) (h.exchange r), hcons.congr (h.received r) (h.exchange r)⟩
  settled c := h.context c ▸ hi.settled c
  idle a r hm := by
    obtain ⟨hk, hn, hb, hbuf⟩ := hi.idle a r ((h.idle a).subset hm)
    exact ⟨h.remoteCount ▸ hk, (h.node r).trans hn, (h.bound r).trans hb, (h.received r).trans hbuf⟩
  nodup a := (hi.nodup a).sublist (h.idle a)
  known c ha := h.clientCount ▸ hi.known c (h.alive c ha)
  whole := h.log ▸ hi.whole

-- ---------------------------------------------------------------------------
-- Updates
-- ---------------------------------------------------------------------------

theorem Inv.congr (hi : Inv g) (hc : g'.clients = g.clients) (hcc : g'.clientCount = g.clientCount)
    (hr : g'.remotes = g.remotes) (hrc : g'.remoteCount = g.remoteCount)
    (hm : g'.idle_map_ = g.idle_map_) (hl : g'.log = g.log) : Inv g' where
  linked c r ha hcr := by
    rw [hc] at ha hcr
    obtain ⟨hk, hb, hy, hp, ho, hst⟩ := hi.linked c r ha hcr
    exact ⟨hrc ▸ hk, hr ▸ hb, hr ▸ hy, hm ▸ hp, hr ▸ ho, by rwa [hc, hr]⟩
  settled := hc ▸ hi.settled
  idle a r h := by
    obtain ⟨hk, hn, hb, hbuf⟩ := hi.idle a r (hm ▸ h)
    exact ⟨hrc ▸ hk, hr ▸ hn, hr ▸ hb, hr ▸ hbuf⟩
  nodup := hm ▸ hi.nodup
  known := by rw [hc, hcc]; exact hi.known
  whole := hl ▸ hi.whole

/-- Two live clients do not share a backend. -/
theorem Inv.own (hi : Inv g) (hc : (g.clients c).alive = true)
    (hr : (g.clients c).context.client_ = some r) (hd : (g.clients d).alive = true)
    (hs : (g.clients d).context.client_ = some r) : d = c :=
  Option.some.inj ((hi.linked d r hd hs).bound.symm.trans (hi.linked c r hc hr).bound)

theorem Inv.setClient (hi : Inv g) (ha : conn.alive = true → (g.clients c).alive = true)
    (hset : Settled conn.context.parser_)
    (hr : ∀ r, conn.context.client_ = some r → (g.clients c).context.client_ = some r ∧
      (conn.state_ = .kConnected → (g.clients c).state_ = .kConnected ∧
        (Link.Stage (g.clients c).context.parser_ (g.remotes r) →
          Link.Stage conn.context.parser_ (g.remotes r)))) :
    Inv (g.setClient c conn) where
  linked d r hd hdr := by
    by_cases h : d = c
    · subst h
      simp only [Gateway.setClient_clients, Function.update_self] at hd hdr
      obtain ⟨hold, hstage⟩ := hr r hdr
      obtain ⟨hk, hb, hy, hp, ho, hs⟩ := hi.linked d r (ha hd) hold
      refine ⟨hk, hb, hy, hp, ho, fun hc => ?_⟩
      simp only [Gateway.setClient_clients, Function.update_self] at hc ⊢
      obtain ⟨hc', hst⟩ := hstage hc
      exact ⟨hst (hs hc').1, (hs hc').2⟩
    · simp only [Gateway.setClient_clients, Function.update_of_ne h] at hd hdr
      obtain ⟨hk, hb, hy, hp, ho, hs⟩ := hi.linked d r hd hdr
      refine ⟨hk, hb, hy, hp, ho, ?_⟩
      simpa [h] using hs
  settled d := by
    by_cases h : d = c
    · simpa [h] using hset
    · simpa [h] using hi.settled d
  idle a r hm := by
    obtain ⟨hk, hn, hb, hbuf⟩ := hi.idle a r hm
    exact ⟨hk, hn, hb, hbuf⟩
  nodup := hi.nodup
  known d hd := by
    by_cases h : d = c
    · subst h
      exact hi.known d (ha (by simpa using hd))
    · exact hi.known d (by simpa [h] using hd)
  whole := hi.whole

theorem Inv.update (hi : Inv g) (hcc : g'.clientCount = g.clientCount)
    (ha : (g'.clients c).alive = true → (g.clients c).alive = true)
    (hcount : g.remoteCount ≤ g'.remoteCount)
    (hclients : ∀ d, d ≠ c → g'.clients d = g.clients d)
    (hremotes : ∀ s, s ≠ r → g'.remotes s = g.remotes s)
    (hother : ∀ d, d ≠ c → (g.clients d).alive = true → (g.clients d).context.client_ ≠ some r)
    (hidle : ∀ a s, s ∈ g'.idle_map_ a → s ∈ g.idle_map_ a ∧ s ≠ r ∨ s = r ∧ Idle g' a r)
    (hnodup : ∀ a, (g'.idle_map_ a).Nodup)
    (hset : Settled (g'.clients c).context.parser_)
    (hlink : ∀ s, (g'.clients c).alive = true → (g'.clients c).context.client_ = some s →
      s = r ∧ Linked g' c r)
    (hwhole : ∀ m ∈ g'.log, m.entry.whole) : Inv g' where
  linked d s hd hs := by
    by_cases h : d = c
    · subst h
      obtain ⟨rfl, hl⟩ := hlink s hd hs
      exact hl
    · rw [hclients d h] at hd hs
      have hne : s ≠ r := fun h' => hother d h hd (h' ▸ hs)
      obtain ⟨hk, hb, hy, hp, ho, hst⟩ := hi.linked d s hd hs
      refine ⟨hk.trans_le hcount, ?_, ?_, fun a hm => ?_, ?_, ?_⟩
      · rwa [hremotes s hne]
      · rwa [hremotes s hne]
      · rcases hidle a s hm with ⟨hm, -⟩ | ⟨rfl, -⟩
        · exact hp a hm
        · exact hne rfl
      · rwa [hremotes s hne]
      · rwa [hclients d h, hremotes s hne]
  settled d := by
    by_cases h : d = c
    · subst h
      exact hset
    · rw [hclients d h]
      exact hi.settled d
  idle a s hm := by
    rcases hidle a s hm with ⟨hm, hne⟩ | ⟨rfl, h⟩
    · obtain ⟨hk, hn, hb, hbuf⟩ := hi.idle a s hm
      rw [← hremotes s hne] at hn hb hbuf
      exact ⟨hk.trans_le hcount, hn, hb, hbuf⟩
    · exact h
  nodup := hnodup
  known d hd := by
    rw [hcc]
    by_cases h : d = c
    · subst h
      exact hi.known d (ha hd)
    · exact hi.known d (hclients d h ▸ hd)
  whole := hwhole

theorem Inv.setRemote (hi : Inv g) (hparked : ∀ a, r ∉ g.idle_map_ a)
    (hno : ∀ c, (g.clients c).alive = true → (g.clients c).context.client_ ≠ some r) :
    Inv (g.setRemote r remote) where
  linked d s hd hs := by
    have hne : s ≠ r := fun h => hno d hd (h ▸ hs)
    obtain ⟨hk, hb, hy, hp, ho, hst⟩ := hi.linked d s hd hs
    refine ⟨hk, ?_, ?_, hp, ?_, ?_⟩
    · simpa [hne] using hb
    · simpa [hne] using hy
    · simpa [hne] using ho
    · simpa [hne] using hst
  settled := hi.settled
  idle a s hm := by
    have hne : s ≠ r := fun h => hparked a (h ▸ hm)
    obtain ⟨hk, hn, hb, hbuf⟩ := hi.idle a s hm
    refine ⟨hk, ?_, ?_, ?_⟩
    · simpa [hne] using hn
    · simpa [hne] using hb
    · simpa [hne] using hbuf
  nodup := hi.nodup
  known := hi.known
  whole := hi.whole

theorem Inv.addLog (hi : Inv g) (ht : ∀ e ∈ t, e.whole) : Inv (g.addLog c s t) where
  linked d r hd hr := by
    obtain ⟨hk, hb, hy, hp, ho, hst⟩ := hi.linked d r hd hr
    exact ⟨hk, hb, hy, hp, ho, hst⟩
  settled := hi.settled
  idle a r hm := by
    obtain ⟨hk, hn, hb, hbuf⟩ := hi.idle a r hm
    exact ⟨hk, hn, hb, hbuf⟩
  nodup := hi.nodup
  known := hi.known
  whole m hm := by
    rcases List.mem_append.mp hm with hm | hm
    · obtain ⟨e, he, rfl⟩ := List.mem_map.mp hm
      exact ht e he
    · exact hi.whole m hm

theorem whole_setLink (hg : ∀ m ∈ g.log, m.entry.whole) (ht : ∀ e ∈ l.trace, e.whole) :
    ∀ m ∈ (g.setLink c r l).log, m.entry.whole := by
  intro m hm
  rcases List.mem_append.mp hm with hm | hm
  · obtain ⟨e, he, rfl⟩ := List.mem_map.mp hm
    exact ht e he
  · exact hg m hm

-- ---------------------------------------------------------------------------
-- Client reads
-- ---------------------------------------------------------------------------

theorem Inv.forwardBody (hi : Inv g) (ha : (g.clients c).alive = true)
    (hb : (g.clients c).context.parser_.isExpectingBody = true)
    (hcl : (g.clients c).context.client_ = some r)
    (hreq : (g.clients c).state_ = .kConnected → (g.clients c).context.parser_.isRequest = true) :
    Inv (g.setLink c r (g.link c r).forwardBody) := by
  have hf := Link.forwardBody_forwards (g.link c r)
  have hset := Link.settled_forwardBody (l := g.link c r) hb
  obtain ⟨hk, hbound, hy, hp, ho, hst⟩ := hi.linked c r ha hcl
  generalize (g.link c r).forwardBody = l at *
  refine hi.update (c := c) (r := r) rfl (fun _ => ha) le_rfl (fun d hd => by simp [hd])
    (fun s hs => by simp [hs]) (fun d hd had hdr => hd (hi.own ha hcl had hdr))
    (fun a s hm => .inl ⟨hm, fun h => hp a (h ▸ hm)⟩) hi.nodup (by simpa [Link.parser] using hset)
    (fun s _ hs => ?_) (whole_setLink hi.whole ?_)
  · simp only [Gateway.setLink_clients, Function.update_self] at hs
    rcases hf.client with h | ⟨-, h⟩
    · obtain rfl : s = r := Option.some.inj (hs.symm.trans (h.trans hcl))
      refine ⟨rfl, hk, ?_, ?_, hp, ?_, fun hc => ?_⟩
      · simpa [hf.bound] using hbound
      · simpa [hf.busy] using hy
      · simpa [hf.foreign] using ho
      · simp only [Gateway.setLink_clients, Gateway.setLink_remotes, Function.update_self] at hc ⊢
        rw [hf.state] at hc
        obtain ⟨hstage, hcons⟩ := hst hc
        refine ⟨?_, hcons.congr hf.inputBuffer hf.exchange⟩
        cases hstage with
        | waiting he => exact Bool.noConfusion (he.symm.trans hb)
        | uploading _ _ hg hbuf =>
          exact Link.stage_fresh (hf.request.trans (hreq hc)) (hf.exchange ▸ hg)
            (hf.inputBuffer ▸ hbuf)
        | relaying _ hq => exact Bool.noConfusion (hq.symm.trans (hreq hc))
    · exact absurd (hs.symm.trans h) (Option.some_ne_none s)
  · obtain ⟨t, ht, he⟩ := hf.trace
    have ht : l.trace = t := ht.trans (List.append_nil t)
    exact fun e hm => (he e (ht ▸ hm)).1

structure Borrowed (g g' : Gateway) (r : Nat) : Prop where
  count : g.remoteCount ≤ g'.remoteCount
  known : r < g'.remoteCount
  remotes : ∀ s, s ≠ r → g'.remotes s = g.remotes s
  inputBuffer : (g'.remotes r).inputBuffer_ = []
  free : ∀ d, (g.clients d).alive = true → (g.clients d).context.client_ ≠ some r
  idle : ∀ a s, s ∈ g'.idle_map_ a → s ∈ g.idle_map_ a ∧ s ≠ r
  nodup : ∀ a, (g'.idle_map_ a).Nodup

theorem Inv.borrowConnection (hi : Inv g) (hr : w.remotes = g.remotes)
    (hm : w.idle_map_ = g.idle_map_) (hn : w.remoteCount = g.remoteCount) :
    Borrowed g (w.borrowConnection a).2 (w.borrowConnection a).1 := by
  obtain ⟨hcount, hk, hremotes, hsource, hidle, hgone⟩ :=
    Gateway.borrowConnection_lent (g := w) (a := a) (by rw [hm]; exact hi.nodup)
      (by rw [hm, hn, hr]; exact fun b s hs => ⟨(hi.idle b s hs).known, (hi.idle b s hs).node⟩)
  rw [hr] at hremotes hsource
  rw [hm] at hsource hidle
  rw [hn] at hcount hsource
  refine ⟨hcount, hk, hremotes, ?_, fun d hd hdr => ?_, fun b s hs => ?_, fun b => ?_⟩
  · rcases hsource with ⟨hlast, h⟩ | ⟨-, h⟩
    · exact h ▸ (hi.idle a _ (List.mem_of_getLast? hlast)).inputBuffer
    · exact h ▸ rfl
  · rcases hsource with ⟨hlast, -⟩ | ⟨h, -⟩
    · exact (hi.linked d _ hd hdr).parked a (List.mem_of_getLast? hlast)
    · exact (hi.linked d _ hd hdr).known.ne h
  · exact ⟨(hidle b).subset hs, fun h => hgone b (h ▸ hs)⟩
  · exact (hi.nodup b).sublist (hidle b)

structure Beside (g w : Gateway) (c : Nat) : Prop where
  clients : ∀ d, d ≠ c → w.clients d = g.clients d
  clientCount : w.clientCount = g.clientCount
  remotes : w.remotes = g.remotes
  remoteCount : w.remoteCount = g.remoteCount
  idle : w.idle_map_ = g.idle_map_
  log : w.log = g.log

theorem Inv.accept (hi : Inv g) (ha : (g.clients c).alive = true) (hw : Beside g w c)
    (hmsg : Link.InMessage (w.clients c).context.parser_)
    (hreq : (w.clients c).context.parser_.isRequest = true) : Inv (w.accept c a) := by
  obtain ⟨hcount, hk, hremotes, hbuf, hfree, hidle, hnodup⟩ :=
    hi.borrowConnection (a := a) hw.remotes hw.idle hw.remoteCount
  have hclients := Gateway.borrowConnection_clients (g := w) (a := a)
  have hlog := Gateway.borrowConnection_log (g := w) (a := a)
  have hcc := Gateway.borrowConnection_clientCount (g := w) (a := a)
  simp only [Gateway.accept]
  generalize (w.borrowConnection a).1 = r at *
  generalize (w.borrowConnection a).2 = v at *
  rw [hclients]
  generalize hl₀ : ({
    conn := { w.clients c with context := (w.clients c).context.BoundRClient r }
    remote := (v.remotes r).bindClient c (w.clients c).context.parser_.request.method } : Link) = l₀
  have hf := Link.forwardHead_forwards l₀
  have hset := Link.settled_forwardHead (l := l₀) (hl₀ ▸ hmsg)
  have hreq₀ : l₀.parser.isRequest = true := hl₀ ▸ hreq
  have hcl₀ : l₀.conn.context.client_ = some r := hl₀ ▸ rfl
  have htrace₀ : l₀.trace = [] := hl₀ ▸ rfl
  have hbound₀ : l₀.remote.clientConn_ = some c := hl₀ ▸ rfl
  have hbusy₀ : l₀.remote.is_busy_ = true := hl₀ ▸ rfl
  have hbuf₀ : l₀.remote.inputBuffer_ = [] := hl₀ ▸ hbuf
  have hown₀ : l₀.remote.foreign = 0 := by
    rw [← hl₀]
    simp [RemoteClient.bindClient, hbuf]
  have hgot₀ : l₀.remote.exchange.got = [] ∧ l₀.remote.exchange.relayed = [] := hl₀ ▸ ⟨rfl, rfl⟩
  generalize l₀.forwardHead = l at *
  refine hi.update (c := c) (r := r) (hcc.trans hw.clientCount) (fun _ => ha) hcount
    (fun d hd => ?_) (fun s hs => ?_) (fun d _ => hfree d) (fun b s hs => .inl (hidle b s hs)) hnodup
    (by simpa [Link.parser] using hset) (fun s _ hs => ?_) (whole_setLink ?_ ?_)
  · simp [hd, hclients, hw.clients d hd]
  · simp [hs, hremotes s hs]
  · simp only [Gateway.setLink_clients, Function.update_self] at hs
    rcases hf.client with h | ⟨h, -⟩
    · obtain rfl : s = r := Option.some.inj (hs.symm.trans (h.trans hcl₀))
      refine ⟨rfl, hk, ?_, ?_, fun b hb => (hidle b s hb).2 rfl, ?_, fun _ => ?_⟩
      · simp [hf.bound, hbound₀]
      · simp [hf.busy, hbusy₀]
      · simp [hf.foreign, hown₀]
      · simp only [Gateway.setLink_clients, Gateway.setLink_remotes, Function.update_self]
        refine ⟨Link.stage_fresh (hf.request.trans hreq₀) (hf.exchange ▸ hgot₀.1)
          (hf.inputBuffer.trans hbuf₀), ?_⟩
        rw [RemoteClient.Conserved, hf.exchange, hf.inputBuffer, hgot₀.1, hgot₀.2, hbuf₀]
        rfl
    · exact Bool.noConfusion (h.symm.trans hreq₀)
  · rw [hlog, hw.log]
    exact hi.whole
  · obtain ⟨t, ht, he⟩ := hf.trace
    rw [htrace₀, List.append_nil] at ht
    exact fun e hm => (he e (ht ▸ hm)).1

theorem parseRequest_message {p : HttpParser} (h : p.parseRequest buf = (true, p', buf')) :
    Link.InMessage p' ∧ p'.isRequest = true ∧ p'.body_bytes_read_ = p.body_bytes_read_ := by
  simp only [HttpParser.parseRequest] at h
  split at h
  · split at h
    · cases h
      simp only [HttpParser.requestParsed, Link.InMessage]
      split
      · exact ⟨.inl rfl, rfl, rfl⟩
      · exact ⟨.inr rfl, rfl, rfl⟩
    · split at h <;> cases h
  · cases h
  · cases h

theorem Inv.refuse (hi : Inv g) (hw : Beside g w c)
    (ha : (w.clients c).alive = true → (g.clients c).alive = true)
    (hset : Settled (w.clients c).context.parser_)
    (hcl : (w.clients c).context.client_ = (g.clients c).context.client_) :
    Inv (w.refuse c response) := by
  obtain ⟨-, -, hal, hx⟩ := shutdown_fields (w.clients c) response
  have hold : Inv (g.setClient c ((w.clients c).send response).shutdown) := hi.setClient
    (fun h => ha (hal ▸ h)) (hx ▸ hset)
    (fun r hr => ⟨hcl ▸ hx ▸ hr, fun hc => absurd hc shutdown_state⟩)
  refine (Inv.addLog (c := c) (s := none)
    (t := [.refused (w.clients c).consumed (Gateway.requestLen (w.clients c))]) hold
    (by simp [Entry.whole])).congr ?_ hw.clientCount hw.remotes hw.remoteCount hw.idle ?_
  · funext d
    by_cases h : d = c
    · simp [Gateway.refuse, Gateway.addLog, h]
    · simp [Gateway.refuse, Gateway.addLog, h, hw.clients d h]
  · simp [Gateway.refuse, Gateway.addLog, hw.log]

theorem Inv.onMessage (hi : Inv g) (ha : (g.clients c).alive = true)
    (h : (g.clients c).state_ = .kConnected → (g.clients c).context.client_ ≠ none →
      (g.clients c).context.parser_.isExpectingBody = true →
        (g.clients c).context.parser_.isRequest = true) : Inv (LB_Server.onMessage g c now) := by
  simp only [LB_Server.onMessage]
  split
  · rename_i hb
    split
    · rename_i r hr
      exact hi.forwardBody ha hb hr fun hc => h hc (hr ▸ Option.some_ne_none r) hb
    · refine Inv.congr (g := g.addLog c none _) (hi.addLog ?_) rfl rfl rfl rfl rfl rfl
      simp [Entry.whole]
  · rename_i hb
    have hb : (g.clients c).context.parser_.isExpectingBody = false := Bool.eq_false_iff.mpr hb
    cases hp : (g.clients c).parseRequest with
    | mk parsed conn =>
      obtain ⟨p, buf, hparse, hconn⟩ := Client.parseRequest_eq hp
      cases parsed with
      | true =>
        obtain ⟨hmsg, hreq, hread⟩ := parseRequest_message hparse
        simp only [if_true, Gateway.setClient_lb]
        have hw : ∃ w : Gateway, w = { g.setClient c conn with
            lb := (g.lb.judge conn.context conn.inputBuffer_ now).1 } ∧ Beside g w c ∧
              w.clients c = conn :=
          ⟨_, rfl, ⟨fun d hd => by simp [hd], rfl, rfl, rfl, rfl, rfl⟩, by simp⟩
        obtain ⟨w, hw, hbeside, hwc⟩ := hw
        rw [← hw]
        split
        · refine hi.refuse hbeside (fun _ => ha) (fun _ => ?_) ?_
          · rw [hwc, hconn]
            exact hread.trans (hi.settled c hb)
          · rw [hwc, hconn]
        · refine hi.accept ha hbeside ?_ ?_
          · rw [hwc, hconn]
            exact hmsg
          · rw [hwc, hconn]
            exact hreq
      | false =>
        obtain ⟨-, rfl⟩ := HttpParser.parseRequest_unparsed hparse
        subst hconn
        refine hi.setClient id (hi.settled c) fun r hr => ⟨hr, fun hc => ⟨hc, fun hst => ?_⟩⟩
        cases hst with
        | waiting he hret hbuf => exact .waiting he hret hbuf
        | uploading he => exact Bool.noConfusion (he.symm.trans hb)
        | relaying he => exact Bool.noConfusion (he.symm.trans hb)

-- ---------------------------------------------------------------------------
-- Backend reads
-- ---------------------------------------------------------------------------

theorem returnConnection_remotes (hs : s ≠ r) :
    (g.returnConnection c r).remotes s = g.remotes s := by
  simp only [Gateway.returnConnection]
  split <;> simp [hs, Gateway.addLog]

theorem returnConnection_remoteCount : (g.returnConnection c r).remoteCount = g.remoteCount := by
  simp only [Gateway.returnConnection]
  split <;> rfl

theorem returnConnection_remote :
    ((g.returnConnection c r).remotes r).clientConn_ = none ∧
      ((g.returnConnection c r).remotes r).inputBuffer_ = (g.remotes r).inputBuffer_ ∧
      ((g.returnConnection c r).remotes r).targetNode = (g.remotes r).targetNode ∧
      ((g.returnConnection c r).remotes r).is_busy_ = false ∧
      ((g.returnConnection c r).remotes r).pendingBuffer_ = [] := by
  have hdis : ∀ remote : RemoteClient, remote.disconnect.clientConn_ = remote.clientConn_ ∧
      remote.disconnect.inputBuffer_ = remote.inputBuffer_ ∧
      remote.disconnect.targetNode = remote.targetNode ∧
      remote.disconnect.is_busy_ = remote.is_busy_ ∧
      remote.disconnect.pendingBuffer_ = remote.pendingBuffer_ := by
    intro remote
    unfold RemoteClient.disconnect
    split <;> exact ⟨rfl, rfl, rfl, rfl, rfl⟩
  simp only [Gateway.returnConnection]
  split
  · simp [RemoteClient.unbind]
  · simp [RemoteClient.unbind, hdis]

theorem returnConnection_idle (a : Bytes) :
    (g.returnConnection c r).idle_map_ a = g.idle_map_ a ∨
      a = (g.remotes r).targetNode ∧
        (g.returnConnection c r).idle_map_ a = g.idle_map_ a ++ [r] := by
  simp only [Gateway.returnConnection]
  split
  · by_cases h : a = (g.remotes r).targetNode
    · subst h
      exact .inr ⟨rfl, by simp [RemoteClient.unbind]⟩
    · exact .inl (by simp [RemoteClient.unbind, h, Gateway.addLog])
  · exact .inl rfl

theorem Link.Quiet.whole (hq : Link.Quiet (g.link c r) l) (ho : (g.remotes r).foreign = 0) :
    ∀ e ∈ l.trace, e.whole := by
  obtain ⟨t, ht, he⟩ := hq.trace
  have ht : l.trace = t := ht.trans (List.append_nil t)
  exact fun e hm => Entry.whole_of (he e (ht ▸ hm)).1 ((he e (ht ▸ hm)).2 ho)

structure ReadTo (g : Gateway) (c r : Nat) (whole : Bytes) (l : Link) : Prop where
  quiet : Link.Quiet (g.link c r) l
  settled : Settled l.parser
  conserved : l.remote.Conserved
  reads : Link.Reads whole l
  released : l.finished = true → l.conn.context.client_ = none

theorem Inv.reads (hi : Inv g) (ha : (g.clients c).alive = true)
    (hcl : (g.clients c).context.client_ = some r) (hs : (g.clients c).state_ = .kConnected)
    (hq : (g.clients c).context.parser_.isExpectingBody = true →
      (g.clients c).context.parser_.isRequest = false)
    {R : Response method} (hR : Continues R (g.remotes r).exchange.got data) :
    ReadTo (g.receive r data) c r R.bytes ((g.receive r data).link c r).relayResponse := by
  obtain ⟨hstage, hcons⟩ := (hi.linked c r ha hcl).stage hs
  have hbuf : ((g.receive r data).link c r).remote.inputBuffer_ =
      (g.remotes r).inputBuffer_ ++ data := by simp [Gateway.receive]
  have hgot : ((g.receive r data).link c r).remote.exchange.got =
      (g.remotes r).exchange.got ++ data := by simp [Gateway.receive]
  have hrel : ((g.receive r data).link c r).remote.exchange.relayed =
      (g.remotes r).exchange.relayed := by simp [Gateway.receive]
  refine ⟨Link.relayResponse_quiet _, Link.settled_relayResponse (hi.settled c),
    Link.relayResponse_conserves hs ?_,
    Link.relayResponse_reads hstage (hi.settled c) hs rfl hq hbuf hgot hR.1 hR.2,
    Link.relayResponse_released rfl hq⟩
  rw [RemoteClient.Conserved, hbuf, hgot, hrel, ← List.append_assoc]
  exact congrArg (· ++ data) hcons

theorem Inv.setRead (hi : Inv g) (ha : (g.clients c).alive = true)
    (hcl : (g.clients c).context.client_ = some r)
    (hl : ReadTo (g.receive r data) c r response l) (hf : l.finished = false) :
    Inv ((g.receive r data).setLink c r l) := by
  obtain ⟨hk, hbound, hy, hp, ho, -⟩ := hi.linked c r ha hcl
  obtain ⟨hq, hset, hcons, hreads, -⟩ := hl
  refine hi.update (c := c) (r := r) rfl (fun _ => ha) le_rfl (fun d hd => ?_) (fun s hs => ?_)
    (fun d hd had hdr => hd (hi.own ha hcl had hdr)) (fun a s hm => .inl ⟨hm, fun h => hp a (h ▸ hm)⟩)
    hi.nodup (by simpa [Link.parser] using hset) (fun s _ hs => ?_) (whole_setLink hi.whole ?_)
  · simp [hd, Gateway.receive]
  · simp [hs, Gateway.receive]
  · simp only [Gateway.setLink_clients, Function.update_self] at hs
    rcases hq.client with h | ⟨h, -⟩
    · obtain rfl : s = r := Option.some.inj (hs.symm.trans (h.trans hcl))
      refine ⟨rfl, hk, ?_, ?_, hp, ?_, fun _ => ?_⟩
      · simpa [hq.bound, Gateway.receive] using hbound
      · simpa [hq.busy, Gateway.receive] using hy
      · simpa using hq.foreign (by simpa [Gateway.receive] using ho)
      · rw [Link.Reads, if_neg (Bool.eq_false_iff.mp hf)] at hreads
        simpa [Link.parser] using ⟨hreads, hcons⟩
    · exact Bool.noConfusion (h.symm.trans hf)
  · exact hq.whole (by simpa [Gateway.receive] using ho)

theorem Inv.finished (hi : Inv g) (ha : (g.clients c).alive = true)
    (hcl : (g.clients c).context.client_ = some r) {R : Response (g.remotes r).exchange.method}
    (hl : ReadTo (g.receive r data) c r R.bytes l) (hf : l.finished = true) :
    Inv (((g.receive r data).setLink c r l).returnConnection c r) := by
  obtain ⟨hk, -, -, hp, ho, -⟩ := hi.linked c r ha hcl
  obtain ⟨hq, hset, hcons, hreads, hrel⟩ := hl
  rw [Link.Reads, if_pos hf] at hreads
  obtain ⟨hbuf, hgot⟩ := hreads
  have hmethod : l.remote.exchange.method = (g.remotes r).exchange.method := by
    simpa [Gateway.receive] using hq.method
  have hrelayed : l.remote.exchange.relayed = R.bytes := by
    rw [RemoteClient.Conserved, hbuf, List.append_nil] at hcons
    exact hcons.trans hgot
  obtain ⟨hb', hbuf', hn', -⟩ := returnConnection_remote
    (g := (g.receive r data).setLink c r l) (c := c) (r := r)
  have hclients := Gateway.returnConnection_clients
    (g := (g.receive r data).setLink c r l) (c := c) (r := r)
  refine hi.update (c := c) (r := r) Gateway.returnConnection_clientCount (fun _ => ha)
    (returnConnection_remoteCount (g := (g.receive r data).setLink c r l)).ge (fun d hd => ?_) (fun s hs => ?_)
    (fun d hd had hdr => hd (hi.own ha hcl had hdr)) (fun a s hm => ?_) (fun a => ?_) ?_
    (fun s _ hs => ?_) ?_
  · rw [hclients, Gateway.setLink_clients, Function.update_of_ne hd]
    rfl
  · rw [returnConnection_remotes hs, Gateway.setLink_remotes, Function.update_of_ne hs]
    exact Function.update_of_ne hs ..
  · have hne : s ∈ g.idle_map_ a → s ≠ r := fun h h' => hp a (h' ▸ h)
    rcases returnConnection_idle (g := (g.receive r data).setLink c r l) (c := c) (r := r) a with
      h | ⟨hnode, h⟩
    · rw [h] at hm
      exact .inl ⟨hm, hne hm⟩
    · rw [h] at hm
      rcases List.mem_append.mp hm with hm | hm
      · exact .inl ⟨hm, hne hm⟩
      · obtain rfl := List.mem_singleton.mp hm
        refine .inr ⟨rfl, returnConnection_remoteCount.symm ▸ hk, hn'.trans hnode.symm, hb', ?_⟩
        simpa [hbuf'] using hbuf
  · rcases returnConnection_idle (g := (g.receive r data).setLink c r l) (c := c) (r := r) a with
      h | ⟨-, h⟩
    · rw [h]
      exact hi.nodup a
    · rw [h]
      exact List.nodup_append.mpr ⟨hi.nodup a, List.pairwise_singleton _ r, fun s hs t ht h' =>
        hp a (List.mem_singleton.mp ht ▸ h' ▸ hs)⟩
  · simpa [hclients, Link.parser] using hset
  · rw [hclients, Gateway.setLink_clients, Function.update_self, hrel hf] at hs
    cases hs
  · rw [Gateway.returnConnection_log]
    intro m hm
    rcases List.mem_cons.mp hm with rfl | hm
    · simp only [Gateway.setLink_remotes, Function.update_self]
      refine ⟨hbuf, ?_⟩
      exact hmethod ▸ ⟨R, hgot, hrelayed⟩
    · exact whole_setLink hi.whole (hq.whole (by simpa [Gateway.receive] using ho)) m hm

theorem Inv.backendRead (hi : Inv g) (hc : Orderly g (.backendRead r data)) :
    Inv (if (g.receive r data).held r then RemoteClient.onMessage (g.receive r data) r
      else g.receive r data) := by
  obtain ⟨hnode, hcond⟩ := hc
  have hparked : ∀ a, r ∉ g.idle_map_ a := fun a hm => hnode ((hi.idle a r hm).node ▸ hm)
  by_cases hlive : ∃ c, (g.clients c).alive = true ∧ (g.clients c).context.client_ = some r
  · obtain ⟨c, ha, hcl⟩ := hlive
    have hl := hi.linked c r ha hcl
    obtain ⟨hs, hq, R, hR⟩ := hcond c hl.bound ha hcl
    have hread := hi.reads ha hcl hs hq hR
    have hheld : (g.receive r data).held r = true := by
      simp only [Gateway.held, decide_eq_true_eq]
      exact .inr ⟨c, hi.known c ha, ha, hcl⟩
    have hbound : ((g.receive r data).remotes r).clientConn_ = some c := by
      simpa [Gateway.receive] using hl.bound
    have hbusy : ((g.receive r data).remotes r).is_busy_ = true := by
      simpa [Gateway.receive] using hl.busy
    have ha' : ((g.receive r data).clients c).alive = true := ha
    simp only [hheld, if_true, RemoteClient.onMessage, hbound, ha', hbusy, and_self]
    generalize ((g.receive r data).link c r).relayResponse = l at *
    split
    · exact hi.finished ha hcl hread ‹_›
    · exact hi.setRead ha hcl hread (Bool.eq_false_iff.mpr ‹_›)
  · have hno : ∀ c, (g.clients c).alive = true → (g.clients c).context.client_ ≠ some r :=
      fun c ha hcl => hlive ⟨c, ha, hcl⟩
    rw [if_neg]
    · exact hi.setRemote hparked hno
    · simp only [Gateway.held, decide_eq_true_eq, not_or, not_exists, not_and]
      refine ⟨hparked _, fun c _ ha hcl => hno c ha hcl⟩

-- ---------------------------------------------------------------------------
-- Runs
-- ---------------------------------------------------------------------------

theorem Inv.acceptClient (hi : Inv g) : Inv
    { g.setClient g.clientCount { state_ := .kConnected, alive := true } with
      clientCount := g.clientCount + 1 } where
  linked d r hd hdr := by
    by_cases h : d = g.clientCount
    · simp [h] at hdr
    · simp only [Gateway.setClient_clients, Function.update_of_ne h] at hd hdr
      obtain ⟨hk, hb, hy, hp, ho, hst⟩ := hi.linked d r hd hdr
      refine ⟨hk, hb, hy, hp, ho, ?_⟩
      simpa [h] using hst
  settled d := by
    by_cases h : d = g.clientCount
    · simp [h, Settled]
    · simpa [h] using hi.settled d
  idle a r hm := by
    obtain ⟨hk, hn, hb, hbuf⟩ := hi.idle a r hm
    exact ⟨hk, hn, hb, hbuf⟩
  nodup := hi.nodup
  known d hd := by
    by_cases h : d = g.clientCount
    · exact h ▸ Nat.lt_succ_self _
    · exact Nat.lt_succ_of_lt (hi.known d (by simpa [h] using hd))
  whole := hi.whole

theorem inv_step (hi : Inv g) (hc : Orderly g e) (hs : step g e = some g') : Inv g' := by
  simp only [step, Option.ite_none_right_eq_some] at hs
  obtain ⟨-, hs⟩ := hs
  by_cases he : e.reads = true
  · cases e with
    | accept =>
      cases hs
      exact hi.acceptClient
    | clientRead c data now =>
      simp only [Gateway.stepOk, Option.ite_none_right_eq_some, Option.some.injEq] at hs
      obtain ⟨⟨hopen, -⟩, rfl⟩ := hs
      simp only [Client.open_, Bool.and_eq_true] at hopen
      have hread : Inv (g.read c data) := hi.setClient id (hi.settled c) fun r hr =>
        ⟨hr, fun hc => ⟨hc, id⟩⟩
      refine hread.onMessage (by simpa [Gateway.read] using hopen.1) ?_
      simpa [Gateway.read, Orderly, OrderlyIf] using hc
    | backendRead r data =>
      simp only [Gateway.stepOk, Option.ite_none_right_eq_some, Option.some.injEq] at hs
      obtain ⟨-, rfl⟩ := hs
      exact hi.backendRead hc
    | _ => cases he
  · exact (untouched_of_step hs (Bool.eq_false_iff.mpr he)).inv hi

theorem inv_of_reach (h : Reach step Orderly { lb } g) : Inv g :=
  h.invariant (inv_init lb) fun _ _ _ hi hc hs => inv_step hi hc hs

end VortexNet.L7
