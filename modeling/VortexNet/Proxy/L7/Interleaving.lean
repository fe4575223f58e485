import VortexNet.Proxy.L7.ReturnConnection

/-!
# Both directions of one client at once

A client has one parser, with one state and one counter, for its requests and for
the responses to them. What a backend sends while a request is still on its way
is counted in the request's body; what a client sends during a response is
counted in the response's, and the head of a next request takes the parser, and
the client, away from the backend that is about to answer. `relays_exactly` says
that a client that does none of these gets each response as it was sent, with
every byte counted on its own side.
-/

namespace VortexNet.L7

open Incremental Picohttpparser
open Systems (Reach exec)

variable {g g' w : Gateway} {c d r now : Nat} {l : Link} {n : Nat}

/-- Every byte is counted on its side, and a response is relayed as it was sent: as far as it
has come to a connected client, and all of it when its connection goes back. -/
structure Exact (g : Gateway) : Prop where
  counted : ∀ m ∈ g.log, m.entry.unmixed
  relayed : ∀ r, ∀ c ∈ (g.remotes r).clientConn_, (g.clients c).alive = true →
    (g.clients c).state_ = .kConnected →
      (g.remotes r).exchange.relayed <+: (g.remotes r).exchange.got ∧
        ∀ R : Response (g.remotes r).exchange.method,
          (g.remotes r).exchange.got = R.bytes → (g.remotes r).exchange.relayed = R.bytes
  returned : ∀ m ∈ g.log, ∀ left exchange, m.entry = .returned left exchange →
    ∃ R : Response exchange.method, exchange.got = R.bytes ∧ exchange.relayed = R.bytes

-- ---------------------------------------------------------------------------
-- The condition
-- ---------------------------------------------------------------------------

/-- A backend sends to a live client only what `sends` allows, and to no one else. -/
def AnswersIf (sends : Bytes → Bytes → Bytes → Prop) (g : Gateway) : Event → Prop
  | .backendRead r data =>
    let remote := g.remotes r
    r ∉ g.idle_map_ remote.targetNode ∧ ∀ c ∈ remote.clientConn_, (g.clients c).alive = true →
      sends remote.exchange.method remote.exchange.got data
  | _ => True

/-- Backends answer each request with one final response. -/
def Answers : Gateway → Event → Prop :=
  AnswersIf fun method got data => ∃ R : Response method, got ++ data <+: R.bytes

theorem AnswersIf.mono {p q : Bytes → Bytes → Bytes → Prop} (hpq : ∀ m got data, p m got data →
    q m got data) (h : AnswersIf p g e) : AnswersIf q g e := by
  cases e with
  | backendRead r data => exact ⟨h.1, fun c hc ha => hpq _ _ _ (h.2 c hc ha)⟩
  | _ => exact h

instance (p : Bytes → Bytes → Bytes → Prop) [∀ m got data, Decidable (p m got data)]
    (g : Gateway) (e : Event) : Decidable (AnswersIf p g e) :=
  match e with
  | .backendRead .. => inferInstanceAs (Decidable (_ ∧ _))
  | .accept | .clientRead .. | .clientClose _ | .clientGone _ | .backendUp _ | .backendFailed _
  | .backendDown _ | .errorCallback _ | .shared _ => .isTrue trivial

/-- A client with a backend sends nothing in the body of a response, and no next head before it
when it is connected. -/
def Waits (g : Gateway) : Event → Prop
  | .clientRead c data _ =>
    let conn := g.clients c
    conn.context.client_ ≠ none →
      (conn.context.parser_.isExpectingBody = true → conn.context.parser_.isRequest = true) ∧
        (conn.context.parser_.isExpectingBody = false → conn.state_ = .kConnected →
          ¬ 0 < ret (phr_parse_request (conn.inputBuffer_ ++ data)))
  | _ => True

instance (g : Gateway) (e : Event) : Decidable (Waits g e) :=
  match e with
  | .clientRead .. => inferInstanceAs (Decidable (_ → _ ∧ _))
  | .accept | .clientClose _ | .clientGone _ | .backendUp _ | .backendFailed _ | .backendRead ..
  | .backendDown _ | .errorCallback _ | .shared _ => .isTrue trivial

def Apart (g : Gateway) (e : Event) : Prop := Orderly g e ∧ Waits g e

-- ---------------------------------------------------------------------------
-- Counting
-- ---------------------------------------------------------------------------

def Unmixed (trace : List Entry) : Prop := ∀ e ∈ trace, e.unmixed

namespace Link

theorem relay_unmixed (h : Unmixed l.trace) : Unmixed (l.relay n).trace :=
  List.forall_mem_cons.mpr ⟨trivial, h⟩

theorem consumeResponse_unmixed (hq : l.parser.isRequest = false) (h : Unmixed l.trace) :
    Unmixed (l.consumeResponse n).trace :=
  List.forall_mem_cons.mpr ⟨fun _ => hq.symm, h⟩

theorem relay_consume_unmixed (hq : l.parser.isRequest = false) (h : Unmixed l.trace) :
    Unmixed ((l.relay n).consumeResponse n).trace :=
  consumeResponse_unmixed ((congrArg HttpParser.isRequest (parser_relay l n)).trans hq)
    (relay_unmixed h)

theorem finishIfGotAll_unmixed (h : Unmixed l.trace) : Unmixed l.finishIfGotAll.trace := by
  unfold finishIfGotAll
  split <;> exact h

theorem relayChunks_unmixed (h : Unmixed l.trace) : Unmixed l.relayChunks.trace := by
  have hsent := relay_unmixed (n := l.remote.inputBuffer_.length) h
  simp only [relayChunks]
  split <;> split <;> exact hsent

theorem relayHead_unmixed (hq : l.parser.isRequest = false) (h : Unmixed l.trace) :
    Unmixed l.relayHead.trace := by
  have hhead : Unmixed ((l.relay l.parser.headerLen).retrieve l.parser.headerLen).trace :=
    relay_unmixed h
  have hq : ((l.relay l.parser.headerLen).retrieve l.parser.headerLen).parser.isRequest = false :=
    (congrArg HttpParser.isRequest (parser_relay l _)).trans hq
  simp only [relayHead]
  split
  · refine finishIfGotAll_unmixed ?_
    split
    · exact relay_consume_unmixed hq hhead
    · exact hhead
  · exact relayChunks_unmixed hhead

theorem relayResponse_unmixed (hq : l.parser.isExpectingBody = true → l.parser.isRequest = false)
    (h : Unmixed l.trace) : Unmixed l.relayResponse.trace := by
  simp only [relayResponse]
  split
  · rename_i he
    split
    · exact finishIfGotAll_unmixed (relay_consume_unmixed (hq he) h)
    · exact relayChunks_unmixed h
  · cases hp : l.parser.parseResponse l.remote.inputBuffer_ with
    | mk parsed p =>
      cases parsed with
      | true => exact relayHead_unmixed (l := l.setParser p) (parsed_inMessage hp).1 h
      | false => exact h

theorem Forwards.unmixed {l l' : Link} (h : Forwards l l') (hq : l.parser.isRequest = true)
    (ht : Unmixed l.trace) : Unmixed l'.trace := by
  obtain ⟨t, ht', he⟩ := h.trace
  rw [Unmixed, ht']
  intro e hm
  rcases List.mem_append.mp hm with hm | hm
  · exact (he e hm).2 hq
  · exact ht e hm

end Link

-- ---------------------------------------------------------------------------
-- The invariant
-- ---------------------------------------------------------------------------

structure Paired (g : Gateway) : Prop where
  bound : ∀ r, ∀ c ∈ (g.remotes r).clientConn_, c < g.clientCount ∧
    ((g.clients c).alive = true → (g.clients c).state_ = .kConnected →
      (g.clients c).context.client_ = some r)
  unmixed : ∀ m ∈ g.log, m.entry.unmixed

theorem Paired.of (hp : Paired g) (hcount : g.clientCount ≤ g'.clientCount)
    (h : ∀ r, ∀ c ∈ (g'.remotes r).clientConn_, c ∈ (g.remotes r).clientConn_ ∧
      (c < g.clientCount → (g'.clients c).alive = true → (g'.clients c).state_ = .kConnected →
        (g.clients c).alive = true ∧ (g.clients c).state_ = .kConnected ∧
          ((g.clients c).context.client_ = some r → (g'.clients c).context.client_ = some r)))
    (hlog : ∀ m ∈ g'.log, m.entry.unmixed) : Paired g' where
  bound r c hc := by
    obtain ⟨hmem, hkeep⟩ := h r c hc
    obtain ⟨hlt, hclient⟩ := hp.bound r c hmem
    refine ⟨hlt.trans_le hcount, fun ha hs => ?_⟩
    obtain ⟨ha', hs', hsame⟩ := hkeep hlt ha hs
    exact hsame (hclient ha' hs')
  unmixed := hlog

theorem paired_init (lb : LB_Server) : Paired { lb } := ⟨nofun, nofun⟩

theorem Untouched.paired (h : Untouched g g') (hp : Paired g) : Paired g' := by
  refine hp.of h.clientCount.ge (fun r c hc => ⟨h.bound r ▸ hc, fun _ ha hs => ?_⟩)
    (h.log ▸ hp.unmixed)
  exact ⟨h.alive c ha, h.connected c hs, fun hr => h.context c ▸ hr⟩

theorem Paired.acceptClient (hp : Paired g) : Paired
    { g.setClient g.clientCount { state_ := .kConnected, alive := true } with
      clientCount := g.clientCount + 1 } := by
  refine hp.of (Nat.le_succ _) (fun r c hc => ⟨hc, fun hlt ha hs => ?_⟩) hp.unmixed
  simp only [Gateway.setClient_clients, Function.update_of_ne hlt.ne] at ha hs ⊢
  exact ⟨ha, hs, id⟩

theorem Paired.update (hp : Paired g) (hcount : g'.clientCount = g.clientCount)
    (hclients : ∀ d, d ≠ c → g'.clients d = g.clients d)
    (hc : (g'.clients c).alive = true → (g'.clients c).state_ = .kConnected →
      (g.clients c).alive = true ∧ (g.clients c).state_ = .kConnected)
    (hb : ∀ r, ∀ d ∈ (g'.remotes r).clientConn_, d ∈ (g.remotes r).clientConn_ ∧
      ((g'.clients c).state_ = .kConnected → (g.clients c).context.client_ = some r →
        (g'.clients c).context.client_ = some r))
    (hlog : ∀ m ∈ g'.log, m.entry.unmixed) : Paired g' := by
  refine hp.of hcount.ge (fun r d hd => ⟨(hb r d hd).1, fun _ ha hs => ?_⟩) hlog
  by_cases hdc : d = c
  · subst hdc
    obtain ⟨ha', hs'⟩ := hc ha hs
    exact ⟨ha', hs', (hb r d hd).2 hs⟩
  · rw [hclients d hdc] at ha hs ⊢
    exact ⟨ha, hs, id⟩

theorem unmixed_addLog (hg : ∀ m ∈ g.log, m.entry.unmixed) (ht : Unmixed t) :
    ∀ m ∈ (g.addLog c s t).log, m.entry.unmixed := by
  intro m hm
  rcases List.mem_append.mp hm with hm | hm
  · obtain ⟨e, he, rfl⟩ := List.mem_map.mp hm
    exact ht e he
  · exact hg m hm

-- ---------------------------------------------------------------------------
-- Client reads
-- ---------------------------------------------------------------------------

theorem Paired.forwardBody (hp : Paired g)
    (hreq : (g.clients c).context.parser_.isRequest = true) :
    Paired (g.setLink c r (g.link c r).forwardBody) := by
  have hf := Link.forwardBody_forwards (g.link c r)
  have ht := hf.unmixed hreq (List.forall_mem_nil _)
  have hclient : (g.link c r).forwardBody.conn.context.client_ = (g.clients c).context.client_ :=
    hf.client.resolve_right fun h => Bool.noConfusion (h.1.symm.trans hreq)
  generalize (g.link c r).forwardBody = l at *
  refine hp.update (c := c) rfl (fun d hd => by simp [hd]) (fun ha hs => ?_) (fun s d hd => ⟨?_, ?_⟩)
    (unmixed_addLog hp.unmixed ht)
  · simp only [Gateway.setLink_clients, Function.update_self] at ha hs
    exact ⟨hf.alive ▸ ha, hf.state ▸ hs⟩
  · by_cases hsr : s = r
    · subst hsr
      simpa [hf.bound] using hd
    · simpa [hsr] using hd
  · simp only [Gateway.setLink_clients, Function.update_self]
    exact fun _ hr => hclient.trans hr

theorem Paired.refuse (hp : Paired g) (hw : Beside g w c) : Paired (w.refuse c response) := by
  have hdown : ((w.refuse c response).clients c).state_ ≠ .kConnected := by
    simp only [Gateway.refuse, Gateway.addLog, Gateway.setClient_clients, Function.update_self]
    exact shutdown_state
  refine hp.update (c := c) hw.clientCount (fun d hd => ?_) (fun _ hs => absurd hs hdown)
    (fun s d hd => ⟨hw.remotes ▸ hd, fun hs => absurd hs hdown⟩)
    (unmixed_addLog (hw.log ▸ hp.unmixed) (by simp [Unmixed, Entry.unmixed]))
  simp [Gateway.refuse, Gateway.addLog, hd, hw.clients d hd]

theorem Paired.accept (hp : Paired g) (hi : Inv g) (ha : (g.clients c).alive = true)
    (hw : Beside g w c) (hreq : (w.clients c).context.parser_.isRequest = true)
    (hstate : (w.clients c).state_ = (g.clients c).state_)
    (hfree : (g.clients c).state_ = .kConnected → (g.clients c).context.client_ = none) :
    Paired (w.accept c a) := by
  obtain ⟨-, -, hremotes, -⟩ := hi.borrowConnection (a := a) hw.remotes hw.idle hw.remoteCount
  have hclients := Gateway.borrowConnection_clients (g := w) (a := a)
  have hlog := Gateway.borrowConnection_log (g := w) (a := a)
  have hcc := Gateway.borrowConnection_clientCount (g := w) (a := a)
  simp only [Gateway.accept]
  generalize (w.borrowConnection a).1 = r at *
  generalize (w.borrowConnection a).2 = v at *
  rw [hclients]
  generalize hl₀ : ({
    conn := { w.clients c with context := (w.clients c).context.BoundRClient r }
    remote := (v.remotes r).bindClient c (w.clients c).context.parser_.request.method } : Link) = l₀
  have hf := Link.forwardHead_forwards l₀
  have hreq₀ : l₀.parser.isRequest = true := hl₀ ▸ hreq
  have ht := hf.unmixed hreq₀ (hl₀ ▸ List.forall_mem_nil _)
  have hclient : l₀.forwardHead.conn.context.client_ = some r := by
    rcases hf.client with h | ⟨h, -⟩
    · exact h.trans (hl₀ ▸ rfl)
    · exact Bool.noConfusion (h.symm.trans hreq₀)
  have hbound : l₀.forwardHead.remote.clientConn_ = some c := hf.bound.trans (hl₀ ▸ rfl)
  have hs₀ : l₀.forwardHead.conn.state_ = (g.clients c).state_ :=
    hf.state.trans ((hl₀ ▸ rfl : l₀.conn.state_ = (w.clients c).state_).trans hstate)
  generalize l₀.forwardHead = l at *
  refine ⟨fun s d hd => ?_, unmixed_addLog (hlog ▸ hw.log ▸ hp.unmixed) ht⟩
  simp only [Gateway.setLink_remotes, Gateway.setLink_clients, Gateway.setLink_clientCount] at hd ⊢
  rw [hcc, hw.clientCount, hclients]
  by_cases hsr : s = r
  · subst hsr
    rw [Function.update_self, hbound, Option.mem_some] at hd
    subst hd
    exact ⟨hi.known c ha, fun _ _ => by rw [Function.update_self, hclient]⟩
  · rw [Function.update_of_ne hsr, hremotes s hsr] at hd
    obtain ⟨hlt, hold⟩ := hp.bound s d hd
    refine ⟨hlt, fun had hsd => ?_⟩
    by_cases hdc : d = c
    · subst hdc
      rw [Function.update_self, hs₀] at hsd
      exact absurd ((hold ha hsd).symm.trans (hfree hsd)) (Option.some_ne_none s)
    · rw [Function.update_of_ne hdc, hw.clients d hdc] at had hsd ⊢
      exact hold had hsd

theorem Paired.onMessage (hp : Paired g) (hi : Inv g) (ha : (g.clients c).alive = true)
    (h : (g.clients c).context.client_ ≠ none →
      ((g.clients c).context.parser_.isExpectingBody = true →
        (g.clients c).context.parser_.isRequest = true) ∧
      ((g.clients c).context.parser_.isExpectingBody = false →
        (g.clients c).state_ = .kConnected →
          ¬ 0 < ret (phr_parse_request (g.clients c).inputBuffer_))) :
    Paired (LB_Server.onMessage g c now) := by
  simp only [LB_Server.onMessage]
  split
  · rename_i hb
    split
    · rename_i r hr
      exact hp.forwardBody ((h (hr ▸ Option.some_ne_none r)).1 hb)
    · exact hp.of le_rfl (fun s d hd => ⟨hd, fun _ ha hs => ⟨ha, hs, id⟩⟩)
        (unmixed_addLog hp.unmixed (by simp [Unmixed, Entry.unmixed]))
  · rename_i hb
    have hb : (g.clients c).context.parser_.isExpectingBody = false := Bool.eq_false_iff.mpr hb
    cases hparse : (g.clients c).parseRequest with
    | mk parsed conn =>
      obtain ⟨p, buf, hp', hconn⟩ := Client.parseRequest_eq hparse
      cases parsed with
      | true =>
        have hfree : (g.clients c).state_ = .kConnected → (g.clients c).context.client_ = none := by
          intro hs
          by_contra hne
          exact (h hne).2 hb hs ((Client.parseRequest_kept hparse).2.2.mp rfl)
        obtain ⟨-, hreq, -⟩ := parseRequest_message hp'
        simp only [if_true, Gateway.setClient_lb]
        have hw : ∃ w : Gateway, w = { g.setClient c conn with
            lb := (g.lb.judge conn.context conn.inputBuffer_ now).1 } ∧ Beside g w c ∧
              w.clients c = conn :=
          ⟨_, rfl, ⟨fun d hd => by simp [hd], rfl, rfl, rfl, rfl, rfl⟩, by simp⟩
        obtain ⟨w, hw, hbeside, hwc⟩ := hw
        rw [← hw]
        split
        · exact hp.refuse hbeside
        · refine hp.accept hi ha hbeside ?_ ?_ hfree
          · rw [hwc, hconn]
            exact hreq
          · rw [hwc, hconn]
      | false =>
        subst hconn
        refine hp.update (c := c) rfl (fun d hd => by simp [hd]) (fun _ hs => ⟨ha, ?_⟩)
          (fun s d hd => ⟨hd, fun _ hr => ?_⟩) hp.unmixed
        · simpa using hs
        · simpa using hr

-- ---------------------------------------------------------------------------
-- Backend reads
-- ---------------------------------------------------------------------------

theorem receive_bound : ((g.receive r data).remotes s).clientConn_ = (g.remotes s).clientConn_ := by
  by_cases h : s = r <;> simp [Gateway.receive, h]

theorem Paired.backendRead (hp : Paired g) (hi : Inv g) (hc : Orderly g (.backendRead r data)) :
    Paired (if (g.receive r data).held r then RemoteClient.onMessage (g.receive r data) r
      else g.receive r data) := by
  obtain ⟨hnode, hcond⟩ := hc
  have hreceive : Paired (g.receive r data) :=
    hp.of le_rfl (fun s d hd => ⟨receive_bound ▸ hd, fun _ ha hs => ⟨ha, hs, id⟩⟩) hp.unmixed
  split
  case isFalse => exact hreceive
  case isTrue hheld =>
    have hlive : ∃ c, (g.clients c).alive = true ∧ (g.clients c).context.client_ = some r := by
      simp only [Gateway.held, decide_eq_true_eq] at hheld
      rcases hheld with hm | ⟨c, -, ha, hcl⟩
      · exact absurd (by simpa [Gateway.receive] using hm) hnode
      · exact ⟨c, ha, hcl⟩
    obtain ⟨c, ha, hcl⟩ := hlive
    have hl := hi.linked c r ha hcl
    obtain ⟨-, hq, -⟩ := hcond c hl.bound ha hcl
    have hbound : ((g.receive r data).remotes r).clientConn_ = some c := receive_bound.trans hl.bound
    have hbusy : ((g.receive r data).remotes r).is_busy_ = true := by
      simpa [Gateway.receive] using hl.busy
    have ha' : ((g.receive r data).clients c).alive = true := ha
    have hquiet := Link.relayResponse_quiet ((g.receive r data).link c r)
    have ht := Link.relayResponse_unmixed (l := (g.receive r data).link c r) hq
      (List.forall_mem_nil _)
    have hlog := unmixed_addLog (c := c) (s := some r) hp.unmixed ht
    simp only [RemoteClient.onMessage, hbound, ha', hbusy, and_self, if_true]
    generalize ((g.receive r data).link c r).relayResponse = l at *
    split
    · have hclients := Gateway.returnConnection_clients
        (g := (g.receive r data).setLink c r l) (c := c) (r := r)
      refine hp.update (c := c) Gateway.returnConnection_clientCount (fun d hd => ?_)
        (fun _ hs => ⟨ha, ?_⟩) (fun s d hd => ?_) ?_
      · rw [hclients, Gateway.setLink_clients, Function.update_of_ne hd]
        rfl
      · rw [hclients, Gateway.setLink_clients, Function.update_self, hquiet.state] at hs
        exact hs
      · have hsr : s ≠ r := by
          rintro rfl
          rw [returnConnection_remote.1] at hd
          cases hd
        rw [returnConnection_remotes hsr, Gateway.setLink_remotes, Function.update_of_ne hsr] at hd
        exact ⟨receive_bound ▸ hd, fun _ hs => absurd (Option.some.inj (hs.symm.trans hcl)) hsr⟩
      · rw [Gateway.returnConnection_log]
        exact List.forall_mem_cons.mpr ⟨trivial, hlog⟩
    · rename_i hf
      have hclient : l.conn.context.client_ = (g.clients c).context.client_ :=
        hquiet.client.resolve_right fun h => hf h.1
      refine hp.update (c := c) rfl (fun d hd => ?_) (fun _ hs => ⟨ha, ?_⟩)
        (fun s d hd => ⟨?_, fun _ hs => ?_⟩) hlog
      · rw [Gateway.setLink_clients, Function.update_of_ne hd]
        rfl
      · rw [Gateway.setLink_clients, Function.update_self, hquiet.state] at hs
        exact hs
      · by_cases hsr : s = r
        · subst hsr
          rw [Gateway.setLink_remotes, Function.update_self, hquiet.bound] at hd
          exact receive_bound ▸ hd
        · rw [Gateway.setLink_remotes, Function.update_of_ne hsr] at hd
          exact receive_bound ▸ hd
      · rw [Gateway.setLink_clients, Function.update_self]
        exact hclient.trans hs

-- ---------------------------------------------------------------------------
-- Runs
-- ---------------------------------------------------------------------------

theorem paired_step (hp : Paired g) (hi : Inv g) (hc : Apart g e) (hs : step g e = some g') :
    Paired g' := by
  simp only [step, Option.ite_none_right_eq_some] at hs
  obtain ⟨-, hs⟩ := hs
  by_cases he : e.reads = true
  · cases e with
    | accept =>
      cases hs
      exact hp.acceptClient
    | clientRead c data now =>
      simp only [Gateway.stepOk, Option.ite_none_right_eq_some, Option.some.injEq] at hs
      obtain ⟨⟨hopen, -⟩, rfl⟩ := hs
      simp only [Client.open_, Bool.and_eq_true] at hopen
      have hread : Paired (g.read c data) := hp.update (c := c) rfl
        (fun d hd => by simp [Gateway.read, hd]) (by simpa [Gateway.read] using And.intro)
        (by simp +contextual [Gateway.read]) hp.unmixed
      have hiread : Inv (g.read c data) := hi.setClient id (hi.settled c) fun r hr =>
        ⟨hr, fun hc => ⟨hc, id⟩⟩
      refine hread.onMessage hiread (by simpa [Gateway.read] using hopen.1) ?_
      simpa [Gateway.read, Waits] using hc.2
    | backendRead r data =>
      simp only [Gateway.stepOk, Option.ite_none_right_eq_some, Option.some.injEq] at hs
      obtain ⟨-, rfl⟩ := hs
      exact hp.backendRead hi hc.1
    | _ => cases he
  · exact (untouched_of_step hs (Bool.eq_false_iff.mpr he)).paired hp

theorem relayed_of_stage {p : HttpParser} {remote : RemoteClient} (hst : Link.Stage p remote)
    (hcons : remote.Conserved) {R : Response method} (hR : remote.exchange.got = R.bytes) :
    remote.exchange.relayed = R.bytes := by
  have hpos := R.head_pos
  cases hst with
  | waiting _ hret =>
    rw [hR, Response.bytes, R.ret_done] at hret
    omega
  | uploading _ _ hgot =>
    have : R.head = [] := (List.append_eq_nil_iff.mp (hR.symm.trans hgot)).1
    simp [this] at hpos
  | relaying _ _ hbuf =>
    rw [RemoteClient.Conserved, hbuf, List.append_nil] at hcons
    exact hcons.trans hR

theorem Paired.exact_of (hp : Paired g) (hi : Inv g) : Exact g where
  counted := hp.unmixed
  relayed r c hc ha hs := by
    obtain ⟨hst, hcons⟩ := (hi.linked c r ha ((hp.bound r c hc).2 ha hs)).stage hs
    exact ⟨⟨_, hcons⟩, fun R => relayed_of_stage hst hcons⟩
  returned m hm left exchange he := by
    have hwhole := hi.whole m hm
    rw [he] at hwhole
    exact hwhole.2

theorem relays_exactly (h : Reach step Apart { lb } g) : Exact g := by
  obtain ⟨hi, hp⟩ : Inv g ∧ Paired g := h.invariant (I := fun g => Inv g ∧ Paired g)
    ⟨inv_init lb, paired_init lb⟩ fun t e u ⟨hi, hp⟩ hc hs =>
      ⟨inv_step hi hc.1 hs, paired_step hp hi hc hs⟩
  exact hp.exact_of hi

/-- The client sends the beginning of its next request with the end of this one. -/
def pipelinedRun : List Event :=
  [.accept, .clientRead 0 (ascii "POST /im HTTP/1.1\r\nContent-Length: 2\r\n\r\nh") 0,
    .backendUp 0, .clientRead 0 (ascii "iGET /im HT") 0, .clientRead 0 (ascii "TP") 0,
    .backendRead 0 (okHead ++ ascii "o"), .backendRead 0 (ascii "k"),
    .clientRead 0 (ascii "/1.1\r\n\r\n") 0, .backendRead 0 (ascii "HTTP/1.1 200 "),
    .backendRead 0 (ascii "OK\r\nContent-Length: 2\r\n\r\nok")]

theorem relays_exactly_pipelined : ∃ g, exec step (fun g e => OrderlyIf answersOk g e ∧ Waits g e)
    { lb := unconfigured } pipelinedRun = some g ∧ g.returns 0 = 2 ∧ Exact g := by
  have hrun : (exec step (fun g e => OrderlyIf answersOk g e ∧ Waits g e) { lb := unconfigured }
      pipelinedRun).any (fun g => g.returns 0 = 2) = true := by decide +kernel
  obtain ⟨g, hg, hret⟩ := (Option.any_eq_true _ _).mp hrun
  have hreach : Reach step Apart { lb := unconfigured } g := (Reach.of_exec hg).mono
    fun _ _ ⟨ho, hw⟩ => ⟨ho.mono fun _ _ _ ⟨h, hc⟩ => ⟨okResponse h, hc⟩, hw⟩
  exact ⟨g, hg, of_decide_eq_true hret, relays_exactly hreach⟩

def earlyRun : List Event :=
  [.accept, .clientRead 0 (ascii "POST /im HTTP/1.1\r\nContent-Length: 4\r\n\r\nbo") 0,
    .backendUp 0, .backendRead 0 (okHead ++ ascii "ok")]

def sendsOk (method got data : Bytes) : Prop :=
  ∃ h : bodiless method okParsed = false, got ++ data <+: (okResponse h).bytes

instance (method got data : Bytes) : Decidable (sendsOk method got data) := by
  unfold sendsOk
  infer_instance

def Entry.isMixed : Entry → Bool
  | .counted false true len => 0 < len
  | _ => false

theorem Entry.unmixed_not_mixed {e : Entry} (h : e.unmixed) : e.isMixed = false := by
  unfold isMixed
  split
  · exact Bool.eq_false_iff.mpr fun hlen => Bool.noConfusion (h (of_decide_eq_true hlen))
  · rfl

theorem not_relays_exactly : ¬ ∀ lb g, Reach step Answers { lb } g → Exact g := by
  intro h
  have hrun : (exec step (AnswersIf sendsOk) { lb := unconfigured } earlyRun).any
      (fun g => g.log.any fun m => m.entry.isMixed) = true := by decide +kernel
  obtain ⟨g, hg, hl⟩ := (Option.any_eq_true _ _).mp hrun
  obtain ⟨m, hm, hmixed⟩ := List.any_eq_true.mp hl
  have hreach : Reach step Answers { lb := unconfigured } g := (Reach.of_exec hg).mono
    fun _ _ ha => ha.mono fun _ _ _ ⟨h, hc⟩ => ⟨okResponse h, hc⟩
  exact Bool.noConfusion ((Entry.unmixed_not_mixed ((h _ g hreach).counted m hm)).symm.trans hmixed)

end VortexNet.L7
