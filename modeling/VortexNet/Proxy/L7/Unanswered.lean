import VortexNet.Proxy.L7.Carried

/-!
# Requests that are not answered

A request is under way from the forwarding of its head until its response is
over and the connection is returned. In a run that carries requests, the client
of a request that is under way has a connection that carries it, or was answered
502 (`requests_carried`).
-/

namespace VortexNet.L7

open Picohttpparser
open Systems (Reach Always exec)

/-- Bytes of client `c` were forwarded, and no connection was returned for it since. -/
def unanswered (c : Nat) : List Log → Bool
  | [] => false
  | m :: log =>
    if m.client = c then
      match m.remote, m.entry with
      | some _, .forwarded .. => true
      | _, .returned .. => false
      -- the call through a null `client_` goes to no connection
      | _, _ => unanswered c log
    else unanswered c log

variable {g g' : Gateway} {c d r s now : Nat} {conn : Client} {l : Link}

theorem unanswered_of_ne (h : c ≠ d) (r : Option Nat) (t : List Entry) (log : List Log) :
    unanswered d (t.map (⟨c, r, ·⟩) ++ log) = unanswered d log := by
  induction t with
  | nil => rfl
  | cons e t ih =>
    rw [List.map_cons, List.cons_append, unanswered, if_neg h]
    exact ih

structure Attended (g : Gateway) : Prop where
  known : ∀ c, g.clientCount ≤ c → unanswered c g.log = false
  held : ∀ c, (g.clients c).open_ = true → unanswered c g.log = true →
    (g.clients c).context.client_ ≠ none ∨ (g.clients c).badGateway

-- ---------------------------------------------------------------------------
-- Client reads
-- ---------------------------------------------------------------------------

theorem Attended.update (hi : Attended g) (hcc : g'.clientCount = g.clientCount)
    (hc : c < g.clientCount) (hclients : ∀ d, d ≠ c → g'.clients d = g.clients d)
    (hlog : ∀ d, d ≠ c → unanswered d g'.log = unanswered d g.log)
    (hself : (g'.clients c).open_ = true → unanswered c g'.log = true →
      (g'.clients c).context.client_ ≠ none ∨ (g'.clients c).badGateway) : Attended g' where
  known d hd := by
    have hne : d ≠ c := by omega
    rw [hlog d hne]
    exact hi.known d (hcc ▸ hd)
  held d := by
    by_cases hd : d = c
    · exact hd ▸ hself
    · rw [hclients d hd, hlog d hd]
      exact hi.held d

theorem Attended.setClient (hi : Attended g)
    (hx : conn.context.client_ = (g.clients c).context.client_)
    (ho : conn.open_ = true → (g.clients c).open_ = true)
    (hb : (g.clients c).badGateway → conn.badGateway) : Attended (g.setClient c conn) := by
  refine ⟨hi.known, fun d ho' hu => ?_⟩
  by_cases hd : d = c
  · subst hd
    rw [Gateway.setClient_clients, Function.update_self] at ho' ⊢
    rw [hx]
    exact (hi.held d (ho ho') hu).imp_right hb
  · rw [Gateway.setClient_clients, Function.update_of_ne hd] at ho' ⊢
    exact hi.held d ho' hu

theorem Attended.congr (hi : Attended g) (hcc : g'.clientCount = g.clientCount)
    (hc : g'.clients = g.clients) (hl : ∀ d, unanswered d g'.log = unanswered d g.log) :
    Attended g' := by
  refine ⟨fun d hd => ?_, fun d => ?_⟩
  · rw [hl]
    exact hi.known d (hcc ▸ hd)
  · rw [hc, hl]
    exact hi.held d

theorem Attended.setLink (hi : Attended g) (hc : c < g.clientCount)
    (hself : l.conn.context.client_ ≠ none ∨ l.conn.badGateway) : Attended (g.setLink c r l) := by
  refine hi.update rfl hc (fun d hd => by simp [hd]) (fun d hd => ?_) fun _ _ => ?_
  · rw [Gateway.setLink_log, unanswered_of_ne (Ne.symm hd)]
  · rw [Gateway.setLink_clients, Function.update_self]
    exact hself

theorem Attended.refuse (hi : Attended g) (response : Bytes) : Attended (g.refuse c response) := by
  have hset : Attended (g.setClient c ((g.clients c).send response).shutdown) := by
    refine hi.setClient (by rw [refused_context]) (fun h => ?_) fun h => shutdown_badGateway h response
    rwa [shutdown_open, Client.open_, (Link.send_fields _ _).2.2.1, Link.send_state] at h
  refine hset.congr rfl rfl fun d => ?_
  rw [Gateway.refuse, Gateway.addLog, List.map_singleton, List.singleton_append, unanswered]
  split <;> rfl

theorem Attended.nullCall (hi : Attended g) : Attended (g.nullCall c) := by
  refine hi.congr rfl rfl fun d => ?_
  simp only [Gateway.nullCall, Gateway.addLog, List.map_singleton, List.singleton_append, unanswered]
  split <;> rfl

theorem Attended.accept (hi : Attended g) (hc : c < g.clientCount)
    (hq : (g.clients c).context.parser_.isRequest = true) : Attended (g.accept c a) := by
  have hclients := Gateway.borrowConnection_clients (g := g) (a := a)
  have hborrowed : Attended (g.borrowConnection a).2 :=
    hi.congr Gateway.borrowConnection_clientCount hclients fun _ => by
      rw [Gateway.borrowConnection_log]
  have hcc := Gateway.borrowConnection_clientCount (g := g) (a := a)
  simp only [Gateway.accept]
  refine hborrowed.setLink (hcc.symm ▸ hc) (.inl ?_)
  rcases (Link.forwardHead_forwards _).client with h | ⟨h, -⟩
  · rw [h]
    exact Option.some_ne_none _
  · rw [hclients] at h
    exact Bool.noConfusion (h.symm.trans hq)

theorem Attended.forwardBody (hi : Attended g) (hc : c < g.clientCount)
    (hcl : (g.clients c).context.client_ = some r)
    (hkeep : ¬ (g.clients c).badGateway → (g.clients c).context.parser_.isRequest = false →
      (g.link c r).forwardBody.conn.context.client_ = some r) :
    Attended (g.setLink c r (g.link c r).forwardBody) := by
  have hf := Link.forwardBody_forwards (g.link c r)
  have hout := Link.forwardBody_output (g.link c r)
  refine hi.setLink hc ?_
  by_cases hg : (g.clients c).badGateway
  · exact .inr ⟨hf.state.trans hg.1, hout.symm ▸ hg.2⟩
  · left
    rcases hf.client with h | ⟨hq, -⟩
    · rw [h, Gateway.link_conn, hcl]
      exact Option.some_ne_none r
    · rw [hkeep hg hq]
      exact Option.some_ne_none r

theorem Attended.onMessage (hi : Attended g) (hc : c < g.clientCount)
    (hbody : (g.clients c).patient) : Attended (LB_Server.onMessage g c now) := by
  simp only [LB_Server.onMessage]
  split
  · rename_i hb
    split
    · rename_i s hs
      exact hi.forwardBody hc hs fun hg hq => (Link.forwardBody_held (l := g.link c s) hb
        (hbody (hs ▸ Option.some_ne_none s) hg hb hq)).trans hs
    · exact hi.nullCall
  · cases hp : (g.clients c).parseRequest with
    | mk parsed conn =>
      obtain ⟨p, buf, hparse, hconn⟩ := Client.parseRequest_eq hp
      have hset : Attended (g.setClient c conn) := by
        refine hi.setClient ?_ ?_ ?_
        · rw [hconn]
        · rw [hconn]
          exact id
        · rw [hconn]
          exact id
      cases parsed with
      | false => exact hset
      | true =>
        simp only [if_true, Gateway.setClient_lb]
        have hjudged : Attended { g.setClient c conn with
            lb := (g.lb.judge conn.context conn.inputBuffer_ now).1 } := hset.congr rfl rfl fun _ => rfl
        split
        · exact hjudged.refuse _
        · refine hjudged.accept hc ?_
          simpa [hconn] using (parseRequest_message hparse).2.1

-- ---------------------------------------------------------------------------
-- Backend reads
-- ---------------------------------------------------------------------------

theorem Attended.finished (hi : Attended g) (hc : c < g.clientCount) :
    Attended ((g.setLink c r l).returnConnection c r) := by
  have hclients := Gateway.returnConnection_clients (g := g.setLink c r l) (c := c) (r := r)
  refine hi.update Gateway.returnConnection_clientCount hc (fun d hd => by simp [hclients, hd])
    (fun d hd => ?_) fun _ hu => ?_
  · rw [Gateway.returnConnection_log, unanswered, if_neg (Ne.symm hd), Gateway.setLink_log,
      unanswered_of_ne (Ne.symm hd)]
  · rw [Gateway.returnConnection_log, unanswered, if_pos rfl] at hu
    exact Bool.noConfusion hu

theorem Attended.onResponse (hi : Attended g) (hpool : Pooled g) (hknown : Known g)
    (hheld : g.held r = true) : Attended (RemoteClient.onMessage g r) := by
  have hdisconnect : Attended (g.setRemote r (g.remotes r).disconnect) :=
    hi.congr rfl rfl fun _ => rfl
  simp only [RemoteClient.onMessage]
  split
  · rename_i c hbound
    split
    · rename_i hlive
      have hc := hknown.alive c hlive.1
      have hcl := hpool.answers hheld hlive.2 hbound
      split
      · exact hi.finished hc
      · rename_i hfin
        refine hi.setLink hc (.inl ?_)
        rw [(Link.relayResponse_quiet (g.link c r)).client.resolve_right fun h => hfin h.1,
          Gateway.link_conn, hcl]
        exact Option.some_ne_none r
    · exact hdisconnect
  · exact hdisconnect

-- ---------------------------------------------------------------------------
-- Runs
-- ---------------------------------------------------------------------------

theorem badGateway_kept (hs : g.stepOk e = some g') (he : e.reads = false)
    (ho : (g'.clients c).open_ = true) (h : (g.clients c).badGateway) : (g'.clients c).badGateway := by
  cases e with
  | accept => cases he
  | clientRead => cases he
  | backendRead => cases he
  | clientClose d =>
    simp only [Gateway.stepOk, Option.ite_none_right_eq_some, Option.some.injEq] at hs
    obtain ⟨-, rfl⟩ := hs
    by_cases hd : c = d
    · simp [hd, Client.open_] at ho
    · simpa [hd] using h
  | clientGone d =>
    simp only [Gateway.stepOk, Option.ite_none_right_eq_some, Option.some.injEq] at hs
    obtain ⟨-, rfl⟩ := hs
    by_cases hd : c = d
    · simp [hd, Client.open_] at ho
    · simpa [hd] using h
  | backendUp r =>
    simp only [Gateway.stepOk, Option.ite_none_right_eq_some, Option.some.injEq] at hs
    obtain ⟨-, rfl⟩ := hs
    rwa [Gateway.backendUp_clients]
  | backendFailed r =>
    simp only [Gateway.stepOk, Option.ite_none_right_eq_some, Option.some.injEq] at hs
    obtain ⟨-, rfl⟩ := hs
    exact h
  | backendDown r =>
    simp only [Gateway.stepOk, Option.ite_none_right_eq_some, Option.some.injEq] at hs
    obtain ⟨-, rfl⟩ := hs
    split
    · simp only [Gateway.backendDown]
      split
      · split
        · rename_i d _
          by_cases hd : c = d
          · subst hd
            rw [Gateway.setClient_clients, Function.update_self]
            exact shutdown_badGateway h _
          · simpa [hd] using h
        · exact h
      · exact h
    · exact h
  | errorCallback r =>
    simp only [Gateway.stepOk, Option.ite_none_right_eq_some, Option.some.injEq] at hs
    obtain ⟨-, rfl⟩ := hs
    exact h
  | shared lb =>
    cases hs
    exact h

theorem attended_step (hi : Attended g) (hpool : Pooled g) (hknown : Known g) (hc : Carrying g e)
    (hs : step g e = some g') : Attended g' := by
  simp only [step, Option.ite_none_right_eq_some] at hs
  obtain ⟨-, hs⟩ := hs
  by_cases he : e.reads = true
  · cases e with
    | accept =>
      cases hs
      refine ⟨fun c hle => hi.known c ((Nat.le_succ _).trans hle), fun c ho hu => ?_⟩
      have hne : c ≠ g.clientCount := by
        rintro rfl
        exact Bool.noConfusion ((hi.known _ (Nat.le_refl _)).symm.trans hu)
      rw [Gateway.setClient_clients, Function.update_of_ne hne] at ho ⊢
      exact hi.held c ho hu
    | clientRead c data now =>
      simp only [Gateway.stepOk, Option.ite_none_right_eq_some, Option.some.injEq] at hs
      obtain ⟨⟨hopen, -⟩, rfl⟩ := hs
      have hread : Attended (g.read c data) := hi.setClient rfl id id
      exact hread.onMessage (hknown.alive c (open_alive hopen)) hc.1
    | backendRead r data =>
      simp only [Gateway.stepOk, Option.ite_none_right_eq_some, Option.some.injEq] at hs
      obtain ⟨-, rfl⟩ := hs
      have hread : Attended (g.receive r data) := hi.congr rfl rfl fun _ => rfl
      split
      · rename_i hheld
        exact hread.onResponse (hpool.setRemote rfl rfl rfl rfl) (hknown.receive r data) hheld
      · exact hread
    | _ => cases he
  · have he := Bool.eq_false_iff.mpr he
    have hu := untouched_of_step hs he
    refine ⟨fun c hle => ?_, fun c ho hun => ?_⟩
    · rw [hu.log]
      exact hi.known c (hu.clientCount ▸ hle)
    · rw [hu.log] at hun
      rw [hu.context]
      exact (hi.held c (hu.opened c ho) hun).imp_right (badGateway_kept hs he ho)

/-- A connection that has a request carries it, unless its callback is in the queue, and a request
that is under way is carried; or the client was answered 502. -/
structure NothingLost (g : Gateway) : Prop where
  borne : ∀ c r, r ∉ g.errors → Bears g c r
  carried : ∀ c, (g.clients c).open_ = true → unanswered c g.log = true →
    (∃ r, Carried g c r) ∨ (g.clients c).badGateway

structure Tracked (g : Gateway) : Prop where
  pooled : Pooled g
  sane : AllSane g
  known : Known g
  borne : Borne g
  attended : Attended g

theorem tracked_step (hi : Tracked g) (hc : Carrying g e) (hs : step g e = some g') : Tracked g' :=
  ⟨pooled_step hi.pooled hi.sane hc.late hs, hi.sane.step hs, known_step hi.known hi.pooled hs,
    borne_step hi.borne hi.pooled hi.sane hi.known hc hs,
    attended_step hi.attended hi.pooled hi.known hc hs⟩

theorem tracked_of_reach (h : Reach step Carrying { lb } g) : Tracked g := by
  refine h.invariant (I := Tracked) ⟨pooled_init lb, fun _ => sane_reset {}, ⟨?_, ?_⟩, ?_, ?_, ?_⟩
    fun _ _ _ hi hc hs => tracked_step hi hc hs
  · exact fun _ h => (by cases h)
  · exact fun _ _ h => (by cases h)
  · exact fun _ _ h => (by cases h)
  · exact fun _ _ => rfl
  · exact fun _ h => (by cases h)

theorem requests_carried (h : Reach step Carrying { lb } g) : NothingLost g := by
  have ht := tracked_of_reach h
  refine ⟨fun c r _ => ht.borne c r, fun c ho hu => ?_⟩
  rcases ht.attended.held c ho hu with hcl | hbad
  · obtain ⟨r, hr⟩ := Option.ne_none_iff_exists'.mp hcl
    exact (ht.borne c r ho (.inl hr)).imp_left fun h => ⟨r, h⟩
  · exact .inr hbad

instance (conn : Client) : Decidable conn.badGateway := inferInstanceAs (Decidable (_ ∧ _))

instance (g : Gateway) (c : Nat) (v : Option Verdict) : Decidable (Lends g c v) :=
  match v with
  | some (.forward _) => inferInstanceAs (Decidable (_ → _ ∧ ∀ r ∈ _, _ = _))
  | some (.refuse _) | none => .isTrue trivial

instance (conn : Client) : Decidable conn.patient :=
  inferInstanceAs (Decidable (_ → _ → _ → _ → _))

instance (g : Gateway) (e : Event) : Decidable (Carrying g e) :=
  match e with
  | .clientRead .. => inferInstanceAs (Decidable (_ ∧ _))
  | .backendRead .. => inferInstanceAs (Decidable (∀ c ∈ _, _ → _ → _ → _ → _))
  | .backendFailed _ => inferInstanceAs (Decidable (∀ c ∈ _, _ → _))
  | .backendDown _ => inferInstanceAs (Decidable (∀ c ∈ _, _ → _ → _ ∨ _))
  | .accept | .clientClose _ | .clientGone _ | .backendUp _ | .errorCallback _ | .shared _ =>
    .isTrue trivial

/-- The second client waits on the connection that the first has used. -/
theorem requests_carried_reused : ∃ g, exec step Carrying { lb := unconfigured } (reusedRun.take 8) =
    some g ∧ ((g.clients 1).context.client_ = some 0 ∧ unanswered 1 g.log = true) ∧
      NothingLost g := by
  have hrun : (exec step Carrying { lb := unconfigured } (reusedRun.take 8)).any
      (fun g => (g.clients 1).context.client_ = some 0 ∧ unanswered 1 g.log = true) = true := by
    decide +kernel
  obtain ⟨g, hg, hwaits⟩ := (Option.any_eq_true _ _).mp hrun
  exact ⟨g, hg, of_decide_eq_true hwaits, requests_carried (.of_exec hg)⟩

def refusedConnect : List Event :=
  [.accept, .clientRead 0 (ascii "GET /im HTTP/1.1\r\n\r\n") 0, .backendFailed 0]

theorem not_requests_carried : ¬ ∀ lb g, Reach step Always { lb } g → NothingLost g := by
  intro h
  have hrun : (exec step Always { lb := unconfigured } refusedConnect).any (fun g =>
      0 ∉ g.errors ∧ (g.clients 0).open_ = true ∧ (g.clients 0).context.client_ = some 0 ∧
        ¬ (g.clients 0).badGateway ∧ (g.remotes 0).conn_ = none ∧
        (g.remotes 0).connecting = false) = true := by
    decide +kernel
  obtain ⟨g, hg, hlost⟩ := (Option.any_eq_true _ _).mp hrun
  obtain ⟨he, ho, hc, hb, hnone, hn⟩ := of_decide_eq_true hlost
  rcases (h _ g (.of_exec hg)).borne 0 0 he ho (.inl hc) with hcarried | hbad
  · rcases hcarried.carries with ⟨hup, -⟩ | ⟨-, hup, -⟩
    · exact Option.some_ne_none _ (hup.symm.trans hnone)
    · exact Bool.noConfusion (hup.symm.trans hn)
  · exact hb hbad

end VortexNet.L7
