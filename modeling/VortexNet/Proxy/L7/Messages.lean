import VortexNet.Proxy.L7.BadGateway
import VortexNet.Proxy.L7.Carried

/-!
# What a client receives

In runs in which requests and responses alternate and no backend goes down once
its response has begun, a client is sent whole messages, of a backend or of the
gateway, and after them the beginning of one.
-/

namespace VortexNet.L7

open Incremental Picohttpparser
open Systems (Reach Always exec)

/-- What is sent to a client as one thing: a response, or an error of the gateway's own. -/
inductive Message : Bytes → Prop
  | response (R : Response method) : Message R.bytes
  | unauthorized : Message ApiKeyAuthenticator.unauthorizedResponse
  | tooManyRequests : Message tooManyRequestsResponse
  | notFound : Message notFoundResponse
  | badGateway : Message badGatewayResponse

/-- Whole messages, and after them `cut`, the beginning of one. -/
def Messages (output cut : Bytes) : Prop :=
  ∃ ms : List Bytes, (∀ m ∈ ms, Message m) ∧ output = ms.flatten ++ cut ∧ ∃ m, Message m ∧ cut <+: m

theorem Messages.nil : Messages [] [] :=
  ⟨[], nofun, rfl, _, .badGateway, List.nil_prefix⟩

theorem Messages.whole (h : Messages output []) (hm : Message m) : Messages (output ++ m) [] := by
  obtain ⟨ms, hms, rfl, -⟩ := h
  refine ⟨ms ++ [m], fun x hx => ?_, by simp, m, hm, List.nil_prefix⟩
  rcases List.mem_append.mp hx with hx | hx
  · exact hms x hx
  · exact List.mem_singleton.mp hx ▸ hm

theorem Messages.more {more : Bytes} (h : Messages output cut) (hm : Message m) (hpre : cut ++ more <+: m) :
    Messages (output ++ more) (cut ++ more) := by
  obtain ⟨ms, hms, rfl, -⟩ := h
  exact ⟨ms, hms, List.append_assoc .., m, hm, hpre⟩

theorem Messages.over (h : Messages output cut) (hm : Message cut) : Messages output [] := by
  obtain ⟨ms, hms, rfl, -⟩ := h
  have hnil : Messages (ms.flatten) [] := ⟨ms, hms, (List.append_nil _).symm, _, hm, List.nil_prefix⟩
  exact hnil.whole hm

theorem judge_refuses {lb : LB_Server} (h : (lb.judge parser buf now).2 = .refuse response) :
    Message response := by
  simp only [LB_Server.judge] at h
  generalize lb.llm_limiter_.tryAcquire _ _ = llm, lb.im_limiter_.tryAcquire _ _ = im at h
  split at h
  · split at h
    · exact Verdict.refuse.inj h ▸ .unauthorized
    · split at h
      · exact Verdict.refuse.inj h ▸ .tooManyRequests
      · split at h
        · cases h
        · split at h
          · cases h
          · exact Verdict.refuse.inj h ▸ .notFound
  · split at h
    · split at h
      · exact Verdict.refuse.inj h ▸ .tooManyRequests
      · cases h
    · exact Verdict.refuse.inj h ▸ .notFound

-- ---------------------------------------------------------------------------
-- The response that has begun
-- ---------------------------------------------------------------------------

namespace Link

variable {l l' l'' : Link} {n : Nat}

def Wrote (l l' : Link) : Prop :=
  ∃ data, l'.conn.output = l.conn.output ++ data ∧
    l'.remote.exchange.relayed = l.remote.exchange.relayed ++ data

theorem Wrote.refl (l : Link) : Wrote l l := ⟨[], by simp, by simp⟩

theorem Wrote.trans (h₁ : Wrote l l') (h₂ : Wrote l' l'') : Wrote l l'' := by
  obtain ⟨x, hx, hx'⟩ := h₁
  obtain ⟨y, hy, hy'⟩ := h₂
  exact ⟨x ++ y, by rw [hy, hx, List.append_assoc], by rw [hy', hx', List.append_assoc]⟩

theorem relay_wrote (l : Link) (n : Nat) : Wrote l (l.relay n) := by
  by_cases hc : l.conn.state_ = .kConnected
  · exact ⟨l.remote.inputBuffer_.take n, by simp [relay, Client.send, hc], by simp [relay, hc]⟩
  · exact ⟨[], by simp [relay, Client.send, hc], by simp [relay, hc]⟩

theorem finishIfGotAll_wrote (l : Link) : Wrote l l.finishIfGotAll := by
  unfold finishIfGotAll
  split <;> exact .refl l

theorem relayBody_wrote (l : Link) : Wrote l l.relayBody :=
  (relay_wrote l _).trans (finishIfGotAll_wrote _)

theorem relayChunks_wrote (l : Link) : Wrote l l.relayChunks := by
  have hsent := relay_wrote l l.remote.inputBuffer_.length
  simp only [relayChunks]
  split <;> split <;> exact hsent

theorem relayHead_wrote (l : Link) : Wrote l l.relayHead := by
  have hhead : Wrote l ((l.relay l.parser.headerLen).retrieve l.parser.headerLen) :=
    relay_wrote l l.parser.headerLen
  simp only [relayHead]
  split
  · split
    · exact (hhead.trans (relay_wrote _ _)).trans (finishIfGotAll_wrote _)
    · exact hhead.trans (finishIfGotAll_wrote _)
  · exact hhead.trans (relayChunks_wrote _)

theorem relayResponse_wrote (l : Link) : Wrote l l.relayResponse := by
  simp only [relayResponse]
  split
  · split
    · exact relayBody_wrote l
    · exact relayChunks_wrote l
  · split
    · exact relayHead_wrote (l.setParser _)
    · exact .refl l

end Link

variable {g g' w : Gateway} {c d r s now : Nat} {e : Event} {conn : Client} {l : Link}

def Gateway.begun (g : Gateway) (c : Nat) : Bytes :=
  match (g.clients c).context.client_ with
  | some r => (g.remotes r).exchange.relayed
  | none => []

/-- The client is sent messages. While it is connected, what follows the whole ones is what was
relayed of the response it waits for. -/
structure Told (g : Gateway) (c : Nat) : Prop where
  messages : ∃ cut, Messages (g.clients c).output cut
  begun : (g.clients c).alive = true → (g.clients c).state_ = .kConnected →
    Messages (g.clients c).output (g.begun c)

structure Untold (g g' : Gateway) (c : Nat) : Prop where
  output : (g'.clients c).output = (g.clients c).output
  begun : (g'.clients c).alive = true → (g'.clients c).state_ = .kConnected →
    (g.clients c).alive = true ∧ (g.clients c).state_ = .kConnected ∧ g'.begun c = g.begun c

theorem Told.untold (h : Told g c) (hu : Untold g g' c) : Told g' c where
  messages := hu.output ▸ h.messages
  begun ha hc := by
    obtain ⟨ha, hc, hb⟩ := hu.begun ha hc
    rw [hu.output, hb]
    exact h.begun ha hc

theorem Untold.of (ho : (g'.clients c).output = (g.clients c).output)
    (ha : (g'.clients c).alive = true → (g.clients c).alive = true)
    (hs : (g'.clients c).state_ = .kConnected → (g.clients c).state_ = .kConnected)
    (hr : (g.clients c).alive = true → (g.clients c).state_ = .kConnected →
      (g'.clients c).context.client_ = (g.clients c).context.client_ ∧
        ∀ r, (g.clients c).context.client_ = some r →
          (g'.remotes r).exchange.relayed = (g.remotes r).exchange.relayed) : Untold g g' c where
  output := ho
  begun ha' hs' := by
    obtain ⟨hcl, hrel⟩ := hr (ha ha') (hs hs')
    refine ⟨ha ha', hs hs', ?_⟩
    simp only [Gateway.begun, hcl]
    split
    · exact hrel _ ‹_›
    · rfl

theorem Untouched.untold (h : Untouched g g') (ho : (g'.clients c).output = (g.clients c).output) :
    Untold g g' c :=
  .of ho (h.alive c) (h.connected c) fun _ _ =>
    ⟨congrArg _ (h.context c), fun r _ => congrArg _ (h.exchange r)⟩

-- ---------------------------------------------------------------------------
-- Client reads
-- ---------------------------------------------------------------------------

theorem Inv.begun_nil (hi : Inv g) (ha : (g.clients c).alive = true)
    (hc : (g.clients c).state_ = .kConnected)
    (hb : (g.clients c).context.parser_.isExpectingBody = false) : g.begun c = [] := by
  simp only [Gateway.begun]
  split
  · rename_i r hr
    obtain ⟨hstage, hcons⟩ := (hi.linked c r ha hr).stage hc
    cases hstage with
    | waiting _ _ hbuf =>
      rw [RemoteClient.Conserved, hbuf] at hcons
      exact List.append_left_eq_self.mp hcons
    | uploading he => exact Bool.noConfusion (he.symm.trans hb)
    | relaying he => exact Bool.noConfusion (he.symm.trans hb)
  · rfl

theorem untold_forwardBody (hreq : (g.clients c).state_ = .kConnected →
    (g.clients c).context.parser_.isRequest = true) :
    Untold g (g.setLink c r (g.link c r).forwardBody) d := by
  have hf := Link.forwardBody_forwards (g.link c r)
  have ho := Link.forwardBody_output (g.link c r)
  generalize (g.link c r).forwardBody = l at *
  have hrel : ∀ s, ((g.setLink c r l).remotes s).exchange.relayed =
      (g.remotes s).exchange.relayed := by
    intro s
    by_cases hs : s = r
    · simp [hs, hf.exchange]
    · simp [hs]
  by_cases hd : d = c
  · subst hd
    refine .of ?_ ?_ ?_ fun _ hc => ⟨?_, fun s _ => hrel s⟩
    · simpa using ho
    · simp [hf.alive]
    · simp [hf.state]
    · rcases hf.client with h | ⟨h, -⟩
      · simpa using h
      · exact Bool.noConfusion (h.symm.trans (hreq hc))
  · exact .of (by simp [hd]) (by simp [hd]) (by simp [hd]) fun _ _ =>
      ⟨by simp [hd], fun s _ => hrel s⟩

theorem Told.refuse (h : Told g d) (hm : Message response)
    (hnone : d = c → (g.clients c).alive = true → (g.clients c).state_ = .kConnected →
      g.begun c = []) (ha : (g.clients c).alive = true) : Told (g.refuse c response) d := by
  by_cases hd : d = c
  · subst hd
    have hout : ((g.refuse d response).clients d).output =
        ((g.clients d).send response).output := by
      rw [refuse_clients, Function.update_self]
      unfold Client.shutdown
      split <;> rfl
    refine ⟨?_, fun _ hc => ?_⟩
    · rw [hout, Client.send]
      split
      · rename_i hc
        exact ⟨[], (hnone rfl ha hc ▸ h.begun ha hc).whole hm⟩
      · exact h.messages
    · rw [refuse_clients, Function.update_self] at hc
      exact absurd hc shutdown_state
  · refine h.untold (.of ?_ ?_ ?_ fun _ _ => ⟨?_, fun _ _ => rfl⟩) <;>
      simp [refuse_clients, hd]

theorem Inv.untold_accept (hi : Inv g) (hw : Beside g w c)
    (ho : (w.clients c).output = (g.clients c).output)
    (ha : (w.clients c).alive = (g.clients c).alive)
    (hs : (w.clients c).state_ = (g.clients c).state_)
    (hreq : (w.clients c).context.parser_.isRequest = true)
    (hnone : (g.clients c).alive = true → (g.clients c).state_ = .kConnected → g.begun c = []) :
    Untold g (w.accept c a) d := by
  obtain ⟨-, -, hremotes, -, hfree, -, -⟩ :=
    hi.borrowConnection (a := a) hw.remotes hw.idle hw.remoteCount
  have hclients := Gateway.borrowConnection_clients (g := w) (a := a)
  simp only [Gateway.accept]
  generalize (w.borrowConnection a).1 = r at *
  generalize (w.borrowConnection a).2 = v at *
  rw [hclients]
  generalize hl₀ : ({
    conn := { w.clients c with context := (w.clients c).context.BoundRClient r }
    remote := (v.remotes r).bindClient c (w.clients c).context.parser_.request.method } : Link) = l₀
  have hf := Link.forwardHead_forwards l₀
  have hout := Link.forwardHead_output l₀
  have hconn : l₀.conn.output = (g.clients c).output ∧ l₀.conn.alive = (g.clients c).alive ∧
      l₀.conn.state_ = (g.clients c).state_ := by
    rw [← hl₀]
    exact ⟨ho, ha, hs⟩
  have hreq₀ : l₀.parser.isRequest = true := hl₀ ▸ hreq
  have hcl₀ : l₀.conn.context.client_ = some r := hl₀ ▸ rfl
  have hnone₀ : l₀.remote.exchange.relayed = [] := hl₀ ▸ rfl
  generalize l₀.forwardHead = l at *
  by_cases hd : d = c
  · subst hd
    refine ⟨by simpa [hout] using hconn.1, fun ha' hs' => ?_⟩
    simp only [Gateway.setLink_clients, Function.update_self] at ha' hs'
    rw [hf.alive, hconn.2.1] at ha'
    rw [hf.state, hconn.2.2] at hs'
    have hcl : l.conn.context.client_ = some r := by
      rcases hf.client with h | ⟨h, -⟩
      · exact h.trans hcl₀
      · exact Bool.noConfusion (h.symm.trans hreq₀)
    refine ⟨ha', hs', ?_⟩
    rw [hnone ha' hs']
    simp [Gateway.begun, hcl, hf.exchange, hnone₀]
  · refine .of ?_ ?_ ?_ fun hda _ => ⟨?_, fun s hs => ?_⟩
    · simp [hd, hclients, hw.clients d hd]
    · simp [hd, hclients, hw.clients d hd]
    · simp [hd, hclients, hw.clients d hd]
    · simp [hd, hclients, hw.clients d hd]
    · have hne : s ≠ r := fun h => hfree d hda (h ▸ hs)
      simp [hne, hremotes s hne]

theorem Told.onMessage (hi : Inv g) (h : Told g d) (ha : (g.clients c).alive = true)
    (hreq : (g.clients c).state_ = .kConnected → (g.clients c).context.client_ ≠ none →
      (g.clients c).context.parser_.isExpectingBody = true →
        (g.clients c).context.parser_.isRequest = true) :
    Told (LB_Server.onMessage g c now) d := by
  simp only [LB_Server.onMessage]
  split
  · rename_i hb
    split
    · rename_i r hr
      exact h.untold (untold_forwardBody fun hc => hreq hc (hr ▸ Option.some_ne_none r) hb)
    · exact h.untold ⟨rfl, fun ha hc => ⟨ha, hc, rfl⟩⟩
  · rename_i hb
    have hnone : (g.clients c).state_ = .kConnected → g.begun c = [] := fun hc =>
      hi.begun_nil ha hc (Bool.eq_false_iff.mpr hb)
    cases hp : (g.clients c).parseRequest with
    | mk parsed conn =>
      obtain ⟨p, buf, hparse, hconn⟩ := Client.parseRequest_eq hp
      have hkept : conn.output = (g.clients c).output ∧ conn.alive = (g.clients c).alive ∧
          conn.state_ = (g.clients c).state_ ∧
          conn.context.client_ = (g.clients c).context.client_ := hconn ▸ ⟨rfl, rfl, rfl, rfl⟩
      -- the head is parsed, and nothing is sent yet
      have hparsed : ∀ lb d, Untold g { g.setClient c conn with lb } d := by
        intro lb d
        by_cases hd : d = c
        · subst hd
          refine .of ?_ ?_ ?_ fun _ _ => ⟨?_, fun _ _ => rfl⟩ <;> simp [hkept]
        · refine .of ?_ ?_ ?_ fun _ _ => ⟨?_, fun _ _ => rfl⟩ <;> simp [hd]
      cases parsed with
      | true =>
        simp only [if_true, Gateway.setClient_lb]
        have hhead := hparsed (g.lb.judge conn.context conn.inputBuffer_ now).1
        have hbeside : Beside g { g.setClient c conn with
            lb := (g.lb.judge conn.context conn.inputBuffer_ now).1 } c :=
          ⟨fun d hd => by simp [hd], rfl, rfl, rfl, rfl, rfl⟩
        split
        · rename_i response hv
          refine (h.untold (hhead d)).refuse (judge_refuses hv) (fun _ ha' hc' => ?_) ?_
          · obtain ⟨-, hc, hbegun⟩ := (hhead c).begun ha' hc'
            exact hbegun.trans (hnone hc)
          · simpa [hkept] using ha
        · refine h.untold (hi.untold_accept hbeside ?_ ?_ ?_ ?_ fun _ => hnone)
          · simp [hkept]
          · simp [hkept]
          · simp [hkept]
          · simpa [hconn] using (parseRequest_message hparse).2.1
      | false => exact h.untold (hparsed g.lb d)

-- ---------------------------------------------------------------------------
-- Backend reads
-- ---------------------------------------------------------------------------

theorem untold_receive : Untold g (g.receive r data) d :=
  .of rfl id id fun _ _ => ⟨rfl, fun s _ => by
    by_cases hs : s = r
    · exact hs ▸ receive_relayed
    · simp [Gateway.receive, hs]⟩

theorem Told.relayed (h : Told g c) (ha : (g.clients c).alive = true)
    (hcl : (g.clients c).context.client_ = some r) (hs : (g.clients c).state_ = .kConnected)
    {R : Response method} (hR : Continues R (g.remotes r).exchange.got data)
    (hl : ReadTo (g.receive r data) c r R.bytes l) (hw : Link.Wrote ((g.receive r data).link c r) l) :
    Messages l.conn.output l.remote.exchange.relayed ∧
      (l.finished = true → l.remote.exchange.relayed = R.bytes) := by
  obtain ⟨more, hout, hrel⟩ := hw
  have hbegun : g.begun c = (g.remotes r).exchange.relayed := by simp [Gateway.begun, hcl]
  have hgot : l.remote.exchange.got = (g.remotes r).exchange.got ++ data := by
    simpa [Gateway.receive] using hl.quiet.got
  refine ⟨?_, fun hf => ?_⟩
  · rw [Gateway.link_remote, receive_relayed] at hrel
    rw [hout, hrel]
    refine (hbegun ▸ h.begun ha hs).more (.response R) ?_
    rw [← hrel]
    exact List.IsPrefix.trans ⟨l.remote.inputBuffer_, hl.conserved.trans hgot⟩ hR.1
  · have hreads := hl.reads
    rw [Link.Reads, if_pos hf] at hreads
    have hall := hl.conserved
    rw [RemoteClient.Conserved, hreads.1, List.append_nil] at hall
    exact hall.trans hreads.2

theorem Told.backendRead (hi : Inv g) (hc : Orderly g (.backendRead r data)) (h : Told g d) :
    Told (if (g.receive r data).held r then RemoteClient.onMessage (g.receive r data) r
      else g.receive r data) d := by
  obtain ⟨hnode, hcond⟩ := hc
  have hparked : ∀ a, r ∉ g.idle_map_ a := fun a hm => hnode ((hi.idle a r hm).node ▸ hm)
  by_cases hlive : ∃ c, (g.clients c).alive = true ∧ (g.clients c).context.client_ = some r
  · obtain ⟨c, ha, hcl⟩ := hlive
    have hl := hi.linked c r ha hcl
    obtain ⟨hs, hq, R, hR⟩ := hcond c hl.bound ha hcl
    have hread := hi.reads ha hcl hs hq hR
    have hwrote := Link.relayResponse_wrote ((g.receive r data).link c r)
    have hheld : (g.receive r data).held r = true := by
      simp only [Gateway.held, decide_eq_true_eq]
      exact .inr ⟨c, hi.known c ha, ha, hcl⟩
    have hbound : ((g.receive r data).remotes r).clientConn_ = some c := by
      simpa [Gateway.receive] using hl.bound
    have hbusy : ((g.receive r data).remotes r).is_busy_ = true := by
      simpa [Gateway.receive] using hl.busy
    have ha' : ((g.receive r data).clients c).alive = true := ha
    simp only [hheld, if_true, RemoteClient.onMessage, hbound, ha', hbusy, and_self]
    generalize ((g.receive r data).link c r).relayResponse = l at *
    by_cases hd : d = c
    · subst hd
      obtain ⟨hmsgs, hall⟩ := h.relayed ha hcl hs hR hread hwrote
      split
      · rename_i hf
        have hnone : l.conn.context.client_ = none := hread.released hf
        have hover := hmsgs.over (hall hf ▸ .response R)
        refine ⟨⟨[], ?_⟩, fun _ _ => ?_⟩
        · simpa [Gateway.returnConnection_clients] using hover
        · simpa [Gateway.begun, Gateway.returnConnection_clients, hnone] using hover
      · rename_i hf
        have hkept : l.conn.context.client_ = some r := by
          rcases hread.quiet.client with h | ⟨h, -⟩
          · exact h.trans hcl
          · exact absurd h hf
        refine ⟨⟨_, by simpa using hmsgs⟩, fun _ _ => ?_⟩
        simpa [Gateway.begun, hkept] using hmsgs
    · -- another client has another backend
      have hother : ∀ s, (g.clients d).alive = true → (g.clients d).context.client_ = some s →
          s ≠ r := fun s had hds h => hd (hi.own ha hcl had (h ▸ hds))
      have hgot : ((g.receive r data).clients d) = g.clients d := rfl
      split
      · refine h.untold (.of ?_ ?_ ?_ fun had _ => ⟨?_, fun s hs => ?_⟩)
        · simp [Gateway.returnConnection_clients, hd, hgot]
        · simp [Gateway.returnConnection_clients, hd, hgot]
        · simp [Gateway.returnConnection_clients, hd, hgot]
        · simp [Gateway.returnConnection_clients, hd, hgot]
        · have hne := hother s had hs
          simp [returnConnection_remotes hne, hne, Gateway.receive]
      · refine h.untold (.of ?_ ?_ ?_ fun had _ => ⟨?_, fun s hs => ?_⟩)
        · simp [hd, hgot]
        · simp [hd, hgot]
        · simp [hd, hgot]
        · simp [hd, hgot]
        · have hne := hother s had hs
          simp [hne, Gateway.receive]
  · rw [if_neg]
    · exact h.untold untold_receive
    · simp only [Gateway.held, decide_eq_true_eq, not_or, not_exists, not_and]
      exact ⟨hparked _, fun c _ ha hcl => hlive ⟨c, ha, hcl⟩⟩

-- ---------------------------------------------------------------------------
-- Runs
-- ---------------------------------------------------------------------------

theorem untold_of_step (hs : g.stepOk e = some g') (he : e.reads = false)
    (hdown : ∀ r, e ≠ .backendDown r) : Untold g g' c := by
  refine (untouched_of_step hs he).untold ?_
  cases e with
  | accept => cases he
  | clientRead => cases he
  | backendRead => cases he
  | backendDown r => exact absurd rfl (hdown r)
  | clientClose d =>
    simp only [Gateway.stepOk, Option.ite_none_right_eq_some, Option.some.injEq] at hs
    obtain ⟨-, rfl⟩ := hs
    by_cases h : c = d <;> simp [h]
  | clientGone d =>
    simp only [Gateway.stepOk, Option.ite_none_right_eq_some, Option.some.injEq] at hs
    obtain ⟨-, rfl⟩ := hs
    by_cases h : c = d <;> simp [h]
  | backendUp r =>
    simp only [Gateway.stepOk, Option.ite_none_right_eq_some, Option.some.injEq] at hs
    obtain ⟨-, rfl⟩ := hs
    simp only [Gateway.backendUp]
    split <;> rfl
  | backendFailed r =>
    simp only [Gateway.stepOk, Option.ite_none_right_eq_some, Option.some.injEq] at hs
    obtain ⟨-, rfl⟩ := hs
    rfl
  | errorCallback r =>
    simp only [Gateway.stepOk, Option.ite_none_right_eq_some, Option.some.injEq] at hs
    obtain ⟨-, rfl⟩ := hs
    rfl
  | shared lb =>
    cases hs
    rfl

/-- A backend that goes down before the head of a response is made up for by a whole message. -/
theorem Told.backendDown (hi : Inv g) (hl : HeadLed g) (hc : HeadFirst g (.backendDown r))
    (hs : step g (.backendDown r) = some g') (h : Told g c) : Told g' c := by
  have hun : Untouched g g' := by
    simp only [step, Option.ite_none_right_eq_some] at hs
    exact untouched_of_step hs.2 rfl
  rcases backendDown_output (c := c) hs with hout | ⟨hv, hgone, hout⟩
  · exact h.untold (hun.untold hout)
  · have hnone : g.begun c = [] := by
      simp only [Gateway.begun]
      split
      · rename_i s hcl
        obtain ⟨hk, hb, hy, -, -, -⟩ := hi.linked c s hv.alive hcl
        have hserves : Serves g s c := ⟨hb, hy, hv.alive, hv.connected⟩
        by_contra hrel
        exact hc c hv.bound hv s hk hserves (hl.led s c hserves hrel)
      · rfl
    refine ⟨⟨[], ?_⟩, fun _ hcon => absurd hcon hgone⟩
    rw [hout]
    exact (hnone ▸ h.begun hv.alive hv.connected).whole .badGateway

theorem told_step (hi : Inv g) (hl : HeadLed g) (ht : ∀ c, Told g c) (hc : HeadFirst g e)
    (ho : Orderly g e) (hs : step g e = some g') : ∀ c, Told g' c := by
  intro d
  have hok := hs
  simp only [step, Option.ite_none_right_eq_some] at hok
  obtain ⟨-, hok⟩ := hok
  cases e with
  | accept =>
    cases hok
    by_cases h : d = g.clientCount
    · refine ⟨⟨[], ?_⟩, fun _ _ => ?_⟩
      · simpa [h] using Messages.nil
      · simpa [Gateway.begun, h] using Messages.nil
    · refine (ht d).untold (.of ?_ ?_ ?_ fun _ _ => ⟨?_, fun _ _ => rfl⟩) <;> simp [h]
  | clientRead c data now =>
    simp only [Gateway.stepOk, Option.ite_none_right_eq_some, Option.some.injEq] at hok
    obtain ⟨⟨hopen, -⟩, rfl⟩ := hok
    simp only [Client.open_, Bool.and_eq_true] at hopen
    have hread : Inv (g.read c data) := hi.setClient id (hi.settled c) fun r hr =>
      ⟨hr, fun hc => ⟨hc, id⟩⟩
    have huntold : Untold g (g.read c data) d := by
      by_cases h : d = c
      · subst h
        refine .of ?_ ?_ ?_ fun _ _ => ⟨?_, fun _ _ => rfl⟩ <;> simp [Gateway.read]
      · refine .of ?_ ?_ ?_ fun _ _ => ⟨?_, fun _ _ => rfl⟩ <;> simp [Gateway.read, h]
    refine ((ht d).untold huntold).onMessage hread (by simpa [Gateway.read] using hopen.1) ?_
    simpa [Gateway.read, Orderly, OrderlyIf] using ho
  | backendRead r data =>
    simp only [Gateway.stepOk, Option.ite_none_right_eq_some, Option.some.injEq] at hok
    obtain ⟨-, rfl⟩ := hok
    exact (ht d).backendRead hi ho
  | backendDown r => exact (ht d).backendDown hi hl hc hs
  | _ => exact (ht d).untold (untold_of_step hok rfl (by simp))

theorem told_of_reach (h : Reach step (fun g e => HeadFirst g e ∧ Orderly g e) { lb } g) (c : Nat) :
    Told g c := by
  have hinv : Inv g ∧ HeadLed g ∧ ∀ c, Told g c :=
    h.invariant (I := fun g => Inv g ∧ HeadLed g ∧ ∀ c, Told g c)
      ⟨inv_init lb, headLed_init lb, fun _ => ⟨⟨[], .nil⟩, nofun⟩⟩
      fun _ _ _ ⟨hi, hl, ht⟩ ⟨hc, ho⟩ hs =>
        ⟨inv_step hi ho hs, headLed_step hl hc hs, told_step hi hl ht hc ho hs⟩
  exact hinv.2.2 c

-- ---------------------------------------------------------------------------
-- A status line of the gateway's own
-- ---------------------------------------------------------------------------

/-- A client is told 502 only where nothing of its response was relayed to it; so all that it
receives, of backends that send one response for a request, are whole messages and what was relayed
of the response it waits for. -/
theorem bad_gateway_first (h : Reach step HeadFirst { lb } g) :
    (∀ r g' c, HeadFirst g (.backendDown r) → step g (.backendDown r) = some g' →
      (g'.clients c).output ≠ (g.clients c).output →
      (g'.clients c).output = (g.clients c).output ++ badGatewayResponse ∧
        ∀ s < g.remoteCount, Serves g s c → (g.remotes s).exchange.relayed = []) ∧
    (Reach step (fun g e => HeadFirst g e ∧ Orderly g e) { lb } g →
      ∀ c, Told g c) := by
  refine ⟨fun r g' c hc hs hne => ?_, told_of_reach⟩
  rcases backendDown_output (c := c) hs with hout | ⟨hv, -, hout⟩
  · exact absurd hout hne
  · refine ⟨hout, fun s hk hserves => ?_⟩
    by_contra hrel
    exact hc c hv.bound hv s hk hserves ((headLed_of_reach h).led s c hserves hrel)

def headCut : List Event :=
  [.accept, .clientRead 0 (ascii "GET /im HTTP/1.1\r\n\r\n") 0, .backendUp 0,
    .backendRead 0 (ascii "HTTP/1.1 200 ")]

theorem bad_gateway_first_headCut : ∃ g g',
    exec step (fun g e => HeadFirst g e ∧ OrderlyIf answersOk g e) { lb := unconfigured } headCut =
      some g ∧ step g (.backendDown 0) = some g' ∧ (g'.clients 0).output = badGatewayResponse ∧
      (g.remotes 0).exchange.relayed = [] ∧ Told g 0 := by
  have hrun : (exec step (fun g e => HeadFirst g e ∧ OrderlyIf answersOk g e) { lb := unconfigured }
      headCut).any (fun g => (g.clients 0).output = [] ∧ 0 < g.remoteCount ∧ Serves g 0 0 ∧
        HeadFirst g (.backendDown 0) ∧ (step g (.backendDown 0)).any
          fun g' => (g'.clients 0).output ≠ []) = true := by
    decide +kernel
  obtain ⟨g, hg, hd⟩ := (Option.any_eq_true _ _).mp hrun
  obtain ⟨hnone, hk, hserves, hc, hdown⟩ := of_decide_eq_true hd
  obtain ⟨g', hg', hout⟩ := (Option.any_eq_true _ _).mp hdown
  have hreach : Reach step (fun g e => HeadFirst g e ∧ Orderly g e) { lb := unconfigured } g :=
    (Reach.of_exec hg).mono fun _ _ h =>
      ⟨h.1, h.2.mono fun _ _ _ ⟨h, hc⟩ => ⟨okResponse h, hc⟩⟩
  obtain ⟨hfirst, htold⟩ := bad_gateway_first (hreach.mono fun _ _ => And.left)
  obtain ⟨hbad, hrel⟩ := hfirst 0 g' 0 hc hg' (hnone ▸ of_decide_eq_true hout)
  exact ⟨g, g', hg, hg', hbad.trans (by rw [hnone]; rfl), hrel 0 hk hserves, htold hreach 0⟩

def bodyCut : List Event :=
  [.accept, .clientRead 0 (ascii "GET /im HTTP/1.1\r\n\r\n") 0, .backendUp 0,
    .backendRead 0 (okHead ++ ascii "o")]

theorem not_bad_gateway_first : ¬ ∀ lb g r g' c, Reach step Always { lb } g →
    step g (.backendDown r) = some g' → (g'.clients c).output ≠ (g.clients c).output →
      ∀ s < g.remoteCount, Serves g s c → (g.remotes s).exchange.relayed = [] := by
  intro h
  have hrun : (exec step Always { lb := unconfigured } bodyCut).any (fun g =>
      0 < g.remoteCount ∧ Serves g 0 0 ∧ (g.remotes 0).exchange.relayed ≠ [] ∧
        (step g (.backendDown 0)).any fun g' => (g'.clients 0).output ≠ (g.clients 0).output) =
      true := by
    decide +kernel
  obtain ⟨g, hg, hd⟩ := (Option.any_eq_true _ _).mp hrun
  obtain ⟨hk, hserves, hrel, hdown⟩ := of_decide_eq_true hd
  obtain ⟨g', hg', hout⟩ := (Option.any_eq_true _ _).mp hdown
  exact hrel (h _ g 0 g' 0 (.of_exec hg) hg' (of_decide_eq_true hout) 0 hk hserves)

end VortexNet.L7
