import VortexNet.Proxy.L7.GatewayLaws

/-!
# Refused requests

A refusal answers the client and shuts its own side down, and leaves the head
in the buffer and the parser as the head has left it. The gateway goes on to
read: bytes that come later go to a backend as the body that the refused head
announced, or make it check the same head again, and it may pass. Outside of
these two cases no byte of a refused request is forwarded (`refused_kept`).
-/

namespace VortexNet.L7

open Picohttpparser
open Systems (Reach Always exec)

-- ---------------------------------------------------------------------------
-- Bytes of a client's stream
-- ---------------------------------------------------------------------------

def RefusedAt (log : List Log) (c x : Nat) : Prop :=
  ∃ r pos len, ⟨c, r, .refused pos len⟩ ∈ log ∧ pos ≤ x ∧ x < pos + len

def ForwardedAt (log : List Log) (c x : Nat) : Prop :=
  ∃ r pos len, ⟨c, r, .forwarded pos len⟩ ∈ log ∧ pos ≤ x ∧ x < pos + len

def NoRefusedByte (log : List Log) : Prop := ∀ c x, RefusedAt log c x → ¬ ForwardedAt log c x

-- ---------------------------------------------------------------------------
-- The condition
-- ---------------------------------------------------------------------------

def Log.refuses (m : Log) (c : Nat) : Bool :=
  m.client = c && match m.entry with
    | .refused .. => true
    | _ => false

def Gateway.refused (g : Gateway) (c : Nat) : Bool := g.log.any (·.refuses c)

/-- If client `c` was refused, what it has sent of the body is enough for the parser, and the
head in its buffer is refused again. -/
def Gateway.staysRefused (g : Gateway) (c now : Nat) : Prop :=
  let conn := g.clients c
  let (parsed, next) := conn.parseRequest
  g.refused c = true →
    if conn.context.parser_.isExpectingBody then conn.context.parser_.bytesRemaining = 0
    else parsed = true → (g.lb.judge next.context next.inputBuffer_ now).2.isRefuse = true

def StaysRefused (g : Gateway) : Event → Prop
  | .clientRead c data now => (g.read c data).staysRefused c now
  | _ => True

instance (g : Gateway) (e : Event) : Decidable (StaysRefused g e) :=
  match e with
  | .clientRead .. => inferInstanceAs (Decidable (_ → ite ..))
  | .accept | .clientClose _ | .clientGone _ | .backendUp _ | .backendFailed _ | .backendRead ..
  | .backendDown _ | .errorCallback _ | .shared _ => .isTrue trivial

-- ---------------------------------------------------------------------------
-- What one read forwards
-- ---------------------------------------------------------------------------

namespace Link

variable {l l' l'' : Link} {n : Nat}

structure Advances (l l' : Link) : Prop where
  consumed : l.conn.consumed ≤ l'.conn.consumed
  alive : l'.conn.alive = l.conn.alive
  trace : ∃ t, l'.trace = t ++ l.trace ∧ ∀ e ∈ t, e.ofRequest = true →
    ∃ pos len, e = .forwarded pos len ∧ pos + len ≤ l'.conn.consumed

theorem Advances.refl (l : Link) : Advances l l := ⟨le_rfl, rfl, [], rfl, nofun⟩

theorem Advances.trans (h₁ : Advances l l') (h₂ : Advances l' l'') : Advances l l'' := by
  obtain ⟨t, ht, he⟩ := h₁.trace
  obtain ⟨u, hu, he'⟩ := h₂.trace
  refine ⟨h₁.consumed.trans h₂.consumed, h₂.alive.trans h₁.alive, u ++ t, ?_, fun e hm ho => ?_⟩
  · rw [hu, ht, List.append_assoc]
  · rcases List.mem_append.mp hm with hm | hm
    · exact he' e hm ho
    · obtain ⟨pos, len, rfl, hle⟩ := he e hm ho
      exact ⟨pos, len, rfl, hle.trans h₂.consumed⟩

theorem resetIfGotAll_trace (l : Link) : l.resetIfGotAll.trace = l.trace := by
  unfold resetIfGotAll
  split <;> rfl

theorem resetIfGotAll_consumed (l : Link) : l.resetIfGotAll.conn.consumed = l.conn.consumed := by
  unfold resetIfGotAll
  split <;> rfl

theorem resetIfGotAll_advances (l : Link) : Advances l l.resetIfGotAll := by
  unfold resetIfGotAll
  split
  · exact ⟨le_rfl, rfl, [], rfl, nofun⟩
  · exact .refl l

theorem forward_consume_advances (l : Link) (n : Nat) :
    Advances l ((l.forward n).consumeRequest n) := by
  refine ⟨Nat.le_add_right _ _, rfl, [_, _], rfl, fun e hm ho => ?_⟩
  rcases List.mem_cons.mp hm with rfl | hm
  · cases ho
  · obtain rfl := List.mem_singleton.mp hm
    exact ⟨_, _, rfl, by simp [consumeRequest, forward, Client.consumeBody, Client.retrieve]⟩

theorem forward_retrieve_advances (l : Link) (n : Nat) :
    Advances l ((l.forward n).retrieveRequest n) := by
  refine ⟨Nat.le_add_right _ _, rfl, [_], rfl, fun e hm _ => ?_⟩
  obtain rfl := List.mem_singleton.mp hm
  exact ⟨_, _, rfl, by simp [retrieveRequest, forward, Client.retrieve]⟩

theorem forwardBody_advances (l : Link) : Advances l l.forwardBody :=
  (forward_consume_advances l _).trans (resetIfGotAll_advances _)

theorem forwardHead_advances (l : Link) : Advances l l.forwardHead := by
  simp only [forwardHead]
  refine (forward_retrieve_advances l l.parser.headerLen).trans (.trans ?_ (resetIfGotAll_advances _))
  split
  · exact forward_consume_advances _ _
  · exact .refl _

theorem forwardBody_none (h : l.parser.bytesRemaining = 0) :
    l.forwardBody.conn.consumed = l.conn.consumed ∧
      l.forwardBody.conn.inputBuffer_ = l.conn.inputBuffer_ ∧
      ∃ t, l.forwardBody.trace = t ++ l.trace ∧
        ∀ e ∈ t, e.ofRequest = true → ∃ pos, e = .forwarded pos 0 := by
  simp only [forwardBody, h, Nat.min_zero, resetIfGotAll_trace, resetIfGotAll_consumed,
    resetIfGotAll_inputBuffer]
  refine ⟨by simp [consumeRequest, forward, Client.consumeBody, Client.retrieve], rfl, [_, _], rfl,
    fun e hm ho => ?_⟩
  rcases List.mem_cons.mp hm with rfl | hm
  · cases ho
  · obtain rfl := List.mem_singleton.mp hm
    exact ⟨_, rfl⟩

theorem forwardBody_first (hb : l.conn.inputBuffer_ ≠ []) (hr : l.parser.bytesRemaining ≠ 0) :
    ∃ len, 0 < len ∧ .forwarded l.conn.consumed len ∈ l.forwardBody.trace := by
  have hpos := List.length_pos_iff.mpr hb
  simp only [forwardBody, resetIfGotAll_trace]
  refine ⟨_, ?_, List.mem_cons_of_mem _ List.mem_cons_self⟩
  simp only [List.length_take]
  omega

theorem forwardHead_first (hb : l.conn.inputBuffer_ ≠ []) (hlen : 0 < l.parser.headerLen) :
    ∃ len, 0 < len ∧ .forwarded l.conn.consumed len ∈ l.forwardHead.trace := by
  have hpos := List.length_pos_iff.mpr hb
  refine ⟨min l.parser.headerLen l.conn.inputBuffer_.length, Nat.lt_min.mpr ⟨hlen, hpos⟩, ?_⟩
  simp only [forwardHead, resetIfGotAll_trace]
  split <;> simp [consumeRequest, forward, retrieveRequest]

end Link

-- ---------------------------------------------------------------------------
-- The invariant
-- ---------------------------------------------------------------------------

/-- Refused bytes and forwarded bytes are apart. What was forwarded lies behind the read position,
and the head that was refused last is still before it. -/
structure Kept (g : Gateway) : Prop where
  disjoint : NoRefusedByte g.log
  known : ∀ m ∈ g.log, m.entry.ofRequest = true → m.client < g.clientCount
  alive : ∀ c, (g.clients c).alive = true → c < g.clientCount
  behind : g.fault = none → ∀ c r pos len,
    ⟨c, r, .forwarded pos len⟩ ∈ g.log → pos + len ≤ (g.clients c).consumed
  pending : g.fault = none → ∀ c, g.refused c = true →
    0 < ret (phr_parse_request (g.clients c).inputBuffer_) ∧
      ∃ r len, ⟨c, r, .refused (g.clients c).consumed len⟩ ∈ g.log ∧ 0 < len

variable {g g' : Gateway} {c r now : Nat}

theorem refused_iff : g.refused c = true ↔ ∃ r pos len, ⟨c, r, .refused pos len⟩ ∈ g.log := by
  simp only [Gateway.refused, List.any_eq_true, Log.refuses]
  constructor
  · rintro ⟨⟨d, r, e⟩, hm, hr⟩
    cases e with
    | refused pos len =>
      obtain rfl : d = c := by simpa using hr
      exact ⟨r, pos, len, hm⟩
    | _ => simp at hr
  · rintro ⟨r, pos, len, hm⟩
    exact ⟨_, hm, by simp⟩

theorem kept_init (lb : LB_Server) : Kept { lb } where
  disjoint _ _ := by
    rintro ⟨r, pos, len, hm, -⟩
    cases hm
  known _ hm := nomatch hm
  alive _ h := nomatch h
  behind _ _ _ _ _ hm := nomatch hm
  pending _ _ h := nomatch h

structure SameRequests (g g' : Gateway) : Prop where
  fault : g'.fault = g.fault
  clientCount : g'.clientCount = g.clientCount
  inputBuffer : ∀ c, (g'.clients c).inputBuffer_ = (g.clients c).inputBuffer_
  consumed : ∀ c, (g'.clients c).consumed = (g.clients c).consumed
  alive : ∀ c, (g'.clients c).alive = true → (g.clients c).alive = true
  log : ∀ m, m.entry.ofRequest = true → (m ∈ g'.log ↔ m ∈ g.log)

theorem Untouched.sameRequests (h : Untouched g g') : SameRequests g g' :=
  ⟨h.fault, h.clientCount, h.inputBuffer, h.consumed, h.alive, fun _ _ => by rw [h.log]⟩

theorem Kept.sameRequests (hi : Kept g) (h : SameRequests g g') : Kept g' where
  disjoint c x := by
    rintro ⟨r, pos, len, hm, hx⟩ ⟨r', pos', len', hm', hx'⟩
    exact hi.disjoint c x ⟨r, pos, len, (h.log _ rfl).mp hm, hx⟩
      ⟨r', pos', len', (h.log _ rfl).mp hm', hx'⟩
  known m hm ho := h.clientCount ▸ hi.known m ((h.log m ho).mp hm) ho
  alive c ha := h.clientCount ▸ hi.alive c (h.alive c ha)
  behind hf c r pos len hm := by
    rw [h.consumed]
    exact hi.behind (h.fault ▸ hf) c r pos len ((h.log _ rfl).mp hm)
  pending hf c hr := by
    obtain ⟨r, pos, len, hm⟩ := refused_iff.mp hr
    obtain ⟨hhead, r', len', hm', hlen⟩ :=
      hi.pending (h.fault ▸ hf) c (refused_iff.mpr ⟨r, pos, len, (h.log _ rfl).mp hm⟩)
    rw [h.inputBuffer, h.consumed]
    exact ⟨hhead, r', len', (h.log _ rfl).mpr hm', hlen⟩

-- ---------------------------------------------------------------------------
-- Backend reads
-- ---------------------------------------------------------------------------

theorem SameRequests.trans (h₁ : SameRequests g g') (h₂ : SameRequests g' g'') :
    SameRequests g g'' where
  fault := h₂.fault.trans h₁.fault
  clientCount := h₂.clientCount.trans h₁.clientCount
  inputBuffer c := (h₂.inputBuffer c).trans (h₁.inputBuffer c)
  consumed c := (h₂.consumed c).trans (h₁.consumed c)
  alive c h := h₁.alive c (h₂.alive c h)
  log m ho := (h₂.log m ho).trans (h₁.log m ho)

theorem sameRequests_setRemote : SameRequests g (g.setRemote r remote) :=
  ⟨rfl, rfl, fun _ => rfl, fun _ => rfl, fun _ h => h, fun _ _ => .rfl⟩

theorem sameRequests_setLink (h : Link.Quiet (g.link c r) l) : SameRequests g (g.setLink c r l) where
  fault := rfl
  clientCount := rfl
  inputBuffer d := by
    by_cases hd : d = c
    · simpa [hd] using h.inputBuffer
    · simp [hd]
  consumed d := by
    by_cases hd : d = c
    · simpa [hd] using h.consumed
    · simp [hd]
  alive d := by
    by_cases hd : d = c
    · simp [hd, h.alive]
    · simp [hd]
  log m ho := by
    obtain ⟨t, ht, hq⟩ := h.trace
    have hnot : m ∉ l.trace.map (⟨c, some r, ·⟩) := by
      rw [ht]
      rintro hm
      obtain ⟨e, he, rfl⟩ := List.mem_map.mp hm
      rcases List.mem_append.mp he with he | he
      · exact Bool.false_ne_true ((Entry.ofRequest_eq (hq e he).1).symm.trans ho)
      · cases he
    simp [hnot]

theorem sameRequests_returnConnection : SameRequests g (g.returnConnection c r) where
  fault := Gateway.returnConnection_fault
  clientCount := Gateway.returnConnection_clientCount
  inputBuffer d := by rw [Gateway.returnConnection_clients]
  consumed d := by rw [Gateway.returnConnection_clients]
  alive d h := by rwa [Gateway.returnConnection_clients] at h
  log m ho := by
    rw [Gateway.returnConnection_log, List.mem_cons, or_iff_right]
    rintro rfl
    cases ho

theorem sameRequests_onMessage : SameRequests g (RemoteClient.onMessage g r) := by
  simp only [RemoteClient.onMessage]
  split
  · rename_i c _
    split
    · have hlink := sameRequests_setLink (Link.relayResponse_quiet (g.link c r))
      split
      · exact hlink.trans sameRequests_returnConnection
      · exact hlink
    · exact sameRequests_setRemote
  · exact sameRequests_setRemote

-- ---------------------------------------------------------------------------
-- Client reads
-- ---------------------------------------------------------------------------

theorem Kept.read (hi : Kept g) : Kept (g.read c data) where
  disjoint := hi.disjoint
  known := hi.known
  alive d h := by
    by_cases hd : d = c
    · subst hd
      exact hi.alive d (by simpa [Gateway.read] using h)
    · exact hi.alive d (by simpa [Gateway.read, hd] using h)
  behind hf d r pos len hm := by
    have := hi.behind hf d r pos len hm
    by_cases hd : d = c
    · subst hd
      simpa [Gateway.read] using this
    · simpa [Gateway.read, hd] using this
  pending hf d hr := by
    obtain ⟨hhead, hlast⟩ := hi.pending hf d hr
    by_cases hd : d = c
    · subst hd
      simp only [Gateway.read, Gateway.setClient_clients, Function.update_self]
      exact ⟨by rwa [HttpParser.ret_append hhead], hlast⟩
    · simpa [Gateway.read, hd] using ⟨hhead, hlast⟩

theorem Kept.setLink (hi : Kept g) (hf : g.fault = none) (hc : c < g.clientCount)
    (hn : (g.clients c).consumed ≤ l.conn.consumed)
    (ht : ∀ e ∈ l.trace, e.ofRequest = true →
      ∃ pos len, e = .forwarded pos len ∧ pos + len ≤ l.conn.consumed)
    (hr : g.refused c = true → l.conn.consumed = (g.clients c).consumed ∧
      l.conn.inputBuffer_ = (g.clients c).inputBuffer_ ∧
      ∀ e ∈ l.trace, e.ofRequest = true → ∃ pos, e = .forwarded pos 0) :
    Kept (g.setLink c r l) := by
  have hnew : ∀ m ∈ l.trace.map (⟨c, some r, ·⟩ : Entry → Log), m.client = c ∧ m.entry ∈ l.trace := by
    rintro m hm
    obtain ⟨e, he, rfl⟩ := List.mem_map.mp hm
    exact ⟨rfl, he⟩
  have hrefused : ∀ d s pos len, ⟨d, s, .refused pos len⟩ ∈ (g.setLink c r l).log →
      ⟨d, s, .refused pos len⟩ ∈ g.log := by
    intro d s pos len hm
    rcases List.mem_append.mp hm with hm | hm
    · obtain ⟨_, _, h, -⟩ := ht _ (hnew _ hm).2 rfl
      cases h
    · exact hm
  constructor
  · rintro d x ⟨s, pos, len, hm, hx⟩ ⟨s', pos', len', hm', hx'⟩
    have hold := hrefused d s pos len hm
    rcases List.mem_append.mp hm' with hm' | hm'
    · obtain ⟨rfl, he⟩ := hnew _ hm'
      obtain ⟨_, h⟩ := (hr (refused_iff.mpr ⟨s, pos, len, hold⟩)).2.2 _ he rfl
      cases h
      omega
    · exact hi.disjoint d x ⟨s, pos, len, hold, hx⟩ ⟨s', pos', len', hm', hx'⟩
  · intro m hm ho
    rcases List.mem_append.mp hm with hm | hm
    · exact (hnew m hm).1 ▸ hc
    · exact hi.known m hm ho
  · intro d hd
    by_cases h : d = c
    · exact h ▸ hc
    · exact hi.alive d (by simpa [h] using hd)
  · intro _ d s pos len hm
    rcases List.mem_append.mp hm with hm | hm
    · obtain ⟨rfl, he⟩ := hnew _ hm
      obtain ⟨_, _, h, hle⟩ := ht _ he rfl
      cases h
      simpa using hle
    · have := hi.behind hf d s pos len hm
      by_cases h : d = c
      · subst h
        simpa using this.trans hn
      · simpa [h] using this
  · intro _ d hd
    obtain ⟨s, pos, len, hm⟩ := refused_iff.mp hd
    have hold : g.refused d = true := refused_iff.mpr ⟨s, pos, len, hrefused d s pos len hm⟩
    obtain ⟨hhead, s', len', hm', hlen'⟩ := hi.pending hf d hold
    by_cases h : d = c
    · subst h
      obtain ⟨hcons, hbuf, -⟩ := hr hold
      simp only [Gateway.setLink_clients, Function.update_self, hcons, hbuf]
      exact ⟨hhead, s', len', List.mem_append_right _ hm', hlen'⟩
    · simp only [Gateway.setLink_clients, Function.update_of_ne h]
      exact ⟨hhead, s', len', List.mem_append_right _ hm', hlen'⟩

theorem Kept.setClient (hi : Kept g) (lb : LB_Server)
    (hb : conn.inputBuffer_ = (g.clients c).inputBuffer_)
    (hn : conn.consumed = (g.clients c).consumed) (ha : conn.alive = (g.clients c).alive) :
    Kept { g.setClient c conn with lb } := by
  refine hi.sameRequests ⟨rfl, rfl, fun d => ?_, fun d => ?_, fun d => ?_, fun _ _ => .rfl⟩ <;>
    by_cases hd : d = c
  · simpa [hd] using hb
  · simp [hd]
  · simpa [hd] using hn
  · simp [hd]
  · simp [hd, ha]
  · simp [hd]

theorem Kept.discard (hi : Kept g) (hf : g.fault = none) (hr : g.refused c = false)
    (hn : (g.clients c).consumed ≤ conn.consumed) (ha : conn.alive = (g.clients c).alive) :
    Kept (g.setClient c conn) := by
  refine ⟨hi.disjoint, hi.known, fun d h => ?_, fun _ d s pos len hm => ?_, fun _ d hd => ?_⟩
  · by_cases hd : d = c
    · subst hd
      exact hi.alive d (by simpa [ha] using h)
    · exact hi.alive d (by simpa [hd] using h)
  · have := hi.behind hf d s pos len hm
    by_cases hd : d = c
    · subst hd
      simpa using this.trans hn
    · simpa [hd] using this
  · have hne : d ≠ c := by
      rintro rfl
      exact Bool.false_ne_true (hr.symm.trans hd)
    simpa [hne] using hi.pending hf d hd

theorem Kept.refuse (hi : Kept g) (hf : g.fault = none) (hc : c < g.clientCount)
    (hhead : 0 < ret (phr_parse_request (g.clients c).inputBuffer_))
    (hlen : 0 < (g.clients c).context.parser_.headerLen) : Kept (g.refuse c response) := by
  obtain ⟨hb, hn, ha, -⟩ := shutdown_fields (g.clients c) response
  have hold : Kept (g.setClient c ((g.clients c).send response).shutdown) :=
    hi.setClient g.lb hb hn ha
  have hmem : ∀ m ∈ (g.refuse c response).log, m ∈ g.log ∨
      m = ⟨c, none, .refused (g.clients c).consumed (Gateway.requestLen (g.clients c))⟩ := by
    intro m hm
    exact (List.mem_cons.mp hm).symm
  refine ⟨fun d x => ?_, fun m hm ho => ?_, hold.alive, fun _ d s pos len hm => ?_, fun _ d hd => ?_⟩
  · rintro ⟨s, pos, len, hm, hx⟩ ⟨s', pos', len', hm', hx'⟩
    rcases hmem _ hm' with hm' | h
    · rcases hmem _ hm with hm | h
      · exact hi.disjoint d x ⟨s, pos, len, hm, hx⟩ ⟨s', pos', len', hm', hx'⟩
      · cases h
        have := hi.behind hf _ s' pos' len' hm'
        omega
    · cases h
  · rcases hmem m hm with hm | rfl
    · exact hi.known m hm ho
    · exact hc
  · rcases hmem _ hm with hm | h
    · exact hold.behind hf d s pos len hm
    · cases h
  · by_cases h : d = c
    · subst h
      simp only [Gateway.refuse, Gateway.addLog, Gateway.setClient_clients, Function.update_self,
        hb, hn]
      exact ⟨hhead, none, _, List.mem_cons_self, Nat.add_pos_left hlen _⟩
    · obtain ⟨s, pos, len, hm⟩ := refused_iff.mp hd
      rcases hmem _ hm with hm | h'
      · obtain ⟨hhead', s', len', hm', hlen'⟩ := hold.pending hf d (refused_iff.mpr ⟨s, pos, len, hm⟩)
        exact ⟨hhead', s', len', List.mem_cons_of_mem _ hm', hlen'⟩
      · cases h'
        exact absurd rfl h

theorem Kept.accept (hi : Kept g) (hf : g.fault = none) (hc : c < g.clientCount)
    (hr : g.refused c = false) : Kept (g.accept c targetAddr) := by
  have hsame : SameRequests g (g.borrowConnection targetAddr).2 := by
    refine ⟨Gateway.borrowConnection_fault, Gateway.borrowConnection_clientCount, fun d => ?_,
      fun d => ?_, fun d h => ?_, fun m _ => ?_⟩
    · rw [Gateway.borrowConnection_clients]
    · rw [Gateway.borrowConnection_clients]
    · rwa [Gateway.borrowConnection_clients] at h
    · rw [Gateway.borrowConnection_log]
  have hclients := Gateway.borrowConnection_clients (g := g) (a := targetAddr)
  have hlog := Gateway.borrowConnection_log (g := g) (a := targetAddr)
  simp only [Gateway.accept]
  obtain ⟨hn, -, t, ht, he⟩ := Link.forwardHead_advances {
    conn := { (g.borrowConnection targetAddr).2.clients c with
      context := ((g.borrowConnection targetAddr).2.clients c).context.BoundRClient
        (g.borrowConnection targetAddr).1 }
    remote := ((g.borrowConnection targetAddr).2.remotes (g.borrowConnection targetAddr).1).bindClient
      c ((g.borrowConnection targetAddr).2.clients c).context.parser_.request.method }
  refine (hi.sameRequests hsame).setLink (hsame.fault.trans hf) (hsame.clientCount ▸ hc) hn ?_ ?_
  · intro e hm
    rw [ht, List.append_nil] at hm
    exact he e hm
  · intro h
    simp only [Gateway.refused, hlog] at h
    exact absurd (hr.symm.trans h) Bool.false_ne_true

theorem Kept.nullCall (hi : Kept g) (hc : c < g.clientCount)
    (hr : g.refused c = true → (g.clients c).context.parser_.bytesRemaining = 0) :
    Kept (g.nullCall c) := by
  refine ⟨fun d x => ?_, fun m hm ho => ?_, hi.alive, nofun, nofun⟩
  · rintro ⟨s, pos, len, hm, hx⟩ ⟨s', pos', len', hm', hx'⟩
    rcases List.mem_cons.mp hm with h | hm
    · cases h
    · rcases List.mem_cons.mp hm' with h | hm'
      · cases h
        rw [hr (refused_iff.mpr ⟨s, pos, len, hm⟩), Nat.min_zero] at hx'
        omega
      · exact hi.disjoint d x ⟨s, pos, len, hm, hx⟩ ⟨s', pos', len', hm', hx'⟩
  · rcases List.mem_cons.mp hm with rfl | hm
    · exact hc
    · exact hi.known m hm ho

theorem Kept.onMessage (hi : Kept g) (hf : g.fault = none) (hc : c < g.clientCount)
    (h : g.staysRefused c now) : Kept (LB_Server.onMessage g c now) := by
  simp only [Gateway.staysRefused] at h
  simp only [LB_Server.onMessage]
  split
  · rename_i hbody
    simp only [hbody, if_true] at h
    split
    · rename_i r _
      obtain ⟨hn, -, t, ht, he⟩ := Link.forwardBody_advances (g.link c r)
      have ht : (g.link c r).forwardBody.trace = t := ht.trans (List.append_nil t)
      refine hi.setLink hf hc hn (ht ▸ he) fun hr => ?_
      obtain ⟨hcons, hbuf, u, hu, he'⟩ := Link.forwardBody_none (l := g.link c r) (h hr)
      have hu : (g.link c r).forwardBody.trace = u := hu.trans (List.append_nil u)
      exact ⟨hcons, hbuf, hu ▸ he'⟩
    · exact hi.nullCall hc h
  · rename_i hbody
    simp only [hbody] at h
    cases hp : (g.clients c).parseRequest with
    | mk parsed conn =>
      obtain ⟨ha, hn, hiff⟩ := Client.parseRequest_kept hp
      rw [hp] at h
      cases parsed with
      | true =>
        obtain ⟨hbuf, hcons, hlen⟩ := Client.parseRequest_parsed hp
        have hset := hi.setClient (g.lb.judge conn.context conn.inputBuffer_ now).1
          hbuf hcons ha
        simp only [if_true, Gateway.setClient]
        split
        · refine hset.refuse hf hc ?_ ?_
          · simpa [hbuf] using hiff
          · simpa using hlen
        · rename_i hv
          refine hset.accept hf hc (Bool.eq_false_iff.mpr fun hr => ?_)
          have := h hr rfl
          simp [hv, Verdict.isRefuse] at this
      | false =>
        refine hi.discard hf (Bool.eq_false_iff.mpr fun hr => ?_) hn ha
        exact absurd (hiff.mpr (hi.pending hf c hr).1) Bool.false_ne_true

-- ---------------------------------------------------------------------------
-- Runs
-- ---------------------------------------------------------------------------

theorem Kept.acceptClient (hi : Kept g) : Kept
    { g.setClient g.clientCount conn with clientCount := g.clientCount + 1 } where
  disjoint := hi.disjoint
  known m hm ho := Nat.lt_succ_of_lt (hi.known m hm ho)
  alive d h := by
    by_cases hd : d = g.clientCount
    · exact hd ▸ Nat.lt_succ_self _
    · exact Nat.lt_succ_of_lt (hi.alive d (by simpa [hd] using h))
  behind hf d r pos len hm := by
    have hd : d ≠ g.clientCount := (hi.known _ hm rfl).ne
    simpa [hd] using hi.behind hf d r pos len hm
  pending hf d hr := by
    obtain ⟨r, pos, len, hm⟩ := refused_iff.mp hr
    have hd : d ≠ g.clientCount := (hi.known _ hm rfl).ne
    simpa [hd] using hi.pending hf d hr

theorem kept_step (hi : Kept g) (hc : StaysRefused g e) (hs : step g e = some g') : Kept g' := by
  simp only [step, Option.ite_none_right_eq_some] at hs
  obtain ⟨hf, hs⟩ := hs
  by_cases he : e.reads = true
  · cases e with
    | accept =>
      cases hs
      exact hi.acceptClient
    | clientRead c data now =>
      simp only [Gateway.stepOk, Option.ite_none_right_eq_some, Option.some.injEq] at hs
      obtain ⟨⟨hopen, -⟩, rfl⟩ := hs
      simp only [Client.open_, Bool.and_eq_true] at hopen
      exact hi.read.onMessage hf (hi.alive c hopen.1) hc
    | backendRead r data =>
      simp only [Gateway.stepOk, Option.ite_none_right_eq_some, Option.some.injEq] at hs
      obtain ⟨-, rfl⟩ := hs
      split
      · exact (hi.sameRequests sameRequests_setRemote).sameRequests sameRequests_onMessage
      · exact hi.sameRequests sameRequests_setRemote
    | _ => cases he
  · exact hi.sameRequests (untouched_of_step hs (Bool.eq_false_iff.mpr he)).sameRequests

theorem kept_reach (h : Reach step StaysRefused { lb } g) : Kept g :=
  h.invariant (kept_init lb) fun _ _ _ hi hc hs => kept_step hi hc hs

theorem ret_nil : ¬ 0 < ret (phr_parse_request []) := by decide

theorem accept_log : g.log ⊆ (g.accept c targetAddr).log := by
  simp only [Gateway.accept, Gateway.setLink_log, Gateway.borrowConnection_log]
  exact List.subset_append_right _ _

theorem accept_first (targetAddr : Bytes) (hb : (g.clients c).inputBuffer_ ≠ [])
    (hlen : 0 < (g.clients c).context.parser_.headerLen) : ∃ r len, 0 < len ∧
      ⟨c, r, .forwarded (g.clients c).consumed len⟩ ∈ (g.accept c targetAddr).log := by
  have hclients := Gateway.borrowConnection_clients (g := g) (a := targetAddr)
  obtain ⟨len, hpos, hm⟩ := Link.forwardHead_first (l := {
    conn := { g.clients c with
      context := (g.clients c).context.BoundRClient (g.borrowConnection targetAddr).1 }
    remote := ((g.borrowConnection targetAddr).2.remotes (g.borrowConnection targetAddr).1).bindClient
      c (g.clients c).context.parser_.request.method }) hb hlen
  refine ⟨some (g.borrowConnection targetAddr).1, len, hpos, ?_⟩
  simp only [Gateway.accept, Gateway.setLink_log, hclients]
  exact List.mem_append_left _ (List.mem_map.mpr ⟨_, hm, rfl⟩)

/-- A read that breaks the condition forwards the first byte of the request refused last. -/
theorem refused_forwarded (h : Reach step StaysRefused { lb } g) (hc : ¬ StaysRefused g e)
    (hs : step g e = some g') : ¬ NoRefusedByte g'.log := by
  have hi := kept_reach h
  simp only [step, Option.ite_none_right_eq_some] at hs
  obtain ⟨hf, hs⟩ := hs
  cases e with
  | clientRead c data now =>
    simp only [Gateway.stepOk, Option.ite_none_right_eq_some, Option.some.injEq] at hs
    obtain ⟨-, rfl⟩ := hs
    have hi : Kept (g.read c data) := hi.read
    have hf : (g.read c data).fault = none := hf
    simp only [StaysRefused] at hc
    generalize g.read c data = t at *
    simp only [Gateway.staysRefused, Classical.not_imp] at hc
    obtain ⟨hr, hc⟩ := hc
    obtain ⟨hhead, s, len, hm, hlen⟩ := hi.pending hf c hr
    have hbuf : (t.clients c).inputBuffer_ ≠ [] := fun h => ret_nil (h ▸ hhead)
    -- the byte at the read position is in the refused request, and is forwarded
    suffices hsuff : t.log ⊆ (LB_Server.onMessage t c now).log ∧ ∃ r len, 0 < len ∧
        ⟨c, r, .forwarded (t.clients c).consumed len⟩ ∈ (LB_Server.onMessage t c now).log by
      obtain ⟨hsub, r, len', hlen', hm'⟩ := hsuff
      intro hno
      exact hno c (t.clients c).consumed ⟨s, _, len, hsub hm, le_rfl, by omega⟩
        ⟨r, _, len', hm', le_rfl, by omega⟩
    simp only [LB_Server.onMessage]
    split
    · rename_i hbody
      simp only [hbody, if_true] at hc
      split
      · rename_i r _
        obtain ⟨len', hlen', hm'⟩ := Link.forwardBody_first (l := t.link c r) hbuf hc
        exact ⟨List.subset_append_right _ _, some r, len', hlen',
          List.mem_append_left _ (List.mem_map.mpr ⟨_, hm', rfl⟩)⟩
      · refine ⟨List.subset_cons_self _ _, none, _, ?_, List.mem_cons_self⟩
        have hpos := List.length_pos_iff.mpr hbuf
        omega
    · rename_i hbody
      simp only [hbody] at hc
      cases hp : (t.clients c).parseRequest with
      | mk parsed conn =>
        obtain ⟨ha, hn, hiff⟩ := Client.parseRequest_kept hp
        obtain rfl := hiff.mpr hhead
        obtain ⟨hbuf', hcons, hlen'⟩ := Client.parseRequest_parsed hp
        simp only [hp, if_false, Classical.not_imp, Bool.false_eq_true] at hc
        simp only [if_true, Gateway.setClient_lb]
        have hw : ∃ w : Gateway, w = { t.setClient c conn with
            lb := (t.lb.judge conn.context conn.inputBuffer_ now).1 } ∧ w.clients c = conn ∧
              w.log = t.log := ⟨_, rfl, by simp, rfl⟩
        obtain ⟨w, hw, hwc, hwl⟩ := hw
        rw [← hw]
        split
        · rename_i hv
          simp [hv, Verdict.isRefuse] at hc
        · rename_i targetAddr _
          have hfirst := accept_first (g := w) (c := c) targetAddr
            (by rwa [hwc, hbuf']) (by rwa [hwc])
          rw [hwc, hcons] at hfirst
          exact ⟨hwl ▸ accept_log, hfirst⟩
  | _ => exact absurd trivial hc

theorem refused_kept (h : Reach step StaysRefused { lb } g) : NoRefusedByte g.log :=
  (kept_reach h).disjoint

/-- A request for an unknown path in two reads, and one more read after the refusal. -/
def refusedRun : List Event :=
  [.accept, .clientRead 0 (ascii "GET /x HTTP/1.1\r\n") 0, .clientRead 0 (ascii "\r\n") 0,
    .clientRead 0 (ascii "GET /im HTTP/1.1\r\n\r\n") 0]

theorem refused_kept_twice : ∃ g, exec step StaysRefused { lb := unconfigured } refusedRun = some g ∧
    g.refused 0 = true ∧ NoRefusedByte g.log := by
  have hrun : (exec step StaysRefused { lb := unconfigured } refusedRun).any (·.refused 0) = true := by
    decide +kernel
  obtain ⟨g, hg, hr⟩ := (Option.any_eq_true _ _).mp hrun
  exact ⟨g, hg, hr, refused_kept (.of_exec hg)⟩

/-- A request with a body for an unknown path, behind one that a backend has. -/
def refusedBody : List Event :=
  [.accept, .clientRead 0 (ascii "GET /im HTTP/1.1\r\n\r\n") 0,
    .clientRead 0 (ascii "POST /x HTTP/1.1\r\nContent-Length: 4\r\n\r\n") 0,
    .clientRead 0 (ascii "body") 0]

theorem not_refused_kept : ¬ ∀ lb g, Reach step Always { lb } g → NoRefusedByte g.log := by
  intro h
  have hrun : (exec step Always { lb := unconfigured } refusedBody).any (fun g =>
      g.log.contains ⟨0, none, .refused 20 43⟩ && g.log.contains ⟨0, some 0, .forwarded 20 4⟩) := by
    decide +kernel
  obtain ⟨g, hg, hl⟩ := (Option.any_eq_true _ _).mp hrun
  simp only [Bool.and_eq_true, List.contains_iff_mem] at hl
  exact h _ g (.of_exec hg) 0 20 ⟨_, _, _, hl.1, by decide⟩ ⟨_, _, _, hl.2, by decide⟩

end VortexNet.L7
