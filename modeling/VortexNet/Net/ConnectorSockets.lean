import Mathlib.Data.List.Basic
import VortexNet.Net.Connector

/-!
# What becomes of the sockets of a connector

A socket that `connect()` creates is to be handed over or closed once, and not
closed while its `Channel` is in the poller. Four paths do not do this:
`stopInLoop` and the destructor drop the channel of an attempt and leave its
socket open, a refused `connect()` drops the channel of an older attempt in the
same way, and a success after `stop()` closes the socket of a registered channel.
-/

namespace VortexNet.Connector

open Systems (Reach Always exec)

def Log.disposes (fd : Nat) : Log → Bool
  | .handed fd' => fd' = fd
  | .closed fd' _ => fd' = fd
  | _ => false

def attempt (k : Connector) : List Nat := k.channel_.toList.map Channel.fd

/-- Every socket but those of `held` is disposed of, once, after its channel was removed. -/
structure Disposed (k : Connector) (held : List Nat) : Prop where
  once : ∀ fd, k.log.countP (Log.disposes fd) = if fd < k.sockets ∧ fd ∉ held then 1 else 0
  removed : ∀ fd registered, .closed fd registered ∈ k.log → registered = false

/-- No socket is left open but the one of the attempt under way. -/
def Accounted (k : Connector) : Prop := Disposed k k.attempt

def Errno.refused : Errno → Bool
  | .EAGAIN | .ECONNREFUSED | .ENETUNREACH => true
  | _ => false

def RefusedAlone (k : Connector) (savedErrno : Errno) : Prop :=
  savedErrno.refused = true → k.channel_ = none

/-- A success that `handleWrite` finds is still wanted, and someone takes it. -/
def SuccessTaken (k : Connector) (err : Errno) : Prop :=
  err = .zero → k.state_ = .kConnecting → k.connect_ = true ∧ k.newConnectionCallback_ = true

def Functor.Keeps (k : Connector) (savedErrno : Errno) : Functor → Prop
  | .startInLoop _ => k.connect_ = true → RefusedAlone k savedErrno
  | .stopInLoop _ => k.channel_ = none
  | .release | .errorCallback _ => True

def Timer.Keeps (k : Connector) (savedErrno : Errno) : Timer → Prop
  | .retry => RefusedAlone k savedErrno
  | .restart => k.connect_ = true → RefusedAlone k savedErrno

/-- The event takes none of the four paths. -/
def KeepsSockets (k : Connector) : Event → Prop
  | .start savedErrno => RefusedAlone k savedErrno
  | .startFrom | .stop | .restart => True
  | .functor savedErrno => ∀ functor ∈ k.pendingFunctors_.head?, functor.Keeps k savedErrno
  | .timer i savedErrno => ∀ timer ∈ k.timers[i]?, timer.2.Keeps k savedErrno
  | .handleEvent none (some err) => SuccessTaken k err
  | .handleEvent _ _ => True
  | .destroy => k.channel_ = none

instance (k : Connector) (savedErrno : Errno) : Decidable (RefusedAlone k savedErrno) :=
  inferInstanceAs (Decidable (_ → _))

instance (k : Connector) (err : Errno) : Decidable (SuccessTaken k err) :=
  inferInstanceAs (Decidable (_ → _ → _))

instance (k : Connector) (savedErrno : Errno) : DecidablePred (Functor.Keeps k savedErrno)
  | .startInLoop _ => inferInstanceAs (Decidable (_ → _))
  | .stopInLoop _ => inferInstanceAs (Decidable (_ = _))
  | .release | .errorCallback _ => .isTrue trivial

instance (k : Connector) (savedErrno : Errno) : DecidablePred (Timer.Keeps k savedErrno)
  | .retry => inferInstanceAs (Decidable (RefusedAlone _ _))
  | .restart => inferInstanceAs (Decidable (_ → _))

instance (k : Connector) : DecidablePred (KeepsSockets k)
  | .start _ => inferInstanceAs (Decidable (RefusedAlone _ _))
  | .startFrom | .stop | .restart => .isTrue trivial
  | .functor _ => inferInstanceAs (Decidable (∀ _ ∈ _, _))
  | .timer _ _ => inferInstanceAs (Decidable (∀ _ ∈ _, _))
  | .handleEvent none (some _) => inferInstanceAs (Decidable (SuccessTaken _ _))
  | .handleEvent none none | .handleEvent (some _) _ => .isTrue trivial
  | .destroy => inferInstanceAs (Decidable (_ = _))

/-- The account with the sockets of `held` open; only the attempt's channel is in the poller. -/
structure Tidy (k : Connector) (held : List Nat) : Prop where
  disposed : Disposed k held
  registered : ∀ fd ∈ k.registered, fd ∈ k.attempt
  created : ∀ fd ∈ held, fd < k.sockets

variable {k k' : Connector} {held : List Nat} {fd i stop : Nat} {err savedErrno : Errno}
  {channel : Channel} {start : Option Nat} {e : Event}

@[simp] theorem attempt_none (h : k.channel_ = none) : k.attempt = [] := by simp [attempt, h]

@[simp] theorem attempt_some (h : k.channel_ = some channel) : k.attempt = [channel.fd] := by
  simp [attempt, h]

-- ---------------------------------------------------------------------------
-- The account
-- ---------------------------------------------------------------------------

theorem Disposed.dispose (h : Disposed k (fd :: held)) (hfd : fd < k.sockets) (hnot : fd ∉ held)
    (hs : k'.sockets = k.sockets)
    (hl : k'.log = .handed fd :: k.log ∨ k'.log = .closed fd false :: k.log) : Disposed k' held := by
  constructor
  case once =>
    intro fd'
    have hcount : k'.log.countP (Log.disposes fd') =
        k.log.countP (Log.disposes fd') + if fd = fd' then 1 else 0 := by
      rcases hl with hl | hl
      all_goals
        rw [hl, List.countP_cons, Log.disposes]
        simp
    rw [hcount, h.once, hs]
    by_cases hfd' : fd = fd'
    · subst hfd'
      simp [hfd, hnot]
    · simp [hfd', Ne.symm hfd']
  case removed =>
    intro fd' registered hm
    rcases hl with hl | hl
    all_goals
      rw [hl] at hm
      rcases List.mem_cons.mp hm with hm | hm
      · cases hm
        try rfl
      · exact h.removed fd' registered hm

theorem Tidy.congr (h : Tidy k held) (hs : k'.sockets = k.sockets) (hl : k'.log = k.log)
    (hc : k'.channel_ = k.channel_) (hr : k'.registered = k.registered) : Tidy k' held where
  disposed := ⟨fun fd => by rw [hl, hs, h.disposed.once], by rw [hl]; exact h.disposed.removed⟩
  registered := by
    rw [hr, attempt, hc]
    exact h.registered
  created := by
    rw [hs]
    exact h.created

theorem Tidy.createNonblocking (h : Tidy k held) : Tidy k.createNonblocking (k.sockets :: held) where
  disposed := by
    constructor
    case once =>
      intro fd
      rw [Connector.createNonblocking, List.countP_cons, h.disposed.once]
      rcases Nat.lt_trichotomy fd k.sockets with hlt | rfl | hgt
      · simp [Log.disposes, hlt, Nat.ne_of_lt hlt, Nat.lt_succ_of_lt hlt]
      · simp [Log.disposes]
      · have hnot : ¬ fd < k.sockets + 1 := Nat.not_lt_of_le hgt
        simp [Log.disposes, Nat.not_lt_of_gt hgt, hnot]
    case removed =>
      intro fd registered hm
      rcases List.mem_cons.mp hm with hm | hm
      · cases hm
      · exact h.disposed.removed fd registered hm
  registered := h.registered
  created fd hfd := by
    rcases List.mem_cons.mp hfd with rfl | hfd
    · exact Nat.lt_succ_self _
    · exact Nat.lt_succ_of_lt (h.created fd hfd)

theorem Tidy.close (h : Tidy k (fd :: held)) (hnot : fd ∉ held) (hreg : fd ∉ k.registered) :
    Tidy (k.close fd) held where
  disposed := by
    refine h.disposed.dispose (h.created fd List.mem_cons_self) hnot rfl (Or.inr ?_)
    simp [Connector.close, hreg]
  registered := h.registered
  created fd' hfd' := h.created fd' (List.mem_cons_of_mem fd hfd')

theorem Tidy.dropChannel (h : Tidy k held) (hch : k.channel_ = some channel) :
    Tidy (k.dropChannel channel) held ∧ (k.dropChannel channel).registered = [] := by
  have hnone : (k.dropChannel channel).registered = [] := by
    refine List.filter_eq_nil_iff.mpr fun fd hfd => ?_
    have hmem := h.registered fd hfd
    rw [attempt_some hch] at hmem
    simp [List.mem_singleton.mp hmem]
  refine ⟨⟨⟨h.disposed.once, h.disposed.removed⟩, ?_, h.created⟩, hnone⟩
  rw [hnone]
  exact fun fd hfd => absurd hfd List.not_mem_nil

theorem Tidy.unregistered (h : Tidy k held) (hch : k.channel_ = none) : k.registered = [] := by
  refine List.eq_nil_iff_forall_not_mem.mpr fun fd hfd => ?_
  have hmem := h.registered fd hfd
  rw [attempt_none hch] at hmem
  exact absurd hmem List.not_mem_nil

theorem Tidy.not_accounted (h : Tidy k held) (hfd : fd ∈ held) (hnot : fd ∉ k.attempt) :
    ¬ Accounted k := by
  intro haccounted
  have hcount := haccounted.once fd
  rw [h.disposed.once, if_neg (by simp [hfd]), if_pos ⟨h.created fd hfd, hnot⟩] at hcount
  exact absurd hcount (by decide)

/-- Between two events the open socket is the attempt's. -/
abbrev Settled (k : Connector) : Prop := Tidy k k.attempt

def Decides (keeps : Prop) (k' : Connector) : Prop :=
  keeps ∧ Settled k' ∨ ¬ keeps ∧ ¬ Accounted k'

theorem Decides.settled (h : Settled k') : Decides True k' := Or.inl ⟨trivial, h⟩

theorem Decides.congr {p q : Prop} (h : Decides p k') (hpq : p ↔ q) : Decides q k' := by
  simpa only [Decides, hpq] using h

theorem Decides.imp {p q : Prop} (hq : ¬ p → Settled k') (h : p → Decides q k') :
    Decides (p → q) k' := by
  by_cases hp : p
  · simpa only [hp, true_implies] using h hp
  · exact Or.inl ⟨fun hp' => absurd hp' hp, hq hp⟩

/-- An operation that leaves no channel and disposes of nothing more loses the attempt's socket. -/
theorem Tidy.decides_none (h : Tidy k' k.attempt) (hch : k'.channel_ = none) :
    Decides (k.channel_ = none) k' := by
  cases hold : k.channel_ with
  | none =>
    rw [attempt_none hold] at h
    refine Or.inl ⟨rfl, ?_⟩
    rw [Settled, attempt_none hch]
    exact h
  | some channel =>
    rw [attempt_some hold] at h
    refine Or.inr ⟨Option.some_ne_none _, h.not_accounted List.mem_cons_self ?_⟩
    rw [attempt_none hch]
    exact List.not_mem_nil

-- ---------------------------------------------------------------------------
-- The functions of the connector
-- ---------------------------------------------------------------------------

theorem Tidy.connecting (h : Tidy k (fd :: k.attempt)) (hnot : fd ∉ k.attempt) :
    Settled (k.connecting fd start) := by
  -- What is left of the old attempt before the new channel is made.
  have enroll : ∀ k : Connector, Tidy k [fd] → k.registered = [] →
      Settled { k with channel_ := some ⟨fd, start⟩, registered := fd :: k.registered } := by
    intro k h hreg
    exact ⟨⟨h.disposed.once, h.disposed.removed⟩, by simp [attempt, hreg], h.created⟩
  cases hch : k.channel_ with
  | none =>
    rw [attempt_none hch] at h
    simp only [Connector.connecting, hch]
    refine enroll { k with state_ := .kConnecting } (h.congr rfl rfl rfl rfl) ?_
    exact h.unregistered hch
  | some channel =>
    rw [attempt_some hch] at h hnot
    simp only [Connector.connecting, hch]
    let k₁ : Connector := { k with state_ := .kConnecting }
    have h₁ : Tidy k₁ [channel.fd, fd] :=
      { disposed := ⟨fun fd' => by simpa [and_comm] using h.disposed.once fd', h.disposed.removed⟩
        registered := h.registered
        created := by simpa [and_comm] using h.created }
    obtain ⟨hdrop, hreg⟩ := h₁.dropChannel (show k₁.channel_ = some channel from hch)
    refine enroll _ (hdrop.close ?_ ?_) hreg
    · intro hmem
      exact hnot (by simpa [eq_comm] using hmem)
    · rw [hreg]
      exact List.not_mem_nil

theorem retry_channel : (k.retry fd err).channel_ = none := by
  cases hch : k.channel_ with
  | none =>
    simp only [retry, hch]
    split
    · rfl
    · split
      · rfl
      · rfl
  | some channel =>
    simp only [retry, hch]
    split
    · rfl
    · split
      · rfl
      · rfl

theorem Tidy.retry (h : Tidy k (fd :: held)) (hnot : fd ∉ held) : Tidy (k.retry fd err) held := by
  -- The timer and the callback at the end leave the account.
  have last : ∀ k : Connector, Tidy k held → Tidy
      (if k.connect_ && k.retry_ then
        { k.runAfter k.retryDelayMs_ .retry with
          retryDelayMs_ := min (2 * k.retryDelayMs_) kMaxRetryDelayMs }
      else if !k.retry_ && k.errorCallback_ then k.queueInLoop (.errorCallback err)
      else k) held := by
    intro k h
    split
    · exact h.congr rfl rfl rfl rfl
    · split
      · exact h.congr rfl rfl rfl rfl
      · exact h
  cases hch : k.channel_ with
  | none =>
    have hreg : fd ∉ k.registered := by
      rw [h.unregistered hch]
      exact List.not_mem_nil
    simp only [Connector.retry, hch]
    refine last _ (Tidy.close ?_ hnot hreg)
    exact h.congr rfl rfl hch.symm rfl
  | some channel =>
    let k₁ : Connector := { k with state_ := .kDisconnected }
    have h₁ : Tidy k₁ (fd :: held) := h.congr rfl rfl rfl rfl
    obtain ⟨hdrop, hreg⟩ := h₁.dropChannel (show k₁.channel_ = some channel from hch)
    simp only [Connector.retry, hch]
    refine last _ (Tidy.close (hdrop.congr rfl rfl rfl rfl) hnot ?_)
    exact fun hmem => List.not_mem_nil (hreg ▸ hmem)

theorem Tidy.decides_connect (h : Settled k) :
    Decides (RefusedAlone k savedErrno) (k.connect start savedErrno) := by
  have hnew := h.createNonblocking
  have hnot : k.sockets ∉ k.attempt := fun hmem => Nat.lt_irrefl _ (h.created _ hmem)
  have hwell : ∀ k', savedErrno.refused = false → Settled k' →
      Decides (RefusedAlone k savedErrno) k' := fun k' hr hk' =>
    Or.inl ⟨fun hr' => absurd (hr.symm.trans hr') (by decide), hk'⟩
  have hrefused : savedErrno.refused = true →
      Decides (RefusedAlone k savedErrno) (k.createNonblocking.retry k.sockets savedErrno) := by
    intro hr
    simpa only [RefusedAlone, hr, true_implies] using
      (hnew.retry hnot).decides_none (k := k) retry_channel
  cases savedErrno with
  | zero => exact hwell _ rfl (hnew.connecting hnot)
  | EINPROGRESS => exact hwell _ rfl (hnew.connecting hnot)
  | EINTR => exact hwell _ rfl (hnew.connecting hnot)
  | EISCONN => exact hwell _ rfl (hnew.connecting hnot)
  | EAGAIN => exact hrefused rfl
  | ECONNREFUSED => exact hrefused rfl
  | ENETUNREACH => exact hrefused rfl
  | other errno =>
    refine hwell _ rfl (hnew.close hnot ?_)
    exact fun hmem => hnot (h.registered _ hmem)

theorem Tidy.decides_startInLoop (h : Settled k) :
    Decides (k.connect_ = true → RefusedAlone k savedErrno) (k.startInLoop start savedErrno) := by
  refine Decides.imp (fun hc => ?_) fun hc => ?_
  · rw [startInLoop, if_neg hc]
    exact h
  · rw [startInLoop, if_pos hc]
    exact h.decides_connect

theorem Tidy.decides_start (h : Settled k) :
    Decides (RefusedAlone k savedErrno) (k.start start savedErrno) :=
  Tidy.decides_connect (k := { k with connect_ := true }) (h.congr rfl rfl rfl rfl)

theorem Tidy.decides_stopInLoop (h : Settled k) :
    Decides (k.channel_ = none) (k.stopInLoop stop) := by
  cases hch : k.channel_ with
  | none =>
    rw [stopInLoop_none stop hch]
    exact Or.inl ⟨rfl, h.congr rfl rfl rfl rfl⟩
  | some channel =>
    let k₁ : Connector := { k with state_ := .kDisconnected }
    have h₁ : Tidy k₁ k.attempt := h.congr rfl rfl rfl rfl
    obtain ⟨hdrop, -⟩ := h₁.dropChannel (show k₁.channel_ = some channel from hch)
    rw [stopInLoop_some stop hch, ← hch]
    refine Tidy.decides_none ⟨⟨fun fd => ?_, fun fd registered hm => ?_⟩, hdrop.registered,
      hdrop.created⟩ rfl
    · exact hdrop.disposed.once fd
    · rcases List.mem_cons.mp hm with hm | hm
      · cases hm
      · exact hdrop.disposed.removed fd registered hm

theorem Tidy.decides_destroy (h : Settled k) : Decides (k.channel_ = none) k.destroy := by
  cases hch : k.channel_ with
  | none =>
    rw [destroy_none hch]
    exact Or.inl ⟨rfl, h.congr rfl rfl rfl rfl⟩
  | some channel =>
    obtain ⟨hdrop, -⟩ := h.dropChannel hch
    rw [destroy_some hch, ← hch]
    exact Tidy.decides_none (hdrop.congr rfl rfl rfl rfl) rfl

theorem Tidy.decides_success (h : Settled k) (hch : k.channel_ = some channel)
    (hreg : channel.fd ∈ k.registered) (hstate : k.state_ = .kConnecting) :
    Decides (k.connect_ = true ∧ k.newConnectionCallback_ = true)
      (k.handleWrite channel .zero).1 := by
  have hheld : Tidy { k with state_ := .kConnected } [channel.fd] := by
    rw [← attempt_some hch]
    exact h.congr rfl rfl rfl rfl
  cases hc : k.connect_ with
  | false =>
    refine Or.inr ⟨by simp, fun haccounted => ?_⟩
    have hclosed : Log.closed channel.fd true ∈ (k.handleWrite channel .zero).1.log := by
      simp [handleWrite, hstate, hc, Connector.close, hreg]
    exact absurd (haccounted.removed _ _ hclosed) (by decide)
  | true =>
    obtain ⟨hdrop, hnone⟩ := hheld.dropChannel hch
    cases hcb : k.newConnectionCallback_ with
    | false =>
      have hafter : (k.handleWrite channel .zero).1 =
          ({ k with state_ := .kConnected }.dropChannel channel).queueInLoop .release := by
        simp [handleWrite, hstate, hc, hcb, Connector.queueInLoop, Connector.dropChannel]
      rw [hafter]
      refine Or.inr ⟨by simp, Tidy.not_accounted (hdrop.congr rfl rfl rfl rfl)
        List.mem_cons_self ?_⟩
      rw [attempt_none rfl]
      exact List.not_mem_nil
    | true =>
      have hafter : (k.handleWrite channel .zero).1 =
          { ({ k with state_ := .kConnected }.dropChannel channel).queueInLoop .release with
            log := .handed channel.fd :: k.log } := by
        simp [handleWrite, hstate, hc, hcb, Connector.queueInLoop, Connector.dropChannel]
      rw [hafter]
      refine Or.inl ⟨⟨rfl, rfl⟩, ?_, ?_, ?_⟩
      · exact hdrop.disposed.dispose (hdrop.created _ List.mem_cons_self) List.not_mem_nil rfl
          (Or.inl rfl)
      · exact fun fd hfd => absurd (hnone ▸ hfd) List.not_mem_nil
      · exact fun fd hfd => absurd hfd List.not_mem_nil

theorem Tidy.decides_handleWrite (h : Settled k) (hch : k.channel_ = some channel)
    (hreg : channel.fd ∈ k.registered) :
    Decides (SuccessTaken k err) (k.handleWrite channel err).1 := by
  refine Decides.imp (fun herr => ?_) fun herr => Decides.imp (fun hstate => ?_) fun hstate => ?_
  · rw [handleWrite]
    split
    · exact h
    · show Settled (k.retry channel.fd err)
      rw [Settled, attempt_none retry_channel]
      refine Tidy.retry ?_ List.not_mem_nil
      rw [← attempt_some hch]
      exact h
  · rw [handleWrite, if_pos hstate]
    exact h
  · subst herr
    exact h.decides_success hch hreg hstate

theorem retry_state : (k.retry fd err).state_ = .kDisconnected := by
  cases hch : k.channel_ with
  | none =>
    simp only [retry, hch]
    split
    · rfl
    · split
      · rfl
      · rfl
  | some channel =>
    simp only [retry, hch]
    split
    · rfl
    · split
      · rfl
      · rfl

/-- After `handleError` the write event is not looked at. -/
theorem handleEvent_error (write : Option Errno) :
    (k.handleEvent channel (some err) write).1 = k.retry channel.fd err := by
  cases write with
  | none => rfl
  | some err' =>
    rw [handleEvent, handleWrite, if_pos]
    · rfl
    · simp [handleError, retry_state]

theorem Tidy.decides_handleEvent (h : Settled k) (hch : k.channel_ = some channel)
    (hreg : channel.fd ∈ k.registered) (error write : Option Errno) :
    Decides (KeepsSockets k (.handleEvent error write)) (k.handleEvent channel error write).1 := by
  cases error with
  | some err =>
    rw [handleEvent_error]
    refine Decides.settled ?_
    rw [Settled, attempt_none retry_channel]
    refine Tidy.retry ?_ List.not_mem_nil
    rw [← attempt_some hch]
    exact h
  | none => cases write with
    | none => exact Decides.settled h
    | some err => exact h.decides_handleWrite hch hreg

-- ---------------------------------------------------------------------------
-- Runs
-- ---------------------------------------------------------------------------

theorem Tidy.decides_functor (h : Settled k) (functor : Functor) :
    Decides (functor.Keeps k savedErrno) (functor.run k savedErrno) := by
  cases functor with
  | startInLoop start => exact h.decides_startInLoop
  | stopInLoop stop => exact h.decides_stopInLoop
  | release => exact Decides.settled h
  | errorCallback err => exact Decides.settled h

theorem Tidy.decides_timer (h : Settled k) (timer : Timer) :
    Decides (timer.Keeps k savedErrno) (timer.run k savedErrno) := by
  cases timer with
  | retry => exact h.decides_start
  | restart => exact h.decides_startInLoop

/-- One event keeps the account exactly when it takes none of the four paths. -/
theorem Tidy.decides_step (h : Settled k) (hs : step k e = some k') :
    Decides (KeepsSockets k e) k' := by
  rw [step] at hs
  split at hs
  · cases hs
  · obtain ⟨⟨after, handed⟩, hlive, rfl⟩ := Option.map_eq_some_iff.mp hs
    cases e with
    | start savedErrno =>
      cases hlive
      exact Tidy.decides_start (k := k.command .start) (h.congr rfl rfl rfl rfl)
    | startFrom =>
      cases hlive
      exact Decides.settled (h.congr rfl rfl rfl rfl)
    | stop =>
      cases hlive
      exact Decides.settled (h.congr rfl rfl rfl rfl)
    | restart =>
      cases hlive
      exact Decides.settled (h.congr rfl rfl rfl rfl)
    | functor savedErrno =>
      cases hf : k.pendingFunctors_ with
      | nil => simp [stepLive, hf] at hlive
      | cons functor functors =>
        simp only [stepLive, hf, Option.some.injEq, Prod.mk.injEq] at hlive
        rw [← hlive.1]
        have hkeeps : KeepsSockets k (.functor savedErrno) ↔
            functor.Keeps { k with pendingFunctors_ := functors } savedErrno := by
          simp only [KeepsSockets, hf, List.head?_cons, Option.mem_some_iff, forall_eq']
          cases functor with
          | _ => exact Iff.rfl
        have hrest : Settled { k with pendingFunctors_ := functors } := h.congr rfl rfl rfl rfl
        exact (hrest.decides_functor functor).congr hkeeps.symm
    | timer i savedErrno =>
      cases ht : k.timers[i]? with
      | none => simp [stepLive, ht] at hlive
      | some timer =>
        simp only [stepLive, ht, Option.some.injEq, Prod.mk.injEq] at hlive
        rw [← hlive.1]
        have hkeeps : KeepsSockets k (.timer i savedErrno) ↔
            timer.2.Keeps { k with timers := k.timers.eraseIdx i } savedErrno := by
          simp only [KeepsSockets, ht, Option.mem_some_iff, forall_eq']
          cases timer.2 with
          | _ => exact Iff.rfl
        have hrest : Settled { k with timers := k.timers.eraseIdx i } := h.congr rfl rfl rfl rfl
        exact (hrest.decides_timer timer.2).congr hkeeps.symm
    | handleEvent error write =>
      cases hch : k.channel_ with
      | none => simp [stepLive, hch] at hlive
      | some channel =>
        simp only [stepLive, hch] at hlive
        split at hlive
        · rename_i hreg
          have hafter := Option.some.inj hlive
          rw [← congrArg Prod.fst hafter]
          exact h.decides_handleEvent hch hreg error write
        · cases hlive
    | destroy =>
      simp only [stepLive] at hlive
      split at hlive
      · cases hlive
      · cases hlive
        exact h.decides_destroy

theorem Tidy.step_iff (h : Settled k) (hs : step k e = some k') :
    Accounted k' ↔ KeepsSockets k e := by
  rcases h.decides_step hs with ⟨hkeeps, hk'⟩ | ⟨hkeeps, hk'⟩
  · exact iff_of_true hk'.disposed hkeeps
  · exact iff_of_false hk' hkeeps

end VortexNet.Connector
