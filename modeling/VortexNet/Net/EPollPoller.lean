import Mathlib.Logic.Function.Basic
import VortexNet.Lib.Reach

/-!
# The poller and the kernel's interest list

`EPollPoller.cc` and the interest of a `Channel`: each channel's `index_` says
whether the poller knows it and whether the kernel watches its descriptor.
`epoll` is the kernel's side, the event that `epoll_ctl` last stored for a
descriptor.

`updateChannel` adds a channel whose index is not `kAdded` without looking at
its interest, so disabling the last event of a channel that is not added
registers it with no events.
-/

namespace VortexNet

open Systems (Reach Always exec)

namespace EPollPoller

abbrev Events := BitVec 32

def EPOLLIN : Events := 1
def EPOLLPRI : Events := 2
def EPOLLOUT : Events := 4

def kNoneEvent : Events := 0
def kReadEvent : Events := EPOLLIN ||| EPOLLPRI
def kWriteEvent : Events := EPOLLOUT

inductive Index
  | kNew
  | kAdded
  | kDeleted
  deriving DecidableEq

structure Channel where
  fd_ : Nat
  events_ : Events
  index_ : Index
  deriving DecidableEq

inductive Operation
  | EPOLL_CTL_ADD
  | EPOLL_CTL_MOD
  | EPOLL_CTL_DEL
  deriving DecidableEq

end EPollPoller

structure EPollPoller (κ : Type) where
  channel : κ → EPollPoller.Channel
  channels_ : Nat → Option κ
  epoll : Nat → Option (EPollPoller.Events × κ)

namespace EPollPoller

variable {κ : Type} [DecidableEq κ]

/-- Channels that have been constructed on their descriptors. -/
def init (fd : κ → Nat) : EPollPoller κ where
  channel c := ⟨fd c, kNoneEvent, .kNew⟩
  channels_ _ := none
  epoll _ := none

def set_index (p : EPollPoller κ) (c : κ) (idx : Index) : EPollPoller κ :=
  { p with channel := Function.update p.channel c { p.channel c with index_ := idx } }

/-- `::epoll_ctl`: `none` is -1, for a descriptor that is registered already, or not yet. -/
def epoll_ctl (p : EPollPoller κ) (operation : Operation) (fd : Nat) (ev : Events × κ) :
    Option (EPollPoller κ) :=
  match operation, p.epoll fd with
  | .EPOLL_CTL_ADD, none => some { p with epoll := Function.update p.epoll fd (some ev) }
  | .EPOLL_CTL_MOD, some _ => some { p with epoll := Function.update p.epoll fd (some ev) }
  | .EPOLL_CTL_DEL, some _ => some { p with epoll := Function.update p.epoll fd none }
  | _, _ => none

/-- A failed `EPOLL_CTL_DEL` is logged; after any other failure `LOG_FATAL` exits: `none`. -/
def update (p : EPollPoller κ) (operation : Operation) (c : κ) : Option (EPollPoller κ) :=
  match p.epoll_ctl operation (p.channel c).fd_ ((p.channel c).events_, c) with
  | some p => some p
  | none => if operation = .EPOLL_CTL_DEL then some p else none

def updateChannel (p : EPollPoller κ) (c : κ) : Option (EPollPoller κ) :=
  let index := (p.channel c).index_
  if index = .kNew ∨ index = .kDeleted then
    let p := if index = .kNew then
      { p with channels_ := Function.update p.channels_ (p.channel c).fd_ (some c) } else p
    (p.set_index c .kAdded).update .EPOLL_CTL_ADD c
  else if (p.channel c).events_ = kNoneEvent then
    (p.update .EPOLL_CTL_DEL c).map fun p => p.set_index c .kDeleted
  else p.update .EPOLL_CTL_MOD c

def removeChannel (p : EPollPoller κ) (c : κ) : Option (EPollPoller κ) := do
  let index := (p.channel c).index_
  let p := { p with channels_ := Function.update p.channels_ (p.channel c).fd_ none }
  let p ← if index = .kAdded then p.update .EPOLL_CTL_DEL c else some p
  return p.set_index c .kNew

-- ---------------------------------------------------------------------------
-- Channel
-- ---------------------------------------------------------------------------

/-- What the `enable` and `disable` functions share: new interest, then `update()`. -/
def setEvents (p : EPollPoller κ) (c : κ) (events_ : Events) : Option (EPollPoller κ) :=
  { p with channel := Function.update p.channel c { p.channel c with events_ } }.updateChannel c

inductive Call
  | enableReading
  | disableReading
  | enableWriting
  | disableWriting
  | disableAll
  deriving DecidableEq

def Call.events (events_ : Events) : Call → Events
  | .enableReading => events_ ||| kReadEvent
  | .disableReading => events_ &&& ~~~kReadEvent
  | .enableWriting => events_ ||| kWriteEvent
  | .disableWriting => events_ &&& ~~~kWriteEvent
  | .disableAll => kNoneEvent

inductive Event (κ : Type)
  | call (c : κ) (call : Call)
  | remove (c : κ)
  deriving DecidableEq

def step (p : EPollPoller κ) : Event κ → Option (EPollPoller κ)
  | .call c call => p.setEvents c (call.events (p.channel c).events_)
  | .remove c => p.removeChannel c

/-- The kernel's view, the poller's and the channels' are one. -/
structure Agrees (p : EPollPoller κ) : Prop where
  registered : ∀ c, (p.epoll (p.channel c).fd_).isSome ↔ (p.channel c).index_ = .kAdded
  events : ∀ c ev, p.epoll (p.channel c).fd_ = some ev → ev = ((p.channel c).events_, c)
  interest : ∀ c, (p.channel c).events_ = kNoneEvent → p.epoll (p.channel c).fd_ = none
  mapped : ∀ c, p.channels_ (p.channel c).fd_ = some c ↔ (p.channel c).index_ ≠ .kNew

/-- A call on a channel that is not added leaves it some interest. -/
def LeavesInterest (p : EPollPoller κ) : Event κ → Prop
  | .call c call => (p.channel c).index_ = .kAdded ∨ call.events (p.channel c).events_ ≠ kNoneEvent
  | .remove _ => True

-- ---------------------------------------------------------------------------
-- One call
-- ---------------------------------------------------------------------------

variable {p p' : EPollPoller κ} {c d : κ} {events_ : Events} {index_ : Index} {mapped : Option κ}
  {entry : Option (Events × κ)} {e : Event κ} {operation : Operation}

def Distinct (p : EPollPoller κ) : Prop := Function.Injective fun c => (p.channel c).fd_

/-- All that a call can write: one channel, and both sides' entries at its descriptor. -/
def put (p : EPollPoller κ) (c : κ) (events_ : Events) (index_ : Index) (mapped : Option κ)
    (entry : Option (Events × κ)) : EPollPoller κ where
  channel := Function.update p.channel c ⟨(p.channel c).fd_, events_, index_⟩
  channels_ := Function.update p.channels_ (p.channel c).fd_ mapped
  epoll := Function.update p.epoll (p.channel c).fd_ entry

theorem put_channel_self :
    (p.put c events_ index_ mapped entry).channel c = ⟨(p.channel c).fd_, events_, index_⟩ :=
  Function.update_self ..

theorem put_channel_of_ne (h : d ≠ c) :
    (p.put c events_ index_ mapped entry).channel d = p.channel d :=
  Function.update_of_ne h ..

theorem put_fd : ((p.put c events_ index_ mapped entry).channel d).fd_ = (p.channel d).fd_ := by
  by_cases h : d = c
  · subst h
    rw [put_channel_self]
  · rw [put_channel_of_ne h]

theorem Distinct.put (h : Distinct p) : Distinct (p.put c events_ index_ mapped entry) := by
  intro x y hxy
  simp only [put_fd] at hxy
  exact h hxy

theorem put_epoll_self : (p.put c events_ index_ mapped entry).epoll (p.channel c).fd_ = entry :=
  Function.update_self ..

theorem put_channels_self :
    (p.put c events_ index_ mapped entry).channels_ (p.channel c).fd_ = mapped :=
  Function.update_self ..

theorem Distinct.put_epoll (h : Distinct p) (hne : d ≠ c) :
    (p.put c events_ index_ mapped entry).epoll (p.channel d).fd_ = p.epoll (p.channel d).fd_ :=
  Function.update_of_ne (fun hfd => hne (h hfd)) ..

theorem Distinct.put_channels (h : Distinct p) (hne : d ≠ c) :
    (p.put c events_ index_ mapped entry).channels_ (p.channel d).fd_ =
      p.channels_ (p.channel d).fd_ :=
  Function.update_of_ne (fun hfd => hne (h hfd)) ..

theorem Agrees.put (h : Agrees p) (hd : Distinct p)
    (hregistered : entry.isSome ↔ index_ = .kAdded) (hevents : ∀ ev, entry = some ev → ev = (events_, c))
    (hinterest : events_ = kNoneEvent → entry = none) (hmapped : mapped = some c ↔ index_ ≠ .kNew) :
    Agrees (p.put c events_ index_ mapped entry) := by
  constructor <;> intro d <;> rw [put_fd]
  case registered =>
    by_cases hne : d = c
    · subst hne
      rwa [put_epoll_self, put_channel_self]
    · rw [hd.put_epoll hne, put_channel_of_ne hne]
      exact h.registered d
  case events =>
    by_cases hne : d = c
    · subst hne
      rwa [put_epoll_self, put_channel_self]
    · rw [hd.put_epoll hne, put_channel_of_ne hne]
      exact h.events d
  case interest =>
    by_cases hne : d = c
    · subst hne
      rwa [put_epoll_self, put_channel_self]
    · rw [hd.put_epoll hne, put_channel_of_ne hne]
      exact h.interest d
  case mapped =>
    by_cases hne : d = c
    · subst hne
      rwa [put_channels_self, put_channel_self]
    · rw [hd.put_channels hne, put_channel_of_ne hne]
      exact h.mapped d

theorem setEvents_add (h : Agrees p) (hi : (p.channel c).index_ ≠ .kAdded) :
    p.setEvents c events_ = some (p.put c events_ .kAdded (some c) (some (events_, c))) := by
  have hnone : p.epoll (p.channel c).fd_ = none := by
    cases he : p.epoll (p.channel c).fd_ with
    | none => rfl
    | some ev => exact absurd ((h.registered c).mp (he ▸ rfl)) hi
  cases hindex : (p.channel c).index_ with
  | kAdded => exact absurd hindex hi
  | kNew =>
    simp [setEvents, updateChannel, update, epoll_ctl, set_index, put, hindex, hnone]
  | kDeleted =>
    have hmapped : p.channels_ (p.channel c).fd_ = some c := (h.mapped c).mpr (by simp [hindex])
    simp [setEvents, updateChannel, update, epoll_ctl, set_index, put, hindex, hnone, ← hmapped]

theorem setEvents_added (h : Agrees p) (hi : (p.channel c).index_ = .kAdded) :
    p.setEvents c events_ = some (if events_ = kNoneEvent then
      p.put c events_ .kDeleted (some c) none else p.put c events_ .kAdded (some c) (some (events_, c))) := by
  obtain ⟨ev, hev⟩ := Option.isSome_iff_exists.mp ((h.registered c).mpr hi)
  have hmapped : p.channels_ (p.channel c).fd_ = some c := (h.mapped c).mpr (by simp [hi])
  by_cases h0 : events_ = kNoneEvent
  · simp [setEvents, updateChannel, update, epoll_ctl, set_index, put, hi, hev, h0, ← hmapped]
  · simp [setEvents, updateChannel, update, epoll_ctl, put, hi, hev, h0, ← hmapped]

theorem removeChannel_eq (h : Agrees p) : p.removeChannel c =
    some (p.put c (p.channel c).events_ .kNew none none) := by
  cases hindex : (p.channel c).index_ with
  | kAdded =>
    obtain ⟨ev, hev⟩ := Option.isSome_iff_exists.mp ((h.registered c).mpr hindex)
    simp [removeChannel, update, epoll_ctl, set_index, put, hindex, hev]
  | kNew | kDeleted =>
    have hnone : p.epoll (p.channel c).fd_ = none := by
      cases he : p.epoll (p.channel c).fd_ with
      | none => rfl
      | some ev => exact Index.noConfusion (hindex.symm.trans ((h.registered c).mp (he ▸ rfl)))
    simp [removeChannel, set_index, put, hindex, ← hnone]

omit [DecidableEq κ] in
theorem enable_leavesInterest (hcall : call = .enableReading ∨ call = .enableWriting) :
    LeavesInterest p (.call c call) := by
  have hor : ∀ m : Events, m ≠ kNoneEvent → (p.channel c).events_ ||| m ≠ kNoneEvent :=
    fun m hm h0 => hm (BitVec.or_eq_zero_iff.mp h0).2
  rcases hcall with rfl | rfl
  · exact .inr (hor kReadEvent (by decide))
  · exact .inr (hor kWriteEvent (by decide))

/-- No call fails where the views agree, and they still do exactly when it leaves interest. -/
theorem step_agrees (hd : Distinct p) (h : Agrees p) :
    ∃ p', step p e = some p' ∧ Distinct p' ∧ (Agrees p' ↔ LeavesInterest p e) := by
  cases e with
  | remove c =>
    refine ⟨_, removeChannel_eq h, hd.put, iff_of_true ?_ trivial⟩
    exact h.put hd (by simp) (by simp) (by simp) (by simp)
  | call c call =>
    by_cases hi : (p.channel c).index_ = .kAdded
    · refine ⟨_, setEvents_added h hi, ?_, iff_of_true ?_ (.inl hi)⟩
      · split <;> exact hd.put
      · split
        · exact h.put hd (by simp) (by simp) (by simp) (by simp)
        · rename_i h0
          exact h.put hd (by simp) (by simp) (fun hev => absurd hev h0) (by simp)
    · refine ⟨_, setEvents_add h hi, hd.put, ?_, ?_⟩
      · intro ha
        refine .inr fun h0 => ?_
        have hnone := ha.interest c (by rw [put_channel_self]; exact h0)
        rw [put_fd, put_epoll_self] at hnone
        cases hnone
      · intro hleaves
        have h0 := hleaves.resolve_left hi
        exact h.put hd (by simp) (by simp) (fun hev => absurd hev h0) (by simp)

-- ---------------------------------------------------------------------------
-- What a channel sees of a call
-- ---------------------------------------------------------------------------

def nextIndex (index : Index) (events_ : Events) : Index :=
  if index = .kNew ∨ index = .kDeleted then .kAdded
  else if events_ = kNoneEvent then .kDeleted else .kAdded

theorem nextIndex_ne_new (index : Index) (events_ : Events) : nextIndex index events_ ≠ .kNew := by
  unfold nextIndex
  split
  · exact nofun
  · split <;> exact nofun

omit [DecidableEq κ] in
theorem update_channel (h : p.update operation c = some p') : p'.channel = p.channel := by
  unfold update at h
  split at h
  · rename_i q hq
    cases h
    unfold epoll_ctl at hq
    split at hq <;> cases hq <;> rfl
  · split at h <;> cases h
    rfl

theorem setEvents_channel (h : p.setEvents c events_ = some p') :
    p'.channel c = ⟨(p.channel c).fd_, events_, nextIndex (p.channel c).index_ events_⟩ := by
  simp only [setEvents, updateChannel, Function.update_self] at h
  cases hindex : (p.channel c).index_ with
  | kNew | kDeleted =>
    rw [if_pos (by simp [hindex])] at h
    rw [update_channel h, set_index]
    split <;> simp [nextIndex, hindex]
  | kAdded =>
    rw [if_neg (by simp [hindex])] at h
    split at h
    · rename_i h0
      obtain ⟨q, hq, rfl⟩ := Option.map_eq_some_iff.mp h
      simp [set_index, update_channel hq, nextIndex, h0]
    · rename_i h0
      rw [update_channel h]
      simp [nextIndex, hindex, h0]

theorem removeChannel_channel (h : p.removeChannel c = some p') :
    p'.channel c = ⟨(p.channel c).fd_, (p.channel c).events_, .kNew⟩ := by
  cases hindex : (p.channel c).index_ with
  | kAdded =>
    simp only [removeChannel, hindex, if_true, Option.bind_eq_bind, Option.bind_eq_some_iff] at h
    obtain ⟨q, hq, hp'⟩ := h
    cases hp'
    simp [set_index, update_channel hq]
  | kNew | kDeleted =>
    simp only [removeChannel, hindex] at h
    cases h
    simp [set_index]

-- ---------------------------------------------------------------------------
-- Runs
-- ---------------------------------------------------------------------------

omit [DecidableEq κ] in
theorem init_agrees (fd : κ → Nat) : Agrees (init fd) where
  registered _ := by simp [init]
  events _ _ h := nomatch h
  interest _ _ := rfl
  mapped _ := by simp [init]

theorem registered_exactly {fd : κ → Nat} (hfd : Function.Injective fd)
    (h : Reach step LeavesInterest (init fd) p) : Agrees p ∧ ∀ e, (step p e).isSome := by
  have hinv : Distinct p ∧ Agrees p := by
    refine h.invariant (I := fun p => Distinct p ∧ Agrees p) ⟨hfd, init_agrees fd⟩ ?_
    rintro p e p' ⟨hd, ha⟩ hc hs
    obtain ⟨q, hq, hdq, hiff⟩ := step_agrees (e := e) hd ha
    cases hq.symm.trans hs
    exact ⟨hdq, hiff.mpr hc⟩
  refine ⟨hinv.2, fun e => ?_⟩
  obtain ⟨p', hp', -⟩ := step_agrees (e := e) hinv.1 hinv.2
  exact hp' ▸ rfl

instance (p : EPollPoller κ) (e : Event κ) : Decidable (LeavesInterest p e) :=
  match e with
  | .call _ _ => inferInstanceAs (Decidable (_ ∨ _))
  | .remove _ => .isTrue trivial

/-- Two channels, one of which loses its interest, is enabled again and removed. -/
def twoChannels : List (Event Nat) :=
  [.call 0 .enableReading, .call 1 .enableWriting, .call 0 .disableAll, .call 0 .enableReading,
    .call 0 .enableWriting, .call 0 .disableReading, .remove 0, .remove 0]

theorem registered_exactly_twoChannels : ∃ p,
    exec step LeavesInterest (init fun c : Nat => c + 5) twoChannels = some p ∧
      p.epoll 6 = some (kWriteEvent, 1) ∧ Agrees p := by
  have hrun : (exec step LeavesInterest (init fun c : Nat => c + 5) twoChannels).any (fun p =>
      p.epoll 6 = some (kWriteEvent, 1)) = true := by decide
  obtain ⟨p, hp, h6⟩ := (Option.any_eq_true _ _).mp hrun
  exact ⟨p, hp, of_decide_eq_true h6,
    (registered_exactly (fun _ _ => Nat.add_right_cancel) (.of_exec hp)).1⟩

/-- `disableAll` on a channel that was never added registers its descriptor. -/
theorem not_registered_exactly :
    ¬ ∀ p, Reach step Always (init fun c : Nat => c + 5) p → Agrees p := by
  intro h
  have hrun : (exec step Always (init fun c : Nat => c + 5) [.call 0 .disableAll]).any (fun p =>
      p.epoll 5 = some (kNoneEvent, 0) ∧ p.channel 0 = ⟨5, kNoneEvent, .kAdded⟩) = true := by decide
  obtain ⟨p, hp, hall⟩ := (Option.any_eq_true _ _).mp hrun
  obtain ⟨hepoll, hchannel⟩ := of_decide_eq_true hall
  have hnone := (h p (.of_exec hp)).interest 0
  rw [hchannel, hepoll] at hnone
  exact nomatch hnone rfl

end EPollPoller

end VortexNet
