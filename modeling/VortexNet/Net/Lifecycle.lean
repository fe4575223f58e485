import VortexNet.Lib.Reach
import VortexNet.Net.TcpConnection

/-!
# The callbacks of a connection, from its beginning to its end

`TcpConnection.cc` and `Channel::handleEventWithGuard`, as far as they decide
when a connection is reported up and down. A user's callback is the list of the
calls it makes. A call on another thread first looks at `state_` and sets it
later; a functor that it queues runs later still.

The down callback and the close callback find `kDisconnected`, where neither
`shutdown()` nor `forceClose()` does anything, so their calls are left out, and
so are the callbacks for errors and for writing, which leave `state_` as it is.
-/

namespace VortexNet.TcpConnection

open Systems (Reach Always exec)

inductive Call
  | shutdown
  | forceClose
  deriving DecidableEq

/-- `calling` are calls on other threads that have found the state they look for, and `closing` the
`forceCloseInLoop` in the loop's queue. The rest is outside the object: how often the connection was
reported up and down and closed, and whether `connectDestroyed` has run. -/
structure Lifecycle where
  state_ : StateE := .kConnecting
  calling : List Call := []
  closing : Nat := 0
  ups : Nat := 0
  downs : Nat := 0
  closes : Nat := 0
  destroyed : Bool := false
  deriving DecidableEq

structure Revents where
  EPOLLHUP : Bool := false
  EPOLLERR : Bool := false
  EPOLLIN : Bool := false
  EPOLLPRI : Bool := false
  EPOLLOUT : Bool := false
  deriving DecidableEq

/-- What `readFd` returns, with the calls of the message callback. -/
inductive Readable
  | bytes (calls : List Call)
  | eof
  | error
  deriving DecidableEq

namespace Lifecycle

def handleClose (c : Lifecycle) : Lifecycle :=
  { c with state_ := .kDisconnected, downs := c.downs + 1, closes := c.closes + 1 }

def finds (c : Lifecycle) : Call → Bool
  | .shutdown => c.state_ = .kConnected
  | .forceClose => c.state_ = .kConnected || c.state_ = .kDisconnecting

def forceCloseInLoop (c : Lifecycle) : Lifecycle :=
  if c.state_ = .kConnected ∨ c.state_ = .kDisconnecting then c.handleClose else c

/-- A call on the loop thread. -/
def call (c : Lifecycle) (call : Call) : Lifecycle :=
  if c.finds call then
    match call with
    | .shutdown => { c with state_ := .kDisconnecting }
    | .forceClose => { c with state_ := .kDisconnecting }.forceCloseInLoop
  else c

def connectEstablished (c : Lifecycle) (up : List Call) : Lifecycle :=
  up.foldl Lifecycle.call { c with state_ := .kConnected, ups := c.ups + 1 }

def connectDestroyed (c : Lifecycle) : Lifecycle :=
  let c := if c.state_ = .kConnected then
      { c with state_ := .kDisconnected, downs := c.downs + 1 }
    else c
  { c with destroyed := true }

def handleRead (c : Lifecycle) : Readable → Lifecycle
  | .bytes calls => calls.foldl Lifecycle.call c
  | .eof => c.handleClose
  | .error => c

def handleEventWithGuard (c : Lifecycle) (revents : Revents) (read : Readable) : Lifecycle :=
  let c := if revents.EPOLLHUP && !revents.EPOLLIN then c.handleClose else c
  if revents.EPOLLIN || revents.EPOLLPRI then c.handleRead read else c

-- ---------------------------------------------------------------------------
-- Runs
-- ---------------------------------------------------------------------------

inductive Event
  | connectEstablished (up : List Call)
  /-- Events of the channel, which may come after it was disabled, from the same poll. -/
  | handleEvent (revents : Revents) (read : Readable)
  | call (call : Call)
  /-- A call on another thread looks at the state, and later it sets it. -/
  | look (call : Call)
  | set (call : Call)
  | forceCloseInLoop
  | connectDestroyed
  deriving DecidableEq

def step (c : Lifecycle) : Event → Option Lifecycle
  | .connectEstablished up => if c.state_ = .kConnecting then some (c.connectEstablished up) else none
  | .handleEvent revents read =>
    if c.state_ = .kConnecting then none else some (c.handleEventWithGuard revents read)
  | .call call => some (c.call call)
  | .look call => if c.finds call then some { c with calling := call :: c.calling } else none
  | .set call =>
    if call ∈ c.calling then some { c with
      state_ := .kDisconnecting
      calling := c.calling.erase call
      closing := if call = .forceClose then c.closing + 1 else c.closing }
    else none
  | .forceCloseInLoop =>
    if 0 < c.closing then some { c with closing := c.closing - 1 }.forceCloseInLoop else none
  | .connectDestroyed => if c.state_ = .kConnecting then none else some c.connectDestroyed

-- ---------------------------------------------------------------------------
-- Once up, once down
-- ---------------------------------------------------------------------------

/-- Each callback runs once at most, and both have when the connection is destroyed. -/
structure CalledOnce (c : Lifecycle) : Prop where
  up : c.ups ≤ 1
  down : c.downs ≤ 1
  close : c.closes ≤ 1
  destroyed : c.destroyed = true → c.ups = 1 ∧ c.downs = 1

def hangsUp (revents : Revents) : Bool := revents.EPOLLHUP && !revents.EPOLLIN

def ends (revents : Revents) (read : Readable) : Bool :=
  (revents.EPOLLIN || revents.EPOLLPRI) && read = .eof

/-- A connection is closed by the channel only once, and not after it was closed; a call on another
thread does not set the state of a closed one; one that is shutting down is not destroyed. -/
def ClosesOnce (c : Lifecycle) : Event → Prop
  | .handleEvent revents read =>
    (hangsUp revents = true ∨ ends revents read = true → c.state_ ≠ .kDisconnected) ∧
      ¬ (hangsUp revents = true ∧ ends revents read = true)
  | .set _ => c.state_ ≠ .kDisconnected
  | .connectDestroyed => c.state_ ≠ .kDisconnecting
  | _ => True

instance (c : Lifecycle) : DecidablePred (ClosesOnce c)
  | .handleEvent _ _ => inferInstanceAs (Decidable ((_ → _) ∧ ¬ _))
  | .set _ | .connectDestroyed => inferInstanceAs (Decidable (_ ≠ _))
  | .connectEstablished _ | .call _ | .look _ | .forceCloseInLoop => .isTrue trivial

structure Staged (c : Lifecycle) : Prop where
  connecting : c.state_ = .kConnecting →
    c.ups = 0 ∧ c.downs = 0 ∧ c.closes = 0 ∧ c.destroyed = false ∧ c.calling = []
  up : c.state_ = .kConnected ∨ c.state_ = .kDisconnecting →
    c.ups = 1 ∧ c.downs = 0 ∧ c.closes = 0 ∧ c.destroyed = false
  down : c.state_ = .kDisconnected → c.ups = 1 ∧ c.downs = 1 ∧ c.closes ≤ 1

variable {c c' : Lifecycle} {e : Event}

theorem Staged.calledOnce (h : Staged c) : CalledOnce c := by
  obtain ⟨hconnecting, hup, hdown⟩ := h
  cases hs : c.state_ with
  | kConnecting =>
    obtain ⟨h1, h2, h3, h4, -⟩ := hconnecting hs
    exact ⟨by omega, by omega, by omega, fun h => Bool.noConfusion (h4.symm.trans h)⟩
  | kConnected =>
    obtain ⟨h1, h2, h3, h4⟩ := hup (.inl hs)
    exact ⟨by omega, by omega, by omega, fun h => Bool.noConfusion (h4.symm.trans h)⟩
  | kDisconnecting =>
    obtain ⟨h1, h2, h3, h4⟩ := hup (.inr hs)
    exact ⟨by omega, by omega, by omega, fun h => Bool.noConfusion (h4.symm.trans h)⟩
  | kDisconnected =>
    obtain ⟨h1, h2, h3⟩ := hdown hs
    exact ⟨by omega, by omega, h3, fun _ => ⟨h1, h2⟩⟩

theorem Staged.handleClose (h : Staged c)
    (hs : c.state_ = .kConnected ∨ c.state_ = .kDisconnecting) : Staged c.handleClose := by
  obtain ⟨h1, h2, h3, -⟩ := h.up hs
  refine ⟨nofun, fun h => by simp [Lifecycle.handleClose] at h, fun _ => ⟨h1, ?_, ?_⟩⟩
  · simp [Lifecycle.handleClose, h2]
  · simp [Lifecycle.handleClose, h3]

theorem Staged.disconnecting (h : Staged c)
    (hs : c.state_ = .kConnected ∨ c.state_ = .kDisconnecting) :
    Staged { c with state_ := .kDisconnecting } :=
  ⟨nofun, fun _ => h.up hs, nofun⟩

theorem Staged.forceCloseInLoop (h : Staged c) : Staged c.forceCloseInLoop := by
  unfold Lifecycle.forceCloseInLoop
  split
  · exact h.handleClose ‹_›
  · exact h

theorem finds_up {call : Call} (h : c.finds call = true) :
    c.state_ = .kConnected ∨ c.state_ = .kDisconnecting := by
  cases call with
  | shutdown => exact .inl (of_decide_eq_true h)
  | forceClose => simpa [finds] using h

theorem Staged.call (h : Staged c) (call : Call) : Staged (c.call call) := by
  unfold Lifecycle.call
  split
  · rename_i hfinds
    have hd := h.disconnecting (finds_up hfinds)
    cases call with
    | shutdown => exact hd
    | forceClose => exact hd.forceCloseInLoop
  · exact h

theorem Staged.calls (h : Staged c) (calls : List Call) : Staged (calls.foldl Lifecycle.call c) := by
  induction calls generalizing c with
  | nil => exact h
  | cons call calls ih => exact ih (h.call call)

theorem Staged.connectEstablished (h : Staged c) (hs : c.state_ = .kConnecting) (up : List Call) :
    Staged (c.connectEstablished up) := by
  obtain ⟨h1, h2, h3, h4, -⟩ := h.connecting hs
  have hfirst : Staged { c with state_ := .kConnected, ups := c.ups + 1 } :=
    ⟨nofun, fun _ => ⟨by simp [h1], h2, h3, h4⟩, nofun⟩
  exact hfirst.calls up

theorem Staged.connectDestroyed (h : Staged c) (hne : c.state_ ≠ .kConnecting)
    (hs : c.state_ ≠ .kDisconnecting) : Staged c.connectDestroyed := by
  unfold Lifecycle.connectDestroyed
  cases hst : c.state_ with
  | kConnecting => exact absurd hst hne
  | kDisconnecting => exact absurd hst hs
  | kConnected =>
    obtain ⟨h1, h2, h3, -⟩ := h.up (.inl hst)
    refine ⟨nofun, fun h => by simp at h, fun _ => ⟨h1, ?_, ?_⟩⟩
    · simp [h2]
    · simp [h3]
  | kDisconnected =>
    obtain ⟨h1, h2, h3⟩ := h.down hst
    refine ⟨fun h => ?_, fun h => ?_, fun _ => ⟨h1, h2, h3⟩⟩
    · simp [hst] at h
    · simp [hst] at h

theorem Staged.handleRead (h : Staged c) (read : Readable)
    (hs : read = .eof → c.state_ = .kConnected ∨ c.state_ = .kDisconnecting) :
    Staged (c.handleRead read) := by
  cases read with
  | bytes calls => exact h.calls calls
  | eof => exact h.handleClose (hs rfl)
  | error => exact h

theorem up_of_ne (hc : c.state_ ≠ .kConnecting) (hd : c.state_ ≠ .kDisconnected) :
    c.state_ = .kConnected ∨ c.state_ = .kDisconnecting := by
  cases hs : c.state_ with
  | kConnecting => exact absurd hs hc
  | kDisconnected => exact absurd hs hd
  | kConnected => exact .inl rfl
  | kDisconnecting => exact .inr rfl

theorem Staged.handleEvent (h : Staged c) (hne : c.state_ ≠ .kConnecting) {revents : Revents}
    {read : Readable} (hc : ClosesOnce c (.handleEvent revents read)) :
    Staged (c.handleEventWithGuard revents read) := by
  obtain ⟨hopen, honce⟩ := hc
  simp only [Lifecycle.handleEventWithGuard]
  cases hhup : hangsUp revents with
  | true =>
    have hhup' : (revents.EPOLLHUP && !revents.EPOLLIN) = true := hhup
    rw [if_pos hhup']
    have hclosed := h.handleClose (up_of_ne hne (hopen (.inl hhup)))
    split
    · rename_i hin
      refine hclosed.handleRead read fun heof => ?_
      exact absurd ⟨hhup, by rw [ends, hin, heof]; rfl⟩ honce
    · exact hclosed
  | false =>
    have hhup' : ¬ (revents.EPOLLHUP && !revents.EPOLLIN) = true := Bool.eq_false_iff.mp hhup
    rw [if_neg hhup']
    split
    · rename_i hin
      refine h.handleRead read fun heof => up_of_ne hne (hopen (.inr ?_))
      rw [ends, hin, heof]
      rfl
    · exact h

theorem Staged.step (h : Staged c) (hc : ClosesOnce c e) (hs : step c e = some c') : Staged c' := by
  cases e with
  | connectEstablished up =>
    simp only [Lifecycle.step, Option.ite_none_right_eq_some, Option.some.injEq] at hs
    obtain ⟨hst, rfl⟩ := hs
    exact h.connectEstablished hst up
  | handleEvent revents read =>
    simp only [Lifecycle.step, Option.ite_none_left_eq_some, Option.some.injEq] at hs
    obtain ⟨hst, rfl⟩ := hs
    exact h.handleEvent hst hc
  | call call =>
    cases hs
    exact h.call call
  | look call =>
    simp only [Lifecycle.step, Option.ite_none_right_eq_some, Option.some.injEq] at hs
    obtain ⟨hfinds, rfl⟩ := hs
    have hup := finds_up hfinds
    refine ⟨fun h => ?_, h.up, h.down⟩
    rcases hup with hup | hup <;> exact nomatch hup.symm.trans h
  | set call =>
    simp only [Lifecycle.step, Option.ite_none_right_eq_some, Option.some.injEq] at hs
    obtain ⟨hmem, rfl⟩ := hs
    have hne : c.state_ ≠ .kConnecting := by
      intro hst
      rw [(h.connecting hst).2.2.2.2] at hmem
      exact absurd hmem List.not_mem_nil
    exact ⟨nofun, fun _ => h.up (up_of_ne hne hc), nofun⟩
  | forceCloseInLoop =>
    simp only [Lifecycle.step, Option.ite_none_right_eq_some, Option.some.injEq] at hs
    obtain ⟨-, rfl⟩ := hs
    have hrest : Staged { c with closing := c.closing - 1 } := ⟨h.connecting, h.up, h.down⟩
    exact hrest.forceCloseInLoop
  | connectDestroyed =>
    simp only [Lifecycle.step, Option.ite_none_left_eq_some, Option.some.injEq] at hs
    obtain ⟨hst, rfl⟩ := hs
    exact h.connectDestroyed hst hc

theorem staged_init : Staged {} := ⟨fun _ => ⟨rfl, rfl, rfl, rfl, rfl⟩, by simp, nofun⟩

/-- A connection that is closed once is reported up once and down once. -/
theorem calledOnce_of_closesOnce (h : Reach step ClosesOnce {} c) : CalledOnce c :=
  (h.invariant staged_init fun _ _ _ hi hc hs => hi.step hc hs).calledOnce

/-- A callback shuts the connection down, another thread closes it, and the peer as well. -/
theorem calledOnce_of_closesOnce_forced : ∃ c, exec step ClosesOnce {}
      [.connectEstablished [.shutdown], .handleEvent { EPOLLIN := true } (.bytes []),
        .look .forceClose, .set .forceClose, .handleEvent { EPOLLIN := true, EPOLLHUP := true } .eof,
        .forceCloseInLoop, .connectDestroyed] = some c ∧
    c.destroyed = true ∧ CalledOnce c := by
  obtain ⟨c, hc, hdestroyed⟩ : ∃ c, exec step ClosesOnce {}
      [.connectEstablished [.shutdown], .handleEvent { EPOLLIN := true } (.bytes []),
        .look .forceClose, .set .forceClose, .handleEvent { EPOLLIN := true, EPOLLHUP := true } .eof,
        .forceCloseInLoop, .connectDestroyed] = some c ∧ c.destroyed = true := ⟨_, rfl, rfl⟩
  exact ⟨c, hc, hdestroyed, calledOnce_of_closesOnce (.of_exec hc)⟩

/-- A connection that is shutting down is destroyed and never reported down. One that a timer
closes is closed again when the same poll has found the end of its input. -/
theorem not_calledOnce :
    (∃ c, Reach step Always {} c ∧ c.destroyed = true ∧ c.downs = 0 ∧ ¬ CalledOnce c) ∧
    ∃ c, Reach step Always {} c ∧ c.downs = 2 ∧ c.closes = 2 ∧ ¬ CalledOnce c := by
  constructor
  · refine ⟨_, .of_exec (l := [.connectEstablished [], .call .shutdown, .connectDestroyed]) rfl, rfl,
      rfl, fun h => ?_⟩
    exact absurd (h.destroyed rfl).2 (by decide)
  · refine ⟨_, .of_exec (l := [.connectEstablished [], .call .forceClose,
      .handleEvent { EPOLLIN := true } .eof]) rfl, rfl, rfl, fun h => ?_⟩
    exact absurd h.close (by decide)

end Lifecycle

end VortexNet.TcpConnection
