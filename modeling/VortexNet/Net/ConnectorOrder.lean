import Mathlib.Data.List.Basic
import VortexNet.Net.Connector

/-!
# The last command to a connector

After `stop()` no socket should be made, and an attempt for a `start()` or a
`restart()` should outlive the stops before it. A retry timer that is pending
when `stop()` comes calls `start()` on its own, and a `stopInLoop` that is
queued when an attempt begins drops it, whether `start()` or a timer began it.
-/

namespace VortexNet.Connector

open Systems (Reach Always exec)

/-- No socket is made when the last command is `stop()`, and what a `stop()` ends was begun for
an earlier command. -/
def Log.Obeys : Log → Prop
  | .socket _ last => last ≠ some .stop
  | .torn channel stop => ∀ start ∈ channel.start, start < stop
  | _ => True

/-- The last command wins. -/
def LastWins (k : Connector) : Prop := ∀ entry ∈ k.log, entry.Obeys

def Errno.begins : Errno → Bool
  | .zero | .EINPROGRESS | .EINTR | .EISCONN => true
  | _ => false

def Functor.begins : Functor → Option Nat
  | .startInLoop start => some start
  | _ => none

def Functor.ends : Functor → Option Nat
  | .stopInLoop stop => some stop
  | _ => none

/-- A `start()` on the loop thread or a timer that begins an attempt finds no stop in the queue,
and the timer of a retry finds that a connection is still wanted. -/
def InOrder (k : Connector) : Event → Prop
  | .start savedErrno => savedErrno.begins = true → ∀ f ∈ k.pendingFunctors_, f.ends = none
  | .timer i savedErrno => (∀ timer ∈ k.timers[i]?, timer.2 = .retry → k.connect_ = true) ∧
      (k.connect_ = true → savedErrno.begins = true → ∀ f ∈ k.pendingFunctors_, f.ends = none)
  | _ => True

instance (k : Connector) : DecidablePred (InOrder k)
  | .start _ => inferInstanceAs (Decidable (_ → _))
  | .timer _ _ => inferInstanceAs (Decidable ((∀ _ ∈ _, _) ∧ _))
  | .startFrom | .stop | .restart | .functor _ | .handleEvent _ _ | .destroy => .isTrue trivial

-- ---------------------------------------------------------------------------
-- The order of the commands in the queue
-- ---------------------------------------------------------------------------

def Functor.Precedes (f g : Functor) : Prop :=
  ∀ start ∈ f.begins, ∀ stop ∈ g.ends, start < stop

/-- The stops in the queue are later than the attempt under way and the starts before them. -/
structure Ordered (k : Connector) : Prop where
  log : LastWins k
  wanted : k.connect_ = true → k.commands.head? ≠ some .stop
  attempt : ∀ channel ∈ k.channel_, ∀ start ∈ channel.start, start < k.commands.length
  queued : ∀ f ∈ k.pendingFunctors_, ∀ start ∈ f.begins, start < k.commands.length
  queue : k.pendingFunctors_.Pairwise Functor.Precedes
  ahead : ∀ channel ∈ k.channel_, ∀ start ∈ channel.start, ∀ f ∈ k.pendingFunctors_,
    ∀ stop ∈ f.ends, start < stop

def Functor.plain (f : Functor) : Bool := f.begins = none ∧ f.ends = none

variable {k k' : Connector} {fd : Nat} {err savedErrno : Errno} {label : Option Nat}
  {channel : Channel} {e : Event}

theorem Ordered.quiet (h : Ordered k) (hl : ∀ entry ∈ k'.log, entry ∈ k.log ∨ entry.Obeys)
    (hc : k'.connect_ = k.connect_) (hm : k'.commands = k.commands)
    (hch : ∀ channel ∈ k'.channel_, channel ∈ k.channel_)
    (hq : ∃ functors, k'.pendingFunctors_ = k.pendingFunctors_ ++ functors ∧
      ∀ f ∈ functors, f.plain = true) : Ordered k' := by
  obtain ⟨functors, hq, hplain⟩ := hq
  have hnone : ∀ f ∈ functors, f.begins = none ∧ f.ends = none := fun f hf =>
    of_decide_eq_true (hplain f hf)
  constructor
  · intro entry hmem
    exact (hl entry hmem).elim (h.log entry) id
  · rw [hc, hm]
    exact h.wanted
  · intro channel hmem
    rw [hm]
    exact h.attempt channel (hch channel hmem)
  · rw [hq, hm]
    intro f hf
    rcases List.mem_append.mp hf with hf | hf
    · exact h.queued f hf
    · simp [(hnone f hf).1]
  · rw [hq]
    refine List.pairwise_append.mpr ⟨h.queue, ?_, fun f _ g hg => ?_⟩
    · exact List.pairwise_of_forall_mem_list fun f hf g _ => by
        simp [Functor.Precedes, (hnone f hf).1]
    · simp [Functor.Precedes, (hnone g hg).2]
  · rw [hq]
    intro channel hmem start hstart f hf
    rcases List.mem_append.mp hf with hf | hf
    · exact h.ahead channel (hch channel hmem) start hstart f hf
    · simp [(hnone f hf).2]

theorem retry_quiet (k : Connector) (fd : Nat) (err : Errno) :
    (k.retry fd err).channel_ = none ∧ (k.retry fd err).connect_ = k.connect_ ∧
      (k.retry fd err).commands = k.commands ∧
      (∃ registered, (k.retry fd err).log = .closed fd registered :: k.log) ∧
      ∃ functors, (k.retry fd err).pendingFunctors_ = k.pendingFunctors_ ++ functors ∧
        ∀ f ∈ functors, f.plain = true := by
  cases hch : k.channel_ with
  | none =>
    simp only [retry, hch]
    split
    · exact ⟨rfl, rfl, rfl, ⟨_, rfl⟩, [], by simp [close, runAfter], nofun⟩
    · split
      · exact ⟨rfl, rfl, rfl, ⟨_, rfl⟩, [.errorCallback err], rfl, by simp [Functor.plain,
          Functor.begins, Functor.ends]⟩
      · exact ⟨rfl, rfl, rfl, ⟨_, rfl⟩, [], by simp [close], nofun⟩
  | some channel =>
    simp only [retry, hch]
    split
    · exact ⟨rfl, rfl, rfl, ⟨_, rfl⟩, [.release], rfl, by simp [Functor.plain, Functor.begins,
        Functor.ends]⟩
    · split
      · exact ⟨rfl, rfl, rfl, ⟨_, rfl⟩, [.release, .errorCallback err],
          by simp [queueInLoop, close, dropChannel], by simp [Functor.plain, Functor.begins,
            Functor.ends]⟩
      · exact ⟨rfl, rfl, rfl, ⟨_, rfl⟩, [.release], rfl, by simp [Functor.plain, Functor.begins,
          Functor.ends]⟩

theorem Ordered.retry (h : Ordered k) (fd : Nat) (err : Errno) : Ordered (k.retry fd err) := by
  obtain ⟨hch, hc, hm, ⟨registered, hl⟩, hq⟩ := retry_quiet k fd err
  refine h.quiet (fun entry hmem => ?_) hc hm (by simp [hch]) hq
  rw [hl] at hmem
  rcases List.mem_cons.mp hmem with rfl | hmem
  · exact .inr trivial
  · exact .inl hmem

theorem Ordered.same (h : Ordered k) (hl : ∀ entry ∈ k'.log, entry ∈ k.log ∨ entry.Obeys)
    (hc : k'.connect_ = k.connect_) (hm : k'.commands = k.commands)
    (hch : ∀ channel ∈ k'.channel_, channel ∈ k.channel_)
    (hq : k'.pendingFunctors_ = k.pendingFunctors_) : Ordered k' :=
  h.quiet hl hc hm hch ⟨[], by rw [hq, List.append_nil], nofun⟩

theorem Ordered.createNonblocking (h : Ordered k) (hwant : k.connect_ = true) :
    Ordered k.createNonblocking := by
  refine h.same (fun entry hmem => ?_) rfl rfl (fun _ hmem => hmem) rfl
  rcases List.mem_cons.mp hmem with rfl | hmem
  · exact .inr (h.wanted hwant)
  · exact .inl hmem

theorem Ordered.close (h : Ordered k) (fd : Nat) : Ordered (k.close fd) := by
  refine h.same (fun entry hmem => ?_) rfl rfl (fun _ hmem => hmem) rfl
  rcases List.mem_cons.mp hmem with rfl | hmem
  · exact .inr trivial
  · exact .inl hmem

theorem Ordered.dropChannel (h : Ordered k) (channel : Channel) : Ordered (k.dropChannel channel) :=
  h.same (fun _ hmem => .inl hmem) rfl rfl (by simp [Connector.dropChannel]) rfl

theorem Ordered.connecting (h : Ordered k)
    (hs : ∀ s ∈ label, s < k.commands.length ∧ ∀ f ∈ k.pendingFunctors_, ∀ stop ∈ f.ends, s < stop) :
    Ordered (k.connecting fd label) := by
  have henroll : ∀ k' : Connector, Ordered k' → k'.commands = k.commands →
      k'.pendingFunctors_ = k.pendingFunctors_ →
      Ordered { k' with channel_ := some ⟨fd, label⟩, registered := fd :: k'.registered } := by
    intro k' h' hm hq
    refine ⟨h'.log, h'.wanted, ?_, h'.queued, h'.queue, ?_⟩
    · rintro channel hmem s hstart
      obtain rfl := Option.some.inj hmem
      exact hm ▸ (hs s hstart).1
    · rintro channel hmem s hstart
      obtain rfl := Option.some.inj hmem
      exact hq ▸ (hs s hstart).2
  have hstate : Ordered { k with state_ := .kConnecting } :=
    h.same (fun _ hmem => .inl hmem) rfl rfl (fun _ hmem => hmem) rfl
  cases hch : k.channel_ with
  | none =>
    simp only [Connector.connecting, hch]
    exact henroll { k with state_ := .kConnecting } hstate rfl rfl
  | some channel =>
    simp only [Connector.connecting, hch]
    exact henroll _ ((hstate.dropChannel channel).close channel.fd) rfl rfl

theorem Ordered.connect (h : Ordered k) (hwant : k.connect_ = true)
    (hs : ∀ s ∈ label, s < k.commands.length ∧ (savedErrno.begins = true →
      ∀ f ∈ k.pendingFunctors_, ∀ stop ∈ f.ends, s < stop)) :
    Ordered (k.connect label savedErrno) := by
  have hnew := h.createNonblocking hwant
  cases savedErrno
  case EAGAIN | ECONNREFUSED | ENETUNREACH => exact hnew.retry k.sockets _
  case other => exact hnew.close k.sockets
  all_goals exact hnew.connecting fun s hstart => ⟨(hs s hstart).1, (hs s hstart).2 rfl⟩

theorem Ordered.startInLoop (h : Ordered k)
    (hs : ∀ s ∈ label, s < k.commands.length ∧ (k.connect_ = true → savedErrno.begins = true →
      ∀ f ∈ k.pendingFunctors_, ∀ stop ∈ f.ends, s < stop)) :
    Ordered (k.startInLoop label savedErrno) := by
  unfold Connector.startInLoop
  split
  next hwant => exact h.connect hwant fun s hstart => ⟨(hs s hstart).1, (hs s hstart).2 hwant⟩
  · exact h

theorem Ordered.handleWrite (h : Ordered k) (channel : Channel) (err : Errno) :
    Ordered (k.handleWrite channel err).1 := by
  simp only [Connector.handleWrite]
  split
  · exact h
  · split
    · have hup : Ordered { k with state_ := .kConnected } :=
        h.same (fun _ hmem => .inl hmem) rfl rfl (fun _ hmem => hmem) rfl
      split
      · have hreleased : Ordered
            (({ k with state_ := .kConnected }.dropChannel channel).queueInLoop .release) :=
          (hup.dropChannel channel).quiet (fun _ hmem => .inl hmem) rfl rfl (fun _ hmem => hmem)
            ⟨[.release], rfl, by simp [Functor.plain, Functor.begins, Functor.ends]⟩
        split
        · refine hreleased.same (fun entry hmem => ?_) rfl rfl (fun _ hmem => hmem) rfl
          rcases List.mem_cons.mp hmem with rfl | hmem
          · exact .inr trivial
          · exact .inl hmem
        · exact hreleased
      · exact hup.close channel.fd
    · exact h.retry channel.fd err

theorem Ordered.handleEvent (h : Ordered k) (channel : Channel) (error write : Option Errno) :
    Ordered (k.handleEvent channel error write).1 := by
  cases error with
  | none =>
    cases write with
    | none => exact h
    | some write => exact h.handleWrite channel write
  | some err =>
    have herror : Ordered (k.handleError channel.fd err) := h.retry channel.fd err
    cases write with
    | none => exact herror
    | some write => exact herror.handleWrite channel write

-- ---------------------------------------------------------------------------
-- Commands
-- ---------------------------------------------------------------------------

theorem Ordered.command (h : Ordered k) (c : Command) (hc : k'.connect_ = true → c ≠ .stop)
    (hk : k' = { k.command c with connect_ := k'.connect_ }) : Ordered k' := by
  rw [hk]
  refine ⟨h.log, fun hwant => ?_, fun channel hmem s hstart => ?_, fun f hf s hstart => ?_, h.queue,
    h.ahead⟩
  · simpa [Connector.command] using hc hwant
  · exact Nat.lt_succ_of_lt (h.attempt channel hmem s hstart)
  · exact Nat.lt_succ_of_lt (h.queued f hf s hstart)

theorem Ordered.start (h : Ordered k) (hc : InOrder k (.start savedErrno)) :
    Ordered ((k.command .start).start (some k.commands.length) savedErrno) := by
  have hcommand : Ordered { k.command .start with connect_ := true } :=
    h.command .start (fun _ => nofun) rfl
  refine hcommand.startInLoop fun s hstart => ?_
  obtain rfl := Option.some.inj hstart
  refine ⟨Nat.lt_succ_self _, fun _ hbegins f hf stop hstop => ?_⟩
  exact nomatch (hc hbegins f hf).symm.trans hstop

theorem Ordered.queueInLoop (h : Ordered k) {functor : Functor}
    (hbegins : ∀ start ∈ functor.begins, start < k.commands.length)
    (hqueue : ∀ f ∈ k.pendingFunctors_, f.Precedes functor)
    (hahead : ∀ channel ∈ k.channel_, ∀ start ∈ channel.start, ∀ stop ∈ functor.ends, start < stop) :
    Ordered (k.queueInLoop functor) := by
  refine ⟨h.log, h.wanted, h.attempt, fun f hf => ?_, ?_, fun channel hmem start hstart f hf => ?_⟩
  · rcases List.mem_append.mp hf with hf | hf
    · exact h.queued f hf
    · obtain rfl := List.mem_singleton.mp hf
      exact hbegins
  · refine List.pairwise_append.mpr ⟨h.queue, List.pairwise_singleton _ _, fun f hf g hg => ?_⟩
    obtain rfl := List.mem_singleton.mp hg
    exact hqueue f hf
  · rcases List.mem_append.mp hf with hf | hf
    · exact h.ahead channel hmem start hstart f hf
    · obtain rfl := List.mem_singleton.mp hf
      exact hahead channel hmem start hstart

theorem Ordered.startFrom (h : Ordered k) :
    Ordered ((k.command .start).startFrom k.commands.length) := by
  have hcommand : Ordered { k.command .start with connect_ := true } :=
    h.command .start (fun _ => nofun) rfl
  refine hcommand.queueInLoop (fun s hs => ?_) (fun f _ s _ stop hstop => nomatch hstop)
    (fun _ _ _ _ stop hstop => nomatch hstop)
  obtain rfl := Option.some.inj hs
  exact Nat.lt_succ_self _

theorem Ordered.stop (h : Ordered k) : Ordered ((k.command .stop).stop k.commands.length) := by
  have hcommand : Ordered { k.command .stop with connect_ := false } := h.command .stop nofun rfl
  refine hcommand.queueInLoop nofun (fun f hf s hs stop hstop => ?_)
    (fun channel hmem s hs stop hstop => ?_)
  · obtain rfl := Option.some.inj hstop
    exact h.queued f hf s hs
  · obtain rfl := Option.some.inj hstop
    exact h.attempt channel hmem s hs

-- ---------------------------------------------------------------------------
-- Runs
-- ---------------------------------------------------------------------------

theorem Ordered.stopInLoop (h : Ordered k) {stop : Nat}
    (hstop : ∀ channel ∈ k.channel_, ∀ start ∈ channel.start, start < stop) :
    Ordered (k.stopInLoop stop) := by
  have hstate : Ordered { k with state_ := .kDisconnected } :=
    h.same (fun _ hmem => .inl hmem) rfl rfl (fun _ hmem => hmem) rfl
  cases hch : k.channel_ with
  | none =>
    rw [stopInLoop_none stop hch]
    exact hstate
  | some channel =>
    rw [stopInLoop_some stop hch]
    refine (hstate.dropChannel channel).same (fun entry hmem => ?_) rfl rfl (fun _ hmem => hmem) rfl
    rcases List.mem_cons.mp hmem with rfl | hmem
    · exact .inr (hstop channel hch)
    · exact .inl hmem

theorem Ordered.functor (h : Ordered k) {functor : Functor} {functors : List Functor}
    (hq : k.pendingFunctors_ = functor :: functors) (savedErrno : Errno) :
    Ordered (functor.run { k with pendingFunctors_ := functors } savedErrno) := by
  obtain ⟨hlog, hwanted, hattempt, hqueued, hqueue, hahead⟩ := h
  rw [hq] at hqueued hqueue hahead
  obtain ⟨hfirst, hqueue⟩ := List.pairwise_cons.mp hqueue
  obtain ⟨hnum, hqueued⟩ := List.forall_mem_cons.mp hqueued
  have hrest : Ordered { k with pendingFunctors_ := functors } :=
    ⟨hlog, hwanted, hattempt, hqueued, hqueue, fun channel hmem s hs f hf =>
      hahead channel hmem s hs f (List.mem_cons_of_mem _ hf)⟩
  cases functor with
  | startInLoop s =>
    refine hrest.startInLoop fun s' hs' => ?_
    obtain rfl := Option.some.inj hs'
    exact ⟨hnum s rfl, fun _ _ f hf => hfirst f hf s rfl⟩
  | stopInLoop stop =>
    exact hrest.stopInLoop fun channel hmem s hs => hahead channel hmem s hs _ List.mem_cons_self _ rfl
  | release => exact hrest
  | errorCallback => exact hrest

theorem inForce_lt : ∀ s ∈ k.inForce, s < k.commands.length := by
  intro s hs
  cases hm : k.commands with
  | nil => simp [inForce, hm] at hs
  | cons c commands =>
    simp only [inForce, hm, Option.mem_def, Option.some.injEq] at hs
    simp [← hs]

theorem Ordered.timer (h : Ordered k) {timer : Timer} (hc : timer = .retry → k.connect_ = true)
    (hnone : k.connect_ = true → savedErrno.begins = true → ∀ f ∈ k.pendingFunctors_, f.ends = none) :
    Ordered (timer.run k savedErrno) := by
  have hrun : Ordered (k.startInLoop k.inForce savedErrno) := by
    refine h.startInLoop fun s hs => ⟨inForce_lt s hs, fun hwant hbegins f hf stop hstop => ?_⟩
    rw [hnone hwant hbegins f hf] at hstop
    cases hstop
  cases timer with
  | retry =>
    have hwant : { k with connect_ := true } = k := by rw [← hc rfl]
    simp only [Timer.run, Connector.start]
    rwa [hwant]
  | restart => exact hrun

theorem Ordered.step (h : Ordered k) (hc : InOrder k e) (hs : step k e = some k') : Ordered k' := by
  rw [Connector.step] at hs
  split at hs
  · cases hs
  · obtain ⟨⟨after, handed⟩, hlive, rfl⟩ := Option.map_eq_some_iff.mp hs
    cases e with
    | start savedErrno =>
      cases hlive
      exact h.start hc
    | startFrom =>
      cases hlive
      exact h.startFrom
    | stop =>
      cases hlive
      exact h.stop
    | restart =>
      cases hlive
      have hcommand : Ordered { k.command .restart with connect_ := true } :=
        h.command .restart (fun _ => nofun) rfl
      exact hcommand.same (fun _ hmem => .inl hmem) rfl rfl (fun _ hmem => hmem) rfl
    | functor savedErrno =>
      cases hq : k.pendingFunctors_ with
      | nil => simp [stepLive, hq] at hlive
      | cons functor functors =>
        simp only [stepLive, hq, Option.some.injEq, Prod.mk.injEq] at hlive
        rw [← hlive.1]
        exact h.functor hq savedErrno
    | timer i savedErrno =>
      cases ht : k.timers[i]? with
      | none => simp [stepLive, ht] at hlive
      | some timer =>
        simp only [stepLive, ht, Option.some.injEq, Prod.mk.injEq] at hlive
        rw [← hlive.1]
        have hrest : Ordered { k with timers := k.timers.eraseIdx i } :=
          h.same (fun _ hmem => .inl hmem) rfl rfl (fun _ hmem => hmem) rfl
        exact hrest.timer (hc.1 timer ht) hc.2
    | handleEvent error write =>
      cases hch : k.channel_ with
      | none => simp [stepLive, hch] at hlive
      | some channel =>
        simp only [stepLive, hch] at hlive
        split at hlive
        · have hafter := Option.some.inj hlive
          rw [← congrArg Prod.fst hafter]
          exact h.handleEvent channel error write
        · cases hlive
    | destroy =>
      simp only [stepLive] at hlive
      split at hlive
      · cases hlive
      · cases hlive
        cases hch : k.channel_ with
        | none =>
          rw [destroy_none hch]
          exact h.same (fun _ hmem => .inl hmem) rfl rfl (fun _ hmem => hmem) rfl
        | some channel =>
          rw [destroy_some hch]
          exact (h.dropChannel channel).same (fun _ hmem => .inl hmem) rfl rfl
            (fun _ hmem => hmem) rfl

theorem ordered_fresh (newConnectionCallback errorCallback retry : Bool) :
    Ordered (fresh newConnectionCallback errorCallback retry) :=
  ⟨nofun, nofun, nofun, nofun, .nil, nofun⟩

/-- In a run whose timers and starts are in order the last command wins. -/
theorem lastWins_of_inOrder {newConnectionCallback errorCallback retry : Bool}
    (h : Reach step InOrder (fresh newConnectionCallback errorCallback retry) k) : LastWins k :=
  (h.invariant (ordered_fresh _ _ _) fun _ _ _ hi hc hs => hi.step hc hs).log

/-- A refused attempt is stopped after its retry; another thread starts and stops again; the
attempt of the last `restart()` is the one that is left. -/
theorem lastWins_of_inOrder_restart : ∃ k, exec step InOrder (fresh true false true)
      [.start .ECONNREFUSED, .timer 0 .EINPROGRESS, .stop, .startFrom, .functor .zero,
        .functor .EINPROGRESS, .stop, .restart, .functor .zero, .timer 0 .EINPROGRESS] = some k ∧
    k.sockets = 4 ∧ k.channel_ = some ⟨3, some 4⟩ ∧ LastWins k := by
  obtain ⟨k, hk, hsockets, hch⟩ : ∃ k, exec step InOrder (fresh true false true)
      [.start .ECONNREFUSED, .timer 0 .EINPROGRESS, .stop, .startFrom, .functor .zero,
        .functor .EINPROGRESS, .stop, .restart, .functor .zero, .timer 0 .EINPROGRESS] = some k ∧
      k.sockets = 4 ∧ k.channel_ = some ⟨3, some 4⟩ := ⟨_, rfl, rfl, rfl⟩
  exact ⟨k, hk, hsockets, hch, lastWins_of_inOrder (.of_exec hk)⟩

/-- The timer of a refused attempt fires after `stop()` and makes a socket; the functor of a
`stop()` drops the attempt of a `start()` after it, or the one that a timer began for a later
`start()` or `restart()`. -/
theorem not_lastWins :
    (∃ k, Reach step Always (fresh true false true) k ∧ .socket 1 (some .stop) ∈ k.log) ∧
    (∃ k, Reach step Always (fresh true false false) k ∧ .torn ⟨0, some 1⟩ 0 ∈ k.log ∧
      ¬ LastWins k) ∧
    (∃ k, Reach step Always (fresh true false true) k ∧ .torn ⟨1, some 1⟩ 0 ∈ k.log ∧
      ¬ LastWins k) ∧
    ∃ k, Reach step Always (fresh true false true) k ∧ .torn ⟨0, some 1⟩ 0 ∈ k.log ∧
      ¬ LastWins k := by
  refine ⟨⟨_, .of_exec (l := [.start .ECONNREFUSED, .stop, .timer 0 .EINPROGRESS]) rfl, by decide⟩,
    ⟨_, .of_exec (l := [.stop, .start .EINPROGRESS, .functor .zero]) rfl, by decide, fun h => ?_⟩,
    ⟨_, .of_exec (l := [.stop, .start .ECONNREFUSED, .timer 0 .EINPROGRESS, .functor .zero]) rfl,
      by decide, fun h => ?_⟩,
    ⟨_, .of_exec (l := [.stop, .restart, .timer 0 .EINPROGRESS, .functor .zero]) rfl, by decide,
      fun h => ?_⟩⟩
  · exact absurd (h (.torn ⟨0, some 1⟩ 0) (by decide) 1 rfl) (by decide)
  · exact absurd (h (.torn ⟨1, some 1⟩ 0) (by decide) 1 rfl) (by decide)
  · exact absurd (h (.torn ⟨0, some 1⟩ 0) (by decide) 1 rfl) (by decide)

end VortexNet.Connector
