import VortexNet.Net.ServerSafety

/-!
# The loops of a server share its connections

The loops take their turns in the order of the acceptor, so what the other
threads do in between does not move a turn.
-/

namespace VortexNet.TcpServer

open Systems (Reach Always exec)

variable {s s' : TcpServer} {c l a b : Nat} {e : Event} {p : EventLoopThreadPool Nat}
  {nameArg : List Char} {listenAddr : InetAddress} {numThreads : Int} {writeComplete : Bool}

def At.accepts : At → Bool
  | .handle activeChannels_ | .event _ _ activeChannels_ => .acceptChannel_ ∈ activeChannels_
  | .poll | .run .. => false

/-- The connections of a loop. -/
def load (s : TcpServer) (l : Nat) : Nat :=
  ((List.range (s.nexConnId_ - 1)).map fun k => s.getLoop (k + 1)).count l

structure Shares (p : EventLoopThreadPool Nat) (s : TcpServer) : Prop where
  number : 1 ≤ s.nexConnId_
  waiting : s.started_ = 0 → s.listenning_ = false ∧ s.nexConnId_ = 1 ∧ s.threadpool_ = p
  accepts : ∀ l, (s.loop l).loopAt.accepts = true → s.listenning_ = true
  turned : 0 < s.started_ → s.threadpool_ = (p.start (· + 1)).turns (s.nexConnId_ - 1)
  taken : (List.range (s.nexConnId_ - 1)).map (fun k => s.getLoop (k + 1)) =
    (p.start (· + 1)).taken (s.nexConnId_ - 1)

theorem Shares.of_fixed (h : Shares p s) (hf : s'.fixed = s.fixed) : Shares p s' := by
  simp only [fixed, Prod.mk.injEq] at hf
  obtain ⟨hpool, hstarted, hlistening, hid, hloops, hat⟩ := hf
  refine ⟨hid ▸ h.number, fun h0 => ?_, fun l ha => ?_, fun hpos => ?_, ?_⟩
  · rw [hlistening, hid, hpool]
    exact h.waiting (hstarted ▸ h0)
  · rw [hlistening]
    exact h.accepts l (congrFun hat l ▸ ha)
  · rw [hpool, hid]
    exact h.turned (hstarted ▸ hpos)
  · rw [hid, hloops]
    exact h.taken

theorem Shares.setAt (h : Shares p s) {a : At} (ha : a.accepts = true → s.listenning_ = true) :
    Shares p (s.setAt l a) := by
  refine ⟨h.number, h.waiting, fun l' hl' => ?_, h.turned, h.taken⟩
  have hl' : (Function.update s.loop l { s.loop l with loopAt := a } l').loopAt.accepts = true := hl'
  rw [Function.update_apply] at hl'
  split at hl'
  · exact ha hl'
  · exact h.accepts l' hl'

theorem Shares.start (h : Shares p s) : Shares p s.start := by
  unfold TcpServer.start
  split
  · rename_i h0
    obtain ⟨-, hid, hpool⟩ := h.waiting h0
    refine ⟨h.number, nofun, fun _ _ => rfl, fun _ => ?_, h.taken⟩
    show s.threadpool_.start (· + 1) = (p.start (· + 1)).turns (s.nexConnId_ - 1)
    rw [hid, hpool]
    rfl
  · rename_i hne
    exact ⟨h.number, nofun, h.accepts, fun _ => h.turned (Nat.pos_of_ne_zero hne), h.taken⟩

theorem Shares.newConnection (h : Shares p s) (hpos : 0 < s.started_) :
    Shares p s.newConnection := by
  have hpool := h.turned hpos
  have hid : s.nexConnId_ - 1 + 1 = s.nexConnId_ := Nat.sub_add_cancel h.number
  have hconstruct : Shares p s.construct := by
    refine ⟨Nat.succ_pos _, fun h0 => absurd h0 (Nat.ne_of_gt hpos), h.accepts, fun _ => ?_, ?_⟩
    · show s.threadpool_.getNextLoop.2 = (p.start (· + 1)).turns s.nexConnId_
      rw [hpool, ← hid]
      rfl
    · show (List.range s.nexConnId_).map (fun k => s.construct.getLoop (k + 1)) =
        (p.start (· + 1)).taken s.nexConnId_
      have hold : (List.range (s.nexConnId_ - 1)).map (fun k => s.construct.getLoop (k + 1)) =
          (List.range (s.nexConnId_ - 1)).map (fun k => s.getLoop (k + 1)) := by
        refine List.map_congr_left fun k hk => construct_getLoop_of_ne ?_
        have hlt := List.mem_range.mp hk
        omega
      have hnew : s.construct.getLoop s.nexConnId_ = s.threadpool_.getNextLoop.1 :=
        Function.update_self ..
      have hrange := List.range_succ (n := s.nexConnId_ - 1)
      rw [Nat.succ_eq_add_one, hid] at hrange
      have htaken := EventLoopThreadPool.taken_succ (p := p.start (· + 1)) (m := s.nexConnId_ - 1)
      rw [hid] at htaken
      rw [hrange, List.map_append, List.map_singleton, hold, h.taken, hid, hnew, hpool, htaken]
  unfold TcpServer.newConnection
  dsimp only
  split
  · exact hconstruct.of_fixed (applyAll_fixed ..)
  · exact hconstruct.of_fixed (queueInLoop_fixed ..)

theorem Shares.step (h : Shares p s) (h1 : step s e = some s') : Shares p s' := by
  cases e with
  | start =>
    cases h1
    exact h.start
  | poll l activeChannels_ =>
    simp only [TcpServer.step, Option.ite_none_right_eq_some, Option.some.injEq] at h1
    obtain ⟨⟨-, hregistered⟩, rfl⟩ := h1
    exact h.setAt fun ha => (hregistered _ (of_decide_eq_true ha)).2
  | accept connected =>
    simp only [TcpServer.step] at h1
    split at h1
    case h_2 => cases h1
    rename_i rest hat
    have hlistening : s.listenning_ = true := by
      refine h.accepts loop_ ?_
      rw [hat]
      exact decide_eq_true (List.mem_cons_self : .acceptChannel_ ∈ Source.acceptChannel_ :: rest)
    have hset : Shares p (s.setAt loop_ (.handle rest)) := h.setAt fun _ => hlistening
    split at h1
    · cases h1
      exact hset
    · split at h1
      case isFalse => cases h1
      cases h1
      refine hset.newConnection (Nat.pos_of_ne_zero fun h0 => ?_)
      exact Bool.noConfusion ((h.waiting h0).1.symm.trans hlistening)
  | handleEvent l revents_ =>
    simp only [TcpServer.step] at h1
    split at h1
    case h_2 => cases h1
    rename_i c rest hat
    cases h1
    refine h.setAt fun ha => h.accepts l ?_
    rw [hat]
    have ha : (.acceptChannel_ : Source) ∈ rest := by
      split at ha <;> exact of_decide_eq_true ha
    exact decide_eq_true (List.mem_cons_of_mem _ ha)
  | callback l input drained =>
    simp only [TcpServer.step] at h1
    split at h1
    case h_2 => cases h1
    rename_i c part parts rest hat
    cases h1
    have hset : Shares p (s.setAt l (.event c parts rest)) := h.setAt fun ha => h.accepts l (by rw [hat]; exact ha)
    exact hset.of_fixed (applyAll_fixed ..)
  | functor l w =>
    simp only [TcpServer.step] at h1
    split at h1
    case h_2 => cases h1
    rename_i ran task functors hat
    cases h1
    have hset : Shares p (s.setAt l (.run (ran ++ [task]) functors)) := h.setAt fun ha => Bool.noConfusion ha
    cases task with
    | removeConnection c => exact hset.of_fixed (queueInLoop_fixed ..)
    | job c j => exact hset.of_fixed (applyAll_fixed ..)
  | advance l =>
    simp only [TcpServer.step] at h1
    split at h1
    · rename_i c rest hat
      cases h1
      exact h.setAt fun ha => h.accepts l (by rw [hat]; exact ha)
    · cases h1
      refine ⟨h.number, h.waiting, fun l' hl' => ?_, h.turned, h.taken⟩
      have hl' : (Function.update s.loop l { loopAt := .run [] (s.loop l).pendingFunctors_, pendingFunctors_ := [] }
        l').loopAt.accepts = true := hl'
      rw [Function.update_apply] at hl'
      split at hl'
      · cases hl'
      · exact h.accepts l' hl'
    · cases h1
      exact h.setAt fun ha => Bool.noConfusion ha
    · cases h1
  | call | send =>
    simp only [TcpServer.step, Option.ite_none_right_eq_some, Option.some.injEq] at h1
    obtain ⟨-, rfl⟩ := h1
    exact h.of_fixed (applyAll_fixed ..)
  | remote c r =>
    simp only [TcpServer.step, Option.ite_none_right_eq_some, Option.map_eq_some_iff] at h1
    obtain ⟨-, r', -, rfl⟩ := h1
    exact h.of_fixed (applyAll_fixed ..)

theorem init_shares : Shares (.init loop_ numThreads) (init nameArg listenAddr numThreads writeComplete) where
  number := Nat.le_refl 1
  waiting _ := ⟨rfl, rfl, rfl⟩
  accepts _ ha := Bool.noConfusion ha
  turned hpos := absurd hpos (Nat.lt_irrefl 0)
  taken := rfl

theorem start_nodup (numThreads : Int) :
    ((EventLoopThreadPool.init loop_ numThreads).start (· + 1)).getAllLoops.Nodup := by
  unfold EventLoopThreadPool.getAllLoops
  split
  · exact List.nodup_singleton _
  · exact List.Nodup.map (fun _ _ => Nat.add_right_cancel) List.nodup_range

/-- No loop of a server has two connections more than another had accepted for it. -/
theorem loads_balanced (hr : Reach step Always (init nameArg listenAddr numThreads writeComplete) s)
    (ha : a ∈ s.threadpool_.getAllLoops) (hb : b ∈ s.threadpool_.getAllLoops) :
    s.load a ≤ s.load b + 1 := by
  have h : Shares (.init loop_ numThreads) s := hr.invariant init_shares fun _ _ _ hi _ h1 => hi.step h1
  by_cases h0 : s.started_ = 0
  · have hid := (h.waiting h0).2.1
    simp [load, hid]
  · have hpool := h.turned (Nat.pos_of_ne_zero h0)
    rw [hpool, EventLoopThreadPool.turns_loops] at ha hb
    rw [load, load, h.taken]
    exact EventLoopThreadPool.balanced (start_nodup numThreads) ha hb

/-- Five connections on three threads. -/
theorem loads_balanced_five : ∃ s, exec step Always (init [] ⟨(127, 0, 0, 1), 80⟩ 3 true)
      ([.start, .poll 0 [.acceptChannel_, .acceptChannel_, .acceptChannel_, .acceptChannel_, .acceptChannel_]] ++
        .replicate 5 (.accept true)) = some s ∧
    s.load 1 = 2 ∧ s.load 3 = 1 ∧ s.load 1 ≤ s.load 3 + 1 := by
  have hrun : (exec step Always (init [] ⟨(127, 0, 0, 1), 80⟩ 3 true)
      ([.start, .poll 0 [.acceptChannel_, .acceptChannel_, .acceptChannel_, .acceptChannel_, .acceptChannel_]] ++
        .replicate 5 (.accept true))).any (fun s => s.threadpool_.getAllLoops = [1, 2, 3] ∧
      s.load 1 = 2 ∧ s.load 3 = 1) = true := by
    decide +kernel
  obtain ⟨s, hs, hall⟩ := (Option.any_eq_true _ _).mp hrun
  obtain ⟨hloops, h1, h3⟩ := of_decide_eq_true hall
  exact ⟨s, hs, h1, h3, loads_balanced (.of_exec hs) (by simp [hloops]) (by simp [hloops])⟩

end VortexNet.TcpServer
