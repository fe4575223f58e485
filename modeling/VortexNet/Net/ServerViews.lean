import VortexNet.Net.HostedRuns
import VortexNet.Net.TcpServer

/-!
# Every connection of a server, seen alone

`view s c` is what the server has of connection `c`. An act on one connection
moves its view as it moves a `Hosted` connection, and no other view, because
their names in the map differ.
-/

namespace VortexNet

open Systems (Reach Always exec)
open TcpConnection (Lifecycle Call Revents)

-- ---------------------------------------------------------------------------
-- Names
-- ---------------------------------------------------------------------------

namespace InetAddress

theorem length_toDigits_byte (b : BitVec 8) : (Nat.toDigits 10 b.toNat).length ≤ 3 :=
  (Nat.length_toDigits_le_iff (by decide) (by decide)).mpr (Nat.lt_trans b.isLt (by decide))

theorem length_toIp (a : InetAddress) : a.toIp.length ≤ 15 := by
  have h1 := length_toDigits_byte a.ip.1
  have h2 := length_toDigits_byte a.ip.2.1
  have h3 := length_toDigits_byte a.ip.2.2.1
  have h4 := length_toDigits_byte a.ip.2.2.2
  simp only [toIp, List.length_append, List.length_cons]
  omega

theorem length_snprintf (size : Nat) (text : List Char) :
    (snprintf size text).length ≤ size - 1 := List.length_take_le ..

/-- The buffer bounds the text whatever it is. -/
theorem length_toIpPort (a : InetAddress) : a.toIpPort.length ≤ 23 := by
  have hip := a.length_toIp
  have hport := length_snprintf (INET_ADDRSTRLEN + 8 - a.toIp.length)
    (':' :: Nat.toDigits 10 a.port.toNat)
  rw [toIpPort, List.length_append]
  simp only [INET_ADDRSTRLEN] at hport ⊢
  omega

end InetAddress

namespace TcpServer

open InetAddress (snprintf)

variable {s s' : TcpServer} {c d l : Nat} {e : Event}

/-- The buffer of `newConnection` cuts nothing off while the number is an `int`. -/
theorem connName_eq (hc : c < 2 ^ 31) :
    s.connName c = s.name_ ++ (s.ipPort_ ++ '#' :: Nat.toDigits 10 c) := by
  have hip := s.listenAddr.length_toIpPort
  have hdigits : (Nat.toDigits 10 c).length ≤ 10 :=
    (Nat.length_toDigits_le_iff (by decide) (by decide)).mpr (Nat.lt_trans hc (by decide))
  have hfits : (s.ipPort_ ++ '#' :: Nat.toDigits 10 c).length ≤ 63 := by
    simp only [List.length_append, List.length_cons, ipPort_]
    omega
  rw [connName, snprintf, List.take_of_length_le hfits]

theorem toDigits_inj {m n : Nat} (h : Nat.toDigits 10 m = Nat.toDigits 10 n) : m = n := by
  rw [← Nat.ofDigitChars_ten_toDigits (n := m), h, Nat.ofDigitChars_ten_toDigits]

theorem connName_inj (hc : c < 2 ^ 31) (hd : d < 2 ^ 31) (h : s.connName c = s.connName d) :
    c = d := by
  rw [connName_eq hc, connName_eq hd, List.append_cancel_left_eq, List.append_cancel_left_eq] at h
  exact toDigits_inj (List.cons.inj h).2

-- ---------------------------------------------------------------------------
-- One connection of the server
-- ---------------------------------------------------------------------------

def At.functors : At → List Task
  | .run _ functors => functors
  | .poll | .handle _ | .event .. => []

def At.reports (c : Nat) : At → Bool
  | .handle activeChannels_ => .channel_ c ∈ activeChannels_
  | .event d _ activeChannels_ => d = c || .channel_ c ∈ activeChannels_
  | .poll | .run .. => false

def Loop.todo (l : Loop) : List Task := l.loopAt.functors ++ l.pendingFunctors_

def Task.job? (c : Nat) : Task → Option Job
  | .removeConnection _ => none
  | .job d j => if d = c then some j else none

def view (s : TcpServer) (c : Nat) : Hosted where
  conn := s.conn c
  mapped := (s.connName c, c) ∈ s.connections_
  removing := (s.loop loop_).todo.count (.removeConnection c)
  todo := (s.loop (s.getLoop c)).todo.filterMap (Task.job? c)
  active := (s.loop (s.getLoop c)).loopAt.reports c

def Task.subject : Task → Nat
  | .removeConnection c | .job c _ => c

def home (s : TcpServer) : Task → Nat
  | .removeConnection _ => loop_
  | .job c _ => s.getLoop c

structure Placed (s : TcpServer) : Prop where
  number : 1 ≤ s.nexConnId_ ∧ s.nexConnId_ < 2 ^ 31
  tasks : ∀ l, ∀ task ∈ (s.loop l).todo, s.made task.subject ∧ l = s.home task
  reported : ∀ l c, (s.loop l).loopAt.reports c = true → s.made c ∧ s.getLoop c = l
  entries : ∀ entry ∈ s.connections_, s.made entry.2 ∧ entry.1 = s.connName entry.2
  loops : ∀ c, s.made c → s.getLoop c ∈ loop_ :: s.threadpool_.loops_
  base : s.threadpool_.baseloop_ = loop_
  unmade : ∀ c, ¬ s.made c → s.conn c = {}

-- ---------------------------------------------------------------------------
-- What one change does to the views
-- ---------------------------------------------------------------------------

theorem loop_queueInLoop (task : Task) (l' : Nat) : (s.queueInLoop l task).loop l' =
    if l' = l then { s.loop l with pendingFunctors_ := (s.loop l).pendingFunctors_ ++ [task] }
    else s.loop l' := Function.update_apply ..

theorem todo_queueInLoop (task : Task) (l' : Nat) : ((s.queueInLoop l task).loop l').todo =
    (s.loop l').todo ++ if l' = l then [task] else [] := by
  rw [loop_queueInLoop]
  split
  · rename_i h
    rw [h, Loop.todo, Loop.todo, List.append_assoc]
  · rw [List.append_nil]

theorem loopAt_queueInLoop (task : Task) (l' : Nat) :
    ((s.queueInLoop l task).loop l').loopAt = (s.loop l').loopAt := by
  rw [loop_queueInLoop]
  split
  · rename_i h
    rw [h]
  · rfl

theorem view_queueInLoop (task : Task) : (s.queueInLoop l task).view c = { s.view c with
    removing := (s.view c).removing + if loop_ = l then [task].count (.removeConnection c) else 0
    todo := (s.view c).todo ++ if s.getLoop c = l then [task].filterMap (Task.job? c) else [] } := by
  refine Hosted.ext rfl rfl ?_ ?_ ?_
  · show ((s.queueInLoop l task).loop loop_).todo.count _ = _
    rw [todo_queueInLoop, List.count_append]
    split <;> rfl
  · show ((s.queueInLoop l task).loop (s.getLoop c)).todo.filterMap _ = _
    rw [todo_queueInLoop, List.filterMap_append]
    split <;> rfl
  · show ((s.queueInLoop l task).loop (s.getLoop c)).loopAt.reports c = _
    rw [loopAt_queueInLoop]
    rfl

theorem view_queue_remove_self : (s.queueInLoop loop_ (.removeConnection c)).view c =
    { s.view c with removing := (s.view c).removing + 1 } := by
  rw [view_queueInLoop]
  simp [Task.job?]

theorem view_queue_remove_of_ne (h : c ≠ d) :
    (s.queueInLoop loop_ (.removeConnection d)).view c = s.view c := by
  rw [view_queueInLoop]
  ext1 <;> simp [Task.job?, h.symm]

theorem view_queue_job_self (j : Job) : (s.queueInLoop (s.getLoop c) (.job c j)).view c =
    { s.view c with todo := (s.view c).todo ++ [j] } := by
  rw [view_queueInLoop]
  simp [Task.job?]

theorem view_queue_job_of_ne (h : c ≠ d) (j : Job) :
    (s.queueInLoop l (.job d j)).view c = s.view c := by
  rw [view_queueInLoop]
  ext1 <;> simp [Task.job?, h.symm]

theorem view_erase_of_ne (hw : Placed s) (hc : s.made c) (hd : s.made d) (h : c ≠ d) :
    view { s with connections_ := s.connections_.filter (·.1 ≠ s.connName d) } c = s.view c := by
  have hname : s.connName c ≠ s.connName d := by
    refine fun hname => h (connName_inj ?_ ?_ hname)
    · exact Nat.lt_trans hc.2 hw.number.2
    · exact Nat.lt_trans hd.2 hw.number.2
  refine Hosted.ext rfl (decide_eq_decide.mpr ?_) rfl rfl rfl
  show (s.connName c, c) ∈ s.connections_.filter _ ↔ _
  simp [hname]

theorem view_erase_self : view { s with connections_ := s.connections_.filter (·.1 ≠ s.connName c) } c =
    { s.view c with mapped := false } := by
  refine Hosted.ext rfl (decide_eq_false ?_) rfl rfl rfl
  show (s.connName c, c) ∉ s.connections_.filter _
  simp

theorem view_conn_self (x : Conn) : view { s with conn := Function.update s.conn c x } c =
    { s.view c with conn := x } := by
  simp only [view, Function.update_self]
  rfl

theorem view_conn_of_ne (h : c ≠ d) (x : Conn) :
    view { s with conn := Function.update s.conn d x } c = s.view c := by
  simp only [view, Function.update_of_ne h]
  rfl

theorem view_loop (x : Loop) : view { s with loop := Function.update s.loop l x } c = { s.view c with
    removing := if loop_ = l then x.todo.count (.removeConnection c) else (s.view c).removing
    todo := if s.getLoop c = l then x.todo.filterMap (Task.job? c) else (s.view c).todo
    active := if s.getLoop c = l then x.loopAt.reports c else (s.view c).active } := by
  refine Hosted.ext rfl rfl ?_ ?_ ?_ <;> simp only [view, Function.update_apply] <;> split <;> rfl

theorem view_setAt {loopAt : At} (hf : loopAt.functors = (s.loop l).loopAt.functors) :
    (s.setAt l loopAt).view c = { s.view c with
      active := if s.getLoop c = l then loopAt.reports c else (s.view c).active } := by
  have htodo : ({ s.loop l with loopAt } : Loop).todo = (s.loop l).todo := by
    rw [Loop.todo, Loop.todo, hf]
  rw [setAt, view_loop, htodo]
  refine Hosted.ext rfl rfl ?_ ?_ rfl <;> dsimp only
  · split
    · rename_i h
      rw [← h]
      rfl
    · rfl
  · split
    · rename_i h
      rw [← h]
      rfl
    · rfl

-- ---------------------------------------------------------------------------
-- What an act does to the views
-- ---------------------------------------------------------------------------

inductive Plain : List Effect → Prop
  | close : Plain [.closeCallback_]
  | queue (jobs : List Job) : Plain (jobs.map .queueInLoop)

theorem sendInLoop_plain (x : Conn) (w : Write) : Plain (x.sendInLoop w).2 := by
  unfold Conn.sendInLoop
  split
  · exact .queue []
  · cases w with
    | all =>
      dsimp only
      split
      · exact .queue [_]
      · exact .queue []
    | rest high =>
      cases high with
      | true => exact .queue [_]
      | false => exact .queue []
    | fault => exact .queue []

theorem forceCloseInLoop_plain (x : Conn) : Plain x.forceCloseInLoop.2 := by
  unfold Conn.forceCloseInLoop
  split
  · exact .close
  · exact .queue []

theorem act_plain (x : Conn) (a : Act) : Plain (x.act a).2 := by
  cases a with
  | handle part input drained =>
    cases part with
    | closeCallback_ => exact .close
    | readCallback_ =>
      cases input with
      | eof => exact .close
      | bytes | error => exact .queue []
    | writeCallback_ =>
      show Plain (x.handleWrite drained).2
      unfold Conn.handleWrite
      split
      · dsimp only
        split
        · exact .queue [_]
        · exact .queue []
      · exact .queue []
  | run job w =>
    cases job with
    | forceCloseInLoop => exact forceCloseInLoop_plain _
    | sendInLoop => exact sendInLoop_plain x w
    | connectEstablished | connectDestroyed | shutdownInLoop | writeCompleteCallback_
    | highWaterMarkCallback_ => exact .queue []
  | call call =>
    cases call with
    | shutdown =>
      show Plain (x.call .shutdown).2
      unfold Conn.call
      dsimp only
      split <;> exact .queue []
    | forceClose =>
      show Plain (x.call .forceClose).2
      unfold Conn.call
      dsimp only
      split
      · exact forceCloseInLoop_plain _
      · exact .queue []
  | send w =>
    show Plain (x.send w).2
    unfold Conn.send
    split
    · exact sendInLoop_plain x w
    · exact .queue []

theorem remote_plain {x : Conn} {r : Remote} {r' : Conn × List Effect} (h : x.remote r = some r') :
    Plain r'.2 := by
  cases r with
  | look call | set call =>
    obtain ⟨_, _, rfl⟩ := Option.map_eq_some_iff.mp h
    exact .queue []
  | queue call =>
    simp only [Conn.remote, Option.ite_none_right_eq_some, Option.some.injEq] at h
    obtain ⟨-, rfl⟩ := h
    exact .queue [_]
  | lookSend =>
    simp only [Conn.remote, Option.ite_none_right_eq_some, Option.some.injEq] at h
    obtain ⟨-, rfl⟩ := h
    exact .queue []
  | queueSend =>
    simp only [Conn.remote, Option.ite_none_right_eq_some, Option.some.injEq] at h
    obtain ⟨-, rfl⟩ := h
    exact .queue [_]

def fixed (s : TcpServer) :
    EventLoopThreadPool Nat × Nat × Bool × Nat × (Nat → Nat) × (Nat → At) :=
  (s.threadpool_, s.started_, s.listenning_, s.nexConnId_, s.getLoop, fun l => (s.loop l).loopAt)

theorem queueInLoop_fixed (s : TcpServer) (l : Nat) (task : Task) :
    (s.queueInLoop l task).fixed = s.fixed := by
  have hat : (fun l' => ((s.queueInLoop l task).loop l').loopAt) = fun l' => (s.loop l').loopAt :=
    funext fun l' => loopAt_queueInLoop task l'
  rw [fixed, hat]
  rfl

theorem apply_fixed (s : TcpServer) (c : Nat) (effect : Effect) :
    (apply c s effect).fixed = s.fixed := by
  cases effect with
  | closeCallback_ =>
    simp only [apply, removeConnection]
    split <;> exact queueInLoop_fixed ..
  | queueInLoop job => exact queueInLoop_fixed ..

theorem applyAll_fixed (s : TcpServer) (c : Nat) (r : Conn × List Effect) :
    (s.applyAll c r).fixed = s.fixed := by
  have hfold : ∀ (effects : List Effect) (s : TcpServer),
      (effects.foldl (apply c) s).fixed = s.fixed := by
    intro effects
    induction effects with
    | nil => exact fun _ => rfl
    | cons effect effects ih => exact fun s => (ih _).trans (apply_fixed ..)
  exact hfold ..

@[simp] theorem apply_nexConnId_ (s : TcpServer) (c : Nat) (effect : Effect) :
    (apply c s effect).nexConnId_ = s.nexConnId_ :=
  congrArg (·.2.2.2.1) (apply_fixed s c effect)

@[simp] theorem applyAll_nexConnId_ (s : TcpServer) (c : Nat) (r : Conn × List Effect) :
    (s.applyAll c r).nexConnId_ = s.nexConnId_ :=
  congrArg (·.2.2.2.1) (applyAll_fixed s c r)

theorem view_removeConnectionInLoop_self : (s.removeConnectionInLoop c).view c =
    { s.view c with mapped := false, todo := (s.view c).todo ++ [.connectDestroyed] } := by
  have hqueue := view_queue_job_self (c := c) .connectDestroyed
    (s := { s with connections_ := s.connections_.filter (·.1 ≠ s.connName c) })
  rw [view_erase_self] at hqueue
  exact hqueue

theorem view_removeConnectionInLoop_of_ne (hw : Placed s) (hc : s.made c) (hd : s.made d)
    (h : c ≠ d) : (s.removeConnectionInLoop d).view c = s.view c := by
  rw [removeConnectionInLoop, view_queue_job_of_ne h, view_erase_of_ne hw hc hd h]

theorem view_removeConnection_of_ne (hw : Placed s) (hc : s.made c) (hd : s.made d) (h : c ≠ d) :
    (s.removeConnection d).view c = s.view c := by
  unfold removeConnection
  split
  · exact view_removeConnectionInLoop_of_ne hw hc hd h
  · exact view_queue_remove_of_ne h

theorem view_queueAll_self (jobs : List Job) : ((jobs.map .queueInLoop).foldl (apply c) s).view c =
    { s.view c with todo := (s.view c).todo ++ jobs } := by
  induction jobs generalizing s with
  | nil => simp
  | cons job jobs ih =>
    rw [List.map_cons, List.foldl_cons, ih, apply, view_queue_job_self]
    simp

theorem view_queueAll_of_ne (h : c ≠ d) (jobs : List Job) :
    ((jobs.map .queueInLoop).foldl (apply d) s).view c = s.view c := by
  induction jobs generalizing s with
  | nil => rfl
  | cons job jobs ih =>
    rw [List.map_cons, List.foldl_cons, ih]
    exact view_queue_job_of_ne h job

theorem Placed.conn (hw : Placed s) (hc : s.made c) (x : Conn) :
    Placed { s with conn := Function.update s.conn c x } where
  number := hw.number
  tasks := hw.tasks
  reported := hw.reported
  entries := hw.entries
  loops := hw.loops
  base := hw.base
  unmade d hd := by
    have hne : d ≠ c := fun h => hd (h ▸ hc)
    exact (Function.update_of_ne hne ..).trans (hw.unmade d hd)

theorem view_applyAll_of_ne (hw : Placed s) (hc : s.made c) (hd : s.made d) (h : c ≠ d)
    {r : Conn × List Effect} (hr : Plain r.2) : (s.applyAll d r).view c = s.view c := by
  obtain ⟨x, effects⟩ := r
  cases hr with
  | close =>
    have hremove := view_removeConnection_of_ne (hw.conn hd x) hc hd h
    rw [view_conn_of_ne h] at hremove
    exact hremove
  | queue jobs =>
    rw [applyAll, view_queueAll_of_ne h, view_conn_of_ne h]

/-- With the close callback on the base loop the server removes the connection at once, which is
two steps of a `Hosted` one. -/
theorem reach_applyAll_self {C : Hosted → Hosted.Event → Prop} (hC : ∀ h, C h .removeConnectionInLoop)
    {r : Conn × List Effect} (hr : Plain r.2) :
    Reach Hosted.step C ((s.view c).applyAll r) ((s.applyAll c r).view c) := by
  obtain ⟨x, effects⟩ := r
  cases hr with
  | close =>
    have hclose : (s.applyAll c (x, [.closeCallback_])).view c =
        (if s.getLoop c = loop_ then
          { s.view c with conn := x, mapped := false, todo := (s.view c).todo ++ [.connectDestroyed] }
        else { s.view c with conn := x, removing := (s.view c).removing + 1 }) := by
      show (removeConnection { s with conn := Function.update s.conn c x } c).view c = _
      unfold removeConnection
      split
      · rw [view_removeConnectionInLoop_self, view_conn_self]
      · rw [view_queue_remove_self, view_conn_self]
    rw [hclose, Hosted.applyAll_close]
    split
    · refine .tail .refl (hC _) ?_
      simp [Hosted.step]
    · exact .refl
  | queue jobs =>
    rw [applyAll, view_queueAll_self, view_conn_self, Hosted.applyAll_map]
    exact .refl

end TcpServer

end VortexNet
