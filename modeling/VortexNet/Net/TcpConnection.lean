import VortexNet.Utils.BufferQueue

/-!
# Writing on a connection

`TcpConnection.cc`: `send`, `shutdown` and `handleWrite` on the loop thread. A
`send` writes to the socket at once when nothing is waiting, and what the
socket does not take goes to `outputBuffer_`, with write interest enabled until
`handleWrite` has written it all. The FIN of `shutdown` waits for that too.

What the socket has taken, followed by `outputBuffer_`, is all that was sent.
-/

namespace VortexNet

open Systems (Reach exec)

namespace TcpConnection

inductive StateE
  | kDisconnected
  | kConnecting
  | kConnected
  | kDisconnecting
  deriving DecidableEq

inductive Errno
  | EWOULDBLOCK
  | EPIPE
  | ECONNRESET
  | other (errno : Nat)
  deriving DecidableEq

/-- What `::write` can do: take the first bytes, or return -1 with an errno. -/
inductive Written
  | bytes (n : Nat)
  | error (errno : Errno)
  deriving DecidableEq

inductive Functor
  | writeComplete
  | highWaterMark (len : Nat)
  deriving DecidableEq

end TcpConnection

/-- `writing` is `channel_->IsWriteEnabled()`. The last three fields are outside
the object: the bytes the socket has taken, those it had taken at each
`shutdownWrite()`, and the data of the sends that found `kConnected`. -/
structure TcpConnection where
  state_ : TcpConnection.StateE := .kConnecting
  writing : Bool := false
  outputBuffer_ : Buffer := {}
  highWaterMark_ : Nat := 64 * 1024 * 1024
  writeCompleteCallback_ : Bool := false
  highWaterMarkCallback_ : Bool := false
  queued : List TcpConnection.Functor := []
  written : Bytes := []
  fins : List Bytes := []
  sent : Bytes := []
  deriving DecidableEq

namespace TcpConnection

def connectEstablished (conn : TcpConnection) : TcpConnection := { conn with state_ := .kConnected }

def enableWriting (conn : TcpConnection) : TcpConnection := { conn with writing := true }

def disableWriting (conn : TcpConnection) : TcpConnection := { conn with writing := false }

def queueInLoop (conn : TcpConnection) (functor : Functor) : TcpConnection :=
  { conn with queued := conn.queued ++ [functor] }

/-- The socket takes `data`. -/
def take (conn : TcpConnection) (data : Bytes) : TcpConnection :=
  { conn with written := conn.written ++ data }

def shutdownWrite (conn : TcpConnection) : TcpConnection :=
  { conn with fins := conn.fins ++ [conn.written] }

def queueWriteComplete (conn : TcpConnection) : TcpConnection :=
  if conn.writeCompleteCallback_ then conn.queueInLoop .writeComplete else conn

/-- The first part of `sendInLoop`, with `nwrote` and `faultError`. -/
def writeNow (conn : TcpConnection) (data : Bytes) : Written → TcpConnection × Nat × Bool
  | .bytes nwrote =>
    let conn := conn.take (data.take nwrote)
    (if data.length - nwrote = 0 then conn.queueWriteComplete else conn, nwrote, false)
  | .error errno => (conn, 0, errno = .EPIPE || errno = .ECONNRESET)

def queueHighWaterMark (conn : TcpConnection) (oldlen remaining : Nat) : TcpConnection :=
  if conn.highWaterMark_ ≤ szAdd oldlen remaining && oldlen < conn.highWaterMark_ &&
      conn.highWaterMarkCallback_ then
    conn.queueInLoop (.highWaterMark (szAdd oldlen remaining))
  else conn

/-- The second part of `sendInLoop`; `none` when the vector of `outputBuffer_`
would be longer than a vector can be. -/
def keep (conn : TcpConnection) (remaining : Bytes) : Option TcpConnection :=
  if conn.outputBuffer_.throws remaining.length then none
  else (conn.outputBuffer_.append remaining remaining.length).map fun outputBuffer_ =>
    ({ conn.queueHighWaterMark conn.outputBuffer_.readableBytes remaining.length with
      outputBuffer_ }).enableWriting

def sendInLoop (conn : TcpConnection) (data : Bytes) (w : Written) : Option TcpConnection :=
  if conn.state_ = .kDisconnected then some conn
  else
    let (conn, nwrote, faultError) :=
      if !conn.writing && conn.outputBuffer_.readableBytes = 0 then conn.writeNow data w
      else (conn, 0, false)
    if !faultError && 0 < data.length - nwrote then conn.keep (data.drop nwrote) else some conn

def send (conn : TcpConnection) (data : Bytes) (w : Written) : Option TcpConnection :=
  if conn.state_ = .kConnected then { conn with sent := conn.sent ++ data }.sendInLoop data w
  else some conn

def sendBuffer (conn : TcpConnection) (buf : Buffer) (w : Written) :
    Option (TcpConnection × Buffer) :=
  if conn.state_ = .kConnected then (conn.send buf.readable w).map fun conn => (conn, buf.retrieveAll)
  else some (conn, buf)

def shutdownInLoop (conn : TcpConnection) : TcpConnection :=
  if !conn.writing then conn.shutdownWrite else conn

def shutdown (conn : TcpConnection) : TcpConnection :=
  if conn.state_ = .kConnected then { conn with state_ := .kDisconnecting }.shutdownInLoop else conn

def flush (conn : TcpConnection) (n : Nat) : TcpConnection :=
  { conn with
    written := conn.written ++ conn.outputBuffer_.readable.take n
    outputBuffer_ := conn.outputBuffer_.retrieve n }

def flushed (conn : TcpConnection) : TcpConnection :=
  if conn.outputBuffer_.readableBytes = 0 then
    let conn := conn.disableWriting.queueWriteComplete
    if conn.state_ = .kDisconnecting then conn.shutdownInLoop else conn
  else conn

def handleWrite (conn : TcpConnection) (w : Written) : TcpConnection :=
  if conn.writing then
    match w with
    | .bytes n => if 0 < n then (conn.flush n).flushed else conn
    | .error _ => conn
  else conn

-- ---------------------------------------------------------------------------
-- Runs
-- ---------------------------------------------------------------------------

/-- What can happen on the loop thread before the connection is closed. -/
inductive Event
  | send (data : Bytes) (w : Written)
  | sendBuffer (buf : Buffer) (w : Written)
  | shutdown
  | handleWrite (w : Written)
  deriving DecidableEq

def step (conn : TcpConnection) : Event → Option TcpConnection
  | .send data w => conn.send data w
  | .sendBuffer buf w => (conn.sendBuffer buf w).map Prod.fst
  | .shutdown => some conn.shutdown
  | .handleWrite w => some (conn.handleWrite w)

/-- `::write` takes no more than it is offered, and does not say that the peer has gone. -/
def Written.Fits (asked : Nat) : Written → Prop
  | .bytes n => n ≤ asked
  | .error errno => errno ≠ .EPIPE ∧ errno ≠ .ECONNRESET

/-- Arrays of real size, buffers in order and writes that fit. -/
def Allowed (conn : TcpConnection) : Event → Prop
  | .send data w => data.length ≤ Buffer.max_size ∧ w.Fits data.length
  | .sendBuffer buf w => buf.Sound ∧ w.Fits buf.readableBytes
  | .shutdown => True
  | .handleWrite w => w.Fits conn.outputBuffer_.readableBytes

/-- Nothing sent is lost or overtaken, and the FIN comes once, after all of it. -/
structure InOrder (conn : TcpConnection) : Prop where
  stream : conn.written ++ conn.outputBuffer_.readable = conn.sent
  interest : conn.writing = true ↔ conn.outputBuffer_.readable ≠ []
  once : conn.fins.length ≤ 1
  last : ∀ written ∈ conn.fins, written = conn.sent

-- ---------------------------------------------------------------------------
-- One event
-- ---------------------------------------------------------------------------

variable {conn conn' : TcpConnection} {data remaining : Bytes} {w : Written} {functor : Functor}

structure Same (conn conn' : TcpConnection) : Prop where
  state_ : conn'.state_ = conn.state_
  writing : conn'.writing = conn.writing
  outputBuffer_ : conn'.outputBuffer_ = conn.outputBuffer_
  written : conn'.written = conn.written
  fins : conn'.fins = conn.fins
  sent : conn'.sent = conn.sent

theorem same_queueWriteComplete : Same conn conn.queueWriteComplete := by
  unfold queueWriteComplete
  split <;> exact ⟨rfl, rfl, rfl, rfl, rfl, rfl⟩

theorem same_queueHighWaterMark (conn : TcpConnection) (oldlen n : Nat) :
    Same conn (conn.queueHighWaterMark oldlen n) := by
  unfold queueHighWaterMark
  split <;> exact ⟨rfl, rfl, rfl, rfl, rfl, rfl⟩

/-- `rest` is what of the data sent is neither written nor in the buffer. -/
structure Owes (conn : TcpConnection) (rest : Bytes) : Prop where
  sound : conn.outputBuffer_.Sound
  stream : conn.written ++ conn.outputBuffer_.readable ++ rest = conn.sent
  interest : conn.writing = true ↔ conn.outputBuffer_.readable ≠ []
  fin : conn.fins = [] ∨ conn.fins = [conn.sent] ∧ conn.writing = false ∧ conn.state_ ≠ .kConnected

theorem Owes.same (h : Owes conn rest) (hs : Same conn conn') : Owes conn' rest := by
  obtain ⟨h1, h2, h3, h4⟩ := h
  exact ⟨hs.outputBuffer_ ▸ h1, by rw [hs.written, hs.outputBuffer_, hs.sent, h2],
    by rw [hs.writing, hs.outputBuffer_, h3], by rw [hs.fins, hs.sent, hs.writing, hs.state_]; exact h4⟩

theorem Owes.inOrder (h : Owes conn []) : InOrder conn := by
  refine ⟨by simpa using h.stream, h.interest, ?_, ?_⟩
  · rcases h.fin with hf | ⟨hf, -⟩ <;> simp [hf]
  · rcases h.fin with hf | ⟨hf, -⟩ <;> simp [hf]

theorem Owes.take (h : Owes conn data) (hempty : conn.outputBuffer_.readable = []) (n : Nat) :
    Owes (conn.take (data.take n)) (data.drop n) where
  sound := h.sound
  stream := by
    have hs : conn.written ++ data = conn.sent := by simpa [hempty] using h.stream
    simp [TcpConnection.take, hempty, List.take_append_drop, hs]
  interest := h.interest
  fin := h.fin

theorem Owes.writeNow (h : Owes conn data) (hempty : conn.outputBuffer_.readable = [])
    (hw : w.Fits data.length) :
    ∃ conn' nwrote, conn.writeNow data w = (conn', nwrote, false) ∧ Owes conn' (data.drop nwrote) ∧
      conn'.fins = conn.fins := by
  cases w with
  | bytes n =>
    have ht := h.take hempty n
    refine ⟨_, n, rfl, ?_, ?_⟩
    · split
      · exact ht.same same_queueWriteComplete
      · exact ht
    · split
      · exact same_queueWriteComplete.fins
      · rfl
  | error errno =>
    refine ⟨conn, 0, ?_, h, rfl⟩
    simp [TcpConnection.writeNow, hw.1, hw.2]

theorem Owes.keep (h : Owes conn remaining) (hfins : conn.fins = []) (hne : remaining ≠ [])
    (hsize : remaining.length ≤ Buffer.max_size) (hk : conn.keep remaining = some conn') :
    Owes conn' [] := by
  unfold TcpConnection.keep at hk
  cases ht : conn.outputBuffer_.throws remaining.length with
  | true => simp [ht] at hk
  | false =>
    obtain ⟨b, happ, hb, hread⟩ := h.sound.append ⟨remaining, hsize⟩ ht
    simp only [ht, happ, Option.map_some, Option.some.injEq, Bool.false_eq_true, if_false] at hk
    have hs := same_queueHighWaterMark conn conn.outputBuffer_.readableBytes remaining.length
    subst hk
    refine ⟨hb, ?_, ?_, ?_⟩
    · simp only [enableWriting, hs.written, hs.sent, hread, List.append_nil, ← h.stream,
        List.append_assoc]
    · simp [enableWriting, hread, hne]
    · exact .inl (hs.fins.trans hfins)

theorem Owes.sendInLoop (h : Owes conn data) (hst : conn.state_ ≠ .kDisconnected)
    (hfins : conn.fins = []) (hsize : data.length ≤ Buffer.max_size) (hw : w.Fits data.length)
    (hs : conn.sendInLoop data w = some conn') : Owes conn' [] := by
  have htail : ∀ conn n, Owes conn (data.drop n) → conn.fins = [] →
      (if !false && 0 < data.length - n then conn.keep (data.drop n) else some conn) = some conn' →
      Owes conn' [] := by
    intro conn n h hfins hs
    split at hs
    · rename_i hlt
      have hne : 0 < (data.drop n).length := by
        rw [List.length_drop]
        exact of_decide_eq_true (Bool.and_eq_true_iff.mp hlt).2
      exact h.keep hfins (List.length_pos_iff.mp hne) (by rw [List.length_drop]; omega) hs
    · rename_i hle
      have hnot : ¬ 0 < data.length - n := fun hpos => hle (by rw [decide_eq_true hpos]; rfl)
      have hnil : data.drop n = [] := List.drop_eq_nil_of_le (by omega)
      cases hs
      exact hnil ▸ h
  unfold TcpConnection.sendInLoop at hs
  rw [if_neg hst] at hs
  split at hs
  rename_i conn₁ nwrote faultError hnow
  split at hnow
  · rename_i hdirect
    have hempty : conn.outputBuffer_.readable = [] :=
      h.sound.readable_eq_nil.mpr (by simpa using (Bool.and_eq_true_iff.mp hdirect).2)
    obtain ⟨conn₂, n, heq, howes, hsame⟩ := h.writeNow hempty hw
    cases heq.symm.trans hnow
    exact htail _ _ howes (hsame.trans hfins) hs
  · cases hnow
    exact htail _ 0 h hfins hs

theorem Owes.send (h : Owes conn []) (hsize : data.length ≤ Buffer.max_size)
    (hw : w.Fits data.length) (hs : conn.send data w = some conn') : Owes conn' [] := by
  unfold TcpConnection.send at hs
  split at hs
  · rename_i hst
    have hfins : conn.fins = [] := h.fin.resolve_right fun hf => hf.2.2 hst
    have howes : Owes { conn with sent := conn.sent ++ data } data :=
      ⟨h.sound, by simp [← h.stream], h.interest, .inl hfins⟩
    exact howes.sendInLoop (by simp [hst]) hfins hsize hw hs
  · cases hs
    exact h

theorem Owes.shutdownInLoop (h : Owes conn []) (hfins : conn.fins = [])
    (hst : conn.state_ ≠ .kConnected) : Owes conn.shutdownInLoop [] := by
  unfold TcpConnection.shutdownInLoop
  cases hwriting : conn.writing with
  | true => exact h
  | false =>
    have hempty : conn.outputBuffer_.readable = [] := by
      by_contra hne
      exact Bool.noConfusion (hwriting.symm.trans (h.interest.mpr hne))
    have hall : conn.written = conn.sent := by simpa [hempty] using h.stream
    refine ⟨h.sound, h.stream, h.interest, .inr ⟨?_, hwriting, hst⟩⟩
    simp [shutdownWrite, hfins, hall]

theorem Owes.shutdown (h : Owes conn []) : Owes conn.shutdown [] := by
  unfold TcpConnection.shutdown
  split
  · rename_i hst
    have hfins : conn.fins = [] := h.fin.resolve_right fun hf => hf.2.2 hst
    have howes : Owes { conn with state_ := .kDisconnecting } [] :=
      ⟨h.sound, h.stream, h.interest, .inl hfins⟩
    exact howes.shutdownInLoop hfins (by simp)
  · exact h

-- `rfl` would compare `conn.flush n` with `conn`, and look into `retrieve` for it.
theorem flush_fields (conn : TcpConnection) (n : Nat) : (conn.flush n).state_ = conn.state_ ∧
    (conn.flush n).writing = conn.writing ∧ (conn.flush n).fins = conn.fins ∧
    (conn.flush n).sent = conn.sent := by
  unfold flush
  exact ⟨rfl, rfl, rfl, rfl⟩

theorem Owes.flush (h : Owes conn []) (n : Nat) : (conn.flush n).outputBuffer_.Sound ∧
    (conn.flush n).written ++ (conn.flush n).outputBuffer_.readable = (conn.flush n).sent := by
  have hread : (conn.outputBuffer_.retrieve n).readable = conn.outputBuffer_.readable.drop n :=
    h.sound.ok.retrieve_readable h.sound.size_lt
  have hs : conn.written ++ conn.outputBuffer_.readable = conn.sent := by simpa using h.stream
  unfold TcpConnection.flush
  refine ⟨h.sound.retrieve n, ?_⟩
  rw [hread, List.append_assoc, List.take_append_drop, hs]

theorem owes_flushed (hsound : conn.outputBuffer_.Sound)
    (hstream : conn.written ++ conn.outputBuffer_.readable = conn.sent) (hfins : conn.fins = [])
    (hwriting : conn.writing = true) : Owes conn.flushed [] := by
  have hstream' : conn.written ++ conn.outputBuffer_.readable ++ [] = conn.sent := by
    rw [List.append_nil, hstream]
  unfold TcpConnection.flushed
  split
  · rename_i hempty
    have hnil : conn.outputBuffer_.readable = [] := hsound.readable_eq_nil.mpr hempty
    have hoff : Owes conn.disableWriting [] :=
      ⟨hsound, hstream', iff_of_false Bool.false_ne_true (not_not_intro hnil), .inl hfins⟩
    have howes := hoff.same same_queueWriteComplete
    -- The FIN that `shutdown` has put off.
    dsimp only
    split
    · rename_i hst
      exact howes.shutdownInLoop (same_queueWriteComplete.fins.trans hfins) (by rw [hst]; simp)
    · exact howes
  · rename_i hne
    exact ⟨hsound, hstream', iff_of_true hwriting (mt hsound.readable_eq_nil.mp hne), .inl hfins⟩

theorem Owes.handleWrite (h : Owes conn []) : Owes (conn.handleWrite w) [] := by
  unfold TcpConnection.handleWrite
  split
  · rename_i hwriting
    have hfins : conn.fins = [] :=
      h.fin.resolve_right fun hf => Bool.noConfusion (hwriting.symm.trans hf.2.1)
    cases w with
    | error errno => exact h
    | bytes n =>
      obtain ⟨hsound, hstream⟩ := h.flush n
      obtain ⟨-, hw, hf, -⟩ := flush_fields conn n
      dsimp only
      split
      · exact owes_flushed hsound hstream (hf.trans hfins) (hw.trans hwriting)
      · exact h
  · exact h

theorem Owes.step (h : Owes conn []) (ha : Allowed conn e) (hs : step conn e = some conn') :
    Owes conn' [] := by
  cases e with
  | send data w => exact h.send ha.1 ha.2 hs
  | sendBuffer buf w =>
    obtain ⟨hbuf, hw⟩ := ha
    simp only [TcpConnection.step, TcpConnection.sendBuffer] at hs
    split at hs
    · simp only [Option.map_map, Option.map_eq_some_iff, Function.comp_apply] at hs
      obtain ⟨conn₁, hsend, rfl⟩ := hs
      have hlen := hbuf.ok.length_readable hbuf.size_lt
      have hread := hbuf.ok.readableBytes_eq hbuf.size_lt
      have hwriter := hbuf.ok.writer_le
      have hsize := hbuf.size
      exact h.send (by omega) (hlen ▸ hw) hsend
    · cases hs
      exact h
  | shutdown => cases hs; exact h.shutdown
  | handleWrite w => cases hs; exact h.handleWrite

-- ---------------------------------------------------------------------------
-- Runs
-- ---------------------------------------------------------------------------

/-- An established connection, with its callbacks and their mark. -/
def established (highWaterMark_ : Nat) (writeCompleteCallback_ highWaterMarkCallback_ : Bool) :
    TcpConnection :=
  ({ highWaterMark_, writeCompleteCallback_, highWaterMarkCallback_ } : TcpConnection).connectEstablished

theorem owes_established : Owes (established mark complete high) [] where
  sound := ⟨Buffer.fresh_ok, Buffer.fresh_size⟩
  stream := rfl
  interest := iff_of_false Bool.false_ne_true (not_not_intro Windows.window_self)
  fin := .inl rfl

theorem writes_in_order (h : Reach step Allowed (established mark complete high) conn) :
    InOrder conn :=
  Owes.inOrder (h.invariant (I := fun conn => Owes conn []) owes_established
    fun _ _ _ howes ha hs => howes.step ha hs)

instance : Decidable (Written.Fits n w) :=
  match w with
  | .bytes _ => inferInstanceAs (Decidable (_ ≤ _))
  | .error _ => inferInstanceAs (Decidable (_ ∧ _))

instance (b : Buffer) : Decidable b.Sound :=
  decidable_of_iff
    (kCheapPrepend_ ≤ b.readerIndex_ ∧ b.readerIndex_ ≤ b.writerIndex_ ∧
      b.writerIndex_ ≤ b.buffer_.length ∧ b.buffer_.length ≤ Buffer.max_size)
    ⟨fun ⟨h1, h2, h3, h4⟩ => ⟨⟨h1, h2, h3⟩, h4⟩, fun ⟨⟨h1, h2, h3⟩, h4⟩ => ⟨h1, h2, h3, h4⟩⟩

instance (conn : TcpConnection) (e : Event) : Decidable (Allowed conn e) :=
  match e with
  | .send _ _ | .sendBuffer _ _ => inferInstanceAs (Decidable (_ ∧ _))
  | .shutdown => .isTrue trivial
  | .handleWrite _ => inferInstanceAs (Decidable (Written.Fits _ _))

/-- A `send` that the socket takes in part, one that waits, `shutdown`, and the
two writes that empty `outputBuffer_`. -/
def partialRun : List Event :=
  [.send [1, 2, 3, 4] (.bytes 1), .sendBuffer {} (.bytes 0), .send [5, 6] (.bytes 0), .shutdown,
    .send [7] (.bytes 1), .handleWrite (.bytes 2), .handleWrite (.error .EWOULDBLOCK),
    .handleWrite (.bytes 3)]

theorem writes_in_order_partial : ∃ conn,
    exec step Allowed (established 4 true true) partialRun = some conn ∧
      conn.fins = [[1, 2, 3, 4, 5, 6]] ∧ conn.queued = [.highWaterMark 5, .writeComplete] ∧
      InOrder conn := by
  have hrun : (exec step Allowed (established 4 true true) partialRun).any (fun conn =>
      conn.fins = [[1, 2, 3, 4, 5, 6]] ∧ conn.queued = [.highWaterMark 5, .writeComplete]) = true := by
    decide +kernel
  obtain ⟨conn, hconn, hall⟩ := (Option.any_eq_true _ _).mp hrun
  obtain ⟨hfins, hqueued⟩ := of_decide_eq_true hall
  exact ⟨conn, hconn, hfins, hqueued, writes_in_order (.of_exec hconn)⟩

end TcpConnection

end VortexNet
