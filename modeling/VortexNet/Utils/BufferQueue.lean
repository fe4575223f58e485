import VortexNet.Lib.Reach
import VortexNet.Utils.Buffer

/-!
# The buffer is a queue

Calls on a buffer and on the byte queue that it stands for, side by side. A call
that asks the vector for more than `max_size()` throws `std::length_error` and
changes nothing. The two agree as long as no call of `ensureWriteableBytes` asks
for so much that the new size wraps around: then the vector shrinks under the
readable bytes.
-/

namespace VortexNet

open Windows
open Systems (Reach Always exec)

namespace Buffer

/-- An array in memory; none is longer than a `ptrdiff_t` can say. -/
structure Source where
  data : Bytes
  fits : data.length ≤ max_size

inductive Op
  | append (source : Source)
  | retrieve (n : Nat)
  | retrieveAll
  | retrieveAllAsString (n : Nat)
  | ensureWriteableBytes (len : UInt64)

inductive Result
  | returns (b : Buffer) (s : Bytes)
  | length_error
  | undefined

/-- `resize` is called with more than `max_size()`. -/
def throws (b : Buffer) (len : Nat) : Bool :=
  b.writeableBytes < len && szAdd b.writeableBytes b.prependableBytes < szAdd len kCheapPrepend_ &&
    max_size < szAdd b.writerIndex_ len

def call (b : Buffer) : Op → Result
  | .append source =>
    if b.throws source.data.length then .length_error
    else match b.append source.data source.data.length with
      | some b' => .returns b' []
      | none => .undefined
  | .retrieve n => .returns (b.retrieve n) []
  | .retrieveAll => .returns b.retrieveAll []
  | .retrieveAllAsString n =>
    if b.readerIndex_ + n ≤ b.buffer_.length then
      .returns (b.retrieve n) (window b.buffer_ b.readerIndex_ (b.readerIndex_ + n))
    else .undefined
  | .ensureWriteableBytes len =>
    if b.throws len.toNat then .length_error else .returns (b.ensureWriteableBytes len.toNat) []

def Valid (b : Buffer) : Op → Prop
  | .retrieve n => n ≤ b.readableBytes
  | .retrieveAllAsString n => n ≤ b.readableBytes
  | _ => True

def Op.onQueue (queue : Bytes) : Op → Bytes × Bytes
  | .append source => (queue ++ source.data, [])
  | .retrieve n => (queue.drop n, [])
  | .retrieveAll => ([], [])
  | .retrieveAllAsString n => (queue.drop n, queue.take n)
  | .ensureWriteableBytes _ => (queue, [])

structure Pair where
  buffer : Buffer := {}
  queue : Bytes := []
  results : List Bytes := []
  expected : List Bytes := []

instance (b : Buffer) (op : Op) : Decidable (b.Valid op) :=
  match op with
  | .retrieve _ => inferInstanceAs (Decidable (_ ≤ _))
  | .retrieveAllAsString _ => inferInstanceAs (Decidable (_ ≤ _))
  | .append _ | .retrieveAll | .ensureWriteableBytes _ => .isTrue trivial

/-- A valid call that returns. -/
def step (p : Pair) (op : Op) : Option Pair :=
  if p.buffer.Valid op then
    match p.buffer.call op with
    | .returns b s => some {
        buffer := b
        queue := (op.onQueue p.queue).1
        results := s :: p.results
        expected := (op.onQueue p.queue).2 :: p.expected }
    | .length_error => none
    | .undefined => none
  else none

/-- The buffer is in order and holds what the queue does; every valid call is defined, and an
`append` that does not throw has made its room before it copies. -/
structure Faithful (p : Pair) : Prop where
  ok : p.buffer.Ok
  readable : p.buffer.readable = p.queue
  results : p.results = p.expected
  defined : ∀ op, p.buffer.Valid op → p.buffer.call op ≠ .undefined
  room : ∀ source : Source, p.buffer.throws source.data.length = false →
    source.data.length ≤ (p.buffer.ensureWriteableBytes source.data.length).writeableBytes

/-- `writerIndex_ + len` does not wrap around, or `len + kCheapPrepend_` does as well. -/
def Grows (p : Pair) : Op → Prop
  | .ensureWriteableBytes len =>
    len.toNat + kCheapPrepend_ < 2 ^ 64 → p.buffer.writerIndex_ + len.toNat < 2 ^ 64
  | _ => True

-- ---------------------------------------------------------------------------
-- One call
-- ---------------------------------------------------------------------------

variable {b b' : Buffer} {len n : Nat} {p p' : Pair} {op : Op}

structure Sound (b : Buffer) : Prop where
  ok : b.Ok
  size : b.buffer_.length ≤ max_size

theorem Sound.size_lt (hb : b.Sound) : b.buffer_.length < 2 ^ 64 := by
  have := hb.size
  unfold max_size at this
  omega

theorem Sound.readable_eq_nil (hb : b.Sound) : b.readable = [] ↔ b.readableBytes = 0 := by
  rw [← hb.ok.length_readable hb.size_lt, List.length_eq_zero_iff]

theorem Sound.retrieve (hb : b.Sound) (n : Nat) : (b.retrieve n).Sound := by
  refine ⟨hb.ok.retrieve_ok hb.size_lt, ?_⟩
  unfold Buffer.retrieve
  split <;> exact hb.size

theorem Sound.retrieveAll (hb : b.Sound) : b.retrieveAll.Sound := by
  obtain ⟨⟨h1, h2, h3⟩, hs⟩ := hb
  exact ⟨⟨Nat.le_refl _, Nat.le_refl _, h1.trans (h2.trans h3)⟩, hs⟩

theorem Sound.ensureWriteableBytes (hb : b.Sound) (ht : b.throws len = false) (hlen : len < 2 ^ 64)
    (hg : len + kCheapPrepend_ < 2 ^ 64 → b.writerIndex_ + len < 2 ^ 64) :
    (b.ensureWriteableBytes len).Sound ∧ (b.ensureWriteableBytes len).readable = b.readable := by
  have hwrite := hb.ok.writeableBytes_eq hb.size_lt
  have h3 := hb.ok.writer_le
  unfold Buffer.ensureWriteableBytes
  split
  case isFalse => exact ⟨hb, rfl⟩
  case isTrue hlt =>
    rw [hb.ok.makeSpace_eq hb.size]
    split
    · rename_i hgrow
      have hnowrap : len + kCheapPrepend_ < 2 ^ 64 := by
        by_contra hwrap
        have h1 := hb.ok.prepend_le
        unfold szAdd at hgrow
        simp only [kCheapPrepend_] at h1 hwrap hgrow
        omega
      have hn : szAdd b.writerIndex_ len = b.writerIndex_ + len := szAdd_eq (hg hnowrap)
      have hle : szAdd b.writerIndex_ len ≤ max_size := by
        have hfree : szAdd b.writeableBytes b.prependableBytes < szAdd len kCheapPrepend_ := by
          have hs := hb.size
          have h2 := hb.ok.reader_le
          unfold max_size at hs
          rw [szAdd_eq (a := b.writeableBytes) (by rw [hwrite, prependableBytes]; omega), hwrite]
          exact hgrow
        simpa [throws, hlt, hfree] using ht
      obtain ⟨hok, hread, hsize⟩ := hb.ok.grow (n := szAdd b.writerIndex_ len) (by omega)
      exact ⟨⟨hok, hsize.trans_le hle⟩, hread⟩
    · obtain ⟨hok, hread, hsize, -⟩ := hb.ok.compact hb.size
      exact ⟨⟨hok, hsize.trans_le hb.size⟩, hread⟩

theorem Sound.room (hb : b.Sound) (hlen : len ≤ max_size) (ht : b.throws len = false) :
    len ≤ (b.ensureWriteableBytes len).writeableBytes := by
  have hlen' : len ≤ 2 ^ 63 := by unfold max_size at hlen; omega
  have hroom := (hb.ok.ensureWriteableBytes hb.size hlen').room
  have h3 := hb.ok.writer_le
  have hs := hb.size
  unfold max_size at hlen hs
  obtain ⟨hsound, -⟩ := hb.ensureWriteableBytes ht (by omega) (fun _ => by omega)
  rw [hsound.ok.writeableBytes_eq hsound.size_lt]
  omega

theorem Sound.append (hb : b.Sound) (source : Source)
    (ht : b.throws source.data.length = false) :
    ∃ b', b.append source.data source.data.length = some b' ∧ b'.Sound ∧
      b'.readable = b.readable ++ source.data := by
  have hfits := source.fits
  have h3 := hb.ok.writer_le
  have hs := hb.size
  unfold max_size at hfits hs
  have hlen : source.data.length ≤ 2 ^ 63 := by omega
  obtain ⟨hok, hread, -⟩ := hb.ok.extend hb.size hlen
  obtain ⟨hsound, -⟩ := hb.ensureWriteableBytes ht (by omega) (fun _ => by omega)
  have hroom := (hb.ok.ensureWriteableBytes hb.size hlen).room
  exact ⟨_, hb.ok.append hb.size List.take_length hlen,
    ⟨hok, (length_overwrite hroom).trans_le hsound.size⟩, hread⟩

theorem Sound.call (hb : b.Sound) (hv : b.Valid op)
    (hg : ∀ len, op = .ensureWriteableBytes len → len.toNat + kCheapPrepend_ < 2 ^ 64 →
      b.writerIndex_ + len.toNat < 2 ^ 64) :
    b.call op = .length_error ∨ ∃ b', b.call op = .returns b' (op.onQueue b.readable).2 ∧
      b'.Sound ∧ b'.readable = (op.onQueue b.readable).1 := by
  cases op with
  | append source =>
    cases ht : b.throws source.data.length with
    | true => exact .inl (by simp [Buffer.call, ht])
    | false =>
      obtain ⟨b', happ, hsound, hread⟩ := hb.append source ht
      exact .inr ⟨b', by simp [Buffer.call, ht, happ, Op.onQueue], hsound, hread⟩
  | retrieve n => exact .inr ⟨_, rfl, hb.retrieve n, hb.ok.retrieve_readable hb.size_lt⟩
  | retrieveAll => exact .inr ⟨_, rfl, hb.retrieveAll, window_self⟩
  | retrieveAllAsString n =>
    have hv : n ≤ b.readableBytes := hv
    have hr := hb.ok.readableBytes_eq hb.size_lt
    have h2 := hb.ok.reader_le
    have h3 := hb.ok.writer_le
    refine .inr ⟨_, ?_, hb.retrieve n, hb.ok.retrieve_readable hb.size_lt⟩
    rw [Buffer.call, if_pos (by omega), Op.onQueue, readable, take_window (by omega)]
  | ensureWriteableBytes len =>
    cases ht : b.throws len.toNat with
    | true => exact .inl (by simp [Buffer.call, ht])
    | false =>
      obtain ⟨hsound, hread⟩ := hb.ensureWriteableBytes ht len.toNat_lt (hg len rfl)
      exact .inr ⟨_, by simp [Buffer.call, ht, Op.onQueue], hsound, hread⟩

theorem Sound.defined (hb : b.Sound) (hv : b.Valid op) : b.call op ≠ .undefined := by
  cases op with
  | ensureWriteableBytes len =>
    simp only [Buffer.call]
    split <;> simp
  | _ =>
    rcases hb.call hv (fun _ hop => by cases hop) with h | ⟨_, h, -⟩
    · simp [h]
    · simp [h]

theorem length_resize : (b.resize n).buffer_.length = n := by
  simp only [resize, List.length_append, List.length_take, List.length_replicate]
  omega

theorem resize_writerIndex : (b.resize n).writerIndex_ = b.writerIndex_ := rfl

/-- A request whose size wraps around shrinks the vector under the readable bytes. -/
theorem Sound.shrinks (hb : b.Sound) (hlen : len < 2 ^ 64) (hn : len + kCheapPrepend_ < 2 ^ 64)
    (hw : 2 ^ 64 ≤ b.writerIndex_ + len) :
    b.throws len = false ∧ ¬ (b.ensureWriteableBytes len).Ok := by
  have hwrite := hb.ok.writeableBytes_eq hb.size_lt
  have h2 := hb.ok.reader_le
  have h3 := hb.ok.writer_le
  have hs := hb.size
  have hwrap : szAdd b.writerIndex_ len = b.writerIndex_ + len - 2 ^ 64 := by
    unfold szAdd max_size at *
    omega
  have hfree : szAdd len kCheapPrepend_ = len + kCheapPrepend_ := szAdd_eq hn
  unfold max_size at hs
  constructor
  · simp only [throws, hwrap, Bool.and_eq_false_iff, decide_eq_false_iff_not, max_size]
    omega
  · have hshrunk : b.ensureWriteableBytes len = b.resize (b.writerIndex_ + len - 2 ^ 64) := by
      rw [Buffer.ensureWriteableBytes, if_pos (by omega), hb.ok.makeSpace_eq hb.size, hfree,
        if_pos (by unfold kCheapPrepend_; omega), hwrap]
    intro hok
    have hle := hok.writer_le
    rw [hshrunk, length_resize, resize_writerIndex] at hle
    omega

-- ---------------------------------------------------------------------------
-- Runs
-- ---------------------------------------------------------------------------

structure Agree (p : Pair) : Prop where
  sound : p.buffer.Sound
  readable : p.buffer.readable = p.queue
  results : p.results = p.expected

theorem agree_init : Agree {} := ⟨⟨fresh_ok, fresh_size⟩, window_self, rfl⟩

theorem Agree.step (hp : Agree p) (hg : Grows p op) (hs : step p op = some p') : Agree p' := by
  simp only [Buffer.step] at hs
  split at hs
  case isFalse => cases hs
  case isTrue hv =>
    rcases hp.sound.call hv (fun len hop => by subst hop; exact hg) with hthrow | ⟨b, hcall, hb, hread⟩
    · simp [hthrow] at hs
    · simp only [hcall, Option.some.injEq] at hs
      subst hs
      exact ⟨hb, hp.readable ▸ hread, by rw [hp.readable, hp.results]⟩

theorem Agree.faithful (hp : Agree p) : Faithful p where
  ok := hp.sound.ok
  readable := hp.readable
  results := hp.results
  defined _ hv := hp.sound.defined hv
  room source := hp.sound.room source.fits

theorem is_queue (h : Reach step Grows {} p) : Faithful p :=
  (h.invariant agree_init fun _ _ _ hp hg hs => hp.step hg hs).faithful

instance (p : Pair) (op : Op) : Decidable (Grows p op) :=
  match op with
  | .ensureWriteableBytes _ => inferInstanceAs (Decidable (_ → _))
  | .append _ | .retrieve _ | .retrieveAll | .retrieveAllAsString _ => .isTrue trivial

def filled (n : Nat) (h : n ≤ max_size) : Source := ⟨List.replicate n 7, by rwa [List.length_replicate]⟩

/-- The third `append` moves the content to the front, the last call grows the vector. -/
def queueRun : List Op :=
  [.append (filled 600 (by decide)), .retrieve 599, .append (filled 300 (by decide)),
    .retrieveAllAsString 1, .append (filled 500 (by decide)), .ensureWriteableBytes 1000]

theorem is_queue_moved : ∃ p, exec step Grows {} queueRun = some p ∧
    p.buffer.buffer_.length = 1808 ∧ Faithful p := by
  have hrun : (exec step Grows {} queueRun).any (fun p => p.buffer.buffer_.length = 1808) = true := by
    decide +kernel
  obtain ⟨p, hp, hsize⟩ := (Option.any_eq_true _ _).mp hrun
  exact ⟨p, hp, of_decide_eq_true hsize, is_queue (.of_exec hp)⟩

/-- `writerIndex_` is 108, so the new size is 88. -/
def shrinkRun : List Op := [.append (filled 100 (by decide)), .ensureWriteableBytes (.ofNat (2 ^ 64 - 20))]

theorem not_is_queue : ¬ ∀ p, Reach step Always {} p → Faithful p := by
  intro h
  have hrun : (exec step Always {} shrinkRun).any
      (fun p => p.buffer.buffer_.length < p.buffer.writerIndex_) = true := by decide +kernel
  obtain ⟨p, hp, hlt⟩ := (Option.any_eq_true _ _).mp hrun
  exact absurd (of_decide_eq_true hlt) (Nat.not_lt.mpr (h p (.of_exec hp)).ok.writer_le)

end Buffer

end VortexNet
