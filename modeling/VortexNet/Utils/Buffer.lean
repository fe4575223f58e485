import Mathlib.Algebra.Group.Int.Defs
import Mathlib.Algebra.Group.Nat.Defs
import Mathlib.Tactic.Set
import VortexNet.Lib.Window

/-!
# The buffer

`utils/Buffer.h` and `Buffer.cc`. The storage is a `std::vector<char>`; the
bytes between the two indices are readable. Index arithmetic is that of
`size_t`, modulo `2^64`. A copy whose source or destination leaves its array is
undefined in the source and `none` here; growing the vector is taken to succeed.

The abstract content of a buffer is its readable bytes: `append` adds at their
end and `retrieve` drops from their front.
-/

namespace VortexNet

open Windows

abbrev Bytes := List UInt8

def kCheapPrepend_ : Nat := 8
def kInitiaSize_ : Nat := 1024

/-- `size_t` addition and subtraction. -/
def szAdd (a b : Nat) : Nat := (a + b) % 2 ^ 64
def szSub (a b : Nat) : Nat := (a + 2 ^ 64 - b) % 2 ^ 64

/-- The constructor ignores its argument and always reserves `kInitiaSize_`. -/
structure Buffer where
  buffer_ : Bytes := List.replicate (kCheapPrepend_ + kInitiaSize_) 0
  readerIndex_ : Nat := kCheapPrepend_
  writerIndex_ : Nat := kCheapPrepend_
  deriving DecidableEq

namespace Buffer

def readableBytes (b : Buffer) : Nat := szSub b.writerIndex_ b.readerIndex_
def writeableBytes (b : Buffer) : Nat := szSub b.buffer_.length b.writerIndex_
def prependableBytes (b : Buffer) : Nat := b.readerIndex_

def readable (b : Buffer) : Bytes := window b.buffer_ b.readerIndex_ b.writerIndex_

def retrieveAll (b : Buffer) : Buffer :=
  { b with readerIndex_ := kCheapPrepend_, writerIndex_ := kCheapPrepend_ }

def retrieve (b : Buffer) (len : Nat) : Buffer :=
  if len < b.readableBytes then { b with readerIndex_ := szAdd b.readerIndex_ len }
  else b.retrieveAll

/-- `buffer_.resize(n)`. -/
def resize (b : Buffer) (n : Nat) : Buffer :=
  { b with buffer_ := b.buffer_.take n ++ List.replicate (n - b.buffer_.length) 0 }

def makeSpace (b : Buffer) (len : Nat) : Buffer :=
  if szAdd b.writeableBytes b.prependableBytes < szAdd len kCheapPrepend_ then
    b.resize (szAdd b.writerIndex_ len)
  else
    { buffer_ := overwrite b.buffer_ kCheapPrepend_ b.readable
      readerIndex_ := kCheapPrepend_
      writerIndex_ := szAdd kCheapPrepend_ b.readableBytes }

def ensureWriteableBytes (b : Buffer) (len : Nat) : Buffer :=
  if b.writeableBytes < len then b.makeSpace len else b

/-- `append(data, len)`, where `data` points at the start of the array `source`. -/
def append (b : Buffer) (source : Bytes) (len : Nat) : Option Buffer :=
  let b := b.ensureWriteableBytes len
  if len ≤ source.length ∧ b.writerIndex_ + len ≤ b.buffer_.length then
    some { b with
      buffer_ := overwrite b.buffer_ b.writerIndex_ (source.take len)
      writerIndex_ := szAdd b.writerIndex_ len }
  else none

-- ---------------------------------------------------------------------------
-- readFd
-- ---------------------------------------------------------------------------

/-- `sizeof extrabuf`. -/
def extraSize : Nat := 65536

/-- What `readv` can do: store bytes and return how many, or return -1 with an errno. -/
inductive Readv
  | bytes (data : Bytes)
  | error (errno : Nat)
  deriving DecidableEq

/-- The value of `readv` in the `size_t` that `n` is. -/
def Readv.n : Readv → Nat
  | .bytes data => data.length
  | .error _ => 2 ^ 64 - 1

def Readv.data : Readv → Bytes
  | .bytes data => data
  | .error _ => []

def Readv.errno : Readv → Nat
  | .bytes _ => 0
  | .error errno => errno

def offered (b : Buffer) : Nat :=
  if b.writeableBytes < extraSize then b.writeableBytes + extraSize else b.writeableBytes

/-- `readv` stores no more than it was offered. -/
def Readv.Fits (r : Readv) (b : Buffer) : Prop := r.data.length ≤ b.offered

/-- A `size_t` returned as `ssize_t`. -/
def toSigned (n : Nat) : Int := if n < 2 ^ 63 then n else n - 2 ^ 64

/-- The buffer, `*saveError` and the result. `readv` has filled the writeable
bytes, then `extrabuf`. -/
def readFd (b : Buffer) (r : Readv) (saveError : Nat) : Option (Buffer × Nat × Int) :=
  let writable := b.writeableBytes
  let extrabuf := overwrite (List.replicate extraSize 0) 0 (r.data.drop writable)
  let filled := { b with buffer_ := overwrite b.buffer_ b.writerIndex_ (r.data.take writable) }
  if r.n < 0 then some (filled, r.errno, toSigned r.n)
  else if r.n ≤ writable then
    some ({ filled with writerIndex_ := szAdd b.writerIndex_ r.n }, saveError, toSigned r.n)
  else
    ({ filled with writerIndex_ := filled.buffer_.length }.append extrabuf (szSub r.n writable)).map
      fun b' => (b', saveError, toSigned r.n)

-- ---------------------------------------------------------------------------
-- The invariant and the abstract content
-- ---------------------------------------------------------------------------

/-- `std::vector<char>::max_size()`. -/
def max_size : Nat := 2 ^ 63 - 1

structure Ok (b : Buffer) : Prop where
  prepend_le : kCheapPrepend_ ≤ b.readerIndex_
  reader_le : b.readerIndex_ ≤ b.writerIndex_
  writer_le : b.writerIndex_ ≤ b.buffer_.length

variable {b : Buffer} {n len saveError : Nat} {data source : Bytes} {r : Readv}

theorem szAdd_eq (h : a + c < 2 ^ 64) : szAdd a c = a + c := Nat.mod_eq_of_lt h

theorem szSub_eq (h : c ≤ a) (ha : a < 2 ^ 64) : szSub a c = a - c := by
  unfold szSub
  omega

theorem buffer_retrieve (n : Nat) : (b.retrieve n).buffer_ = b.buffer_ := by
  unfold retrieve
  split <;> rfl

section
variable (hb : b.Ok) (hs : b.buffer_.length < 2 ^ 64)
include hb hs

theorem Ok.readableBytes_eq : b.readableBytes = b.writerIndex_ - b.readerIndex_ :=
  szSub_eq hb.reader_le (Nat.lt_of_le_of_lt hb.writer_le hs)

theorem Ok.writeableBytes_eq : b.writeableBytes = b.buffer_.length - b.writerIndex_ :=
  szSub_eq hb.writer_le hs

theorem Ok.length_readable : b.readable.length = b.readableBytes := by
  rw [hb.readableBytes_eq hs, readable, length_window hb.writer_le]

theorem Ok.retrieve_ok : (b.retrieve len).Ok := by
  have hr := hb.readableBytes_eq hs
  obtain ⟨h1, h2, h3⟩ := hb
  unfold retrieve
  split
  · rename_i hlt
    have hadd : szAdd b.readerIndex_ len = b.readerIndex_ + len := szAdd_eq (by omega)
    exact ⟨by simp only [hadd]; omega, by simp only [hadd]; omega, h3⟩
  · exact ⟨Nat.le_refl _, Nat.le_refl _, h1.trans (h2.trans h3)⟩

/-- `retrieve` drops what it takes from the front of the content. -/
theorem Ok.retrieve_readable : (b.retrieve len).readable = b.readable.drop len := by
  have hr := hb.readableBytes_eq hs
  have hl := hb.length_readable hs
  have h3 := hb.writer_le
  unfold retrieve
  split
  · rename_i hlt
    have hadd : szAdd b.readerIndex_ len = b.readerIndex_ + len := szAdd_eq (by omega)
    simp only [readable, hadd, drop_window]
  · rename_i hge
    rw [List.drop_of_length_le (by omega)]
    exact window_self

end

def compact (b : Buffer) : Buffer where
  buffer_ := overwrite b.buffer_ kCheapPrepend_ b.readable
  readerIndex_ := kCheapPrepend_
  writerIndex_ := szAdd kCheapPrepend_ b.readableBytes

theorem Ok.compact (hb : b.Ok) (hs : b.buffer_.length ≤ max_size) :
    b.compact.Ok ∧ b.compact.readable = b.readable ∧
      b.compact.buffer_.length = b.buffer_.length ∧
      b.compact.writerIndex_ = kCheapPrepend_ + (b.writerIndex_ - b.readerIndex_) := by
  have hs64 : b.buffer_.length < 2 ^ 64 := by unfold max_size at hs; omega
  have hread := hb.readableBytes_eq hs64
  have hl := hb.length_readable hs64
  obtain ⟨h1, h2, h3⟩ := hb
  simp only [max_size, kCheapPrepend_] at hs h1
  have hn : szAdd kCheapPrepend_ b.readableBytes = kCheapPrepend_ + b.readable.length := by
    rw [hl, szAdd_eq (by simp only [kCheapPrepend_]; omega)]
  have hlen : b.compact.buffer_.length = b.buffer_.length :=
    length_overwrite (by rw [hl]; simp only [kCheapPrepend_]; omega)
  have hwrite : b.compact.writerIndex_ = kCheapPrepend_ + (b.writerIndex_ - b.readerIndex_) :=
    hn.trans (congrArg _ (hl.trans hread))
  refine ⟨⟨Nat.le_refl _, ?_, ?_⟩, ?_, hlen, hwrite⟩
  · rw [hwrite]
    exact Nat.le_add_right _ _
  · rw [hwrite, hlen, kCheapPrepend_]
    omega
  · simp only [readable, Buffer.compact]
    rw [← readable, hn]
    exact window_overwrite_self (by simp only [kCheapPrepend_]; omega)

theorem Ok.grow (hb : b.Ok) (hn : b.buffer_.length ≤ n) : (b.resize n).Ok ∧
    (b.resize n).readable = b.readable ∧ (b.resize n).buffer_.length = n := by
  obtain ⟨h1, h2, h3⟩ := hb
  have hbuf : (b.resize n).buffer_ = b.buffer_ ++ List.replicate (n - b.buffer_.length) 0 := by
    rw [resize, List.take_of_length_le hn]
  have hlen : (b.resize n).buffer_.length = n := by
    rw [hbuf, List.length_append, List.length_replicate]
    omega
  refine ⟨⟨h1, h2, hlen.symm ▸ h3.trans hn⟩, ?_, hlen⟩
  rw [readable, hbuf]
  exact window_append h3

theorem Ok.makeSpace_eq (hb : b.Ok) (hs : b.buffer_.length ≤ max_size) :
    b.makeSpace len = if b.buffer_.length - b.writerIndex_ + b.readerIndex_ < szAdd len kCheapPrepend_
      then b.resize (szAdd b.writerIndex_ len) else b.compact := by
  have hs64 : b.buffer_.length < 2 ^ 64 := by unfold max_size at hs; omega
  have hwrite := hb.writeableBytes_eq hs64
  obtain ⟨h1, h2, h3⟩ := hb
  unfold max_size at hs
  have hfree : szAdd b.writeableBytes b.prependableBytes =
      b.buffer_.length - b.writerIndex_ + b.readerIndex_ := by
    rw [hwrite, prependableBytes, szAdd_eq (by omega)]
  rw [Buffer.makeSpace, hfree]
  rfl

structure Room (b b' : Buffer) (len : Nat) : Prop where
  ok : b'.Ok
  size_lt : b'.buffer_.length < 2 ^ 64
  readable : b'.readable = b.readable
  room : b'.writerIndex_ + len ≤ b'.buffer_.length
  length_le : b'.buffer_.length ≤ b.buffer_.length + len

theorem Ok.makeSpace (hb : b.Ok) (hs : b.buffer_.length ≤ max_size) (hlen : len ≤ 2 ^ 63)
    (hw : b.buffer_.length < b.writerIndex_ + len) : Room b (b.makeSpace len) len := by
  have hneed : szAdd len kCheapPrepend_ = len + 8 := szAdd_eq (by simp only [kCheapPrepend_]; omega)
  have h1 := hb.prepend_le
  have h2 := hb.reader_le
  have h3 := hb.writer_le
  rw [hb.makeSpace_eq hs, hneed]
  unfold max_size at hs
  simp only [kCheapPrepend_] at h1
  split
  · have hn : szAdd b.writerIndex_ len = b.writerIndex_ + len := szAdd_eq (by omega)
    obtain ⟨hok, hread, hsize⟩ := hb.grow (n := szAdd b.writerIndex_ len) (hn ▸ hw.le)
    refine ⟨hok, by omega, hread, ?_, by omega⟩
    rw [hsize, hn]
    exact Nat.le_refl _
  · obtain ⟨hok, hread, hsize, hwrite⟩ := hb.compact hs
    refine ⟨hok, by omega, hread, ?_, by omega⟩
    rw [hwrite, hsize, kCheapPrepend_]
    omega

theorem Ok.ensureWriteableBytes (hb : b.Ok) (hs : b.buffer_.length ≤ max_size)
    (hlen : len ≤ 2 ^ 63) : Room b (b.ensureWriteableBytes len) len := by
  have hs64 : b.buffer_.length < 2 ^ 64 := by unfold max_size at hs; omega
  have hwrite := hb.writeableBytes_eq hs64
  unfold Buffer.ensureWriteableBytes
  split
  · exact hb.makeSpace hs hlen (by omega)
  · have := hb.writer_le
    exact ⟨hb, hs64, rfl, by omega, Nat.le_add_right _ _⟩

def store (b : Buffer) (data : Bytes) : Buffer :=
  { b with
    buffer_ := overwrite b.buffer_ b.writerIndex_ data
    writerIndex_ := b.writerIndex_ + data.length }

theorem Ok.store_ok (hb : b.Ok) (hroom : b.writerIndex_ + data.length ≤ b.buffer_.length) :
    (b.store data).Ok := by
  refine ⟨hb.prepend_le, ?_, ?_⟩
  · exact hb.reader_le.trans (Nat.le_add_right _ _)
  · exact (length_overwrite hroom).symm ▸ hroom

theorem Ok.store_readable (hb : b.Ok) : (b.store data).readable = b.readable ++ data :=
  window_overwrite hb.reader_le hb.writer_le

def extend (b : Buffer) (data : Bytes) : Buffer := (b.ensureWriteableBytes data.length).store data

theorem Ok.extend (hb : b.Ok) (hs : b.buffer_.length ≤ max_size) (hlen : data.length ≤ 2 ^ 63) :
    (b.extend data).Ok ∧ (b.extend data).readable = b.readable ++ data ∧
      (b.extend data).buffer_.length ≤ b.buffer_.length + data.length := by
  obtain ⟨hok, -, hread, hroom, hle⟩ := hb.ensureWriteableBytes hs hlen
  exact ⟨hok.store_ok hroom, hread ▸ hok.store_readable, (length_overwrite hroom).trans_le hle⟩

theorem Ok.append (hb : b.Ok) (hs : b.buffer_.length ≤ max_size)
    (hsrc : source.take data.length = data) (hlen : data.length ≤ 2 ^ 63) :
    b.append source data.length = some (b.extend data) := by
  obtain ⟨-, hs', -, hroom, -⟩ := hb.ensureWriteableBytes hs hlen
  have hle : data.length ≤ source.length := by
    rw [← hsrc]
    exact List.length_take_le' _ _
  rw [Buffer.append, if_pos ⟨hle, hroom⟩, hsrc, szAdd_eq (by omega)]
  rfl

theorem Ok.append_fits (hb : b.Ok) (hs : b.buffer_.length ≤ max_size)
    (h : data.length ≤ b.buffer_.length - b.writerIndex_) :
    b.append data data.length = some (b.store data) := by
  have hs64 : b.buffer_.length < 2 ^ 64 := by unfold max_size at hs; omega
  have hw := hb.writer_le
  have hroom : b.ensureWriteableBytes data.length = b :=
    if_neg (by rw [hb.writeableBytes_eq hs64]; omega)
  rw [Buffer.append, hroom, if_pos ⟨Nat.le_refl _, by omega⟩, List.take_length, szAdd_eq (by omega)]
  rfl

-- ---------------------------------------------------------------------------
-- What readFd does
-- ---------------------------------------------------------------------------

/-- `readFd` as its callers read it: the bytes are appended and counted or, on
an error, nothing changes, the errno is stored and the result is negative. -/
def Reads (b : Buffer) (saveError : Nat) : Readv → Prop
  | .bytes data => ∃ b', b.readFd (.bytes data) saveError = some (b', saveError, (data.length : Int)) ∧
      b'.Ok ∧ b'.readable = b.readable ++ data
  | .error errno => ∃ n < 0, b.readFd (.error errno) saveError = some (b, errno, n)

theorem take_extrabuf :
    (overwrite (List.replicate extraSize 0) 0 data).take data.length = data := by
  simp [overwrite]

theorem length_extrabuf (h : data.length ≤ extraSize) :
    (overwrite (List.replicate extraSize 0) 0 data).length = extraSize := by
  rw [length_overwrite (by simpa using h), List.length_replicate]

theorem toSigned_length (h : data.length < 2 ^ 63) : toSigned data.length = data.length :=
  if_pos h

theorem readFd_fits (hb : b.Ok) (hs : b.buffer_.length ≤ max_size)
    (h : data.length ≤ b.buffer_.length - b.writerIndex_) :
    b.readFd (.bytes data) saveError = some (b.store data, saveError, (data.length : Int)) := by
  have hw := hb.writeableBytes_eq (by unfold max_size at hs; omega)
  have hle := hb.writer_le
  unfold max_size at hs
  simp only [readFd, Readv.n, Readv.data, Nat.not_lt_zero, if_false, hw, if_pos h,
    List.take_of_length_le h]
  rw [szAdd_eq (by omega), toSigned_length (by omega)]
  rfl

/-- The buffer after a read: what fills the vector is there, and the rest is appended. -/
def received (b : Buffer) (data : Bytes) : Buffer :=
  let writable := b.buffer_.length - b.writerIndex_
  if data.length ≤ writable then b.store data
  else (b.store (data.take writable)).extend (data.drop writable)

theorem readFd_spills (hb : b.Ok) (hs : b.buffer_.length ≤ max_size)
    (h : b.buffer_.length - b.writerIndex_ < data.length) (hf : (Readv.bytes data).Fits b) :
    b.readFd (.bytes data) saveError = some (b.received data, saveError, (data.length : Int)) := by
  have hw := hb.writeableBytes_eq (by unfold max_size at hs; omega)
  have hle := hb.writer_le
  unfold max_size at hs
  have hne : ¬ data.length ≤ b.buffer_.length - b.writerIndex_ := by omega
  simp only [received, if_neg hne]
  set m := b.buffer_.length - b.writerIndex_ with hm
  have hf : data.length ≤ b.offered := hf
  have hrest : m < extraSize ∧ data.length ≤ m + extraSize := by
    unfold offered at hf
    rw [hw] at hf
    split at hf <;> omega
  unfold extraSize at hrest
  have hdrop : (data.drop m).length = data.length - m := List.length_drop
  have hfull : b.writerIndex_ + (data.take m).length = b.buffer_.length := by
    rw [List.length_take]
    omega
  have hlen : (b.store (data.take m)).buffer_.length = b.buffer_.length :=
    length_overwrite hfull.le
  have happend := (hb.store_ok hfull.le).append (by unfold max_size; omega)
    take_extrabuf (by omega : (data.drop m).length ≤ 2 ^ 63)
  have hn : data.length < 2 ^ 63 := by omega
  simp only [readFd, Readv.n, Readv.data, Nat.not_lt_zero, if_false, hw, if_neg hne]
  rw [szSub_eq (by omega) (by omega), length_overwrite hfull.le, toSigned_length hn, ← hdrop]
  have hat : b.store (data.take m) = { b with
      buffer_ := overwrite b.buffer_ b.writerIndex_ (data.take m)
      writerIndex_ := b.buffer_.length } := by simp only [store, hfull]
  rw [← hat, happend]
  rfl

/-- `readFd` stores the bytes of a successful `readv`. -/
theorem readFd_bytes (hb : b.Ok) (hs : b.buffer_.length ≤ max_size) (hf : (Readv.bytes data).Fits b) :
    b.readFd (.bytes data) saveError = some (b.received data, saveError, (data.length : Int)) := by
  rcases Nat.lt_or_ge (b.buffer_.length - b.writerIndex_) data.length with h | h
  · exact readFd_spills hb hs h hf
  · rw [received, if_pos h]
    exact readFd_fits hb hs h

theorem Ok.length_le (hb : b.Ok) (hs : b.buffer_.length ≤ max_size)
    (hf : (Readv.bytes data).Fits b) : data.length ≤ 2 ^ 63 := by
  have hw := hb.writeableBytes_eq (by unfold max_size at hs; omega)
  have hf : data.length ≤ b.offered := hf
  unfold offered extraSize at hf
  unfold max_size at hs
  split at hf <;> omega

/-- The bytes are at the end of the content, in a vector that has grown by no more than them. -/
theorem Ok.received (hb : b.Ok) (hs : b.buffer_.length ≤ max_size) (hlen : data.length ≤ 2 ^ 63) :
    (b.received data).Ok ∧ (b.received data).readable = b.readable ++ data ∧
      (b.received data).buffer_.length ≤ b.buffer_.length + data.length := by
  have hle := hb.writer_le
  unfold Buffer.received
  dsimp only
  split
  · have hroom : b.writerIndex_ + data.length ≤ b.buffer_.length := by omega
    exact ⟨hb.store_ok hroom, hb.store_readable,
      (length_overwrite hroom).trans_le (Nat.le_add_right _ _)⟩
  · set m := b.buffer_.length - b.writerIndex_ with hm
    have hfull : b.writerIndex_ + (data.take m).length = b.buffer_.length := by
      rw [List.length_take]
      omega
    have hdrop : (data.drop m).length = data.length - m := List.length_drop
    have hlen' : (b.store (data.take m)).buffer_.length = b.buffer_.length :=
      length_overwrite hfull.le
    obtain ⟨hok, hread, hsize⟩ := (hb.store_ok hfull.le).extend (hlen' ▸ hs)
      (by omega : (data.drop m).length ≤ 2 ^ 63)
    refine ⟨hok, ?_, by omega⟩
    rw [hread, hb.store_readable, List.append_assoc, List.take_append_drop]

theorem Ok.append_full (hb : b.Ok) (hs : b.writerIndex_ + data.length ≤ max_size)
    (hfront : b.readerIndex_ = kCheapPrepend_) (hfull : b.writerIndex_ = b.buffer_.length)
    (hdata : data ≠ []) (hsource : source.take data.length = data) :
    b.append source data.length = some (b.store data) := by
  have hpos := List.length_pos_iff.mpr hdata
  have hsize : b.buffer_.length ≤ max_size := by omega
  have hw := hb.writeableBytes_eq (by unfold max_size at hsize; omega)
  have hsrc : data.length ≤ source.length := by
    rw [← hsource]
    exact List.length_take_le' _ _
  have hn : szAdd b.writerIndex_ data.length = b.writerIndex_ + data.length := by
    unfold max_size at hs
    exact szAdd_eq (by omega)
  have hroom : b.ensureWriteableBytes data.length = b.resize (b.writerIndex_ + data.length) := by
    rw [Buffer.ensureWriteableBytes, if_pos (by omega), hb.makeSpace_eq hsize, if_pos, hn]
    unfold max_size at hs
    rw [szAdd_eq (by simp only [kCheapPrepend_]; omega)]
    omega
  obtain ⟨-, -, hlen⟩ := hb.grow (n := b.writerIndex_ + data.length) (by omega)
  rw [Buffer.append, hroom, if_pos ⟨hsrc, hlen.ge⟩, hsource]
  show some (Buffer.mk _ _ _) = some (Buffer.mk _ _ _)
  congr 2
  simp [resize, overwrite, hfull, List.take_of_length_le, List.drop_of_length_le]

theorem readFd_front (hb : b.Ok) (hs : b.buffer_.length ≤ max_size)
    (hfront : b.readerIndex_ = kCheapPrepend_) (hsize : b.writerIndex_ + data.length ≤ max_size) :
    b.readFd (.bytes data) saveError = some (b.store data, saveError, (data.length : Int)) := by
  rcases Nat.lt_or_ge (b.buffer_.length - b.writerIndex_) data.length with h | h
  swap
  · exact readFd_fits hb hs h
  have hw := hb.writeableBytes_eq (by unfold max_size at hs; omega)
  have hle := hb.writer_le
  unfold max_size at hs
  set m := b.buffer_.length - b.writerIndex_ with hm
  have htake : (data.take m).length = m := List.length_take_of_le h.le
  have hdrop : (data.drop m).length = data.length - m := List.length_drop
  have hfull : b.writerIndex_ + (data.take m).length = b.buffer_.length := by omega
  have hlen : (overwrite b.buffer_ b.writerIndex_ (data.take m)).length = b.buffer_.length :=
    length_overwrite hfull.le
  have happend : (b.store (data.take m)).append (overwrite (List.replicate extraSize 0) 0 (data.drop m))
      (data.drop m).length = some ((b.store (data.take m)).store (data.drop m)) := by
    have hmax : (b.store (data.take m)).writerIndex_ + (data.drop m).length ≤ max_size := by
      simp only [store]
      omega
    refine (hb.store_ok hfull.le).append_full hmax hfront (hfull.trans hlen.symm) ?_ take_extrabuf
    exact List.ne_nil_of_length_pos (by omega)
  have hstore : (b.store (data.take m)).store (data.drop m) = b.store data := by
    simp only [store, overwrite_overwrite hle, Nat.add_assoc, ← List.length_append,
      List.take_append_drop]
  have hne : ¬ data.length ≤ m := by omega
  have hmax : max_size < 2 ^ 63 := by decide
  simp only [readFd, Readv.n, Readv.data, Nat.not_lt_zero, if_false, hw, if_neg hne, hlen]
  rw [szSub_eq (by omega) (by omega), toSigned_length (by omega), ← hdrop]
  have hat : b.store (data.take m) = { b with
      buffer_ := overwrite b.buffer_ b.writerIndex_ (data.take m)
      writerIndex_ := b.buffer_.length } := by simp only [store, hfull]
  rw [hstore, hat] at happend
  rw [happend]
  rfl

/-- On -1 the copy out of `extrabuf` runs past its end. -/
theorem readFd_error (hb : b.Ok) (hs : b.buffer_.length ≤ max_size) :
    b.readFd (.error errno) saveError = none := by
  have hw := hb.writeableBytes_eq (by unfold max_size at hs; omega)
  unfold max_size at hs
  have hne : ¬ 2 ^ 64 - 1 ≤ b.buffer_.length - b.writerIndex_ := by omega
  simp only [readFd, Readv.n, Readv.data, Nat.not_lt_zero, if_false, hw, if_neg hne,
    List.drop_nil, Option.map_eq_none_iff]
  rw [szSub_eq (by omega) (by omega)]
  refine if_neg fun h => ?_
  have := h.1
  rw [length_extrabuf (by simp)] at this
  unfold extraSize at this
  omega

/-- `readFd` does what its callers read into it exactly when `readv` succeeds. -/
theorem reads_iff (hb : b.Ok) (hs : b.buffer_.length ≤ max_size) (hf : r.Fits b) :
    b.Reads saveError r ↔ ∃ data, r = .bytes data := by
  constructor
  · intro h
    cases r with
    | bytes data => exact ⟨data, rfl⟩
    | error errno =>
      obtain ⟨n, -, hn⟩ := h
      rw [readFd_error hb hs] at hn
      cases hn
  · rintro ⟨data, rfl⟩
    obtain ⟨hok, hread, -⟩ := hb.received hs (hb.length_le hs hf)
    exact ⟨_, readFd_bytes hb hs hf, hok, hread⟩

theorem fresh_length : ({} : Buffer).buffer_.length = 1032 := List.length_replicate

theorem fresh_ok : ({} : Buffer).Ok :=
  ⟨le_refl _, le_refl _, fresh_length.symm ▸ by decide⟩

theorem fresh_size : ({} : Buffer).buffer_.length ≤ max_size := by
  rw [fresh_length]
  decide

/-- A read of more than the vector has room for. -/
theorem reads_iff_spills : ({} : Buffer).Reads 0 (.bytes (List.replicate 1500 72)) := by
  refine (reads_iff fresh_ok fresh_size ?_).mpr ⟨List.replicate 1500 72, rfl⟩
  have hw : ({} : Buffer).writeableBytes = 1024 := by
    rw [fresh_ok.writeableBytes_eq (by rw [fresh_length]; decide), fresh_length]
    rfl
  rw [Readv.Fits, Readv.data, List.length_replicate, offered, hw]
  decide

/-- A read that fails with EAGAIN, on a fresh buffer: the error is not reported. -/
theorem not_reads_eagain : ¬ ({} : Buffer).Reads 0 (.error 11) := by
  rintro ⟨n, -, h⟩
  rw [readFd_error fresh_ok fresh_size] at h
  cases h

end Buffer

end VortexNet
