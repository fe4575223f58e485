import VortexNet.Http.HttpServer

/-!
# The headers that the request callback reads

`HttpServer.h` over the storage of the input buffer. The headers of a request are
`string_view`s into that storage, made when the head is parsed. The callback reads
them when the body is complete, and the reads in between write to the storage and
may make the vector leave it.

The callback finds the headers of the head exactly when these reads leave them as
they are (`headersRead_iff`).
-/

namespace VortexNet.HttpServer

open Incremental Picohttpparser HttpParser Windows

/-- A connection with the storage of its input buffer. `capacity` is that of the vector and
`moves` counts its reallocations. `parsedAt` is where `peek()` stood at the last parse, and
`parsedIn` is `moves` at the time. `calls` are the arguments of the callback so far, and `seen` is
what it has read under the names and values of the headers of each, `none` in storage that is no
longer there. -/
structure Stored where
  inputBuffer_ : Buffer := {}
  capacity : Nat := kCheapPrepend_ + kInitiaSize_
  moves : Nat := 0
  parser : HttpParser := {}
  parsedAt : Nat := 0
  parsedIn : Nat := 0
  body : Bytes := []
  calls : List (HttpRequest × Bytes) := []
  seen : List (List (Option Bytes × Option Bytes)) := []
  deriving DecidableEq

namespace Stored

def view (s : Stored) (v : StringView) : Option Bytes :=
  if v.len = 0 then some []
  else if s.moves = s.parsedIn then some (v.read (s.inputBuffer_.buffer_.drop s.parsedAt))
  else none

def pairs (s : Stored) (headers : List (StringView × StringView)) :
    List (Option Bytes × Option Bytes) :=
  headers.map fun (name, value) => (s.view name, s.view value)

def dispatch (s : Stored) : Stored :=
  { s with
    calls := s.calls ++ [(s.parser.request, s.body)]
    seen := s.seen ++ [s.pairs s.parser.request.headers]
    body := []
    parser := s.parser.reset }

def collectBody (s : Stored) : Stored :=
  let n := min s.parser.bytesRemaining s.inputBuffer_.readableBytes
  let s := if 0 < n then
      { s with
        body := s.body ++ s.inputBuffer_.readable.take n
        parser := (s.parser.consumeBody s.inputBuffer_.readable n).1
        inputBuffer_ := s.inputBuffer_.retrieve n }
    else s
  if s.parser.gotAll then s.dispatch else s

def onMessage (s : Stored) : Stored :=
  if s.parser.isExpectingBody then s.collectBody
  else
    let (parsed, parser, buf) := s.parser.parseRequest s.inputBuffer_.readable
    if parsed then
      let s := { s with parser, parsedAt := s.inputBuffer_.readerIndex_, parsedIn := s.moves }
      let s := if 0 < s.parser.headerLen then
          { s with inputBuffer_ := s.inputBuffer_.retrieve s.parser.headerLen }
        else s
      if s.parser.isExpectingBody then s.collectBody else s.dispatch
    -- a malformed head is dropped from the buffer, with all that follows it
    else { s with
      parser
      inputBuffer_ :=
        if buf = s.inputBuffer_.readable then s.inputBuffer_ else s.inputBuffer_.retrieveAll }

/-- The buffer after a read. When the vector moves it takes `spare` more than its new size. -/
def resized (spare : Nat → Nat → Nat) (s : Stored) (inputBuffer_ : Buffer) : Stored :=
  let size := inputBuffer_.buffer_.length
  if size ≤ s.capacity then { s with inputBuffer_ }
  else { s with
    inputBuffer_
    capacity := size + spare s.inputBuffer_.buffer_.length size
    moves := s.moves + 1 }

/-- A read event that finds `data`. (One that finds nothing closes the connection.) -/
def handleRead (spare : Nat → Nat → Nat) (s : Stored) (data : Bytes) : Option Stored := do
  let (inputBuffer_, _, n) ← s.inputBuffer_.readFd (.bytes data) 0
  let s := s.resized spare inputBuffer_
  some (if 0 < n then s.onMessage else s)

/-- No request is under way, and no byte of one is there. -/
structure Ready (s : Stored) : Prop where
  parser : s.parser = { is_req_ := s.parser.is_req_ }
  ok : s.inputBuffer_.Ok
  reader : s.inputBuffer_.readerIndex_ = kCheapPrepend_
  writer : s.inputBuffer_.writerIndex_ = kCheapPrepend_
  size : s.inputBuffer_.buffer_.length ≤ Buffer.max_size
  capacity : s.inputBuffer_.buffer_.length ≤ s.capacity

end Stored

open Stored

/-- A request as the server frames it: its body is as long as the headers make it. -/
structure Incoming where
  head : Bytes
  body : Bytes
  parsed : RequestHead
  accepted : Accepts parse_request head parsed
  head_int : head.length < 2 ^ 31
  framed : body.length = (parsed.headers.foldl requestField {}).content_length

def Incoming.bytes (r : Incoming) : Bytes := r.head ++ r.body

def Incoming.headers (r : Incoming) : List (Option Bytes × Option Bytes) :=
  r.parsed.headers.map fun (h : phr_header) => (some (key h), some h.value.text)

/-- A well-formed request is one. -/
def Request.incoming (r : Request) : Incoming where
  head := r.head
  body := r.body
  parsed := r.parsed
  accepted := r.accepted
  head_int := r.head_int
  framed := by rw [framed_request r.framed]

/-- The reads bring the request, and nothing else. -/
structure Splits (r : Incoming) (reads : List Bytes) : Prop where
  bytes : reads.flatten = r.bytes
  ne_nil : ∀ data ∈ reads, data ≠ []

/-- The request is handed to the callback once, and its headers are read as the head has them. -/
def HeadersRead (spare : Nat → Nat → Nat) (s : Stored) (r : Incoming) (reads : List Bytes) :
    Prop :=
  ∃ s', reads.foldlM (Stored.handleRead spare) s = some s' ∧ s'.seen = s.seen ++ [r.headers]

-- ---------------------------------------------------------------------------
-- When the reads of a body leave the headers
-- ---------------------------------------------------------------------------

def lastByte (reads : List Bytes) (j : Nat) : Option UInt8 :=
  reads.foldl (fun byte data => data[j]?.or byte) none

/-- A read that reaches into the view brings the bytes that are there already. -/
def Agrees (head : Bytes) (reads : List Bytes) (v : StringView) : Prop :=
  ∀ j ∈ List.range' v.pos v.len, lastByte reads j = none ∨ lastByte reads j = head[j]?

def Incoming.views (r : Incoming) : List (StringView × StringView) :=
  r.parsed.headers.map fun (h : phr_header) => (string_view h.name, string_view (some h.value))

structure Spares (r : Incoming) (capacity : Nat) (reads : List Bytes) : Prop where
  fits : ∀ data ∈ reads, kCheapPrepend_ + data.length ≤ capacity
  agrees : ∀ v ∈ r.views, Agrees r.head reads v.1 ∧ Agrees r.head reads v.2

/-- Size and capacity of the vector when it holds `n` bytes behind the prepend area. -/
def hold (spare : Nat → Nat → Nat) (vector : Nat × Nat) (n : Nat) : Nat × Nat :=
  let size := max vector.1 (kCheapPrepend_ + n)
  (size, if size ≤ vector.2 then vector.2 else size + spare vector.1 size)

/-- The reads after the one that completes the head spare the headers; `got` bytes are there. -/
def SparedFrom (spare : Nat → Nat → Nat) (r : Incoming) (got : Nat) (vector : Nat × Nat) :
    List Bytes → Prop
  | [] => True
  | data :: reads =>
    let vector := hold spare vector (got + data.length)
    if r.head.length ≤ got + data.length then Spares r vector.2 reads
    else SparedFrom spare r (got + data.length) vector reads

def Stored.vector (s : Stored) : Nat × Nat := (s.inputBuffer_.buffer_.length, s.capacity)

def Spared (spare : Nat → Nat → Nat) (s : Stored) (r : Incoming) (reads : List Bytes) : Prop :=
  SparedFrom spare r 0 s.vector reads

-- ---------------------------------------------------------------------------
-- The buffer of a connection
-- ---------------------------------------------------------------------------

variable {spare : Nat → Nat → Nat} {s s' final : Stored} {r : Incoming} {data content rest : Bytes}
  {reads later : List Bytes}

namespace Stored

structure Holds (s : Stored) (content : Bytes) : Prop where
  ok : s.inputBuffer_.Ok
  readable : s.inputBuffer_.readable = content
  size : s.inputBuffer_.buffer_.length ≤ Buffer.max_size
  capacity : s.inputBuffer_.buffer_.length ≤ s.capacity

structure Front (s : Stored) (content : Bytes) : Prop extends Holds s content where
  reader : s.inputBuffer_.readerIndex_ = kCheapPrepend_
  writer : s.inputBuffer_.writerIndex_ = kCheapPrepend_ + content.length

theorem Ready.front (h : Ready s) : Front s [] := by
  refine ⟨⟨h.ok, ?_, h.size, h.capacity⟩, h.reader, h.writer⟩
  rw [Buffer.readable, h.reader, h.writer, window_self]

/-- The connection with `data` stored by a read. -/
def received (spare : Nat → Nat → Nat) (s : Stored) (data : Bytes) : Stored :=
  s.resized spare (s.inputBuffer_.store data)

theorem inputBuffer_resized (b : Buffer) : (s.resized spare b).inputBuffer_ = b := by
  unfold resized
  dsimp only
  split <;> rfl

theorem parser_resized (b : Buffer) : (s.resized spare b).parser = s.parser := by
  unfold resized
  dsimp only
  split <;> rfl

theorem seen_resized (b : Buffer) : (s.resized spare b).seen = s.seen := by
  unfold resized
  dsimp only
  split <;> rfl

theorem vector_resized (b : Buffer) : (s.resized spare b).vector =
    (b.buffer_.length, if b.buffer_.length ≤ s.capacity then s.capacity
      else b.buffer_.length + spare s.inputBuffer_.buffer_.length b.buffer_.length) := by
  simp only [vector, resized]
  split <;> rfl

theorem le_capacity (b : Buffer) : b.buffer_.length ≤ (s.resized spare b).capacity := by
  unfold resized
  dsimp only
  split
  · assumption
  · exact Nat.le_add_right _ _

theorem Front.received_size (h : Front s content) (spare : Nat → Nat → Nat) (data : Bytes) :
    (s.received spare data).inputBuffer_.buffer_.length =
      max s.inputBuffer_.buffer_.length (kCheapPrepend_ + (content.length + data.length)) := by
  have hlen := @length_overwrite_max _ _ data _ h.ok.writer_le
  rw [received, inputBuffer_resized, Buffer.store, hlen, h.writer, Nat.add_assoc]

theorem Front.vector_received (h : Front s content) :
    (s.received spare data).vector = hold spare s.vector (content.length + data.length) := by
  have hlen := h.received_size spare data
  rw [received, inputBuffer_resized] at hlen
  rw [received, vector_resized, hlen]
  rfl

theorem Front.received (h : Front s content) (spare : Nat → Nat → Nat)
    (hsize : kCheapPrepend_ + (content.length + data.length) ≤ Buffer.max_size) :
    Front (s.received spare data) (content ++ data) := by
  have hlen := h.received_size spare data
  have hbuf : (s.received spare data).inputBuffer_ = s.inputBuffer_.store data :=
    inputBuffer_resized _
  have hwriter : (s.inputBuffer_.store data).writerIndex_ =
      kCheapPrepend_ + (content.length + data.length) := by
    rw [Buffer.store, h.writer, Nat.add_assoc]
  have hok : (s.inputBuffer_.store data).Ok := by
    refine ⟨h.ok.prepend_le, h.ok.reader_le.trans (Nat.le_add_right _ _), ?_⟩
    rw [hwriter, ← hbuf, hlen]
    exact Nat.le_max_right _ _
  refine ⟨⟨hbuf ▸ hok, ?_, ?_, ?_⟩, ?_, ?_⟩
  · rw [hbuf, h.ok.store_readable, h.readable]
  · rw [hlen]
    exact Nat.max_le.mpr ⟨h.size, hsize⟩
  · rw [hbuf]
    exact le_capacity _
  · rw [hbuf]
    exact h.reader
  · rw [hbuf, hwriter, List.length_append]

theorem Front.handleRead (h : Front s content)
    (hsize : kCheapPrepend_ + (content.length + data.length) ≤ Buffer.max_size) (hdata : data ≠ []) :
    s.handleRead spare data = some (s.received spare data).onMessage := by
  have hpos := List.length_pos_iff.mpr hdata
  have hfits : s.inputBuffer_.writerIndex_ + data.length ≤ Buffer.max_size := by
    rw [h.writer, Nat.add_assoc]
    exact hsize
  have hread : s.inputBuffer_.readFd (.bytes data) 0 = _ :=
    Buffer.readFd_front h.ok h.size h.reader hfits
  rw [Stored.handleRead, hread]
  simp only [Option.bind_eq_bind, Option.bind_some, Stored.received]
  rw [if_pos (by omega)]

end Stored

-- ---------------------------------------------------------------------------
-- What the views find
-- ---------------------------------------------------------------------------

variable {head : Bytes} {v : StringView} {j : Nat}

theorem foldl_lastByte (later : List Bytes) (byte : Option UInt8) :
    later.foldl (fun byte data => data[j]?.or byte) byte = (lastByte later j).or byte := by
  induction later generalizing byte with
  | nil => rfl
  | cons data later ih =>
    rw [lastByte, List.foldl_cons, List.foldl_cons, ih, ih, Option.or_none, Option.or_assoc]

theorem lastByte_append (reads later : List Bytes) :
    lastByte (reads ++ later) j = (lastByte later j).or (lastByte reads j) := by
  rw [lastByte, List.foldl_append, foldl_lastByte]
  rfl

structure Overlaid (s final : Stored) (later : List Bytes) : Prop where
  parsedAt : final.parsedAt = s.parsedAt
  parsedIn : final.parsedIn = s.parsedIn
  le : s.moves ≤ final.moves
  moves : final.moves = s.moves ↔ ∀ data ∈ later, kCheapPrepend_ + data.length ≤ s.capacity
  capacity : final.moves = s.moves → final.capacity = s.capacity
  bytes : ∀ j, final.inputBuffer_.buffer_[kCheapPrepend_ + j]? =
    (lastByte later j).or s.inputBuffer_.buffer_[kCheapPrepend_ + j]?

theorem Overlaid.append (h : Overlaid s s' reads) (h' : Overlaid s' final later) :
    Overlaid s final (reads ++ later) := by
  have hle := h.le
  have hle' := h'.le
  constructor
  · exact h'.parsedAt.trans h.parsedAt
  · exact h'.parsedIn.trans h.parsedIn
  · exact hle.trans hle'
  · constructor
    · intro hsame data hmem
      have hfirst : s'.moves = s.moves := by omega
      rcases List.mem_append.mp hmem with hmem | hmem
      · exact h.moves.mp hfirst data hmem
      · exact h.capacity hfirst ▸ h'.moves.mp (hsame.trans hfirst.symm) data hmem
    · intro hfits
      have hfirst := h.moves.mpr fun data hmem => hfits data (List.mem_append_left _ hmem)
      have hsecond := h'.moves.mpr fun data hmem =>
        h.capacity hfirst ▸ hfits data (List.mem_append_right _ hmem)
      exact hsecond.trans hfirst
  · intro hsame
    have hfirst : s'.moves = s.moves := by omega
    exact (h'.capacity (hsame.trans hfirst.symm)).trans (h.capacity hfirst)
  · intro j
    rw [h'.bytes, h.bytes, lastByte_append, Option.or_assoc]

theorem Stored.Front.overlaid (h : Front s []) :
    Overlaid s (s.received spare data) [data] := by
  have hlen := h.received_size spare data
  rw [Stored.received, inputBuffer_resized] at hlen
  have hcap := h.capacity
  have hfits : (s.inputBuffer_.store data).buffer_.length ≤ s.capacity ↔
      kCheapPrepend_ + data.length ≤ s.capacity := by
    rw [hlen]
    simp only [List.length_nil, Nat.zero_add]
    omega
  constructor
  · unfold Stored.received resized
    dsimp only
    split <;> rfl
  · unfold Stored.received resized
    dsimp only
    split <;> rfl
  · unfold Stored.received resized
    dsimp only
    split
    · exact Nat.le_refl _
    · exact Nat.le_succ _
  · simp only [List.mem_singleton, forall_eq, ← hfits, Stored.received, resized]
    split
    · rename_i hle
      exact iff_of_true rfl hle
    · rename_i hle
      exact iff_of_false (Nat.succ_ne_self _) hle
  · unfold Stored.received resized
    dsimp only
    split
    · exact fun _ => rfl
    · exact fun hmoves => absurd hmoves (Nat.succ_ne_self _)
  · intro j
    have hw : s.inputBuffer_.writerIndex_ = kCheapPrepend_ := h.writer
    have hle := h.ok.writer_le
    rw [Stored.received, inputBuffer_resized, Buffer.store, hw,
      getElem?_overwrite (hw ▸ hle)]
    simp [lastByte]

theorem read_eq_iff {xs ys : Bytes} :
    v.read xs = v.read ys ↔ ∀ j ∈ List.range' v.pos v.len, xs[j]? = ys[j]? := by
  simp only [StringView.read, List.ext_getElem?_iff, List.getElem?_take, List.getElem?_drop,
    List.mem_range'_1]
  constructor
  · rintro h j ⟨hle, hlt⟩
    have hj := h (j - v.pos)
    rwa [if_pos (by omega), if_pos (by omega), Nat.add_sub_cancel' hle] at hj
  · intro h i
    split
    · exact h _ ⟨by omega, by omega⟩
    · rfl

theorem Overlaid.view_iff (h : Overlaid s final later) (hat : s.parsedAt = kCheapPrepend_)
    (hin : s.parsedIn = s.moves)
    (hhead : ∀ j < head.length, s.inputBuffer_.buffer_[kCheapPrepend_ + j]? = head[j]?)
    (hv : v.len = 0 ∨ v.pos + v.len ≤ head.length) :
    final.view v = some (v.read head) ↔
      v.len = 0 ∨ (∀ data ∈ later, kCheapPrepend_ + data.length ≤ s.capacity) ∧
        Agrees head later v := by
  by_cases hlen : v.len = 0
  · simp [Stored.view, StringView.read, hlen]
  · have hmoves : final.moves = final.parsedIn ↔
        ∀ data ∈ later, kCheapPrepend_ + data.length ≤ s.capacity := by
      rw [h.parsedIn, hin, h.moves]
    have hbound := hv.resolve_left hlen
    have hview : final.view v = if final.moves = final.parsedIn
        then some (v.read (final.inputBuffer_.buffer_.drop kCheapPrepend_)) else none := by
      rw [Stored.view, if_neg hlen, h.parsedAt, hat]
    rw [hview, or_iff_right hlen]
    by_cases hfits : ∀ data ∈ later, kCheapPrepend_ + data.length ≤ s.capacity
    · rw [if_pos (hmoves.mpr hfits), and_iff_right hfits, Option.some.injEq, read_eq_iff]
      refine forall₂_congr fun j hj => ?_
      have hlt := List.mem_range'_1.mp hj
      rw [List.getElem?_drop, h.bytes, hhead j (by omega)]
      cases lastByte later j <;> simp
    · rw [if_neg (mt hmoves.mp hfits)]
      simp [hfits]

theorem slice_bound {slice : Slice UInt8} (h : slice.In head) :
    slice.text.length = 0 ∨ slice.pos + slice.text.length ≤ head.length := by
  have hle := List.IsPrefix.length_le h
  rw [List.length_drop] at hle
  omega

theorem string_view_in {header : phr_header} (h : header.In head) :
    (string_view header.name).read head = key header ∧
      ((string_view header.name).len = 0 ∨
        (string_view header.name).pos + (string_view header.name).len ≤ head.length) := by
  cases hname : header.name with
  | none => simp [string_view, StringView.read, key, hname]
  | some name =>
    have hin := h.name name hname
    refine ⟨by simpa [string_view, StringView.read, key, hname] using hin.take, ?_⟩
    exact slice_bound hin

theorem requestField_length (headers : List phr_header)
    (h : ∀ header ∈ headers, (string_view header.name).len = 0) :
    headers.foldl requestField {} = {} := by
  have hnone : headers.filter isContentLength = [] := by
    refine List.filter_eq_nil_iff.mpr fun header hmem hlength => ?_
    have hkey : key header = [] := by
      have hlen := h header hmem
      unfold key
      cases hname : header.name with
      | none => rfl
      | some name =>
        rw [hname] at hlen
        exact List.eq_nil_of_length_eq_zero hlen
    rw [isContentLength, hkey] at hlength
    revert hlength
    decide
  rw [foldl_requestField, hnone]
  rfl

theorem Incoming.exists_name (r : Incoming) (hbody : r.body ≠ []) :
    ∃ header ∈ r.parsed.headers, (string_view header.name).len ≠ 0 := by
  by_contra hnone
  push Not at hnone
  have hlen := r.framed
  rw [requestField_length _ hnone] at hlen
  exact hbody (List.eq_nil_of_length_eq_zero hlen)

theorem Overlaid.pairs_iff (h : Overlaid s final later) (hat : s.parsedAt = kCheapPrepend_)
    (hin : s.parsedIn = s.moves)
    (hhead : ∀ j < r.head.length, s.inputBuffer_.buffer_[kCheapPrepend_ + j]? = r.head[j]?)
    (hbody : later ≠ [] → r.body ≠ []) :
    final.pairs r.views = r.headers ↔ Spares r s.capacity later := by
  have hheaders := headers_in r.accepted
  have hname : ∀ header ∈ r.parsed.headers,
      final.view (string_view header.name) = some (key header) ↔
      (string_view header.name).len = 0 ∨
        (∀ data ∈ later, kCheapPrepend_ + data.length ≤ s.capacity) ∧
          Agrees r.head later (string_view header.name) := by
    intro header hmem
    obtain ⟨hread, hbound⟩ := string_view_in (hheaders header hmem)
    rw [← hread]
    exact h.view_iff hat hin hhead hbound
  have hvalue : ∀ header ∈ r.parsed.headers,
      final.view (string_view (some header.value)) = some header.value.text ↔
      header.value.text.length = 0 ∨
        (∀ data ∈ later, kCheapPrepend_ + data.length ≤ s.capacity) ∧
          Agrees r.head later (string_view (some header.value)) := by
    intro header hmem
    have hin' := (hheaders header hmem).value
    have hread : (string_view (some header.value)).read r.head = header.value.text := hin'.take
    rw [← hread, h.view_iff hat hin hhead (slice_bound hin'), hread]
    rfl
  have hempty : ∀ v : StringView, v.len = 0 → Agrees r.head later v := by
    intro v hv j hj
    simp [hv] at hj
  simp only [Stored.pairs, Incoming.views, Incoming.headers, List.map_map, List.map_inj_left,
    Function.comp_apply, Prod.mk.injEq]
  constructor
  · intro hall
    constructor
    · intro data hmem
      obtain ⟨header, hheader, hlen⟩ := r.exists_name (hbody (List.ne_nil_of_mem hmem))
      exact (((hname header hheader).mp (hall header hheader).1).resolve_left hlen).1 data hmem
    · intro v hv
      obtain ⟨header, hheader, rfl⟩ := List.mem_map.mp hv
      obtain ⟨hn, hval⟩ := hall header hheader
      constructor
      · exact ((hname header hheader).mp hn).elim (hempty _) And.right
      · exact ((hvalue header hheader).mp hval).elim (hempty (string_view (some header.value)))
          And.right
  · intro hspares header hheader
    have hagrees := hspares.agrees _ (List.mem_map_of_mem hheader)
    exact ⟨(hname header hheader).mpr (.inr ⟨hspares.fits, hagrees.1⟩),
      (hvalue header hheader).mpr (.inr ⟨hspares.fits, hagrees.2⟩)⟩

-- ---------------------------------------------------------------------------
-- The body
-- ---------------------------------------------------------------------------

structure Gathering (s : Stored) (r : Incoming) (rest : Bytes) : Prop where
  state : s.parser.state_ = .kExpectBody
  length : s.parser.content_length_ = r.body.length
  read : s.parser.body_bytes_read_ + rest.length = r.body.length
  headers : s.parser.header_.headers = r.views

structure Same (s s' : Stored) : Prop where
  storage : s'.inputBuffer_.buffer_ = s.inputBuffer_.buffer_
  capacity : s'.capacity = s.capacity
  moves : s'.moves = s.moves
  parsedAt : s'.parsedAt = s.parsedAt
  parsedIn : s'.parsedIn = s.parsedIn
  seen : s'.seen = s.seen

theorem Same.overlaid (h : Same s s') : Overlaid s s' [] where
  parsedAt := h.parsedAt
  parsedIn := h.parsedIn
  le := h.moves.ge
  moves := iff_of_true h.moves nofun
  capacity _ := h.capacity
  bytes j := by rw [h.storage]; rfl

theorem Incoming.body_lt (r : Incoming) : r.body.length < 2 ^ 64 := by
  have hlt (headers : List phr_header) : ∀ f : Framing, f.content_length < 2 ^ 64 →
      (headers.foldl requestField f).content_length < 2 ^ 64 := by
    induction headers with
    | nil => exact fun f hf => hf
    | cons header headers ih =>
      intro f hf
      refine ih _ ?_
      unfold requestField
      split
      · exact from_chars_lt _ hf
      · exact hf
  rw [r.framed]
  exact hlt _ _ (by decide)

theorem Stored.Holds.length (h : Holds s content) : s.inputBuffer_.readableBytes = content.length := by
  have hsize := h.size
  rw [← h.readable, h.ok.length_readable (by unfold Buffer.max_size at hsize; omega)]

theorem Stored.Holds.retrieveAll (h : Holds s content) (hs : Same s s')
    (hbuf : s'.inputBuffer_ = s.inputBuffer_.retrieveAll) : Front s' [] := by
  have hok := h.ok
  have hsize := h.size
  have hcap := h.capacity
  refine ⟨⟨?_, ?_, ?_, ?_⟩, ?_, ?_⟩
  · rw [hbuf]
    exact ⟨Nat.le_refl _, Nat.le_refl _, hok.prepend_le.trans (hok.reader_le.trans hok.writer_le)⟩
  · rw [hbuf]
    exact window_self
  · rwa [hs.storage]
  · rwa [hs.storage, hs.capacity]
  · rw [hbuf]
    rfl
  · rw [hbuf]
    rfl

theorem Stored.Front.dispatch (h : Front s []) : Ready s.dispatch :=
  ⟨rfl, h.ok, h.reader, h.writer, h.size, h.capacity⟩

theorem Gathering.collect (h : Gathering s r (content ++ rest)) (hh : Holds s content)
    (hne : content ≠ []) : ∃ s₁, s.collectBody = (if rest = [] then s₁.dispatch else s₁) ∧
      Same s s₁ ∧ Front s₁ [] ∧ s₁.parser.header_.headers = r.views ∧
        (rest ≠ [] → Gathering s₁ r rest) := by
  have hpos := List.length_pos_iff.mpr hne
  have hread := h.read
  have hlt := r.body_lt
  rw [List.length_append] at hread
  have hmin : min s.parser.bytesRemaining s.inputBuffer_.readableBytes = content.length := by
    rw [bytesRemaining, h.length, hh.length, Buffer.szSub_eq (by omega) (by omega)]
    omega
  have hadd : szAdd s.parser.body_bytes_read_ content.length =
      s.parser.body_bytes_read_ + content.length := Buffer.szAdd_eq (by omega)
  have hall : s.inputBuffer_.retrieve content.length = s.inputBuffer_.retrieveAll :=
    if_neg (by rw [hh.length]; exact Nat.lt_irrefl _)
  have hsame : Same s { s with
      body := s.body ++ s.inputBuffer_.readable.take content.length
      parser := (s.parser.consumeBody s.inputBuffer_.readable content.length).1
      inputBuffer_ := s.inputBuffer_.retrieveAll } := ⟨rfl, rfl, rfl, rfl, rfl, rfl⟩
  refine ⟨_, ?_, hsame, hh.retrieveAll hsame rfl, h.headers, fun hrest => ?_⟩
  · simp only [Stored.collectBody, hmin, if_pos hpos, hall]
    have hlast : (s.parser.consumeBody s.inputBuffer_.readable content.length).1.gotAll = true ↔
        rest = [] := by
      have hle : r.body.length ≤ s.parser.body_bytes_read_ + content.length ↔ rest = [] := by
        rw [← List.length_eq_zero_iff]
        omega
      simp only [consumeBody, gotAll, hadd, h.length, h.state, hle]
      split <;> simp [*]
    simp only [hlast]
  · have hrestpos := List.length_pos_iff.mpr hrest
    have hmore : ¬ s.parser.content_length_ ≤ s.parser.body_bytes_read_ + content.length := by
      rw [h.length]
      omega
    refine ⟨?_, h.length, ?_, h.headers⟩
    · simp only [consumeBody, hadd, if_neg hmore, h.state]
    · simp only [consumeBody, hadd]
      omega

theorem Gathering.received (h : Gathering s r rest) : Gathering (s.received spare data) r rest := by
  have hparser : (s.received spare data).parser = s.parser := parser_resized _
  constructor
  · rw [hparser, h.state]
  · rw [hparser, h.length]
  · rw [hparser, h.read]
  · rw [hparser, h.headers]

theorem Gathering.handleRead (h : Gathering s r rest) (hf : Front s []) (hne : data ≠ [])
    (hsize : kCheapPrepend_ + data.length ≤ Buffer.max_size) :
    s.handleRead spare data = some (s.received spare data).collectBody := by
  have hstate : (s.received spare data).parser.state_ = _ := h.received.state
  rw [hf.handleRead (by simpa using hsize) hne, Stored.onMessage,
    if_pos (by simp [isExpectingBody, hstate])]

theorem Gathering.run (h : Gathering s r (content ++ later.flatten)) (hh : Holds s content)
    (hne : content ≠ []) (hlater : ∀ data ∈ later, data ≠ [])
    (hsize : kCheapPrepend_ + r.bytes.length ≤ Buffer.max_size) :
    ∃ s' final, later.foldlM (Stored.handleRead spare) s.collectBody = some s' ∧
      Overlaid s final later ∧ s'.seen = s.seen ++ [final.pairs r.views] ∧ Ready s' := by
  induction later generalizing s content with
  | nil =>
    obtain ⟨s₁, hcollect, hsame, hfront, hviews, -⟩ := h.collect hh hne
    rw [if_pos List.flatten_nil] at hcollect
    refine ⟨s₁.dispatch, s₁, congrArg some hcollect, hsame.overlaid, ?_, hfront.dispatch⟩
    rw [← hsame.seen, ← hviews]
    rfl
  | cons data later ih =>
    obtain ⟨s₁, hcollect, hsame, hfront, -, hmore⟩ := h.collect hh hne
    have hdata := hlater data List.mem_cons_self
    have hrest : (data :: later).flatten ≠ [] := by simp [hdata]
    have hg : Gathering s₁ r (data ++ later.flatten) := hmore hrest
    have hlen : kCheapPrepend_ + data.length ≤ Buffer.max_size := by
      have hread := hg.read
      simp only [Incoming.bytes, List.length_append] at hread hsize
      omega
    have hheld : Front (s₁.received spare data) data :=
      hfront.received spare (by simpa using hlen)
    obtain ⟨s', final, hrun, hover, hseen, hready⟩ := ih hg.received hheld.toHolds hdata
      fun data hmem => hlater data (List.mem_cons_of_mem _ hmem)
    refine ⟨s', final, ?_, hsame.overlaid.append (hfront.overlaid.append hover), ?_, hready⟩
    · rw [hcollect, if_neg hrest, List.foldlM_cons, hg.handleRead hfront hdata hlen]
      exact hrun
    · rw [hseen, Stored.received, seen_resized, hsame.seen]

-- ---------------------------------------------------------------------------
-- The head
-- ---------------------------------------------------------------------------

def Stored.afterHead (s : Stored) (r : Incoming) : Stored :=
  { s with
    parser := { s.parser with is_req_ := true }.requestParsed r.parsed r.head.length
    parsedAt := s.inputBuffer_.readerIndex_
    parsedIn := s.moves
    inputBuffer_ := s.inputBuffer_.retrieve r.head.length }

theorem has_body_eq (headers : List phr_header) (f : Framing)
    (hf : f.has_body = decide (0 < f.content_length)) :
    (headers.foldl requestField f).has_body =
      decide (0 < (headers.foldl requestField f).content_length) := by
  induction headers generalizing f with
  | nil => exact hf
  | cons header headers ih =>
    refine ih _ ?_
    unfold requestField
    split
    · rfl
    · exact hf

theorem parser_afterHead (s : Stored) (r : Incoming) : (s.afterHead r).parser =
    { { s.parser with is_req_ := true } with
      header_len_ := r.head.length
      header_ := ⟨r.parsed.method.text, r.parsed.path.text, r.views⟩
      content_length_ := if r.body = [] then s.parser.content_length_ else r.body.length
      state_ := if r.body = [] then .kGotAll else .kExpectBody } := by
  have hbody := has_body_eq r.parsed.headers {} rfl
  rw [← r.framed] at hbody
  simp only [Stored.afterHead, requestParsed, hbody, decide_eq_true_eq, List.length_pos_iff,
    ← r.framed]
  by_cases hbody : r.body = [] <;> simp [hbody, Incoming.views]

theorem Stored.Front.onMessage (h : Front s (r.head ++ content))
    (hp : s.parser = { is_req_ := s.parser.is_req_ }) :
    s.onMessage = if r.body = [] then (s.afterHead r).dispatch else (s.afterHead r).collectBody := by
  have hstate : s.parser.isExpectingBody = false := by rw [hp]; rfl
  have hlen : ({ s.parser with is_req_ := true }.requestParsed r.parsed r.head.length).headerLen =
      r.head.length := headerLen_requestParsed _ _ _
  have hpos := List.length_pos_iff.mpr (request_ne_nil r.accepted)
  have hmessage : s.onMessage = if (s.afterHead r).parser.isExpectingBody
      then (s.afterHead r).collectBody else (s.afterHead r).dispatch := by
    rw [Stored.onMessage, if_neg (by simp [hstate]), h.readable,
      parseRequest_accepts r.accepted r.head_int]
    simp only [hlen, if_pos hpos, if_true]
    rfl
  rw [hmessage, parser_afterHead]
  by_cases hbody : r.body = [] <;> simp [isExpectingBody, hbody]

theorem afterHead_buffer_ (s : Stored) (r : Incoming) :
    (s.afterHead r).inputBuffer_.buffer_ = s.inputBuffer_.buffer_ :=
  Buffer.buffer_retrieve _

theorem afterHead_capacity (s : Stored) (r : Incoming) : (s.afterHead r).capacity = s.capacity := by
  rw [Stored.afterHead]

theorem afterHead_seen (s : Stored) (r : Incoming) : (s.afterHead r).seen = s.seen := by
  rw [Stored.afterHead]

theorem Stored.Front.afterHead (h : Front s (r.head ++ content)) :
    Holds (s.afterHead r) content ∧ (content = [] → Front (s.afterHead r) []) := by
  have hsize := h.size
  have hs : s.inputBuffer_.buffer_.length < 2 ^ 64 := by
    unfold Buffer.max_size at hsize
    omega
  have hbuf : (s.afterHead r).inputBuffer_ = s.inputBuffer_.retrieve r.head.length := rfl
  have hholds : Holds (s.afterHead r) content := by
    constructor
    · rw [hbuf]
      exact h.ok.retrieve_ok hs
    · rw [hbuf, h.ok.retrieve_readable hs, h.readable, List.drop_left]
    · rw [afterHead_buffer_]
      exact h.size
    · rw [afterHead_buffer_, afterHead_capacity]
      exact h.capacity
  refine ⟨hholds, ?_⟩
  rintro rfl
  have hnone : ¬ r.head.length < s.inputBuffer_.readableBytes := by
    rw [h.length, List.append_nil]
    exact Nat.lt_irrefl _
  have hall : (s.afterHead r).inputBuffer_ = s.inputBuffer_.retrieveAll := by
    rw [hbuf, Buffer.retrieve, if_neg hnone]
  refine ⟨hholds, ?_, ?_⟩
  · rw [hall]
    rfl
  · rw [hall]
    rfl

theorem gathering_afterHead (hp : s.parser = { is_req_ := s.parser.is_req_ }) (hbody : r.body ≠ []) :
    Gathering (s.afterHead r) r r.body := by
  have hread : s.parser.body_bytes_read_ = 0 := by rw [hp]
  constructor
  · rw [parser_afterHead]
    exact if_neg hbody
  · rw [parser_afterHead]
    exact if_neg hbody
  · rw [parser_afterHead]
    exact (congrArg (· + _) hread).trans (Nat.zero_add _)
  · rw [parser_afterHead]

theorem Stored.Front.complete (h : Front s (r.head ++ content)) (spare : Nat → Nat → Nat)
    (hp : s.parser = { is_req_ := s.parser.is_req_ }) (hbytes : content ++ later.flatten = r.body)
    (hlater : ∀ data ∈ later, data ≠ [])
    (hsize : kCheapPrepend_ + r.bytes.length ≤ Buffer.max_size) :
    ∃ s' final, later.foldlM (Stored.handleRead spare) s.onMessage = some s' ∧
      Overlaid (s.afterHead r) final later ∧ s'.seen = s.seen ++ [final.pairs r.views] ∧
        Ready s' := by
  obtain ⟨hholds, hfront⟩ := h.afterHead
  have hself : Same (s.afterHead r) (s.afterHead r) := ⟨rfl, rfl, rfl, rfl, rfl, rfl⟩
  rw [h.onMessage hp, ← afterHead_seen s r]
  by_cases hbody : r.body = []
  · rw [if_pos hbody]
    cases later with
    | nil =>
      have hcontent : content = [] := by simpa [hbody] using hbytes
      refine ⟨_, _, rfl, hself.overlaid, ?_, (hfront hcontent).dispatch⟩
      have hviews : (s.afterHead r).parser.request.headers = r.views := by rw [parser_afterHead]; rfl
      rw [← hviews]
      rfl
    | cons data later =>
      have hdata := hlater data List.mem_cons_self
      simp [hbody, hdata] at hbytes
  · rw [if_neg hbody]
    have hg := gathering_afterHead hp hbody
    by_cases hcontent : content = []
    · have hf := hfront hcontent
      have hidle : (s.afterHead r).collectBody = s.afterHead r := by
        have hgot : (s.afterHead r).parser.gotAll = false := by simp [gotAll, hg.state]
        simp [Stored.collectBody, hf.length, hgot]
      subst hcontent
      rw [hidle]
      cases later with
      | nil => exact absurd hbytes.symm hbody
      | cons data later =>
        have hdata := hlater data List.mem_cons_self
        have hlen : kCheapPrepend_ + data.length ≤ Buffer.max_size := by
          have hle := congrArg List.length hbytes
          simp only [Incoming.bytes, List.length_append, List.flatten_cons, List.nil_append] at hle hsize
          omega
        have hheld : Front ((s.afterHead r).received spare data) data :=
          hf.received spare (by simpa using hlen)
        have hrest : data ++ later.flatten = r.body := hbytes
        rw [← hrest] at hg
        obtain ⟨s', final, hrun, hover, hseen, hready⟩ :=
          (Gathering.received hg).run hheld.toHolds hdata
            (fun data hmem => hlater data (List.mem_cons_of_mem _ hmem)) hsize
        refine ⟨s', final, ?_, hf.overlaid.append hover, ?_, hready⟩
        · rw [List.foldlM_cons, hg.handleRead hf hdata hlen]
          exact hrun
        · rw [hseen, Stored.received, seen_resized]
    · rw [← hbytes] at hg
      exact hg.run hholds hcontent hlater hsize

-- ---------------------------------------------------------------------------
-- Every read
-- ---------------------------------------------------------------------------

theorem Stored.Front.storage (h : Front s (r.head ++ content)) (j : Nat) (hj : j < r.head.length) :
    s.inputBuffer_.buffer_[kCheapPrepend_ + j]? = r.head[j]? := by
  have hread := congrArg (·[j]?) h.readable
  simp only [Buffer.readable, window, h.reader, h.writer, List.getElem?_append_left hj] at hread
  rw [← hread, List.getElem?_take_of_lt, List.getElem?_drop]
  rw [List.length_append]
  omega

theorem complete_spares (h : Front s (r.head ++ content)) (spare : Nat → Nat → Nat)
    (hp : s.parser = { is_req_ := s.parser.is_req_ }) (hbytes : content ++ later.flatten = r.body)
    (hlater : ∀ data ∈ later, data ≠ [])
    (hsize : kCheapPrepend_ + r.bytes.length ≤ Buffer.max_size) :
    ∃ s', later.foldlM (Stored.handleRead spare) s.onMessage = some s' ∧ Ready s' ∧
      (s'.seen = s.seen ++ [r.headers] ↔ Spares r s.capacity later) := by
  obtain ⟨s', final, hrun, hover, hseen, hready⟩ :=
    h.complete spare hp hbytes hlater hsize
  have hstorage : ∀ j < r.head.length,
      (s.afterHead r).inputBuffer_.buffer_[kCheapPrepend_ + j]? = r.head[j]? := by
    rw [afterHead_buffer_]
    exact h.storage
  have hpairs := hover.pairs_iff h.reader rfl hstorage ?_
  · rw [afterHead_capacity] at hpairs
    refine ⟨s', hrun, hready, ?_⟩
    rw [hseen, List.append_cancel_left_eq, List.singleton_inj]
    exact hpairs
  · intro hne hbody
    obtain ⟨data, hmem⟩ := List.exists_mem_of_ne_nil _ hne
    rw [hbody, List.append_eq_nil_iff] at hbytes
    exact hlater data hmem (List.flatten_eq_nil_iff.mp hbytes.2 data hmem)

theorem Stored.Front.wait (h : Front s content) (hp : s.parser = { is_req_ := s.parser.is_req_ })
    (hhead : content ++ rest = r.head) (hne : rest ≠ []) :
    s.onMessage = { s with parser := { s.parser with is_req_ := true } } := by
  have hstate : s.parser.isExpectingBody = false := by rw [hp]; rfl
  have haccepted : Accepts parse_request (content ++ rest) r.parsed := hhead ▸ r.accepted
  simp [Stored.onMessage, hstate, h.readable, parseRequest_incomplete haccepted hne]

theorem reads_spared (h : Front s content) (hp : s.parser = { is_req_ := s.parser.is_req_ })
    (hgot : content.length < r.head.length) (hbytes : content ++ reads.flatten = r.bytes)
    (hreads : ∀ data ∈ reads, data ≠ []) (hsize : kCheapPrepend_ + r.bytes.length ≤ Buffer.max_size) :
    ∃ s', reads.foldlM (Stored.handleRead spare) s = some s' ∧ Ready s' ∧
      (s'.seen = s.seen ++ [r.headers] ↔ SparedFrom spare r content.length s.vector reads) := by
  induction reads generalizing s content with
  | nil =>
    have hlen := congrArg List.length hbytes
    simp only [Incoming.bytes, List.length_append, List.flatten_nil, List.length_nil] at hlen
    omega
  | cons data reads ih =>
    have hrest := fun data hmem => hreads data (List.mem_cons_of_mem _ hmem)
    have hlen : content.length + data.length ≤ r.bytes.length := by
      rw [← hbytes]
      simp
    have hfits : kCheapPrepend_ + (content.length + data.length) ≤ Buffer.max_size := by omega
    have hfront := h.received spare hfits
    have hparser : (s.received spare data).parser = s.parser := parser_resized _
    have hp' : (s.received spare data).parser =
        { is_req_ := (s.received spare data).parser.is_req_ } := by rw [hparser, hp]
    have hseen : (s.received spare data).seen = s.seen := seen_resized _
    rw [List.flatten_cons, ← List.append_assoc] at hbytes
    have hprefix : content ++ data <+: r.bytes := ⟨_, hbytes⟩
    have hhead : r.head <+: r.bytes := List.prefix_append _ _
    simp only [List.foldlM_cons, h.handleRead hfits (hreads data List.mem_cons_self),
      Option.bind_eq_bind, Option.bind_some, SparedFrom, ← h.vector_received, ← hseen]
    by_cases hle : r.head.length ≤ content.length + data.length
    · obtain ⟨body, hbody⟩ := List.prefix_of_prefix_length_le hhead hprefix (by simpa using hle)
      rw [← hbody] at hfront hbytes
      rw [Incoming.bytes, List.append_assoc] at hbytes
      rw [if_pos hle]
      exact complete_spares hfront spare hp' (List.append_cancel_left hbytes) hrest hsize
    · obtain ⟨missing, hmissing⟩ := List.prefix_of_prefix_length_le hprefix hhead (by
        rw [List.length_append]
        omega)
      have hne : missing ≠ [] := by
        rintro rfl
        have hsame := congrArg List.length hmissing
        simp only [List.append_nil, List.length_append] at hsame
        omega
      rw [if_neg hle, hfront.wait hp' hmissing hne, ← List.length_append]
      refine ih (s := { s.received spare data with parser := _ }) ⟨⟨hfront.ok, hfront.readable,
        hfront.size, hfront.capacity⟩, hfront.reader, hfront.writer⟩ (by rw [hp']) ?_ hbytes hrest
      rw [List.length_append]
      omega

theorem Stored.Ready.served (hs : Ready s) (h : Splits r reads)
    (hsize : kCheapPrepend_ + r.bytes.length ≤ Buffer.max_size) :
    ∃ s', reads.foldlM (Stored.handleRead spare) s = some s' ∧ Ready s' ∧
      (s'.seen = s.seen ++ [r.headers] ↔ Spared spare s r reads) := by
  have hpos := List.length_pos_iff.mpr (request_ne_nil r.accepted)
  exact reads_spared hs.front hs.parser hpos h.bytes h.ne_nil hsize

theorem ready_after (hs : Ready s) (h : Splits r reads)
    (hsize : kCheapPrepend_ + r.bytes.length ≤ Buffer.max_size)
    (hrun : reads.foldlM (Stored.handleRead spare) s = some s') : Ready s' := by
  obtain ⟨_, hreads, hready, -⟩ := hs.served h hsize
  cases hreads.symm.trans hrun
  exact hready

/-- The headers that the callback reads are those of the head if and only if the reads after the
head leave them. -/
theorem headersRead_iff (hs : Ready s) (h : Splits r reads)
    (hsize : kCheapPrepend_ + r.bytes.length ≤ Buffer.max_size) :
    HeadersRead spare s r reads ↔ Spared spare s r reads := by
  obtain ⟨s', hrun, -, hseen⟩ := hs.served h hsize
  rw [← hseen, HeadersRead, hrun]
  simp

instance (head : Bytes) (reads : List Bytes) (v : StringView) : Decidable (Agrees head reads v) :=
  inferInstanceAs (Decidable (∀ j ∈ _, _))

instance (r : Incoming) (capacity : Nat) (reads : List Bytes) : Decidable (Spares r capacity reads) :=
  decidable_of_iff
    ((∀ data ∈ reads, kCheapPrepend_ + data.length ≤ capacity) ∧
      ∀ v ∈ r.views, Agrees r.head reads v.1 ∧ Agrees r.head reads v.2)
    ⟨fun ⟨h₁, h₂⟩ => ⟨h₁, h₂⟩, fun ⟨h₁, h₂⟩ => ⟨h₁, h₂⟩⟩

theorem ready_fresh : Ready {} where
  parser := rfl
  ok := Buffer.fresh_ok
  reader := rfl
  writer := rfl
  size := Buffer.fresh_size
  capacity := Nat.le_of_eq Buffer.fresh_length

/-- A vector that doubles its size, or takes what it needs if that is more. -/
def doubled (old size : Nat) : Nat := 2 * old - size

/-- The body comes after the head, and is too short to reach the headers. -/
theorem headersRead_iff_short : HeadersRead doubled {} postRequest.incoming
    [postRequest.head, postRequest.body] := by
  have hsplits : Splits postRequest.incoming [postRequest.head, postRequest.body] :=
    ⟨by decide +kernel, by decide +kernel⟩
  refine (headersRead_iff ready_fresh hsplits (by decide +kernel)).mpr ?_
  have hcomplete : postRequest.incoming.head.length ≤ 0 + postRequest.head.length := by
    decide +kernel
  rw [Spared, SparedFrom, if_pos hcomplete]
  decide +kernel

/-- `POST /a` with a body of twenty characters. -/
def longPost : Incoming where
  head := ascii "POST /a HTTP/1.1\r\nContent-Length: 20\r\n\r\n"
  body := ascii "abcdefghijklmnopqrst"
  parsed := ⟨⟨0, ascii "POST"⟩, ⟨5, ascii "/a"⟩, 1,
    [⟨some ⟨18, ascii "Content-Length"⟩, ⟨34, ascii "20"⟩⟩]⟩
  accepted := by decide +kernel
  head_int := by decide +kernel
  framed := by decide +kernel

/-- The body comes in a read of its own, and ends in the first header. -/
theorem not_headersRead :
    Splits longPost [longPost.head, longPost.body] ∧
      ([longPost.head, longPost.body].foldlM (Stored.handleRead doubled) {}).map Stored.seen =
        some [[(some (ascii "stntent-Length"), some (ascii "20"))]] ∧
      ¬ HeadersRead doubled {} longPost [longPost.head, longPost.body] := by
  have hsplits : Splits longPost [longPost.head, longPost.body] :=
    ⟨by decide +kernel, by decide +kernel⟩
  have hrun : ([longPost.head, longPost.body].foldlM (Stored.handleRead doubled) {}).map Stored.seen =
      some [[(some (ascii "stntent-Length"), some (ascii "20"))]] := by
    decide +kernel
  refine ⟨hsplits, hrun, ?_⟩
  rintro ⟨s', hs, hseen⟩
  rw [hs, Option.map_some, hseen] at hrun
  revert hrun
  decide +kernel

end VortexNet.HttpServer
