import VortexNet.Http.HeaderViews
import VortexNet.Utils.BufferQueue

/-!
# The storage refines the content

A connection over the storage of its input buffer does what the connection over
the bytes in the buffer does: parser, body and calls are the same after every
read. Indices, growth and moves of the storage show in nothing but the views of
the headers.
-/

namespace VortexNet.HttpServer

open Incremental Picohttpparser HttpParser Windows

/-- `t` holds in storage what `s` holds as bytes, and has made the same calls: method, path, header
views and body. In each, the callback has read as many headers as the request has. -/
structure Refines (t : Stored) (s : HttpServer) : Prop where
  sound : t.inputBuffer_.Sound
  readable : t.inputBuffer_.readable = s.inputBuffer_
  parser : t.parser = s.parser
  body : t.body = s.body
  calls : t.calls = s.calls
  seen : t.seen.map List.length = s.calls.map fun call => call.1.headers.length

/-- A read stores what `readv` was offered room for, in a vector that can be as long. -/
structure Delivers (t : Stored) (data : Bytes) : Prop where
  ne_nil : data ≠ []
  fits : (Buffer.Readv.bytes data).Fits t.inputBuffer_
  grows : ∀ b e n, t.inputBuffer_.readFd (.bytes data) 0 = some (b, e, n) → b.buffer_.length ≤ Buffer.max_size

/-- Each read is one in its turn. -/
def Delivered (spare : Nat → Nat → Nat) : Stored → List Bytes → Prop
  | _, [] => True
  | t, data :: reads =>
    Delivers t data ∧ ∀ t', t.handleRead spare data = some t' → Delivered spare t' reads

variable {t t' : Stored} {s s' : HttpServer} {spare : Nat → Nat → Nat} {data : Bytes} {reads : List Bytes}

-- ---------------------------------------------------------------------------
-- The functions
-- ---------------------------------------------------------------------------

theorem Refines.readableBytes (h : Refines t s) :
    t.inputBuffer_.readableBytes = s.inputBuffer_.length := by
  rw [← h.readable, h.sound.ok.length_readable h.sound.size_lt]

theorem Refines.dispatch (h : Refines t s) : Refines t.dispatch s.dispatch where
  sound := h.sound
  readable := h.readable
  parser := congrArg reset h.parser
  body := rfl
  calls := by rw [Stored.dispatch, HttpServer.dispatch, h.calls, h.parser, h.body]
  seen := by
    simp only [Stored.dispatch, HttpServer.dispatch, List.map_append, h.seen, List.map_singleton,
      Stored.pairs, List.length_map, h.parser]

theorem Refines.retrieve (h : Refines t s) (n : Nat) :
    Refines { t with inputBuffer_ := t.inputBuffer_.retrieve n }
      { s with inputBuffer_ := s.inputBuffer_.drop n } where
  sound := h.sound.retrieve n
  readable := (h.sound.ok.retrieve_readable h.sound.size_lt).trans (congrArg (List.drop n) h.readable)
  parser := h.parser
  body := h.body
  calls := h.calls
  seen := h.seen

theorem Refines.ends (h : Refines t s) : Refines (if t.parser.gotAll then t.dispatch else t)
    (if s.parser.gotAll then s.dispatch else s) := by
  rw [h.parser]
  split
  · exact h.dispatch
  · exact h

theorem Refines.collectBody (h : Refines t s) : Refines t.collectBody s.collectBody := by
  have hn : min t.parser.bytesRemaining t.inputBuffer_.readableBytes =
      min s.parser.bytesRemaining s.inputBuffer_.length := by rw [h.parser, h.readableBytes]
  simp only [Stored.collectBody, HttpServer.collectBody, hn]
  by_cases hpos : 0 < min s.parser.bytesRemaining s.inputBuffer_.length
  · rw [if_pos hpos, if_pos hpos]
    have htaken := h.retrieve (min s.parser.bytesRemaining s.inputBuffer_.length)
    refine Refines.ends ⟨htaken.sound, htaken.readable, ?_, ?_, h.calls, h.seen⟩
    · rw [h.parser, h.readable]
    · rw [h.body, h.readable]
  · rw [if_neg hpos, if_neg hpos]
    exact h.ends

theorem parseRequest_left {p p' : HttpParser} {buf buf' : Bytes}
    (h : p.parseRequest buf = (false, p', buf')) : buf' = buf ∨ buf' = [] := by
  simp only [parseRequest] at h
  split at h
  · split at h
    · cases h
    · split at h <;> cases h
      · exact .inl rfl
      · exact .inr rfl
  · cases h
    exact .inl rfl
  · cases h
    exact .inr rfl

theorem Refines.onMessage (h : Refines t s) : Refines t.onMessage s.onMessage := by
  simp only [Stored.onMessage, HttpServer.onMessage, h.parser, h.readable]
  split
  · exact h.collectBody
  · rcases hp : s.parser.parseRequest s.inputBuffer_ with ⟨_ | _, p, buf⟩
    · have hleft := parseRequest_left hp
      simp only [Bool.false_eq_true, if_false]
      split
      · rename_i hbuf
        rw [hbuf]
        exact ⟨h.sound, h.readable, rfl, h.body, h.calls, h.seen⟩
      · rename_i hbuf
        rw [hleft.resolve_left hbuf]
        exact ⟨h.sound.retrieveAll, window_self, rfl, h.body, h.calls, h.seen⟩
    · obtain ⟨-, rfl, -⟩ := parseRequest_parsed hp
      simp only [if_true]
      have hparsed : Refines { t with
            parser := p, parsedAt := t.inputBuffer_.readerIndex_, parsedIn := t.moves }
          { s with parser := p } := ⟨h.sound, h.readable, rfl, h.body, h.calls, h.seen⟩
      by_cases hpos : 0 < p.headerLen
      · have htaken := hparsed.retrieve p.headerLen
        rw [if_pos hpos]
        split
        · exact htaken.collectBody
        · exact htaken.dispatch
      · rw [if_neg hpos, Nat.eq_zero_of_not_pos hpos, List.drop_zero]
        split
        · exact hparsed.collectBody
        · exact hparsed.dispatch

-- ---------------------------------------------------------------------------
-- Reads
-- ---------------------------------------------------------------------------

theorem Refines.resized (h : Refines t s) (spare : Nat → Nat → Nat) (b : Buffer) (hb : b.Sound)
    (hread : b.readable = s.inputBuffer_ ++ data) :
    Refines (t.resized spare b) { s with inputBuffer_ := s.inputBuffer_ ++ data } := by
  unfold Stored.resized
  dsimp only
  split
  · exact ⟨hb, hread, h.parser, h.body, h.calls, h.seen⟩
  · exact ⟨hb, hread, h.parser, h.body, h.calls, h.seen⟩

def Stored.afterRead (spare : Nat → Nat → Nat) (t : Stored) (data : Bytes) : Stored :=
  (t.resized spare (t.inputBuffer_.received data)).onMessage

theorem Refines.handleRead (h : Refines t s) (spare : Nat → Nat → Nat) (hd : Delivers t data) :
    t.handleRead spare data = some (t.afterRead spare data) ∧
      Refines (t.afterRead spare data) (s.handleRead data) := by
  obtain ⟨hok, hsize⟩ := h.sound
  have hread : t.inputBuffer_.readFd (.bytes data) 0 = _ := Buffer.readFd_bytes hok hsize hd.fits
  have hpos := List.length_pos_iff.mpr hd.ne_nil
  constructor
  · rw [Stored.handleRead, hread]
    simp only [Option.bind_eq_bind, Option.bind_some]
    rw [if_pos (Int.natCast_pos.mpr hpos)]
    rfl
  · obtain ⟨hok', hreadable, -⟩ := hok.received hsize (hok.length_le hsize hd.fits)
    refine (h.resized spare _ ⟨hok', hd.grows _ _ _ hread⟩ ?_).onMessage
    rw [hreadable, h.readable]

/-- After any reads the storage still holds what the bytes are, and the same calls were made. -/
theorem Refines.run (h : Refines t s) (hd : Delivered spare t reads) :
    reads.foldlM (Stored.handleRead spare) t = some (reads.foldl (Stored.afterRead spare) t) ∧
      Refines (reads.foldl (Stored.afterRead spare) t) (reads.foldl HttpServer.handleRead s) := by
  induction reads generalizing t s with
  | nil => exact ⟨rfl, h⟩
  | cons data reads ih =>
    obtain ⟨hread, h'⟩ := h.handleRead spare hd.1
    obtain ⟨hrun, hrefines⟩ := ih h' (hd.2 _ hread)
    exact ⟨by rw [List.foldlM_cons, hread]; exact hrun, hrefines⟩

theorem refines_fresh : Refines {} {} :=
  ⟨⟨Buffer.fresh_ok, Buffer.fresh_size⟩, window_self, rfl, rfl, rfl, rfl⟩

/-- A connection over storage is one over the bytes. -/
theorem storage_refines (hd : Delivered spare {} reads) :
    ∃ t, reads.foldlM (Stored.handleRead spare) {} = some t ∧
      Refines t (reads.foldl HttpServer.handleRead {}) := by
  obtain ⟨hrun, h⟩ := refines_fresh.run hd
  exact ⟨_, hrun, h⟩

-- ---------------------------------------------------------------------------
-- Reads that are delivered
-- ---------------------------------------------------------------------------

theorem buffer_ends (t : Stored) : (if t.parser.gotAll then t.dispatch else t).inputBuffer_.buffer_ =
    t.inputBuffer_.buffer_ := by
  split
  · rw [Stored.dispatch]
  · rfl

theorem buffer_collectBody (t : Stored) :
    t.collectBody.inputBuffer_.buffer_ = t.inputBuffer_.buffer_ := by
  simp only [Stored.collectBody]
  by_cases hpos : 0 < min t.parser.bytesRemaining t.inputBuffer_.readableBytes
  · rw [if_pos hpos, buffer_ends]
    exact Buffer.buffer_retrieve _
  · rw [if_neg hpos, buffer_ends]

theorem buffer_onMessage (t : Stored) : t.onMessage.inputBuffer_.buffer_ = t.inputBuffer_.buffer_ := by
  unfold Stored.onMessage
  split
  · exact buffer_collectBody t
  · rcases t.parser.parseRequest t.inputBuffer_.readable with ⟨_ | _, p, buf⟩
    · simp only [Bool.false_eq_true, if_false]
      split <;> rfl
    · simp only [if_true]
      split <;> split
      · rw [buffer_collectBody, Buffer.buffer_retrieve]
      · exact Buffer.buffer_retrieve _
      · exact buffer_collectBody _
      · rfl

theorem Refines.length_afterRead (h : Refines t s) (spare : Nat → Nat → Nat)
    (hlen : data.length ≤ 2 ^ 63) :
    (t.afterRead spare data).inputBuffer_.buffer_.length ≤
      t.inputBuffer_.buffer_.length + data.length := by
  rw [Stored.afterRead, buffer_onMessage, Stored.inputBuffer_resized]
  exact (h.sound.ok.received h.sound.size hlen).2.2

/-- A read of what `extrabuf` has room for, in a vector far from its limit. -/
theorem Refines.delivers (h : Refines t s) (hne : data ≠ []) (hextra : data.length ≤ Buffer.extraSize)
    (hsize : t.inputBuffer_.buffer_.length + data.length ≤ Buffer.max_size) : Delivers t data := by
  have hfits : (Buffer.Readv.bytes data).Fits t.inputBuffer_ := by
    rw [Buffer.Readv.Fits, Buffer.Readv.data, Buffer.offered]
    split <;> omega
  refine ⟨hne, hfits, fun b e n hread => ?_⟩
  rw [Buffer.readFd_bytes h.sound.ok h.sound.size hfits] at hread
  cases hread
  exact (h.sound.ok.received h.sound.size (h.sound.ok.length_le h.sound.size hfits)).2.2.trans hsize

theorem Refines.delivered (h : Refines t s)
    (hreads : ∀ data ∈ reads, data ≠ [] ∧ data.length ≤ Buffer.extraSize)
    (hsize : t.inputBuffer_.buffer_.length + reads.flatten.length ≤ Buffer.max_size) :
    Delivered spare t reads := by
  induction reads generalizing t s with
  | nil => trivial
  | cons data reads ih =>
    obtain ⟨⟨hne, hextra⟩, hreads⟩ := List.forall_mem_cons.mp hreads
    rw [List.flatten_cons, List.length_append] at hsize
    have hd := h.delivers hne hextra (by omega)
    obtain ⟨hread, h'⟩ := h.handleRead spare hd
    refine ⟨hd, fun t' ht' => ?_⟩
    cases hread.symm.trans ht'
    have hlen := h.length_afterRead spare (h.sound.ok.length_le h.sound.size hd.fits)
    exact ih h' hreads (by omega)

/-- Two posts. The second waits behind the body of the first; the rest of its head comes in a read
that moves the content of the vector to its front, and its body in one that the vector moves for. -/
def postReads : List Bytes :=
  [ascii "POST /a HTTP/1.1\r\nContent-Length: 800\r\n\r\n" ++ List.replicate 800 97 ++
      ascii "POST /b HTTP/1.1\r\n",
    ascii "Content-Length: 1600\r\nX: " ++ List.replicate 300 120 ++ ascii "\r\n",
    ascii "\r\n" ++ List.replicate 1300 98, List.replicate 300 98]

theorem storage_refines_posts : ∃ t, postReads.foldlM (Stored.handleRead doubled) {} = some t ∧
    Refines t (postReads.foldl HttpServer.handleRead {}) ∧ t.moves = 1 ∧
    t.calls.map (fun (request, body) => (request.method, request.path, body)) =
      [(ascii "POST", ascii "/a", List.replicate 800 97),
        (ascii "POST", ascii "/b", List.replicate 1300 98 ++ List.replicate 300 98)] := by
  have hd : Delivered doubled {} postReads :=
    refines_fresh.delivered (by decide +kernel) (by decide +kernel)
  obtain ⟨t, ht, h⟩ := storage_refines hd
  refine ⟨t, ht, h, ?_, ?_⟩
  · rw [Option.some.inj (ht.symm.trans (refines_fresh.run hd).1)]
    decide +kernel
  · rw [h.calls, ← HttpServer.served]
    decide +kernel

end VortexNet.HttpServer
