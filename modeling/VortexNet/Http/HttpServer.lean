import VortexNet.Http.HttpParser

/-!
# The HTTP server

`HttpServer.h` on one connection, with `TcpConnection::handleRead` in front of
it. A read handles at most one request, so the requests of a stream are all
served exactly when enough reads follow the one that completes each of them
(`served_iff`).
-/

namespace VortexNet

open Incremental Picohttpparser HttpParser

/-- A connection of the server. `calls` are the arguments of the request callback so far. -/
structure HttpServer where
  inputBuffer_ : Bytes := []
  parser : HttpParser := {}
  body : Bytes := []
  calls : List (HttpRequest × Bytes) := []
  deriving DecidableEq

namespace HttpServer

def dispatch (s : HttpServer) : HttpServer :=
  { s with
    calls := s.calls ++ [(s.parser.request, s.body)]
    body := []
    parser := s.parser.reset }

def collectBody (s : HttpServer) : HttpServer :=
  let n := min s.parser.bytesRemaining s.inputBuffer_.length
  let s := if 0 < n then
      let (parser, buf) := s.parser.consumeBody s.inputBuffer_ n
      { s with body := s.body ++ s.inputBuffer_.take n, parser, inputBuffer_ := buf }
    else s
  if s.parser.gotAll then s.dispatch else s

def onMessage (s : HttpServer) : HttpServer :=
  if s.parser.isExpectingBody then s.collectBody
  else
    let (parsed, parser, buf) := s.parser.parseRequest s.inputBuffer_
    let s := { s with parser, inputBuffer_ := buf }
    if parsed then
      let s := { s with inputBuffer_ := s.inputBuffer_.drop s.parser.headerLen }
      if s.parser.isExpectingBody then s.collectBody else s.dispatch
    else s

/-- A read event that finds `data`. -/
def handleRead (s : HttpServer) (data : Bytes) : HttpServer :=
  { s with inputBuffer_ := s.inputBuffer_ ++ data }.onMessage

-- ---------------------------------------------------------------------------
-- Requests and what serves them
-- ---------------------------------------------------------------------------

/-- A well-formed request. Its head is one that picohttpparser reads to its end, shorter
than an `int` can count. -/
structure Request where
  head : Bytes
  body : Bytes
  parsed : RequestHead
  accepted : Accepts parse_request head parsed
  head_int : head.length < 2 ^ 31
  framed : Framed parsed.headers body.length

def Request.bytes (r : Request) : Bytes := r.head ++ r.body

def stream (reqs : List Request) : Bytes := (reqs.map Request.bytes).flatten

/-- Method, path and body, as the callback should get them. -/
def Request.call (r : Request) : Bytes × Bytes × Bytes :=
  (r.parsed.method.text, r.parsed.path.text, r.body)

def served (s : HttpServer) : List (Bytes × Bytes × Bytes) :=
  s.calls.map fun (request, body) => (request.method, request.path, body)

/-- Each request is served once, in order, when the reads are over. -/
def Served (reqs : List Request) (reads : List Bytes) : Prop :=
  (reads.foldl handleRead {}).served = reqs.map Request.call

/-- The number of requests that the first `n` bytes do not complete. -/
def incomplete : List Request → Nat → Nat
  | [], _ => 0
  | r :: reqs, n =>
    if n < r.bytes.length then reqs.length + 1 else incomplete reqs (n - r.bytes.length)

/-- At every point there are as many reads to come as requests that are not complete. -/
def Paced (reqs : List Request) (reads : List Bytes) : Prop :=
  ∀ k ≤ reads.length, incomplete reqs (reads.take k).flatten.length ≤ reads.length - k

instance (reqs : List Request) (reads : List Bytes) : Decidable (Served reqs reads) :=
  inferInstanceAs (Decidable (_ = _))

instance (reqs : List Request) (reads : List Bytes) : Decidable (Paced reqs reads) :=
  inferInstanceAs (Decidable (∀ k ≤ _, _))

-- ---------------------------------------------------------------------------
-- The state between reads
-- ---------------------------------------------------------------------------

/-- No request is under way. -/
structure Idle (s : HttpServer) : Prop where
  parser : s.parser = { is_req_ := s.parser.is_req_ }
  body : s.body = []

/-- The head of `r` and a part of its body have been read; `rest` is what is missing. -/
structure Collecting (s : HttpServer) (r : Request) (rest : Bytes) : Prop where
  state : s.parser.state_ = .kExpectBody
  length : s.parser.content_length_ = r.body.length
  read : s.parser.body_bytes_read_ = s.body.length
  method : s.parser.header_.method = r.parsed.method.text
  path : s.parser.header_.path = r.parsed.path.text
  body : s.body ++ rest = r.body

/-- What has been received of the requests `reqs` not served yet is `held`. -/
inductive At : List Request → HttpServer → Bytes → Prop
  | idle (h : Idle s) : At reqs s s.inputBuffer_
  | collecting (h : Collecting s r rest) (hne : rest ≠ []) :
    At (r :: reqs) s (r.head ++ s.body ++ s.inputBuffer_)

variable {s : HttpServer} {r : Request} {rest more : Bytes}

theorem served_dispatch (hm : s.parser.header_.method = r.parsed.method.text)
    (hp : s.parser.header_.path = r.parsed.path.text) (hb : s.body = r.body) :
    s.dispatch.served = s.served ++ [r.call] := by
  simp [served, dispatch, Request.call, HttpParser.request, hm, hp, hb]

theorem dispatch_idle : s.dispatch.Idle := ⟨rfl, rfl⟩

theorem Request.body_lt (r : Request) : r.body.length < 2 ^ 64 := framed_lt r.framed

theorem Collecting.lengths (h : Collecting s r rest) :
    r.body.length = s.body.length + rest.length := by
  rw [← h.body, List.length_append]

theorem Collecting.bytesRemaining (h : Collecting s r rest) :
    s.parser.bytesRemaining = rest.length := by
  have hlen := h.lengths
  have hlt := r.body_lt
  rw [HttpParser.bytesRemaining, h.length, h.read, Buffer.szSub_eq (by omega) (by omega)]
  omega

theorem Collecting.read_add (h : Collecting s r rest) (hn : n ≤ rest.length) :
    szAdd s.parser.body_bytes_read_ n = s.body.length + n := by
  have hlen := h.lengths
  have hlt := r.body_lt
  rw [h.read, Buffer.szAdd_eq (by omega)]

theorem Collecting.finish (h : Collecting s r rest) (hne : rest ≠ [])
    (hbuf : s.inputBuffer_ = rest ++ more) :
    s.collectBody.served = s.served ++ [r.call] ∧ s.collectBody.Idle ∧
      s.collectBody.inputBuffer_ = more := by
  have hpos := List.length_pos_iff.mpr hne
  have hmin : min s.parser.bytesRemaining s.inputBuffer_.length = rest.length := by
    rw [h.bytesRemaining, hbuf, List.length_append]
    omega
  have hlen := h.lengths
  simp only [collectBody, hmin, if_pos hpos, consumeBody, h.read_add (Nat.le_refl _)]
  rw [if_pos (by simp [gotAll, h.length, hlen])]
  refine ⟨served_dispatch h.method h.path ?_, dispatch_idle, ?_⟩
  · simp [hbuf, h.body]
  · simp [dispatch, hbuf]

theorem Collecting.grow (h : Collecting s r (s.inputBuffer_ ++ rest)) (hne : rest ≠ []) :
    s.collectBody.served = s.served ∧ Collecting s.collectBody r rest ∧
      s.collectBody.inputBuffer_ = [] ∧ s.collectBody.body = s.body ++ s.inputBuffer_ := by
  have hpos := List.length_pos_iff.mpr hne
  have hmin : min s.parser.bytesRemaining s.inputBuffer_.length = s.inputBuffer_.length := by
    rw [h.bytesRemaining, List.length_append]
    omega
  have hlen := h.lengths
  rw [List.length_append] at hlen
  have hstate : s.parser.gotAll = false := by simp [gotAll, h.state]
  by_cases hw : s.inputBuffer_ = []
  · have hself : s.collectBody = s := by simp [collectBody, hw, hstate]
    rw [hw, List.nil_append] at h
    rw [hself]
    exact ⟨rfl, h, hw, by simp [hw]⟩
  · have hadd := h.read_add (n := s.inputBuffer_.length) (by simp)
    have hnot : ¬ r.body.length ≤ s.body.length + s.inputBuffer_.length := by omega
    have hbody := h.body
    simp only [collectBody, hmin, if_pos (List.length_pos_iff.mpr hw), consumeBody, hadd, h.length,
      if_neg hnot]
    rw [if_neg (by simp [gotAll, h.state])]
    refine ⟨rfl, ⟨h.state, rfl, ?_, h.method, h.path, ?_⟩, ?_, ?_⟩
    · simp
    · simpa using hbody
    · simp
    · simp

-- ---------------------------------------------------------------------------
-- One read
-- ---------------------------------------------------------------------------

/-- What a read does with the bytes `held` that are there for `reqs`: it serves the first
request if that is complete, and nothing else. -/
def ReadSpec (reqs : List Request) (s s' : HttpServer) (held future : Bytes) : Prop :=
  (∃ r reqs' held', reqs = r :: reqs' ∧ held = r.bytes ++ held' ∧ s'.served = s.served ++ [r.call] ∧
    At reqs' s' held' ∧ stream reqs' = held' ++ future) ∨
  ((∀ r reqs', reqs = r :: reqs' → held.length < r.bytes.length) ∧ s'.served = s.served ∧
    At reqs s' held)

theorem split_body {t w S F : Bytes} (h : t ++ S = w ++ F) :
    (∃ w', w = t ++ w' ∧ S = w' ++ F) ∨ ∃ t', t' ≠ [] ∧ t = w ++ t' := by
  rcases List.append_eq_append_iff.mp h with ⟨w', hw, hS⟩ | ⟨t', ht, -⟩
  · exact .inl ⟨w', hw, hS⟩
  · by_cases hne : t' = []
    · subst hne
      rw [List.append_nil] at ht
      subst ht
      exact .inl ⟨[], by simp, List.append_cancel_left h⟩
    · exact .inr ⟨t', hne, ht⟩

theorem Collecting.collect (h : Collecting s r rest) (hne : rest ≠ [])
    (hs : rest ++ stream reqs = s.inputBuffer_ ++ future) :
    ReadSpec (r :: reqs) s s.collectBody (r.head ++ s.body ++ s.inputBuffer_) future := by
  rcases split_body hs with ⟨more, hw, hmore⟩ | ⟨rest', hne', hrest⟩
  · obtain ⟨hserved, hidle, hbuf⟩ := h.finish hne hw
    refine .inl ⟨r, reqs, more, rfl, ?_, hserved, hbuf ▸ .idle hidle, hmore⟩
    simp [hw, Request.bytes, ← h.body]
  · rw [hrest] at h
    obtain ⟨hserved, hcoll, hbuf, hbody⟩ := h.grow hne'
    refine .inr ⟨?_, hserved, ?_⟩
    · rintro _ _ ⟨⟩
      have hlen := h.lengths
      have hpos := List.length_pos_iff.mpr hne'
      simp only [Request.bytes, List.length_append] at hlen ⊢
      omega
    · have hat : At (r :: reqs) s.collectBody _ := .collecting hcoll hne'
      simpa [hbuf, hbody] using hat

theorem Idle.wait (h : Idle s) (hp : s.parser.parseRequest s.inputBuffer_ =
      (false, { s.parser with is_req_ := true }, s.inputBuffer_)) :
    s.onMessage.served = s.served ∧ s.onMessage.Idle ∧
      s.onMessage.inputBuffer_ = s.inputBuffer_ := by
  have hstate : s.parser.isExpectingBody = false := by rw [h.parser]; rfl
  simp only [onMessage, hstate, hp]
  exact ⟨rfl, ⟨by rw [h.parser]; rfl, h.body⟩, rfl⟩

def afterHead (s : HttpServer) (r : Request) (buf : Bytes) : HttpServer :=
  { s with
    parser := { s.parser with is_req_ := true }.requestParsed r.parsed r.head.length
    inputBuffer_ := buf }

theorem Idle.head (h : Idle s) (hbuf : s.inputBuffer_ = r.head ++ more) :
    s.onMessage = if (s.afterHead r more).parser.isExpectingBody then (s.afterHead r more).collectBody
      else (s.afterHead r more).dispatch := by
  have hstate : s.parser.isExpectingBody = false := by rw [h.parser]; rfl
  simp only [onMessage, hstate, hbuf, parseRequest_accepts r.accepted r.head_int]
  have hlen : ({ s.parser with is_req_ := true }.requestParsed r.parsed r.head.length).headerLen =
      r.head.length := by
    simp only [requestParsed, HttpParser.headerLen]
    split <;> rfl
  simp only [hlen, List.drop_left]
  rfl

theorem Idle.afterHead_collecting (h : Idle s) (more : Bytes) (hb : r.body ≠ []) :
    Collecting (s.afterHead r more) r r.body := by
  have hpos := List.length_pos_iff.mpr hb
  simp only [afterHead, requestParsed, framed_request r.framed, decide_eq_true hpos, if_true]
  exact ⟨rfl, rfl, by rw [h.parser, h.body]; rfl, rfl, rfl, by rw [h.body]; rfl⟩

theorem Idle.read (h : Idle s) (hs : stream reqs = s.inputBuffer_ ++ future) :
    ReadSpec reqs s s.onMessage s.inputBuffer_ future := by
  cases reqs with
  | nil =>
    obtain ⟨hnil, -⟩ := List.append_eq_nil_iff.mp hs.symm
    have hp : s.parser.parseRequest s.inputBuffer_ =
        (false, { s.parser with is_req_ := true }, s.inputBuffer_) := by rw [hnil]; rfl
    obtain ⟨hserved, hidle, hbuf⟩ := h.wait hp
    exact .inr ⟨nofun, hserved, hbuf ▸ .idle hidle⟩
  | cons r reqs =>
    have hs' : r.head ++ (r.body ++ stream reqs) = s.inputBuffer_ ++ future := by
      rw [← hs]
      simp [stream, Request.bytes]
    rcases split_body hs' with ⟨more, hw, hmore⟩ | ⟨rest, hne, hrest⟩
    · rw [h.head hw]
      by_cases hb : r.body = []
      · have hstate : (s.afterHead r more).parser.isExpectingBody = false := by
          simp [afterHead, requestParsed, framed_request r.framed, hb, isExpectingBody]
        rw [if_neg (by simp [hstate]), hw]
        refine .inl ⟨r, reqs, more, rfl, by simp [Request.bytes, hb], ?_, .idle dispatch_idle, ?_⟩
        · refine (served_dispatch ?_ ?_ ?_).trans rfl
          · simp [afterHead, requestParsed, framed_request r.framed, hb]
          · simp [afterHead, requestParsed, framed_request r.framed, hb]
          · simp [afterHead, h.body, hb]
        · simpa [hb] using hmore
      · have hcoll := h.afterHead_collecting more hb
        rw [if_pos (by simp [isExpectingBody, hcoll.state])]
        have hspec := hcoll.collect hb hmore
        have hheld : r.head ++ (s.afterHead r more).body ++ (s.afterHead r more).inputBuffer_ =
            s.inputBuffer_ := by simp [afterHead, h.body, hw]
        exact hheld ▸ hspec
    · have hacc : Accepts parse_request (s.inputBuffer_ ++ rest) r.parsed := hrest ▸ r.accepted
      obtain ⟨hserved, hidle, hbuf⟩ := h.wait (parseRequest_incomplete hacc hne)
      refine .inr ⟨?_, hserved, hbuf ▸ .idle hidle⟩
      rintro _ _ ⟨⟩
      have hpos := List.length_pos_iff.mpr hne
      simp only [Request.bytes, hrest, List.length_append]
      omega

theorem handleRead_spec (h : At reqs s held) (hs : stream reqs = held ++ data ++ future) :
    ReadSpec reqs s (s.handleRead data) (held ++ data) future := by
  cases h with
  | idle h =>
    have h' : Idle { s with inputBuffer_ := s.inputBuffer_ ++ data } := ⟨h.parser, h.body⟩
    exact h'.read hs
  | collecting h hne =>
    rename_i r rest reqs
    have h' : Collecting { s with inputBuffer_ := s.inputBuffer_ ++ data } r rest :=
      ⟨h.state, h.length, h.read, h.method, h.path, h.body⟩
    have hrest : rest ++ stream reqs = s.inputBuffer_ ++ data ++ future := by
      have hr : stream (r :: reqs) = r.head ++ s.body ++ (rest ++ stream reqs) := by
        simp [stream, Request.bytes, ← h.body]
      rw [hr] at hs
      exact List.append_cancel_left (hs.trans (by simp))
    have hspec := h'.collect hne hrest
    rw [handleRead, onMessage, if_pos (by simp [isExpectingBody, h.state])]
    rwa [List.append_assoc]

-- ---------------------------------------------------------------------------
-- Every read
-- ---------------------------------------------------------------------------

/-- `Paced` from a point at which `got` bytes of the requests have been read. -/
def PacedFrom (reqs : List Request) (got : Nat) (reads : List Bytes) : Prop :=
  reqs.length ≤ reads.length ∧
    ∀ k ≤ reads.length, incomplete reqs (got + (reads.take k).flatten.length) ≤ reads.length - k

theorem incomplete_le (reqs : List Request) (n : Nat) : incomplete reqs n ≤ reqs.length := by
  induction reqs generalizing n with
  | nil => exact Nat.le_refl _
  | cons r reqs ih =>
    simp only [incomplete, List.length_cons]
    split
    · exact Nat.le_refl _
    · exact Nat.le_succ_of_le (ih _)

theorem incomplete_eq_length (h : ∀ r reqs', reqs = r :: reqs' → n < r.bytes.length) :
    incomplete reqs n = reqs.length := by
  cases reqs with
  | nil => rfl
  | cons r reqs => exact if_pos (h r reqs rfl)

theorem incomplete_add (r : Request) (reqs : List Request) (n : Nat) :
    incomplete (r :: reqs) (r.bytes.length + n) = incomplete reqs n := by
  rw [incomplete, if_neg (by omega), Nat.add_sub_cancel_left]

theorem forall_le_succ {P : Nat → Prop} : (∀ k ≤ n + 1, P k) ↔ P 0 ∧ ∀ k ≤ n, P (k + 1) := by
  constructor
  · exact fun h => ⟨h 0 (by omega), fun k hk => h (k + 1) (by omega)⟩
  · rintro ⟨h0, h⟩ (_ | k) hk
    · exact h0
    · exact h k (by omega)

theorem PacedFrom_cons : PacedFrom reqs got (data :: reads) ↔
    reqs.length ≤ reads.length + 1 ∧
      ∀ k ≤ reads.length,
        incomplete reqs (got + data.length + (reads.take k).flatten.length) ≤ reads.length - k := by
  simp only [PacedFrom, List.length_cons, forall_le_succ, List.take_zero, List.take_succ_cons,
    List.flatten_cons, List.length_append, Nat.add_assoc, Nat.add_sub_add_right]
  have := incomplete_le reqs (got + ([] : List Bytes).flatten.length)
  constructor
  · exact fun h => ⟨h.1, h.2.2⟩
  · exact fun h => ⟨h.1, by omega, h.2⟩

theorem PacedFrom_serve (h : got + data.length = r.bytes.length + left) :
    PacedFrom (r :: reqs) got (data :: reads) ↔ PacedFrom reqs left reads := by
  simp only [PacedFrom_cons, h, Nat.add_assoc, incomplete_add, List.length_cons,
    Nat.add_le_add_iff_right]
  rfl

theorem PacedFrom_wait (h : ∀ r reqs', reqs = r :: reqs' → got + data.length < r.bytes.length) :
    PacedFrom reqs got (data :: reads) ↔ PacedFrom reqs (got + data.length) reads := by
  simp only [PacedFrom_cons]
  refine and_congr_left fun hk => ?_
  have h0 := hk 0 (Nat.zero_le _)
  simp only [List.take_zero, List.flatten_nil, List.length_nil, Nat.add_zero,
    incomplete_eq_length h] at h0
  omega

theorem served_from (h : At reqs s held) (hs : stream reqs = held ++ reads.flatten) :
    (reads.foldl handleRead s).served = s.served ++ reqs.map Request.call ↔
      PacedFrom reqs held.length reads := by
  induction reads generalizing reqs s held with
  | nil =>
    simp only [List.foldl_nil, PacedFrom, List.length_nil, Nat.le_zero]
    constructor
    · intro hcalls
      have hnil : reqs = [] := by simpa using hcalls
      subst hnil
      exact ⟨rfl, fun k _ => Nat.le_of_eq (by simp [incomplete])⟩
    · rintro ⟨hnil, -⟩
      simp [List.length_eq_zero_iff.mp hnil]
  | cons data reads ih =>
    rw [List.flatten_cons, ← List.append_assoc] at hs
    rw [List.foldl_cons]
    rcases handleRead_spec h hs with ⟨r, reqs', left, rfl, hheld, hserved, hat, hs'⟩ |
      ⟨hnot, hserved, hat⟩
    · rw [PacedFrom_serve (by rw [← List.length_append, hheld, List.length_append]), ← ih hat hs',
        hserved]
      simp
    · simp only [List.length_append] at hnot
      rw [PacedFrom_wait hnot, ← List.length_append, ← ih hat hs, hserved]

theorem paced_iff : Paced reqs reads ↔ PacedFrom reqs 0 reads := by
  simp only [Paced, PacedFrom, Nat.zero_add]
  refine ⟨fun h => ⟨?_, h⟩, And.right⟩
  have h0 := h 0 (Nat.zero_le _)
  have hlen : incomplete reqs 0 = reqs.length := incomplete_eq_length fun r _ _ => by
    have := List.length_pos_iff.mpr (request_ne_nil r.accepted)
    rw [Request.bytes, List.length_append]
    omega
  simpa [hlen] using h0

/-- The requests of a stream are served, each once and in order, if and only if the reads
keep pace with them. -/
theorem served_iff (h : reads.flatten = stream reqs) : Served reqs reads ↔ Paced reqs reads := by
  have hat : At reqs ({} : HttpServer) [] := .idle ⟨rfl, rfl⟩
  have hrun := served_from hat (h.symm : stream reqs = [] ++ reads.flatten)
  exact hrun.trans paced_iff.symm

/-- `GET /` with no body, and `POST /a` with the body `hi`. -/
def getRequest : Request where
  head := ascii "GET / HTTP/1.1\r\n\r\n"
  body := []
  parsed := ⟨⟨0, ascii "GET"⟩, ⟨4, ascii "/"⟩, 1, []⟩
  accepted := by decide +kernel
  head_int := by decide +kernel
  framed := by decide +kernel

def postRequest : Request where
  head := ascii "POST /a HTTP/1.1\r\nContent-Length: 2\r\n\r\n"
  body := ascii "hi"
  parsed := ⟨⟨0, ascii "POST"⟩, ⟨5, ascii "/a"⟩, 1,
    [⟨some ⟨18, ascii "Content-Length"⟩, ⟨34, ascii "2"⟩⟩]⟩
  accepted := by decide +kernel
  head_int := by decide +kernel
  framed := by decide +kernel

/-- The second head ends in the second read, the body in the third. -/
theorem served_iff_split :
    Served [getRequest, postRequest]
      [getRequest.head, postRequest.head ++ ascii "h", ascii "i"] :=
  (served_iff (by decide +kernel)).mpr (by decide +kernel)

/-- Two requests in one read: the second is not served. -/
theorem not_served_pipelined :
    [getRequest.bytes ++ postRequest.bytes].flatten = stream [getRequest, postRequest] ∧
      ¬ Served [getRequest, postRequest] [getRequest.bytes ++ postRequest.bytes] := by
  decide +kernel

end HttpServer

end VortexNet
