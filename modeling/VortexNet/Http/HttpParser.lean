import Mathlib.Data.List.TakeWhile
import VortexNet.Http.Picohttpparser

/-!
# The parser of requests and responses

`HttpParser.cc`. Of the buffer the parser sees its readable bytes. A
`string_view` of `header_` is kept as its offset from `peek()` at the time of
the parse and its length. `got_all_`, which nothing reads, is left out.
-/

namespace VortexNet

open Incremental Picohttpparser

-- ---------------------------------------------------------------------------
-- The standard library
-- ---------------------------------------------------------------------------

structure StringView where
  pos : Nat
  len : Nat
  deriving DecidableEq

def StringView.read (v : StringView) (data : Bytes) : Bytes := (data.drop v.pos).take v.len

/-- `std::string_view(name, name_len)`, where `name` may be `NULL`. -/
def string_view : Option (Slice UInt8) → StringView
  | some s => ⟨s.pos, s.text.length⟩
  | none => ⟨0, 0⟩

def toLower (c : UInt8) : UInt8 := if 65 ≤ c ∧ c ≤ 90 then c + 32 else c

/-- `a.size() == n && strncasecmp(a.data(), b, n) == 0` for a literal `b` of `n` characters;
neither has a NUL. -/
def equalsIgnoreCase (a b : Bytes) : Bool := a.map toLower = b.map toLower

def decimal (digits : Bytes) : Nat := digits.foldl (fun n c => n * 10 + (c.toNat - 48)) 0

/-- `std::from_chars` for a `size_t`: the digits that the text starts with, when there are
any and their number fits; otherwise `value` keeps what it was. -/
def from_chars (text : Bytes) (value : Nat) : Nat :=
  let digits := text.takeWhile isDigit
  if digits ≠ [] ∧ decimal digits < 2 ^ 64 then decimal digits else value

-- ---------------------------------------------------------------------------
-- The state of a parser
-- ---------------------------------------------------------------------------

structure HttpRequest where
  method : Bytes := []
  path : Bytes := []
  headers : List (StringView × StringView) := []
  deriving DecidableEq

namespace HttpParser

inductive State
  | kExpectHeaders
  | kExpectBody
  | kGotAll
  deriving DecidableEq

end HttpParser

structure HttpParser where
  header_ : HttpRequest := {}
  header_len_ : Nat := 0
  resp_status_ : Nat := 0
  resp_is_chunked_ : Bool := false
  content_length_ : Nat := 0
  body_bytes_read_ : Nat := 0
  state_ : HttpParser.State := .kExpectHeaders
  is_req_ : Bool := true
  deriving DecidableEq

namespace HttpParser

def gotAll (p : HttpParser) : Bool := p.state_ = .kGotAll
def isExpectingBody (p : HttpParser) : Bool := p.state_ = .kExpectBody
def isRequest (p : HttpParser) : Bool := p.is_req_
def request (p : HttpParser) : HttpRequest := p.header_
def headerLen (p : HttpParser) : Nat := p.header_len_
def bytesRemaining (p : HttpParser) : Nat := szSub p.content_length_ p.body_bytes_read_
def isResponseChunked (p : HttpParser) : Bool := p.resp_is_chunked_
def contentLength (p : HttpParser) : Nat := p.content_length_

/-- Everything but which of the two was parsed last. -/
def reset (p : HttpParser) : HttpParser := { is_req_ := p.is_req_ }

def consumeBody (p : HttpParser) (buf : Bytes) (n : Nat) : HttpParser × Bytes :=
  let read := szAdd p.body_bytes_read_ n
  ({ p with
      body_bytes_read_ := read
      state_ := if p.content_length_ ≤ read then .kGotAll else p.state_ },
    buf.drop n)

-- ---------------------------------------------------------------------------
-- Heads
-- ---------------------------------------------------------------------------

def key (h : phr_header) : Bytes := match h.name with
  | some name => name.text
  | none => []

def isContentLength (h : phr_header) : Bool := equalsIgnoreCase (key h) (ascii "content-length")

def isChunked (h : phr_header) : Bool :=
  equalsIgnoreCase (key h) (ascii "transfer-encoding") &&
    equalsIgnoreCase h.value.text (ascii "chunked")

structure Framing where
  content_length : Nat := 0
  has_body : Bool := false
  is_chunked : Bool := false
  deriving DecidableEq

def requestField (f : Framing) (h : phr_header) : Framing :=
  if isContentLength h then
    let content_length := from_chars h.value.text f.content_length
    { f with content_length, has_body := 0 < content_length }
  else f

def responseField (f : Framing) (h : phr_header) : Framing :=
  let f := if isContentLength h then
    let content_length := from_chars h.value.text f.content_length
    { f with content_length, has_body := f.has_body || 0 < content_length }
  else f
  if isChunked h then { f with is_chunked := true, has_body := true } else f

/-- The branch of `parseRequest` for a head of `len` bytes. -/
def requestParsed (p : HttpParser) (head : RequestHead) (len : Nat) : HttpParser :=
  let p := { p with
    header_len_ := len
    header_ := {
      method := head.method.text
      path := head.path.text
      headers := head.headers.map fun (h : phr_header) =>
        (string_view h.name, string_view (some h.value)) } }
  let f := head.headers.foldl requestField {}
  if f.has_body then { p with content_length_ := f.content_length, state_ := .kExpectBody }
  else { p with state_ := .kGotAll }

/-- The branch of `parseResponse` for a head of `len` bytes. -/
def responseParsed (p : HttpParser) (head : ResponseHead) (len : Nat) : HttpParser :=
  let f := head.headers.foldl responseField {}
  { p with
    header_len_ := len
    resp_status_ := head.status
    content_length_ := f.content_length
    resp_is_chunked_ := f.is_chunked
    state_ := if f.has_body then .kExpectBody else .kGotAll }

/-- Whether there is a head, the parser and the buffer. -/
def parseRequest (p : HttpParser) (buf : Bytes) : Bool × HttpParser × Bytes :=
  let p := { p with is_req_ := true }
  let result := phr_parse_request buf
  match result with
  | .done head _ =>
    if 0 < ret result then (true, p.requestParsed head (ret result).toNat, buf)
    else if ret result = -2 then (false, p, buf)
    else (false, p, [])
  | .incomplete => (false, p, buf)
  | .bad => (false, p, [])

/-- Whether there is a head, and the parser. The buffer is left as it is, also on an error. -/
def parseResponse (p : HttpParser) (buf : Bytes) : Bool × HttpParser :=
  let p := { p with is_req_ := false }
  let result := phr_parse_response buf
  match result with
  | .done head _ =>
    if 0 < ret result then (true, p.responseParsed head (ret result).toNat) else (false, p)
  | .incomplete => (false, p)
  | .bad => (false, p)

-- ---------------------------------------------------------------------------
-- Whole heads and beginnings of heads
-- ---------------------------------------------------------------------------

variable {p : HttpParser}

theorem parseRequest_accepts (h : Accepts parse_request l head) (hlen : l.length < 2 ^ 31) :
    p.parseRequest (l ++ more) =
      (true, { p with is_req_ := true }.requestParsed head l.length, l ++ more) := by
  have hr : phr_parse_request (l ++ more) = .done head ⟨l.length, more⟩ :=
    h.append parse_request_stable more
  have hpos := List.length_pos_iff.mpr (request_ne_nil h)
  simp only [parseRequest, hr, ret, toInt_eq hlen]
  simp [hpos]

theorem parseRequest_incomplete (h : Accepts parse_request (l ++ more) head) (hne : more ≠ []) :
    p.parseRequest l = (false, { p with is_req_ := true }, l) := by
  have hr : phr_parse_request l = .incomplete := h.incomplete parse_request_stable hne
  simp only [parseRequest, hr]

theorem parseResponse_accepts (h : Accepts parse_response l head) :
    p.parseResponse (l ++ more) = if 0 < toInt l.length
      then (true, { p with is_req_ := false }.responseParsed head (toInt l.length).toNat)
      else (false, { p with is_req_ := false }) := by
  have hr : phr_parse_response (l ++ more) = .done head ⟨l.length, more⟩ :=
    h.append parse_response_stable more
  simp only [parseResponse, hr, ret]

theorem parseResponse_incomplete (h : Accepts parse_response (l ++ more) head) (hne : more ≠ []) :
    p.parseResponse l = (false, { p with is_req_ := false }) := by
  have hr : phr_parse_response l = .incomplete := h.incomplete parse_response_stable hne
  simp only [parseResponse, hr]

theorem headerLen_requestParsed (p : HttpParser) (head : RequestHead) (len : Nat) :
    (p.requestParsed head len).headerLen = len := by
  simp only [requestParsed, headerLen]
  split <;> rfl

/-- A parsed request leaves the buffer as it is; `headerLen` is what the head takes of it. -/
theorem parseRequest_parsed (h : p.parseRequest buf = (true, p', buf')) :
    0 < ret (phr_parse_request buf) ∧ buf' = buf ∧
      p'.header_len_ = (ret (phr_parse_request buf)).toNat := by
  simp only [parseRequest] at h
  split at h
  · split at h
    · rename_i hpos
      cases h
      refine ⟨hpos, rfl, ?_⟩
      simp only [requestParsed]
      split <;> rfl
    · split at h <;> cases h
  · cases h
  · cases h

theorem parseRequest_unparsed (h : p.parseRequest buf = (false, p', buf')) :
    ¬ 0 < ret (phr_parse_request buf) ∧ p' = { p with is_req_ := true } := by
  simp only [parseRequest] at h
  split at h
  · split at h
    · cases h
    · rename_i hpos
      split at h <;> cases h <;> exact ⟨hpos, rfl⟩
  · rename_i heq
    cases h
    exact ⟨by simp [heq, ret], rfl⟩
  · rename_i heq
    cases h
    exact ⟨by simp [heq, ret], rfl⟩

theorem parseResponse_unparsed (h : p.parseResponse buf = (false, p')) :
    p' = { p with is_req_ := false } := by
  simp only [parseResponse] at h
  split at h
  · split at h <;> cases h
    rfl
  · cases h
    rfl
  · cases h
    rfl

theorem parseResponse_parsed (h : p.parseResponse buf = (true, p')) :
    0 < ret (phr_parse_response buf) := by
  simp only [parseResponse] at h
  split at h
  · split at h
    · assumption
    · cases h
  · cases h
  · cases h

theorem requestParsed_of_parseRequest (h : p.parseRequest buf = (true, p', buf')) :
    ∃ head n, p' = { p with is_req_ := true }.requestParsed head n := by
  simp only [parseRequest] at h
  split at h
  · split at h
    · cases h
      exact ⟨_, _, rfl⟩
    · split at h <;> cases h
  · cases h
  · cases h

theorem responseParsed_of_parseResponse (h : p.parseResponse buf = (true, p')) :
    ∃ head n, p' = { p with is_req_ := false }.responseParsed head n := by
  simp only [parseResponse] at h
  split at h
  · split at h <;> cases h
    exact ⟨_, _, rfl⟩
  · cases h
  · cases h

/-- A head that has parsed parses the same with more behind it. -/
theorem ret_stable {q : Parser UInt8 α} (hq : Stable q) (h : 0 < ret (q ⟨0, buf⟩)) (more : Bytes) :
    ret (q ⟨0, buf ++ more⟩) = ret (q ⟨0, buf⟩) := by
  cases hr : q ⟨0, buf⟩ with
  | done head c =>
    have := hq.done_append _ _ _ more hr
    simp only [Cursor.append] at this
    rw [this]
    rfl
  | incomplete => simp [hr, ret] at h
  | bad => simp [hr, ret] at h

theorem ret_append (h : 0 < ret (phr_parse_request buf)) (more : Bytes) :
    ret (phr_parse_request (buf ++ more)) = ret (phr_parse_request buf) :=
  ret_stable parse_request_stable h more

theorem ret_response_append (h : 0 < ret (phr_parse_response buf)) (more : Bytes) :
    ret (phr_parse_response (buf ++ more)) = ret (phr_parse_response buf) :=
  ret_stable parse_response_stable h more

-- ---------------------------------------------------------------------------
-- Framing by Content-Length
-- ---------------------------------------------------------------------------

/-- One valid Content-Length field of value `n`, or none and `n` is 0. -/
def Framed (headers : List phr_header) (n : Nat) : Prop :=
  match headers.filter isContentLength with
  | [] => n = 0
  | [h] => h.value.text ≠ [] ∧ h.value.text.all isDigit ∧ decimal h.value.text = n ∧ n < 2 ^ 64
  | _ => False

instance (headers : List phr_header) (n : Nat) : Decidable (Framed headers n) := by
  unfold Framed
  split <;> infer_instance

theorem from_chars_lt (text : Bytes) (hn : n < 2 ^ 64) : from_chars text n < 2 ^ 64 := by
  simp only [from_chars]
  split
  · rename_i h
    exact h.2
  · exact hn

theorem from_chars_digits (hne : text ≠ []) (hd : text.all isDigit) (hn : decimal text < 2 ^ 64) :
    from_chars text n = decimal text := by
  have htake : text.takeWhile isDigit = text :=
    List.takeWhile_eq_self_iff.mpr (List.all_eq_true.mp hd)
  simp only [from_chars, htake]
  exact if_pos ⟨hne, hn⟩

theorem foldl_requestField (headers : List phr_header) (f : Framing) :
    headers.foldl requestField f = (headers.filter isContentLength).foldl requestField f := by
  induction headers generalizing f with
  | nil => rfl
  | cons h headers ih =>
    cases hc : isContentLength h with
    | true => simp [hc, ih]
    | false => simp [hc, ih, requestField]

theorem framed_lt (h : Framed headers n) : n < 2 ^ 64 := by
  unfold Framed at h
  split at h
  · omega
  · exact h.2.2.2
  · exact h.elim

theorem framed_request (h : Framed headers n) :
    headers.foldl requestField {} = { content_length := n, has_body := 0 < n } := by
  rw [foldl_requestField]
  unfold Framed at h
  split at h
  · rename_i hf
    rw [hf, h]
    rfl
  · rename_i hf
    obtain ⟨hne, hd, rfl, hn⟩ := h
    have hmem : _ ∈ headers.filter isContentLength := hf ▸ List.mem_singleton_self _
    rw [hf, List.foldl_cons, List.foldl_nil, requestField, if_pos (List.mem_filter.mp hmem).2,
      from_chars_digits hne hd hn]
  · exact h.elim

-- ---------------------------------------------------------------------------
-- Chunked framing
-- ---------------------------------------------------------------------------

theorem foldl_responseField_chunked (headers : List phr_header) (f : Framing)
    (h : f.is_chunked = true ∧ f.has_body = true ∨ headers.any isChunked = true) :
    (headers.foldl responseField f).is_chunked = true ∧
      (headers.foldl responseField f).has_body = true := by
  induction headers generalizing f with
  | nil => simpa using h
  | cons x headers ih =>
    refine ih _ ?_
    simp only [List.any_cons, Bool.or_eq_true] at h
    rcases h with ⟨hc, hb⟩ | hx | hany
    · refine .inl ?_
      simp only [responseField]
      split <;> split <;> simp [hc, hb]
    · refine .inl ?_
      simp [responseField, hx]
    · exact .inr hany

theorem responseParsed_chunked (h : head.headers.any isChunked = true) :
    (p.responseParsed head n).isExpectingBody = true ∧
      (p.responseParsed head n).isResponseChunked = true ∧
        (p.responseParsed head n).headerLen = n := by
  obtain ⟨hc, hb⟩ := foldl_responseField_chunked head.headers {} (.inr h)
  simp [responseParsed, isExpectingBody, isResponseChunked, headerLen, hc, hb]

end HttpParser

end VortexNet
