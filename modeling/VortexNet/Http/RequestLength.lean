import VortexNet.Http.HttpParser

/-!
# Where a request ends

`parseRequest` takes every head that picohttpparser takes: a Content-Length that
`from_chars` cannot read leaves the value that was there, one that it reads in
part counts, the last one decides, and a Transfer-Encoding is not looked at. So
the length means what the head says on the heads that leave no doubt, and on no
others.
-/

namespace VortexNet.HttpParser

open Incremental Picohttpparser

def isTransferEncoding (h : phr_header) : Bool :=
  equalsIgnoreCase (key h) (ascii "transfer-encoding")

/-- picohttpparser reads a head at the front of the buffer. -/
def Accepted (buf : Bytes) (head : RequestHead) : Prop :=
  ∃ c, phr_parse_request buf = .done head c ∧ 0 < ret (phr_parse_request buf)

structure Says (headers : List phr_header) (n : Nat) : Prop where
  plain : ∀ h ∈ headers, isTransferEncoding h = false
  digits : ∀ h ∈ headers, isContentLength h = true →
    h.value.text ≠ [] ∧ h.value.text.all isDigit = true ∧ decimal h.value.text = n
  lt : n < 2 ^ 64
  zero : (∀ h ∈ headers, isContentLength h = false) → n = 0

structure Frames (p : HttpParser) (n : Nat) : Prop where
  expecting : p.isExpectingBody = true ↔ 0 < n
  remaining : p.bytesRemaining = n

/-- A head that is taken says where its request ends, and that is where it ends. -/
def EndsAsSaid (p : HttpParser) (buf : Bytes) (head : RequestHead) : Prop :=
  (p.parseRequest buf).1 = true →
    ∃ n, Says head.headers n ∧ Frames (p.parseRequest buf).2.1 n

def takesAll (text : Bytes) : Bool :=
  text ≠ [] ∧ text.takeWhile isDigit = text ∧ decimal text < 2 ^ 64

/-- No field that is passed over, none that is read in part or not at all, and no two that differ. -/
structure Undoubted (headers : List phr_header) : Prop where
  plain : ∀ h ∈ headers, isTransferEncoding h = false
  whole : ∀ h ∈ headers, isContentLength h = true → takesAll h.value.text = true
  same : ∀ h ∈ headers, ∀ h' ∈ headers, isContentLength h = true → isContentLength h' = true →
    from_chars h.value.text 0 = from_chars h'.value.text 0

variable {headers : List phr_header} {head : RequestHead} {p : HttpParser} {buf text : Bytes} {n : Nat}

-- ---------------------------------------------------------------------------
-- One value
-- ---------------------------------------------------------------------------

theorem takesAll_iff : takesAll text = true ↔
    text ≠ [] ∧ text.all isDigit = true ∧ decimal text < 2 ^ 64 := by
  rw [takesAll, decide_eq_true_eq, List.takeWhile_eq_self_iff, List.all_eq_true]

theorem from_chars_takesAll (h : takesAll text = true) (n : Nat) : from_chars text n = decimal text := by
  obtain ⟨hne, hd, hlt⟩ := takesAll_iff.mp h
  exact from_chars_digits hne hd hlt

theorem Undoubted.says (h : Undoubted headers) : ∃ n, Says headers n := by
  cases hf : headers.filter isContentLength with
  | nil =>
    have hnone : ∀ h ∈ headers, isContentLength h = false := by
      intro h hh
      simpa using (List.filter_eq_nil_iff.mp hf) h hh
    refine ⟨0, h.plain, fun x hx hc => ?_, by decide, fun _ => rfl⟩
    exact absurd hc (by simp [hnone x hx])
  | cons x l =>
    have hx : x ∈ headers.filter isContentLength := hf ▸ List.mem_cons_self
    obtain ⟨hmem, hc⟩ := List.mem_filter.mp hx
    have htakes := h.whole x hmem hc
    refine ⟨decimal x.value.text, h.plain, fun y hy hcy => ?_, (takesAll_iff.mp htakes).2.2,
      fun hnone => absurd hc (by simp [hnone x hmem])⟩
    have hy' := h.whole y hy hcy
    refine ⟨(takesAll_iff.mp hy').1, (takesAll_iff.mp hy').2.1, ?_⟩
    rw [← from_chars_takesAll hy' 0, h.same y hy x hmem hcy hc, from_chars_takesAll htakes]

theorem Says.undoubted (h : Says headers n) : Undoubted headers := by
  have hwhole : ∀ x ∈ headers, isContentLength x = true → takesAll x.value.text = true := by
    intro x hx hc
    obtain ⟨hne, hd, hn⟩ := h.digits x hx hc
    exact takesAll_iff.mpr ⟨hne, hd, hn ▸ h.lt⟩
  refine ⟨h.plain, hwhole, fun x hx y hy hcx hcy => ?_⟩
  rw [from_chars_takesAll (hwhole x hx hcx), from_chars_takesAll (hwhole y hy hcy),
    (h.digits x hx hcx).2.2, (h.digits y hy hcy).2.2]

-- ---------------------------------------------------------------------------
-- The loop over the headers
-- ---------------------------------------------------------------------------

/-- Fields that all say `n` leave `n`, whatever was there. -/
theorem foldl_requestField_same (fields : List phr_header) (f : Framing) (hne : fields ≠ [])
    (hn : n < 2 ^ 64) (hall : ∀ h ∈ fields, isContentLength h = true ∧ h.value.text ≠ [] ∧
      h.value.text.all isDigit = true ∧ decimal h.value.text = n) :
    fields.foldl requestField f = { f with content_length := n, has_body := 0 < n } := by
  induction fields generalizing f with
  | nil => exact absurd rfl hne
  | cons x fields ih =>
    obtain ⟨hc, hx, hd, hxn⟩ := hall x List.mem_cons_self
    have hstep : requestField f x = { f with content_length := n, has_body := 0 < n } := by
      rw [requestField, if_pos hc, from_chars_digits hx hd (hxn.symm ▸ hn), hxn]
    rw [List.foldl_cons, hstep]
    rcases List.eq_nil_or_concat fields with rfl | ⟨_, _, hcat⟩
    · rfl
    · have hrest : fields ≠ [] := by
        rw [hcat]
        simp
      rw [ih _ hrest fun y hy => hall y (List.mem_cons_of_mem x hy)]

theorem Says.framing (h : Says headers n) :
    headers.foldl requestField {} = { content_length := n, has_body := 0 < n } := by
  rw [foldl_requestField]
  by_cases hne : headers.filter isContentLength = []
  · have hn : n = 0 := h.zero fun x hx => by simpa using (List.filter_eq_nil_iff.mp hne) x hx
    rw [hne, hn]
    rfl
  · refine foldl_requestField_same _ {} hne h.lt fun x hx => ?_
    obtain ⟨hmem, hc⟩ := List.mem_filter.mp hx
    exact ⟨hc, h.digits x hmem hc⟩

theorem requestParsed_frames (p : HttpParser) (h : Says head.headers n) (len : Nat) :
    Frames (requestParsed { p.reset with is_req_ := true } head len) n := by
  have hf := h.framing
  simp only [requestParsed, hf]
  by_cases hn : 0 < n
  · simp only [hn, decide_true, if_true]
    refine ⟨?_, ?_⟩
    · simp [isExpectingBody, hn]
    · exact Buffer.szSub_eq (Nat.zero_le n) h.lt
  · obtain rfl : n = 0 := Nat.eq_zero_of_not_pos hn
    simp only [Nat.lt_irrefl, decide_false, Bool.false_eq_true, if_false]
    refine ⟨?_, ?_⟩
    · simp [isExpectingBody]
    · simp [bytesRemaining, reset, szSub]

theorem parseRequest_accepted (p : HttpParser) (h : Accepted buf head) :
    p.parseRequest buf = (true, { p with is_req_ := true }.requestParsed head
      (ret (phr_parse_request buf)).toNat, buf) := by
  obtain ⟨c, hdone, hpos⟩ := h
  simp only [parseRequest]
  rw [hdone] at hpos ⊢
  simp only [hpos, if_true]

-- ---------------------------------------------------------------------------
-- The length of a request
-- ---------------------------------------------------------------------------

/-- For a parser that has been reset and any head that picohttpparser reads. -/
theorem request_ends_as_said (p : HttpParser) (h : Accepted buf head) :
    EndsAsSaid p.reset buf head ↔ Undoubted head.headers := by
  rw [EndsAsSaid, parseRequest_accepted p.reset h]
  constructor
  · intro hends
    obtain ⟨n, hsaid, -⟩ := hends rfl
    exact hsaid.undoubted
  · intro hundoubted _
    obtain ⟨n, hsaid⟩ := hundoubted.says
    exact ⟨n, hsaid, requestParsed_frames p hsaid _⟩

/-- A request with the Content-Length values `first` and `second`. -/
def twoLengths (first second : String) : Bytes :=
  ascii "POST /a HTTP/1.1\r\nContent-Length: " ++ ascii first ++
    ascii "\r\ncontent-length: " ++ ascii second ++ ascii "\r\n\r\n"

/-- Two lengths that agree. -/
theorem request_ends_as_said_same : ∃ head, Accepted (twoLengths "17" "017") head ∧
    EndsAsSaid ({} : HttpParser).reset (twoLengths "17" "017") head := by
  let fields : List phr_header := [⟨some ⟨18, ascii "Content-Length"⟩, ⟨34, ascii "17"⟩⟩,
    ⟨some ⟨38, ascii "content-length"⟩, ⟨54, ascii "017"⟩⟩]
  let head : RequestHead := ⟨⟨0, ascii "POST"⟩, ⟨5, ascii "/a"⟩, 1, fields⟩
  have haccepted : Accepted (twoLengths "17" "017") head := ⟨⟨61, []⟩, by decide +kernel⟩
  have hfields : ∀ h ∈ fields, isTransferEncoding h = false ∧ takesAll h.value.text = true ∧
      from_chars h.value.text 0 = 17 := by decide +kernel
  refine ⟨head, haccepted, (request_ends_as_said {} haccepted).mpr ⟨?_, ?_, ?_⟩⟩
  · exact fun h hh => (hfields h hh).1
  · exact fun h hh _ => (hfields h hh).2.1
  · exact fun h hh h' hh' _ _ => (hfields h hh).2.2.trans (hfields h' hh').2.2.symm

/-- A length that is read in part, after one that is overridden: a body of one byte is expected. -/
theorem not_request_ends_as_said : ∃ head, Accepted (twoLengths "17" "1x") head ∧
    (HttpParser.parseRequest {} (twoLengths "17" "1x")).2.1.bytesRemaining = 1 ∧
    ¬ EndsAsSaid ({} : HttpParser).reset (twoLengths "17" "1x") head := by
  let fields : List phr_header := [⟨some ⟨18, ascii "Content-Length"⟩, ⟨34, ascii "17"⟩⟩,
    ⟨some ⟨38, ascii "content-length"⟩, ⟨54, ascii "1x"⟩⟩]
  let head : RequestHead := ⟨⟨0, ascii "POST"⟩, ⟨5, ascii "/a"⟩, 1, fields⟩
  have haccepted : Accepted (twoLengths "17" "1x") head := ⟨⟨60, []⟩, by decide +kernel⟩
  refine ⟨head, haccepted, by decide +kernel, fun hends => ?_⟩
  have hparsed : (HttpParser.parseRequest ({} : HttpParser).reset (twoLengths "17" "1x")).1 = true := by
    rw [parseRequest_accepted _ haccepted]
  obtain ⟨n, hsaid, -⟩ := hends hparsed
  have hdigits := (hsaid.digits ⟨some ⟨38, ascii "content-length"⟩, ⟨54, ascii "1x"⟩⟩
    (List.mem_cons_of_mem _ List.mem_cons_self) (by decide)).2.1
  exact absurd hdigits (by decide)

end VortexNet.HttpParser
