import VortexNet.Http.ChunkedBody
import VortexNet.Http.HttpParser

/-!
# Responses

What a response to a request is: a head, and a body that is absent, chunked, or
of the length that the head gives. A response without any of these ends with its
connection; it is none of the responses here.
-/

namespace VortexNet

open Incremental Picohttpparser HttpParser

/-- Every Content-Length field has the value `n`, and there is one. -/
def ContentLength (headers : List phr_header) (n : Nat) : Prop :=
  headers.any isContentLength = true ∧ n < 2 ^ 64 ∧ ∀ h ∈ headers, isContentLength h = true →
    h.value.text ≠ [] ∧ h.value.text.all isDigit = true ∧ decimal h.value.text = n

instance (headers : List phr_header) (n : Nat) : Decidable (ContentLength headers n) := by
  unfold ContentLength
  infer_instance

def bodiless (method : Bytes) (head : ResponseHead) : Bool :=
  method = ascii "HEAD" || head.status = 204 || head.status = 304

inductive BodyOf (method : Bytes) (head : ResponseHead) : Bytes → Prop
  | none : bodiless method head = true → BodyOf method head []
  | chunked (b : ChunkedBody) : bodiless method head = false →
      head.headers.any isChunked = true → BodyOf method head b.bytes
  | length : bodiless method head = false → head.headers.any isChunked = false →
      ContentLength head.headers body.length → BodyOf method head body

/-- A final response to a request with this method. The length of its head fits an `int`. -/
structure Response (method : Bytes) where
  head : Bytes
  parsed : ResponseHead
  body : Bytes
  accepted : Accepts parse_response head parsed
  short : head.length < 2 ^ 31
  final : 200 ≤ parsed.status
  framed : BodyOf method parsed body

structure Interim where
  head : Bytes
  parsed : ResponseHead
  accepted : Accepts parse_response head parsed
  interim : 100 ≤ parsed.status ∧ parsed.status < 200

def Response.bytes (R : Response method) : Bytes := R.head ++ R.body

/-- `data` is a whole answer: interim responses, and the final one. -/
def Answered (method data : Bytes) : Prop :=
  ∃ (interim : List Interim) (R : Response method),
    data = interim.flatMap Interim.head ++ R.bytes

namespace HttpParser

def framing (head : ResponseHead) : Framing := head.headers.foldl responseField {}

theorem framing_chunked (head : ResponseHead) :
    (framing head).is_chunked = head.headers.any isChunked := by
  have h : ∀ (headers : List phr_header) (f : Framing),
      (headers.foldl responseField f).is_chunked = (f.is_chunked || headers.any isChunked) := by
    intro headers
    induction headers with
    | nil => simp
    | cons x headers ih =>
      intro f
      rw [List.foldl_cons, ih, List.any_cons]
      simp only [responseField]
      split <;> split <;> simp_all
  exact (h head.headers {}).trans (by simp)

theorem framing_lt (head : ResponseHead) : (framing head).content_length < 2 ^ 64 := by
  have h : ∀ (headers : List phr_header) (f : Framing), f.content_length < 2 ^ 64 →
      (headers.foldl responseField f).content_length < 2 ^ 64 := by
    intro headers
    induction headers with
    | nil => exact fun _ h => h
    | cons x headers ih =>
      intro f hf
      refine ih _ ?_
      have := from_chars_lt x.value.text hf
      simp only [responseField]
      split <;> split <;> simp_all
  exact h head.headers {} (by decide)

theorem foldl_responseField_length (headers : List phr_header) (f : Framing)
    (hc : headers.any isChunked = false)
    (hval : ∀ h ∈ headers, isContentLength h = true → ∀ m, from_chars h.value.text m = n) :
    headers.foldl responseField f = if headers.any isContentLength = true then
      { f with content_length := n, has_body := f.has_body || decide (0 < n) } else f := by
  induction headers generalizing f with
  | nil => rfl
  | cons x headers ih =>
    simp only [List.any_cons, Bool.or_eq_false_iff] at hc
    have hx := hval x List.mem_cons_self
    rw [List.foldl_cons, ih _ hc.2 fun h hm => hval h (List.mem_cons_of_mem _ hm)]
    cases hl : isContentLength x with
    | true =>
      have hfield : responseField f x =
          { f with content_length := n, has_body := f.has_body || decide (0 < n) } := by
        simp [responseField, hl, hc.1, hx hl]
      rw [hfield]
      split <;> simp [hl]
    | false =>
      have hfield : responseField f x = f := by simp [responseField, hl, hc.1]
      rw [hfield]
      simp [hl]

theorem framing_length (hc : head.headers.any isChunked = false)
    (hl : ContentLength head.headers n) :
    framing head = { content_length := n, has_body := decide (0 < n) } := by
  obtain ⟨hany, hn, hval⟩ := hl
  rw [framing, foldl_responseField_length (n := n) _ _ hc, if_pos hany]
  · rfl
  · intro h hm hlen m
    obtain ⟨hne, hd, hdec⟩ := hval h hm hlen
    rw [from_chars_digits hne hd (hdec ▸ hn), hdec]

end HttpParser

theorem BodyOf.fits (h : BodyOf method head body) (hc : (framing head).is_chunked = false)
    (hp : part <+: body) : part.length ≤ (framing head).content_length ∧
      ((framing head).content_length ≤ part.length → part = body) ∧
      ((framing head).has_body = false → part = body) := by
  rw [framing_chunked] at hc
  cases h with
  | none =>
    obtain rfl := List.prefix_nil.mp hp
    exact ⟨Nat.zero_le _, fun _ => rfl, fun _ => rfl⟩
  | chunked b _ hch => exact absurd (hch.symm.trans hc) nofun
  | length _ _ hl =>
    rw [framing_length hc hl]
    refine ⟨hp.length_le, fun h => hp.eq_of_length_le h, fun h => ?_⟩
    simp only [decide_eq_false_iff_not, Nat.not_lt, Nat.le_zero] at h
    exact hp.eq_of_length_le (h ▸ Nat.zero_le _)

namespace Response

variable {method got part : Bytes} (R : Response method)

theorem head_pos : 0 < R.head.length := List.length_pos_iff.mpr (response_ne_nil R.accepted)

theorem phr_incomplete (h : got <+: R.bytes) (hlt : got.length < R.head.length) :
    phr_parse_response got = .incomplete := by
  obtain ⟨more, hmore⟩ :=
    List.prefix_of_prefix_length_le h (List.prefix_append R.head R.body) hlt.le
  refine Accepts.incomplete parse_response_stable (hmore ▸ R.accepted) ?_
  rintro rfl
  rw [← hmore, List.append_nil] at hlt
  exact hlt.false

theorem bytes_split (h : got <+: R.bytes) (hle : R.head.length ≤ got.length) :
    ∃ part, got = R.head ++ part ∧ part <+: R.body := by
  obtain ⟨part, rfl⟩ := List.prefix_of_prefix_length_le (List.prefix_append R.head R.body) h hle
  exact ⟨part, rfl, (List.prefix_append_right_inj R.head).mp h⟩

theorem phr_done : phr_parse_response (R.head ++ part) = .done R.parsed ⟨R.head.length, part⟩ :=
  R.accepted.append parse_response_stable part

theorem ret_done : ret (phr_parse_response (R.head ++ part)) = R.head.length := by
  rw [R.phr_done, ret, toInt_eq R.short]

theorem parse_done {p : HttpParser} : p.parseResponse (R.head ++ part) =
    (true, { p with is_req_ := false }.responseParsed R.parsed R.head.length) := by
  have hpos := R.head_pos
  rw [parseResponse_accepts R.accepted, toInt_eq R.short, if_pos (by omega), Int.toNat_natCast]

end Response

end VortexNet
