import VortexNet.Http.HeadText

/-!
# What respond writes

`HttpServer::respond`, and how a client that reads heads with `HttpParser` takes
what it sends.
-/

namespace VortexNet

open Incremental Picohttpparser HttpParser

-- ---------------------------------------------------------------------------
-- Numbers as text
-- ---------------------------------------------------------------------------

def digits (n : Nat) : Bytes := (Nat.toDigits 10 n).map fun c => c.toNat.toUInt8

def to_string (n : Int) : Bytes := if n < 0 then 45 :: digits n.natAbs else digits n.natAbs

def digit (n : Nat) : UInt8 := (48 + n).toUInt8

theorem toNat_digit (h : n < 10) : (digit n).toNat = 48 + n := by
  simp only [digit, Nat.toUInt8_eq, UInt8.toNat_ofNat']
  omega

theorem isDigit_digit (h : n < 10) : isDigit (digit n) = true := by
  simp only [isDigit, decide_eq_true_eq, UInt8.le_iff_toNat_le, toNat_digit h]
  simp only [UInt8.reduceToNat]
  omega

theorem digits_of_lt (h : n < 10) : digits n = [digit n] := by
  rw [digits, Nat.toDigits_of_lt_base h, List.map_singleton, Nat.toNat_digitChar_of_lt_ten h, digit]

theorem digits_of_ge (h : 10 ≤ n) : digits n = digits (n / 10) ++ [digit (n % 10)] := by
  have hmod : n % 10 < 10 := Nat.mod_lt n (by decide)
  rw [digits, Nat.toDigits_of_base_le (by decide) h, List.map_append, List.map_singleton,
    Nat.toNat_digitChar_of_lt_ten hmod, digits, digit]

theorem digits_ne (n : Nat) : digits n ≠ [] :=
  mt List.map_eq_nil_iff.mp Nat.toDigits_ne_nil

theorem isDigit_of_mem_digits (h : c ∈ digits n) : isDigit c = true := by
  induction n using Nat.strongRecOn with
  | ind n ih =>
    by_cases hlt : n < 10
    · rw [digits_of_lt hlt] at h
      rw [List.mem_singleton.mp h]
      exact isDigit_digit hlt
    · rw [digits_of_ge (Nat.le_of_not_lt hlt)] at h
      rcases List.mem_append.mp h with h | h
      · exact ih (n / 10) (by omega) h
      · rw [List.mem_singleton.mp h]
        exact isDigit_digit (Nat.mod_lt n (by decide))

theorem decimal_digits (n : Nat) : decimal (digits n) = n := by
  induction n using Nat.strongRecOn with
  | ind n ih =>
    by_cases hlt : n < 10
    · rw [digits_of_lt hlt]
      simp [decimal, toNat_digit hlt]
    · have hmod : n % 10 < 10 := Nat.mod_lt n (by decide)
      have hhigh : decimal (digits (n / 10)) = n / 10 := ih (n / 10) (by omega)
      rw [digits_of_ge (Nat.le_of_not_lt hlt), decimal, List.foldl_append]
      simp only [List.foldl_cons, List.foldl_nil, toNat_digit hmod]
      rw [← decimal, hhigh]
      omega

theorem length_digits_le_iff (h : 0 < k) : (digits n).length ≤ k ↔ n < 10 ^ k := by
  rw [digits, List.length_map]
  exact Nat.length_toDigits_le_iff (by decide) h

theorem digits_three (h : 100 ≤ n) (h' : n ≤ 999) :
    digits n = [digit (n / 10 / 10), digit (n / 10 % 10), digit (n % 10)] := by
  rw [digits_of_ge (by omega), digits_of_ge (by omega : 10 ≤ n / 10), digits_of_lt (by omega)]
  rfl

-- ---------------------------------------------------------------------------
-- Responding
-- ---------------------------------------------------------------------------

namespace HttpServer

def reasonMap : List (Int × String) := [
  (200, "OK"), (201, "Created"),
  (204, "No Content"), (400, "Bad Request"),
  (401, "Unauthorized"), (404, "Not Found"),
  (405, "Method Not Allowed"),
  (500, "Internal Server Error"),
  (503, "Service Unavailable")]

def reason (status : Int) : String := (reasonMap.lookup status).getD "Unknown"

/-- What is sent to the connection. -/
def respond (status : Int) (body contentType : Bytes) : Bytes :=
  let resp := ascii "HTTP/1.1 " ++ to_string status ++ ascii " " ++ ascii (reason status) ++ ascii "\r\n"
  let resp := resp ++ (ascii "Content-Type: " ++ contentType ++ ascii "\r\n")
  let resp := resp ++ (ascii "Content-Length: " ++ to_string body.length ++ ascii "\r\n")
  let resp := resp ++ ascii "Connection: keep-alive\r\n"
  let resp := resp ++ ascii "Access-Control-Allow-Origin: *\r\n"
  let resp := resp ++ ascii "Access-Control-Allow-Methods: GET, POST, OPTIONS\r\n"
  let resp := resp ++ ascii "Access-Control-Allow-Headers: Content-Type\r\n\r\n"
  resp ++ body

-- ---------------------------------------------------------------------------
-- The head as a text
-- ---------------------------------------------------------------------------

/-- A name and a value as a field: the value without the blanks that it begins with. -/
def field (name : String) (value : Bytes) (hname : ascii name ≠ [])
    (htoken : ∀ c ∈ ascii name, token_char_map c = true) (hshown : ∀ c ∈ value, isShown c = true) :
    Field where
  name := ascii name
  blanks := SP :: value.takeWhile isBlank
  value := value.dropWhile isBlank
  eol := .crlf
  name_ne := hname
  token := htoken
  blank c hc := by
    rcases List.mem_cons.mp hc with rfl | hc
    · decide
    · exact List.mem_takeWhile_imp hc
  start c hc := by
    have := List.head?_dropWhile_not isBlank value
    rw [Option.mem_def.mp hc] at this
    simpa using this
  shown c hc := hshown c ((List.dropWhile_suffix isBlank).subset hc)

theorem field_text (name : String) (value : Bytes) (hname htoken hshown) :
    (Line.field (field name value hname htoken hshown)).text =
      ascii name ++ 58 :: SP :: (value ++ [CR, LF]) := by
  simp only [Line.text, field, Eol.text, List.cons_append]
  rw [← List.append_assoc (List.takeWhile _ _), List.takeWhile_append_dropWhile]

theorem shown_digits (n : Nat) : ∀ c ∈ digits n, isShown c = true := by
  intro c hc
  have hd := isDigit_of_mem_digits hc
  simp only [isDigit, decide_eq_true_eq, UInt8.le_iff_toNat_le] at hd
  simp only [isShown, Bool.not_eq_true', decide_eq_false_iff_not, not_or, not_and, UInt8.lt_iff_toNat_lt,
    ← UInt8.toNat_inj, SP, HT, DEL]
  simp only [UInt8.reduceToNat] at hd ⊢
  omega

theorem reason_mem (status : Int) : reason status ∈ "Unknown" :: reasonMap.map Prod.snd := by
  rw [reason]
  cases h : reasonMap.lookup status with
  | none => exact List.mem_cons_self
  | some r =>
    obtain ⟨l₁, l₂, hl, -⟩ := List.lookup_eq_some_iff.mp h
    refine List.mem_cons_of_mem _ (List.mem_map.mpr ⟨(status, r), ?_, rfl⟩)
    rw [hl]
    exact List.mem_append_right _ List.mem_cons_self

theorem shown_reason (status : Int) : ∀ c ∈ ascii (reason status), isShown c = true :=
  have h : ∀ r ∈ "Unknown" :: reasonMap.map Prod.snd, (ascii r).all isShown = true := by decide
  List.all_eq_true.mp (h _ (reason_mem status))

variable {body contentType : Bytes}

def fields (body : Bytes) (hct : ∀ c ∈ contentType, isShown c = true) : Lines where
  lines := [
    .field (field "Content-Type" contentType (by decide) (List.all_eq_true.mp (by decide)) hct),
    .field (field "Content-Length" (digits body.length) (by decide) (List.all_eq_true.mp (by decide))
      (shown_digits _)),
    .field (field "Connection" (ascii "keep-alive") (by decide) (List.all_eq_true.mp (by decide))
      (List.all_eq_true.mp (by decide))),
    .field (field "Access-Control-Allow-Origin" (ascii "*") (by decide) (List.all_eq_true.mp (by decide))
      (List.all_eq_true.mp (by decide))),
    .field (field "Access-Control-Allow-Methods" (ascii "GET, POST, OPTIONS") (by decide)
      (List.all_eq_true.mp (by decide)) (List.all_eq_true.mp (by decide))),
    .field (field "Access-Control-Allow-Headers" (ascii "Content-Type") (by decide)
      (List.all_eq_true.mp (by decide)) (List.all_eq_true.mp (by decide)))]
  few := (by decide : 6 ≤ max_headers)
  first line hline := by
    cases hline
    rfl

/-- What is in front of the body. -/
def head (status : Nat) (body : Bytes) (hct : ∀ c ∈ contentType, isShown c = true)
    (h : 100 ≤ status ∧ status ≤ 999) : ResponseText where
  minor := 49
  spaces := 0
  hundreds := digit (status / 10 / 10)
  tens := digit (status / 10 % 10)
  ones := digit (status % 10)
  msg := SP :: ascii (reason status)
  eol := .crlf
  fields := fields body hct
  last := .crlf
  digit := by decide
  status_digits := ⟨isDigit_digit (by omega), isDigit_digit (by omega), isDigit_digit (by omega)⟩
  msg_start c hc := by
    cases hc
    rfl
  msg_shown c hc := by
    rcases List.mem_cons.mp hc with rfl | hc
    · decide
    · exact shown_reason status c hc

theorem head_status (h : 100 ≤ status ∧ status ≤ 999) (hct : ∀ c ∈ contentType, isShown c = true) :
    (head status body hct h).status = status := by
  simp only [head, ResponseText.status]
  rw [toNat_digit (by omega), toNat_digit (by omega), toNat_digit (by omega)]
  omega

theorem respond_eq {status : Nat} (h : 100 ≤ status ∧ status ≤ 999)
    (hct : ∀ c ∈ contentType, isShown c = true) :
    respond status body contentType = (head status body hct h).text ++ body := by
  have hstatus : to_string status = digits status := by simp [to_string]
  have hlength : to_string body.length = digits body.length := by simp [to_string]
  have hversion : ascii "HTTP/1.1 " = http1 ++ [49, SP] := by decide
  have hspace : ascii " " = [SP] := by decide
  have hcrlf : ascii "\r\n" = [CR, LF] := by decide
  have htype : ascii "Content-Type: " = ascii "Content-Type" ++ [58, SP] := by decide
  have hlen : ascii "Content-Length: " = ascii "Content-Length" ++ [58, SP] := by decide
  have hconnection : ascii "Connection: keep-alive\r\n" =
      ascii "Connection" ++ 58 :: SP :: (ascii "keep-alive" ++ [CR, LF]) := by decide
  have horigin : ascii "Access-Control-Allow-Origin: *\r\n" =
      ascii "Access-Control-Allow-Origin" ++ 58 :: SP :: (ascii "*" ++ [CR, LF]) := by decide
  have hmethods : ascii "Access-Control-Allow-Methods: GET, POST, OPTIONS\r\n" =
      ascii "Access-Control-Allow-Methods" ++ 58 :: SP :: (ascii "GET, POST, OPTIONS" ++ [CR, LF]) := by
    decide
  have hheaders : ascii "Access-Control-Allow-Headers: Content-Type\r\n\r\n" =
      ascii "Access-Control-Allow-Headers" ++ 58 :: SP :: (ascii "Content-Type" ++ [CR, LF]) ++
        [CR, LF] := by decide
  rw [respond, hstatus, hlength, digits_three h.1 h.2, hversion, hspace, hcrlf, htype, hlen, hconnection,
    horigin, hmethods, hheaders]
  simp [ResponseText.text, ResponseText.statusLine, ResponseText.beforeMsg, head, Lines.text, fields,
    field_text, Eol.text]

-- ---------------------------------------------------------------------------
-- The fields as they are read
-- ---------------------------------------------------------------------------

theorem dropWhile_blank {v : Bytes} (h : ∀ c ∈ v, isBlank c = false) : v.dropWhile isBlank = v := by
  cases v with
  | nil => rfl
  | cons c v => rw [List.dropWhile_cons, h c List.mem_cons_self, if_neg Bool.false_ne_true]

theorem field_entry (name : String) {value : Bytes} (h : ∀ c ∈ value, isBlank c = false)
    (hname htoken hshown) : (Line.field (field name value hname htoken hshown)).entry = (ascii name, value) := by
  have hrev : value.reverse.dropWhile isBlank = value.reverse :=
    dropWhile_blank fun c hc => h c (List.mem_reverse.mp hc)
  simp only [Line.entry, field, dropWhile_blank h, hrev, List.reverse_reverse]

theorem blank_digits (n : Nat) : ∀ c ∈ digits n, isBlank c = false := by
  intro c hc
  have hd := isDigit_of_mem_digits hc
  rw [isBlank, decide_eq_false_iff_not]
  rintro (rfl | rfl) <;> exact absurd hd (by decide)

/-- Of the entries of the head only the second gives a length, and none a transfer coding. -/
theorem entries_framing (body : Bytes) (hct : ∀ c ∈ contentType, isShown c = true) :
    ∀ e ∈ (fields body hct).lines.map Line.entry,
      equalsIgnoreCase e.1 (ascii "transfer-encoding") = false ∧
        (equalsIgnoreCase e.1 (ascii "content-length") = true → e.2 = digits body.length) := by
  have hother : ∀ name ∈ ["Content-Type", "Connection", "Access-Control-Allow-Origin",
      "Access-Control-Allow-Methods", "Access-Control-Allow-Headers"],
      equalsIgnoreCase (ascii name) (ascii "transfer-encoding") = false ∧
        ¬ equalsIgnoreCase (ascii name) (ascii "content-length") = true := by decide
  have hlength : equalsIgnoreCase (ascii "Content-Length") (ascii "transfer-encoding") = false := by
    decide
  have hkept : ∀ name ∈ ["Content-Type", "Connection", "Access-Control-Allow-Origin",
      "Access-Control-Allow-Methods", "Access-Control-Allow-Headers"], ∀ value : Bytes,
      equalsIgnoreCase (ascii name) (ascii "transfer-encoding") = false ∧
        (equalsIgnoreCase (ascii name) (ascii "content-length") = true → value = digits body.length) :=
    fun name hname _ => ⟨(hother name hname).1, fun h => absurd h (hother name hname).2⟩
  simp only [fields, List.map_cons, List.map_nil, List.forall_mem_cons, List.not_mem_nil, false_implies,
    implies_true, and_true, field_entry "Content-Length" (blank_digits _)]
  exact ⟨hkept "Content-Type" (by decide) _, hlength, hkept "Connection" (by decide) _,
    hkept "Access-Control-Allow-Origin" (by decide) _, hkept "Access-Control-Allow-Methods" (by decide) _,
    hkept "Access-Control-Allow-Headers" (by decide) _⟩

section
variable {status : Nat} {h : 100 ≤ status ∧ status ≤ 999} {hct : ∀ c ∈ contentType, isShown c = true}

theorem mem_entries (hmem : x ∈ (head status body hct h).head.headers) :
    (key x, x.value.text) ∈ (fields body hct).lines.map Line.entry := by
  rw [← headersAt_entries (head status body hct h).statusLine.length]
  exact List.mem_map_of_mem hmem

variable (h hct) in
theorem head_chunked : (head status body hct h).head.headers.any isChunked = false := by
  rw [List.any_eq_false]
  intro x hmem
  have := (entries_framing body hct _ (mem_entries hmem)).1
  simp only [isChunked, Bool.and_eq_true, not_and]
  exact fun hkey => Bool.noConfusion (this.symm.trans hkey)

theorem head_length (hbody : body.length < 2 ^ 64) :
    ContentLength (head status body hct h).head.headers body.length := by
  refine ⟨?_, hbody, fun x hmem hx => ?_⟩
  · have hkey : equalsIgnoreCase (ascii "Content-Length") (ascii "content-length") = true := by decide
    exact List.any_eq_true.mpr ⟨_, List.mem_cons_of_mem _ List.mem_cons_self, hkey⟩
  · have hvalue := (entries_framing body hct _ (mem_entries hmem)).2 hx
    simp only at hvalue
    rw [hvalue]
    exact ⟨digits_ne _, List.all_eq_true.mpr fun c hc => isDigit_of_mem_digits hc, decimal_digits _⟩

theorem reason_short (status : Int) : (ascii (reason status)).length ≤ 21 :=
  have h : ∀ r ∈ "Unknown" :: reasonMap.map Prod.snd, (ascii r).length ≤ 21 := by decide
  h _ (reason_mem status)

theorem head_short (hbody : body.length < 2 ^ 64) (hlen : contentType.length < 2 ^ 30) :
    (head status body hct h).text.length < 2 ^ 31 := by
  have hreason := reason_short status
  have hdigits : (digits body.length).length ≤ 20 :=
    (length_digits_le_iff (by decide)).mpr (Nat.lt_trans hbody (by decide))
  have hnames : (["Content-Type", "Content-Length", "Connection", "keep-alive",
      "Access-Control-Allow-Origin", "*", "Access-Control-Allow-Methods", "GET, POST, OPTIONS",
      "Access-Control-Allow-Headers", "Content-Type"].map fun s => (ascii s).length).sum = 160 := by decide
  have hversion : http1.length = 7 := rfl
  simp only [List.map_cons, List.map_nil, List.sum_cons, List.sum_nil] at hnames
  simp only [ResponseText.text, ResponseText.statusLine, ResponseText.beforeMsg, head, Lines.text, fields,
    field_text, Eol.text, List.flatMap_cons, List.flatMap_nil, List.length_append, List.length_cons,
    List.length_nil, List.length_replicate]
  omega

variable (h hct) in
theorem parseResponse_respond {p : HttpParser} (hbody : body.length < 2 ^ 64)
    (hlen : contentType.length < 2 ^ 30) :
    p.parseResponse (respond status body contentType) = (true, { p with is_req_ := false }.responseParsed
      (head status body hct h).head (head status body hct h).text.length) := by
  have hpos := List.length_pos_iff.mpr (response_ne_nil (response_text_accepts (head status body hct h)))
  rw [respond_eq h hct, parseResponse_accepts (response_text_accepts _), toInt_eq (head_short hbody hlen),
    if_pos (by omega), Int.toNat_natCast]

end

-- ---------------------------------------------------------------------------
-- Statuses
-- ---------------------------------------------------------------------------

theorem status_of_text {R : ResponseText} (hR : R.text <+: ascii "HTTP/1.1 " ++ c :: tail)
    (hc : c ≠ SP) : ∃ i j k d rest, c :: tail = i :: j :: k :: d :: rest ∧ isDigit i = true ∧
      isDigit j = true ∧ isDigit k = true ∧ isDigit d = false := by
  have hversion : ascii "HTTP/1.1 " = http1 ++ [49, SP] := by decide
  rw [hversion, ResponseText.text, ResponseText.statusLine, ResponseText.beforeMsg] at hR
  simp only [List.append_assoc, List.cons_append, List.nil_append] at hR
  have hdigits := (List.cons_prefix_cons.mp (List.cons_prefix_cons.mp
    ((List.prefix_append_right_inj http1).mp hR)).2).2
  cases hn : R.spaces with
  | succ n =>
    rw [hn, List.replicate_succ, List.cons_append] at hdigits
    exact absurd (List.cons_prefix_cons.mp hdigits).1.symm hc
  | zero =>
    rw [hn, List.replicate_zero, List.nil_append] at hdigits
    obtain ⟨rest, hrest⟩ := hdigits
    obtain ⟨x, hx, hend⟩ := R.eol.head? (R.fields.text ++ R.last.text)
    have hnext : ∃ d m, R.msg ++ (R.eol.text ++ (R.fields.text ++ R.last.text)) = d :: m ∧
        isDigit d = false := by
      cases hmsg : R.msg with
      | nil =>
        obtain ⟨m, hm⟩ := List.head?_eq_some_iff.mp hx
        refine ⟨x, m, hm, ?_⟩
        rcases hend with rfl | rfl <;> decide
      | cons d m =>
        refine ⟨d, _, rfl, ?_⟩
        rw [R.msg_start d (by rw [hmsg]; rfl)]
        decide
    obtain ⟨d, m, hm, hd⟩ := hnext
    rw [hm] at hrest
    exact ⟨_, _, _, d, m ++ rest, hrest.symm, R.status_digits.1, R.status_digits.2.1,
      R.status_digits.2.2, hd⟩

theorem three_of_text {i j k d : UInt8} (h : digits n ++ SP :: tail = i :: j :: k :: d :: rest)
    (hj : isDigit j = true) (hk : isDigit k = true) (hd : isDigit d = false) :
    100 ≤ n ∧ n ≤ 999 := by
  have hdigit : ∀ c ∈ digits n, isDigit c = true := fun c hc => isDigit_of_mem_digits hc
  have hlen : (digits n).length = 3 := by
    cases hl : digits n with
    | nil => exact absurd hl (digits_ne n)
    | cons a l =>
      rw [hl, List.cons_append] at h
      rw [hl] at hdigit
      obtain ⟨-, h⟩ := List.cons.inj h
      rcases l with _ | ⟨b, _ | ⟨c, _ | ⟨e, l⟩⟩⟩
      · exact absurd ((List.cons.inj h).1 ▸ hj) (by decide)
      · exact absurd ((List.cons.inj (List.cons.inj h).2).1 ▸ hk) (by decide)
      · rfl
      · have he : e = d := (List.cons.inj (List.cons.inj (List.cons.inj h).2).2).1
        exact Bool.noConfusion (hd.symm.trans (he ▸ hdigit e (by simp)))
  have hlow : ¬ n < 10 ^ 2 := by
    rw [← length_digits_le_iff (by decide)]
    omega
  have hhigh : n < 10 ^ 3 := (length_digits_le_iff (by decide)).mp (Nat.le_of_eq hlen)
  omega

theorem respond_starts (status : Int) (body contentType : Bytes) : ∃ tail,
    respond status body contentType = ascii "HTTP/1.1 " ++ (to_string status ++ SP :: tail) := by
  have hspace : ascii " " = [SP] := by decide
  rw [respond, hspace]
  simp only [List.append_assoc, List.singleton_append]
  exact ⟨_, rfl⟩

/-- What is sent has a head that is read exactly when the status has three digits. -/
theorem respond_parsed_iff {p : HttpParser} {status : Int} (hct : ∀ c ∈ contentType, isShown c = true)
    (hbody : body.length < 2 ^ 64) (hlen : contentType.length < 2 ^ 30) :
    (p.parseResponse (respond status body contentType)).1 = true ↔ 100 ≤ status ∧ status ≤ 999 := by
  constructor
  · intro h
    obtain ⟨R, hR, -⟩ := parseResponse_iff.mp h
    obtain ⟨tail, htail⟩ := respond_starts status body contentType
    rw [htail] at hR
    cases status with
    | ofNat n =>
      have hstatus : to_string (Int.ofNat n) = digits n := by simp [to_string]
      obtain ⟨c, ds, hds⟩ := List.exists_cons_of_ne_nil (digits_ne n)
      have hc := isDigit_of_mem_digits (hds ▸ List.mem_cons_self)
      rw [hstatus, hds] at hR
      obtain ⟨i, j, k, d, rest, heq, -, hj, hk, hd⟩ := status_of_text hR (by
        rintro rfl
        exact absurd hc (by decide))
      have htext : digits n ++ SP :: tail = i :: j :: k :: d :: rest := by
        rw [hds]
        exact heq
      obtain ⟨hlow, hhigh⟩ := three_of_text htext hj hk hd
      exact ⟨Int.ofNat_le.mpr hlow, Int.ofNat_le.mpr hhigh⟩
    | negSucc n =>
      rw [to_string, if_pos (Int.negSucc_lt_zero n)] at hR
      obtain ⟨i, j, k, d, rest, heq, hi, -⟩ := status_of_text hR (by decide)
      exact absurd ((List.cons.inj heq).1 ▸ hi) (by decide)
  · intro h
    obtain ⟨n, rfl⟩ := Int.eq_ofNat_of_zero_le (by omega : 0 ≤ status)
    rw [parseResponse_respond (by omega) hct hbody hlen]

/-- What a client reads of what is sent: the status, and the body at its length. -/
structure Received (p : HttpParser) (data : Bytes) (status : Int) (body : Bytes) : Prop where
  status_eq : (p.resp_status_ : Int) = status
  after_head : data.drop p.headerLen = body
  content_length : p.contentLength = body.length
  not_chunked : p.isResponseChunked = false
  expecting : p.isExpectingBody = decide (0 < body.length)

theorem respond_received {p : HttpParser} {status : Int} (hct : ∀ c ∈ contentType, isShown c = true)
    (hbody : body.length < 2 ^ 64) (hlen : contentType.length < 2 ^ 30) :
    ((p.parseResponse (respond status body contentType)).1 = true ↔ 100 ≤ status ∧ status ≤ 999) ∧
      (100 ≤ status ∧ status ≤ 999 → Received (p.parseResponse (respond status body contentType)).2
        (respond status body contentType) status body) := by
  refine ⟨respond_parsed_iff hct hbody hlen, fun h => ?_⟩
  obtain ⟨n, rfl⟩ := Int.eq_ofNat_of_zero_le (by omega : 0 ≤ status)
  have h' : 100 ≤ n ∧ n ≤ 999 := by omega
  have hframing := framing_length (head_chunked h' hct) (head_length hbody)
  simp only [framing] at hframing
  rw [parseResponse_respond h' hct hbody hlen]
  constructor
  · exact congrArg Nat.cast (head_status h' hct)
  · rw [respond_eq h' hct]
    exact List.drop_left
  · simp only [contentLength, responseParsed, hframing]
  · simp only [isResponseChunked, responseParsed, hframing]
  · simp only [isExpectingBody, responseParsed, hframing]
    split <;> simp_all

theorem respond_received_404 : Received
    (({} : HttpParser).parseResponse (respond 404 (ascii "none") (ascii "text/plain"))).2
    (respond 404 (ascii "none") (ascii "text/plain")) 404 (ascii "none") :=
  (respond_received (List.all_eq_true.mp (by decide)) (by decide) (by decide)).2 (by decide)

/-- What is sent in answer to a request is a whole response to it, unless such responses have no body. -/
theorem respond_answered {status : Int} {method : Bytes} (hct : ∀ c ∈ contentType, isShown c = true)
    (hbody : body.length < 2 ^ 64) (hlen : contentType.length < 2 ^ 30)
    (hstatus : 200 ≤ status ∧ status ≤ 999) (hmethod : method ≠ ascii "HEAD")
    (hbodied : status ≠ 204 ∧ status ≠ 304) : Answered method (respond status body contentType) := by
  obtain ⟨n, rfl⟩ := Int.eq_ofNat_of_zero_le (by omega : 0 ≤ status)
  have h : 100 ≤ n ∧ n ≤ 999 := by omega
  have hread : (head n body hct h).head.status = n := head_status h hct
  refine ⟨[], ⟨_, _, body, response_text_accepts (head n body hct h), head_short hbody hlen, ?_,
    .length ?_ (head_chunked h hct) (head_length hbody)⟩, ?_⟩
  · omega
  · simp only [bodiless, hread, Bool.or_eq_false_iff, decide_eq_false_iff_not]
    exact ⟨⟨hmethod, by omega⟩, by omega⟩
  · exact respond_eq h hct

theorem respond_answered_404 : Answered (ascii "GET") (respond 404 (ascii "none") (ascii "text/plain")) :=
  respond_answered (List.all_eq_true.mp (by decide)) (by decide) (by decide) (by decide) (by decide) (by decide)

end HttpServer

end VortexNet
