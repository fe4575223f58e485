import VortexNet.Lib.Incremental
import VortexNet.Utils.Buffer

/-!
# picohttpparser

The request and response head parsers of `picohttpparser.c`, called as
`HttpParser.cc` calls them: room for a hundred headers, and `last_len` 0. The
return value is the length of the head as an `int`, -2 when more input is
needed and -1 when the head is malformed. A read that the source makes without
`CHECK_EOF` comes after a check for enough input.
-/

namespace VortexNet

open Incremental

namespace Picohttpparser

def HT : UInt8 := 9
def LF : UInt8 := 10
def CR : UInt8 := 13
def SP : UInt8 := 32
def DEL : UInt8 := 127

def ascii (s : String) : Bytes := s.toList.map fun c => c.toNat.toUInt8

def isDigit (c : UInt8) : Bool := 48 ≤ c ∧ c ≤ 57

def token_char_map (c : UInt8) : Bool :=
  c = 0x21 ∨ 0x23 ≤ c ∧ c ≤ 0x27 ∨ c = 0x2a ∨ c = 0x2b ∨ c = 0x2d ∨ c = 0x2e ∨ isDigit c ∨
    0x41 ≤ c ∧ c ≤ 0x5a ∨ 0x5e ≤ c ∧ c ≤ 0x7a ∨ c = 0x7c ∨ c = 0x7e

/-- `name` is `none` on a line that continues the header above it. -/
structure phr_header where
  name : Option (Slice UInt8)
  value : Slice UInt8
  deriving DecidableEq

structure RequestHead where
  method : Slice UInt8
  path : Slice UInt8
  minor_version : Nat
  headers : List phr_header
  deriving DecidableEq

structure ResponseHead where
  minor_version : Nat
  status : Nat
  msg : Slice UInt8
  headers : List phr_header
  deriving DecidableEq

-- ---------------------------------------------------------------------------
-- The parts of a head
-- ---------------------------------------------------------------------------

def eol : Parser UInt8 Unit := do
  let c ← peek
  if c = CR then do
    advance
    expect LF
  else if c = LF then advance
  else fail

/-- `do { ++buf; CHECK_EOF(); } while (*buf == ' ')`. -/
def skip_spaces : Parser UInt8 Unit := do
  advance
  let _ ← scan (· ≠ SP) fun _ => false

def ADVANCE_TOKEN : Parser UInt8 (Slice UInt8) := scan (· = SP) fun c => c < SP ∨ c = DEL

def parse_token (next_char : UInt8) : Parser UInt8 (Slice UInt8) :=
  scan (· = next_char) fun c => !token_char_map c

def get_token_to_eol : Parser UInt8 (Slice UInt8) := do
  let token ← scan (fun c => c < SP ∧ c ≠ HT ∨ c = DEL) fun _ => false
  eol
  return token

def PARSE_INT (mul : Nat) : Parser UInt8 Nat := do
  let c ← peek
  if isDigit c then do
    advance
    return mul * (c.toNat - 48)
  else fail

def PARSE_INT_3 : Parser UInt8 Nat := do
  let hundreds ← PARSE_INT 100
  let tens ← PARSE_INT 10
  let ones ← PARSE_INT 1
  return hundreds + tens + ones

/-- "HTTP/1." and a digit, when two characters more than "HTTP/1." are there. -/
def parse_http_version : Parser UInt8 Nat := do
  need 9
  expect 72
  expect 84
  expect 84
  expect 80
  expect 47
  expect 49
  expect 46
  PARSE_INT 1

def isBlank (c : UInt8) : Bool := c = SP ∨ c = HT

def trimEnd (value : Slice UInt8) : Slice UInt8 :=
  { value with text := (value.text.reverse.dropWhile isBlank).reverse }

/-- The name of a header, its colon and the blanks after it; none on a continued line. -/
def header_name (continued : Bool) : Parser UInt8 (Option (Slice UInt8)) :=
  if continued then pure none
  else do
    let name ← parse_token 58
    failIf (name.text = [])
    advance
    let _ ← scan (fun c => !isBlank c) fun _ => false
    return some name

/-- `room` is `max_headers - num_headers`. -/
def parse_headers : (room : Nat) → List phr_header → Parser UInt8 (List phr_header)
  | room, headers => do
    let c ← peek
    if c = CR ∨ c = LF then do
      eol
      return headers
    else match room with
      | 0 => fail
      | room + 1 => do
        let name ← header_name (headers ≠ [] ∧ isBlank c)
        let value ← get_token_to_eol
        parse_headers room (headers ++ [⟨name, trimEnd value⟩])

def trimStart (msg : Slice UInt8) : Slice UInt8 :=
  ⟨msg.pos + (msg.text.takeWhile (· = SP)).length, msg.text.dropWhile (· = SP)⟩

-- ---------------------------------------------------------------------------
-- Heads
-- ---------------------------------------------------------------------------

def max_headers : Nat := 100

def skip_empty_line : Parser UInt8 Unit := do
  let c ← peek
  if c = CR ∨ c = LF then eol else pure ()

def parse_request : Parser UInt8 RequestHead := do
  skip_empty_line
  let method ← parse_token SP
  skip_spaces
  let path ← ADVANCE_TOKEN
  skip_spaces
  failIf (method.text = [] ∨ path.text = [])
  let minor_version ← parse_http_version
  eol
  let headers ← parse_headers max_headers []
  return { method, path, minor_version, headers }

def parse_response : Parser UInt8 ResponseHead := do
  let minor_version ← parse_http_version
  let c ← peek
  failIf (c ≠ SP)
  skip_spaces
  need 4
  let status ← PARSE_INT_3
  let msg ← get_token_to_eol
  -- the message keeps no leading space; anything else right after the status is garbage
  failIf (msg.text ≠ [] ∧ msg.text.head? ≠ some SP)
  let headers ← parse_headers max_headers []
  return { minor_version, status, headers, msg := trimStart msg }

-- ---------------------------------------------------------------------------
-- Stability
-- ---------------------------------------------------------------------------

theorem eol_stable : Stable eol :=
  Stable.peek.bind fun _ => .ite (Stable.advance.bind fun _ => .expect LF) (.ite .advance .fail)

theorem skip_spaces_stable : Stable skip_spaces :=
  Stable.advance.bind fun _ => (Stable.scan _ _).bind fun _ => .pure ()

theorem get_token_to_eol_stable : Stable get_token_to_eol :=
  (Stable.scan _ _).bind fun _ => eol_stable.bind fun _ => .pure _

theorem PARSE_INT_stable (mul : Nat) : Stable (PARSE_INT mul) :=
  Stable.peek.bind fun _ => .ite (Stable.advance.bind fun _ => .pure _) .fail

theorem PARSE_INT_3_stable : Stable PARSE_INT_3 :=
  (PARSE_INT_stable _).bind fun _ => (PARSE_INT_stable _).bind fun _ =>
    (PARSE_INT_stable _).bind fun _ => .pure _

theorem parse_http_version_stable : Stable parse_http_version :=
  (Stable.need 9).bind fun _ => (Stable.expect _).bind fun _ => (Stable.expect _).bind fun _ =>
    (Stable.expect _).bind fun _ => (Stable.expect _).bind fun _ => (Stable.expect _).bind fun _ =>
      (Stable.expect _).bind fun _ => (Stable.expect _).bind fun _ => PARSE_INT_stable 1

theorem header_name_stable (continued : Bool) : Stable (header_name continued) := by
  refine .ite (.pure none) ?_
  exact (Stable.scan _ _).bind fun _ => (Stable.failIf _).bind fun _ => Stable.advance.bind fun _ =>
    (Stable.scan _ _).bind fun _ => .pure _

theorem parse_headers_stable (room : Nat) (headers : List phr_header) :
    Stable (parse_headers room headers) := by
  induction room generalizing headers with
  | zero => exact Stable.peek.bind fun _ => .ite (eol_stable.bind fun _ => .pure _) .fail
  | succ room ih =>
    refine Stable.peek.bind fun _ => .ite (eol_stable.bind fun _ => .pure _) ?_
    exact (header_name_stable _).bind fun _ => get_token_to_eol_stable.bind fun _ => ih _

theorem parse_request_stable : Stable parse_request := by
  refine (Stable.peek.bind fun _ => .ite eol_stable (.pure ())).bind fun _ => ?_
  refine (Stable.scan _ _).bind fun _ => skip_spaces_stable.bind fun _ => ?_
  refine (Stable.scan _ _).bind fun _ => skip_spaces_stable.bind fun _ => ?_
  refine (Stable.failIf _).bind fun _ => parse_http_version_stable.bind fun _ => ?_
  exact eol_stable.bind fun _ => (parse_headers_stable _ _).bind fun _ => .pure _

theorem parse_response_stable : Stable parse_response := by
  refine parse_http_version_stable.bind fun _ => Stable.peek.bind fun _ => ?_
  refine (Stable.failIf _).bind fun _ => skip_spaces_stable.bind fun _ => ?_
  refine (Stable.need 4).bind fun _ => PARSE_INT_3_stable.bind fun _ => ?_
  refine get_token_to_eol_stable.bind fun _ => (Stable.failIf _).bind fun _ => ?_
  exact (parse_headers_stable _ _).bind fun _ => .pure _

-- ---------------------------------------------------------------------------
-- Places
-- ---------------------------------------------------------------------------

variable {l : Bytes}

structure phr_header.In (l : Bytes) (h : phr_header) : Prop where
  name : ∀ name, h.name = some name → name.In l
  value : h.value.In l

theorem trimEnd_in (h : value.In l) : (trimEnd value).In l := by
  have hsuffix := List.dropWhile_suffix isBlank (l := value.text.reverse)
  have hprefix : (trimEnd value).text <+: value.text := by
    simpa [trimEnd] using List.reverse_prefix.mpr hsuffix
  exact hprefix.trans h

theorem get_token_to_eol_yields : Yields l (Slice.In l) get_token_to_eol :=
  (Yields.scan _ _).bind (Stable.scan _ _) fun _ h => Yields.seq eol_stable fun _ => .pure h

theorem header_name_yields (continued : Bool) :
    Yields l (fun result => ∀ name, result = some name → name.In l) (header_name continued) := by
  refine .ite (.pure nofun) ?_
  refine (Yields.scan _ _).bind (Stable.scan _ _) fun name hname => ?_
  refine Yields.seq (Stable.failIf _) fun _ => Yields.seq Stable.advance fun _ => ?_
  refine Yields.seq (Stable.scan _ _) fun _ => .pure ?_
  rintro _ ⟨⟩
  exact hname

theorem parse_headers_yields (room : Nat) (headers : List phr_header)
    (h : ∀ header ∈ headers, header.In l) :
    Yields l (fun headers => ∀ header ∈ headers, header.In l) (parse_headers room headers) := by
  induction room generalizing headers with
  | zero => exact Yields.seq Stable.peek fun _ => .ite (Yields.seq eol_stable fun _ => .pure h) .fail
  | succ room ih =>
    refine Yields.seq Stable.peek fun _ => .ite (Yields.seq eol_stable fun _ => .pure h) ?_
    refine (header_name_yields _).bind (header_name_stable _) fun name hname => ?_
    refine get_token_to_eol_yields.bind get_token_to_eol_stable fun value hvalue => ih _ ?_
    intro header hmem
    rcases List.mem_append.mp hmem with hmem | hmem
    · exact h header hmem
    · cases List.mem_singleton.mp hmem
      exact ⟨hname, trimEnd_in hvalue⟩

theorem parse_request_yields :
    Yields l (fun head => ∀ header ∈ head.headers, header.In l) parse_request := by
  refine Yields.seq (Stable.peek.bind fun _ => .ite eol_stable (.pure ())) fun _ => ?_
  refine Yields.seq (Stable.scan _ _) fun _ => Yields.seq skip_spaces_stable fun _ => ?_
  refine Yields.seq (Stable.scan _ _) fun _ => Yields.seq skip_spaces_stable fun _ => ?_
  refine Yields.seq (Stable.failIf _) fun _ => Yields.seq parse_http_version_stable fun _ => ?_
  refine Yields.seq eol_stable fun _ => ?_
  exact (parse_headers_yields _ _ (by simp)).bind (parse_headers_stable _ _) fun _ h => .pure h

theorem headers_in (h : Accepts parse_request l head) : ∀ header ∈ head.headers, header.In l :=
  parse_request_yields ⟨0, l⟩ head _ rfl h

-- ---------------------------------------------------------------------------
-- Return values
-- ---------------------------------------------------------------------------

/-- The value of a length or an offset in an `int`. -/
def toInt (n : Nat) : Int := (BitVec.ofNat 32 n).toInt

theorem toInt_eq (h : n < 2 ^ 31) : toInt n = n := by
  simp only [toInt, BitVec.toInt_eq_toNat_cond, BitVec.toNat_ofNat]
  omega

/-- What `phr_parse_request` and `phr_parse_response` return. -/
def ret : Result UInt8 α → Int
  | .done _ c => toInt c.pos
  | .incomplete => -2
  | .bad => -1

def phr_parse_request (data : Bytes) : Result UInt8 RequestHead := parse_request ⟨0, data⟩

def phr_parse_response (data : Bytes) : Result UInt8 ResponseHead := parse_response ⟨0, data⟩

theorem request_ne_nil (h : Accepts parse_request l head) : l ≠ [] := by
  rintro rfl
  cases h

theorem response_ne_nil (h : Accepts parse_response l head) : l ≠ [] := by
  rintro rfl
  cases h

end Picohttpparser

end VortexNet
