import VortexNet.Http.Response
import VortexNet.Lib.Reading

/-!
# The text of heads

The forms of text that the parsers of picohttpparser read as a head. A value of
`RequestText` or `ResponseText` is a head that is well formed; `text` is how it
is written and `head` what the parser makes of it. The parsers read exactly
these texts.
-/

namespace VortexNet

open Incremental

namespace Picohttpparser

-- ---------------------------------------------------------------------------
-- Lines
-- ---------------------------------------------------------------------------

inductive Eol
  | lf
  | crlf
  deriving DecidableEq

def Eol.text : Eol → Bytes
  | .lf => [LF]
  | .crlf => [CR, LF]

/-- A character of a value or of a message. -/
def isShown (c : UInt8) : Bool := !decide (c < SP ∧ c ≠ HT ∨ c = DEL)

def isVisible (c : UInt8) : Bool := decide (SP < c ∧ c ≠ DEL)

structure Field where
  name : Bytes
  blanks : Bytes
  value : Bytes
  eol : Eol
  name_ne : name ≠ []
  token : ∀ c ∈ name, token_char_map c = true
  blank : ∀ c ∈ blanks, isBlank c = true
  start : ∀ c ∈ value.head?, isBlank c = false
  shown : ∀ c ∈ value, isShown c = true

structure Continuation where
  value : Bytes
  eol : Eol
  start : ∃ c ∈ value.head?, isBlank c = true
  shown : ∀ c ∈ value, isShown c = true

inductive Line
  | field (f : Field)
  | continuation (c : Continuation)

def Line.isField : Line → Bool
  | .field _ => true
  | .continuation _ => false

def Line.text : Line → Bytes
  | .field f => f.name ++ 58 :: (f.blanks ++ (f.value ++ f.eol.text))
  | .continuation c => c.value ++ c.eol.text

def Line.header (pos : Nat) : Line → phr_header
  | .field f => ⟨some ⟨pos, f.name⟩, trimEnd ⟨pos + (f.name ++ 58 :: f.blanks).length, f.value⟩⟩
  | .continuation c => ⟨none, trimEnd ⟨pos, c.value⟩⟩

def Line.entry : Line → Bytes × Bytes
  | .field f => (f.name, (f.value.reverse.dropWhile isBlank).reverse)
  | .continuation c => ([], (c.value.reverse.dropWhile isBlank).reverse)

def headersAt (pos : Nat) : List Line → List phr_header
  | [] => []
  | line :: lines => line.header pos :: headersAt (pos + line.text.length) lines

/-- The fields of a head: no more than there is room for, and the first has a name. -/
structure Lines where
  lines : List Line
  few : lines.length ≤ max_headers
  first : ∀ line ∈ lines.head?, line.isField = true

def Lines.text (L : Lines) : Bytes := L.lines.flatMap Line.text

def Lines.headers (L : Lines) (pos : Nat) : List phr_header := headersAt pos L.lines

-- ---------------------------------------------------------------------------
-- Heads
-- ---------------------------------------------------------------------------

def http1 : Bytes := [72, 84, 84, 80, 47, 49, 46]

structure RequestText where
  /-- An empty line before the request line. -/
  empty_line : Option Eol
  method : Bytes
  /-- The spaces after the first. -/
  spaces : Nat
  path : Bytes
  spaces' : Nat
  minor : UInt8
  eol : Eol
  fields : Lines
  last : Eol
  method_ne : method ≠ []
  method_token : ∀ c ∈ method, token_char_map c = true
  path_ne : path ≠ []
  path_visible : ∀ c ∈ path, isVisible c = true
  digit : isDigit minor = true

namespace RequestText

def emptyLine (R : RequestText) : Bytes := R.empty_line.elim [] Eol.text

def requestLine (R : RequestText) : Bytes :=
  R.method ++ SP :: (List.replicate R.spaces SP ++ (R.path ++ SP :: (List.replicate R.spaces' SP ++
    (http1 ++ R.minor :: R.eol.text))))

def text (R : RequestText) : Bytes :=
  R.emptyLine ++ (R.requestLine ++ (R.fields.text ++ R.last.text))

def head (R : RequestText) : RequestHead where
  method := ⟨R.emptyLine.length, R.method⟩
  path := ⟨R.emptyLine.length + (R.method.length + 1 + R.spaces), R.path⟩
  minor_version := R.minor.toNat - 48
  headers := R.fields.headers (R.emptyLine.length + R.requestLine.length)

end RequestText

structure ResponseText where
  minor : UInt8
  spaces : Nat
  hundreds : UInt8
  tens : UInt8
  ones : UInt8
  /-- With the space in front of it. -/
  msg : Bytes
  eol : Eol
  fields : Lines
  last : Eol
  digit : isDigit minor = true
  status_digits : isDigit hundreds = true ∧ isDigit tens = true ∧ isDigit ones = true
  msg_start : ∀ c ∈ msg.head?, c = SP
  msg_shown : ∀ c ∈ msg, isShown c = true

namespace ResponseText

def status (R : ResponseText) : Nat :=
  100 * (R.hundreds.toNat - 48) + 10 * (R.tens.toNat - 48) + (R.ones.toNat - 48)

def beforeMsg (R : ResponseText) : Bytes :=
  http1 ++ R.minor :: SP :: (List.replicate R.spaces SP ++ [R.hundreds, R.tens, R.ones])

def statusLine (R : ResponseText) : Bytes := R.beforeMsg ++ (R.msg ++ R.eol.text)

def text (R : ResponseText) : Bytes := R.statusLine ++ (R.fields.text ++ R.last.text)

def head (R : ResponseText) : ResponseHead where
  minor_version := R.minor.toNat - 48
  status := R.status
  msg := trimStart ⟨R.beforeMsg.length, R.msg⟩
  headers := R.fields.headers R.statusLine.length

end ResponseText

-- ---------------------------------------------------------------------------
-- Characters
-- ---------------------------------------------------------------------------

theorem Eol.head? (e : Eol) (rest : Bytes) :
    ∃ c, (e.text ++ rest).head? = some c ∧ (c = CR ∨ c = LF) := by
  cases e with
  | lf => exact ⟨LF, rfl, .inr rfl⟩
  | crlf => exact ⟨CR, rfl, .inl rfl⟩

theorem Eol.length_pos (e : Eol) : 0 < e.text.length := by
  cases e <;> decide

theorem shown_of_blank (h : isBlank c = true) : isShown c = true := by
  simp only [isBlank, decide_eq_true_eq] at h
  rcases h with rfl | rfl <;> decide

theorem not_shown_of_end (h : c = CR ∨ c = LF) : isShown c = false := by
  rcases h with rfl | rfl <;> decide

theorem not_end_of_shown (h : isShown c = true) : ¬ (c = CR ∨ c = LF) :=
  fun hend => Bool.noConfusion ((not_shown_of_end hend).symm.trans h)

theorem not_blank_of_end (h : c = CR ∨ c = LF) : isBlank c = false := by
  rcases h with rfl | rfl <;> decide

theorem ne_of_token (h : token_char_map c = true) (hd : token_char_map d = false) : c ≠ d := by
  rintro rfl
  exact Bool.noConfusion (h.symm.trans hd)

theorem not_end_of_token (h : token_char_map c = true) : ¬ (c = CR ∨ c = LF) :=
  not_or.mpr ⟨ne_of_token h (by decide), ne_of_token h (by decide)⟩

theorem not_blank_of_token (h : token_char_map c = true) : isBlank c = false :=
  decide_eq_false (not_or.mpr ⟨ne_of_token h (by decide), ne_of_token h (by decide)⟩)

-- ---------------------------------------------------------------------------
-- The parts of a head
-- ---------------------------------------------------------------------------

theorem eol_reads : Reads eol fun _ w _ _ => ∃ e : Eol, w = e.text := by
  refine (Reads.peek.bind fun c => Reads.ite (fun _ => Reads.advance.bind fun _ => Reads.expect LF)
    fun _ => Reads.ite (fun _ => Reads.advance) fun _ => Reads.fail).iff ?_
  intro pos w rest _
  constructor
  · rintro ⟨_, w, c, rfl, ⟨rfl, hc⟩, ⟨rfl, _, _, -, rfl, hlen, rfl⟩ | ⟨-, ⟨rfl, hlen⟩ | ⟨-, ⟨⟩⟩⟩⟩
    · obtain ⟨x, rfl⟩ := List.length_eq_one_iff.mp hlen
      exact ⟨.crlf, by rw [Option.some.inj hc]; rfl⟩
    · obtain ⟨x, rfl⟩ := List.length_eq_one_iff.mp hlen
      exact ⟨.lf, by rw [Option.some.inj hc]; rfl⟩
  · rintro ⟨e, rfl⟩
    cases e with
    | lf => exact ⟨[], [LF], LF, rfl, ⟨rfl, rfl⟩, .inr ⟨by decide, .inl ⟨rfl, rfl⟩⟩⟩
    | crlf => exact ⟨[], [CR, LF], CR, rfl, ⟨rfl, rfl⟩, .inl ⟨rfl, [CR], [LF], (), rfl, rfl, rfl⟩⟩

theorem skip_spaces_reads : Reads skip_spaces fun _ w rest _ =>
    ∃ c n, w = c :: List.replicate n SP ∧ ∃ d ∈ rest.head?, d ≠ SP := by
  refine (Reads.advance.bind fun _ => (Reads.scan _ _).bind fun _ => Reads.pure ()).iff ?_
  intro pos w rest _
  constructor
  · rintro ⟨v, _, -, rfl, hlen, t, _, s, rfl, ⟨-, hall, d, hd, hstop⟩, rfl, -⟩
    obtain ⟨c, rfl⟩ := List.length_eq_one_iff.mp hlen
    refine ⟨c, t.length, ?_, d, hd, of_decide_eq_true hstop⟩
    rw [List.append_nil, List.singleton_append, ← List.eq_replicate_of_mem]
    exact fun x hx => not_not.mp (of_decide_eq_false (hall x hx).1)
  · rintro ⟨c, n, rfl, d, hd, hne⟩
    refine ⟨[c], _, (), rfl, rfl, List.replicate n SP, [], _, (List.append_nil _).symm, ⟨rfl, ?_, ?_⟩,
      rfl, rfl⟩
    · rintro x hx
      rw [List.eq_of_mem_replicate hx]
      exact ⟨by decide, rfl⟩
    · exact ⟨d, hd, decide_eq_true hne⟩

theorem get_token_to_eol_reads : Reads get_token_to_eol fun pos w _ s =>
    ∃ v, ∃ e : Eol, w = v ++ e.text ∧ s = ⟨pos, v⟩ ∧ ∀ c ∈ v, isShown c = true := by
  refine ((Reads.scan _ _).bind fun s => eol_reads.bind fun _ => Reads.pure s).iff ?_
  intro pos w rest s
  constructor
  · rintro ⟨v, _, _, rfl, ⟨rfl, hall, -⟩, _, _, _, rfl, ⟨e, rfl⟩, rfl, rfl⟩
    refine ⟨v, e, by rw [List.append_nil], rfl, fun c hc => ?_⟩
    rw [isShown, (hall c hc).1]
    rfl
  · rintro ⟨v, e, rfl, rfl, hall⟩
    obtain ⟨c, hc, hend⟩ := e.head? rest
    refine ⟨v, e.text, _, rfl, ⟨rfl, fun x hx => ⟨?_, rfl⟩, c, ?_, ?_⟩, e.text, [], (),
      (List.append_nil _).symm, ⟨e, rfl⟩, rfl, rfl⟩
    · exact Bool.not_eq_true' _ ▸ hall x hx
    · exact hc
    · exact (Bool.not_eq_false' _).mp (not_shown_of_end hend)

theorem PARSE_INT_reads (mul : Nat) : Reads (PARSE_INT mul) fun _ w _ n =>
    ∃ c, w = [c] ∧ isDigit c = true ∧ n = mul * (c.toNat - 48) := by
  refine (Reads.peek.bind fun c => Reads.ite (fun _ => Reads.advance.bind fun _ => Reads.pure _)
    fun _ => Reads.fail).iff ?_
  intro pos w rest n
  constructor
  · rintro ⟨_, w, c, rfl, ⟨rfl, hc⟩, ⟨hd, v, _, -, rfl, hlen, rfl, rfl⟩ | ⟨-, ⟨⟩⟩⟩
    obtain ⟨x, rfl⟩ := List.length_eq_one_iff.mp hlen
    obtain rfl : x = c := Option.some.inj hc
    exact ⟨x, rfl, hd, rfl⟩
  · rintro ⟨c, rfl, hd, rfl⟩
    exact ⟨[], [c], c, rfl, ⟨rfl, rfl⟩, .inl ⟨hd, [c], [], (), rfl, rfl, rfl, rfl⟩⟩

theorem PARSE_INT_3_reads : Reads PARSE_INT_3 fun _ w _ n => ∃ a b c, w = [a, b, c] ∧
    (isDigit a = true ∧ isDigit b = true ∧ isDigit c = true) ∧
      n = 100 * (a.toNat - 48) + 10 * (b.toNat - 48) + (c.toNat - 48) := by
  refine ((PARSE_INT_reads 100).bind fun _ => (PARSE_INT_reads 10).bind fun _ =>
    (PARSE_INT_reads 1).bind fun _ => Reads.pure _).iff ?_
  intro pos w rest n
  constructor
  · rintro ⟨_, _, _, rfl, ⟨a, rfl, ha, rfl⟩, _, _, _, rfl, ⟨b, rfl, hb, rfl⟩, _, _, _, rfl,
      ⟨c, rfl, hc, rfl⟩, rfl, rfl⟩
    exact ⟨a, b, c, rfl, ⟨ha, hb, hc⟩, by rw [Nat.one_mul]⟩
  · rintro ⟨a, b, c, rfl, ⟨ha, hb, hc⟩, rfl⟩
    exact ⟨[a], [b, c], _, rfl, ⟨a, rfl, ha, rfl⟩, [b], [c], _, rfl, ⟨b, rfl, hb, rfl⟩, [c], [], _,
      rfl, ⟨c, rfl, hc, rfl⟩, rfl, by rw [Nat.one_mul]⟩

theorem parse_http_version_reads : Reads parse_http_version fun _ w rest n =>
    ∃ c, w = http1 ++ [c] ∧ isDigit c = true ∧ n = c.toNat - 48 ∧ rest ≠ [] := by
  refine ((Reads.need 9).bind fun _ => Reads.expect_seq 72 <| Reads.expect_seq 84 <|
    Reads.expect_seq 84 <| Reads.expect_seq 80 <| Reads.expect_seq 47 <| Reads.expect_seq 49 <|
      Reads.expect_seq 46 <| PARSE_INT_reads 1).iff ?_
  intro pos w rest n
  constructor
  · rintro ⟨_, _, _, rfl, ⟨rfl, hlen⟩, _, rfl, _, rfl, _, rfl, _, rfl, _, rfl, _, rfl, _, rfl,
      c, rfl, hd, rfl⟩
    refine ⟨c, rfl, hd, Nat.one_mul _, ?_⟩
    rintro rfl
    exact absurd hlen (Nat.lt_irrefl 8)
  · rintro ⟨c, rfl, hd, rfl, hne⟩
    refine ⟨[], _, (), rfl, ⟨rfl, ?_⟩, _, rfl, _, rfl, _, rfl, _, rfl, _, rfl, _, rfl, _, rfl,
      c, rfl, hd, (Nat.one_mul _).symm⟩
    exact Nat.add_le_add_right (List.length_pos_iff.mpr hne) 8

theorem parse_token_reads (next_char : UInt8) (h : token_char_map next_char = false) :
    Reads (parse_token next_char) fun pos w rest s => s = ⟨pos, w⟩ ∧
      (∀ c ∈ w, token_char_map c = true) ∧ rest.head? = some next_char := by
  refine (Reads.scan _ _).iff fun pos w rest s => ?_
  constructor
  · rintro ⟨rfl, hall, c, hc, hstop⟩
    exact ⟨rfl, fun c hc => (Bool.not_eq_false' _).mp (hall c hc).2, of_decide_eq_true hstop ▸ hc⟩
  · rintro ⟨rfl, hall, hhead⟩
    refine ⟨rfl, fun c hc => ⟨?_, (Bool.not_eq_false' _).mpr (hall c hc)⟩, _, hhead, decide_eq_true rfl⟩
    exact decide_eq_false (ne_of_token (hall c hc) h)

theorem ADVANCE_TOKEN_reads : Reads ADVANCE_TOKEN fun pos w rest s =>
    s = ⟨pos, w⟩ ∧ (∀ c ∈ w, isVisible c = true) ∧ rest.head? = some SP := by
  refine (Reads.scan _ _).iff fun pos w rest s => ?_
  have hvisible : ∀ c, decide (c = SP) = false ∧ decide (c < SP ∨ c = DEL) = false ↔
      isVisible c = true := by
    intro c
    simp only [isVisible, decide_eq_true_eq, decide_eq_false_iff_not, not_or, UInt8.lt_iff_toNat_lt,
      ← UInt8.toNat_inj, ne_eq]
    omega
  constructor
  · rintro ⟨rfl, hall, c, hc, hstop⟩
    exact ⟨rfl, fun c hc => (hvisible c).mp (hall c hc), of_decide_eq_true hstop ▸ hc⟩
  · rintro ⟨rfl, hall, hhead⟩
    exact ⟨rfl, fun c hc => (hvisible c).mpr (hall c hc), _, hhead, decide_eq_true rfl⟩

theorem header_name_reads (continued : Bool) : Reads (header_name continued) fun pos w rest n =>
    continued = true ∧ w = [] ∧ n = none ∨
      continued = false ∧ ∃ name blanks, w = name ++ 58 :: blanks ∧ n = some ⟨pos, name⟩ ∧
        name ≠ [] ∧ (∀ c ∈ name, token_char_map c = true) ∧ (∀ c ∈ blanks, isBlank c = true) ∧
          ∃ c ∈ rest.head?, isBlank c = false := by
  refine (Reads.ite (fun _ => Reads.pure none) fun _ => (parse_token_reads 58 (by decide)).bind
    fun name => (Reads.failIf _).bind fun _ => Reads.advance.bind fun _ => (Reads.scan _ _).bind
      fun _ => Reads.pure (some name)).iff fun pos w rest n => ?_
  cases continued with
  | true => simp
  | false =>
    simp only [Bool.false_eq_true, false_and, not_false_eq_true, true_and, false_or]
    constructor
    · rintro ⟨name, _, _, rfl, ⟨rfl, htoken, hcolon⟩, _, _, _, rfl, ⟨hne, rfl⟩, x, _, _, rfl, hlen,
        blanks, _, s, rfl, ⟨-, hall, d, hd, hstop⟩, rfl, rfl⟩
      obtain ⟨c, rfl⟩ := List.length_eq_one_iff.mp hlen
      obtain rfl : c = 58 := Option.some.inj hcolon
      refine ⟨name, blanks, by simp, rfl, hne, htoken, fun c hc => ?_, d, ?_, ?_⟩
      · exact (Bool.not_eq_false' _).mp (hall c hc).1
      · exact hd
      · exact (Bool.not_eq_true' _).mp hstop
    · rintro ⟨name, blanks, rfl, rfl, hne, htoken, hblank, d, hd, hstop⟩
      refine ⟨name, _, _, rfl, ⟨rfl, htoken, rfl⟩, [], _, (), rfl, ⟨hne, rfl⟩, [58], blanks, (), rfl,
        rfl, blanks, [], _, (List.append_nil _).symm, ⟨rfl, fun c hc => ⟨?_, trivial⟩, d, hd, ?_⟩, rfl, rfl⟩
      · exact (Bool.not_eq_false' _).mpr (hblank c hc)
      · exact (Bool.not_eq_true' _).mpr hstop

-- ---------------------------------------------------------------------------
-- Fields
-- ---------------------------------------------------------------------------

theorem Line.head? (line : Line) (rest : Bytes) : ∃ c, (line.text ++ rest).head? = some c ∧
    ¬ (c = CR ∨ c = LF) ∧ isBlank c = !line.isField := by
  cases line with
  | field f =>
    obtain ⟨c, name, hname⟩ := List.exists_cons_of_ne_nil f.name_ne
    have htoken := f.token c (hname ▸ List.mem_cons_self)
    refine ⟨c, ?_, not_end_of_token htoken, not_blank_of_token htoken⟩
    simp [Line.text, hname]
  | continuation l =>
    obtain ⟨c, hc, hblank⟩ := l.start
    refine ⟨c, ?_, not_end_of_shown (shown_of_blank hblank), hblank⟩
    rw [Line.text, List.append_assoc, List.head?_append, Option.mem_def.mp hc]
    rfl

def header_line (continued : Bool) : Parser UInt8 phr_header := do
  let name ← header_name continued
  let value ← get_token_to_eol
  return ⟨name, trimEnd value⟩

theorem header_line_bind (f : phr_header → Parser UInt8 α) :
    header_line continued >>= f = header_name continued >>= fun name =>
      get_token_to_eol >>= fun value => f ⟨name, trimEnd value⟩ := by
  simp only [header_line, bind_assoc]
  rfl

theorem field_reads : Reads (header_line false) fun pos w _ h =>
    ∃ f : Field, w = (Line.field f).text ∧ h = (Line.field f).header pos := by
  refine ((header_name_reads false).bind fun name => get_token_to_eol_reads.bind fun value =>
    Reads.pure _).iff fun pos w rest h => ?_
  constructor
  · rintro ⟨_, _, _, rfl, ⟨⟨⟩, -⟩ | ⟨-, name, blanks, rfl, rfl, hne, htoken, hblank, d, hd, hstart⟩,
      _, _, _, rfl, ⟨value, e, rfl, rfl, hshown⟩, rfl, rfl⟩
    have hvalue : ∀ c ∈ value.head?, isBlank c = false := by
      intro c hc
      rw [List.append_nil, List.append_assoc, List.head?_append, Option.mem_def.mp hc] at hd
      cases hd
      exact hstart
    refine ⟨⟨name, blanks, value, e, hne, htoken, hblank, hvalue, hshown⟩, ?_, rfl⟩
    simp [Line.text]
  · rintro ⟨f, rfl, rfl⟩
    refine ⟨f.name ++ 58 :: f.blanks, f.value ++ f.eol.text, _, by simp [Line.text],
      .inr ⟨rfl, f.name, f.blanks, rfl, rfl, f.name_ne, f.token, f.blank, ?_⟩, f.value ++ f.eol.text, [],
      _, (List.append_nil _).symm, ⟨f.value, f.eol, rfl, rfl, f.shown⟩, rfl, rfl⟩
    obtain ⟨d, hd, hend⟩ := f.eol.head? rest
    rw [List.append_assoc, List.head?_append, hd]
    cases hv : f.value.head? with
    | some c => exact ⟨c, rfl, f.start c hv⟩
    | none => exact ⟨d, rfl, not_blank_of_end hend⟩

theorem continuation_reads : Reads (header_line true) fun pos w _ h => ∃ v, ∃ e : Eol,
    w = v ++ e.text ∧ h = ⟨none, trimEnd ⟨pos, v⟩⟩ ∧ ∀ c ∈ v, isShown c = true := by
  refine ((header_name_reads true).bind fun name => get_token_to_eol_reads.bind fun value =>
    Reads.pure _).iff fun pos w rest h => ?_
  constructor
  · rintro ⟨_, _, _, rfl, ⟨-, rfl, rfl⟩ | ⟨⟨⟩, -⟩, _, _, _, rfl, ⟨v, e, rfl, rfl, hshown⟩, rfl, rfl⟩
    exact ⟨v, e, List.append_nil _, rfl, hshown⟩
  · rintro ⟨v, e, rfl, rfl, hshown⟩
    exact ⟨[], _, _, rfl, .inl ⟨rfl, rfl, rfl⟩, _, [], _, (List.append_nil _).symm,
      ⟨v, e, rfl, rfl, hshown⟩, rfl, rfl⟩

theorem header_line_reads (continued : Bool) : Reads (header_line continued) fun pos w _ h =>
    continued = false ∧ (∃ f : Field, w = (Line.field f).text ∧ h = (Line.field f).header pos) ∨
      continued = true ∧ ∃ v, ∃ e : Eol,
        w = v ++ e.text ∧ h = ⟨none, trimEnd ⟨pos, v⟩⟩ ∧ ∀ c ∈ v, isShown c = true := by
  cases continued with
  | false => exact field_reads.iff fun _ _ _ _ => by simp
  | true => exact continuation_reads.iff fun _ _ _ _ => by simp

theorem continuation_of_blank {v : Bytes} {e : Eol} (hshown : ∀ c ∈ v, isShown c = true)
    (hc : (v ++ e.text ++ rest).head? = some c) (hblank : isBlank c = true) :
    ∃ line : Line, line.isField = false ∧ v ++ e.text = line.text ∧
      ∀ pos, (⟨none, trimEnd ⟨pos, v⟩⟩ : phr_header) = line.header pos := by
  have hstart : ∃ c ∈ v.head?, isBlank c = true := by
    obtain ⟨d, hd, hend⟩ := e.head? rest
    rw [List.append_assoc, List.head?_append, hd] at hc
    cases hv : v.head? with
    | some x =>
      rw [hv] at hc
      cases hc
      exact ⟨c, rfl, hblank⟩
    | none =>
      rw [hv] at hc
      cases hc
      exact Bool.noConfusion (hblank.symm.trans (not_blank_of_end hend))
  exact ⟨.continuation ⟨v, e, hstart, hshown⟩, rfl, rfl, fun _ => rfl⟩

theorem parse_headers_reads (room : Nat) (headers : List phr_header) :
    Reads (parse_headers room headers) fun pos w _ result =>
      ∃ lines, ∃ last : Eol, w = lines.flatMap Line.text ++ last.text ∧ lines.length ≤ room ∧
        (headers = [] → ∀ line ∈ lines.head?, line.isField = true) ∧
          result = headers ++ headersAt pos lines := by
  induction room generalizing headers with
  | zero =>
    refine (Reads.peek.bind fun c => Reads.ite (fun _ => eol_reads.bind fun _ => Reads.pure headers)
      fun _ => Reads.fail).iff fun pos w rest result => ?_
    constructor
    · rintro ⟨_, _, c, rfl, ⟨rfl, hc⟩, ⟨-, _, _, _, rfl, ⟨e, rfl⟩, rfl, rfl⟩ | ⟨-, ⟨⟩⟩⟩
      exact ⟨[], e, by simp, Nat.le_refl 0, fun _ => nofun, (List.append_nil _).symm⟩
    · rintro ⟨lines, e, rfl, hlen, -, rfl⟩
      obtain rfl := List.length_eq_zero_iff.mp (Nat.le_zero.mp hlen)
      obtain ⟨c, hc, hend⟩ := e.head? rest
      exact ⟨[], e.text, c, rfl, ⟨rfl, hc⟩, .inl ⟨hend, e.text, [], (), (List.append_nil _).symm, ⟨e, rfl⟩,
        rfl, List.append_nil _⟩⟩
  | succ room ih =>
    have hstep : parse_headers (room + 1) headers = peek >>= fun c =>
        if c = CR ∨ c = LF then eol >>= fun _ => pure headers
        else header_line (headers ≠ [] ∧ isBlank c) >>= fun h => parse_headers room (headers ++ [h]) := by
      simp only [header_line_bind]
      rfl
    rw [hstep]
    refine (Reads.peek.bind fun c => Reads.ite (fun _ => eol_reads.bind fun _ => Reads.pure headers)
      fun _ => (header_line_reads _).bind fun h => ih _).iff fun pos w rest result => ?_
    constructor
    · rintro ⟨_, _, c, rfl, ⟨rfl, hc⟩, ⟨-, _, _, _, rfl, ⟨e, rfl⟩, rfl, rfl⟩ |
        ⟨-, w₁, _, h, rfl, hline, lines, e, rfl, hlen, -, rfl⟩⟩
      · exact ⟨[], e, by simp, Nat.zero_le _, fun _ => nofun, (List.append_nil _).symm⟩
      · have hread : ∃ line : Line, (headers = [] → line.isField = true) ∧ w₁ = line.text ∧
            h = line.header (pos + ([] : Bytes).length) := by
          rcases hline with ⟨-, f, rfl, rfl⟩ | ⟨hcont, v, e', rfl, rfl, hshown⟩
          · exact ⟨.field f, fun _ => rfl, rfl, rfl⟩
          · obtain ⟨hne, hblank⟩ := of_decide_eq_true hcont
            rw [List.append_assoc _ _ rest] at hc
            obtain ⟨line, -, htext, hheader⟩ := continuation_of_blank hshown hc hblank
            exact ⟨line, fun hnil => absurd hnil hne, htext, hheader _⟩
        obtain ⟨line, hfirst, rfl, rfl⟩ := hread
        refine ⟨line :: lines, e, by simp, Nat.succ_le_succ hlen, fun hnil x hx => ?_, ?_⟩
        · cases hx
          exact hfirst hnil
        · simp [headersAt]
    · rintro ⟨lines, e, rfl, hlen, hfirst, rfl⟩
      cases lines with
      | nil =>
        obtain ⟨c, hc, hend⟩ := e.head? rest
        exact ⟨[], e.text, c, rfl, ⟨rfl, hc⟩, .inl ⟨hend, e.text, [], (), (List.append_nil _).symm,
          ⟨e, rfl⟩, rfl, List.append_nil _⟩⟩
      | cons line lines =>
        obtain ⟨c, hc, hend, hblank⟩ := line.head? (lines.flatMap Line.text ++ e.text ++ rest)
        refine ⟨[], _, c, rfl, ⟨rfl, ?_⟩, .inr ⟨hend, line.text, lines.flatMap Line.text ++ e.text,
          line.header pos, by simp, ?_, lines, e, rfl, Nat.le_of_succ_le_succ hlen, ?_, ?_⟩⟩
        · simpa using hc
        · rw [hblank]
          cases line with
          | field f => exact .inl ⟨by simp [Line.isField], f, rfl, rfl⟩
          | continuation l =>
            have hne : headers ≠ [] := fun hnil => Bool.noConfusion (hfirst hnil _ rfl)
            exact .inr ⟨by simp [Line.isField, hne], l.value, l.eol, rfl, rfl, l.shown⟩
        · exact fun hnil => absurd hnil (by simp)
        · simp [headersAt]

-- ---------------------------------------------------------------------------
-- Requests
-- ---------------------------------------------------------------------------

theorem skip_empty_line_reads : Reads skip_empty_line fun _ w rest _ =>
    ∃ o : Option Eol, w = o.elim [] Eol.text ∧
      (o = none → ∃ c, rest.head? = some c ∧ ¬ (c = CR ∨ c = LF)) := by
  refine (Reads.peek.bind fun c => Reads.ite (fun _ => eol_reads) fun _ => Reads.pure ()).iff ?_
  intro pos w rest _
  constructor
  · rintro ⟨_, w, c, rfl, ⟨rfl, hc⟩, ⟨-, e, rfl⟩ | ⟨hend, rfl, -⟩⟩
    · exact ⟨some e, rfl, nofun⟩
    · exact ⟨none, rfl, fun _ => ⟨c, hc, hend⟩⟩
  · rintro ⟨o, rfl, ho⟩
    cases o with
    | some e =>
      obtain ⟨c, hc, hend⟩ := e.head? rest
      exact ⟨[], e.text, c, rfl, ⟨rfl, hc⟩, .inl ⟨hend, e, rfl⟩⟩
    | none =>
      obtain ⟨c, hc, hend⟩ := ho rfl
      exact ⟨[], [], c, rfl, ⟨rfl, hc⟩, .inr ⟨hend, rfl, rfl⟩⟩

theorem parse_request_iff {c : Cursor UInt8} : phr_parse_request data = .done head c ↔
    ∃ R : RequestText, data = R.text ++ c.rest ∧ c.pos = R.text.length ∧ R.head = head := by
  have hreads := skip_empty_line_reads.bind fun _ => (parse_token_reads SP (by decide)).bind
    fun method => skip_spaces_reads.bind fun _ => ADVANCE_TOKEN_reads.bind fun path =>
      skip_spaces_reads.bind fun _ => (Reads.failIf (method.text = [] ∨ path.text = [])).bind fun _ =>
        parse_http_version_reads.bind fun minor_version => eol_reads.bind fun _ =>
          (parse_headers_reads max_headers []).bind fun headers =>
            Reads.pure (⟨method, path, minor_version, headers⟩ : RequestHead)
  refine (hreads 0 data head c).trans ?_
  constructor
  · rintro ⟨_, hdata, hpos, hT⟩
    obtain ⟨_, _, _, rfl, ⟨o, rfl, -⟩, hT⟩ := hT
    obtain ⟨method, _, _, rfl, ⟨rfl, htoken, hsp⟩, hT⟩ := hT
    obtain ⟨_, _, _, rfl, ⟨x, n, rfl, -⟩, hT⟩ := hT
    obtain ⟨path, _, _, rfl, ⟨rfl, hvisible, hsp'⟩, hT⟩ := hT
    obtain ⟨_, _, _, rfl, ⟨y, n', rfl, -⟩, hT⟩ := hT
    obtain ⟨_, _, _, rfl, ⟨hne, rfl⟩, hT⟩ := hT
    obtain ⟨_, _, _, rfl, ⟨d, rfl, hd, rfl, -⟩, hT⟩ := hT
    obtain ⟨_, _, _, rfl, ⟨e, rfl⟩, hT⟩ := hT
    obtain ⟨_, _, _, rfl, ⟨lines, last, rfl, hlen, hfirst, rfl⟩, rfl, rfl⟩ := hT
    obtain rfl : x = SP := Option.some.inj hsp
    obtain rfl : y = SP := Option.some.inj hsp'
    obtain ⟨hmethod, hpath⟩ := not_or.mp hne
    refine ⟨⟨o, method, n, path, n', d, e, ⟨lines, hlen, hfirst rfl⟩, last, hmethod, htoken, hpath,
      hvisible, hd⟩, ?_, ?_, ?_⟩
    · rw [hdata]
      simp [RequestText.text, RequestText.requestLine, RequestText.emptyLine, Lines.text]
    · rw [hpos]
      simp [RequestText.text, RequestText.requestLine, RequestText.emptyLine, Lines.text]
    · simp only [RequestText.head, RequestText.emptyLine, Lines.headers, RequestText.requestLine,
        List.length_append, List.length_cons, List.length_replicate, zero_add, List.length_nil,
        add_zero, List.nil_append, RequestHead.mk.injEq, Slice.mk.injEq, and_true, true_and]
      exact ⟨by omega, congrArg (headersAt · lines) (by omega)⟩
  · rintro ⟨R, hdata, hpos, rfl⟩
    refine ⟨R.emptyLine ++ (R.method ++ ((SP :: List.replicate R.spaces SP) ++ (R.path ++
      ((SP :: List.replicate R.spaces' SP) ++ ([] ++ ((http1 ++ [R.minor]) ++ (R.eol.text ++
        ((R.fields.text ++ R.last.text) ++ [])))))))), ?_, ?_, _, _, (), rfl,
      ⟨R.empty_line, rfl, fun _ => ?_⟩, _, _, _, rfl, ⟨rfl, R.method_token, rfl⟩,
      _, _, (), rfl, ⟨SP, R.spaces, rfl, ?_⟩, _, _, _, rfl, ⟨rfl, R.path_visible, rfl⟩,
      _, _, (), rfl, ⟨SP, R.spaces', rfl, 72, rfl, by decide⟩, [], _, (), rfl,
      ⟨not_or.mpr ⟨R.method_ne, R.path_ne⟩, rfl⟩, _, _, _, rfl, ⟨R.minor, rfl, R.digit, rfl, ?_⟩,
      _, _, (), rfl, ⟨R.eol, rfl⟩, _, [], _, rfl,
      ⟨R.fields.lines, R.last, rfl, R.fields.few, fun _ => R.fields.first, rfl⟩, rfl, ?_⟩
    · simpa [RequestText.text, RequestText.requestLine] using hdata
    · rw [hpos]
      simp [RequestText.text, RequestText.requestLine]
    · obtain ⟨x, m, hm⟩ := List.exists_cons_of_ne_nil R.method_ne
      exact ⟨x, by rw [hm]; rfl, not_end_of_token (R.method_token x (hm ▸ List.mem_cons_self))⟩
    · obtain ⟨x, m, hm⟩ := List.exists_cons_of_ne_nil R.path_ne
      refine ⟨x, by rw [hm]; rfl, ?_⟩
      rintro rfl
      exact absurd (R.path_visible SP (hm ▸ List.mem_cons_self)) (by decide)
    · obtain ⟨x, hx, -⟩ := R.eol.head? (R.fields.text ++ R.last.text ++ [] ++ c.rest)
      rintro hnil
      rw [List.append_assoc] at hnil
      rw [hnil] at hx
      cases hx
    · simp only [RequestText.head, Lines.headers, RequestText.requestLine,
        List.length_append, List.length_cons, List.length_replicate, zero_add, List.length_nil,
        add_zero, List.nil_append, RequestHead.mk.injEq, Slice.mk.injEq, and_true, true_and]
      exact ⟨by omega, congrArg (headersAt · R.fields.lines) (by omega)⟩

-- ---------------------------------------------------------------------------
-- Responses
-- ---------------------------------------------------------------------------

theorem parse_response_iff {c : Cursor UInt8} : phr_parse_response data = .done head c ↔
    ∃ R : ResponseText, data = R.text ++ c.rest ∧ c.pos = R.text.length ∧ R.head = head := by
  have hreads := parse_http_version_reads.bind fun minor_version => Reads.peek.bind fun x =>
    (Reads.failIf (x ≠ SP)).bind fun _ => skip_spaces_reads.bind fun _ => (Reads.need 4).bind
      fun _ => PARSE_INT_3_reads.bind fun status => get_token_to_eol_reads.bind fun msg =>
        (Reads.failIf (msg.text ≠ [] ∧ msg.text.head? ≠ some SP)).bind fun _ =>
          (parse_headers_reads max_headers []).bind fun headers =>
            Reads.pure (⟨minor_version, status, trimStart msg, headers⟩ : ResponseHead)
  refine (hreads 0 data head c).trans ?_
  constructor
  · rintro ⟨_, hdata, hpos, hT⟩
    obtain ⟨_, _, _, rfl, ⟨d, rfl, hd, rfl, -⟩, hT⟩ := hT
    obtain ⟨_, _, x, rfl, ⟨rfl, hx⟩, hT⟩ := hT
    obtain ⟨_, _, _, rfl, ⟨hsp, rfl⟩, hT⟩ := hT
    obtain ⟨_, _, _, rfl, ⟨y, n, rfl, -⟩, hT⟩ := hT
    obtain ⟨_, _, _, rfl, ⟨rfl, -⟩, hT⟩ := hT
    obtain ⟨_, _, _, rfl, ⟨i, j, k, rfl, hdigits, rfl⟩, hT⟩ := hT
    obtain ⟨_, _, _, rfl, ⟨msg, e, rfl, rfl, hshown⟩, hT⟩ := hT
    obtain ⟨_, _, _, rfl, ⟨hstart, rfl⟩, hT⟩ := hT
    obtain ⟨_, _, _, rfl, ⟨lines, last, rfl, hlen, hfirst, rfl⟩, rfl, rfl⟩ := hT
    obtain rfl : y = SP := (Option.some.inj hx).trans (not_not.mp hsp)
    have hmsg : ∀ c ∈ msg.head?, c = SP := by
      intro c hc
      by_contra hne
      refine hstart ⟨?_, fun hsome => hne (Option.some.inj (hc.symm.trans hsome))⟩
      rintro rfl
      cases hc
    refine ⟨⟨d, n, i, j, k, msg, e, ⟨lines, hlen, hfirst rfl⟩, last, hd, hdigits, hmsg, hshown⟩,
      ?_, ?_, ?_⟩
    · rw [hdata]
      simp [ResponseText.text, ResponseText.statusLine, ResponseText.beforeMsg, Lines.text]
    · rw [hpos]
      simp [ResponseText.text, ResponseText.statusLine, ResponseText.beforeMsg, Lines.text]
    · simp only [ResponseText.head, ResponseText.beforeMsg, List.length_append, List.length_cons,
        List.length_replicate, List.length_nil, zero_add, Nat.reduceAdd, Lines.headers,
        ResponseText.statusLine, List.append_assoc, List.cons_append, List.nil_append, add_zero,
        ResponseHead.mk.injEq, true_and]
      exact ⟨rfl, congrArg (fun pos => trimStart ⟨pos, msg⟩) (by omega),
        congrArg (headersAt · lines) (by omega)⟩
  · rintro ⟨R, hdata, hpos, rfl⟩
    refine ⟨(http1 ++ [R.minor]) ++ ([] ++ ([] ++ ((SP :: List.replicate R.spaces SP) ++ ([] ++
      ([R.hundreds, R.tens, R.ones] ++ ((R.msg ++ R.eol.text) ++ ([] ++
        ((R.fields.text ++ R.last.text) ++ [])))))))), ?_, ?_, _, _, _, rfl,
      ⟨R.minor, rfl, R.digit, rfl, nofun⟩, [], _, SP, rfl, ⟨rfl, rfl⟩,
      [], _, (), rfl, ⟨not_not.mpr rfl, rfl⟩, _, _, (), rfl, ⟨SP, R.spaces, rfl, R.hundreds, rfl, ?_⟩,
      [], _, (), rfl, ⟨rfl, ?_⟩, _, _, _, rfl, ⟨_, _, _, rfl, R.status_digits, rfl⟩,
      _, _, _, rfl, ⟨R.msg, R.eol, rfl, rfl, R.msg_shown⟩, [], _, (), rfl, ⟨?_, rfl⟩, _, [], _, rfl,
      ⟨R.fields.lines, R.last, rfl, R.fields.few, fun _ => R.fields.first, rfl⟩, rfl, ?_⟩
    · simpa [ResponseText.text, ResponseText.statusLine, ResponseText.beforeMsg] using hdata
    · rw [hpos]
      simp [ResponseText.text, ResponseText.statusLine, ResponseText.beforeMsg]
    · intro hsp
      exact absurd (hsp ▸ R.status_digits.1) (by decide)
    · have hpos := R.eol.length_pos
      simp only [List.length_append, List.length_cons, List.length_nil]
      omega
    · rintro ⟨hne, hhead⟩
      obtain ⟨x, m, hm⟩ : ∃ x m, R.msg = x :: m := List.exists_cons_of_ne_nil hne
      refine hhead (hm ▸ congrArg some (R.msg_start x ?_))
      rw [hm]
      rfl
    · simp only [ResponseText.head, ResponseText.beforeMsg, List.length_append, List.length_cons,
        List.length_replicate, List.length_nil, zero_add, Nat.reduceAdd, Lines.headers,
        ResponseText.statusLine, List.append_assoc, List.cons_append, List.nil_append, add_zero,
        ResponseHead.mk.injEq, true_and]
      exact ⟨rfl, congrArg (fun pos => trimStart ⟨pos, R.msg⟩) (by omega),
        congrArg (headersAt · R.fields.lines) (by omega)⟩

theorem headersAt_entries (pos : Nat) (lines : List Line) :
    (headersAt pos lines).map (fun h => (HttpParser.key h, h.value.text)) = lines.map Line.entry := by
  induction lines generalizing pos with
  | nil => rfl
  | cons line lines ih =>
    rw [headersAt, List.map_cons, List.map_cons, ih]
    cases line <;> rfl

end Picohttpparser

open Picohttpparser

-- ---------------------------------------------------------------------------
-- The texts and the parser
-- ---------------------------------------------------------------------------

namespace HttpParser

/-- The parser has the method and the path of the text, and `header_` shows its fields in `data`. -/
structure RequestOf (R : RequestText) (data : Bytes) (p : HttpParser) : Prop where
  headerLen : (p.headerLen : Int) = toInt R.text.length
  method : p.request.method = R.method
  path : p.request.path = R.path
  headers : p.request.headers.map (fun view => (view.1.read data, view.2.read data)) =
    R.fields.lines.map Line.entry

structure ResponseOf (R : ResponseText) (p : HttpParser) : Prop where
  headerLen : (p.headerLen : Int) = toInt R.text.length
  status : p.resp_status_ = R.status
  chunked : p.isResponseChunked = (R.fields.lines.map Line.entry).any fun e =>
    equalsIgnoreCase e.1 (ascii "transfer-encoding") && equalsIgnoreCase e.2 (ascii "chunked")

variable {data : Bytes}

theorem phr_request_text (R : RequestText) (more : Bytes) :
    phr_parse_request (R.text ++ more) = .done R.head ⟨R.text.length, more⟩ :=
  parse_request_iff.mpr ⟨R, rfl, rfl, rfl⟩

theorem request_text_accepts (R : RequestText) : Accepts parse_request R.text R.head :=
  parse_request_iff.mpr ⟨R, (List.append_nil _).symm, rfl, rfl⟩

theorem response_text_accepts (R : ResponseText) : Accepts parse_response R.text R.head :=
  parse_response_iff.mpr ⟨R, (List.append_nil _).symm, rfl, rfl⟩

theorem request_views (R : RequestText) (more : Bytes) :
    (R.head.headers.map fun h => (string_view h.name, string_view (some h.value))).map
      (fun view => (view.1.read (R.text ++ more), view.2.read (R.text ++ more))) =
        R.fields.lines.map Line.entry := by
  have hkey : ∀ h ∈ R.head.headers,
      ((string_view h.name).read (R.text ++ more), (string_view (some h.value)).read (R.text ++ more)) =
        (key h, h.value.text) := by
    intro h hmem
    have hin := headers_in (request_text_accepts R) h hmem
    refine Prod.ext ?_ (hin.value.append more).take
    cases hname : h.name with
    | none => simp [string_view, StringView.read, key, hname]
    | some name =>
      show _ = key h
      rw [key, hname]
      exact ((hin.name name hname).append more).take
  rw [List.map_map, ← headersAt_entries]
  exact List.map_congr_left hkey

/-- A request is parsed from a buffer exactly when a text of a request is at its front. -/
theorem parseRequest_iff {p : HttpParser} : (p.parseRequest data).1 = true ↔
    ∃ R : RequestText, R.text <+: data ∧ 0 < toInt R.text.length := by
  constructor
  · intro h
    have hpos := (parseRequest_parsed (Prod.ext h rfl)).1
    cases hr : phr_parse_request data with
    | done head c =>
      obtain ⟨R, hdata, hlen, -⟩ := parse_request_iff.mp hr
      rw [hr, ret, hlen] at hpos
      exact ⟨R, ⟨c.rest, hdata.symm⟩, hpos⟩
    | incomplete => simp [hr, ret] at hpos
    | bad => simp [hr, ret] at hpos
  · rintro ⟨R, ⟨more, rfl⟩, hpos⟩
    simp only [parseRequest, phr_request_text, ret]
    rw [if_pos hpos]

theorem requestOf_parseRequest {p : HttpParser} {R : RequestText} (h : R.text <+: data)
    (hpos : 0 < toInt R.text.length) : RequestOf R data (p.parseRequest data).2.1 := by
  obtain ⟨more, rfl⟩ := h
  have hparsed : (p.parseRequest (R.text ++ more)).2.1 =
      { p with is_req_ := true }.requestParsed R.head (toInt R.text.length).toNat := by
    simp only [parseRequest, phr_request_text, ret]
    rw [if_pos hpos]
  rw [hparsed]
  refine ⟨?_, ?_, ?_, ?_⟩
  · rw [headerLen_requestParsed, Int.toNat_of_nonneg (Int.le_of_lt hpos)]
  · simp only [requestParsed, request]
    split <;> rfl
  · simp only [requestParsed, request]
    split <;> rfl
  · rw [← request_views R more]
    simp only [requestParsed, request]
    split <;> rfl

theorem phr_response_text (R : ResponseText) (more : Bytes) :
    phr_parse_response (R.text ++ more) = .done R.head ⟨R.text.length, more⟩ :=
  parse_response_iff.mpr ⟨R, rfl, rfl, rfl⟩

theorem parseResponse_iff {p : HttpParser} : (p.parseResponse data).1 = true ↔
    ∃ R : ResponseText, R.text <+: data ∧ 0 < toInt R.text.length := by
  constructor
  · intro h
    have hpos := parseResponse_parsed (Prod.ext h rfl)
    cases hr : phr_parse_response data with
    | done head c =>
      obtain ⟨R, hdata, hlen, -⟩ := parse_response_iff.mp hr
      rw [hr, ret, hlen] at hpos
      exact ⟨R, ⟨c.rest, hdata.symm⟩, hpos⟩
    | incomplete => simp [hr, ret] at hpos
    | bad => simp [hr, ret] at hpos
  · rintro ⟨R, ⟨more, rfl⟩, hpos⟩
    simp only [parseResponse, phr_response_text, ret]
    rw [if_pos hpos]

theorem responseOf_parseResponse {p : HttpParser} {R : ResponseText} (h : R.text <+: data)
    (hpos : 0 < toInt R.text.length) : ResponseOf R (p.parseResponse data).2 := by
  obtain ⟨more, rfl⟩ := h
  have hparsed : (p.parseResponse (R.text ++ more)).2 =
      { p with is_req_ := false }.responseParsed R.head (toInt R.text.length).toNat := by
    simp only [parseResponse, phr_response_text, ret]
    rw [if_pos hpos]
  rw [hparsed]
  refine ⟨Int.toNat_of_nonneg (Int.le_of_lt hpos), rfl, ?_⟩
  rw [← headersAt_entries R.statusLine.length, List.any_map]
  exact framing_chunked R.head

/-- A request is parsed exactly when a text of a request is at the front of the buffer, and then it
is the request of that text. -/
theorem parses_request_texts (p : HttpParser) (data : Bytes) : ((p.parseRequest data).1 = true ↔
      ∃ R : RequestText, R.text <+: data ∧ 0 < toInt R.text.length) ∧
    ∀ R : RequestText, R.text <+: data → 0 < toInt R.text.length →
      RequestOf R data (p.parseRequest data).2.1 ∧ (p.parseRequest data).2.2 = data := by
  refine ⟨parseRequest_iff, fun R h hpos => ⟨requestOf_parseRequest h hpos, ?_⟩⟩
  have hparsed := parseRequest_iff (p := p).mpr ⟨R, h, hpos⟩
  exact (parseRequest_parsed (Prod.ext hparsed rfl)).2.1

theorem parses_response_texts (p : HttpParser) (data : Bytes) : ((p.parseResponse data).1 = true ↔
      ∃ R : ResponseText, R.text <+: data ∧ 0 < toInt R.text.length) ∧
    ∀ R : ResponseText, R.text <+: data → 0 < toInt R.text.length →
      ResponseOf R (p.parseResponse data).2 :=
  ⟨parseResponse_iff, fun _ h hpos => responseOf_parseResponse h hpos⟩

end HttpParser

end VortexNet
