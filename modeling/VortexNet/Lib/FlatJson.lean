import Mathlib.Data.List.Nodup

/-!
# Flat JSON objects

The text of a JSON object whose values are strings and literals, with no two
keys alike, and with neither a quote nor a backslash in a key or a string.
-/

namespace FlatJson

abbrev Text := List UInt8

abbrev quote : UInt8 := 34
abbrev backslash : UInt8 := 92
abbrev colon : UInt8 := 58
abbrev comma : UInt8 := 44
abbrev openBrace : UInt8 := 123
abbrev closeBrace : UInt8 := 125

def isBlank (c : UInt8) : Bool := c = 32 ∨ c = 9 ∨ c = 10 ∨ c = 13

def isDigit (c : UInt8) : Bool := 48 ≤ c ∧ c ≤ 57

structure Blank where
  text : Text := []
  blank : text.all isBlank = true := by decide

structure Plain where
  text : Text
  plain : (text.all fun c => c ≠ quote && c ≠ backslash) = true := by decide

def Digits (t : Text) : Prop := t ≠ [] ∧ ∀ c ∈ t, isDigit c = true

inductive Literal : Text → Prop
  | true : Literal [116, 114, 117, 101]
  | false : Literal [102, 97, 108, 115, 101]
  | null : Literal [110, 117, 108, 108]
  | number : sign = [] ∨ sign = [45] → Digits int → (int.head? = some 48 → int = [48]) →
      (frac = [] ∨ ∃ digits, Digits digits ∧ frac = 46 :: digits) →
      (exp = [] ∨ ∃ e sign' digits, (e = 101 ∨ e = 69) ∧
        (sign' = [] ∨ sign' = [43] ∨ sign' = [45]) ∧ Digits digits ∧ exp = e :: sign' ++ digits) →
      Literal (sign ++ int ++ frac ++ exp)

inductive Value
  | string (s : Plain)
  | literal (t : Text) (h : Literal t)

def Value.said : Value → Text
  | .string s => s.text
  | .literal t _ => t

def Value.text : Value → Text
  | .string s => quote :: (s.text ++ [quote])
  | .literal t _ => t

structure Member where
  before : Blank := {}
  key : Plain
  mid : Blank := {}
  ahead : Blank := {}
  value : Value
  after : Blank := {}

def Member.rest (m : Member) : Text :=
  m.mid.text ++ colon :: (m.ahead.text ++ (m.value.text ++ m.after.text))

def Member.text (m : Member) : Text :=
  m.before.text ++ quote :: (m.key.text ++ quote :: m.rest)

structure Object where
  before : Blank := {}
  members : List Member
  /-- Between the braces when there are no members. -/
  inside : Blank := {}
  after : Blank := {}
  distinct : (members.map (·.key.text)).Nodup

def Object.closing (o : Object) : List Member → Text
  | [] => closeBrace :: o.after.text
  | m :: ms => comma :: (m.text ++ o.closing ms)

def Object.text (o : Object) : Text :=
  o.before.text ++ openBrace :: match o.members with
    | [] => o.inside.text ++ o.closing []
    | m :: ms => m.text ++ o.closing ms

/-- What the value of the key says. -/
def Object.get (o : Object) (key : Text) : Option Text :=
  (o.members.find? (·.key.text = key)).map (·.value.said)

-- ---------------------------------------------------------------------------
-- Where quotes are
-- ---------------------------------------------------------------------------

variable {t : Text}

theorem Blank.not_mem (b : Blank) (hc : isBlank c = false) : c ∉ b.text := fun h =>
  Bool.noConfusion (hc.symm.trans (List.all_eq_true.mp b.blank c h))

theorem Plain.quote_not_mem (s : Plain) : quote ∉ s.text := fun h =>
  absurd (List.all_eq_true.mp s.plain quote h) (by decide)

theorem Digits.quote_not_mem (h : Digits t) : quote ∉ t := fun hq =>
  absurd (h.2 quote hq) (by decide)

theorem Literal.quote_not_mem (h : Literal t) : quote ∉ t := by
  cases h with
  | true => decide
  | false => decide
  | null => decide
  | number hsign hint hzero hfrac hexp =>
    simp only [List.mem_append, not_or]
    refine ⟨⟨⟨?_, hint.quote_not_mem⟩, ?_⟩, ?_⟩
    · rcases hsign with rfl | rfl <;> decide
    · rcases hfrac with rfl | ⟨digits, hdigits, rfl⟩
      · decide
      · simpa [quote] using hdigits.quote_not_mem
    · rcases hexp with rfl | ⟨e, sign', digits, he, hsign', hdigits, rfl⟩
      · decide
      · rcases he with rfl | rfl <;> rcases hsign' with rfl | rfl | rfl <;>
          simpa [quote] using hdigits.quote_not_mem

theorem Literal.ne_nil (h : Literal t) : t ≠ [] := by
  cases h with
  | number hsign hint => simp [hint.1]
  | _ => decide

end FlatJson
