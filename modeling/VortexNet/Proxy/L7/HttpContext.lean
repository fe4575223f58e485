import VortexNet.Http.HttpParser

/-!
# The context of a client connection

`HttpContext.h` and `HttpContext.cc`: one parser for a client's requests and
for the responses to them, and the backend connection they go through.
-/

namespace VortexNet

open Picohttpparser

def find (pat : Bytes) : Bytes → Option Nat
  | [] => if pat = [] then some 0 else none
  | x :: xs => if pat.isPrefixOf (x :: xs) then some 0 else (find pat xs).map (· + 1)

def findFrom (pat s : Bytes) (pos : Nat) : Option Nat := (find pat (s.drop pos)).map (· + pos)

variable {pat s : Bytes} {c : UInt8} {k n pos : Nat}

theorem isPrefixOf_cons (x : UInt8) (xs : Bytes) :
    pat.isPrefixOf (x :: xs) = true ↔ pat <+: (x :: xs).drop 0 := List.isPrefixOf_iff_prefix

theorem find_iff (hne : pat ≠ []) :
    find pat s = some k ↔ pat <+: s.drop k ∧ ∀ j < k, ¬ pat <+: s.drop j := by
  induction s generalizing k with
  | nil =>
    have hnil : ¬ pat <+: [] := mt List.prefix_nil.mp hne
    simp [find, hne, hnil]
  | cons x xs ih =>
    simp only [find]
    split
    · rename_i hpre
      rw [isPrefixOf_cons] at hpre
      constructor
      · rintro ⟨⟩
        exact ⟨hpre, fun j hj => absurd hj (Nat.not_lt_zero j)⟩
      · rintro ⟨-, hfirst⟩
        by_contra hk
        exact hfirst 0 (Nat.pos_of_ne_zero fun h0 => hk (congrArg some h0.symm)) hpre
    · rename_i hpre
      rw [isPrefixOf_cons] at hpre
      cases k with
      | zero => simpa using hpre
      | succ k =>
        simp only [Option.map_eq_some_iff, Nat.add_right_cancel_iff, exists_eq_right, ih,
          List.drop_succ_cons]
        refine and_congr_right fun _ => ⟨fun h j hj => ?_, fun h j hj => h (j + 1) (by omega)⟩
        cases j with
        | zero => exact hpre
        | succ j => exact h j (by omega)

theorem prefix_drop_take (hne : pat ≠ []) :
    pat <+: (s.take n).drop k ↔ pat <+: s.drop k ∧ k + pat.length ≤ n := by
  have hpos := List.length_pos_iff.mpr hne
  rw [List.drop_take, List.prefix_take_iff]
  exact and_congr_right fun _ => by omega

theorem find_take (hne : pat ≠ []) :
    find pat (s.take n) = some k ↔ find pat s = some k ∧ k + pat.length ≤ n := by
  simp only [find_iff hne, prefix_drop_take hne]
  constructor
  · rintro ⟨⟨hpre, hle⟩, hfirst⟩
    exact ⟨⟨hpre, fun j hj h => hfirst j hj ⟨h, by omega⟩⟩, hle⟩
  · rintro ⟨⟨hpre, hfirst⟩, hle⟩
    exact ⟨⟨hpre, hle⟩, fun j hj h => hfirst j hj h.1⟩

theorem findFrom_take (hne : pat ≠ []) :
    findFrom pat (s.take n) pos = some k ↔ findFrom pat s pos = some k ∧ k + pat.length ≤ n := by
  have hpos := List.length_pos_iff.mpr hne
  simp only [findFrom, List.drop_take, Option.map_eq_some_iff, find_take hne]
  constructor
  · rintro ⟨j, ⟨hj, hle⟩, rfl⟩
    exact ⟨⟨j, hj, rfl⟩, by omega⟩
  · rintro ⟨⟨j, hj, rfl⟩, hle⟩
    exact ⟨j, ⟨hj, by omega⟩, rfl⟩

theorem find_occurs (hne : pat ≠ []) (h : find pat s = some k) : pat <+: s.drop k :=
  ((find_iff hne).mp h).1

theorem findFrom_occurs (hne : pat ≠ []) (h : findFrom pat s pos = some k) :
    pos ≤ k ∧ pat <+: s.drop k := by
  obtain ⟨j, hj, rfl⟩ := Option.map_eq_some_iff.mp h
  have hpre := find_occurs hne hj
  rw [List.drop_drop, Nat.add_comm] at hpre
  exact ⟨Nat.le_add_left pos j, hpre⟩

theorem behind_of_notMem (hpre : pat <+: s.drop pos) (hk : [c] <+: s.drop k) (hle : pos ≤ k)
    (hc : c ∉ pat) : pos + pat.length ≤ k := by
  by_contra hlt
  obtain ⟨i, rfl⟩ := Nat.exists_eq_add_of_le hle
  have hi : i < pat.length := by omega
  obtain ⟨more, hmore⟩ := hk
  have hat : s[pos + i]? = some c := by
    have := congrArg (·[0]?) hmore
    simpa using this.symm
  have hsame : pat[i]? = some c := by
    rw [List.prefix_iff_eq_take.mp hpre, List.getElem?_take_of_lt hi, List.getElem?_drop, hat]
  exact hc (List.mem_of_getElem? hsame)

structure HttpContext where
  parser_ : HttpParser := {}
  client_ : Option Nat := none
  deriving DecidableEq

namespace HttpContext

/-- The backend connection is let go when it was a response that ended. -/
def reset (c : HttpContext) : HttpContext :=
  { parser_ := c.parser_.reset
    client_ := if c.parser_.reset.isRequest then c.client_ else none }

def BoundRClient (c : HttpContext) (client : Nat) : HttpContext := { c with client_ := some client }

/-- The text between the quotes that follow the first `"model"` and a colon after it, in
what the buffer holds beyond the head. -/
def parseModelName (c : HttpContext) (buf : Bytes) : Bytes :=
  let body := buf.drop c.parser_.headerLen
  match find (ascii "\"model\"") body with
  | none => []
  | some pos => match findFrom (ascii ":") body pos with
    | none => []
    | some colon => match findFrom (ascii "\"") body colon with
      | none => []
      | some start_quote => match findFrom (ascii "\"") body (start_quote + 1) with
        | none => []
        | some end_quote => (body.drop (start_quote + 1)).take (end_quote - start_quote - 1)

/-- Where the name of the model begins and ends: after `"model"`, a colon and a quote, up to
the next quote. -/
def modelField (body : Bytes) : Option (Nat × Nat) := do
  let pos ← find (ascii "\"model\"") body
  let colon ← findFrom (ascii ":") body pos
  let start_quote ← findFrom (ascii "\"") body colon
  let end_quote ← findFrom (ascii "\"") body (start_quote + 1)
  return (start_quote + 1, end_quote)

theorem parseModelName_eq (c : HttpContext) (buf : Bytes) :
    c.parseModelName buf = match modelField (buf.drop c.parser_.headerLen) with
      | some (start, end_quote) =>
        ((buf.drop c.parser_.headerLen).drop start).take (end_quote - start)
      | none => [] := by
  unfold parseModelName modelField
  generalize buf.drop c.parser_.headerLen = body
  simp only [Option.bind_eq_bind, Option.pure_def]
  cases find (ascii "\"model\"") body with
  | none => rfl
  | some pos =>
    simp only [Option.bind_some]
    cases findFrom (ascii ":") body pos with
    | none => rfl
    | some colon =>
      simp only [Option.bind_some]
      cases findFrom (ascii "\"") body colon with
      | none => rfl
      | some start_quote =>
        simp only [Option.bind_some]
        cases findFrom (ascii "\"") body (start_quote + 1) with
        | none => rfl
        | some end_quote => simp only [Option.bind_some, Nat.sub_sub]

theorem modelField_iff {body : Bytes} {start end_quote : Nat} :
    modelField body = some (start, end_quote) ↔ ∃ pos colon start_quote,
      find (ascii "\"model\"") body = some pos ∧ findFrom (ascii ":") body pos = some colon ∧
      findFrom (ascii "\"") body colon = some start_quote ∧
      findFrom (ascii "\"") body (start_quote + 1) = some end_quote ∧ start = start_quote + 1 := by
  simp only [modelField, Option.bind_eq_bind, Option.bind_eq_some_iff, Option.pure_def,
    Option.some.injEq, Prod.mk.injEq]
  constructor
  · rintro ⟨pos, hpos, colon, hcolon, start_quote, hstart, _, hend, rfl, rfl⟩
    exact ⟨pos, colon, start_quote, hpos, hcolon, hstart, hend, rfl⟩
  · rintro ⟨pos, colon, start_quote, hpos, hcolon, hstart, hend, rfl⟩
    exact ⟨pos, hpos, colon, hcolon, start_quote, hstart, _, hend, rfl, rfl⟩

theorem modelField_bounds {body : Bytes} (h : modelField body = some (start, end_quote)) :
    start ≤ end_quote ∧ end_quote < body.length := by
  obtain ⟨pos, colon, start_quote, -, -, -, hend, rfl⟩ := modelField_iff.mp h
  obtain ⟨hle, hpre⟩ := findFrom_occurs (by decide) hend
  have hlen := hpre.length_le
  rw [List.length_drop] at hlen
  refine ⟨hle, ?_⟩
  have : (ascii "\"").length = 1 := rfl
  omega

/-- Bytes up to the second quote are enough, and all that is needed. -/
theorem modelField_take {body : Bytes} :
    modelField (body.take n) = some (start, end_quote) ↔
      modelField body = some (start, end_quote) ∧ end_quote < n := by
  have hquote : ascii "\"" ≠ [] := by decide
  have hcolon : ascii ":" ≠ [] := by decide
  have hmodel : ascii "\"model\"" ≠ [] := by decide
  have hlen : (ascii "\"").length = 1 ∧ (ascii ":").length = 1 := ⟨rfl, rfl⟩
  simp only [modelField_iff, find_take hmodel, findFrom_take hquote, findFrom_take hcolon, hlen]
  constructor
  · rintro ⟨pos, colon, start_quote, ⟨h1, -⟩, ⟨h2, -⟩, ⟨h3, -⟩, ⟨h4, hend⟩, rfl⟩
    exact ⟨⟨pos, colon, start_quote, h1, h2, h3, h4, rfl⟩, hend⟩
  · rintro ⟨⟨pos, colon, start_quote, h1, h2, h3, h4, rfl⟩, hend⟩
    obtain ⟨hle2, hpre2⟩ := findFrom_occurs hcolon h2
    obtain ⟨hle3, -⟩ := findFrom_occurs hquote h3
    obtain ⟨hle4, -⟩ := findFrom_occurs hquote h4
    -- The field has ended where the colon is found.
    have hpos := behind_of_notMem (find_occurs hmodel h1) hpre2 hle2 (by decide)
    exact ⟨pos, colon, start_quote, ⟨h1, by omega⟩, ⟨h2, by omega⟩, ⟨h3, by omega⟩,
      ⟨h4, by omega⟩, rfl⟩

end HttpContext

end VortexNet
