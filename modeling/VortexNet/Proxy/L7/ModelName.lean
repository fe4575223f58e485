import VortexNet.Lib.FlatJson
import VortexNet.Proxy.L7.HttpContext

/-!
# The model of a request

`parseModelName` looks for `"model"`, a colon and two quotes, in whatever the
buffer holds beyond the head. The body is a JSON object: the first `"model"`
need not be its key, what stands behind the colon need not be a string, and
what comes after the body is searched as well.
-/

namespace VortexNet

open FlatJson Picohttpparser

def modelKey : Bytes := ascii "model"

namespace HttpContext

-- ---------------------------------------------------------------------------
-- The condition
-- ---------------------------------------------------------------------------

def Quoted (t name : Bytes) : Prop :=
  ∃ a b c, t = a ++ colon :: (b ++ quote :: (name ++ quote :: c)) ∧ colon ∉ a ∧ quote ∉ b ∧
    quote ∉ name

def Says (t name : Bytes) : Prop := Quoted t name ∨ name = [] ∧ ∀ n, ¬ Quoted t n

def NamesNothing (more : Bytes) : Prop :=
  ∀ a t, more = a ++ (ascii "\"model\"" ++ t) →
    (∀ j < a.length, ¬ ascii "\"model\"" <+: more.drop j) → Says t []

/-- The first of these strings that is `model` is a key with a string for a value; or the text
behind it, with that of a next request, happens to say what the object says. -/
def NamedBy (o : Object) (more : Bytes) : List Member → Prop
  | [] => NamesNothing more
  | m :: ms =>
    if m.key.text = modelKey then match m.value with
      | .string _ => True
      | .literal t _ => Says (m.rest ++ (o.closing ms ++ more)) t
    else match m.value with
      | .string s =>
        if s.text = modelKey then
          Says (m.after.text ++ (o.closing ms ++ more)) ((o.get modelKey).getD [])
        else NamedBy o more ms
      | .literal _ _ => NamedBy o more ms

-- ---------------------------------------------------------------------------
-- Searches
-- ---------------------------------------------------------------------------

variable {s t a b n m : Bytes} {k pos : Nat}

theorem find_char (h : c ∉ a) : find [c] (a ++ c :: t) = some a.length := by
  induction a with
  | nil => simp [find]
  | cons x a ih =>
    rw [List.mem_cons, not_or] at h
    obtain ⟨hx, ha⟩ := h
    simp [find, hx, ih ha]

theorem find_char_none (h : c ∉ s) : find [c] s = none := by
  induction s with
  | nil => simp [find]
  | cons x s ih =>
    rw [List.mem_cons, not_or] at h
    obtain ⟨hx, hs⟩ := h
    simp [find, hx, ih hs]

theorem findFrom_char {before : Bytes} (hpos : before.length = pos) (h : c ∉ a) :
    findFrom [c] (before ++ (a ++ c :: t)) pos = some (pos + a.length) := by
  rw [findFrom, ← hpos, List.drop_left, find_char h, Option.map_some, Nat.add_comm]

theorem findFrom_char_none {before : Bytes} (hpos : before.length = pos) (h : c ∉ s) :
    findFrom [c] (before ++ s) pos = none := by
  rw [findFrom, ← hpos, List.drop_left, find_char_none h, Option.map_none]

def field (t : Bytes) : Bytes :=
  match modelField t with
  | some (start, end_quote) => (t.drop start).take (end_quote - start)
  | none => []

theorem find_model (t : Bytes) : find (ascii "\"model\"") (ascii "\"model\"" ++ t) = some 0 := by
  rw [find_iff (by decide)]
  exact ⟨⟨t, rfl⟩, fun j hj => absurd hj (Nat.not_lt_zero j)⟩

theorem colon_found (ha : colon ∉ a) :
    findFrom [colon] (ascii "\"model\"" ++ (a ++ colon :: t)) 0 = some (7 + a.length) := by
  have hpre : colon ∉ ascii "\"model\"" ++ a := by
    rw [List.mem_append, not_or]
    exact ⟨by decide, ha⟩
  rw [findFrom, List.drop_zero, ← List.append_assoc, find_char hpre, List.length_append]
  rfl

theorem quote_found (hb : quote ∉ b) :
    findFrom [quote] (ascii "\"model\"" ++ (a ++ colon :: (b ++ quote :: t))) (7 + a.length) =
      some (7 + a.length + (b.length + 1)) := by
  have hpre : quote ∉ colon :: b := by simpa [quote, colon] using hb
  have hlen : (ascii "\"model\"" ++ a).length = 7 + a.length := List.length_append
  have hfind := findFrom_char (t := t) hlen hpre
  rwa [List.append_assoc] at hfind

theorem behind_quote (a b t : Bytes) : ∃ before : Bytes,
    before.length = 7 + a.length + (b.length + 1) + 1 ∧
      ascii "\"model\"" ++ (a ++ colon :: (b ++ quote :: t)) = before ++ t := by
  refine ⟨ascii "\"model\"" ++ (a ++ colon :: (b ++ [quote])), ?_, ?_⟩
  · simp only [List.length_append, List.length_cons, List.length_nil]
    show 7 + _ = _
    omega
  · simp only [List.append_assoc, List.cons_append, List.nil_append]

theorem field_quoted (h : Quoted t n) : field (ascii "\"model\"" ++ t) = n := by
  obtain ⟨a, b, u, rfl, ha, hb, hn⟩ := h
  obtain ⟨before, hlen, htext⟩ := behind_quote a b (n ++ quote :: u)
  have hend := findFrom_char (t := u) hlen hn
  rw [← htext] at hend
  have hfield : modelField (ascii "\"model\"" ++ (a ++ colon :: (b ++ quote :: (n ++ quote :: u)))) =
      some (7 + a.length + (b.length + 1) + 1, 7 + a.length + (b.length + 1) + 1 + n.length) :=
    modelField_iff.mpr ⟨0, _, _, find_model _, colon_found ha, quote_found hb, hend, rfl⟩
  rw [field, hfield]
  dsimp only
  rw [htext, ← hlen, List.drop_left, Nat.add_sub_cancel_left, List.take_left]

theorem Quoted.unique (h : Quoted t n) (h' : Quoted t m) : n = m :=
  (field_quoted h).symm.trans (field_quoted h')

theorem field_nothing (h : ∀ n, ¬ Quoted t n) : field (ascii "\"model\"" ++ t) = [] := by
  have hmodel := find_model t
  have hchars : ascii ":" = [colon] ∧ ascii "\"" = [quote] := ⟨rfl, rfl⟩
  by_cases hcolon : colon ∈ t
  · obtain ⟨a, s, rfl, ha⟩ := List.eq_append_cons_of_mem hcolon
    by_cases hquote : quote ∈ s
    · obtain ⟨b, s, rfl, hb⟩ := List.eq_append_cons_of_mem hquote
      by_cases hend : quote ∈ s
      · obtain ⟨n, u, rfl, hn⟩ := List.eq_append_cons_of_mem hend
        exact absurd ⟨a, b, u, rfl, ha, hb, hn⟩ (h n)
      · obtain ⟨before, hlen, htext⟩ := behind_quote a b s
        have hnone := findFrom_char_none hlen hend
        rw [← htext] at hnone
        simp [field, modelField, hmodel, hchars, colon_found ha, quote_found hb, hnone]
    · have hnone : findFrom [quote] (ascii "\"model\"" ++ (a ++ colon :: s)) (7 + a.length) = none := by
        rw [← List.append_assoc]
        exact findFrom_char_none List.length_append (by simpa [quote, colon] using hquote)
      simp [field, modelField, hmodel, hchars, colon_found ha, hnone]
  · have hnone : findFrom [colon] (ascii "\"model\"" ++ t) 0 = none := by
      have hnot : colon ∉ ascii "\"model\"" ++ t := by
        rw [List.mem_append, not_or]
        exact ⟨by decide, hcolon⟩
      rw [findFrom, List.drop_zero, find_char_none hnot]
      rfl
    simp [field, modelField, hmodel, hchars, hnone]

theorem field_model : field (ascii "\"model\"" ++ t) = n ↔ Says t n := by
  by_cases h : ∃ m, Quoted t m
  · obtain ⟨m, hm⟩ := h
    rw [field_quoted hm]
    constructor
    · rintro rfl
      exact .inl hm
    · rintro (hn | ⟨-, hnot⟩)
      · exact hm.unique hn
      · exact absurd hm (hnot m)
  · rw [not_exists] at h
    rw [field_nothing h]
    constructor
    · rintro rfl
      exact .inr ⟨rfl, h⟩
    · rintro (hn | ⟨rfl, -⟩)
      · exact absurd hn (h n)
      · rfl

-- ---------------------------------------------------------------------------
-- What is passed over
-- ---------------------------------------------------------------------------

theorem field_skip (h : find (ascii "\"model\"") (a ++ t) =
    (find (ascii "\"model\"") t).map (· + a.length)) : field (a ++ t) = field t := by
  have hshift : ∀ pat pos, findFrom pat (a ++ t) (pos + a.length) =
      (findFrom pat t pos).map (· + a.length) := by
    intro pat pos
    have hdrop : (a ++ t).drop (pos + a.length) = t.drop pos := by
      rw [Nat.add_comm, ← List.drop_drop, List.drop_left]
    rw [findFrom, findFrom, hdrop, Option.map_map]
    simp only [Function.comp_def, Nat.add_assoc]
  have hfield : modelField (a ++ t) =
      (modelField t).map fun f => (f.1 + a.length, f.2 + a.length) := by
    simp only [modelField, h, Option.bind_eq_bind, Option.pure_def]
    cases find (ascii "\"model\"") t with
    | none => rfl
    | some pos =>
      simp only [Option.map_some, Option.bind_some, hshift]
      cases findFrom (ascii ":") t pos with
      | none => rfl
      | some colon =>
        simp only [Option.map_some, Option.bind_some, hshift]
        cases findFrom (ascii "\"") t colon with
        | none => rfl
        | some start_quote =>
          have hnext : start_quote + a.length + 1 = start_quote + 1 + a.length := by omega
          simp only [Option.map_some, Option.bind_some, hnext, hshift]
          cases findFrom (ascii "\"") t (start_quote + 1) <;> rfl
  rw [field, field, hfield]
  cases modelField t with
  | none => rfl
  | some f =>
    have hdrop : (a ++ t).drop (f.1 + a.length) = t.drop f.1 := by
      rw [Nat.add_comm, ← List.drop_drop, List.drop_left]
    simp only [Option.map_some, hdrop, Nat.add_sub_add_right]

theorem find_noQuote (h : quote ∉ a) : find (ascii "\"model\"") (a ++ t) =
    (find (ascii "\"model\"") t).map (· + a.length) := by
  induction a with
  | nil => simp
  | cons x a ih =>
    rw [List.mem_cons, not_or] at h
    have hnot : (ascii "\"model\"").isPrefixOf (x :: (a ++ t)) = false := by
      show (quote == x && _) = false
      rw [beq_eq_false_iff_ne.mpr h.1, Bool.false_and]
    rw [List.cons_append, find, hnot, ih h.2]
    simp [Option.map_map, Function.comp_def, Nat.add_assoc]

theorem find_string (hs : quote ∉ s) (hne : s ≠ modelKey) (ht : t.head? ≠ some 109) :
    find (ascii "\"model\"") ((quote :: (s ++ [quote])) ++ t) =
      (find (ascii "\"model\"") t).map (· + (quote :: (s ++ [quote])).length) := by
  have hopen : (ascii "\"model\"").isPrefixOf (quote :: (s ++ quote :: t)) = false := by
    refine Bool.eq_false_iff.mpr fun hpre => ?_
    obtain ⟨r, hr⟩ := List.isPrefixOf_iff_prefix.mp hpre
    have hr : modelKey ++ quote :: r = s ++ quote :: t := (List.cons.inj hr).2
    -- the first quote ends both
    have hlen := congrArg (find [quote]) hr
    rw [find_char (by decide), find_char hs, Option.some.injEq] at hlen
    exact hne (List.append_inj_left hr hlen).symm
  have hclose : (ascii "\"model\"").isPrefixOf (quote :: t) = false := by
    refine Bool.eq_false_iff.mpr fun hpre => ?_
    obtain ⟨r, hr⟩ := List.isPrefixOf_iff_prefix.mp hpre
    have hr : modelKey ++ quote :: r = t := (List.cons.inj hr).2
    exact ht (hr ▸ rfl)
  have htext : (quote :: (s ++ [quote])) ++ t = quote :: (s ++ quote :: t) := by simp
  rw [htext, find, hopen, if_neg Bool.false_ne_true, find_noQuote hs, find, hclose,
    if_neg Bool.false_ne_true]
  simp only [Option.map_map, Function.comp_def, List.length_cons, List.length_append,
    List.length_nil]
  congr 1
  funext k
  omega

-- ---------------------------------------------------------------------------
-- The members one after the other
-- ---------------------------------------------------------------------------

variable {o : Object} {ms : List Member} {more : Bytes}

theorem field_noQuote (h : quote ∉ a) : field (a ++ t) = field t := field_skip (find_noQuote h)

theorem field_string (hs : quote ∉ s) (hne : s ≠ modelKey) (ht : t.head? ≠ some 109) :
    field (quote :: (s ++ quote :: t)) = field t := by
  have h := field_skip (find_string hs hne ht)
  simpa using h

theorem head_blank (b : Blank) (hx : x ≠ 109) : (b.text ++ x :: t).head? ≠ some 109 := by
  cases hb : b.text with
  | nil => simpa using hx
  | cons c cs =>
    intro h
    have hc : c = 109 := Option.some.inj h
    exact b.not_mem (c := 109) rfl (hb ▸ hc ▸ List.mem_cons_self)

theorem closing_cons (o : Object) (ms : List Member) : ∃ x t, o.closing ms = x :: t ∧ x ≠ 109 ∧
    x ≠ quote := by
  cases ms with
  | nil => exact ⟨closeBrace, _, rfl, by decide, by decide⟩
  | cons m ms => exact ⟨comma, _, rfl, by decide, by decide⟩

theorem field_member {m : Member} (hkey : m.key.text = modelKey →
      (o.get modelKey).getD [] = m.value.said)
    (ih : m.key.text ≠ modelKey →
      (field (o.closing ms ++ more) = (o.get modelKey).getD [] ↔ NamedBy o more ms)) :
    field (m.text ++ (o.closing ms ++ more)) = (o.get modelKey).getD [] ↔
      NamedBy o more (m :: ms) := by
  have hmember : m.text ++ (o.closing ms ++ more) =
      m.before.text ++ quote :: (m.key.text ++ quote :: (m.rest ++ (o.closing ms ++ more))) := by
    simp [Member.text]
  have hrest : m.rest ++ (o.closing ms ++ more) = m.mid.text ++ colon :: (m.ahead.text ++
      (m.value.text ++ (m.after.text ++ (o.closing ms ++ more)))) := by
    simp [Member.rest]
  rw [hmember, field_noQuote (m.before.not_mem rfl)]
  simp only [NamedBy]
  by_cases hk : m.key.text = modelKey
  · have hmodel : quote :: (m.key.text ++ quote :: (m.rest ++ (o.closing ms ++ more))) =
        ascii "\"model\"" ++ (m.rest ++ (o.closing ms ++ more)) := by
      rw [hk]
      rfl
    rw [hmodel, field_model, hkey hk, if_pos hk, hrest]
    cases m.value with
    | string s =>
      refine iff_of_true (.inl ⟨m.mid.text, m.ahead.text, m.after.text ++ (o.closing ms ++ more),
        ?_, m.mid.not_mem rfl, m.ahead.not_mem rfl, s.quote_not_mem⟩) trivial
      simp [Value.text, Value.said]
    | literal t h => exact Iff.rfl
  · have hhead : (m.rest ++ (o.closing ms ++ more)).head? ≠ some 109 := by
      rw [hrest]
      exact head_blank _ (by decide)
    have hsep : quote ∉ m.mid.text ++ colon :: m.ahead.text := by
      simp only [List.mem_append, List.mem_cons, not_or]
      exact ⟨m.mid.not_mem rfl, by decide, m.ahead.not_mem rfl⟩
    have hvalue : m.rest ++ (o.closing ms ++ more) = (m.mid.text ++ colon :: m.ahead.text) ++
        (m.value.text ++ (m.after.text ++ (o.closing ms ++ more))) := by
      simp [Member.rest]
    have hafter : field (m.after.text ++ (o.closing ms ++ more)) = (o.get modelKey).getD [] ↔
        NamedBy o more ms := by
      rw [field_noQuote (m.after.not_mem rfl)]
      exact ih hk
    rw [field_string m.key.quote_not_mem hk hhead, hvalue, field_noQuote hsep, if_neg hk]
    cases m.value with
    | literal t h =>
      rw [Value.text, field_noQuote h.quote_not_mem]
      exact hafter
    | string s =>
      have hstring : (Value.string s).text ++ (m.after.text ++ (o.closing ms ++ more)) =
          quote :: (s.text ++ quote :: (m.after.text ++ (o.closing ms ++ more))) := by
        simp [Value.text]
      rw [hstring]
      dsimp only
      by_cases hs : s.text = modelKey
      · have hmodel : quote :: (s.text ++ quote :: (m.after.text ++ (o.closing ms ++ more))) =
            ascii "\"model\"" ++ (m.after.text ++ (o.closing ms ++ more)) := by
          rw [hs]
          rfl
        rw [hmodel, field_model, if_pos hs]
      · have hnext : (m.after.text ++ (o.closing ms ++ more)).head? ≠ some 109 := by
          obtain ⟨x, t, hclosing, hx, -⟩ := closing_cons o ms
          rw [hclosing]
          exact head_blank _ hx
        rw [field_string s.quote_not_mem hs hnext, if_neg hs]
        exact hafter

theorem find_none (hne : pat ≠ []) (h : find pat s = none) (k : Nat) : ¬ pat <+: s.drop k := by
  intro hk
  have hex : ∃ k, pat <+: s.drop k := ⟨k, hk⟩
  classical
  have hfirst := (find_iff hne).mpr ⟨Nat.find_spec hex, fun j hj => Nat.find_min hex hj⟩
  exact Option.some_ne_none _ (hfirst.symm.trans h)

theorem field_more : field more = [] ↔ NamesNothing more := by
  cases hfind : find (ascii "\"model\"") more with
  | none =>
    have hfield : field more = [] := by simp [field, modelField, hfind]
    refine iff_of_true hfield fun a t hmore _ => ?_
    refine absurd ⟨t, ?_⟩ (find_none (by decide) hfind a.length)
    rw [hmore, List.drop_left]
  | some k =>
    obtain ⟨⟨t, ht⟩, hfirst⟩ := (find_iff (by decide)).mp hfind
    have hk : k ≤ more.length := by
      by_contra hk
      rw [List.drop_eq_nil_of_le (by omega)] at ht
      exact absurd (congrArg List.length ht) (by simp [ascii])
    have hmore : more = more.take k ++ (ascii "\"model\"" ++ t) := by
      rw [ht, List.take_append_drop]
    have hlen : (more.take k).length = k := List.length_take_of_le hk
    have hskip : field more = field (ascii "\"model\"" ++ t) := by
      rw [hmore]
      refine field_skip ?_
      rw [← hmore, hfind, find_model, hlen, Option.map_some, Nat.zero_add]
    rw [hskip, field_model]
    constructor
    · intro hsays a u hau ha
      have hsame : a.length = k := by
        rcases Nat.lt_trichotomy a.length k with hlt | heq | hgt
        · exact absurd ⟨u, by rw [hau, List.drop_left]⟩ (hfirst a.length hlt)
        · exact heq
        · exact absurd ⟨t, ht⟩ (ha k hgt)
      have hu := congrArg (List.drop k) hau
      rw [← ht, ← hsame, List.drop_left] at hu
      exact List.append_cancel_left hu ▸ hsays
    · intro hnothing
      exact hnothing _ t hmore fun j hj => hfirst j (hlen ▸ hj)

theorem field_closing (hget : (o.get modelKey).getD [] =
      ((ms.find? (·.key.text = modelKey)).map (·.value.said)).getD []) :
    field (o.closing ms ++ more) = (o.get modelKey).getD [] ↔ NamedBy o more ms := by
  induction ms with
  | nil =>
    have hquote : quote ∉ o.closing [] := by
      simp only [Object.closing, List.mem_cons, not_or]
      exact ⟨by decide, o.after.not_mem rfl⟩
    rw [field_noQuote hquote, hget]
    exact field_more
  | cons m ms ih =>
    have hcomma : o.closing (m :: ms) ++ more = [comma] ++ (m.text ++ (o.closing ms ++ more)) := by
      simp [Object.closing]
    rw [hcomma, field_noQuote (by decide)]
    refine field_member (fun hk => ?_) fun hk => ih ?_
    · simpa [hk] using hget
    · simpa [hk] using hget

end HttpContext

open HttpContext

/-- For a flat object as the body, with more bytes behind it, the name is what the object says of
its key `model` just where that is what the first `"model"` leads to. -/
theorem parseModelName_object (o : Object) {c : HttpContext} {buf more : Bytes}
    (hbuf : buf.drop c.parser_.headerLen = o.text ++ more) :
    c.parseModelName buf = (o.get modelKey).getD [] ↔ NamedBy o more o.members := by
  have hfield : c.parseModelName buf = field (o.text ++ more) := by
    rw [parseModelName_eq, hbuf]
    rfl
  have hopen : quote ∉ o.before.text ++ [openBrace] := by
    rw [List.mem_append, not_or]
    exact ⟨o.before.not_mem rfl, by decide⟩
  rw [hfield]
  cases hm : o.members with
  | nil =>
    have htext : o.text ++ more = (o.before.text ++ [openBrace]) ++
        (o.inside.text ++ (o.closing [] ++ more)) := by
      simp [Object.text, hm]
    rw [htext, field_noQuote hopen, field_noQuote (o.inside.not_mem rfl)]
    exact field_closing (by rw [Object.get, hm])
  | cons m ms =>
    have htext : o.text ++ more = (o.before.text ++ [openBrace]) ++
        (m.text ++ (o.closing ms ++ more)) := by
      simp [Object.text, hm]
    rw [htext, field_noQuote hopen]
    refine field_member (fun hk => ?_) fun hk => field_closing ?_
    · simp [Object.get, hm, hk]
    · simp [Object.get, hm, hk]

/-- The context of a client whose buffer has a request at the front. -/
def contextOf (buf : Bytes) : HttpContext := { parser_ := (({} : HttpParser).parseRequest buf).2.1 }

def chatObject : Object where
  members := [{ key := ⟨ascii "stream", by decide⟩, value := .literal _ .true },
    { key := ⟨ascii "model", by decide⟩, value := .string ⟨ascii "qwen2.5:1.5b", by decide⟩ }]
  distinct := by decide

/-- A request with this body, and the beginning of the next one. -/
def chatRequest : Bytes := ascii "POST /v1 HTTP/1.1\r\nContent-Length: 38\r\n\r\n" ++
  (chatObject.text ++ ascii "POST /v1")

theorem parseModelName_object_chat :
    (contextOf chatRequest).parseModelName chatRequest = ascii "qwen2.5:1.5b" := by
  have hbuf : chatRequest.drop (contextOf chatRequest).parser_.headerLen =
      chatObject.text ++ ascii "POST /v1" := by decide +kernel
  exact (parseModelName_object chatObject hbuf).mpr trivial

/-- `model` is the value of another key, and the object has no key `model`. -/
def roleObject : Object where
  members := [{ key := ⟨ascii "role", by decide⟩, value := .string ⟨ascii "model", by decide⟩ },
    { key := ⟨ascii "id", by decide⟩, value := .string ⟨ascii "7", by decide⟩ }]
  distinct := by decide

def roleRequest : Bytes :=
  ascii "POST /v1 HTTP/1.1\r\nContent-Length: 25\r\n\r\n" ++ roleObject.text

theorem not_parseModelName_object : ¬ ∀ (o : Object) (c : HttpContext) (buf more : Bytes),
    buf.drop c.parser_.headerLen = o.text ++ more →
      c.parseModelName buf = (o.get modelKey).getD [] := by
  intro h
  have hbuf : roleRequest.drop (contextOf roleRequest).parser_.headerLen =
      roleObject.text ++ [] := by decide +kernel
  have hname : (contextOf roleRequest).parseModelName roleRequest = ascii "7" := by decide +kernel
  have hnone := h roleObject (contextOf roleRequest) roleRequest [] hbuf
  rw [hname] at hnone
  exact absurd hnone (by decide)

end VortexNet
