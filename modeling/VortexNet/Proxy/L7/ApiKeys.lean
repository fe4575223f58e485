import Mathlib.Data.Set.Insert
import VortexNet.Proxy.L7.ApiKeyAuth

/-!
# Which headers are let in

The key vector stands for the set that the calls describe, and `authenticate`
decides membership in it (`authenticate_refines`). The grammar of a header that
is let in is the documented one but for the blank after the scheme, which
`extractToken` does not ask for (`authenticate_grammar`).
-/

namespace VortexNet.ApiKeyAuthenticator

open Picohttpparser
open SortedSets (Increasing)

-- ---------------------------------------------------------------------------
-- The set of keys
-- ---------------------------------------------------------------------------

inductive Op
  | load (keys : List Bytes)
  | addKey (key : Bytes)
  | removeKey (key : Bytes)
  deriving DecidableEq

def run (a : ApiKeyAuthenticator) : Op → ApiKeyAuthenticator
  | .load keys => load keys
  | .addKey key => a.addKey key
  | .removeKey key => a.removeKey key

/-- What the calls mean. -/
def Op.apply (s : Set Bytes) : Op → Set Bytes
  | .load keys => {key | key ∈ keys}
  | .addKey key => insert key s
  | .removeKey key => s \ {key}

structure Represents (a : ApiKeyAuthenticator) (s : Set Bytes) : Prop where
  increasing : Increasing a.keys_
  mem : ∀ key, key ∈ a.keys_ ↔ key ∈ s

variable {a : ApiKeyAuthenticator} {s : Set Bytes} {key h : Bytes} {keys : List Bytes}

theorem represents_load (keys : List Bytes) : Represents (load keys) {key | key ∈ keys} where
  increasing := SortedSets.increasing_ofList keys
  mem _ := SortedSets.mem_ofList

theorem Represents.addKey (hr : Represents a s) (key : Bytes) :
    Represents (a.addKey key) (insert key s) where
  increasing := hr.increasing.insert key
  mem other := by
    rw [ApiKeyAuthenticator.addKey, SortedSets.mem_insert hr.increasing, hr.mem, Set.mem_insert_iff]

theorem Represents.removeKey (hr : Represents a s) (key : Bytes) :
    Represents (a.removeKey key) (s \ {key}) where
  increasing := hr.increasing.sublist List.filter_sublist
  mem other := by
    rw [ApiKeyAuthenticator.removeKey, List.mem_filter, hr.mem]
    simp

theorem Represents.run (hr : Represents a s) (op : Op) : Represents (a.run op) (op.apply s) := by
  cases op with
  | load keys => exact represents_load keys
  | addKey key => exact hr.addKey key
  | removeKey key => exact hr.removeKey key

theorem Represents.foldl (hr : Represents a s) (ops : List Op) :
    Represents (ops.foldl ApiKeyAuthenticator.run a) (ops.foldl Op.apply s) := by
  induction ops generalizing a s with
  | nil => exact hr
  | cons op ops ih => exact ih (hr.run op)

theorem represents_empty : Represents {} ∅ := ⟨List.Pairwise.nil, by simp⟩

theorem Represents.binary_search_iff (hr : Represents a s) :
    binary_search a.keys_ key = true ↔ key ∈ s := by
  rw [← hr.mem, ← SortedSets.find?_not_below hr.increasing, binary_search]
  cases a.keys_.find? fun k => !decide (k < key) with
  | none => simp
  | some k => simp

theorem Represents.authenticate_iff (hr : Represents a s) :
    a.authenticateValue h = true ↔ extractToken h ≠ [] ∧ extractToken h ∈ s := by
  rw [authenticateValue]
  split
  · rename_i hnil
    simp [hnil]
  · rename_i hne
    rw [hr.binary_search_iff]
    exact (and_iff_right hne).symm

/-- After any calls the vector is strictly increasing, and a header is let in when its token is
in the set that the calls describe. -/
theorem authenticate_refines (ops : List Op) :
    Increasing (ops.foldl run {}).keys_ ∧
    ∀ auth_header_value, (ops.foldl run {}).authenticateValue auth_header_value = true ↔
      extractToken auth_header_value ≠ [] ∧
        extractToken auth_header_value ∈ ops.foldl Op.apply ∅ := by
  have hr := represents_empty.foldl ops
  exact ⟨hr.increasing, fun h => hr.authenticate_iff⟩

-- ---------------------------------------------------------------------------
-- Trimming
-- ---------------------------------------------------------------------------

def Blank (l : Bytes) : Prop := ∀ c ∈ l, isSpace c = true

structure Trimmed (t : Bytes) : Prop where
  ne_nil : t ≠ []
  starts : ∀ c ∈ t.head?, isSpace c = false
  ends : ∀ c ∈ t.getLast?, isSpace c = false

variable {before sep sep' t t' after : Bytes}

theorem dropWhile_blank (hb : Blank before) (ht : t ≠ []) (hs : ∀ c ∈ t.head?, isSpace c = false) :
    (before ++ t).dropWhile isSpace = t := by
  rw [List.dropWhile_append_of_pos hb]
  cases t with
  | nil => exact absurd rfl ht
  | cons c t => exact List.dropWhile_cons_of_neg (by simp [hs c rfl])

theorem takeWhile_blank (hb : Blank before) (ht : t ≠ [])
    (hs : ∀ c ∈ t.head?, isSpace c = false) : (before ++ t).takeWhile isSpace = before := by
  rw [List.takeWhile_append_of_pos hb]
  cases t with
  | nil => exact absurd rfl ht
  | cons c t => rw [List.takeWhile_cons_of_neg (by simp [hs c rfl]), List.append_nil]

theorem trimLeft_blank (hb : Blank before) (ht : t ≠ [])
    (hs : ∀ c ∈ t.head?, isSpace c = false) : trimLeft (before ++ t) = t :=
  dropWhile_blank hb ht hs

theorem Trimmed.trimRight (ht : Trimmed t) (hb : Blank after) : trimRight (t ++ after) = t := by
  have hrev : (after.reverse ++ t.reverse).dropWhile isSpace = t.reverse := by
    refine dropWhile_blank ?_ (by simp [ht.ne_nil]) ?_
    · intro c hc
      exact hb c (List.mem_reverse.mp hc)
    · rw [List.head?_reverse]
      exact ht.ends
  rw [ApiKeyAuthenticator.trimRight, List.reverse_append, hrev, List.reverse_reverse]

theorem trimLeft_split (s : Bytes) : ∃ before, Blank before ∧ s = before ++ trimLeft s :=
  ⟨s.takeWhile isSpace, fun _ hc => List.mem_takeWhile_imp hc,
    List.takeWhile_append_dropWhile.symm⟩

theorem trimRight_split (s : Bytes) : ∃ after, Blank after ∧ s = trimRight s ++ after := by
  obtain ⟨before, hb, hs⟩ := trimLeft_split s.reverse
  refine ⟨before.reverse, fun c hc => hb c (List.mem_reverse.mp hc), ?_⟩
  have hrev := congrArg List.reverse hs
  rwa [List.reverse_reverse, List.reverse_append] at hrev

theorem head_dropWhile (s : Bytes) : ∀ c ∈ (s.dropWhile isSpace).head?, isSpace c = false := by
  intro c hc
  have hnot := List.head?_dropWhile_not isSpace s
  rw [hc] at hnot
  exact hnot

theorem head_append (ht : t ≠ []) : (t ++ after).head? = t.head? := by
  cases t with
  | nil => exact absurd rfl ht
  | cons c t => rfl

theorem trimmed_trimRight {text : Bytes} (hne : trimRight (trimLeft text) ≠ []) :
    Trimmed (trimRight (trimLeft text)) := by
  refine ⟨hne, fun c hc => ?_, fun c hc => ?_⟩
  · obtain ⟨after, -, hs⟩ := trimRight_split (trimLeft text)
    refine head_dropWhile text c ?_
    rw [← trimLeft, hs, head_append hne]
    exact hc
  · rw [ApiKeyAuthenticator.trimRight, List.getLast?_reverse] at hc
    exact head_dropWhile _ c hc

-- ---------------------------------------------------------------------------
-- The grammar
-- ---------------------------------------------------------------------------

/-- Optional blanks, a spelling of Bearer, the blanks `sep`, the token and optional blanks. -/
def Reads (h sep token : Bytes) : Prop :=
  ∃ before scheme after, h = before ++ (scheme ++ (sep ++ (token ++ after))) ∧
    Blank before ∧ scheme.map toLower = kScheme ∧ Blank sep ∧ Blank after

/-- A header that the grammar allows. -/
def Grammar (keys : List Bytes) (h : Bytes) : Prop :=
  ∃ sep key, Reads h sep key ∧ sep ≠ [] ∧ Trimmed key ∧ key ∈ keys

/-- A header whose key follows the scheme with no blank between. -/
def Glued (keys : List Bytes) (h : Bytes) : Prop :=
  ∃ key, Reads h [] key ∧ Trimmed key ∧ key ∈ keys

theorem length_scheme {scheme : Bytes} (h : scheme.map toLower = kScheme) : scheme.length = 6 := by
  rw [← List.length_map (f := toLower), h]
  rfl

theorem scheme_starts {scheme : Bytes} (rest : Bytes) (h : scheme.map toLower = kScheme) :
    scheme ++ rest ≠ [] ∧ ∀ c ∈ (scheme ++ rest).head?, isSpace c = false := by
  cases scheme with
  | nil => exact absurd (length_scheme h) (by decide)
  | cons x scheme =>
    refine ⟨List.cons_ne_nil _ _, ?_⟩
    rintro c ⟨⟩
    have hx : toLower x = 98 := (List.cons.inj (h.trans (show kScheme = 98 :: _ from rfl))).1
    cases hsp : isSpace x with
    | false => rfl
    | true =>
      rw [isSpace, decide_eq_true_eq] at hsp
      rcases hsp with rfl | rfl
      · exact absurd hx (by decide)
      · exact absurd hx (by decide)

theorem Reads.split (hr : Reads h sep t) : ∃ scheme after, trimLeft h = scheme ++ (sep ++ (t ++ after)) ∧
    scheme.map toLower = kScheme ∧ Blank sep ∧ Blank after := by
  obtain ⟨before, scheme, after, rfl, hb, hscheme, hsep, hafter⟩ := hr
  obtain ⟨hne, hstarts⟩ := scheme_starts (sep ++ (t ++ after)) hscheme
  exact ⟨scheme, after, trimLeft_blank hb hne hstarts, hscheme, hsep, hafter⟩

theorem Trimmed.head?_append (ht : Trimmed t) (after : Bytes) :
    t ++ after ≠ [] ∧ ∀ c ∈ (t ++ after).head?, isSpace c = false := by
  refine ⟨List.append_ne_nil_of_left_ne_nil ht.ne_nil _, ?_⟩
  rw [head_append ht.ne_nil]
  exact ht.starts

theorem Reads.extractToken (hr : Reads h sep t) (ht : Trimmed t) : extractToken h = t := by
  obtain ⟨scheme, after, hh, hscheme, hsep, hafter⟩ := hr.split
  have hlen := length_scheme hscheme
  have hk : kScheme.length = 6 := rfl
  obtain ⟨hne, hstarts⟩ := ht.head?_append after
  rw [ApiKeyAuthenticator.extractToken, hh, if_neg, if_neg, hk, List.drop_left' hlen,
    trimLeft_blank hsep hne hstarts, ht.trimRight hafter]
  · rw [hk, List.take_left' hlen, hscheme]
    exact fun h => h rfl
  · rw [List.length_append, hlen, hk]
    omega

theorem reads_extractToken (hne : ApiKeyAuthenticator.extractToken h ≠ []) :
    ∃ sep, Reads h sep (ApiKeyAuthenticator.extractToken h) ∧
      Trimmed (ApiKeyAuthenticator.extractToken h) := by
  unfold ApiKeyAuthenticator.extractToken at hne ⊢
  dsimp only at hne ⊢
  split at hne
  · exact absurd rfl hne
  · split at hne
    · exact absurd rfl hne
    · rename_i hlen hscheme
      rw [if_neg hlen, if_neg hscheme]
      obtain ⟨before, hb, hh⟩ := trimLeft_split h
      obtain ⟨sep, hsep, hrest⟩ := trimLeft_split ((trimLeft h).drop kScheme.length)
      obtain ⟨after, hafter, htoken⟩ :=
        trimRight_split (trimLeft ((trimLeft h).drop kScheme.length))
      refine ⟨sep, ⟨before, (trimLeft h).take kScheme.length, after, ?_, hb,
        not_not.mp hscheme, hsep, hafter⟩, trimmed_trimRight hne⟩
      rw [← htoken, ← hrest, List.take_append_drop]
      exact hh

/-- One header does not spell a token both with and without blanks before it. -/
theorem Reads.sep_unique (hr : Reads h sep t) (hr' : Reads h sep' t') (ht : Trimmed t)
    (ht' : Trimmed t') : sep = sep' := by
  obtain ⟨scheme, after, hh, hscheme, hsep, -⟩ := hr.split
  obtain ⟨scheme', after', hh', hscheme', hsep', -⟩ := hr'.split
  have hlen : scheme.length = scheme'.length :=
    (length_scheme hscheme).trans (length_scheme hscheme').symm
  obtain ⟨-, hrest⟩ := List.append_inj (hh.symm.trans hh') hlen
  obtain ⟨hne, hstarts⟩ := ht.head?_append after
  obtain ⟨hne', hstarts'⟩ := ht'.head?_append after'
  rw [← takeWhile_blank hsep hne hstarts, hrest, takeWhile_blank hsep' hne' hstarts']

/-- A header is let in when it spells a configured key, with or without the blank. -/
theorem authenticate_load : (load keys).authenticateValue h = true ↔
    Grammar keys h ∨ Glued keys h := by
  rw [(represents_load keys).authenticate_iff]
  constructor
  · rintro ⟨hne, hmem⟩
    obtain ⟨sep, hr, ht⟩ := reads_extractToken hne
    cases sep with
    | nil => exact Or.inr ⟨_, hr, ht, hmem⟩
    | cons c sep => exact Or.inl ⟨_, _, hr, List.cons_ne_nil _ _, ht, hmem⟩
  · rintro (⟨sep, key, hr, -, ht, hmem⟩ | ⟨key, hr, ht, hmem⟩)
    · rw [hr.extractToken ht]
      exact ⟨ht.ne_nil, hmem⟩
    · rw [hr.extractToken ht]
      exact ⟨ht.ne_nil, hmem⟩

/-- `authenticate` decides the grammar on the headers that do not glue a key to the scheme, and
on no others. -/
theorem authenticate_grammar (keys : List Bytes) (h : Bytes) :
    ((load keys).authenticateValue h = true ↔ Grammar keys h) ↔ ¬ Glued keys h := by
  rw [authenticate_load, or_iff_left_iff_imp]
  constructor
  · rintro himp hglued
    obtain ⟨sep, key, hr, hsep, ht, -⟩ := himp hglued
    obtain ⟨key', hr', ht', -⟩ := hglued
    exact hsep (hr.sep_unique hr' ht ht')
  · exact fun hnot hglued => absurd hglued hnot

/-- `bearer` and a key in one word. -/
theorem not_authenticate_grammar :
    (load [ascii "k1"]).authenticateValue (ascii "Bearerk1") = true ∧
    ¬ Grammar [ascii "k1"] (ascii "Bearerk1") := by
  have hglued : Glued [ascii "k1"] (ascii "Bearerk1") :=
    ⟨ascii "k1", ⟨[], ascii "Bearer", [], rfl, nofun, by decide, nofun, nofun⟩,
      ⟨by decide, by rintro _ ⟨⟩; rfl, by rintro _ ⟨⟩; rfl⟩, by decide⟩
  refine ⟨authenticate_load.mpr (Or.inr hglued), ?_⟩
  rintro ⟨sep, key, hr, hsep, ht, -⟩
  obtain ⟨key', hr', ht', -⟩ := hglued
  exact hsep (hr.sep_unique hr' ht ht')

end VortexNet.ApiKeyAuthenticator
