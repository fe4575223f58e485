import Mathlib.Data.Finset.Card
import VortexNet.Lib.Reach

/-!
# Copy on write

The parts of one object are behind counted references, under one mutex. A
reader copies the reference of a part under the mutex and lets go of it at any
time. A writer writes to a part in place when the count says that nobody else
refers to it, and to a copy of it otherwise. What a reader holds then stays as
it was, and the parts hold what the calls make of them one after the other, in
the order in which they had the mutex.
-/

namespace CopyOnWrite

open Systems (Reach Always)

variable {ι : Type u} [DecidableEq ι] {C : ι → Type v} {ω : Type w}

-- ---------------------------------------------------------------------------
-- What a call makes of the parts
-- ---------------------------------------------------------------------------

inductive Instr (C : ι → Type v)
  /-- `if(p.use_count() > 1) p.reset(new T(*p));` -/
  | detach (i : ι)
  /-- One change in place. -/
  | write (i : ι) (f : C i → C i)
  /-- `p.reset(new T(content));` -/
  | replace (i : ι) (content : C i)

def Instr.apply (cs : ∀ i, C i) : Instr C → ∀ i, C i
  | .detach _ => cs
  | .write i f => Function.update cs i (f (cs i))
  | .replace i content => Function.update cs i content

def apply (cs : ∀ i, C i) (l : List (Instr C)) : ∀ i, C i := l.foldl Instr.apply cs

def replay (program : ω → List (Instr C)) (cs : ∀ i, C i) (ops : List ω) : ∀ i, C i :=
  ops.foldl (fun cs op => apply cs (program op)) cs

def Instr.Owns (i : ι) : Instr C → Prop
  | .detach j => j = i
  | .write _ _ => False
  | .replace j _ => j = i

def Owned (l : List (Instr C)) (i : ι) : Prop := ∃ ins ∈ l, ins.Owns i

def Guarded (l : List (Instr C)) : Prop :=
  ∀ done i f rest, l = done ++ Instr.write i f :: rest → Owned done i

omit [DecidableEq ι] in
theorem guarded_nil : Guarded ([] : List (Instr C)) := by
  intro done i f rest h
  cases done <;> cases h

omit [DecidableEq ι] in
theorem guarded_replace (i : ι) (content : C i) : Guarded [Instr.replace i content] := by
  intro done j f rest h
  cases done with
  | nil => cases h
  | cons ins done =>
    simp only [List.cons_append, List.cons.injEq] at h
    exact absurd h.2.symm (by simp)

omit [DecidableEq ι] in
theorem Guarded.detach {l : List (Instr C)} (h : Guarded l) {ws : List (Instr C)}
    (hws : ∀ ins ∈ ws, ∃ f, ins = Instr.write i f) : Guarded (l ++ .detach i :: ws) := by
  intro done j f rest heq
  rcases List.append_eq_append_iff.mp heq with ⟨mid, hdone, hmid⟩ | ⟨mid, hl, hmid⟩
  · cases mid with
    | nil => cases hmid
    | cons ins mid =>
      simp only [List.cons_append, List.cons.injEq] at hmid
      obtain ⟨rfl, hmid⟩ := hmid
      obtain ⟨f', hf⟩ := hws (.write j f) (hmid ▸ by simp)
      cases hf
      exact ⟨.detach i, by simp [hdone], rfl⟩
  · cases mid with
    | nil => cases hmid
    | cons ins mid =>
      simp only [List.cons_append, List.cons.injEq] at hmid
      obtain ⟨rfl, -⟩ := hmid
      exact h done j f mid hl

theorem apply_append (cs : ∀ i, C i) (l l' : List (Instr C)) :
    apply cs (l ++ l') = apply (apply cs l) l' :=
  List.foldl_append

theorem apply_writes {κ : Type} (cs : ∀ i, C i) (i : ι) (f : C i → κ → C i) (l : List κ) :
    apply cs (l.map fun k => .write i (f · k)) = Function.update cs i (l.foldl f (cs i)) := by
  induction l generalizing cs with
  | nil => exact (Function.update_eq_self i cs).symm
  | cons k l ih =>
    show apply (Function.update cs i (f (cs i) k)) _ = _
    rw [ih, Function.update_self, Function.update_idem]
    rfl

theorem replay_append (program : ω → List (Instr C)) (cs : ∀ i, C i) (ops : List ω) (op : ω) :
    replay program cs (ops ++ [op]) = apply (replay program cs ops) (program op) := by
  rw [replay, List.foldl_append]
  rfl

omit [DecidableEq ι] in
theorem Owned.append {l : List (Instr C)} (h : Owned l i) (l' : List (Instr C)) :
    Owned (l ++ l') i := by
  obtain ⟨ins, hm, ho⟩ := h
  exact ⟨ins, List.mem_append_left _ hm, ho⟩

omit [DecidableEq ι] in
theorem owned_concat {l : List (Instr C)} : Owned (l ++ [ins]) i ↔ Owned l i ∨ ins.Owns i := by
  simp [Owned, or_and_right, exists_or]

omit [DecidableEq ι] in
theorem not_owned_nil : ¬ Owned ([] : List (Instr C)) i := by
  rintro ⟨ins, hm, -⟩
  cases hm

-- ---------------------------------------------------------------------------
-- The object
-- ---------------------------------------------------------------------------

structure Cell (α : Type v) where
  content : α
  use_count : Nat

/-- A reader's reference, with what was there when it was copied and how many calls had
returned by then. -/
structure Snapshot (C : ι → Type v) where
  part : ι
  addr : Nat
  content : C part
  seen : Nat

inductive Section (C : ι → Type v) (ω : Type w)
  | reading (t : Nat) (i : ι)
  | copied (t : Nat)
  | writing (t : Nat) (op : ω) (rest : List (Instr C))

/-- `returned` are the calls of writers that have returned. -/
structure Store (C : ι → Type v) (ω : Type w) where
  heap : ∀ i, Nat → Cell (C i)
  root : ι → Nat
  mutex : Option (Section C ω) := none
  held : Nat → Option (Snapshot C) := fun _ => none
  returned : List ω := []

/-- `fresh` is the address that an allocation returns. -/
inductive Event (ι : Type u) (ω : Type w)
  | lockRead (t : Nat) (i : ι)
  | copy
  | unlockRead
  | release (t : Nat)
  | lockWrite (t : Nat) (op : ω)
  | exec (fresh : Nat)
  | unlockWrite

namespace Store

def init (cs : ∀ i, C i) : Store C ω where
  heap i a := ⟨cs i, if a = 0 then 1 else 0⟩
  root _ := 0

def setCell (s : Store C ω) (i : ι) (a : Nat) (cell : Cell (C i)) : Store C ω :=
  { s with heap := Function.update s.heap i (Function.update (s.heap i) a cell) }

def current (s : Store C ω) (i : ι) : Cell (C i) := s.heap i (s.root i)

/-- `p.reset(new T(content))`: what is allocated is in nobody's use. -/
def reset (s : Store C ω) (i : ι) (fresh : Nat) (content : C i) : Option (Store C ω) :=
  if (s.heap i fresh).use_count = 0 then
    let old := s.current i
    let s := s.setCell i (s.root i) { old with use_count := old.use_count - 1 }
    some { s.setCell i fresh ⟨content, 1⟩ with root := Function.update s.root i fresh }
  else none

def exec (s : Store C ω) (fresh : Nat) : Instr C → Option (Store C ω)
  | .detach i =>
    if 1 < (s.current i).use_count then s.reset i fresh (s.current i).content else some s
  | .write i f =>
    some (s.setCell i (s.root i) { s.current i with content := f (s.current i).content })
  | .replace i content => s.reset i fresh content

end Store

def step (program : ω → List (Instr C)) (s : Store C ω) : Event ι ω → Option (Store C ω)
  | .lockRead t i => match s.mutex, s.held t with
    | none, none => some { s with mutex := some (.reading t i) }
    | _, _ => none
  | .copy => match s.mutex with
    | some (.reading t i) =>
      let cell := s.current i
      some { s.setCell i (s.root i) { cell with use_count := cell.use_count + 1 } with
        mutex := some (.copied t)
        held := Function.update s.held t
          (some ⟨i, s.root i, cell.content, s.returned.length⟩) }
    | _ => none
  | .unlockRead => match s.mutex with
    | some (.copied _) => some { s with mutex := none }
    | _ => none
  | .release t => match s.held t with
    | some snap =>
      let cell := s.heap snap.part snap.addr
      some { s.setCell snap.part snap.addr { cell with use_count := cell.use_count - 1 } with
        held := Function.update s.held t none }
    | none => none
  | .lockWrite t op => match s.mutex with
    | none => some { s with mutex := some (.writing t op (program op)) }
    | some _ => none
  | .exec fresh => match s.mutex with
    | some (.writing t op (ins :: rest)) =>
      (s.exec fresh ins).map fun s => { s with mutex := some (.writing t op rest) }
    | _ => none
  | .unlockWrite => match s.mutex with
    | some (.writing _ op []) => some { s with mutex := none, returned := s.returned ++ [op] }
    | _ => none

variable {s s' : Store C ω} {program : ω → List (Instr C)} {cs : ∀ i, C i} {i j : ι}
  {a b t fresh : Nat} {content : C i} {done : List (Instr C)} {ins : Instr C}

-- ---------------------------------------------------------------------------
-- Counts
-- ---------------------------------------------------------------------------

namespace Store

theorem setCell_self (s : Store C ω) (i : ι) (a : Nat) (cell : Cell (C i)) :
    (s.setCell i a cell).heap i a = cell := by
  simp [setCell]

theorem setCell_of_ne (s : Store C ω) (cell : Cell (C i)) (h : j = i → b ≠ a) :
    (s.setCell i a cell).heap j b = s.heap j b := by
  by_cases hj : j = i
  · subst hj
    simp [setCell, h rfl]
  · simp [setCell, hj]

def Holds (s : Store C ω) (i : ι) (a t : Nat) : Prop :=
  ∃ snap, s.held t = some snap ∧ snap.part = i ∧ snap.addr = a

def Counted (s : Store C ω) : Prop :=
  ∀ i a, ∃ holders : Finset Nat, (∀ t, t ∈ holders ↔ s.Holds i a t) ∧
    (s.heap i a).use_count = (if s.root i = a then 1 else 0) + holders.card

omit [DecidableEq ι] in
theorem Counted.not_holds (h : s.Counted)
    (hone : (s.heap i a).use_count ≤ if s.root i = a then 1 else 0) : ¬ s.Holds i a t := by
  obtain ⟨holders, hmem, hcount⟩ := h i a
  intro ht
  have hpos : 0 < holders.card := Finset.card_pos.mpr ⟨t, (hmem t).mpr ht⟩
  omega

omit [DecidableEq ι] in
theorem Counted.congr (h : s.Counted)
    (hheap : ∀ i a, (s'.heap i a).use_count = (s.heap i a).use_count)
    (hroot : s'.root = s.root) (hheld : s'.held = s.held) : s'.Counted := by
  intro i a
  obtain ⟨holders, hmem, hcount⟩ := h i a
  refine ⟨holders, fun t => ?_, ?_⟩
  · rw [hmem, Holds, Holds, hheld]
  · rw [hheap, hroot, hcount]

theorem setCell_content (s : Store C ω) (n : Nat) (i j : ι) (a b : Nat) :
    ((s.setCell i a { s.heap i a with use_count := n }).heap j b).content =
      (s.heap j b).content := by
  by_cases h : j = i ∧ b = a
  · obtain ⟨rfl, rfl⟩ := h
    rw [setCell_self]
  · rw [setCell_of_ne]
    exact fun hj hb => h ⟨hj, hb⟩

structure Renewed (s s' : Store C ω) (i : ι) (fresh : Nat) (content : C i) : Prop where
  counted : s'.Counted
  held : s'.held = s.held
  returned : s'.returned = s.returned
  root : s'.root = Function.update s.root i fresh
  content : (s'.current i).content = content
  others : ∀ j a, (j = i → a ≠ fresh) → (s'.heap j a).content = (s.heap j a).content
  alone : ∀ t, ¬ s.Holds i fresh t

theorem Counted.reset (h : s.Counted) (hs : s.reset i fresh content = some s') :
    Renewed s s' i fresh content := by
  simp only [Store.reset, Option.ite_none_right_eq_some, Option.some.injEq] at hs
  obtain ⟨hfree, rfl⟩ := hs
  have hne : s.root i ≠ fresh := by
    intro he
    obtain ⟨holders, -, hcount⟩ := h i fresh
    rw [if_pos he] at hcount
    omega
  have halone : ∀ t, ¬ s.Holds i fresh t := fun t => h.not_holds (by omega)
  refine ⟨fun j a => ?_, rfl, rfl, rfl, ?_, fun j a hja => ?_, halone⟩
  · obtain ⟨holders, hmem, hcount⟩ := h j a
    refine ⟨holders, hmem, ?_⟩
    by_cases hj : j = i
    · subst hj
      simp only [Function.update_self]
      by_cases ha : a = fresh
      · subst ha
        have hnone : holders = ∅ :=
          Finset.eq_empty_of_forall_notMem fun t ht => halone t ((hmem t).mp ht)
        rw [setCell_self, if_pos rfl, hnone, Finset.card_empty]
      · rw [setCell_of_ne _ _ fun _ => ha, if_neg (Ne.symm ha)]
        by_cases hr : a = s.root j
        · subst hr
          rw [setCell_self]
          simp only [Store.current, hcount, if_true]
          omega
        · rw [setCell_of_ne _ _ fun _ => hr, hcount, if_neg (Ne.symm hr)]
    · rw [setCell_of_ne _ _ fun h => absurd h hj, setCell_of_ne _ _ fun h => absurd h hj, hcount]
      simp [hj, setCell]
  · simp [Store.current, setCell_self]
  · rw [setCell_of_ne _ _ hja]
    exact setCell_content s _ i j _ a

theorem Counted.release (h : s.Counted) (hheld : s.held t = some snap) :
    Counted { s.setCell snap.part snap.addr { s.heap snap.part snap.addr with
      use_count := (s.heap snap.part snap.addr).use_count - 1 } with
      held := Function.update s.held t none } := by
  intro i a
  obtain ⟨holders, hmem, hcount⟩ := h i a
  refine ⟨holders.erase t, fun u => ?_, ?_⟩
  · rw [Finset.mem_erase, hmem]
    by_cases hu : u = t
    · simp [Holds, hu]
    · simp [Holds, hu]
  · by_cases hc : i = snap.part ∧ a = snap.addr
    · obtain ⟨rfl, rfl⟩ := hc
      have ht : t ∈ holders := (hmem t).mpr ⟨snap, hheld, rfl, rfl⟩
      have hpos := Finset.card_pos.mpr ⟨t, ht⟩
      rw [Finset.card_erase_of_mem ht]
      simp only [setCell_self, hcount]
      show _ = (if s.root _ = _ then 1 else 0) + _
      omega
    · have ht : t ∉ holders := by
        intro ht
        obtain ⟨snap', hs', rfl, rfl⟩ := (hmem t).mp ht
        obtain rfl : snap = snap' := Option.some.inj (hheld.symm.trans hs')
        exact hc ⟨rfl, rfl⟩
      rw [Finset.erase_eq_of_notMem ht]
      exact (congrArg Cell.use_count (setCell_of_ne _ _ fun hi ha => hc ⟨hi, ha⟩)).trans hcount

theorem Counted.copy (h : s.Counted) (hnone : s.held t = none) {snap : Snapshot C}
    (hpart : snap.part = i) (haddr : snap.addr = s.root i) :
    Counted { s.setCell i (s.root i) { s.current i with
      use_count := (s.current i).use_count + 1 } with
      mutex := m, held := Function.update s.held t (some snap) } := by
  subst hpart
  intro j a
  obtain ⟨holders, hmem, hcount⟩ := h j a
  have hnot : t ∉ holders := by
    intro ht
    obtain ⟨snap', hs', -⟩ := (hmem t).mp ht
    exact Option.some_ne_none _ (hs'.symm.trans hnone)
  by_cases hc : j = snap.part ∧ a = s.root snap.part
  · obtain ⟨rfl, rfl⟩ := hc
    refine ⟨insert t holders, fun u => ?_, ?_⟩
    · rw [Finset.mem_insert, hmem]
      by_cases hu : u = t
      · simp [Holds, hu, haddr]
      · simp [Holds, hu]
    · rw [Finset.card_insert_of_notMem hnot]
      simp only [setCell_self]
      have hcurrent : (s.current snap.part).use_count =
        (if s.root snap.part = s.root snap.part then 1 else 0) + holders.card := hcount
      show _ = (if s.root _ = s.root _ then 1 else 0) + _
      omega
  · refine ⟨holders, fun u => ?_, ?_⟩
    · rw [hmem]
      by_cases hu : u = t
      · simp only [Holds, hu, hnone, Function.update_self]
        constructor
        · rintro ⟨_, h, -⟩
          cases h
        · rintro ⟨_, ⟨⟩, hp, ha⟩
          subst hp
          exact absurd ⟨rfl, ha.symm.trans haddr⟩ hc
      · simp [Holds, hu]
    · rw [setCell_of_ne _ _ fun hj ha => hc ⟨hj, ha⟩, hcount]
      rfl

end Store

-- ---------------------------------------------------------------------------
-- The invariant
-- ---------------------------------------------------------------------------

/-- What a reader holds is what it took: the parts as the calls returned by then made them. -/
def Kept (program : ω → List (Instr C)) (cs : ∀ i, C i) (s : Store C ω) : Prop :=
  ∀ t snap, s.held t = some snap →
    (s.heap snap.part snap.addr).content = snap.content ∧ snap.seen ≤ s.returned.length ∧
      snap.content = replay program cs (s.returned.take snap.seen) snap.part

/-- The parts are as the returned calls and the instructions `done` make them, and nobody holds a
part that the writer has for itself. -/
structure Ahead (program : ω → List (Instr C)) (cs : ∀ i, C i) (s : Store C ω)
    (done : List (Instr C)) : Prop where
  content : ∀ i, (s.current i).content = apply (replay program cs s.returned) done i
  alone : ∀ i, Owned done i → ∀ t, ¬ s.Holds i (s.root i) t

def Progress (program : ω → List (Instr C)) (cs : ∀ i, C i) (s : Store C ω) : Prop :=
  match s.mutex with
  | some (.writing _ op rest) => ∃ done, program op = done ++ rest ∧ Ahead program cs s done
  | some (.reading t _) => s.held t = none ∧ Ahead program cs s []
  | _ => Ahead program cs s []

structure Inv (program : ω → List (Instr C)) (cs : ∀ i, C i) (s : Store C ω) : Prop where
  counted : s.Counted
  kept : Kept program cs s
  progress : Progress program cs s

theorem inv_init : Inv program cs (Store.init cs) where
  counted i a := by
    refine ⟨∅, fun t => ⟨nofun, ?_⟩, by simp [Store.init, eq_comm]⟩
    rintro ⟨_, h, -⟩
    cases h
  kept _ _ h := nomatch h
  progress := ⟨fun _ => rfl, fun _ h => absurd h not_owned_nil⟩

theorem Ahead.congr (h : Ahead program cs s done)
    (hcontent : ∀ i a, (s'.heap i a).content = (s.heap i a).content) (hroot : s'.root = s.root)
    (hreturned : s'.returned = s.returned)
    (hheld : ∀ i a t, Owned done i → s'.Holds i a t → s.Holds i a t) :
    Ahead program cs s' done where
  content i := by
    rw [Store.current, hcontent, hroot, hreturned]
    exact h.content i
  alone i ho t ht := h.alone i ho t (hroot ▸ hheld i _ t ho ht)

theorem Progress.congr (h : Progress program cs s) (hmutex : s'.mutex = s.mutex)
    (hheld : ∀ t, s.held t = none → s'.held t = none)
    (hkeep : ∀ done, Ahead program cs s done → Ahead program cs s' done) :
    Progress program cs s' := by
  unfold Progress at h ⊢
  rw [hmutex]
  cases hm : s.mutex with
  | none =>
    rw [hm] at h
    exact hkeep [] h
  | some sec =>
    rw [hm] at h
    cases sec with
    | reading t i => exact ⟨hheld t h.1, hkeep [] h.2⟩
    | copied t => exact hkeep [] h
    | writing t op rest =>
      obtain ⟨done, hprog, hahead⟩ := h
      exact ⟨done, hprog, hkeep done hahead⟩

omit [DecidableEq ι] in
theorem Store.Holds.congr (h : s'.Holds i a t) (hheld : s'.held = s.held) : s.Holds i a t := by
  rwa [Store.Holds, hheld] at h

theorem Kept.renewed (h : Kept program cs s) (hr : s.Renewed s' i fresh content) :
    Kept program cs s' := by
  intro t snap hheld
  rw [hr.held] at hheld
  obtain ⟨hc, hseen, hsnap⟩ := h t snap hheld
  rw [hr.returned, hr.others]
  · exact ⟨hc, hseen, hsnap⟩
  · exact fun hi ha => hr.alone t ⟨snap, hheld, hi, ha⟩

theorem Ahead.renewed (h : Ahead program cs s done) (hr : s.Renewed s' i fresh content)
    (happly : ∀ cs', cs' i = (s.current i).content →
      ins.apply cs' = Function.update cs' i content)
    (hown : ∀ j, ins.Owns j → j = i) : Ahead program cs s' (done ++ [ins]) where
  content j := by
    rw [apply_append, hr.returned]
    show _ = ins.apply _ j
    rw [happly _ (h.content i).symm]
    by_cases hj : j = i
    · subst hj
      rw [Function.update_self]
      exact hr.content
    · rw [Function.update_of_ne hj, ← h.content j, Store.current, hr.root, Function.update_of_ne hj]
      exact hr.others j _ fun he => absurd he hj
  alone j ho t ht := by
    have ht := ht.congr hr.held
    rw [hr.root] at ht
    by_cases hj : j = i
    · subst hj
      rw [Function.update_self] at ht
      exact hr.alone t ht
    · rw [Function.update_of_ne hj] at ht
      exact h.alone j ((owned_concat.mp ho).resolve_right fun he => hj (hown j he)) t ht

theorem Ahead.exec (hcount : s.Counted) (hkept : Kept program cs s) (h : Ahead program cs s done)
    (hguard : ∀ i f, ins = .write i f → Owned done i) (hs : s.exec fresh ins = some s') :
    s'.Counted ∧ Kept program cs s' ∧ Ahead program cs s' (done ++ [ins]) := by
  cases ins with
  | detach i =>
    simp only [Store.exec] at hs
    split at hs
    · have hr := hcount.reset hs
      refine ⟨hr.counted, hkept.renewed hr, h.renewed hr (fun cs' he => ?_) fun j => Eq.symm⟩
      exact he ▸ (Function.update_eq_self i cs').symm
    · rename_i hone
      cases hs
      refine ⟨hcount, hkept, fun j => ?_, fun j ho t ht => ?_⟩
      · rw [apply_append]
        exact h.content j
      · rcases owned_concat.mp ho with ho | rfl
        · exact h.alone j ho t ht
        · refine hcount.not_holds ?_ ht
          rw [if_pos rfl]
          exact Nat.not_lt.mp hone
  | write i f =>
    cases hs
    have halone := h.alone i (hguard i f rfl)
    refine ⟨hcount.congr (fun j a => ?_) rfl rfl, fun t snap hheld => ?_, fun j => ?_,
      fun j ho t ht => ?_⟩
    · by_cases hc : j = i ∧ a = s.root i
      · obtain ⟨rfl, rfl⟩ := hc
        rw [Store.setCell_self]
        rfl
      · rw [Store.setCell_of_ne _ _ fun hj ha => hc ⟨hj, ha⟩]
    · obtain ⟨hc, hseen, hsnap⟩ := hkept t snap hheld
      rw [Store.setCell_of_ne]
      · exact ⟨hc, hseen, hsnap⟩
      · rintro rfl ha
        exact halone t ⟨snap, hheld, rfl, ha⟩
    · rw [apply_append]
      show _ = Function.update _ i (f _) j
      by_cases hj : j = i
      · subst hj
        rw [Function.update_self]
        exact (congrArg Cell.content (Store.setCell_self ..)).trans (congrArg f (h.content j))
      · rw [Function.update_of_ne hj]
        exact (congrArg Cell.content (Store.setCell_of_ne _ _ fun he => absurd he hj)).trans
          (h.content j)
    · exact h.alone j ((owned_concat.mp ho).resolve_right nofun) t ht
  | replace i content =>
    have hr := hcount.reset hs
    exact ⟨hr.counted, hkept.renewed hr, h.renewed hr (fun cs' _ => rfl) fun j => Eq.symm⟩

theorem inv_step (hguard : ∀ op, Guarded (program op)) (hi : Inv program cs s)
    (hs : step program s e = some s') : Inv program cs s' := by
  obtain ⟨hcount, hkept, hprogress⟩ := hi
  cases e with
  | lockRead t i =>
    simp only [step] at hs
    split at hs
    · rename_i hfree hnone
      cases hs
      rw [Progress, hfree] at hprogress
      exact ⟨hcount, hkept, hnone, hprogress.content, hprogress.alone⟩
    · cases hs
  | copy =>
    simp only [step] at hs
    split at hs
    · rename_i t i hmutex
      cases hs
      rw [Progress, hmutex] at hprogress
      obtain ⟨hnone, hahead⟩ := hprogress
      have hcontent := s.setCell_content ((s.current i).use_count + 1) i (a := s.root i)
      refine ⟨hcount.copy hnone rfl rfl, fun u snap hheld => ?_, fun j => ?_,
        fun _ ho => absurd ho not_owned_nil⟩
      · by_cases hu : u = t
        · subst hu
          simp only [Function.update_self, Option.some.injEq] at hheld
          subst hheld
          refine ⟨hcontent i (s.root i), le_rfl, ?_⟩
          show (s.current i).content = replay program cs (s.returned.take s.returned.length) i
          rw [List.take_length]
          exact hahead.content i
        · simp only [Function.update_of_ne hu] at hheld
          obtain ⟨hc, hseen, hsnap⟩ := hkept u snap hheld
          exact ⟨(hcontent snap.part snap.addr).trans hc, hseen, hsnap⟩
      · exact (hcontent j (s.root j)).trans (hahead.content j)
    · cases hs
  | unlockRead =>
    simp only [step] at hs
    split at hs
    · rename_i hmutex
      cases hs
      rw [Progress, hmutex] at hprogress
      exact ⟨hcount, hkept, hprogress.content, hprogress.alone⟩
    · cases hs
  | release t =>
    simp only [step] at hs
    split at hs
    · rename_i snap hheld
      cases hs
      have hcontent := s.setCell_content ((s.heap snap.part snap.addr).use_count - 1) snap.part
        (a := snap.addr)
      have hless : ∀ u snap', Function.update s.held t none u = some snap' →
          s.held u = some snap' := by
        intro u snap' hu
        by_cases he : u = t
        · simp [he] at hu
        · simpa [he] using hu
      have hkeep : ∀ done, Ahead program cs s done →
          Ahead program cs { s.setCell snap.part snap.addr { s.heap snap.part snap.addr with
            use_count := (s.heap snap.part snap.addr).use_count - 1 } with
            held := Function.update s.held t none } done :=
        fun done h => h.congr (fun i a => hcontent i a) rfl rfl
          fun i a u _ ⟨snap', hu, hpart, haddr⟩ => ⟨snap', hless u snap' hu, hpart, haddr⟩
      refine ⟨hcount.release hheld, fun u snap' hu => ?_, ?_⟩
      · obtain ⟨hc, hseen, hsnap⟩ := hkept u snap' (hless u snap' hu)
        exact ⟨(hcontent _ _).trans hc, hseen, hsnap⟩
      · refine hprogress.congr rfl (fun u hu => ?_) hkeep
        by_cases he : u = t
        · simp [he]
        · simpa [he] using hu
    · cases hs
  | lockWrite t op =>
    simp only [step] at hs
    split at hs
    · rename_i hfree
      cases hs
      rw [Progress, hfree] at hprogress
      exact ⟨hcount, hkept, [], rfl, hprogress.content, hprogress.alone⟩
    · cases hs
  | exec fresh =>
    simp only [step] at hs
    split at hs
    · rename_i t op ins rest hmutex
      obtain ⟨s₁, hexec, rfl⟩ := Option.map_eq_some_iff.mp hs
      rw [Progress, hmutex] at hprogress
      obtain ⟨done, hprog, hahead⟩ := hprogress
      obtain ⟨hcount₁, hkept₁, hahead₁⟩ := hahead.exec hcount hkept
        (fun i f hins => hguard op done i f rest (hins ▸ hprog)) hexec
      exact ⟨hcount₁, hkept₁, done ++ [ins], by rw [hprog, List.append_assoc]; rfl,
        hahead₁.content, hahead₁.alone⟩
    · cases hs
  | unlockWrite =>
    simp only [step] at hs
    split at hs
    · rename_i t op hmutex
      cases hs
      rw [Progress, hmutex] at hprogress
      obtain ⟨done, hprog, hahead⟩ := hprogress
      rw [List.append_nil] at hprog
      refine ⟨hcount, fun u snap hheld => ?_, fun j => ?_, fun _ ho => absurd ho not_owned_nil⟩
      · obtain ⟨hc, hseen, hsnap⟩ := hkept u snap hheld
        refine ⟨hc, hseen.trans (by simp), ?_⟩
        rw [List.take_append_of_le_length hseen]
        exact hsnap
      · rw [replay_append, hprog]
        exact hahead.content j
    · cases hs

theorem inv_of_reach (hguard : ∀ op, Guarded (program op))
    (h : Reach (step program) Always (.init cs) s) : Inv program cs s :=
  h.invariant inv_init fun _ _ _ hi _ hs => inv_step hguard hi hs

-- ---------------------------------------------------------------------------
-- Runs
-- ---------------------------------------------------------------------------

/-- What a reader holds stays as it is while it is held; with the mutex free the parts are what
`spec` makes of the calls that have returned; and a reference that is copied is to what `spec`
makes of them. -/
structure Linear (program : ω → List (Instr C)) (spec : List ω → ∀ i, C i) (s : Store C ω) :
    Prop where
  stays : ∀ t snap, s.held t = some snap →
    ∀ s', Reach (step program) (fun _ e => e ≠ .release t) s s' →
      (s'.heap snap.part snap.addr).content = (s.heap snap.part snap.addr).content
  current : s.mutex = none → ∀ i, (s.current i).content = spec s.returned i
  copied : ∀ s', step program s .copy = some s' → ∀ t snap, s.held t = none →
    s'.held t = some snap → (s'.heap snap.part snap.addr).content = spec s.returned snap.part

theorem exec_held (hs : s.exec fresh ins = some s') : s'.held = s.held := by
  have hreset : ∀ {i content s'}, s.reset i fresh content = some s' → s'.held = s.held := by
    intro i content s' h
    simp only [Store.reset, Option.ite_none_right_eq_some, Option.some.injEq] at h
    obtain ⟨-, rfl⟩ := h
    rfl
  cases ins with
  | detach i =>
    simp only [Store.exec] at hs
    split at hs
    · exact hreset hs
    · cases hs
      rfl
  | write i f =>
    cases hs
    rfl
  | replace i content => exact hreset hs

theorem step_held (hi : Inv program cs s) (hs : step program s e = some s') (he : e ≠ .release t)
    (hheld : s.held t = some snap) : s'.held t = some snap := by
  cases e with
  | copy =>
    simp only [step] at hs
    split at hs
    · rename_i u i hmutex
      cases hs
      have hprogress := hi.progress
      rw [Progress, hmutex] at hprogress
      have hu : t ≠ u := by
        rintro rfl
        exact Option.some_ne_none snap (hheld.symm.trans hprogress.1)
      exact (Function.update_of_ne hu ..).trans hheld
    · cases hs
  | release u =>
    simp only [step] at hs
    split at hs
    · cases hs
      have hu : t ≠ u := fun h => he (h ▸ rfl)
      exact (Function.update_of_ne hu ..).trans hheld
    · cases hs
  | exec fresh =>
    simp only [step] at hs
    split at hs
    · obtain ⟨s₁, hexec, rfl⟩ := Option.map_eq_some_iff.mp hs
      exact (exec_held hexec).symm ▸ hheld
    · cases hs
  | _ =>
    simp only [step] at hs
    split at hs
    · cases hs
      exact hheld
    · cases hs

theorem linear_of_reach (hguard : ∀ op, Guarded (program op))
    (hspec : ∀ ops, replay program cs ops = spec ops)
    (h : Reach (step program) Always (.init cs) s) : Linear program spec s := by
  have hi := inv_of_reach hguard h
  refine ⟨fun t snap hheld s' hrun => ?_, fun hfree i => ?_, fun s' hs t snap hnone hheld => ?_⟩
  · have hend : Inv program cs s' ∧ s'.held t = some snap :=
      hrun.invariant (I := fun s => Inv program cs s ∧ s.held t = some snap) ⟨hi, hheld⟩
        fun _ _ _ ⟨hi, hheld⟩ he hs => ⟨inv_step hguard hi hs, step_held hi hs he hheld⟩
    exact ((hend.1.kept t snap hend.2).1).trans (hi.kept t snap hheld).1.symm
  · have hprogress := hi.progress
    rw [Progress, hfree] at hprogress
    rw [hprogress.content, hspec]
    rfl
  · obtain ⟨hc, -, hsnap⟩ := (inv_step hguard hi hs).kept t snap hheld
    simp only [step] at hs
    split at hs
    · rename_i u i hmutex
      cases hs
      by_cases hu : t = u
      · simp only [hu, Function.update_self, Option.some.injEq] at hheld
        subst hheld
        have hprogress := hi.progress
        rw [Progress, hmutex] at hprogress
        refine hc.trans ((hprogress.2.content i).trans ?_)
        rw [hspec]
        rfl
      · simp only [Function.update_of_ne hu] at hheld
        exact absurd (hheld.symm.trans hnone) (Option.some_ne_none snap)
    · cases hs

end CopyOnWrite
