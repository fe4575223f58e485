import Mathlib.Data.Int.CardIntervalMod

/-!
# The loops of a server, taken in turn

`EventLoopThreadPool.cc`. Without threads of its own the pool gives out the
base loop. `next_` stays inside `loops_` because nothing takes a loop out, so
the index of `getNextLoop` needs no check.
-/

namespace VortexNet

structure EventLoopThreadPool (ℓ : Type) where
  baseloop_ : ℓ
  started_ : Bool
  numThreads_ : Int
  next_ : Nat
  loops_ : List ℓ
  next_lt : next_ < max 1 loops_.length

namespace EventLoopThreadPool

variable {ℓ : Type}

/-- The constructor, with `setThreadNum`. -/
def init (baseloop : ℓ) (threadNum : Int) : EventLoopThreadPool ℓ where
  baseloop_ := baseloop
  started_ := false
  numThreads_ := threadNum
  next_ := 0
  loops_ := []
  next_lt := Nat.one_pos

/-- `startLoop i` is the loop that the `i`-th new thread hands over. -/
def start (p : EventLoopThreadPool ℓ) (startLoop : Nat → ℓ) : EventLoopThreadPool ℓ where
  baseloop_ := p.baseloop_
  started_ := true
  numThreads_ := p.numThreads_
  next_ := p.next_
  loops_ := p.loops_ ++ (List.range p.numThreads_.toNat).map startLoop
  next_lt := by
    have h := p.next_lt
    rw [List.length_append]
    omega

def getAllLoops (p : EventLoopThreadPool ℓ) : List ℓ :=
  if p.loops_.isEmpty then [p.baseloop_] else p.loops_

def getNextLoop (p : EventLoopThreadPool ℓ) : ℓ × EventLoopThreadPool ℓ :=
  if h : p.next_ < p.loops_.length then
    (p.loops_.get ⟨p.next_, h⟩, { p with
      next_ := if p.next_ + 1 ≥ p.loops_.length then 0 else p.next_ + 1
      next_lt := by split <;> omega })
  else (p.baseloop_, p)

-- ---------------------------------------------------------------------------
-- One turn after the other
-- ---------------------------------------------------------------------------

def turns (p : EventLoopThreadPool ℓ) : Nat → EventLoopThreadPool ℓ
  | 0 => p
  | k + 1 => (p.turns k).getNextLoop.2

def taken (p : EventLoopThreadPool ℓ) (m : Nat) : List ℓ :=
  (List.range m).map fun k => (p.turns k).getNextLoop.1

variable {p : EventLoopThreadPool ℓ} {a b : ℓ} {k m : Nat}

theorem taken_succ : p.taken (m + 1) = p.taken m ++ [(p.turns m).getNextLoop.1] := by
  rw [taken, List.range_succ, List.map_append]
  rfl

theorem length_getAllLoops : p.getAllLoops.length = max 1 p.loops_.length := by
  unfold getAllLoops
  cases hl : p.loops_ with
  | nil => rfl
  | cons l ls => simp

/-- The test of the source for an empty vector is the one for `next_`. -/
theorem next_lt_iff : p.next_ < p.loops_.length ↔ p.loops_ ≠ [] := by
  have h := p.next_lt
  rw [← List.length_pos_iff]
  omega

theorem getNextLoop_fst :
    p.getAllLoops[p.next_]? = some p.getNextLoop.1 := by
  unfold getNextLoop
  split
  · rename_i h
    simp [getAllLoops, next_lt_iff.mp h, List.getElem?_eq_getElem h]
  · rename_i h
    have hnil : p.loops_ = [] := Classical.not_not.mp fun hne => h (next_lt_iff.mpr hne)
    have h0 : p.next_ = 0 := by
      have hlt := p.next_lt
      rw [hnil] at hlt
      exact Nat.lt_one_iff.mp hlt
    simp [getAllLoops, hnil, h0]

theorem getNextLoop_loops : p.getNextLoop.2.getAllLoops = p.getAllLoops := by
  unfold getNextLoop
  split <;> rfl

theorem getNextLoop_loops_ : p.getNextLoop.2.loops_ = p.loops_ := by
  unfold getNextLoop
  split <;> rfl

theorem getNextLoop_baseloop_ : p.getNextLoop.2.baseloop_ = p.baseloop_ := by
  unfold getNextLoop
  split <;> rfl

theorem getNextLoop_mem : p.getNextLoop.1 ∈ p.baseloop_ :: p.loops_ := by
  unfold getNextLoop
  split
  · exact List.mem_cons_of_mem _ (List.get_mem ..)
  · exact List.mem_cons_self

theorem getNextLoop_next :
    p.getNextLoop.2.next_ = (p.next_ + 1) % p.getAllLoops.length := by
  have hlt := p.next_lt
  rw [length_getAllLoops]
  unfold getNextLoop
  split
  · rename_i h
    have hmax : max 1 p.loops_.length = p.loops_.length := Nat.max_eq_right (Nat.zero_lt_of_lt h)
    rw [hmax]
    simp only
    split
    · rename_i hwrap
      have hlast : p.loops_.length = p.next_ + 1 := Nat.le_antisymm hwrap h
      rw [← hlast, Nat.mod_self]
    · rename_i hwrap
      exact (Nat.mod_eq_of_lt (Nat.lt_of_not_le hwrap)).symm
  · rename_i h
    have hmax : max 1 p.loops_.length = 1 := by omega
    have h0 : p.next_ = 0 := by omega
    rw [hmax, h0]

@[simp] theorem turns_loops : (p.turns k).getAllLoops = p.getAllLoops := by
  induction k with
  | zero => rfl
  | succ k ih => exact getNextLoop_loops.trans ih

theorem turns_next : (p.turns k).next_ = (p.next_ + k) % p.getAllLoops.length := by
  induction k with
  | zero =>
    have hlt := p.next_lt
    rw [← length_getAllLoops] at hlt
    exact (Nat.mod_eq_of_lt hlt).symm
  | succ k ih =>
    rw [turns, getNextLoop_next, turns_loops, ih, Nat.mod_add_mod, Nat.add_assoc]

/-- The `k`-th call returns the loop that stands `k` places on, round the vector. -/
theorem getNextLoop_turns :
    p.getAllLoops[(p.next_ + k) % p.getAllLoops.length]? = some (p.turns k).getNextLoop.1 := by
  rw [← turns_next, ← turns_loops (p := p) (k := k)]
  exact getNextLoop_fst

theorem count_taken [DecidableEq ℓ] (hd : p.getAllLoops.Nodup) {i : Nat}
    (hi : p.getAllLoops[i]? = some a) :
    (p.taken m).count a = m / p.getAllLoops.length ∨
      (p.taken m).count a = m / p.getAllLoops.length + 1 := by
  obtain ⟨hlt, hget⟩ := List.getElem?_eq_some_iff.mp hi
  have hpos : 0 < p.getAllLoops.length := Nat.zero_lt_of_lt hlt
  have hnext : p.next_ < p.getAllLoops.length := by
    rw [length_getAllLoops]
    exact p.next_lt
  have hsame : ∀ k, ((p.turns k).getNextLoop.1 = a) ↔
      k ≡ i + (p.getAllLoops.length - p.next_) [MOD p.getAllLoops.length] := by
    intro k
    have hk := getNextLoop_turns (p := p) (k := k)
    have hmod := Nat.mod_lt (p.next_ + k) hpos
    obtain ⟨_, hkget⟩ := List.getElem?_eq_some_iff.mp hk
    rw [← hkget, ← hget, hd.getElem_inj_iff]
    have hshift : (p.next_ + k) % p.getAllLoops.length = i ↔
        p.next_ + k ≡ p.next_ + (i + (p.getAllLoops.length - p.next_)) [MOD p.getAllLoops.length] := by
      have hround : p.next_ + (i + (p.getAllLoops.length - p.next_)) = i + p.getAllLoops.length := by
        omega
      rw [hround, Nat.ModEq, Nat.add_mod_right, Nat.mod_eq_of_lt hlt]
    exact hshift.trans ⟨Nat.ModEq.add_left_cancel' _, Nat.ModEq.add_left _⟩
  have hcount : (p.taken m).count a =
      m.count (· ≡ i + (p.getAllLoops.length - p.next_) [MOD p.getAllLoops.length]) := by
    rw [taken, List.count_eq_countP, List.countP_map, Nat.count]
    refine List.countP_congr fun k _ => ?_
    simp [hsame k]
  rw [hcount, Nat.count_modEq_card _ hpos]
  split
  · exact .inr rfl
  · exact .inl rfl

/-- No loop is returned two times more than another. -/
theorem balanced [DecidableEq ℓ] (hd : p.getAllLoops.Nodup) (ha : a ∈ p.getAllLoops)
    (hb : b ∈ p.getAllLoops) : (p.taken m).count a ≤ (p.taken m).count b + 1 := by
  obtain ⟨i, hi⟩ := List.getElem?_of_mem ha
  obtain ⟨j, hj⟩ := List.getElem?_of_mem hb
  have hcount := count_taken (m := m) hd hi
  have hcount' := count_taken (m := m) hd hj
  omega

end EventLoopThreadPool

end VortexNet
