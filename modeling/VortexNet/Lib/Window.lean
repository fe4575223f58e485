import Mathlib.Order.Nat

/-!
# Windows of a list and overwriting in place

`window xs i j` is what an array `xs` holds at indices `i` up to `j`;
`overwrite xs i ys` stores `ys` from index `i` on. The lemmas say which
windows a store changes and what it puts there.
-/

namespace Windows

def window (xs : List α) (i j : Nat) : List α := (xs.drop i).take (j - i)

def overwrite (xs : List α) (i : Nat) (ys : List α) : List α :=
  xs.take i ++ ys ++ xs.drop (i + ys.length)

variable {xs ys : List α} {i j k : Nat}

@[simp] theorem window_self : window xs i i = [] := by simp [window]

theorem length_window (h : j ≤ xs.length) : (window xs i j).length = j - i := by
  simp only [window, List.length_take, List.length_drop]
  omega

theorem length_overwrite (h : i + ys.length ≤ xs.length) :
    (overwrite xs i ys).length = xs.length := by
  simp only [overwrite, List.length_append, List.length_take, List.length_drop]
  omega

theorem window_append_window (hij : i ≤ j) (hjk : j ≤ k) :
    window xs i j ++ window xs j k = window xs i k := by
  have h : xs.drop j = (xs.drop i).drop (j - i) := by
    rw [List.drop_drop]
    congr 1
    omega
  rw [window, window, window, h, show k - i = (j - i) + (k - j) by omega, List.take_add]

theorem drop_window : (window xs i j).drop k = window xs (i + k) j := by
  rw [window, window, List.drop_take, List.drop_drop]
  congr 1
  omega

theorem take_window (h : i + k ≤ j) : (window xs i j).take k = window xs i (i + k) := by
  rw [window, window, List.take_take]
  congr 1
  omega

theorem window_append (h : j ≤ xs.length) : window (xs ++ ys) i j = window xs i j := by
  rcases Nat.lt_or_ge j i with hji | hij
  · simp [window, Nat.sub_eq_zero_of_le hji.le]
  · simp only [window]
    rw [List.drop_append_of_le_length (hij.trans h), List.take_append_of_le_length]
    rw [List.length_drop]
    omega

theorem window_overwrite_of_le (h : j ≤ i) (hi : i ≤ xs.length) :
    window (overwrite xs i ys) k j = window xs k j := by
  have hl : j ≤ (xs.take i).length := by rw [List.length_take]; omega
  rw [overwrite, List.append_assoc, window_append hl]
  rcases Nat.lt_or_ge j k with hjk | hkj
  · simp [window, Nat.sub_eq_zero_of_le hjk.le]
  · rw [window, window, List.drop_take, List.take_take]
    congr 1
    omega

theorem window_overwrite_self (hi : i ≤ xs.length) :
    window (overwrite xs i ys) i (i + ys.length) = ys := by
  have hl : (xs.take i).length = i := by rw [List.length_take]; omega
  rw [window, overwrite, List.append_assoc, List.drop_append_of_le_length hl.ge,
    List.drop_of_length_le hl.le, List.nil_append]
  simp

theorem length_overwrite_max (hi : i ≤ xs.length) :
    (overwrite xs i ys).length = max xs.length (i + ys.length) := by
  simp only [overwrite, List.length_append, List.length_take, List.length_drop]
  omega

theorem getElem?_overwrite (hi : i ≤ xs.length) :
    (overwrite xs i ys)[i + j]? = ys[j]?.or xs[i + j]? := by
  have hlen : (xs.take i).length = i := List.length_take_of_le hi
  rw [overwrite, List.append_assoc, List.getElem?_append_right (by omega), hlen,
    Nat.add_sub_cancel_left]
  rcases Nat.lt_or_ge j ys.length with hj | hj
  · rw [List.getElem?_append_left hj, List.getElem?_eq_getElem hj, Option.some_or]
  · rw [List.getElem?_append_right hj, List.getElem?_drop, List.getElem?_eq_none hj, Option.none_or]
    congr 1
    omega

theorem overwrite_overwrite (hi : i ≤ xs.length) :
    overwrite (overwrite xs i ys) (i + ys.length) zs = overwrite xs i (ys ++ zs) := by
  have hlen : (xs.take i ++ ys).length = i + ys.length := by
    rw [List.length_append, List.length_take_of_le hi]
  have htake : (overwrite xs i ys).take (i + ys.length) = xs.take i ++ ys := by
    rw [overwrite, ← hlen, List.take_left]
  have hdrop : (overwrite xs i ys).drop (i + ys.length) = xs.drop (i + ys.length) := by
    rw [overwrite, ← hlen, List.drop_left]
  rw [overwrite, htake, ← List.drop_drop, hdrop, List.drop_drop, overwrite, List.length_append,
    Nat.add_assoc, List.append_assoc (xs.take i) ys zs]

theorem window_overwrite (hki : k ≤ i) (hi : i ≤ xs.length) :
    window (overwrite xs i ys) k (i + ys.length) = window xs k i ++ ys := by
  rw [← window_append_window hki (Nat.le_add_right _ _), window_overwrite_of_le (le_refl i) hi,
    window_overwrite_self hi]

end Windows
