import Mathlib.Algebra.Order.Ring.Nat
import Mathlib.Data.List.Basic

/-! Lists cut into parts of at most `n` elements. -/

namespace Fragments
set_option autoImplicit true

/-- The given number of parts from the front of a list. -/
def cut (n : Nat) : Nat → List α → List (List α)
  | 0, _ => []
  | count + 1, xs => xs.take n :: cut n count (xs.drop n)

/-- The number of parts for a list of the given length, at least one. -/
def count (n len : Nat) : Nat := if len ≤ n then 1 else (len + n - 1) / n

/-- Fill the last part of a list of parts, and give what does not fit. -/
def topUp (n : Nat) : List (List α) → List α → List (List α) × List α
  | [], xs => ([], xs)
  | [last], xs => ([last ++ xs.take (n - last.length)], xs.drop (n - last.length))
  | part :: next :: parts, xs =>
    let (parts, rest) := topUp n (next :: parts) xs
    (part :: parts, rest)

variable {n c len : Nat} {xs part : List α} {parts : List (List α)}

theorem flatten_cut (n c : Nat) (xs : List α) : (cut n c xs).flatten = xs.take (n * c) := by
  induction c generalizing xs with
  | zero => rfl
  | succ c ih =>
    rw [cut, List.flatten_cons, ih, Nat.mul_succ, Nat.add_comm, List.take_add]

theorem length_cut (n c : Nat) (xs : List α) : (cut n c xs).length = c := by
  induction c generalizing xs with
  | zero => rfl
  | succ c ih => rw [cut, List.length_cons, ih]

theorem length_le_of_mem_cut (h : part ∈ cut n c xs) : part.length ≤ n := by
  induction c generalizing xs with
  | zero => cases h
  | succ c ih =>
    cases h with
    | head => exact List.length_take_le _ _
    | tail _ h => exact ih h

theorem count_pos (hn : 0 < n) (len : Nat) : 0 < count n len := by
  rw [count]
  split
  · exact Nat.one_pos
  · apply Nat.div_pos
    · omega
    · exact hn

theorem le_mul_count (hn : 0 < n) (len : Nat) : len ≤ n * count n len := by
  rw [count]
  split
  · rename_i hle
    rw [Nat.mul_one]
    exact hle
  · have hdiv := Nat.div_add_mod (len + n - 1) n
    have hmod := Nat.mod_lt (len + n - 1) hn
    omega

theorem count_le (hc : 0 < c) (h : len ≤ n * c) : count n len ≤ c := by
  rw [count]
  split
  · exact hc
  · rename_i hlt
    have hn : 0 < n := by
      apply Nat.pos_of_ne_zero
      rintro rfl
      rw [Nat.zero_mul] at h
      exact hlt (Nat.le_trans h (Nat.le_refl 0))
    apply Nat.le_of_lt_succ
    rw [Nat.div_lt_iff_lt_mul hn, Nat.succ_mul, Nat.mul_comm c]
    omega

theorem flatten_cut_count (hn : 0 < n) (xs : List α) :
    (cut n (count n xs.length) xs).flatten = xs := by
  rw [flatten_cut]
  exact List.take_of_length_le (le_mul_count hn xs.length)

theorem flatten_topUp (n : Nat) (parts : List (List α)) (xs : List α) :
    (topUp n parts xs).1.flatten ++ (topUp n parts xs).2 = parts.flatten ++ xs := by
  fun_induction topUp n parts xs with
  | case1 xs => rfl
  | case2 xs last =>
    rw [List.flatten_singleton, List.flatten_singleton, List.append_assoc,
      List.take_append_drop]
  | case3 xs part next parts ps rest he ih =>
    rw [List.flatten_cons, List.flatten_cons, List.append_assoc, List.append_assoc, ← ih, he]

theorem length_topUp (n : Nat) (parts : List (List α)) (xs : List α) :
    (topUp n parts xs).1.length = parts.length := by
  fun_induction topUp n parts xs with
  | case1 xs => rfl
  | case2 xs last => rfl
  | case3 xs part next parts ps rest he ih =>
    rw [List.length_cons, List.length_cons, ← ih, he]

theorem length_topUp_rest_le (n : Nat) (parts : List (List α)) (xs : List α) :
    (topUp n parts xs).2.length ≤ xs.length := by
  fun_induction topUp n parts xs with
  | case1 xs => exact Nat.le_refl _
  | case2 xs last =>
    rw [List.length_drop]
    exact Nat.sub_le _ _
  | case3 xs part next parts ps rest he ih =>
    rw [he] at ih
    exact ih

end Fragments
