import Mathlib.Algebra.Order.Ring.Nat
import Mathlib.Data.List.Basic

/-! Numbers laid out in blocks of `n`: block `g` holds `g * n`, ..., `g * n + n - 1`. -/

namespace Blocks
set_option autoImplicit true

variable {i g k n : Nat}

theorem div_of_lt (hi : i < n) : (g * n + i) / n = g := by
  rw [Nat.add_comm, Nat.add_mul_div_right _ _ (Nat.zero_lt_of_lt hi), Nat.div_eq_of_lt hi,
    Nat.zero_add]

theorem mod_of_lt (hi : i < n) : (g * n + i) % n = i := by
  rw [Nat.add_comm, Nat.add_mul_mod_self_right, Nat.mod_eq_of_lt hi]

theorem wrap_of_lt (hi : i < n) (l : Nat) : (g * n + i) % (l * n) = g % l * n + i := by
  rw [Nat.mul_comm l, Nat.mod_mul, div_of_lt hi, mod_of_lt hi, Nat.add_comm,
    Nat.mul_comm n]

theorem wrap_div (hn : 0 < n) (q l : Nat) : q % (l * n) / n = q / n % l := by
  rw [Nat.mul_comm l, Nat.mod_mul, Nat.add_mul_div_left _ _ hn,
    Nat.div_eq_of_lt (Nat.mod_lt q hn), Nat.zero_add]

theorem wrap_mod (q n l : Nat) : q % (l * n) % n = q % n :=
  Nat.mod_mod_of_dvd q (Nat.dvd_mul_left n l)

theorem wrap_end_le (hl : 0 < l) (g n : Nat) : g % l * n + n ≤ l * n := by
  have hm : g % l + 1 ≤ l := Nat.mod_lt g hl
  have hmul := Nat.mul_le_mul_right n hm
  rwa [Nat.add_mul, Nat.one_mul] at hmul

theorem succ_of_lt (h : k % n + 1 < n) : (k + 1) / n = k / n ∧ (k + 1) % n = k % n + 1 := by
  have he : k + 1 = k / n * n + (k % n + 1) := by
    have hk := Nat.div_add_mod' k n
    omega
  rw [he, div_of_lt h, mod_of_lt h]
  exact ⟨rfl, rfl⟩

theorem succ_of_eq (h : k % n + 1 = n) : (k + 1) / n = k / n + 1 ∧ (k + 1) % n = 0 := by
  have hn : 0 < n := by omega
  have he : k + 1 = (k / n + 1) * n + 0 := by
    have hk := Nat.div_add_mod' k n
    rw [Nat.add_mul, Nat.one_mul]
    omega
  rw [he, div_of_lt hn, mod_of_lt hn]
  exact ⟨rfl, rfl⟩

/-- What is left of a list once as many whole blocks as possible are taken from its front. -/
def rest (n : Nat) (xs : List α) : List α := xs.drop (xs.length / n * n)

theorem length_rest (n : Nat) (xs : List α) : (rest n xs).length = xs.length % n := by
  have hdm := Nat.div_add_mod' xs.length n
  rw [rest, List.length_drop]
  omega

theorem rest_subset (n : Nat) (xs : List α) : rest n xs ⊆ xs := List.drop_subset _ _

theorem rest_snoc_of_lt {xs : List α} (h : xs.length % n + 1 < n) (x : α) :
    rest n (xs ++ [x]) = rest n xs ++ [x] := by
  rw [rest, rest, List.length_append, List.length_singleton, (succ_of_lt h).1,
    List.drop_append_of_le_length (Nat.div_mul_le_self _ _)]

theorem rest_snoc_of_eq {xs : List α} (h : xs.length % n + 1 = n) (x : α) :
    rest n (xs ++ [x]) = [] := by
  apply List.eq_nil_of_length_eq_zero
  rw [length_rest, List.length_append, List.length_singleton, (succ_of_eq h).2]

end Blocks
