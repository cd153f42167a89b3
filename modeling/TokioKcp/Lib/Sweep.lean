import Mathlib.Data.List.Basic
import TokioKcp.Lib.Loop

/-! A loop over a vector that keeps, changes or removes each of its elements, where the last
element takes the place of one that is removed. -/

namespace Checked
set_option autoImplicit true

variable {σ α : Type}

def swapRemove (xs : List α) (i : Nat) : Exec (List α) :=
  match xs.getLast? with
  | some last => if i < xs.length then .ok (xs.set i last).dropLast else .error .indexOutOfBounds
  | none => .error .indexOutOfBounds

def sweepRound (visit : σ → α → σ × Option α) :
    σ × Nat × List α → Exec ((σ × Nat × List α) ⊕ (σ × List α))
  | (s, idx, xs) =>
    if idx < xs.length then do
      let x ← index xs idx
      match visit s x with
      | (s, some y) => return .inl (s, idx + 1, xs.set idx y)
      | (s, none) => do
        let xs ← swapRemove xs idx
        return .inl (s, idx, xs)
    else
      return .inr (s, xs)

def visitAll (visit : σ → α → σ × Option α) : σ → List α → σ × List α
  | s, [] => (s, [])
  | s, x :: xs =>
    let (s, y) := visit s x
    let (s, ys) := visitAll visit s xs
    (s, y.toList ++ ys)

variable {visit : σ → α → σ × Option α} {rest : List α}

theorem swapRemove_append (front : List α) (x : α) (rest : List α) :
    ∃ moved, swapRemove (front ++ x :: rest) front.length = .ok (front ++ moved) ∧
      moved.Perm rest := by
  have hlt : front.length < (front ++ x :: rest).length := by
    rw [List.length_append, List.length_cons]
    omega
  rcases List.eq_nil_or_concat' rest with rfl | ⟨init, last, rfl⟩
  · refine ⟨[], ?_, .refl _⟩
    rw [swapRemove, List.getLast?_concat]
    dsimp only
    rw [if_pos hlt, List.set_append_right _ _ (Nat.le_refl _), Nat.sub_self, List.set_cons_zero,
      List.dropLast_concat, List.append_nil]
  · refine ⟨last :: init, ?_, (List.perm_append_singleton last init).symm⟩
    have hlast : (front ++ x :: (init ++ [last])).getLast? = some last := by
      rw [← List.cons_append, ← List.append_assoc, List.getLast?_concat]
    rw [swapRemove, hlast]
    dsimp only
    rw [if_pos hlt, List.set_append_right _ _ (Nat.le_refl _), Nat.sub_self, List.set_cons_zero,
      ← List.cons_append, ← List.append_assoc, List.dropLast_concat]

theorem sweep_rest (n : Nat) (front : List α) (hn : rest.length = n) (s : σ) :
    ∃ order ys, order.Perm rest ∧
    (∀ rounds, n < rounds → loop (sweepRound visit) rounds (s, front.length, front ++ rest) =
      .ok (some ((visitAll visit s order).1, ys))) ∧
    ys.Perm (front ++ (visitAll visit s order).2) := by
  induction n generalizing s front rest with
  | zero =>
    have hnil := List.eq_nil_of_length_eq_zero hn
    refine ⟨[], front, hnil ▸ .refl _, fun rounds hlt => ?_, ?_⟩
    · obtain ⟨more, rfl⟩ := Nat.exists_eq_add_of_le' hlt
      apply loop_left
      rw [hnil, List.append_nil, sweepRound, if_neg (Nat.lt_irrefl _)]
      rfl
    · rw [visitAll, List.append_nil]
  | succ n ih =>
    cases rest with
    | nil => cases hn
    | cons x rest =>
      have hrest : rest.length = n := Nat.succ.inj hn
      have hlt : front.length < (front ++ x :: rest).length := by
        rw [List.length_append, List.length_cons]
        omega
      have hx : index (front ++ x :: rest) front.length = .ok x := by
        apply index_of_getElem?
        rw [List.getElem?_append_right (Nat.le_refl _), Nat.sub_self, List.getElem?_cons_zero]
      rcases hv : visit s x with ⟨t, y | y⟩
      · obtain ⟨moved, hswap, hmoved⟩ := swapRemove_append front x rest
        obtain ⟨order, ys, horder, hloop, hys⟩ :=
          ih front (hmoved.length_eq.trans hrest) t
        refine ⟨x :: order, ys, (horder.trans hmoved).cons x, fun rounds hrounds => ?_, ?_⟩
        · obtain ⟨more, rfl⟩ := Nat.exists_eq_add_of_le' (Nat.lt_of_le_of_lt (Nat.zero_le _) hrounds)
          have hround : sweepRound visit (s, front.length, front ++ x :: rest) =
              .ok (.inl (t, front.length, front ++ moved)) := by
            rw [sweepRound, if_pos hlt, hx, ok_bind, hv]
            dsimp only
            rw [hswap, ok_bind]
            rfl
          rw [loop_next hround, hloop _ (Nat.lt_of_succ_lt_succ hrounds), visitAll, hv]
        · rw [visitAll, hv]
          exact hys
      · obtain ⟨order, ys, horder, hloop, hys⟩ := ih (front ++ [y]) hrest t
        refine ⟨x :: order, ys, horder.cons x, fun rounds hrounds => ?_, ?_⟩
        · obtain ⟨more, rfl⟩ := Nat.exists_eq_add_of_le' (Nat.lt_of_le_of_lt (Nat.zero_le _) hrounds)
          have hround : sweepRound visit (s, front.length, front ++ x :: rest) =
              .ok (.inl (t, (front ++ [y]).length, (front ++ [y]) ++ rest)) := by
            rw [sweepRound, if_pos hlt, hx, ok_bind, hv]
            dsimp only
            rw [List.set_append_right _ _ (Nat.le_refl _), Nat.sub_self, List.set_cons_zero,
              List.length_append, List.length_singleton, List.append_assoc, List.singleton_append]
            rfl
          rw [loop_next hround, hloop _ (Nat.lt_of_succ_lt_succ hrounds), visitAll, hv]
        · rw [visitAll, hv]
          rw [List.append_assoc] at hys
          exact hys

/-- The loop ends and visits every element once, in some order; what is left is what was kept. -/
theorem sweep_visits (visit : σ → α → σ × Option α) (s : σ) (xs : List α) :
    ∃ order ys, order.Perm xs ∧
      (∀ rounds, xs.length < rounds → loop (sweepRound visit) rounds (s, 0, xs) =
        .ok (some ((visitAll visit s order).1, ys))) ∧
      ys.Perm (visitAll visit s order).2 :=
  sweep_rest xs.length [] rfl s

end Checked
