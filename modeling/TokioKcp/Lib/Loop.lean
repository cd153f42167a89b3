import TokioKcp.Lib.Exec

namespace Checked
set_option autoImplicit true

/-- A loop whose body goes on with a new state or leaves with a result. There is no result if it
has not left within the given number of rounds. -/
def loop (body : σ → Exec (σ ⊕ β)) : Nat → σ → Exec (Option β)
  | 0, _ => .ok none
  | rounds + 1, s => do
    match ← body s with
    | .inl t => loop body rounds t
    | .inr b => return some b

variable {body : σ → Exec (σ ⊕ β)} {rounds : Nat}

theorem loop_left (h : body s = .ok (.inr b)) : loop body (rounds + 1) s = .ok (some b) := by
  rw [loop, h]
  rfl

theorem loop_next (h : body s = .ok (.inl t)) :
    loop body (rounds + 1) s = loop body rounds t := by
  rw [loop, h]
  rfl

theorem loop_more (h : loop body rounds s = .ok (some b)) (hle : rounds ≤ rounds') :
    loop body rounds' s = .ok (some b) := by
  induction rounds generalizing s rounds' with
  | zero => cases h
  | succ rounds ih =>
    obtain ⟨more, rfl⟩ := Nat.exists_eq_add_of_le' (Nat.le_trans (Nat.succ_pos rounds) hle)
    rw [loop] at h ⊢
    obtain ⟨out, hbody, h⟩ := bind_eq_ok.mp h
    rw [hbody, ok_bind]
    cases out with
    | inl t => exact ih h (Nat.le_of_succ_le_succ hle)
    | inr b => exact h

theorem loop_unique (h : loop body rounds s = .ok (some b))
    (h' : loop body rounds' s = .ok (some b')) : b' = b := by
  rcases Nat.le_total rounds rounds' with hle | hle
  · rw [loop_more h hle] at h'
    cases h'
    rfl
  · rw [loop_more h' hle] at h
    cases h
    rfl

end Checked
