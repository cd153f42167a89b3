import Mathlib.Algebra.Group.Nat.Defs
import Mathlib.Data.List.Induction

namespace Checked
set_option autoImplicit true

/-- The ways in which a computation with runtime checks can abort. -/
inductive Panic where
  | unwrapNone
  | expectFailed (message : String)
  | indexOutOfBounds
  | sliceOutOfRange
  | arithmeticOverflow
  | divideByZero
  | bufferUnderflow
  deriving DecidableEq, Repr

/-- A computation either returns or aborts with a panic. -/
abbrev Exec := Except Panic

def unwrap : Option α → Exec α
  | some x => .ok x
  | none => .error .unwrapNone

def expect (message : String) : Except ε α → Exec α
  | .ok x => .ok x
  | .error _ => .error (.expectFailed message)

def index (xs : List α) (i : Nat) : Exec α :=
  match xs[i]? with
  | some x => .ok x
  | none => .error .indexOutOfBounds

def sliceFrom (xs : List α) (i : Nat) : Exec (List α) :=
  if i ≤ xs.length then .ok (xs.drop i) else .error .sliceOutOfRange

def slice (xs : List α) (i j : Nat) : Exec (List α) :=
  if i ≤ j ∧ j ≤ xs.length then .ok ((xs.take j).drop i) else .error .sliceOutOfRange

def add (width a b : Nat) : Exec Nat :=
  if a + b < 2 ^ width then .ok (a + b) else .error .arithmeticOverflow

def div (a b : Nat) : Exec Nat :=
  if b = 0 then .error .divideByZero else .ok (a / b)

def rem (a b : Nat) : Exec Nat :=
  if b = 0 then .error .divideByZero else .ok (a % b)

def wrappingSub (width a b : Nat) : Nat := (a + 2 ^ width - b) % 2 ^ width

def saturatingAdd (width a b : Nat) : Nat := min (a + b) (2 ^ width - 1)

def saturatingMul (width a b : Nat) : Nat := min (a * b) (2 ^ width - 1)

def cast (width a : Nat) : Nat := a % 2 ^ width

@[simp] theorem expect_ok (message : String) (x : α) :
    expect message (.ok x : Except ε α) = .ok x := rfl

theorem index_of_getElem? {xs : List α} (h : xs[i]? = some x) : index xs i = .ok x := by
  simp only [index, h]

theorem index_of_lt {xs : List α} (h : i < xs.length) : index xs i = .ok xs[i] :=
  index_of_getElem? (List.getElem?_eq_getElem h)

theorem sliceFrom_of_le {xs : List α} (h : i ≤ xs.length) :
    sliceFrom xs i = .ok (xs.drop i) := if_pos h

theorem slice_of_le {xs : List α} (hij : i ≤ j) (hj : j ≤ xs.length) :
    slice xs i j = .ok ((xs.take j).drop i) := if_pos ⟨hij, hj⟩

theorem add_of_lt (h : a + b < 2 ^ width) : add width a b = .ok (a + b) := if_pos h

theorem div_of_pos (h : 0 < b) : div a b = .ok (a / b) := if_neg (Nat.ne_of_gt h)

theorem rem_of_pos (h : 0 < b) : rem a b = .ok (a % b) := if_neg (Nat.ne_of_gt h)

theorem cast_of_lt (h : a < 2 ^ width) : cast width a = a := Nat.mod_eq_of_lt h

theorem wrappingSub_of_le (hb : b ≤ a) (ha : a < 2 ^ width) :
    wrappingSub width a b = a - b := by
  have he : a + 2 ^ width - b = (a - b) + 2 ^ width := by omega
  rw [wrappingSub, he, Nat.add_mod_right, Nat.mod_eq_of_lt (by omega)]

@[simp] theorem ok_bind (a : α) (f : α → Exec β) : ((.ok a : Exec α) >>= f) = f a := rfl

theorem bind_eq_ok {x : Exec α} {f : α → Exec β} :
    (x >>= f) = .ok b ↔ ∃ a, x = .ok a ∧ f a = .ok b := by
  constructor
  · intro h
    cases x with
    | ok a => exact ⟨a, rfl, h⟩
    | error e => cases h
  · rintro ⟨a, rfl, h⟩
    exact h

theorem eq_ok_of_toOption {x : Exec α} (h : x.toOption = some a) : x = .ok a := by
  cases x with
  | error panic => cases h
  | ok b =>
    cases h
    rfl

/-- Run a stateful operation over a list of inputs, collecting its outputs in order. -/
def runAll (f : σ → α → Exec (σ × β)) : σ → List α → Exec (σ × List β)
  | s, [] => .ok (s, [])
  | s, a :: as => do
    let (s, b) ← f s a
    let (s, bs) ← runAll f s as
    return (s, b :: bs)

theorem runAll_cons {f : σ → α → Exec (σ × β)} (ha : f s a = .ok (t, b))
    (has : runAll f t as = .ok (u, bs)) : runAll f s (a :: as) = .ok (u, b :: bs) := by
  simp only [runAll, ha, has, ok_bind]
  rfl

theorem runAll_append {f : σ → α → Exec (σ × β)} (h : runAll f s as = .ok (t, bs))
    (h' : runAll f t as' = .ok (u, bs')) : runAll f s (as ++ as') = .ok (u, bs ++ bs') := by
  induction as generalizing s bs with
  | nil =>
    cases h
    exact h'
  | cons a as ih =>
    simp only [runAll, bind_eq_ok] at h
    obtain ⟨⟨s₁, b⟩, hs, ⟨s₂, bs₁⟩, hr, he⟩ := h
    cases he
    exact runAll_cons hs (ih hr)

theorem runAll_snoc {f : σ → α → Exec (σ × β)} (h : runAll f s as = .ok (t, bs))
    (h' : f t a = .ok (u, b)) : runAll f s (as ++ [a]) = .ok (u, bs ++ [b]) :=
  runAll_append h (runAll_cons h' rfl)

theorem runAll_length {f : σ → α → Exec (σ × β)} (h : runAll f s as = .ok (t, bs)) :
    bs.length = as.length := by
  induction as generalizing s bs with
  | nil =>
    cases h
    rfl
  | cons a as ih =>
    simp only [runAll, bind_eq_ok] at h
    obtain ⟨⟨s₁, b⟩, hs, ⟨s₂, bs₁⟩, hr, he⟩ := h
    cases he
    simp only [List.length_cons, ih hr]

/-- Rule for whole runs: an invariant that speaks of the history so far, and that every
operation both survives and extends, holds after every run. -/
theorem runAll_history {f : σ → α → Exec (σ × β)} {P : List (α × β) → σ → Prop}
    (init : P [] s)
    (step : ∀ hist t a, P hist t → a ∈ as →
      ∃ u b, f t a = .ok (u, b) ∧ P (hist ++ [(a, b)]) u) :
    ∃ t bs, runAll f s as = .ok (t, bs) ∧ P (as.zip bs) t := by
  induction as using List.reverseRecOn with
  | nil => exact ⟨s, [], rfl, init⟩
  | append_singleton as a ih =>
    obtain ⟨t, bs, hr, hP⟩ := ih (fun hist t a' h hm => step hist t a' h (by simp [hm]))
    obtain ⟨u, b, hs, hP'⟩ := step _ t a hP (by simp)
    refine ⟨u, bs ++ [b], runAll_snoc hr hs, ?_⟩
    rw [List.zip_append (runAll_length hr).symm]
    exact hP'

theorem runAll_invariant {f : σ → α → Exec (σ × β)} {P : σ → Prop} (init : P s)
    (step : ∀ t a, P t → ∃ u b, f t a = .ok (u, b) ∧ P u) (as : List α) :
    ∃ t bs, runAll f s as = .ok (t, bs) ∧ P t :=
  runAll_history (P := fun _ t => P t) init (fun _ t a h _ => step t a h)

end Checked
