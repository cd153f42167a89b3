import Mathlib.Data.List.Basic

namespace Transition
set_option autoImplicit true

/-- A run records every step it takes: the state before the step and the step's label. -/
inductive Run (step : σ → α → σ → Prop) : σ → List (σ × α) → σ → Prop where
  | nil : Run step s [] s
  | cons : step s a t → Run step t trace u → Run step s ((s, a) :: trace) u

/-- Every state that a run visits, its last one included, satisfies the predicate. -/
def Always (P : σ → Prop) (trace : List (σ × α)) (last : σ) : Prop :=
  (∀ x ∈ trace, P x.1) ∧ P last

variable {step : σ → α → σ → Prop}

theorem Always.cons {s : σ} {a : α} (hs : P s) (h : Always P trace u) :
    Always P ((s, a) :: trace) u := by
  refine ⟨?_, h.2⟩
  intro x hx
  cases hx with
  | head => exact hs
  | tail _ hm => exact h.1 x hm

theorem Always.mono {P Q : σ → Prop} (h : Always P trace u) (hPQ : ∀ s, P s → Q s) :
    Always Q trace u :=
  ⟨fun x hx => hPQ x.1 (h.1 x hx), hPQ u h.2⟩

/-- A predicate that every step meeting the guard preserves holds throughout every run
all of whose steps meet the guard. -/
theorem Run.guarded {P : σ → Prop} {C : σ → α → Prop}
    (preserves : ∀ s a t, P s → C s a → step s a t → P t) (h : Run step s trace u)
    (hs : P s) (hC : ∀ x ∈ trace, C x.1 x.2) : Always P trace u := by
  induction h with
  | nil => exact ⟨fun _ hx => absurd hx List.not_mem_nil, hs⟩
  | @cons s a t trace u ht _ ih =>
    have hc : C s a := hC (s, a) List.mem_cons_self
    have hP := preserves s a t hs hc ht
    exact (ih hP (fun x hx => hC x (List.mem_cons_of_mem _ hx))).cons hs

theorem Run.invariant {P : σ → Prop} (preserves : ∀ s a t, P s → step s a t → P t)
    (h : Run step s trace u) (hs : P s) : Always P trace u :=
  h.guarded (C := fun _ _ => True) (fun s a t hP _ ht => preserves s a t hP ht) hs
    (fun _ _ => True.intro)

/-- What every step meeting the guard keeps of a state and the run so far. -/
theorem Run.recorded {P : List (σ × α) → σ → Prop} {C : σ → α → Prop}
    (preserves : ∀ before s a t, P before s → C s a → step s a t → P (before ++ [(s, a)]) t)
    (h : Run step s trace u) (hs : P before s) (hC : ∀ x ∈ trace, C x.1 x.2) :
    P (before ++ trace) u := by
  induction h generalizing before with
  | nil =>
    rw [List.append_nil]
    exact hs
  | @cons s a t trace u ht _ ih =>
    have hP := preserves before s a t hs (hC (s, a) List.mem_cons_self) ht
    have hrest := ih hP fun x hx => hC x (List.mem_cons_of_mem _ hx)
    rw [List.append_assoc] at hrest
    exact hrest

/-- When the guard is exactly what a step needs to preserve the predicate, the runs that
keep it throughout are exactly the runs of guarded steps. -/
theorem Run.guarded_iff {P : σ → Prop} {C : σ → α → Prop}
    (exact' : ∀ s a t, P s → step s a t → (P t ↔ C s a)) (h : Run step s trace u)
    (hs : P s) : Always P trace u ↔ ∀ x ∈ trace, C x.1 x.2 := by
  constructor
  · intro hP
    induction h with
    | nil => intro x hx; cases hx
    | @cons s a t trace u ht hr ih =>
      have hPt : P t := by
        cases hr with
        | nil => exact hP.2
        | @cons _ b => exact hP.1 (t, b) (.tail _ (.head _))
      have hrest : Always P trace u :=
        ⟨fun x hx => hP.1 x (List.mem_cons_of_mem _ hx), hP.2⟩
      intro x hx
      cases hx with
      | head => exact (exact' s a t hs ht).mp hPt
      | tail _ hm => exact ih hPt hrest x hm
  · intro hC
    exact h.guarded (fun s a t hP hc ht => (exact' s a t hP ht).mpr hc) hs hC

theorem Run.append (h : Run step s before t) (h' : Run step t after u) :
    Run step s (before ++ after) u := by
  induction h with
  | nil => exact h'
  | cons hs _ ih => exact .cons hs (ih h')

theorem Run.split (h : Run step s (before ++ after) u) :
    ∃ t, Run step s before t ∧ Run step t after u := by
  induction before generalizing s with
  | nil => exact ⟨s, .nil, h⟩
  | cons x before ih =>
    cases h with
    | cons ht hr =>
      obtain ⟨t, hbefore, hafter⟩ := ih hr
      exact ⟨t, .cons ht hbefore, hafter⟩

/-- A preorder that holds over every step holds between every state of a run and the last. -/
theorem Run.relates {R : σ → σ → Prop} (refl : ∀ s, R s s)
    (trans : ∀ s t u, R s t → R t u → R s u) (hstep : ∀ s a t, step s a t → R s t)
    (h : Run step s trace u) : R s u ∧ ∀ x ∈ trace, R x.1 u := by
  induction h with
  | nil => exact ⟨refl _, fun _ hx => absurd hx List.not_mem_nil⟩
  | @cons s a t trace u ht _ ih =>
    have hs : R s u := trans s t u (hstep s a t ht) ih.1
    refine ⟨hs, ?_⟩
    intro x hx
    cases hx with
    | head => exact hs
    | tail _ hm => exact ih.2 x hm

def replay (next : σ → α → Option σ) : σ → List α → Option (List (σ × α) × σ)
  | s, [] => some ([], s)
  | s, a :: as =>
    match next s a with
    | some t => (replay next t as).map fun r => ((s, a) :: r.1, r.2)
    | none => none

theorem run_of_replay {next : σ → α → Option σ}
    (hstep : ∀ s a t, next s a = some t → step s a t)
    (h : replay next s as = some (trace, t)) : Run step s trace t := by
  induction as generalizing s trace with
  | nil =>
    cases h
    exact .nil
  | cons a as ih =>
    rw [replay] at h
    split at h
    · rename_i u hu
      obtain ⟨r, hr, he⟩ := Option.map_eq_some_iff.mp h
      cases he
      exact .cons (hstep s a u hu) (ih hr)
    · cases h

end Transition
