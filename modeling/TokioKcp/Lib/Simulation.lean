import TokioKcp.Lib.Runs

namespace Transition
set_option autoImplicit true

variable {step : σ → α → σ → Prop} {step' : τ → β → τ → Prop} {R : σ → τ → Prop}
variable {s t : σ} {u : τ}

/-- When the upper level can match each step of the lower one by a number of its own, with the
same to be seen, it can match a run. -/
theorem Run.simulated (seen : σ × α → List γ) (seen' : τ × β → List γ)
    (hstep : ∀ s a t u, R s u → step s a t → ∃ trace u',
      Run step' u trace u' ∧ R t u' ∧ trace.flatMap seen' = seen (s, a))
    (h : Run step s trace t) (hR : R s u) : ∃ trace' u', Run step' u trace' u' ∧ R t u' ∧
      trace'.flatMap seen' = trace.flatMap seen := by
  induction h generalizing u with
  | nil => exact ⟨[], u, .nil, hR, rfl⟩
  | cons hs _ ih =>
    obtain ⟨first, u₁, hfirst, hR₁, hseen₁⟩ := hstep _ _ _ u hR hs
    obtain ⟨rest, u₂, hrest, hR₂, hseen₂⟩ := ih hR₁
    refine ⟨first ++ rest, u₂, hfirst.append hrest, hR₂, ?_⟩
    rw [List.flatMap_append, List.flatMap_cons, hseen₁, hseen₂]

end Transition
