import TokioKcp.Lib.Runs
import Mathlib.Data.List.Forall2

/-! A population is a list of machines of one kind, each known by its place. New members come at
the end, and none ever goes. -/

namespace Population
set_option autoImplicit true

open Transition

/-- A run leads from one state to the other, and all of its labels are allowed. -/
def Reaches (step : σ → α → σ → Prop) (allowed : α → Prop) (s t : σ) : Prop :=
  ∃ trace, Run step s trace t ∧ ∀ x ∈ trace, allowed x.2

/-- Every member was born, and has become what it is since. -/
def Descends (born : σ → Prop) (R : σ → σ → Prop) (members : List σ) : Prop :=
  ∀ s ∈ members, ∃ s₀, born s₀ ∧ R s₀ s

variable {step : σ → α → σ → Prop} {allowed : α → Prop} {born : σ → Prop} {R : σ → σ → Prop}
variable {members members' members'' : List σ}

theorem Reaches.refl (step : σ → α → σ → Prop) (allowed : α → Prop) (s : σ) :
    Reaches step allowed s s :=
  ⟨[], .nil, nofun⟩

theorem Reaches.trans (h : Reaches step allowed s t) (h' : Reaches step allowed t u) :
    Reaches step allowed s u := by
  obtain ⟨before, hbefore, hall⟩ := h
  obtain ⟨after, hafter, hall'⟩ := h'
  refine ⟨before ++ after, hbefore.append hafter, ?_⟩
  intro x hx
  rcases List.mem_append.mp hx with hx | hx
  · exact hall x hx
  · exact hall' x hx

theorem Reaches.single (h : step s a t) (ha : allowed a) : Reaches step allowed s t := by
  refine ⟨[(s, a)], .cons h .nil, ?_⟩
  intro x hx
  rw [List.mem_singleton.mp hx]
  exact ha

theorem Reaches.invariant {P : σ → Prop} (h : Reaches step allowed s t)
    (preserves : ∀ s a t, P s → allowed a → step s a t → P t) (hs : P s) : P t := by
  obtain ⟨trace, hrun, hall⟩ := h
  exact (hrun.guarded (C := fun _ a => allowed a) preserves hs hall).2

/-- A machine whose every allowed step is, seen through a function, a run of another machine
reaches through that function what the other one reaches. -/
theorem Reaches.map {step' : τ → β → τ → Prop} {allowed' : β → Prop} (f : σ → τ)
    (h : Reaches step allowed s t)
    (hstep : ∀ s a t, allowed a → step s a t → Reaches step' allowed' (f s) (f t)) :
    Reaches step' allowed' (f s) (f t) := by
  obtain ⟨trace, hrun, hall⟩ := h
  induction hrun with
  | nil => exact .refl step' allowed' _
  | @cons s a t trace u hs _ ih =>
    have hfirst := hstep s a t (hall (s, a) List.mem_cons_self) hs
    exact hfirst.trans (ih fun x hx => hall x (List.mem_cons_of_mem _ hx))

theorem forall₂_trans (hR : ∀ s t u, R s t → R t u → R s u) (h : members.Forall₂ R members')
    (h' : members'.Forall₂ R members'') : members.Forall₂ R members'' := by
  induction h generalizing members'' with
  | nil => exact h'
  | cons hs _ ih =>
    cases h' with
    | cons ht hrest => exact .cons (hR _ _ _ hs ht) (ih hrest)

theorem forall₂_modify {f : σ → σ} (hR : ∀ s, R s s) (hf : ∀ s, R s (f s)) (members : List σ)
    (i : Nat) : members.Forall₂ R (members.modify i f) := by
  induction members generalizing i with
  | nil => cases i <;> exact .nil
  | cons s members ih =>
    cases i with
    | zero => exact .cons (hf s) (List.forall₂_same.mpr fun t _ => hR t)
    | succ i => exact .cons (hR s) (ih i)

theorem forall₂_set {i : Nat} (hR : ∀ s, R s s) (hs : members[i]? = some s) (h : R s t) :
    members.Forall₂ R (members.set i t) := by
  induction members generalizing i with
  | nil => exact .nil
  | cons r members ih =>
    cases i with
    | zero =>
      cases hs
      exact .cons h (List.forall₂_same.mpr fun u _ => hR u)
    | succ i => exact .cons (hR r) (ih hs)

theorem forall₂_getElem? {i : Nat} (h : members.Forall₂ R members')
    (ht : members'[i]? = some t) : ∃ s, members[i]? = some s ∧ R s t := by
  induction h generalizing i with
  | nil => cases ht
  | @cons s _ _ _ hs _ ih =>
    cases i with
    | zero =>
      cases ht
      exact ⟨s, rfl, hs⟩
    | succ i => exact ih ht

theorem Descends.forall₂ (hR : ∀ s t u, R s t → R t u → R s u) (h : Descends born R members)
    (hf : members.Forall₂ R members') : Descends born R members' := by
  induction hf with
  | nil => exact h
  | @cons s t members members' hs _ ih =>
    obtain ⟨hfirst, hrest⟩ := List.forall_mem_cons.mp h
    obtain ⟨s₀, hborn, hs₀⟩ := hfirst
    exact List.forall_mem_cons.mpr ⟨⟨s₀, hborn, hR s₀ s t hs₀ hs⟩, ih hrest⟩

theorem Descends.concat (hR : ∀ s, R s s) (h : Descends born R members) (hs : born s) :
    Descends born R (members ++ [s]) := by
  intro t ht
  rcases List.mem_append.mp ht with ht | ht
  · exact h t ht
  · rw [List.mem_singleton.mp ht]
    exact ⟨s, hs, hR s⟩

/-- What holds of all that is born, and is preserved by every allowed step, holds of every
member. -/
theorem Descends.invariant {P : σ → Prop} (h : Descends born (Reaches step allowed) members)
    (preserves : ∀ s a t, P s → allowed a → step s a t → P t) (hborn : ∀ s, born s → P s)
    (hs : s ∈ members) : P s := by
  obtain ⟨s₀, hb, hr⟩ := h s hs
  exact hr.invariant preserves (hborn s₀ hb)

end Population
