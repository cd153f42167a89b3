import TokioKcp.Lib.Runs

namespace Queues
set_option autoImplicit true

open Transition

/-- Nothing overtakes: what was got is what was sent first, and until the end the rest is waiting
in order. -/
structure InOrder (sent got waiting : List α) (ended : Prop) : Prop where
  isPrefix : got <+: sent
  whole : ¬ended → sent = got ++ waiting

variable {sent got waiting : List α} {ended : Prop}

theorem InOrder.send (h : InOrder sent got waiting ended) (more : List α) :
    InOrder (sent ++ more) got (waiting ++ more) ended where
  isPrefix := h.isPrefix.trans (List.prefix_append sent more)
  whole hopen := by
    rw [h.whole hopen, List.append_assoc]

theorem InOrder.take {a : α} (h : InOrder sent got (a :: waiting) ended) (hopen : ¬ended) :
    InOrder sent (got ++ [a]) waiting ended where
  isPrefix := by
    have hsent : sent = got ++ [a] ++ waiting := by
      rw [h.whole hopen, List.append_assoc, List.singleton_append]
    rw [hsent]
    exact List.prefix_append _ _
  whole _ := by
    rw [h.whole hopen, List.append_assoc, List.singleton_append]

theorem InOrder.end {waiting' : List α} {ended' : Prop} (h : InOrder sent got waiting ended)
    (he : ended') : InOrder sent got waiting' ended' where
  isPrefix := h.isPrefix
  whole hopen := absurd he hopen

variable {step : σ → α → σ → Prop} {sends takes : σ × α → List β} {waits : σ → List β}
variable {ends : σ → Prop} {P : σ → Prop} {sent got : List β}

theorem InOrder.steps (hrun : Run step s trace t) (hs : P s)
    (preserves : ∀ s a t, P s → step s a t → P t)
    (hstep : ∀ s a t sent got, P s → step s a t → InOrder sent got (waits s) (ends s) →
      InOrder (sent ++ sends (s, a)) (got ++ takes (s, a)) (waits t) (ends t))
    (ho : InOrder sent got (waits s) (ends s)) :
    InOrder (sent ++ trace.flatMap sends) (got ++ trace.flatMap takes) (waits t) (ends t) := by
  induction hrun generalizing sent got with
  | nil =>
    rw [List.flatMap_nil, List.flatMap_nil, List.append_nil, List.append_nil]
    exact ho
  | cons ht _ ih =>
    rw [List.flatMap_cons, List.flatMap_cons, ← List.append_assoc, ← List.append_assoc]
    exact ih (preserves _ _ _ hs ht) (hstep _ _ _ _ _ hs ht ho)

/-- When each step puts in and takes out in order, a run does, if nothing waits at first. -/
theorem InOrder.run (hrun : Run step s trace t) (hs : P s) (hempty : waits s = [])
    (preserves : ∀ s a t, P s → step s a t → P t)
    (hstep : ∀ s a t sent got, P s → step s a t → InOrder sent got (waits s) (ends s) →
      InOrder (sent ++ sends (s, a)) (got ++ takes (s, a)) (waits t) (ends t)) :
    InOrder (trace.flatMap sends) (trace.flatMap takes) (waits t) (ends t) := by
  have hstart : InOrder [] [] (waits s) (ends s) := ⟨List.prefix_rfl, fun _ => hempty.symm⟩
  exact .steps hrun hs preserves hstep hstart

end Queues
