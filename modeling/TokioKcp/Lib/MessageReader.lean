import Mathlib.Data.List.Basic
import Mathlib.Data.List.Infix

namespace MessageReader
set_option autoImplicit true

/-- A reader of a queue of messages, with the rest of a message that it has read in part. One
read gives what fits into the room it has, from one message, or nothing yet. -/
inductive Reads (allowEmpty : Bool) (room : Nat) :
    List α → List (List α) → Option (List α) → List α → List (List α) → Prop where
  | rest (h : left ≠ []) :
    Reads allowEmpty room left queue (some (left.take room)) (left.drop room) queue
  | whole (hm : m ≠ []) (h : m.length ≤ room) :
    Reads allowEmpty room [] (m :: queue) (some m) [] queue
  | part (h : room < m.length) :
    Reads allowEmpty room [] (m :: queue) (some (m.take room)) (m.drop room) queue
  | empty (h : allowEmpty = true) : Reads allowEmpty room [] ([] :: queue) (some []) [] queue
  | skipped (h : allowEmpty = false) : Reads allowEmpty room [] ([] :: queue) none [] queue
  | waits : Reads allowEmpty room [] [] none [] []

/-- What a reader has read is what came, up to the rest of the last message that it took. -/
structure Faithful (came : List (List α)) (read left : List α) (queue : List (List α)) : Prop where
  taken : ∃ taken, came = taken ++ queue ∧ read ++ left = taken.flatten ∧
    (left ≠ [] → ∃ before m, taken = before ++ [m] ∧ left <:+ m)

variable {came queue queue' arrived : List (List α)} {read left left' data : List α}
variable {given : Option (List α)} {allowEmpty : Bool} {room : Nat}

theorem Faithful.stream (h : Faithful came read left queue) :
    read ++ left ++ queue.flatten = came.flatten := by
  obtain ⟨taken, rfl, he, _⟩ := h.taken
  rw [he, List.flatten_append]

theorem Faithful.init (queue : List (List α)) : Faithful queue [] [] queue :=
  ⟨[], rfl, rfl, fun h => absurd rfl h⟩

theorem Faithful.arrive (h : Faithful came read left queue) (arrived : List (List α)) :
    Faithful (came ++ arrived) read left (queue ++ arrived) := by
  obtain ⟨taken, rfl, he, hm⟩ := h.taken
  exact ⟨taken, List.append_assoc .., he, hm⟩

theorem Faithful.take (h : Faithful came read [] (m :: queue)) (hm : data ++ left = m) :
    Faithful came (read ++ data) left queue := by
  obtain ⟨taken, rfl, he, _⟩ := h.taken
  refine ⟨taken ++ [m], ?_, ?_, ?_⟩
  · rw [List.append_assoc, List.singleton_append]
  · rw [List.append_nil] at he
    rw [List.flatten_append, ← he, List.append_assoc, hm, List.flatten_singleton]
  · intro _
    exact ⟨taken, m, rfl, data, hm⟩

theorem Reads.faithful (hr : Reads allowEmpty room left queue given left' queue')
    (h : Faithful came read left queue) :
    Faithful came (read ++ given.getD []) left' queue' := by
  cases hr with
  | rest hne =>
    obtain ⟨taken, rfl, he, hm⟩ := h.taken
    refine ⟨taken, rfl, ?_, ?_⟩
    · rw [Option.getD_some, List.append_assoc, List.take_append_drop, he]
    · intro _
      obtain ⟨before, m, ht, hs⟩ := hm hne
      exact ⟨before, m, ht, (List.drop_suffix _ _).trans hs⟩
  | whole hm hlen => exact h.take (List.append_nil _)
  | part hlen => exact h.take (List.take_append_drop _ _)
  | empty => exact h.take rfl
  | skipped => exact h.take rfl
  | waits =>
    rw [Option.getD_none, List.append_nil]
    exact h

/-- What one read gives lies within one message, right after what was read before. -/
theorem Reads.within (hr : Reads allowEmpty room left queue (some data) left' queue')
    (h : Faithful came read left queue) : ∃ before m after i,
      came = before ++ m :: after ∧ read = before.flatten ++ m.take i ∧ data <+: m.drop i := by
  obtain ⟨taken, rfl, he, hm⟩ := h.taken
  -- a read from the head of the queue starts at the first byte of a message
  have hhead (m : List α) (rest : List (List α)) (hleft : left = []) (hq : queue = m :: rest)
      (hd : data <+: m) : ∃ before m after i,
      taken ++ queue = before ++ m :: after ∧ read = before.flatten ++ m.take i ∧
        data <+: m.drop i := by
    rw [hleft, List.append_nil] at he
    refine ⟨taken, m, rest, 0, by rw [hq], ?_, hd⟩
    rw [List.take_zero, List.append_nil, he]
  cases hr with
  | rest hne =>
    obtain ⟨before, m, rfl, front, rfl⟩ := hm hne
    refine ⟨before, front ++ left, queue, front.length, ?_, ?_, ?_⟩
    · rw [List.append_assoc, List.singleton_append]
    · rw [List.flatten_append, List.flatten_singleton, ← List.append_assoc] at he
      rw [List.take_left, List.append_cancel_right he]
    · rw [List.drop_left]
      exact List.take_prefix _ _
  | whole _ _ => exact hhead _ _ rfl rfl (List.prefix_refl _)
  | part _ => exact hhead _ _ rfl rfl (List.take_prefix _ _)
  | empty => exact hhead _ _ rfl rfl (List.prefix_refl _)

theorem Reads.fits (hr : Reads allowEmpty room left queue (some data) left' queue') :
    data.length ≤ room ∧ (0 < room → allowEmpty = false → data ≠ []) := by
  have htake (m : List α) (hm : m ≠ []) : (m.take room).length ≤ room ∧
      (0 < room → allowEmpty = false → m.take room ≠ []) := by
    refine ⟨List.length_take_le _ _, fun hroom _ he => ?_⟩
    rcases List.take_eq_nil_iff.mp he with hz | hn
    · exact absurd hz (Nat.ne_of_gt hroom)
    · exact hm hn
  cases hr with
  | rest hne => exact htake left hne
  | whole hm hlen => exact ⟨hlen, fun _ _ => hm⟩
  | @part m _ hlen =>
    exact htake m fun hn => absurd hlen (by rw [hn]; exact Nat.not_lt_zero _)
  | empty hallow =>
    refine ⟨Nat.zero_le _, fun _ hno => ?_⟩
    rw [hallow] at hno
    cases hno

end MessageReader
