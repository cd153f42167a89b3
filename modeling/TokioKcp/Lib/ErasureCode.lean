import Mathlib.Data.List.Nodup
import Mathlib.Data.List.Range

namespace ErasureCode
set_option autoImplicit true

/-- A shard is a block of symbols; a word with holes is a list of optional shards. -/
abbrev Shard (β : Type) := List β

def present (xs : List (Option α)) : Nat := xs.countP Option.isSome

def resize (n : Nat) (fill : β) (s : Shard β) : Shard β :=
  s.take n ++ List.replicate (n - s.length) fill

def PartOf (xs : List (Option α)) (word : List α) : Prop :=
  xs.length = word.length ∧ ∀ (i : Nat) (x : α), xs[i]? = some (some x) → word[i]? = some x

/-- A codec over shards, as its users call it. -/
structure Codec (β ε : Type) where
  encode : List (Shard β) → Except ε (List (Shard β))
  reconstructData : List (Option (Shard β)) → Except ε (List (Option (Shard β)))

/-- Shards that a codec accepts: all of one length, which is not zero. -/
def Uniform (n : Nat) (shards : List (Shard β)) : Prop :=
  0 < n ∧ ∀ s ∈ shards, s.length = n

/-- Encoding `d` data and `p` parity shards of one length succeeds, fills in the parity
shards and keeps the data shards. -/
def Codec.Systematic (c : Codec β ε) (d p : Nat) : Prop :=
  ∀ n shards, shards.length = d + p → Uniform n shards →
    ∃ word, c.encode shards = .ok word ∧ word.length = d + p ∧ Uniform n word ∧
      word.take d = shards.take d

/-- Any `d` shards of an encoded word restore its data shards. -/
def Codec.Restores (c : Codec β ε) (d p : Nat) : Prop :=
  ∀ n shards word xs, shards.length = d + p → Uniform n shards →
    c.encode shards = .ok word → PartOf xs word → d ≤ present xs →
    ∃ ys, c.reconstructData xs = .ok ys ∧ ys.length = d + p ∧
      ∀ i, i < d → ys[i]? = word[i]?.map some

/-- A systematic code in which any `d` shards determine the word. -/
structure Codec.Lawful (c : Codec β ε) (d p : Nat) : Prop where
  systematic : c.Systematic d p
  restores : c.Restores d p

/-- Whatever reconstruction answers, it neither adds nor drops shards. -/
def Codec.KeepsShardCount (c : Codec β ε) : Prop :=
  ∀ xs ys, c.reconstructData xs = .ok ys → ys.length = xs.length

@[simp] theorem length_resize (n : Nat) (fill : β) (s : Shard β) :
    (resize n fill s).length = n := by
  simp only [resize, List.length_append, List.length_take, List.length_replicate]
  omega

theorem resize_of_le (h : s.length ≤ n) (fill : β) :
    resize n fill s = s ++ List.replicate (n - s.length) fill := by
  rw [resize, List.take_of_length_le h]

theorem take_resize (h : s.length ≤ n) (fill : β) (hk : k ≤ s.length) :
    (resize n fill s).take k = s.take k := by
  rw [resize_of_le h, List.take_append_of_le_length hk]

theorem resize_self (s : Shard β) (fill : β) : resize s.length fill s = s := by
  rw [resize_of_le (Nat.le_refl _), Nat.sub_self, List.replicate_zero, List.append_nil]

theorem PartOf.slot {xs : List (Option α)} {word : List α} (h : PartOf xs word) (i : Nat)
    (hx : xs[i]? = some o) (hw : word[i]? = some a) : o = none ∨ o = some a := by
  cases o with
  | none => exact .inl rfl
  | some x =>
    have he := h.2 i x hx
    rw [hw] at he
    cases he
    exact .inr rfl

theorem present_map (f : α → β) (xs : List (Option α)) :
    present (xs.map (Option.map f)) = present xs := by
  rw [present, present, List.countP_map]
  congr 1
  funext o
  cases o <;> rfl

theorem present_pos_iff {xs : List (Option α)} :
    0 < present xs ↔ ∃ (i : Nat) (x : α), xs[i]? = some (some x) := by
  rw [present, List.countP_pos_iff]
  constructor
  · rintro ⟨o, ho, hs⟩
    obtain ⟨i, hi⟩ := List.getElem?_of_mem ho
    obtain ⟨x, hx⟩ := Option.isSome_iff_exists.mp hs
    exact ⟨i, x, by rw [hi, hx]⟩
  · rintro ⟨i, x, hi⟩
    exact ⟨some x, List.mem_of_getElem? hi, rfl⟩

theorem present_eq_length {xs : List (Option α)} {is : List Nat} (hn : is.Nodup)
    (h : ∀ i, i ∈ is ↔ ∃ x, xs[i]? = some (some x)) : present xs = is.length := by
  have hxs : xs = (List.range xs.length).map fun i => xs[i]?.join := by
    apply List.ext_getElem?
    intro i
    rw [List.getElem?_map]
    by_cases hi : i < xs.length
    · rw [List.getElem?_range hi, Option.map_some, List.getElem?_eq_getElem hi]
      rfl
    · rw [List.getElem?_eq_none (Nat.le_of_not_lt hi),
        List.getElem?_eq_none (by rw [List.length_range]; exact Nat.le_of_not_lt hi)]
      rfl
  have hperm : ((List.range xs.length).filter fun i => (xs[i]?.join).isSome).Perm is := by
    rw [List.perm_ext_iff_of_nodup (List.nodup_range.filter _) hn]
    intro i
    rw [h, List.mem_filter, List.mem_range]
    constructor
    · intro ⟨hi, hs⟩
      rw [List.getElem?_eq_getElem hi] at hs ⊢
      obtain ⟨x, hx⟩ := Option.isSome_iff_exists.mp hs
      exact ⟨x, congrArg some hx⟩
    · intro ⟨x, hx⟩
      obtain ⟨hi, _⟩ := List.getElem?_eq_some_iff.mp hx
      rw [hx]
      exact ⟨hi, rfl⟩
  rw [← hperm.length_eq, ← List.countP_eq_length_filter, present]
  conv => lhs; rw [hxs]
  rw [List.countP_map]
  rfl

/-- If `d` shards are present but one of the first `d` is not, a later shard is. -/
theorem exists_present_from {xs : List (Option α)} (hp : d ≤ present xs)
    (hi : i < d) (hh : xs[i]? = some none) : ∃ (j : Nat) (x : α), d ≤ j ∧ xs[j]? = some (some x) := by
  have hsplit : present xs = present (xs.take d) + present (xs.drop d) := by
    rw [present, present, present, ← List.countP_append, List.take_append_drop]
  have hmem : (none : Option α) ∈ xs.take d := by
    apply List.mem_of_getElem? (i := i)
    rw [List.getElem?_take_of_lt hi, hh]
  have hlt : present (xs.take d) < (xs.take d).length := by
    apply Nat.lt_of_le_of_ne List.countP_le_length
    intro he
    exact Bool.false_ne_true (List.countP_eq_length.mp he none hmem)
  have hpos : 0 < present (xs.drop d) := by
    rw [List.length_take] at hlt
    omega
  obtain ⟨j, x, hj⟩ := present_pos_iff.mp hpos
  exact ⟨d + j, x, Nat.le_add_right d j, by rw [← hj, List.getElem?_drop]⟩

def longest (lengths : List Nat) : Nat := lengths.foldl max 0

theorem foldl_max_bounds (ns : List Nat) (m : Nat) :
    m ≤ ns.foldl max m ∧ ∀ n ∈ ns, n ≤ ns.foldl max m := by
  induction ns generalizing m with
  | nil => exact ⟨Nat.le_refl m, fun _ h => absurd h List.not_mem_nil⟩
  | cons k ns ih =>
    obtain ⟨hm, hns⟩ := ih (max m k)
    refine ⟨Nat.le_trans (Nat.le_max_left m k) hm, ?_⟩
    intro n hn
    cases hn with
    | head => exact Nat.le_trans (Nat.le_max_right m k) hm
    | tail _ h => exact hns n h

theorem le_longest (h : n ∈ ns) : n ≤ longest ns := (foldl_max_bounds ns 0).2 n h

theorem longest_mem_or_zero (ns : List Nat) : longest ns = 0 ∨ longest ns ∈ ns := by
  have hgen (m : Nat) : ns.foldl max m = m ∨ ns.foldl max m ∈ ns := by
    induction ns generalizing m with
    | nil => exact .inl rfl
    | cons k ns ih =>
      rcases ih (max m k) with h | h
      · rcases Nat.le_total m k with hk | hk
        · right
          rw [List.foldl_cons, h, Nat.max_eq_right hk]
          exact List.mem_cons_self
        · left
          rw [List.foldl_cons, h, Nat.max_eq_left hk]
      · exact .inr (List.mem_cons_of_mem _ h)
  exact hgen 0

theorem longest_snoc (ns : List Nat) (n : Nat) : longest (ns ++ [n]) = max (longest ns) n := by
  rw [longest, List.foldl_append]
  rfl

theorem longest_le (h : ∀ n ∈ ns, n ≤ m) : longest ns ≤ m := by
  rcases longest_mem_or_zero ns with he | hm
  · rw [he]
    exact Nat.zero_le m
  · exact h _ hm

end ErasureCode
