import TokioKcp.Fec.Restore

namespace TokioKcp.Fec
set_option autoImplicit true

open Checked ErasureCode

variable {d p g i k q q' size w : Nat} {c : ReedSolomon} {s t : FecDecoder} {packet : Bytes}
variable {carried : Nat → Bytes → Prop} {payloads : Nat → List Bytes} {del : List Nat}
variable {shards : List (Option Bytes)}

/-- The id under which a decoder files the packet with the given number. -/
def idOf (size q : Nat) : Nat := q / size % lapGroups size

def newestId (size : Nat) (del : List Nat) : Nat := longest (del.map (idOf size))

/-- The packets of a group among those delivered, in order of delivery. -/
def arrivals (size g : Nat) (del : List Nat) : List Nat := del.filter fun q => q / size == g

/-- The packets of a group that have arrived since its last full batch of `d`. -/
def held (d size g : Nat) (del : List Nat) : List Nat := Blocks.rest d (arrivals size g del)

/-- No delivered packet has moved the window past the group of `q`. -/
def InWindow (size : Nat) (del : List Nat) (q : Nat) : Prop :=
  newestId size del ≤ idOf size q + 3 * size

instance (size : Nat) (del : List Nat) (q : Nat) : Decidable (InWindow size del q) :=
  inferInstanceAs (Decidable (_ ≤ _))

/-- No packet of another group waits under the id of `q`. -/
def Unmixed (d size : Nat) (del : List Nat) (q : Nat) : Prop :=
  ∀ q', q' ∈ held d size (q' / size) del → idOf size q' = idOf size q →
    InWindow size del q' → q' / size = q / size

/-- The packets that the delivery of `q` brings together. -/
def batch (d size : Nat) (del : List Nat) (q : Nat) : List Nat :=
  (if InWindow size del q then held d size (q / size) del else []) ++ [q]

/-- The data packets of the group of `q` that its batch lacks. -/
def lacking (d size : Nat) (del : List Nat) (q : Nat) : List Nat :=
  (List.range d).filter fun i => decide (q / size * size + i ∉ batch d size del q)

/-- What a decoder is meant to return when the packet with number `q` is delivered: once the
batch is full, the payloads of the data packets that the batch lacks. -/
def recovery (d size : Nat) (payloads : Nat → List Bytes) (del : List Nat) (q : Nat) :
    List Bytes :=
  if d ≤ (batch d size del q).length then
    (lacking d size del q).filterMap fun i => (payloads (q / size))[i]?
  else
    []

/-- The packet is filed under the number `q` and carries a body of that number. -/
structure Carries (d p : Nat) (carried : Nat → Bytes → Prop) (q : Nat) (packet : Bytes) :
    Prop where
  header : fecHeaderSize ≤ packet.length
  seq : seqid packet = .ok (q % pawsOf (d + p))
  body : carried q (packet.drop fecHeaderSize)

/-- The decoder holds the packets that have arrived since the last full batches, as long as
they are in the window. -/
structure Tracks (c : ReedSolomon) (d p : Nat) (carried : Nat → Bytes → Prop)
    (s : FecDecoder) (del : List Nat) : Prop where
  sound : s.Sound c d p
  newest : s.newestShardId = newestId (d + p) del
  stored : ∀ w i body, (s.shardsOf w)[i]? = some (some body) → ∃ q,
    idOf (d + p) q = w ∧ q % (d + p) = i ∧ q ∈ held d (d + p) (q / (d + p)) del ∧
    InWindow (d + p) del q ∧ carried q body
  kept : ∀ q, q ∈ held d (d + p) (q / (d + p)) del → InWindow (d + p) del q →
    ∃ body, (s.shardsOf (idOf (d + p) q))[q % (d + p)]? = some (some body)

/-- Nothing but bodies of one group comes together in a batch that lacks a data packet. -/
def Restorable (c : ReedSolomon) (d p : Nat) (carried : Nat → Bytes → Prop)
    (payloads : Nat → List Bytes) (del : List Nat) (q : Nat) : Prop :=
  d ≤ (batch d (d + p) del q).length → lacking d (d + p) del q ≠ [] →
    ∀ q' ∈ batch d (d + p) del q, ∀ body, carried q' body →
      GroupBody c d p (payloads (q / (d + p))) (q' % (d + p)) body

theorem newestId_snoc (size : Nat) (del : List Nat) (q : Nat) :
    newestId size (del ++ [q]) = max (newestId size del) (idOf size q) := by
  rw [newestId, List.map_append]
  exact longest_snoc _ _

theorem idOf_le_newestId (h : q ∈ del) : idOf size q ≤ newestId size del :=
  le_longest (List.mem_map_of_mem h)

theorem inWindow_snoc : InWindow size (del ++ [q]) q' ↔
    InWindow size del q' ∧ idOf size q ≤ idOf size q' + 3 * size := by
  rw [InWindow, newestId_snoc]
  exact Nat.max_le

theorem inWindow_snoc_self : InWindow size (del ++ [q]) q ↔ InWindow size del q := by
  rw [inWindow_snoc]
  exact and_iff_left (Nat.le_add_right _ _)

theorem arrivals_snoc_self (size : Nat) (del : List Nat) (q : Nat) :
    arrivals size (q / size) (del ++ [q]) = arrivals size (q / size) del ++ [q] := by
  rw [arrivals, List.filter_append, List.filter_singleton, beq_self_eq_true]
  rfl

theorem arrivals_snoc_other (hg : g ≠ q / size) (del : List Nat) :
    arrivals size g (del ++ [q]) = arrivals size g del := by
  rw [arrivals, List.filter_append, List.filter_singleton, beq_false_of_ne (Ne.symm hg)]
  exact List.append_nil _

theorem mem_arrivals : q ∈ arrivals size g del ↔ q ∈ del ∧ q / size = g := by
  rw [arrivals, List.mem_filter, beq_iff_eq]

theorem mem_of_mem_held (h : q ∈ held d size g del) : q ∈ del ∧ q / size = g :=
  mem_arrivals.mp (Blocks.rest_subset _ _ h)

theorem length_held (d size g : Nat) (del : List Nat) :
    (held d size g del).length = (arrivals size g del).length % d :=
  Blocks.length_rest _ _

theorem held_nodup (h : del.Nodup) (d size g : Nat) : (held d size g del).Nodup :=
  List.Nodup.sublist (List.drop_sublist _ _) (h.filter _)

theorem held_snoc_other (hg : g ≠ q / size) (d : Nat) (del : List Nat) :
    held d size g (del ++ [q]) = held d size g del := by
  rw [held, held, arrivals_snoc_other hg]

theorem held_snoc_of_lt (h : (held d size (q / size) del).length + 1 < d) :
    held d size (q / size) (del ++ [q]) = held d size (q / size) del ++ [q] := by
  rw [length_held] at h
  rw [held, arrivals_snoc_self, Blocks.rest_snoc_of_lt h]
  rfl

theorem held_snoc_of_eq (h : (held d size (q / size) del).length + 1 = d) :
    held d size (q / size) (del ++ [q]) = [] := by
  rw [length_held] at h
  rw [held, arrivals_snoc_self, Blocks.rest_snoc_of_eq h]

theorem length_held_lt (hd : 0 < d) (size g : Nat) (del : List Nat) :
    (held d size g del).length < d := by
  rw [length_held]
  exact Nat.mod_lt _ hd

theorem eq_of_group_slot (hg : q' / size = q / size) (hs : q' % size = q % size) : q' = q := by
  rw [← Nat.div_add_mod q' size, hg, hs, Nat.div_add_mod]

theorem mem_batch : q' ∈ batch d size del q ↔
    (InWindow size del q ∧ q' ∈ held d size (q / size) del) ∨ q' = q := by
  rw [batch, List.mem_append, List.mem_singleton]
  split
  · rename_i hw
    rw [and_iff_right hw]
  · rename_i hw
    simp only [hw, false_and, List.not_mem_nil]

theorem batch_group (h : q' ∈ batch d size del q) : q' / size = q / size := by
  rcases mem_batch.mp h with ⟨_, hh⟩ | rfl
  · exact (mem_of_mem_held hh).2
  · rfl

theorem batch_nodup (hn : del.Nodup) (hf : q ∉ del) (d size : Nat) :
    (batch d size del q).Nodup := by
  rw [batch, List.nodup_append]
  refine ⟨?_, List.nodup_singleton q, ?_⟩
  · split
    · exact held_nodup hn _ _ _
    · exact List.nodup_nil
  · intro x hx y hy he
    rw [List.mem_singleton.mp hy] at he
    rw [he] at hx
    split at hx
    · exact hf (mem_of_mem_held hx).1
    · cases hx

theorem batch_slots_nodup (hn : del.Nodup) (hf : q ∉ del) (d size : Nat) :
    ((batch d size del q).map (· % size)).Nodup := by
  apply List.Nodup.map_on _ (batch_nodup hn hf d size)
  intro x hx y hy he
  exact eq_of_group_slot ((batch_group hx).trans (batch_group hy).symm) he

theorem Carries.slot (h : Carries d p carried q packet) (hv : ValidShards d p) :
    Slot d p packet (idOf (d + p) q) (q % (d + p)) where
  header := h.header
  seq := ⟨_, h.seq, Nat.mod_lt _ hv.paws_pos, (wrapped_div hv q).symm, (wrapped_mod hv q).symm⟩

theorem FecDecoder.shardsOf_store (s : FecDecoder) (g k : Nat) (shards : List (Option Bytes)) :
    (s.store g shards).shardsOf k = if k = g then shards else s.shardsOf k := by
  rw [FecDecoder.shardsOf, FecDecoder.lookup_store]
  split
  · rfl
  · rfl

theorem FecDecoder.shardsOf_take (s : FecDecoder) (g k : Nat) (shards : List (Option Bytes)) :
    (s.take g shards).shardsOf k =
      if k = g then List.replicate s.shardSize none else s.shardsOf k := by
  rw [FecDecoder.shardsOf, FecDecoder.lookup_take]
  split
  · rfl
  · rfl

theorem FecDecoder.Sound.shardsOf_discard (h : s.Sound c d p) (k : Nat) :
    s.discardOldShards.shardsOf k =
      if s.newestShardId ≤ k + 3 * (d + p) then s.shardsOf k
      else List.replicate (d + p) none := by
  rw [FecDecoder.shardsOf, h.lookup_discard, ← h.built.shardSize]
  split
  · rfl
  · rfl

end TokioKcp.Fec
