import TokioKcp.Fec.Decoder
import TokioKcp.Lib.Blocks

namespace TokioKcp.Fec
set_option autoImplicit true

open Checked ErasureCode

variable {d p g i k : Nat} {c : ReedSolomon} {s : FecDecoder}

/-- What keeps `decode` from aborting. -/
structure FecDecoder.Sound (s : FecDecoder) (c : ReedSolomon) (d p : Nat) : Prop where
  built : s.Built c d p
  newest_lt : s.newestShardId < lapGroups (d + p)
  keys_le : ∀ g set, s.shardSet.lookup g = some set → g ≤ s.newestShardId
  length : ∀ g set, s.shardSet.lookup g = some set → set.shards.length = d + p

def FecDecoder.shardsOf (s : FecDecoder) (g : Nat) : List (Option Bytes) :=
  ((s.shardSet.lookup g).getD ⟨List.replicate s.shardSize none⟩).shards

def FecDecoder.store (s : FecDecoder) (g : Nat) (shards : List (Option Bytes)) : FecDecoder :=
  { s with
    shardSet := (s.shardSet.orInsert g ⟨List.replicate s.shardSize none⟩).1.insert g ⟨shards⟩
    newestShardId := max s.newestShardId g }

/-- The decoder after the set of a group has been stored and taken out again. -/
def FecDecoder.take (s : FecDecoder) (g : Nat) (shards : List (Option Bytes)) : FecDecoder :=
  { s.store g shards with shardSet := (s.store g shards).shardSet.erase g }

@[simp] theorem FecDecoder.newest_store (s : FecDecoder) (g : Nat)
    (shards : List (Option Bytes)) :
    (s.store g shards).newestShardId = max s.newestShardId g := rfl

@[simp] theorem FecDecoder.newest_take (s : FecDecoder) (g : Nat)
    (shards : List (Option Bytes)) :
    (s.take g shards).newestShardId = max s.newestShardId g := rfl

@[simp] theorem FecDecoder.newest_discard (s : FecDecoder) :
    s.discardOldShards.newestShardId = s.newestShardId := rfl

theorem FecDecoder.lookup_store (s : FecDecoder) (g k : Nat) (shards : List (Option Bytes)) :
    (s.store g shards).shardSet.lookup k =
      if k = g then some ⟨shards⟩ else s.shardSet.lookup k :=
  FinMap.lookup_orInsert_insert _ _ _ _ _

theorem FecDecoder.lookup_take (s : FecDecoder) (g k : Nat) (shards : List (Option Bytes)) :
    (s.take g shards).shardSet.lookup k = if k = g then none else s.shardSet.lookup k := by
  rw [FecDecoder.take, FinMap.lookup_erase_of]
  split
  · rfl
  · rename_i h
    rw [FecDecoder.lookup_store, if_neg h]

theorem FecDecoder.lookup_discard (hb : s.Built c d p) (hn : s.newestShardId < 2 ^ 32)
    (hk : ∀ g set, s.shardSet.lookup g = some set → g ≤ s.newestShardId) (k : Nat) :
    s.discardOldShards.shardSet.lookup k =
      if s.newestShardId ≤ k + 3 * (d + p) then s.shardSet.lookup k else none := by
  have hcast : cast 32 s.shardSize = d + p := by
    rw [hb.shardSize, hb.valid.cast_size]
  rw [FecDecoder.discardOldShards, FinMap.lookup_retain, hcast, maxShardSets]
  cases hl : s.shardSet.lookup k with
  | none => rw [ite_self, ite_self]
  | some set =>
    have hle := hk k set hl
    rw [wrappingSub_of_le hle hn]
    by_cases hw : s.newestShardId ≤ k + 3 * (d + p)
    · rw [if_pos hw, if_pos (decide_eq_true (by omega))]
    · rw [if_neg hw, if_neg (by rw [decide_eq_true_eq]; omega)]

theorem FecDecoder.Sound.newest_lt_half (h : s.Sound c d p) : s.newestShardId < 2 ^ 31 :=
  Nat.lt_trans h.newest_lt h.built.valid.lap_bounds.2

theorem FecDecoder.Sound.length_shardsOf (h : s.Sound c d p) (g : Nat) :
    (s.shardsOf g).length = d + p := by
  rw [FecDecoder.shardsOf]
  cases hl : s.shardSet.lookup g with
  | none =>
    rw [Option.getD_none, List.length_replicate]
    exact h.built.shardSize
  | some set => exact h.length g set hl

theorem group_lt_lap {seq : Nat} (hv : ValidShards d p) (h : seq < pawsOf (d + p)) :
    seq / (d + p) < lapGroups (d + p) := by
  rw [Nat.div_lt_iff_lt_mul hv.size_pos, ← hv.paws_eq]
  exact h

theorem seqid_ok {packet : Bytes} (h : fecHeaderSize ≤ packet.length) :
    ∃ seq, seqid packet = .ok seq := by
  rw [fecHeaderSize] at h
  have h₀ := index_of_lt (show 0 < packet.length by omega)
  have h₁ := index_of_lt (show 1 < packet.length by omega)
  have h₂ := index_of_lt (show 2 < packet.length by omega)
  have h₃ := index_of_lt (show 3 < packet.length by omega)
  exact ⟨LittleEndian.decode [packet[0], packet[1], packet[2], packet[3]],
    by simp only [seqid, h₀, h₁, h₂, h₃, ok_bind]; rfl⟩

/-- The newest group after a packet of group `g`: the half-range test never interferes. -/
theorem newest_update (newest : Nat) (hg : g < 2 ^ 31) :
    (if wrappingSub 32 g newest < 0x80000000 ∧ g > newest then g else newest) =
      max newest g := by
  by_cases hlt : newest < g
  · have hsub : wrappingSub 32 g newest = g - newest :=
      wrappingSub_of_le (Nat.le_of_lt hlt) (by omega)
    rw [if_pos ⟨by omega, hlt⟩, Nat.max_eq_right (Nat.le_of_lt hlt)]
  · rw [if_neg (fun hc => hlt hc.2), Nat.max_eq_left (Nat.le_of_not_lt hlt)]

/-- The slot that a packet falls into, and the packet's body. -/
structure Slot (d p : Nat) (packet : Bytes) (g i : Nat) : Prop where
  header : fecHeaderSize ≤ packet.length
  seq : ∃ seq, seqid packet = .ok seq ∧ seq < pawsOf (d + p) ∧ g = seq / (d + p) ∧
    i = seq % (d + p)

/-- Packets that the decoder ignores before it looks at its sets. -/
def Ignored (d p : Nat) (packet : Bytes) : Prop :=
  packet.length < fecHeaderSize ∨ ∃ seq, seqid packet = .ok seq ∧ pawsOf (d + p) ≤ seq

theorem ignored_or_slot (d p : Nat) (packet : Bytes) :
    Ignored d p packet ∨ ∃ g i, Slot d p packet g i := by
  by_cases hlen : packet.length < fecHeaderSize
  · exact .inl (.inl hlen)
  · obtain ⟨seq, hs⟩ := seqid_ok (Nat.le_of_not_lt hlen)
    by_cases hp : pawsOf (d + p) ≤ seq
    · exact .inl (.inr ⟨seq, hs, hp⟩)
    · exact .inr ⟨_, _, Nat.le_of_not_lt hlen, seq, hs, Nat.lt_of_not_le hp, rfl, rfl⟩

theorem FecDecoder.Built.decode_ignored (hb : s.Built c d p) (h : Ignored d p packet) :
    ∃ r, s.decode packet = .ok (s, r) ∧ (∀ out, r = .ok out → out = []) := by
  by_cases hlen : packet.length < fecHeaderSize
  · refine ⟨.error ⟨.invalidInput, "FEC packet too short"⟩, ?_, fun out ho => ?_⟩
    · simp only [FecDecoder.decode, if_pos hlen]
      rfl
    · cases ho
  · rcases h with h | ⟨seq, hs, hp⟩
    · exact absurd h hlen
    · refine ⟨.ok [], ?_, fun out ho => ?_⟩
      · simp only [FecDecoder.decode, if_neg hlen, hs, ok_bind, hb.paws, ge_iff_le, if_pos hp]
        rfl
      · cases ho
        rfl

/-- Everything that `decode` does with a packet that has a slot. -/
theorem FecDecoder.Sound.decode_slot (h : s.Sound c d p) (hs : Slot d p packet g i) :
    s.decode packet =
      if ((s.shardsOf g)[i]?.join).isSome then .ok (s, .ok [])
      else
        let shards := (s.shardsOf g).set i (some (packet.drop fecHeaderSize))
        if present shards < d then .ok ((s.store g shards).discardOldShards, .ok [])
        else (s.take g shards).reconstruct ⟨shards⟩ := by
  obtain ⟨hlen, seq, hseq, hlt, rfl, rfl⟩ := hs
  have hv := h.built.valid
  have hg := group_lt_lap hv hlt
  have hi := hv.mod_lt_size seq
  have hsnd : (s.shardSet.orInsert (seq / (d + p)) ⟨List.replicate s.shardSize none⟩).2.shards =
      s.shardsOf (seq / (d + p)) := by
    rw [FinMap.orInsert_snd]
    rfl
  obtain ⟨slot, hget⟩ : ∃ slot, (s.shardsOf (seq / (d + p)))[seq % (d + p)]? = some slot :=
    ⟨_, List.getElem?_eq_getElem (by rw [h.length_shardsOf]; exact hi)⟩
  have hdiv : div seq (cast 32 s.shardSize) = .ok (seq / (d + p)) := by
    rw [h.built.shardSize, hv.cast_size]
    exact div_of_pos hv.size_pos
  have hrem : rem seq s.shardSize = .ok (seq % (d + p)) := by
    rw [h.built.shardSize]
    exact rem_of_pos hv.size_pos
  have hnew := newest_update s.newestShardId
    (Nat.lt_trans hg hv.lap_bounds.2)
  have hlook : unwrap ((s.store (seq / (d + p)) ((s.shardsOf (seq / (d + p))).set
      (seq % (d + p)) (some (packet.drop fecHeaderSize)))).shardSet.lookup (seq / (d + p))) =
      .ok ⟨(s.shardsOf (seq / (d + p))).set (seq % (d + p))
        (some (packet.drop fecHeaderSize))⟩ := by
    rw [FecDecoder.lookup_store, if_pos rfl]
    rfl
  have hpaws : ¬seq ≥ s.paws := by
    rw [h.built.paws]
    exact Nat.not_le_of_lt hlt
  have hcmp (n : Nat) : (n < s.dataShards) = (n < d) := by rw [h.built.dataShards]
  cases slot with
  | some body =>
    have hsome : (s.shardSet.lookup (seq / (d + p))).isSome := by
      cases hl : s.shardSet.lookup (seq / (d + p)) with
      | some set => rfl
      | none =>
        rw [FecDecoder.shardsOf, hl, Option.getD_none, List.getElem?_replicate] at hget
        split at hget <;> cases hget
    obtain ⟨set, hset⟩ := Option.isSome_iff_exists.mp hsome
    simp only [FecDecoder.decode, if_neg (Nat.not_lt_of_le hlen), hseq, ok_bind, if_neg hpaws,
      hdiv, hrem, hsnd, index_of_getElem? hget, hget, Option.join_some, Option.isSome_some,
      if_true, FinMap.orInsert_fst_of_some hset]
    rfl
  | none =>
    simp only [FecDecoder.decode, if_neg (Nat.not_lt_of_le hlen), hseq, ok_bind, if_neg hpaws,
      hdiv, hrem, hsnd, index_of_getElem? hget, hget, Option.join_some, Option.isSome_none,
      Bool.false_eq_true, if_false, sliceFrom_of_le hlen, hnew, hcmp]
    split
    · rfl
    · simp only [FecDecoder.store] at hlook
      simp only [hlook, ok_bind]
      rfl

end TokioKcp.Fec
