import TokioKcp.Fec.DecoderStep
import TokioKcp.Fec.SmallCodecs

namespace TokioKcp.Fec
set_option autoImplicit true

open Checked ErasureCode

variable {d p g i k : Nat} {c : ReedSolomon} {s t : FecDecoder} {packet : Bytes}
variable {shards : List (Option Bytes)}

/-- What bounds the memory of a decoder. -/
structure DecoderBounds (d p : Nat) (s : FecDecoder) : Prop where
  keys_le : ∀ g ∈ s.shardSet.keys, g ≤ s.newestShardId
  size_le : s.shardSet.size ≤ 3 * (d + p) + 1
  sets : ∀ g set, s.shardSet.lookup g = some set →
    set.shards.length = d + p ∧ 1 ≤ present set.shards ∧ present set.shards < d

/-- The slot that a packet names already holds a shard. -/
def SlotFilled (d p : Nat) (s : FecDecoder) (packet : Bytes) : Prop :=
  ∃ seq set body, seqid packet = .ok seq ∧ s.shardSet.lookup (seq / (d + p)) = some set ∧
    set.shards[seq % (d + p)]? = some (some body)

theorem Slot.lt_size (hv : ValidShards d p) (hs : Slot d p packet g i) : i < d + p := by
  obtain ⟨_, seq, _, _, _, rfl⟩ := hs
  exact hv.mod_lt_size seq

theorem Slot.lt_lap (hv : ValidShards d p) (hs : Slot d p packet g i) :
    g < lapGroups (d + p) := by
  obtain ⟨_, seq, _, hlt, rfl, _⟩ := hs
  exact group_lt_lap hv hlt

theorem FecDecoder.Sound.lookup_discard (h : s.Sound c d p) (k : Nat) :
    s.discardOldShards.shardSet.lookup k =
      if s.newestShardId ≤ k + 3 * (d + p) then s.shardSet.lookup k else none :=
  FecDecoder.lookup_discard h.built
    (Nat.lt_trans h.newest_lt_half (by decide)) h.keys_le k

theorem FecDecoder.Sound.discard (h : s.Sound c d p) : s.discardOldShards.Sound c d p where
  built := h.built.update _ _
  newest_lt := h.newest_lt
  keys_le := by
    intro k set hl
    rw [h.lookup_discard] at hl
    split at hl
    · exact h.keys_le k set hl
    · cases hl
  length := by
    intro k set hl
    rw [h.lookup_discard] at hl
    split at hl
    · exact h.length k set hl
    · cases hl

theorem FecDecoder.Sound.store (h : s.Sound c d p) (hg : g < lapGroups (d + p))
    (hl : shards.length = d + p) : (s.store g shards).Sound c d p where
  built := h.built.update _ _
  newest_lt := Nat.max_lt.mpr ⟨h.newest_lt, hg⟩
  keys_le := by
    intro k set hk
    rw [FecDecoder.lookup_store] at hk
    split at hk
    · rename_i he
      rw [he]
      exact Nat.le_max_right _ _
    · exact Nat.le_trans (h.keys_le k set hk) (Nat.le_max_left _ _)
  length := by
    intro k set hk
    rw [FecDecoder.lookup_store] at hk
    split at hk
    · cases hk
      exact hl
    · exact h.length k set hk

theorem FecDecoder.Sound.take (h : s.Sound c d p) (hg : g < lapGroups (d + p))
    (shards : List (Option Bytes)) : (s.take g shards).Sound c d p where
  built := h.built.update _ _
  newest_lt := Nat.max_lt.mpr ⟨h.newest_lt, hg⟩
  keys_le := by
    intro k set hk
    rw [FecDecoder.lookup_take] at hk
    split at hk
    · cases hk
    · exact Nat.le_trans (h.keys_le k set hk) (Nat.le_max_left _ _)
  length := by
    intro k set hk
    rw [FecDecoder.lookup_take] at hk
    split at hk
    · cases hk
    · exact h.length k set hk

/-- The payload that a restored data shard carries, if its size field makes sense. -/
def payloadOf (data : Bytes) : Option Bytes :=
  let size := LittleEndian.decode (data.take 2)
  if 2 ≤ data.length ∧ 2 ≤ size ∧ size ≤ data.length then some ((data.take size).drop 2) else none

theorem recoverPayload_eq (hi : i < shards.length) :
    recoverPayload shards i = .ok ((shards[i]?.join).bind payloadOf) := by
  have hget := List.getElem?_eq_getElem hi
  cases hx : shards[i] with
  | none =>
    rw [hx] at hget
    simp only [recoverPayload, index_of_getElem? hget, ok_bind, hget, Option.join_some]
    rfl
  | some data =>
    rw [hx] at hget
    simp only [recoverPayload, index_of_getElem? hget, ok_bind, hget, Option.join_some,
      Option.bind_some]
    match data with
    | [] => rfl
    | [_] => rfl
    | b₀ :: b₁ :: rest =>
      have hlen : ¬(b₀ :: b₁ :: rest).length < 2 := by
        rw [List.length_cons, List.length_cons]
        omega
      have h₀ : index (b₀ :: b₁ :: rest) 0 = .ok b₀ := rfl
      have h₁ : index (b₀ :: b₁ :: rest) 1 = .ok b₁ := rfl
      rw [if_neg hlen, payloadOf]
      simp only [h₀, h₁, ok_bind, Nat.le_of_not_lt hlen, true_and, List.take_succ_cons,
        List.take_zero]
      split
      · rename_i hs
        rw [slice_of_le hs.1 hs.2]
        rfl
      · rfl

theorem recoverPayloads_eq {idxs : List Nat} (h : ∀ i ∈ idxs, i < shards.length) :
    recoverPayloads shards idxs =
      .ok (idxs.filterMap fun i => (shards[i]?.join).bind payloadOf) := by
  induction idxs with
  | nil => rfl
  | cons i idxs ih =>
    have hi := h i List.mem_cons_self
    have hrest := ih (fun j hj => h j (List.mem_cons_of_mem _ hj))
    simp only [recoverPayloads, recoverPayload_eq hi, hrest, ok_bind, List.filterMap_cons]
    cases (shards[i]?.join).bind payloadOf <;> rfl

theorem mem_missingData :
    i ∈ missingData d shards ↔ i < shards.length ∧ i < d ∧ shards[i]? = some none := by
  rw [missingData, List.mem_filter, List.mem_range, Bool.and_eq_true, decide_eq_true_eq,
    beq_iff_eq]

theorem FecDecoder.reconstruct_complete (hm : missingData s.dataShards shards = []) :
    s.reconstruct ⟨shards⟩ = .ok (s.discardOldShards, .ok []) := by
  simp only [FecDecoder.reconstruct, if_pos hm]
  rfl

theorem FecDecoder.reconstruct_restored (ys : List (Option Bytes))
    (hm : missingData s.dataShards shards ≠ [])
    (hr : s.codec.reconstructData (shards.map (Option.map (resize (maxLen shards) 0))) = .ok ys)
    (hl : ys.length = shards.length) : s.reconstruct ⟨shards⟩ =
      .ok (s.discardOldShards, .ok ((missingData s.dataShards shards).filterMap fun i =>
        (ys[i]?.join).bind payloadOf)) := by
  have hlt (i : Nat) (hi : i ∈ missingData s.dataShards shards) : i < ys.length := by
    rw [hl]
    exact (mem_missingData.mp hi).1
  have hrec := recoverPayloads_eq hlt
  simp only [FecDecoder.reconstruct, if_neg hm, hr, hrec, ok_bind]
  rfl

theorem FecDecoder.Sound.reconstruct_total (h : s.Sound c d p) (hc : c.KeepsShardCount)
    (shards : List (Option Bytes)) : ∃ t r, s.reconstruct ⟨shards⟩ = .ok (t, r) ∧
      (t = s ∨ t = s.discardOldShards) := by
  by_cases hm : missingData s.dataShards shards = []
  · exact ⟨_, _, FecDecoder.reconstruct_complete hm, .inr rfl⟩
  · cases hr : s.codec.reconstructData (shards.map (Option.map (resize (maxLen shards) 0))) with
    | error err =>
      refine ⟨s, .error (fecError err), ?_, .inl rfl⟩
      simp only [FecDecoder.reconstruct, if_neg hm, hr]
      rfl
    | ok ys =>
      have hlen : ys.length = shards.length := by
        rw [h.built.codec] at hr
        rw [hc _ _ hr, List.length_map]
      exact ⟨_, _, FecDecoder.reconstruct_restored ys hm hr hlen, .inr rfl⟩

theorem length_set_shardsOf (h : s.Sound c d p) (g i : Nat) (body : Bytes) :
    ((s.shardsOf g).set i (some body)).length = d + p := by
  rw [List.length_set, h.length_shardsOf]

/-- The four ways in which `decode` can treat a packet that has a slot. -/
theorem FecDecoder.Sound.decode_cases (h : s.Sound c d p) (hc : c.KeepsShardCount)
    (hs : Slot d p packet g i) : ∃ t r, s.decode packet = .ok (t, r) ∧
      (t = s ∨ ∃ shards, shards = (s.shardsOf g).set i (some (packet.drop fecHeaderSize)) ∧
        ((present shards < d ∧ t = (s.store g shards).discardOldShards) ∨
          t = s.take g shards ∨ t = (s.take g shards).discardOldShards)) := by
  rw [h.decode_slot hs]
  split
  · exact ⟨s, .ok [], rfl, .inl rfl⟩
  · dsimp only
    split
    · rename_i hlt
      exact ⟨_, .ok [], rfl, .inr ⟨_, rfl, .inl ⟨hlt, rfl⟩⟩⟩
    · obtain ⟨t, r, hr, ht⟩ :=
        (h.take (hs.lt_lap h.built.valid) _).reconstruct_total hc _
      exact ⟨t, r, hr, .inr ⟨_, rfl, .inr ht⟩⟩

theorem FecDecoder.Sound.size_discard (h : s.Sound c d p) :
    s.discardOldShards.shardSet.size ≤ 3 * (d + p) + 1 := by
  apply FinMap.size_le_of_keys_lt (a := s.newestShardId - 3 * (d + p))
  intro k hk
  obtain ⟨set, hl⟩ := FinMap.mem_keys_iff.mp hk
  have hle := h.discard.keys_le k set hl
  rw [FecDecoder.newest_discard] at hle
  rw [h.lookup_discard] at hl
  split at hl
  · omega
  · cases hl

theorem FecDecoder.size_take_le (s : FecDecoder) (g : Nat) (shards : List (Option Bytes)) :
    (s.take g shards).shardSet.size ≤ s.shardSet.size := by
  apply FinMap.size_le_of_keys_subset
  intro k hk
  obtain ⟨set, hl⟩ := FinMap.mem_keys_iff.mp hk
  rw [FecDecoder.lookup_take] at hl
  split at hl
  · cases hl
  · exact FinMap.mem_keys_iff.mpr ⟨set, hl⟩

theorem FecDecoder.Sound.bounds (h : s.Sound c d p) (hs : s.shardSet.size ≤ 3 * (d + p) + 1)
    (hf : ∀ g set, s.shardSet.lookup g = some set →
      1 ≤ present set.shards ∧ present set.shards < d) : DecoderBounds d p s where
  keys_le := by
    intro g hg
    obtain ⟨set, hl⟩ := FinMap.mem_keys_iff.mp hg
    exact h.keys_le g set hl
  size_le := hs
  sets := fun g set hl => ⟨h.length g set hl, hf g set hl⟩

theorem FecDecoder.Sound.bounds_store (h : s.Sound c d p) (hb : DecoderBounds d p s)
    (hs : Slot d p packet g i)
    (hlt : present ((s.shardsOf g).set i (some (packet.drop fecHeaderSize))) < d) :
    DecoderBounds d p (s.store g ((s.shardsOf g).set i
      (some (packet.drop fecHeaderSize)))).discardOldShards := by
  have hv := h.built.valid
  have hstore := h.store (hs.lt_lap hv)
    (length_set_shardsOf h g i (packet.drop fecHeaderSize))
  apply hstore.discard.bounds hstore.size_discard
  intro k set hk
  rw [hstore.lookup_discard] at hk
  split at hk
  · rw [FecDecoder.lookup_store] at hk
    split at hk
    · cases hk
      refine ⟨present_pos_iff.mpr ⟨i, packet.drop fecHeaderSize, ?_⟩, hlt⟩
      rw [List.getElem?_set_self]
      rw [h.length_shardsOf]
      exact hs.lt_size hv
    · exact (hb.sets k set hk).2
  · cases hk

theorem FecDecoder.Sound.bounds_take (h : s.Sound c d p) (hb : DecoderBounds d p s)
    (hg : g < lapGroups (d + p)) (shards : List (Option Bytes)) :
    DecoderBounds d p (s.take g shards) := by
  apply (h.take hg shards).bounds (Nat.le_trans (s.size_take_le g shards) hb.size_le)
  intro k set hk
  rw [FecDecoder.lookup_take] at hk
  split at hk
  · cases hk
  · exact (hb.sets k set hk).2

theorem FecDecoder.Sound.bounds_discard (h : s.Sound c d p) (hb : DecoderBounds d p s) :
    DecoderBounds d p s.discardOldShards := by
  apply h.discard.bounds h.size_discard
  intro k set hk
  rw [h.lookup_discard] at hk
  split at hk
  · exact (hb.sets k set hk).2
  · cases hk

theorem FecDecoder.Sound.decode_filled (h : s.Sound c d p) (hs : Slot d p packet g i)
    (hf : SlotFilled d p s packet) : s.decode packet = .ok (s, .ok []) := by
  obtain ⟨seq, set, body, hseq, hl, hb⟩ := hf
  have hv := h.built.valid
  rw [h.decode_slot hs, if_pos]
  obtain ⟨_, seq', hseq', _, rfl, rfl⟩ := hs
  rw [hseq] at hseq'
  cases hseq'
  rw [FecDecoder.shardsOf, hl, Option.getD_some, hb]
  rfl

theorem FecDecoder.Sound.decode_step (h : s.Sound c d p) (hb : DecoderBounds d p s)
    (hc : c.KeepsShardCount) (packet : Bytes) : ∃ t r, s.decode packet = .ok (t, r) ∧
      t.Sound c d p ∧ DecoderBounds d p t ∧ s.newestShardId ≤ t.newestShardId ∧
      ((packet.length < fecHeaderSize ∨ (∃ seq, seqid packet = .ok seq ∧ s.paws ≤ seq) ∨
        SlotFilled d p s packet) → t = s) := by
  rcases ignored_or_slot d p packet with hi | ⟨g, i, hs⟩
  · obtain ⟨r, hr, _⟩ := h.built.decode_ignored hi
    exact ⟨s, r, hr, h, hb, Nat.le_refl _, fun _ => rfl⟩
  · obtain ⟨t, r, hr, ht⟩ := h.decode_cases hc hs
    have hg := hs.lt_lap h.built.valid
    refine ⟨t, r, hr, ?_, ?_, ?_, ?_⟩
    · rcases ht with rfl | ⟨shards, rfl, ⟨_, rfl⟩ | rfl | rfl⟩
      · exact h
      · exact (h.store hg (length_set_shardsOf h g i _)).discard
      · exact h.take hg _
      · exact (h.take hg _).discard
    · rcases ht with rfl | ⟨shards, rfl, ⟨hlt, rfl⟩ | rfl | rfl⟩
      · exact hb
      · exact h.bounds_store hb hs hlt
      · exact h.bounds_take hb hg _
      · exact (h.take hg _).bounds_discard (h.bounds_take hb hg _)
    · rcases ht with rfl | ⟨shards, rfl, ⟨_, rfl⟩ | rfl | rfl⟩
      · exact Nat.le_refl _
      · exact Nat.le_max_left _ _
      · exact Nat.le_max_left _ _
      · exact Nat.le_max_left _ _
    · intro hskip
      obtain ⟨hlen, seq, hseq, hlt, _, _⟩ := id hs
      rcases hskip with hshort | ⟨seq', hseq', hge⟩ | hfilled
      · exact absurd hlen (Nat.not_le_of_lt hshort)
      · rw [hseq] at hseq'
        cases hseq'
        rw [h.built.paws] at hge
        exact absurd hlt (Nat.not_lt_of_le hge)
      · rw [h.decode_filled hs hfilled] at hr
        cases hr
        rfl

def decodeAll (s : FecDecoder) (packets : List Bytes) :
    Exec (FecDecoder × List (IoResult (List Bytes))) :=
  runAll FecDecoder.decode s packets

theorem FecDecoder.sound_of_empty (hb : s.Built c d p) (hn : s.newestShardId = 0)
    (hs : s.shardSet = ∅) : s.Sound c d p where
  built := hb
  newest_lt := by
    have hl := hb.valid.lap_bounds
    omega
  keys_le := by
    intro g set hl
    rw [hs, AList.lookup_empty] at hl
    cases hl
  length := by
    intro g set hl
    rw [hs, AList.lookup_empty] at hl
    cases hl

theorem FecDecoder.bounds_of_empty (hs : s.shardSet = ∅) : DecoderBounds d p s where
  keys_le := by
    intro g hg
    rw [hs, AList.keys_empty] at hg
    cases hg
  size_le := by
    rw [hs, FinMap.size, AList.keys_empty]
    exact Nat.zero_le _
  sets := by
    intro g set hl
    rw [hs, AList.lookup_empty] at hl
    cases hl

/-- Whatever bytes a decoder is given, it returns and its memory stays bounded. -/
theorem decoder_bounded {rs : Nat → Nat → Except String ReedSolomon}
    (hv : validateShards d p = .ok (.ok ())) (hrs : rs d p = .ok c) (hc : c.KeepsShardCount) :
    ∃ s, FecDecoder.new rs d p = .ok (.ok s) ∧ ∀ packets, ∃ t outs,
      decodeAll s packets = .ok (t, outs) ∧ DecoderBounds d p t ∧
      ∀ packet, ∃ u r, t.decode packet = .ok (u, r) ∧ t.newestShardId ≤ u.newestShardId ∧
        ((packet.length < fecHeaderSize ∨ (∃ seq, seqid packet = .ok seq ∧ t.paws ≤ seq) ∨
          SlotFilled d p t packet) → u = t) := by
  obtain ⟨s, hs, hb, hn, hm⟩ := FecDecoder.new_ok (validateShards_ok_iff.mp hv) hrs
  refine ⟨s, hs, fun packets => ?_⟩
  obtain ⟨t, outs, hr, ht⟩ := runAll_invariant
    (P := fun s : FecDecoder => s.Sound c d p ∧ DecoderBounds d p s)
    ⟨FecDecoder.sound_of_empty hb hn hm, FecDecoder.bounds_of_empty hm⟩
    (fun t packet ht => by
      obtain ⟨u, r, hu, hsu, hbu, _⟩ := ht.1.decode_step ht.2 hc packet
      exact ⟨u, r, hu, hsu, hbu⟩) packets
  refine ⟨t, outs, hr, ht.2, fun packet => ?_⟩
  obtain ⟨u, r, hu, _, _, hle, hsame⟩ := ht.1.decode_step ht.2 hc packet
  exact ⟨u, r, hu, hle, hsame⟩

theorem decoder_bounded_two_one : ∃ s, FecDecoder.new reedSolomon 2 1 = .ok (.ok s) ∧
    ∀ packets, ∃ t outs, decodeAll s packets = .ok (t, outs) ∧ DecoderBounds 2 1 t ∧
      ∀ packet, ∃ u r, t.decode packet = .ok (u, r) ∧ t.newestShardId ≤ u.newestShardId ∧
        ((packet.length < fecHeaderSize ∨ (∃ seq, seqid packet = .ok seq ∧ t.paws ≤ seq) ∨
          SlotFilled 2 1 t packet) → u = t) :=
  decoder_bounded rfl rfl reedSolomon21_keepsShardCount

end TokioKcp.Fec
