import TokioKcp.Fec.Delivery

namespace TokioKcp.Fec
set_option autoImplicit true

open Checked ErasureCode

variable {d p g i k q q' w : Nat} {c : ReedSolomon} {s t : FecDecoder} {packet body : Bytes}
variable {carried : Nat → Bytes → Prop} {payloads : Nat → List Bytes} {del : List Nat}
variable {shards : List (Option Bytes)}

theorem Tracks.hole (h : Tracks c d p carried s del) (hun : Unmixed d (d + p) del q)
    (hf : q ∉ del) : (s.shardsOf (idOf (d + p) q))[q % (d + p)]? = some none := by
  obtain ⟨o, ho⟩ : ∃ o, (s.shardsOf (idOf (d + p) q))[q % (d + p)]? = some o :=
    ⟨_, List.getElem?_eq_getElem (by
      rw [h.sound.length_shardsOf]
      exact h.sound.built.valid.mod_lt_size q)⟩
  cases o with
  | none => exact ho
  | some body =>
    obtain ⟨q', hid, hslot, hheld, hwin, _⟩ := h.stored _ _ body ho
    have he := eq_of_group_slot (hun q' hheld hid hwin) hslot
    rw [he] at hheld
    exact absurd (mem_of_mem_held hheld).1 hf

theorem getElem?_set_some {xs : List (Option Bytes)} (hi : i < xs.length) :
    (xs.set i (some body))[k]? = some (some body') ↔
      (k = i ∧ body' = body) ∨ (k ≠ i ∧ xs[k]? = some (some body')) := by
  by_cases hk : k = i
  · rw [hk, List.getElem?_set_self hi]
    simp only [Option.some.injEq, true_and, ne_eq, not_true_eq_false, false_and, or_false]
    exact eq_comm
  · rw [List.getElem?_set_ne (Ne.symm hk)]
    simp only [hk, false_and, false_or, ne_eq, not_false_eq_true, true_and]

/-- The set of the packet's group once the packet is stored. -/
def FecDecoder.joined (s : FecDecoder) (d p q : Nat) (packet : Bytes) : List (Option Bytes) :=
  (s.shardsOf (idOf (d + p) q)).set (q % (d + p)) (some (packet.drop fecHeaderSize))

theorem Tracks.length_joined (h : Tracks c d p carried s del) (q : Nat) (packet : Bytes) :
    (s.joined d p q packet).length = d + p :=
  length_set_shardsOf h.sound _ _ _

theorem Tracks.slot_lt (h : Tracks c d p carried s del) (q : Nat) :
    q % (d + p) < (s.shardsOf (idOf (d + p) q)).length := by
  rw [h.sound.length_shardsOf]
  exact h.sound.built.valid.mod_lt_size q

theorem Tracks.joined_stored (h : Tracks c d p carried s del)
    (hun : Unmixed d (d + p) del q) (hq : Carries d p carried q packet)
    (hb : (s.joined d p q packet)[i]? = some (some body)) :
    ∃ q' ∈ batch d (d + p) del q, q' % (d + p) = i ∧ carried q' body := by
  rcases (getElem?_set_some (h.slot_lt q)).mp hb with ⟨rfl, rfl⟩ | ⟨_, hold⟩
  · exact ⟨q, mem_batch.mpr (.inr rfl), rfl, hq.body⟩
  · obtain ⟨q', hid, hslot, hheld, hwin, hbody⟩ := h.stored _ _ body hold
    rw [hun q' hheld hid hwin] at hheld
    rw [InWindow, hid] at hwin
    exact ⟨q', mem_batch.mpr (.inl ⟨hwin, hheld⟩), hslot, hbody⟩

theorem idOf_of_group {size : Nat} (h : q' / size = q / size) : idOf size q' = idOf size q := by
  rw [idOf, idOf, h]

theorem Tracks.joined_kept (h : Tracks c d p carried s del)
    (hb : q' ∈ batch d (d + p) del q) :
    ∃ body, (s.joined d p q packet)[q' % (d + p)]? = some (some body) := by
  by_cases hslot : q' % (d + p) = q % (d + p)
  · exact ⟨_, (getElem?_set_some (h.slot_lt q)).mpr (.inl ⟨hslot, rfl⟩)⟩
  · rcases mem_batch.mp hb with ⟨hwin, hheld⟩ | rfl
    · have hg := (mem_of_mem_held hheld).2
      have hid := idOf_of_group hg
      rw [← hg] at hheld
      rw [InWindow, ← hid] at hwin
      obtain ⟨body, hbody⟩ := h.kept q' hheld hwin
      rw [hid] at hbody
      exact ⟨body, (getElem?_set_some (h.slot_lt q)).mpr (.inr ⟨hslot, hbody⟩)⟩
    · exact absurd rfl hslot

theorem Tracks.joined_iff (h : Tracks c d p carried s del) (hun : Unmixed d (d + p) del q)
    (hq : Carries d p carried q packet) (i : Nat) :
    i ∈ (batch d (d + p) del q).map (· % (d + p)) ↔
      ∃ body, (s.joined d p q packet)[i]? = some (some body) := by
  rw [List.mem_map]
  constructor
  · rintro ⟨q', hb, rfl⟩
    exact h.joined_kept hb
  · rintro ⟨body, hb⟩
    obtain ⟨q', hq', hslot, _⟩ := h.joined_stored hun hq hb
    exact ⟨q', hq', hslot⟩

theorem Tracks.present_joined (h : Tracks c d p carried s del)
    (hun : Unmixed d (d + p) del q) (hq : Carries d p carried q packet)
    (hn : del.Nodup) (hf : q ∉ del) :
    present (s.joined d p q packet) = (batch d (d + p) del q).length := by
  rw [present_eq_length (batch_slots_nodup hn hf d (d + p)) (h.joined_iff hun hq),
    List.length_map]

theorem filter_range_lt (d p : Nat) (f : Nat → Bool) :
    (List.range (d + p)).filter (fun i => decide (i < d) && f i) = (List.range d).filter f := by
  rw [List.range_add, List.filter_append]
  have hleft : (List.range d).filter (fun i => decide (i < d) && f i) =
      (List.range d).filter f := by
    apply List.filter_congr
    intro i hi
    rw [decide_eq_true (List.mem_range.mp hi), Bool.true_and]
  have hright : ((List.range p).map (d + ·)).filter (fun i => decide (i < d) && f i) = [] := by
    rw [List.filter_eq_nil_iff]
    intro i hi
    obtain ⟨j, _, rfl⟩ := List.mem_map.mp hi
    rw [decide_eq_false (by omega), Bool.false_and]
    exact Bool.false_ne_true
  rw [hleft, hright, List.append_nil]

theorem mem_slots_iff {size : Nat} (hi : i < size) :
    i ∈ (batch d size del q).map (· % size) ↔ q / size * size + i ∈ batch d size del q := by
  rw [List.mem_map]
  constructor
  · rintro ⟨q', hb, rfl⟩
    rw [← batch_group hb, Nat.div_add_mod']
    exact hb
  · intro hb
    exact ⟨_, hb, Blocks.mod_of_lt hi⟩

theorem Tracks.missing_joined (h : Tracks c d p carried s del)
    (hun : Unmixed d (d + p) del q) (hq : Carries d p carried q packet) :
    missingData d (s.joined d p q packet) = lacking d (d + p) del q := by
  rw [missingData, h.length_joined, filter_range_lt, lacking]
  apply List.filter_congr
  intro i hi
  have hid := List.mem_range.mp hi
  have hlt : i < (s.joined d p q packet).length := by
    rw [h.length_joined]
    exact Nat.lt_add_right p hid
  rw [Bool.eq_iff_iff, beq_iff_eq, decide_eq_true_eq,
    ← mem_slots_iff (Nat.lt_add_right p hid), h.joined_iff hun hq]
  constructor
  · rintro hn ⟨body, hb⟩
    rw [hn] at hb
    cases hb
  · intro hn
    rw [List.getElem?_eq_getElem hlt] at hn ⊢
    cases ho : (s.joined d p q packet)[i] with
    | none => rfl
    | some body => exact absurd ⟨body, congrArg some ho⟩ hn

theorem getElem?_replicate_none (n i : Nat) (body : Bytes) :
    (List.replicate n (none : Option Bytes))[i]? ≠ some (some body) := by
  intro h
  have hm := List.eq_of_mem_replicate (List.mem_of_getElem? h)
  cases hm

/-- A decoder tracks one more packet when only the set of that packet's group has changed,
to hold what is held of the group now, and the sets behind the window are gone. -/
theorem Tracks.next (h : Tracks c d p carried s del) (hun : Unmixed d (d + p) del q)
    (shards : List (Option Bytes)) (ht : t.Sound c d p)
    (hnew : t.newestShardId = newestId (d + p) (del ++ [q]))
    (hsets : ∀ k, t.shardsOf k =
      if newestId (d + p) (del ++ [q]) ≤ k + 3 * (d + p) then
        if k = idOf (d + p) q then shards else s.shardsOf k
      else List.replicate (d + p) none)
    (hstored : InWindow (d + p) del q → ∀ i body, shards[i]? = some (some body) →
      ∃ q' ∈ held d (d + p) (q / (d + p)) (del ++ [q]), q' % (d + p) = i ∧ carried q' body)
    (hkept : InWindow (d + p) del q → ∀ q' ∈ held d (d + p) (q / (d + p)) (del ++ [q]),
      ∃ body, shards[q' % (d + p)]? = some (some body)) :
    Tracks c d p carried t (del ++ [q]) where
  sound := ht
  newest := hnew
  stored := by
    intro w i body hb
    rw [hsets] at hb
    split at hb
    · rename_i hw
      split at hb
      · rename_i he
        rw [he] at hw
        have hwin := inWindow_snoc_self.mp hw
        obtain ⟨q', hheld, hslot, hbody⟩ := hstored hwin i body hb
        have hg := (mem_of_mem_held hheld).2
        have hid := idOf_of_group hg
        refine ⟨q', hid.trans he.symm, hslot, ?_, ?_, hbody⟩
        · rw [hg]
          exact hheld
        · rw [InWindow, hid]
          exact hw
      · rename_i he
        obtain ⟨q', hid, hslot, hheld, _, hbody⟩ := h.stored w i body hb
        have hg : q' / (d + p) ≠ q / (d + p) := by
          intro hg
          exact he (by rw [← hid, idOf_of_group hg])
        refine ⟨q', hid, hslot, ?_, ?_, hbody⟩
        · rw [held_snoc_other hg]
          exact hheld
        · rw [InWindow, hid]
          exact hw
    · exact absurd hb (getElem?_replicate_none _ _ _)
  kept := by
    intro q' hheld hwin
    have hle : newestId (d + p) (del ++ [q]) ≤ idOf (d + p) q' + 3 * (d + p) := hwin
    rw [hsets, if_pos hle]
    by_cases hg : q' / (d + p) = q / (d + p)
    · have hid := idOf_of_group hg
      rw [if_pos hid]
      rw [hg] at hheld
      rw [InWindow, hid] at hwin
      exact hkept (inWindow_snoc_self.mp hwin) q' hheld
    · rw [held_snoc_other hg] at hheld
      have hold := (inWindow_snoc.mp hwin).1
      rw [if_neg (fun hid => hg (hun q' hheld hid hold))]
      exact h.kept q' hheld hold

theorem batch_of_inWindow {size : Nat} (h : InWindow size del q) :
    batch d size del q = held d size (q / size) del ++ [q] := by
  rw [batch, if_pos h]

theorem length_batch_of_inWindow {size : Nat} (h : InWindow size del q) :
    (batch d size del q).length = (held d size (q / size) del).length + 1 := by
  rw [batch_of_inWindow h, List.length_append, List.length_singleton]

/-- One delivery: the decoder answers as it is meant to and keeps track. -/
theorem Tracks.deliver (h : Tracks c d p carried s del) (hc : c.Lawful d p)
    (hfit : ∀ x ∈ payloads (q / (d + p)), x.length + 2 ≤ 0xffff) (hn : del.Nodup) (hf : q ∉ del)
    (hun : Unmixed d (d + p) del q) (hq : Carries d p carried q packet)
    (hr : Restorable c d p carried payloads del q) :
    ∃ t, s.decode packet = .ok (t, .ok (recovery d (d + p) payloads del q)) ∧
      Tracks c d p carried t (del ++ [q]) := by
  have hv := h.sound.built.valid
  have hslot := hq.slot hv
  have hlap := hslot.lt_lap hv
  have hlen := h.length_joined q packet
  have hpresent := h.present_joined hun hq hn hf
  have hnewest : max s.newestShardId (idOf (d + p) q) = newestId (d + p) (del ++ [q]) := by
    rw [h.newest, newestId_snoc]
  have hsize : s.shardSize = d + p := h.sound.built.shardSize
  rw [h.sound.decode_slot hslot, h.hole hun hf, if_neg (by simp)]
  change ∃ t, (if present (s.joined d p q packet) < d then _ else _) = _ ∧ _
  rw [hpresent]
  by_cases hfull : d ≤ (batch d (d + p) del q).length
  · have htake := h.sound.take hlap (s.joined d p q packet)
    refine ⟨(s.take (idOf (d + p) q) (s.joined d p q packet)).discardOldShards, ?_, ?_⟩
    · rw [if_neg (Nat.not_lt_of_le hfull), recovery, if_pos hfull]
      have hmissing := h.missing_joined hun hq
      by_cases hlack : lacking d (d + p) del q = []
      · rw [hlack] at hmissing ⊢
        have hm : missingData (s.take (idOf (d + p) q) (s.joined d p q packet)).dataShards
            (s.joined d p q packet) = [] := by
          rw [htake.built.dataShards, hmissing]
        exact FecDecoder.reconstruct_complete hm
      · rw [← hmissing]
        apply htake.reconstruct_group hc hfit hlen
        · intro i body hb
          obtain ⟨q', hq', hi, hbody⟩ := h.joined_stored hun hq hb
          rw [← hi]
          exact hr hfull hlack q' hq' body hbody
        · rw [hpresent]
          exact hfull
    · apply h.next hun (List.replicate (d + p) none) htake.discard hnewest
      · intro k
        rw [htake.shardsOf_discard, FecDecoder.newest_take, hnewest,
          FecDecoder.shardsOf_take, hsize]
      · intro _ i body hb
        exact absurd hb (getElem?_replicate_none _ _ _)
      · intro hwin q' hheld
        rw [length_batch_of_inWindow hwin] at hfull
        have hlt := length_held_lt hv.data_pos (d + p) (q / (d + p)) del
        rw [held_snoc_of_eq (by omega)] at hheld
        cases hheld
  · have hstore := h.sound.store hlap hlen
    refine ⟨(s.store (idOf (d + p) q) (s.joined d p q packet)).discardOldShards, ?_, ?_⟩
    · rw [if_pos (Nat.lt_of_not_le hfull), recovery, if_neg hfull]
      rfl
    · have hbatch (hwin : InWindow (d + p) del q) :
          held d (d + p) (q / (d + p)) (del ++ [q]) = batch d (d + p) del q := by
        rw [length_batch_of_inWindow hwin] at hfull
        rw [held_snoc_of_lt (Nat.lt_of_not_le hfull), batch_of_inWindow hwin]
      apply h.next hun (s.joined d p q packet) hstore.discard hnewest
      · intro k
        rw [hstore.shardsOf_discard, FecDecoder.newest_store, hnewest,
          FecDecoder.shardsOf_store]
      · intro hwin i body hb
        rw [hbatch hwin]
        exact h.joined_stored hun hq hb
      · intro hwin q' hheld
        rw [hbatch hwin] at hheld
        exact h.joined_kept hheld

theorem tracks_of_empty (hb : s.Built c d p) (hn : s.newestShardId = 0) (hs : s.shardSet = ∅)
    (carried : Nat → Bytes → Prop) : Tracks c d p carried s [] where
  sound := FecDecoder.sound_of_empty hb hn hs
  newest := hn
  stored := by
    intro w i body h
    rw [FecDecoder.shardsOf, hs, AList.lookup_empty] at h
    exact absurd h (getElem?_replicate_none _ _ _)
  kept := by
    intro q hq
    cases (mem_of_mem_held hq).1

end TokioKcp.Fec
