import TokioKcp.Fec.RoundTrip

namespace TokioKcp.Fec
set_option autoImplicit true

open Checked ErasureCode

variable {d p g i q : Nat} {c : ReedSolomon} {s t : FecDecoder} {packet body : Bytes}
variable {payloads : Nat → List Bytes} {calls : List Call} {shards : List (Option Bytes)}
variable {e : FecEncoder} {out : IoResult EncodedPackets}

/-- Every shard that a decoder holds is a body of the group that it is held for, whatever came,
in which order and how often. -/
structure Gathers (c : ReedSolomon) (d p : Nat) (payloads : Nat → List Bytes)
    (s : FecDecoder) : Prop where
  sound : s.Sound c d p
  stored : ∀ g i body, (s.shardsOf g)[i]? = some (some body) →
    GroupBody c d p (payloads g) i body

theorem gathers_of_empty (hb : s.Built c d p) (hn : s.newestShardId = 0) (hs : s.shardSet = ∅)
    (payloads : Nat → List Bytes) : Gathers c d p payloads s where
  sound := FecDecoder.sound_of_empty hb hn hs
  stored := by
    intro g i body h
    rw [FecDecoder.shardsOf, hs, AList.lookup_empty] at h
    exact absurd h (getElem?_replicate_none _ _ _)

theorem GroupBody.append (h : GroupBody c d p (groupPayloads d calls g) i body) (hd : 0 < d)
    (more : List Call) : GroupBody c d p (groupPayloads d (calls ++ more) g) i body := by
  rcases h with ⟨hi, payload, hp, rfl⟩ | ⟨hi, hlen, word, hw, hb⟩
  · refine .inl ⟨hi, payload, ?_, rfl⟩
    rw [groupPayloads_getElem? hi] at hp ⊢
    obtain ⟨call, hcall, rfl⟩ := Option.map_eq_some_iff.mp hp
    rw [List.getElem?_append_left (List.getElem?_eq_some_iff.mp hcall).1, hcall]
    rfl
  · rw [groupPayloads_append (group_end_le_of_length hd hlen)]
    exact .inr ⟨hi, hlen, word, hw, hb⟩

theorem Gathers.append (h : Gathers c d p (groupPayloads d calls) s) (more : List Call) :
    Gathers c d p (groupPayloads d (calls ++ more)) s where
  sound := h.sound
  stored g i body hb := (h.stored g i body hb).append h.sound.built.valid.data_pos more

theorem Gathers.joined (h : Gathers c d p payloads s) (hi : i < d + p)
    (hb : GroupBody c d p (payloads g) i body) (k : Nat) (body' : Bytes)
    (hk : ((s.shardsOf g).set i (some body))[k]? = some (some body')) :
    GroupBody c d p (payloads g) k body' := by
  have hlt : i < (s.shardsOf g).length := by
    rw [h.sound.length_shardsOf]
    exact hi
  rcases (getElem?_set_some hlt).mp hk with ⟨rfl, rfl⟩ | ⟨_, hold⟩
  · exact hb
  · exact h.stored g k body' hold

theorem Gathers.discard (h : Gathers c d p payloads s) :
    Gathers c d p payloads s.discardOldShards where
  sound := h.sound.discard
  stored := by
    intro g i body hb
    rw [h.sound.shardsOf_discard] at hb
    split at hb
    · exact h.stored g i body hb
    · exact absurd hb (getElem?_replicate_none _ _ _)

theorem Gathers.store (h : Gathers c d p payloads s) (hg : g < lapGroups (d + p))
    (hl : shards.length = d + p) (hb : ∀ (i : Nat) (body : Bytes),
      shards[i]? = some (some body) → GroupBody c d p (payloads g) i body) :
    Gathers c d p payloads (s.store g shards) where
  sound := h.sound.store hg hl
  stored := by
    intro k i body hk
    rw [FecDecoder.shardsOf_store] at hk
    split at hk
    · rename_i he
      rw [he]
      exact hb i body hk
    · exact h.stored k i body hk

theorem Gathers.take (h : Gathers c d p payloads s) (hg : g < lapGroups (d + p))
    (shards : List (Option Bytes)) : Gathers c d p payloads (s.take g shards) where
  sound := h.sound.take hg shards
  stored := by
    intro k i body hk
    rw [FecDecoder.shardsOf_take] at hk
    split at hk
    · exact absurd hk (getElem?_replicate_none _ _ _)
    · exact h.stored k i body hk

/-- A packet may come as often as it likes: what it brings back are payloads of its group. -/
theorem Gathers.decode (h : Gathers c d p payloads s) (hc : c.Lawful d p)
    (hfit : ∀ x ∈ payloads (q / (d + p)), x.length + 2 ≤ 0xffff) (hq : q < pawsOf (d + p))
    (hp : Carries d p (fun q => GroupBody c d p (payloads (q / (d + p))) (q % (d + p))) q packet) :
    ∃ t out, s.decode packet = .ok (t, .ok out) ∧ Gathers c d p payloads t ∧
      ∀ x ∈ out, x ∈ payloads (q / (d + p)) := by
  have hv := h.sound.built.valid
  have hg := group_lt_lap hv hq
  have hi : q % (d + p) < d + p := hv.mod_lt_size q
  have hslot : Slot d p packet (q / (d + p)) (q % (d + p)) := by
    have hslot := hp.slot hv
    rwa [idOf_of_lt hv hq] at hslot
  have hjoined := h.joined hi hp.body
  have hlen : ((s.shardsOf (q / (d + p))).set (q % (d + p))
      (some (packet.drop fecHeaderSize))).length = d + p := by
    rw [List.length_set]
    exact h.sound.length_shardsOf _
  rw [h.sound.decode_slot hslot]
  split
  · exact ⟨s, [], rfl, h, fun x hx => absurd hx List.not_mem_nil⟩
  · dsimp only
    split
    · exact ⟨_, [], rfl, (h.store hg hlen hjoined).discard, fun x hx => absurd hx List.not_mem_nil⟩
    · rename_i hfull
      have htake := h.take hg ((s.shardsOf (q / (d + p))).set (q % (d + p))
        (some (packet.drop fecHeaderSize)))
      refine ⟨_, _, htake.sound.reconstruct_group hc hfit hlen hjoined (Nat.le_of_not_lt hfull),
        htake.discard, ?_⟩
      intro x hx
      obtain ⟨i, _, hget⟩ := List.mem_filterMap.mp hx
      exact List.mem_of_getElem? hget

theorem numbered_append {size : Nat} (h : (q, packet) ∈ numbered d size calls)
    (more : List Call) : (q, packet) ∈ numbered d size (calls ++ more) := by
  obtain ⟨k, call, j, hk, hj, hq⟩ := mem_numbered.mp h
  refine mem_numbered.mpr ⟨k, call, j, ?_, hj, hq⟩
  rw [List.getElem?_append_left (List.getElem?_eq_some_iff.mp hk).1, hk]

theorem numbered_last {size : Nat} (h : packet ∈ out.toOption.getD []) :
    ∃ q, (q, packet) ∈ numbered d size (calls ++ accepted [((buf, now), out)]) := by
  cases out with
  | error err => cases h
  | ok packets =>
    obtain ⟨j, hj⟩ := List.getElem?_of_mem h
    exact ⟨_, mem_numbered.mpr ⟨calls.length, ⟨buf, now, packets⟩, j,
      List.getElem?_concat_length, hj, rfl⟩⟩

theorem accepted_singleton (buf : Bytes) (now : Nat) (out : IoResult EncodedPackets) :
    (accepted [((buf, now), out)]).map Call.payload ⊆ [buf] ∧
      (accepted [((buf, now), out)]).length ≤ 1 := by
  cases out with
  | error err => exact ⟨List.nil_subset _, Nat.zero_le _⟩
  | ok packets => exact ⟨List.Subset.refl _, Nat.le_refl _⟩

theorem Numbered.lt_paws (h : Numbered c d p e calls) (hc : c.Systematic d p)
    (hlap : calls.length ≤ lapGroups (d + p) * d) (hm : (q, packet) ∈ numbered d (d + p) calls) :
    q < pawsOf (d + p) := by
  have hv := h.built.valid
  obtain ⟨k, call, j, hk, hj, rfl⟩ := mem_numbered.mp hm
  have hlt := (List.getElem?_eq_some_iff.mp hk).1
  calc seqOf d (d + p) k + j
    _ < seqOf d (d + p) (k + 1) := h.seq_lt hc hk hj
    _ ≤ seqOf d (d + p) (lapGroups (d + p) * d) := seqOf_mono hv (Nat.le_trans hlt hlap)
    _ = pawsOf (d + p) := by
      rw [seqOf, Nat.mul_div_cancel _ hv.data_pos, Nat.mul_mod_left, Nat.add_zero, hv.paws_eq]

/-- What an encoder's packet brings to a decoder was encoded, as long as the numbers have not
wrapped. -/
theorem Gathers.deliver (h : Gathers c d p (groupPayloads d calls) s)
    (hn : Numbered c d p e calls) (hc : c.Lawful d p)
    (hm : (q, packet) ∈ numbered d (d + p) calls) (hq : q < pawsOf (d + p)) :
    ∃ t out, s.decode packet = .ok (t, .ok out) ∧ Gathers c d p (groupPayloads d calls) t ∧
      ∀ x ∈ (dataPayload packet).toList ++ out, ∃ call ∈ calls, call.payload = x := by
  obtain ⟨t, out, hdecode, ht, hout⟩ :=
    h.decode hc (hn.fits _) hq (hn.carries hc.systematic hm)
  refine ⟨t, out, hdecode, ht, ?_⟩
  intro x hx
  rcases List.mem_append.mp hx with hx | hx
  · rcases hn.packet_cases hc.systematic hm with ⟨_, call, hcall, rfl⟩ | ⟨_, body, _, rfl⟩
    · rw [dataPayload_packetOf, Option.toList_some, List.mem_singleton] at hx
      exact ⟨call, List.mem_of_getElem? hcall, hx.symm⟩
    · rw [dataPayload, isDataPacket, fecFlag_packetOf _ _ (by decide)] at hx
      cases hx
  · exact mem_groupPayloads (hout x hx)

end TokioKcp.Fec
