import TokioKcp.Fec.DecoderBounds
import TokioKcp.Fec.NumberingInvariant

namespace TokioKcp.Fec
set_option autoImplicit true

open Checked ErasureCode

variable {d p g i j k : Nat} {c : ReedSolomon} {s : FecDecoder}
variable {payload body : Bytes} {payloads : List Bytes} {shards : List (Option Bytes)}

/-- What the packet in slot `i` of a group carries after its header: a data packet the body
of its payload, a parity packet its shard of the encoded group. -/
def GroupBody (c : ReedSolomon) (d p : Nat) (payloads : List Bytes) (i : Nat)
    (body : Bytes) : Prop :=
  (i < d ∧ ∃ payload, payloads[i]? = some payload ∧ body = dataBody payload) ∨
  (d ≤ i ∧ payloads.length = d ∧ ∃ word,
    c.encode (groupShards p payloads) = .ok word ∧ word[i]? = some body)

theorem payloadOf_resize (hf : payload.length + 2 ≤ 0xffff) {n : Nat}
    (hn : (dataBody payload).length ≤ n) :
    payloadOf (resize n 0 (dataBody payload)) = some payload := by
  have hlen := length_dataBody payload
  have hsize : LittleEndian.decode ((resize n 0 (dataBody payload)).take 2) =
      payload.length + 2 := by
    rw [take_resize hn 0 (by omega), dataBody,
      List.take_left' (LittleEndian.length_encode 2 _), LittleEndian.decode_encode (by omega)]
  have htake : (resize n 0 (dataBody payload)).take (payload.length + 2) = dataBody payload := by
    rw [← hlen, take_resize hn 0 (Nat.le_refl _), List.take_length]
  simp only [payloadOf, hsize, htake]
  rw [if_pos (by rw [length_resize]; omega), dataBody,
    List.drop_left' (LittleEndian.length_encode 2 _)]

theorem maxLen_eq {parity : Bytes} {word : List Bytes} (hu : Uniform (groupLength payloads) word)
    (hs : ∀ (i : Nat) (body : Bytes), shards[i]? = some (some body) →
      body.length ≤ groupLength payloads)
    (hj : shards[j]? = some (some parity)) (hw : word[j]? = some parity) :
    maxLen shards = groupLength payloads := by
  apply Nat.le_antisymm
  · apply longest_le
    intro n hn
    obtain ⟨o, ho, rfl⟩ := List.mem_map.mp hn
    cases o with
    | none => exact Nat.zero_le _
    | some body =>
      obtain ⟨i, hi⟩ := List.getElem?_of_mem ho
      exact hs i body hi
  · rw [← hu.2 parity (List.mem_of_getElem? hw)]
    exact le_longest (List.mem_map.mpr ⟨some parity, List.mem_of_getElem? hj, rfl⟩)

theorem GroupBody.parity {word : List Bytes} (h : GroupBody c d p payloads i body) (hi : d ≤ i)
    (hw : c.encode (groupShards p payloads) = .ok word) : word[i]? = some body := by
  rcases h with ⟨hlt, _⟩ | ⟨_, _, word', hw', hb⟩
  · omega
  · rw [hw] at hw'
    cases hw'
    exact hb

theorem GroupBody.resized {word : List Bytes} (h : GroupBody c d p payloads i body)
    (hw : c.encode (groupShards p payloads) = .ok word) (hu : Uniform (groupLength payloads) word)
    (ht : word.take d = payloads.map fun x => resize (groupLength payloads) 0 (dataBody x)) :
    word[i]? = some (resize (groupLength payloads) 0 body) := by
  by_cases hi : i < d
  · rcases h with ⟨_, payload, hp, rfl⟩ | ⟨hle, _⟩
    · rw [← List.getElem?_take_of_lt hi, ht, List.getElem?_map, hp]
      rfl
    · omega
  · have hp := h.parity (Nat.le_of_not_lt hi) hw
    rw [hp, ← hu.2 body (List.mem_of_getElem? hp), resize_self]

theorem GroupBody.length_le {word : List Bytes} (h : GroupBody c d p payloads i body)
    (hw : c.encode (groupShards p payloads) = .ok word)
    (hu : Uniform (groupLength payloads) word) : body.length ≤ groupLength payloads := by
  rcases id h with ⟨_, payload, hp, rfl⟩ | ⟨hle, _⟩
  · exact length_le_groupLength (List.mem_of_getElem? hp)
  · exact Nat.le_of_eq (hu.2 body (List.mem_of_getElem? (h.parity hle hw)))

/-- A set that holds enough shards of one group restores the payloads that it lacks. -/
theorem FecDecoder.Sound.reconstruct_group (h : s.Sound c d p) (hc : c.Lawful d p)
    (hf : ∀ x ∈ payloads, x.length + 2 ≤ 0xffff) (hl : shards.length = d + p)
    (hb : ∀ (i : Nat) (body : Bytes), shards[i]? = some (some body) →
      GroupBody c d p payloads i body)
    (hp : d ≤ present shards) : s.reconstruct ⟨shards⟩ =
      .ok (s.discardOldShards, .ok ((missingData d shards).filterMap fun i => payloads[i]?)) := by
  have hd := h.built.dataShards
  by_cases hm : missingData d shards = []
  · rw [FecDecoder.reconstruct_complete (by rw [hd, hm]), hm]
    rfl
  · obtain ⟨m, hmem⟩ := List.exists_mem_of_ne_nil _ hm
    obtain ⟨_, hmd, hhole⟩ := mem_missingData.mp hmem
    obtain ⟨j, parity, hj, hpar⟩ := exists_present_from hp hmd hhole
    have hbody := hb j parity hpar
    obtain ⟨hlen, word, hw⟩ : payloads.length = d ∧ ∃ word,
        c.encode (groupShards p payloads) = .ok word := by
      rcases hbody with ⟨hlt, _⟩ | ⟨_, hlen, word, hw, _⟩
      · omega
      · exact ⟨hlen, word, hw⟩
    obtain ⟨hwl, hu, ht⟩ := groupWord_spec hc.systematic h.built.valid.data_pos hlen hw
    have hmax : maxLen shards = groupLength payloads :=
      maxLen_eq hu (fun i body hi => (hb i body hi).length_le hw hu) hpar (hbody.parity hj hw)
    have hpart : PartOf (shards.map (Option.map (resize (maxLen shards) 0))) word := by
      refine ⟨by rw [List.length_map, hl, hwl], fun i x hx => ?_⟩
      rw [List.getElem?_map] at hx
      obtain ⟨o, ho, hox⟩ := Option.map_eq_some_iff.mp hx
      obtain ⟨body, rfl, rfl⟩ := Option.map_eq_some_iff.mp hox
      rw [hmax]
      exact (hb i body ho).resized hw hu ht
    have hne : payloads ≠ [] := by
      intro he
      rw [he, List.length_nil] at hlen
      omega
    obtain ⟨ys, hr, hyl, hys⟩ := hc.restores _ (groupShards p payloads) word _
      (by rw [length_groupShards, hlen]) (uniform_groupShards p hne) hw hpart
      (by rw [present_map]; exact hp)
    rw [FecDecoder.reconstruct_restored ys (by rw [hd]; exact hm)
      (by rw [h.built.codec]; exact hr) (by rw [hyl, hl]), hd]
    congr 3
    apply List.filterMap_congr
    intro i hi
    have hid := (mem_missingData.mp hi).2.1
    obtain ⟨payload, hpay⟩ : ∃ payload, payloads[i]? = some payload :=
      ⟨_, List.getElem?_eq_getElem (by omega)⟩
    have hmemp := List.mem_of_getElem? hpay
    rw [hys i hid, ← List.getElem?_take_of_lt hid, ht, List.getElem?_map, hpay]
    exact payloadOf_resize (hf payload hmemp) (length_le_groupLength hmemp)

end TokioKcp.Fec
