import TokioKcp.Fec.Numbering
import TokioKcp.Fec.SmallCodecs
import Mathlib.Order.Monotone.Basic

namespace TokioKcp.Fec
set_option autoImplicit true

open Checked ErasureCode

variable {d p g i j k q : Nat} {e : FecEncoder} {calls : List Call} {c : ReedSolomon}

/-- The emitted packets with their numbers, counted without wrapping: the packets of a call
take consecutive numbers from that of its data packet. -/
def numbered (d size : Nat) (calls : List Call) : List (Nat × Bytes) :=
  (calls.mapIdx fun k call => call.packets.mapIdx fun j packet => (seqOf d size k + j, packet)).flatten

/-- What the peer may conclude from the numbers of an encoder's packets. -/
structure NumberingInvariant (c : ReedSolomon) (d p : Nat) (e : FecEncoder)
    (calls : List Call) : Prop where
  next_lt : e.next < e.paws
  aligned : e.next % (d + p) = e.shards.length
  partial_group : e.shards.length < d
  held : ∀ i, i < e.shards.length → ∃ call packet parity,
    calls[calls.length - e.shards.length + i]? = some call ∧ call.packets = packet :: parity ∧
    seqid packet = .ok (e.next - e.shards.length + i) ∧
    e.shards[i]? = some (packet.drop fecHeaderSize)
  data : ∀ call ∈ calls, ∃ packet parity id, call.packets = packet :: parity ∧
    isDataPacket packet ∧ seqid packet = .ok id ∧ id % (d + p) < d
  parity : ∀ k call, calls[k]? = some call → ∀ packet ∈ call.packets.tail, ∃ id word,
    isParityPacket packet ∧ seqid packet = .ok id ∧ d ≤ id % (d + p) ∧ d ≤ k + 1 ∧
    (∀ i, i < d → ∃ call' packet' parity' id', calls[k + 1 - d + i]? = some call' ∧
      call'.packets = packet' :: parity' ∧ seqid packet' = .ok id' ∧ id' % (d + p) = i ∧
      id' / (d + p) = id / (d + p)) ∧
    c.encode (groupShards p (((calls.drop (k + 1 - d)).take d).map Call.payload)) = .ok word ∧
    word[id % (d + p)]? = some (packet.drop fecHeaderSize)
  increasing : (numbered d (d + p) calls).Pairwise fun x y => x.1 < y.1
  ids : ∀ x ∈ numbered d (d + p) calls, seqid x.2 = .ok (x.1 % e.paws)
  size : ∀ k call, calls[k]? = some call → ∀ packet ∈ call.packets,
    ∃ payload ∈ groupPayloads d calls (k / d), packet.length ≤ payload.length + 8

theorem seqOf_div (hv : ValidShards d p) (k : Nat) : seqOf d (d + p) k / (d + p) = k / d :=
  Blocks.div_of_lt (Nat.lt_add_right p (Nat.mod_lt k hv.data_pos))

theorem seqOf_mod (hv : ValidShards d p) (k : Nat) : seqOf d (d + p) k % (d + p) = k % d :=
  Blocks.mod_of_lt (Nat.lt_add_right p (Nat.mod_lt k hv.data_pos))

theorem wrapped_mod (hv : ValidShards d p) (q : Nat) :
    q % pawsOf (d + p) % (d + p) = q % (d + p) := by
  rw [hv.paws_eq, Blocks.wrap_mod]

theorem wrapped_div (hv : ValidShards d p) (q : Nat) :
    q % pawsOf (d + p) / (d + p) = q / (d + p) % lapGroups (d + p) := by
  rw [hv.paws_eq, Blocks.wrap_div hv.size_pos]

theorem mem_numbered {size : Nat} : (q, packet) ∈ numbered d size calls ↔
    ∃ k call j, calls[k]? = some call ∧ call.packets[j]? = some packet ∧ q = seqOf d size k + j := by
  rw [numbered, List.mem_flatten]
  constructor
  · rintro ⟨block, hb, hq⟩
    obtain ⟨k, hk, rfl⟩ := List.mem_mapIdx.mp hb
    obtain ⟨j, hj, he⟩ := List.mem_mapIdx.mp hq
    cases he
    exact ⟨k, calls[k], j, List.getElem?_eq_getElem hk, List.getElem?_eq_getElem hj, rfl⟩
  · rintro ⟨k, call, j, hk, hj, rfl⟩
    obtain ⟨hk', rfl⟩ := List.getElem?_eq_some_iff.mp hk
    obtain ⟨hj', rfl⟩ := List.getElem?_eq_some_iff.mp hj
    exact ⟨_, List.mem_mapIdx.mpr ⟨k, hk', rfl⟩, List.mem_mapIdx.mpr ⟨j, hj', rfl⟩⟩

theorem CallPackets.getElem? (h : CallPackets c d p calls k call)
    (hj : call.packets[j]? = some packet) :
    (j = 0 ∧ packet =
      packetOf (pawsOf (d + p)) (seqOf d (d + p) k) typeData (dataBody call.payload)) ∨
    (0 < j ∧ k % d + 1 = d ∧ ∃ word body,
      c.encode (groupShards p (groupPayloads d calls (k / d))) = .ok word ∧
      word[d + (j - 1)]? = some body ∧
      packet = packetOf (pawsOf (d + p)) (seqOf d (d + p) k + j) typeParity body) := by
  obtain ⟨parity, he, hp⟩ := h.packets
  rw [he] at hj
  cases j with
  | zero =>
    cases hj
    exact .inl ⟨rfl, rfl⟩
  | succ j =>
    rw [List.getElem?_cons_succ] at hj
    rcases hp with ⟨rfl, _⟩ | ⟨⟨hlast, _⟩, word, hw, rfl⟩
    · cases hj
    · refine .inr ⟨Nat.succ_pos j, hlast, word, ?_⟩
      rw [parityPackets, List.getElem?_mapIdx, List.getElem?_drop] at hj
      obtain ⟨body, hb, rfl⟩ := Option.map_eq_some_iff.mp hj
      have hq : seqOf d (d + p) k + (j + 1) = k / d * (d + p) + d + j := by
        rw [seqOf]
        omega
      exact ⟨body, hw, hb, by rw [hq]⟩

theorem CallPackets.seqid_eq (h : CallPackets c d p calls k call) (hv : ValidShards d p)
    (hj : call.packets[j]? = some packet) :
    seqid packet = .ok ((seqOf d (d + p) k + j) % pawsOf (d + p)) := by
  rcases h.getElem? hj with ⟨rfl, rfl⟩ | ⟨_, _, word, body, _, _, rfl⟩
  · exact seqid_packetOf hv _ _ _
  · exact seqid_packetOf hv _ _ _

theorem length_groupPayloads (h : (g + 1) * d ≤ calls.length) :
    (groupPayloads d calls g).length = d := by
  rw [Nat.add_mul, Nat.one_mul] at h
  rw [groupPayloads, List.length_take, List.length_drop, List.length_map]
  omega

theorem group_end_le (hlast : k % d + 1 = d) (hk : k < calls.length) :
    (k / d + 1) * d ≤ calls.length := by
  have hdm := Nat.div_add_mod' k d
  rw [Nat.add_mul, Nat.one_mul]
  omega

theorem groupWord_spec (hc : Codec.Systematic c d p) (hd : 0 < d) (hl : payloads.length = d)
    (hw : c.encode (groupShards p payloads) = .ok word) :
    word.length = d + p ∧ Uniform (groupLength payloads) word ∧
      word.take d = payloads.map fun x => resize (groupLength payloads) 0 (dataBody x) := by
  have hne : payloads ≠ [] := by
    intro he
    rw [he, List.length_nil] at hl
    omega
  obtain ⟨word', hw', hlen, hu, htake⟩ := hc _ (groupShards p payloads)
    (by rw [length_groupShards, hl]) (uniform_groupShards p hne)
  rw [hw] at hw'
  cases hw'
  refine ⟨hlen, hu, ?_⟩
  rw [htake, groupShards, List.take_left' (by rw [List.length_map, List.length_map, hl]),
    List.map_map]
  rfl

theorem seqOf_lt_succ (hv : ValidShards d p) (k : Nat) :
    seqOf d (d + p) k < seqOf d (d + p) (k + 1) := by
  have hm := Nat.mod_lt k hv.data_pos
  by_cases hlast : k % d + 1 = d
  · rw [seqOf_succ_of_eq hlast, seqOf]
    omega
  · rw [seqOf_succ_of_lt (by omega)]
    exact Nat.lt_succ_self _

theorem seqOf_mono (hv : ValidShards d p) : Monotone (seqOf d (d + p)) :=
  monotone_nat_of_le_succ fun k => Nat.le_of_lt (seqOf_lt_succ hv k)

theorem Numbered.seq_lt (h : Numbered c d p e calls) (hc : c.Systematic d p)
    (hk : calls[k]? = some call) (hj : call.packets[j]? = some packet) :
    seqOf d (d + p) k + j < seqOf d (d + p) (k + 1) := by
  have hv := h.built.valid
  have hlt := (List.getElem?_eq_some_iff.mp hk).1
  rcases (h.packets k call hk).getElem? hj with ⟨rfl, _⟩ | ⟨hpos, hlast, word, body, hw, hb, _⟩
  · exact seqOf_lt_succ hv k
  · have hl := (groupWord_spec hc hv.data_pos
      (length_groupPayloads (group_end_le hlast hlt)) hw).1
    have hi := (List.getElem?_eq_some_iff.mp hb).1
    rw [seqOf_succ_of_eq hlast, seqOf]
    omega

theorem Numbered.increasing (h : Numbered c d p e calls) (hc : c.Systematic d p) :
    (numbered d (d + p) calls).Pairwise fun x y => x.1 < y.1 := by
  rw [numbered, List.pairwise_flatten]
  constructor
  · intro block hb
    obtain ⟨k, hk, rfl⟩ := List.mem_mapIdx.mp hb
    rw [List.pairwise_iff_getElem]
    intro i j hi hj hij
    rw [List.getElem_mapIdx, List.getElem_mapIdx]
    exact Nat.add_lt_add_left hij _
  · rw [List.pairwise_iff_getElem]
    intro k k' hk hk' hkk
    rw [List.getElem_mapIdx, List.getElem_mapIdx]
    intro x hx y hy
    obtain ⟨i, hi, rfl⟩ := List.mem_mapIdx.mp hx
    obtain ⟨j, hj, rfl⟩ := List.mem_mapIdx.mp hy
    have hlt := h.seq_lt hc (List.getElem?_eq_getElem _) (List.getElem?_eq_getElem hi)
    have hle := seqOf_mono h.built.valid (Nat.succ_le_of_lt hkk)
    exact Nat.lt_of_lt_of_le hlt (Nat.le_trans hle (Nat.le_add_right _ _))

theorem Numbered.ids (h : Numbered c d p e calls) (x : Nat × Bytes)
    (hx : x ∈ numbered d (d + p) calls) : seqid x.2 = .ok (x.1 % e.paws) := by
  obtain ⟨k, call, j, hk, hj, hq⟩ := mem_numbered.mp hx
  rw [h.built.paws, hq]
  exact (h.packets k call hk).seqid_eq h.built.valid hj

theorem Numbered.aligned (h : Numbered c d p e calls) :
    e.next % (d + p) = e.shards.length := by
  rw [h.next, wrapped_mod h.built.valid, seqOf_mod h.built.valid, h.length_held]

theorem Numbered.next_eq (h : Numbered c d p e calls) :
    e.next = calls.length / d % lapGroups (d + p) * (d + p) + e.shards.length := by
  have hv := h.built.valid
  rw [h.length_held, h.next, seqOf]
  exact hv.wrapped (Nat.lt_add_right p (Nat.mod_lt _ hv.data_pos))

theorem Numbered.held_packets (h : Numbered c d p e calls) (hi : i < e.shards.length) :
    ∃ call packet parity,
      calls[calls.length - e.shards.length + i]? = some call ∧ call.packets = packet :: parity ∧
      seqid packet = .ok (e.next - e.shards.length + i) ∧
      e.shards[i]? = some (packet.drop fecHeaderSize) := by
  have hv := h.built.valid
  have hlen := h.length_held
  have hm := Nat.mod_lt calls.length hv.data_pos
  have hdm := Nat.div_add_mod' calls.length d
  have hstart : calls.length - e.shards.length = calls.length / d * d := by omega
  have hk : calls.length / d * d + i < calls.length := by omega
  obtain ⟨parity, he, _⟩ := (h.packets _ _ (List.getElem?_eq_getElem hk)).packets
  have hseq : seqOf d (d + p) (calls.length / d * d + i) = calls.length / d * (d + p) + i := by
    rw [seqOf, Blocks.div_of_lt (by omega), Blocks.mod_of_lt (by omega)]
  refine ⟨calls[calls.length / d * d + i], _, parity, ?_, he, ?_, ?_⟩
  · rw [hstart, List.getElem?_eq_getElem hk]
  · rw [seqid_packetOf hv, hseq, hv.wrapped (by omega), h.next_eq, Nat.add_sub_cancel]
  · rw [drop_packetOf, h.held, List.getElem?_map, Blocks.rest, List.getElem?_drop,
      List.length_map, List.getElem?_map, List.getElem?_eq_getElem hk]
    rfl

theorem Numbered.data_packet (h : Numbered c d p e calls) (hk : calls[k]? = some call) :
    ∃ packet parity, call.packets = packet :: parity ∧ isDataPacket packet ∧
      seqid packet = .ok (seqOf d (d + p) k % pawsOf (d + p)) := by
  obtain ⟨parity, he, _⟩ := (h.packets k call hk).packets
  exact ⟨_, parity, he, isDataPacket_data _ _ _, seqid_packetOf h.built.valid _ _ _⟩

/-- Parity packets follow the data packets they protect, in the same group. -/
theorem Numbered.parity_packet (h : Numbered c d p e calls) (hc : c.Systematic d p)
    (hk : calls[k]? = some call) (hm : packet ∈ call.packets.tail) : ∃ id word,
    isParityPacket packet ∧ seqid packet = .ok id ∧ d ≤ id % (d + p) ∧ d ≤ k + 1 ∧
    (∀ i, i < d → ∃ call' packet' parity' id', calls[k + 1 - d + i]? = some call' ∧
      call'.packets = packet' :: parity' ∧ seqid packet' = .ok id' ∧ id' % (d + p) = i ∧
      id' / (d + p) = id / (d + p)) ∧
    c.encode (groupShards p (((calls.drop (k + 1 - d)).take d).map Call.payload)) = .ok word ∧
    word[id % (d + p)]? = some (packet.drop fecHeaderSize) := by
  have hv := h.built.valid
  have hd := hv.data_pos
  have hlt := (List.getElem?_eq_some_iff.mp hk).1
  obtain ⟨j, hj⟩ := List.getElem?_of_mem hm
  rw [List.getElem?_tail] at hj
  rcases (h.packets k call hk).getElem? hj with ⟨hz, _⟩ | ⟨_, hlast, word, body, hw, hb, rfl⟩
  · cases hz
  · have hdm := Nat.div_add_mod' k d
    have hl := (groupWord_spec hc hd (length_groupPayloads (group_end_le hlast hlt)) hw).1
    have hjp := (List.getElem?_eq_some_iff.mp hb).1
    have hnum : seqOf d (d + p) k + (j + 1) = k / d * (d + p) + (d + j) := by
      rw [seqOf]
      omega
    have hid : (k / d * (d + p) + (d + j)) % pawsOf (d + p) % (d + p) = d + j := by
      rw [wrapped_mod hv, Blocks.mod_of_lt (by omega)]
    have hstart : k + 1 - d = k / d * d := by omega
    refine ⟨(k / d * (d + p) + (d + j)) % pawsOf (d + p), word,
      isParityPacket_parity _ _ _, ?_, ?_, by omega, ?_, ?_, ?_⟩
    · rw [hnum]
      exact seqid_packetOf hv _ _ _
    · rw [hid]
      exact Nat.le_add_right d j
    · intro i hi
      have hik : k + 1 - d + i < calls.length := by omega
      obtain ⟨packet', parity', he', _, hs'⟩ :=
        h.data_packet (List.getElem?_eq_getElem hik)
      have hseq : seqOf d (d + p) (k + 1 - d + i) = k / d * (d + p) + i := by
        rw [hstart, seqOf, Blocks.div_of_lt hi, Blocks.mod_of_lt hi]
      refine ⟨_, packet', parity', _, List.getElem?_eq_getElem hik, he', hs', ?_, ?_⟩
      · rw [wrapped_mod hv, hseq, Blocks.mod_of_lt (by omega)]
      · rw [wrapped_div hv, wrapped_div hv, hseq, Blocks.div_of_lt (by omega),
          Blocks.div_of_lt (by omega)]
    · rw [hstart, List.map_take, List.map_drop]
      exact hw
    · rw [hid, drop_packetOf]
      exact hb

theorem Numbered.packet_size (h : Numbered c d p e calls) (hc : c.Systematic d p)
    (hk : calls[k]? = some call) (hm : packet ∈ call.packets) :
    ∃ payload ∈ groupPayloads d calls (k / d), packet.length ≤ payload.length + 8 := by
  have hv := h.built.valid
  have hd := hv.data_pos
  obtain ⟨hlt, hget⟩ := List.getElem?_eq_some_iff.mp hk
  obtain ⟨j, hj⟩ := List.getElem?_of_mem hm
  rcases (h.packets k call hk).getElem? hj with ⟨_, rfl⟩ | ⟨_, hlast, word, body, hw, hb, rfl⟩
  · refine ⟨call.payload, ?_, ?_⟩
    · apply List.mem_of_getElem? (i := k % d)
      have hdm := Nat.div_add_mod' k d
      rw [groupPayloads, List.getElem?_take_of_lt (Nat.mod_lt k hd), List.getElem?_drop, hdm,
        List.getElem?_map, hk]
      rfl
    · rw [length_packetOf, length_dataBody, fecHeaderSize]
      omega
  · have hl := length_groupPayloads (group_end_le hlast hlt)
    obtain ⟨_, hu, _⟩ := groupWord_spec hc hd hl hw
    have hbody := hu.2 body (List.mem_of_getElem? hb)
    rcases longest_mem_or_zero (((groupPayloads d calls (k / d)).map dataBody).map List.length)
      with hz | hmax
    · exact absurd hz (Nat.ne_of_gt hu.1)
    · obtain ⟨b, hb', he⟩ := List.mem_map.mp hmax
      obtain ⟨payload, hpl, rfl⟩ := List.mem_map.mp hb'
      refine ⟨payload, hpl, ?_⟩
      have hlen : groupLength (groupPayloads d calls (k / d)) = payload.length + 2 := by
        rw [groupLength, ← he, length_dataBody]
      rw [length_packetOf, hbody, hlen, fecHeaderSize]
      omega

theorem Numbered.invariant (h : Numbered c d p e calls) (hc : c.Systematic d p) :
    NumberingInvariant c d p e calls where
  next_lt := by
    rw [h.next, h.built.paws]
    exact Nat.mod_lt _ h.built.valid.paws_pos
  aligned := h.aligned
  partial_group := by
    rw [h.length_held]
    exact Nat.mod_lt _ h.built.valid.data_pos
  held := fun i hi => h.held_packets hi
  data := by
    intro call hm
    obtain ⟨k, hk⟩ := List.getElem?_of_mem hm
    obtain ⟨packet, parity, he, hdata, hs⟩ := h.data_packet hk
    refine ⟨packet, parity, _, he, hdata, hs, ?_⟩
    rw [wrapped_mod h.built.valid, seqOf_mod h.built.valid]
    exact Nat.mod_lt k h.built.valid.data_pos
  parity := fun k call hk packet hm => h.parity_packet hc hk hm
  increasing := h.increasing hc
  ids := h.ids
  size := fun k call hk packet hm => h.packet_size hc hk hm

theorem accepted_snoc_ok (hist : List ((Bytes × Nat) × IoResult EncodedPackets)) :
    accepted (hist ++ [((payload, now), .ok packets)]) =
      accepted hist ++ [⟨payload, now, packets⟩] := by
  rw [accepted, List.filterMap_append]
  rfl

theorem accepted_snoc_error (hist : List ((Bytes × Nat) × IoResult EncodedPackets)) :
    accepted (hist ++ [((payload, now), .error err)]) = accepted hist := by
  rw [accepted, List.filterMap_append]
  exact List.append_nil _

def encodeAll (e : FecEncoder) (inputs : List (Bytes × Nat)) :
    Exec (FecEncoder × List (IoResult EncodedPackets)) :=
  runAll (fun e x => e.encode x.1 x.2) e inputs

theorem FecEncoder.new_numbered {rs : Nat → Nat → Except String ReedSolomon}
    (hv : validateShards d p = .ok (.ok ())) (hrs : rs d p = .ok c) :
    ∃ e, FecEncoder.new rs d p = .ok (.ok e) ∧ Numbered c d p e [] := by
  obtain ⟨e, he, hb, hn, hs, ht⟩ := FecEncoder.new_ok (validateShards_ok_iff.mp hv) hrs
  refine ⟨e, he, hb, ?_, ?_, ht, ?_⟩
  · rw [hn, List.length_nil, seqOf, Nat.zero_div, Nat.zero_mod, Nat.zero_mul, Nat.zero_add,
      Nat.zero_mod]
  · rw [hs, List.map_nil, Blocks.rest, List.drop_nil]
    rfl
  · intro k call hk
    cases hk

theorem encodeAll_numbered (h : Numbered c d p e []) (hc : c.Systematic d p)
    (inputs : List (Bytes × Nat)) : ∃ e' outs, encodeAll e inputs = .ok (e', outs) ∧
      Numbered c d p e' (accepted (inputs.zip outs)) := by
  apply runAll_history (P := fun hist e => Numbered c d p e (accepted hist)) h
  intro hist e' input h _
  obtain ⟨payload, now⟩ := input
  by_cases hf : payload.length + 2 ≤ 0xffff
  · obtain ⟨e'', packets, he, h'⟩ := h.encode_ok hf hc now
    refine ⟨e'', .ok packets, he, ?_⟩
    rw [accepted_snoc_ok]
    exact h'
  · refine ⟨e', _, e'.encode_refused now (Nat.lt_of_not_le hf), ?_⟩
    rw [accepted_snoc_error]
    exact h

/-- Over any run of a fresh encoder no addition overflows, the numbering invariant holds, a
payload that fits is accepted with its data packet first, and a refused one changes nothing. -/
theorem encoder_numbering {rs : Nat → Nat → Except String ReedSolomon}
    (hv : validateShards d p = .ok (.ok ())) (hrs : rs d p = .ok c) (hc : c.Systematic d p) :
    ∃ e, FecEncoder.new rs d p = .ok (.ok e) ∧ ∀ inputs, ∃ e' outs,
      encodeAll e inputs = .ok (e', outs) ∧
      NumberingInvariant c d p e' (accepted (inputs.zip outs)) ∧
      (∀ payload now, payload.length + 2 ≤ 0xffff →
        ∃ e'' data parity, e'.encode payload now = .ok (e'', .ok (data :: parity)) ∧
          isDataPacket data = true ∧ dataPayload data = some payload) ∧
      ∀ payload now, 0xffff < payload.length + 2 →
        e'.encode payload now = .ok (e', .error ⟨.invalidInput, "FEC payload too large"⟩) := by
  obtain ⟨e, he, hnew⟩ := FecEncoder.new_numbered hv hrs
  refine ⟨e, he, fun inputs => ?_⟩
  obtain ⟨e', outs, hrun, h⟩ := encodeAll_numbered hnew hc inputs
  refine ⟨e', outs, hrun, h.invariant hc, ?_, ?_⟩
  · intro payload now hf
    obtain ⟨e'', data, parity, hok, _, hdata⟩ := h.encode_data hf hc now
    exact ⟨e'', data, parity, hok, hdata⟩
  · intro payload now hf
    exact e'.encode_refused now hf

theorem encoder_numbering_two_one : ∃ e, FecEncoder.new reedSolomon 2 1 = .ok (.ok e) ∧
    ∀ inputs, ∃ e' outs, encodeAll e inputs = .ok (e', outs) ∧
      NumberingInvariant reedSolomon21 2 1 e' (accepted (inputs.zip outs)) ∧
      (∀ payload now, payload.length + 2 ≤ 0xffff →
        ∃ e'' data parity, e'.encode payload now = .ok (e'', .ok (data :: parity)) ∧
          isDataPacket data = true ∧ dataPayload data = some payload) ∧
      ∀ payload now, 0xffff < payload.length + 2 →
        e'.encode payload now = .ok (e', .error ⟨.invalidInput, "FEC payload too large"⟩) :=
  encoder_numbering rfl rfl reedSolomon21_lawful.systematic

end TokioKcp.Fec
