import TokioKcp.Fec.Encoder
import TokioKcp.Lib.Blocks

namespace TokioKcp.Fec
set_option autoImplicit true

open Checked ErasureCode

variable {d p g i k q size : Nat}

/-- A call of the encoder that was not refused. -/
structure Call where
  payload : Bytes
  now : Nat
  packets : List Bytes

def accepted (hist : List ((Bytes × Nat) × IoResult EncodedPackets)) : List Call :=
  hist.filterMap fun x => match x.2 with
    | .ok packets => some ⟨x.1.1, x.1.2, packets⟩
    | .error _ => none

/-- The sequence number of the `k`-th data packet, counted without wrapping. Each group
takes `size` numbers, of which its data packets take the first `d`. -/
def seqOf (d size k : Nat) : Nat := k / d * size + k % d

def dataBody (payload : Bytes) : Bytes :=
  LittleEndian.encode 2 (payload.length + 2) ++ payload

def packetOf (paws q flag : Nat) (body : Bytes) : Bytes :=
  LittleEndian.encode 4 (q % paws) ++ LittleEndian.encode 2 flag ++ body

def groupPayloads (d : Nat) (calls : List Call) (g : Nat) : List Bytes :=
  ((calls.map Call.payload).drop (g * d)).take d

def groupShards (p : Nat) (payloads : List Bytes) : List Bytes :=
  let bodies := payloads.map dataBody
  let maxLen := longest (bodies.map List.length)
  bodies.map (resize maxLen 0) ++ List.replicate p (List.replicate maxLen 0)

def parityPackets (d p g : Nat) (word : List Bytes) : List Bytes :=
  (word.drop d).mapIdx fun j b => packetOf (pawsOf (d + p)) (g * (d + p) + d + j) typeParity b

/-- The `k`-th call came soon enough after the one before it. -/
def Timely (calls : List Call) (k : Nat) : Prop :=
  ∃ prev call, 0 < k ∧ calls[k - 1]? = some prev ∧ calls[k]? = some call ∧
    call.now - prev.now < maxFecEncodeLatency

/-- The packets of the `k`-th accepted call: its data packet, and the parity of the group
if the call completes one in time. -/
structure CallPackets (c : ReedSolomon) (d p : Nat) (calls : List Call) (k : Nat)
    (call : Call) : Prop where
  fits : call.payload.length + 2 ≤ 0xffff
  packets : ∃ parity, call.packets =
      packetOf (pawsOf (d + p)) (seqOf d (d + p) k) typeData (dataBody call.payload) :: parity ∧
    ((parity = [] ∧ ¬(k % d + 1 = d ∧ Timely calls k)) ∨
      (k % d + 1 = d ∧ Timely calls k) ∧ ∃ word,
        c.encode (groupShards p (groupPayloads d calls (k / d))) = .ok word ∧
        parity = parityPackets d p (k / d) word)

/-- The state of an encoder after the accepted calls. -/
structure Numbered (c : ReedSolomon) (d p : Nat) (e : FecEncoder) (calls : List Call) : Prop where
  built : e.Built c d p
  next : e.next = seqOf d (d + p) calls.length % pawsOf (d + p)
  held : e.shards = (Blocks.rest d (calls.map Call.payload)).map dataBody
  latest : e.tsLatestPacket = calls.getLast?.map Call.now
  packets : ∀ k call, calls[k]? = some call → CallPackets c d p calls k call

theorem length_dataBody (payload : Bytes) : (dataBody payload).length = payload.length + 2 := by
  rw [dataBody, List.length_append, LittleEndian.length_encode, Nat.add_comm]

theorem ValidShards.wrapped (h : ValidShards d p) (hi : i < d + p) :
    (g * (d + p) + i) % pawsOf (d + p) = g % lapGroups (d + p) * (d + p) + i := by
  rw [h.paws_eq, Blocks.wrap_of_lt hi]

theorem ValidShards.wrapped_le (h : ValidShards d p) (g : Nat) :
    g % lapGroups (d + p) * (d + p) + (d + p) ≤ pawsOf (d + p) := by
  rw [h.paws_eq]
  exact Blocks.wrap_end_le (by have hl := h.lap_bounds; omega) g (d + p)

theorem seqOf_succ_of_lt (h : k % d + 1 < d) : seqOf d size (k + 1) = seqOf d size k + 1 := by
  obtain ⟨hq, hr⟩ := Blocks.succ_of_lt h
  rw [seqOf, seqOf, hq, hr, Nat.add_assoc]

theorem seqOf_succ_of_eq (h : k % d + 1 = d) :
    seqOf d size (k + 1) = k / d * size + size := by
  obtain ⟨hq, hr⟩ := Blocks.succ_of_eq h
  rw [seqOf, hq, hr, Nat.add_mul, Nat.one_mul, Nat.add_zero]

theorem groupPayloads_append (h : (g + 1) * d ≤ calls.length) (more : List Call) :
    groupPayloads d (calls ++ more) g = groupPayloads d calls g := by
  have hm : (g + 1) * d = g * d + d := by rw [Nat.add_mul, Nat.one_mul]
  rw [groupPayloads, groupPayloads, List.map_append,
    List.drop_append_of_le_length (by rw [List.length_map]; omega),
    List.take_append_of_le_length (by rw [List.length_drop, List.length_map]; omega)]

theorem timely_append (hk : k < calls.length) (more : List Call) :
    Timely (calls ++ more) k ↔ Timely calls k := by
  rw [Timely, Timely, List.getElem?_append_left (Nat.lt_of_le_of_lt (Nat.sub_le k 1) hk),
    List.getElem?_append_left hk]

theorem CallPackets.append (h : CallPackets c d p calls k call) (hk : k < calls.length)
    (more : List Call) : CallPackets c d p (calls ++ more) k call := by
  obtain ⟨parity, he, hp⟩ := h.packets
  refine ⟨h.fits, parity, he, ?_⟩
  rw [timely_append hk]
  rcases hp with hp | ⟨hlast, word, hw, hp⟩
  · exact .inl hp
  · refine .inr ⟨hlast, word, ?_, hp⟩
    have hdm := Nat.div_add_mod k d
    have hle : (k / d + 1) * d ≤ calls.length := by
      rw [Nat.add_mul, Nat.one_mul, Nat.mul_comm]
      omega
    rw [groupPayloads_append hle]
    exact hw

theorem FecEncoder.seal_eq {e : FecEncoder} (hb : e.Built c d p)
    (hn : e.next = q % pawsOf (d + p)) (packet : Bytes) (flag : Nat) :
    e.seal packet flag = .ok ({ e with next := (q + 1) % pawsOf (d + p) },
      packet ++ packetOf (pawsOf (d + p)) q flag []) := by
  have hlt : q % pawsOf (d + p) < pawsOf (d + p) := Nat.mod_lt _ hb.valid.paws_pos
  have hadd : add 32 (q % pawsOf (d + p)) 1 = .ok (q % pawsOf (d + p) + 1) :=
    add_of_lt (by have hp := hb.valid.paws_lt; omega)
  have hrem : rem (q % pawsOf (d + p) + 1) (pawsOf (d + p)) =
      .ok ((q + 1) % pawsOf (d + p)) := by
    rw [rem_of_pos hb.valid.paws_pos, Nat.mod_add_mod]
  simp only [FecEncoder.seal, hn, hb.paws, hadd, hrem, ok_bind, packetOf, List.append_nil,
    List.append_assoc]
  rfl

theorem packetOf_append (paws q flag : Nat) (b b' : Bytes) :
    packetOf paws q flag b ++ b' = packetOf paws q flag (b ++ b') := by
  rw [packetOf, packetOf, List.append_assoc]

theorem FecEncoder.sealParity_eq {e : FecEncoder} (hb : e.Built c d p)
    (hn : e.next = q % pawsOf (d + p)) (bodies : List Bytes) :
    e.sealParity bodies = .ok ({ e with next := (q + bodies.length) % pawsOf (d + p) },
      bodies.mapIdx fun j b => packetOf (pawsOf (d + p)) (q + j) typeParity b) := by
  induction bodies generalizing e q with
  | nil =>
    rw [FecEncoder.sealParity, List.length_nil, Nat.add_zero, ← hn]
    rfl
  | cons b bodies ih =>
    have hb' := hb.update ((q + 1) % pawsOf (d + p)) e.tsLatestPacket e.shards
    have hj (j : Nat) : q + 1 + j = q + (j + 1) := by omega
    rw [FecEncoder.sealParity, FecEncoder.seal_eq hb hn, ok_bind]
    simp only [ih hb' rfl, ok_bind, List.nil_append, packetOf_append, List.mapIdx_cons,
      List.length_cons, Nat.add_zero, hj, Nat.add_comm bodies.length 1]
    rw [← Nat.add_assoc]
    rfl

theorem FecEncoder.skipParity_eq {e : FecEncoder} (hb : e.Built c d p)
    (hn : e.next = (g * (d + p) + d) % pawsOf (d + p)) :
    e.skipParity = .ok { e with next := (g * (d + p) + (d + p)) % pawsOf (d + p) } := by
  have hv := hb.valid
  have hp := hv.parity_pos
  have hs := hv.size_le
  have hcast : cast 32 e.parityShards = p := by
    rw [hb.parityShards]
    exact cast_of_lt (by omega)
  have hw := hv.wrapped (g := g) (i := d) (by omega)
  have hle := hv.wrapped_le g
  have hpaws := hv.paws_lt
  have hadd : add 32 e.next p = .ok (e.next + p) := add_of_lt (by omega)
  have hrem : rem (e.next + p) e.paws =
      .ok ((g * (d + p) + (d + p)) % pawsOf (d + p)) := by
    rw [hb.paws, rem_of_pos hv.paws_pos, hn, Nat.mod_add_mod, Nat.add_assoc]
  simp only [FecEncoder.skipParity, hcast, hadd, hrem, ok_bind]
  rfl

theorem length_packetOf (paws q flag : Nat) (body : Bytes) :
    (packetOf paws q flag body).length = fecHeaderSize + body.length := by
  rw [packetOf, List.length_append, List.length_append, LittleEndian.length_encode,
    LittleEndian.length_encode, fecHeaderSize]

theorem drop_packetOf (paws q flag : Nat) (body : Bytes) :
    (packetOf paws q flag body).drop fecHeaderSize = body := by
  rw [packetOf, List.drop_left']
  rw [List.length_append, LittleEndian.length_encode, LittleEndian.length_encode,
    fecHeaderSize]

theorem seqid_packetOf (hv : ValidShards d p) (q flag : Nat) (body : Bytes) :
    seqid (packetOf (pawsOf (d + p)) q flag body) = .ok (q % pawsOf (d + p)) := by
  have hlt : q % pawsOf (d + p) < 256 ^ 4 :=
    Nat.lt_trans (Nat.mod_lt _ hv.paws_pos) hv.paws_lt
  have he := LittleEndian.decode_encode hlt
  simp only [packetOf, LittleEndian.encode] at he ⊢
  exact congrArg Except.ok he

theorem fecFlag_packetOf (paws q : Nat) (hf : flag < 2 ^ 16) (body : Bytes) :
    fecFlag (packetOf paws q flag body) = some flag := by
  have hlen : fecHeaderSize ≤ (packetOf paws q flag body).length := by
    rw [length_packetOf]
    exact Nat.le_add_right _ _
  rw [fecFlag, if_pos hlen, packetOf, List.append_assoc,
    List.drop_left' (LittleEndian.length_encode 4 _),
    List.take_left' (LittleEndian.length_encode 2 _), LittleEndian.decode_encode hf]

theorem isDataPacket_data (paws q : Nat) (body : Bytes) :
    isDataPacket (packetOf paws q typeData body) = true := by
  rw [isDataPacket, fecFlag_packetOf paws q (by decide)]
  rfl

theorem isParityPacket_parity (paws q : Nat) (body : Bytes) :
    isParityPacket (packetOf paws q typeParity body) = true := by
  rw [isParityPacket, fecFlag_packetOf paws q (by decide)]
  rfl

theorem dataPayload_packetOf (paws q : Nat) (payload : Bytes) :
    dataPayload (packetOf paws q typeData (dataBody payload)) = some payload := by
  have hlen : fecHeaderSizePlusSize ≤ (packetOf paws q typeData (dataBody payload)).length := by
    rw [length_packetOf, length_dataBody, fecHeaderSizePlusSize]
    omega
  rw [dataPayload, if_pos ⟨isDataPacket_data _ _ _, hlen⟩, fecHeaderSizePlusSize,
    ← List.drop_drop, drop_packetOf, dataBody, List.drop_left' (LittleEndian.length_encode 2 _)]

theorem Numbered.length_held (h : Numbered c d p e calls) :
    e.shards.length = calls.length % d := by
  rw [h.held, List.length_map, Blocks.length_rest, List.length_map]

def groupLength (payloads : List Bytes) : Nat :=
  longest ((payloads.map dataBody).map List.length)

theorem length_le_groupLength (h : payload ∈ payloads) :
    (dataBody payload).length ≤ groupLength payloads :=
  le_longest (List.mem_map_of_mem (List.mem_map_of_mem h))

theorem length_groupShards (p : Nat) (payloads : List Bytes) :
    (groupShards p payloads).length = payloads.length + p := by
  simp only [groupShards, List.length_append, List.length_map, List.length_replicate]

theorem getElem?_groupShards (p : Nat) (hx : payloads[i]? = some x) :
    (groupShards p payloads)[i]? = some (resize (groupLength payloads) 0 (dataBody x)) := by
  have hi := (List.getElem?_eq_some_iff.mp hx).1
  rw [groupShards, List.getElem?_append_left (by rw [List.length_map, List.length_map]; exact hi),
    List.getElem?_map, List.getElem?_map, hx]
  rfl

theorem uniform_groupShards (p : Nat) (hne : payloads ≠ []) :
    Uniform (groupLength payloads) (groupShards p payloads) := by
  refine ⟨?_, ?_⟩
  · obtain ⟨payload, hm⟩ := List.exists_mem_of_ne_nil payloads hne
    have hle := length_le_groupLength hm
    rw [length_dataBody] at hle
    omega
  · intro s hs
    rcases List.mem_append.mp hs with hs | hs
    · obtain ⟨body, _, rfl⟩ := List.mem_map.mp hs
      exact length_resize _ _ _
    · rw [List.eq_of_mem_replicate hs, List.length_replicate]
      rfl

theorem FecEncoder.closeGroup_late {e : FecEncoder} (hb : e.Built c d p)
    (hn : e.next = (g * (d + p) + d) % pawsOf (d + p)) (hc : e.continuous now = false) :
    e.closeGroup now = .ok ({ e with
      next := (g * (d + p) + (d + p)) % pawsOf (d + p), shards := [] }, .ok []) := by
  have hb' := hb.update e.next e.tsLatestPacket []
  have hskip := FecEncoder.skipParity_eq hb' hn
  simp only [FecEncoder.closeGroup, hc, Bool.not_false, if_true, hskip, ok_bind]
  rfl

theorem ne_nil_of_length (hd : 0 < d) {xs : List α} (hl : xs.length = d) : xs ≠ [] := by
  rintro rfl
  rw [List.length_nil] at hl
  omega

theorem FecEncoder.closeGroup_timely {e : FecEncoder} (hb : e.Built c d p)
    (hs : c.Systematic d p) (hn : e.next = (g * (d + p) + d) % pawsOf (d + p))
    (hh : e.shards = payloads.map dataBody) (hl : payloads.length = d)
    (hc : e.continuous now = true) :
    ∃ word, c.encode (groupShards p payloads) = .ok word ∧
      e.closeGroup now = .ok ({ e with
        next := (g * (d + p) + (d + p)) % pawsOf (d + p), shards := [] },
        .ok (parityPackets d p g word)) := by
  have hne := ne_nil_of_length hb.valid.data_pos hl
  have hshards : e.shards.map (resize (longest (e.shards.map List.length)) 0) ++
      List.replicate e.parityShards (List.replicate (longest (e.shards.map List.length)) 0) =
      groupShards p payloads := by
    rw [hh, hb.parityShards]
    rfl
  obtain ⟨word, hw, hlen, -, -⟩ := hs _ (groupShards p payloads)
    (by rw [length_groupShards, hl]) (uniform_groupShards p hne)
  refine ⟨word, hw, ?_⟩
  have hw' : e.codec.encode (groupShards p payloads) = .ok word := by
    rw [hb.codec]
    exact hw
  have hdrop : sliceFrom word e.dataShards = .ok (word.drop d) := by
    rw [hb.dataShards]
    exact sliceFrom_of_le (by omega)
  have hb' := hb.update e.next e.tsLatestPacket []
  have hseal := FecEncoder.sealParity_eq hb' hn (word.drop d)
  rw [List.length_drop, hlen, Nat.add_sub_cancel_left, Nat.add_assoc] at hseal
  simp only [FecEncoder.closeGroup, hc, Bool.not_true, Bool.false_eq_true, if_false,
    hshards, hw', hdrop, hseal, ok_bind]
  rfl

/-- The part of `encode` before the group may be closed: one data packet, one more shard. -/
theorem FecEncoder.encode_eq {e : FecEncoder} (hb : e.Built c d p)
    (hn : e.next = q % pawsOf (d + p)) (hf : payload.length + 2 ≤ 0xffff) (now : Nat) :
    e.encode payload now =
      let e₁ := { e with
        next := (q + 1) % pawsOf (d + p), shards := e.shards ++ [dataBody payload] }
      let data := packetOf (pawsOf (d + p)) q typeData (dataBody payload)
      if e₁.shards.length = d then do
        match ← e₁.closeGroup now with
        | (e₂, .error err) => return (e₂, .error err)
        | (e₂, .ok packets) =>
          return ({ e₂ with tsLatestPacket := some now }, .ok (data :: packets))
      else
        .ok ({ e₁ with tsLatestPacket := some now }, .ok [data]) := by
  have hsmall : ¬payload.length + 2 > 0xffff := by omega
  have hcast : cast 16 (payload.length + 2) = payload.length + 2 := cast_of_lt (by omega)
  have hdata : packetOf (pawsOf (d + p)) q typeData [] ++
      LittleEndian.encode 2 (payload.length + 2) ++ payload =
      packetOf (pawsOf (d + p)) q typeData (dataBody payload) := by
    rw [List.append_assoc, packetOf_append]
    rfl
  have hslice : sliceFrom (packetOf (pawsOf (d + p)) q typeData (dataBody payload))
      fecHeaderSize = .ok (dataBody payload) := by
    rw [sliceFrom_of_le, drop_packetOf]
    rw [length_packetOf]
    exact Nat.le_add_right _ _
  simp only [FecEncoder.encode, if_neg hsmall, FecEncoder.seal_eq hb hn, ok_bind,
    List.nil_append, hcast, hdata, hslice, hb.dataShards]
  rfl

theorem getElem?_snoc {xs : List α} (h : (xs ++ [x])[k]? = some y) :
    (k < xs.length ∧ xs[k]? = some y) ∨ (k = xs.length ∧ y = x) := by
  rcases Nat.lt_trichotomy k xs.length with hlt | heq | hgt
  · rw [List.getElem?_append_left hlt] at h
    exact .inl ⟨hlt, h⟩
  · rw [heq, List.getElem?_concat_length] at h
    cases h
    exact .inr ⟨heq, rfl⟩
  · rw [List.getElem?_eq_none (by rw [List.length_append, List.length_singleton]; omega)] at h
    cases h

theorem Numbered.packets_snoc (h : Numbered c d p e calls)
    (hnew : CallPackets c d p (calls ++ [call]) calls.length call) :
    ∀ k call', (calls ++ [call])[k]? = some call' →
      CallPackets c d p (calls ++ [call]) k call' := by
  intro k call' hk
  rcases getElem?_snoc hk with ⟨hlt, hold⟩ | ⟨rfl, rfl⟩
  · exact (h.packets k call' hold).append hlt [call]
  · exact hnew

theorem Numbered.snoc (h : Numbered c d p e calls) {e' : FecEncoder} (hb : e'.Built c d p)
    (hn : e'.next = seqOf d (d + p) (calls.length + 1) % pawsOf (d + p))
    (hs : e'.shards = (Blocks.rest d (calls.map Call.payload ++ [call.payload])).map dataBody)
    (ht : e'.tsLatestPacket = some call.now)
    (hp : CallPackets c d p (calls ++ [call]) calls.length call) :
    Numbered c d p e' (calls ++ [call]) where
  built := hb
  next := by
    rw [hn, List.length_append]
    rfl
  held := by
    rw [hs, List.map_append]
    rfl
  latest := by
    rw [ht, List.getLast?_concat]
    rfl
  packets := h.packets_snoc hp

theorem Numbered.timely_iff (h : Numbered c d p e calls) (call : Call) :
    Timely (calls ++ [call]) calls.length ↔ e.continuous call.now = true := by
  rw [FecEncoder.continuous, h.latest]
  constructor
  · rintro ⟨prev, call', hpos, hprev, hcall, hlt⟩
    rw [List.getElem?_concat_length] at hcall
    cases hcall
    rw [List.getElem?_append_left (by omega), ← List.getLast?_eq_getElem?] at hprev
    rw [hprev]
    exact decide_eq_true hlt
  · intro hc
    cases hl : calls.getLast? with
    | none =>
      rw [hl] at hc
      cases hc
    | some prev =>
      rw [hl] at hc
      have hpos : 0 < calls.length := by
        apply List.length_pos_iff.mpr
        rintro rfl
        cases hl
      refine ⟨prev, call, hpos, ?_, List.getElem?_concat_length, of_decide_eq_true hc⟩
      rw [List.getElem?_append_left (by omega), ← List.getLast?_eq_getElem?, hl]

theorem groupPayloads_last (hlast : calls.length % d + 1 = d) (call : Call) :
    groupPayloads d (calls ++ [call]) (calls.length / d) =
      Blocks.rest d (calls.map Call.payload) ++ [call.payload] := by
  have hdm := Nat.div_add_mod' calls.length d
  have hle := Nat.div_mul_le_self calls.length d
  rw [groupPayloads, Blocks.rest, List.map_append, List.length_map,
    List.drop_append_of_le_length (by rw [List.length_map]; exact hle), List.take_of_length_le]
  · rfl
  · rw [List.length_append, List.length_drop, List.length_map, List.length_map,
      List.length_singleton]
    omega

section EncodeStep

variable {payload : Bytes} {now : Nat} (h : Numbered c d p e calls)
  (hf : payload.length + 2 ≤ 0xffff)
include h hf

theorem Numbered.encode_within (hlt : calls.length % d + 1 < d) :
    ∃ e' packets, e.encode payload now = .ok (e', .ok packets) ∧
      Numbered c d p e' (calls ++ [⟨payload, now, packets⟩]) := by
  have hlen : (e.shards ++ [dataBody payload]).length ≠ d := by
    rw [List.length_append, h.length_held, List.length_singleton]
    exact Nat.ne_of_lt hlt
  rw [FecEncoder.encode_eq h.built h.next hf now]
  dsimp only
  rw [if_neg hlen]
  refine ⟨_, _, rfl, h.snoc (h.built.update _ _ _) ?_ ?_ rfl ?_⟩
  · rw [seqOf_succ_of_lt hlt]
  · rw [Blocks.rest_snoc_of_lt (by rw [List.length_map]; exact hlt), List.map_append, h.held]
    rfl
  · exact ⟨hf, [], rfl, .inl ⟨rfl, fun hlast => Nat.ne_of_lt hlt hlast.1⟩⟩

theorem Numbered.encode_last (hc : c.Systematic d p) (hlast : calls.length % d + 1 = d) :
    ∃ e' packets, e.encode payload now = .ok (e', .ok packets) ∧
      Numbered c d p e' (calls ++ [⟨payload, now, packets⟩]) := by
  have hlen : (e.shards ++ [dataBody payload]).length = d := by
    rw [List.length_append, h.length_held, List.length_singleton, hlast]
  have hq : seqOf d (d + p) calls.length + 1 = calls.length / d * (d + p) + d := by
    rw [seqOf]
    omega
  have hempty (e' : FecEncoder) (hs : e'.shards = []) : e'.shards =
      (Blocks.rest d (calls.map Call.payload ++ [payload])).map dataBody := by
    rw [Blocks.rest_snoc_of_eq (by rw [List.length_map]; exact hlast), hs]
    rfl
  have hb₁ := h.built.update ((seqOf d (d + p) calls.length + 1) % pawsOf (d + p))
    e.tsLatestPacket (e.shards ++ [dataBody payload])
  have hn₁ := congrArg (· % pawsOf (d + p)) hq
  rw [FecEncoder.encode_eq h.built h.next hf now]
  dsimp only
  rw [if_pos hlen]
  cases hcont : e.continuous now with
  | false =>
    have hclose := FecEncoder.closeGroup_late hb₁ hn₁ hcont
    rw [hclose, ok_bind]
    refine ⟨_, _, rfl, h.snoc (hb₁.update _ _ _) ?_ (hempty _ rfl) rfl ?_⟩
    · rw [seqOf_succ_of_eq hlast]
    · refine ⟨hf, [], rfl, .inl ⟨rfl, fun ht => ?_⟩⟩
      have htrue := (h.timely_iff _).mp ht.2
      rw [hcont] at htrue
      cases htrue
  | true =>
    have hgroup (packets : List Bytes) := groupPayloads_last hlast ⟨payload, now, packets⟩
    have hheld : e.shards ++ [dataBody payload] =
        (Blocks.rest d (calls.map Call.payload) ++ [payload]).map dataBody := by
      rw [List.map_append, ← h.held]
      rfl
    have hfull : (Blocks.rest d (calls.map Call.payload) ++ [payload]).length = d := by
      rw [List.length_append, Blocks.length_rest, List.length_map, List.length_singleton, hlast]
    obtain ⟨word, hw, hclose⟩ := FecEncoder.closeGroup_timely hb₁ hc hn₁ hheld hfull hcont
    rw [hclose, ok_bind]
    refine ⟨_, _, rfl, h.snoc (hb₁.update _ _ _) ?_ (hempty _ rfl) rfl ?_⟩
    · rw [seqOf_succ_of_eq hlast]
    · refine ⟨hf, _, rfl, .inr ⟨⟨hlast, (h.timely_iff _).mpr hcont⟩, word, ?_, rfl⟩⟩
      rw [hgroup]
      exact hw

theorem Numbered.encode_ok (hc : c.Systematic d p) (now : Nat) :
    ∃ e' packets, e.encode payload now = .ok (e', .ok packets) ∧
      Numbered c d p e' (calls ++ [⟨payload, now, packets⟩]) := by
  by_cases hlast : calls.length % d + 1 = d
  · exact h.encode_last hf hc hlast
  · have hm := Nat.mod_lt calls.length h.built.valid.data_pos
    exact h.encode_within hf (by omega)

theorem Numbered.encode_data (hc : c.Systematic d p) (now : Nat) :
    ∃ e' data parity, e.encode payload now = .ok (e', .ok (data :: parity)) ∧
      Numbered c d p e' (calls ++ [⟨payload, now, data :: parity⟩]) ∧
      isDataPacket data = true ∧ dataPayload data = some payload := by
  obtain ⟨e', packets, he, h'⟩ := h.encode_ok hf hc now
  obtain ⟨parity, hp, _⟩ := (h'.packets _ _ List.getElem?_concat_length).packets
  change packets = packetOf _ _ typeData (dataBody payload) :: parity at hp
  subst hp
  exact ⟨e', _, parity, he, h', isDataPacket_data _ _ _, dataPayload_packetOf _ _ _⟩

end EncodeStep

end TokioKcp.Fec
