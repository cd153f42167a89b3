import TokioKcp.Fec.SpuriousRecovery
import TokioKcp.Lib.LinearCode

namespace TokioKcp.Fec
set_option autoImplicit true

open Checked ErasureCode

variable {d p g i k n q q' size : Nat} {c : ReedSolomon} {e x body : Bytes}
variable {payloads v word : List Bytes} {calls : List Call} {err : Nat → Bytes} {del : List Nat}

/-- A payload whose first bytes have the given ones added to them. -/
def disturbed (e payload : Bytes) : Bytes :=
  List.zipWith (· ^^^ ·) (payload.take e.length) e ++ payload.drop e.length

/-- The payloads of a group, each disturbed by the shard in its slot. -/
def disturbedGroup (v payloads : List Bytes) : List Bytes := List.zipWith disturbed v payloads

/-- What a packet carries whose payload was disturbed after it was encoded. A parity packet is
left alone. -/
def DisturbedBody (c : ReedSolomon) (d p n : Nat) (calls : List Call) (err : Nat → Bytes)
    (q : Nat) (body : Bytes) : Prop :=
  (q % (d + p) < d ∧ ∃ payload, (groupPayloads d calls (q / (d + p)))[q % (d + p)]? = some payload ∧
    body = dataBody (disturbed (err q) payload)) ∨
  (d ≤ q % (d + p) ∧ err q = List.replicate n 0 ∧ EmittedBody c d p calls q body)

/-- A word that agrees with the disturbances of the packets that the delivery of `q` brings
together. -/
structure BatchWord (c : ReedSolomon) (d p n : Nat) (err : Nat → Bytes) (del : List Nat) (q : Nat)
    (v : List Bytes) : Prop where
  word : c.IsWord d p n v
  agrees : ∀ q' ∈ batch d (d + p) del q, v[q' % (d + p)]? = some (err q')

theorem length_disturbed (h : e.length ≤ x.length) : (disturbed e x).length = x.length := by
  rw [disturbed, List.length_append, List.length_zipWith, List.length_take, List.length_drop,
    Nat.min_eq_left h, Nat.min_self, Nat.add_sub_of_le h]

theorem zipWith_xor_zeros (hl : x.length = n) :
    List.zipWith (· ^^^ ·) x (List.replicate n 0) = x := by
  induction x generalizing n with
  | nil => exact List.zipWith_nil_left
  | cons b x ih =>
    cases n with
    | zero => cases hl
    | succ n =>
      rw [List.replicate_succ, List.zipWith_cons_cons, ih (Nat.succ.inj hl), UInt8.xor_zero]

theorem disturbed_zeros (h : n ≤ x.length) : disturbed (List.replicate n 0) x = x := by
  rw [disturbed, List.length_replicate,
    zipWith_xor_zeros (by rw [List.length_take, Nat.min_eq_left h]), List.take_append_drop]

theorem resize_disturbed (h : e.length ≤ x.length) (hm : x.length + 2 + m = 2 + (e.length + k)) :
    resize (2 + (e.length + k)) 0 (dataBody (disturbed e x)) =
      List.zipWith (· ^^^ ·) (resize (2 + (e.length + k)) 0 (dataBody x)) (padShard 0 2 k e) := by
  have hlen := length_disturbed h
  have hpad (y : Bytes) (hy : y.length = x.length) : resize (2 + (e.length + k)) 0 (dataBody y) =
      LittleEndian.encode 2 (x.length + 2) ++ (y ++ List.replicate m 0) := by
    rw [resize_of_le (by rw [length_dataBody]; omega), length_dataBody, hy, dataBody, hy,
      List.append_assoc, show 2 + (e.length + k) - (x.length + 2) = m by omega]
  have hsplit : x ++ List.replicate m 0 =
      x.take e.length ++ (x.drop e.length ++ List.replicate m 0) := by
    rw [← List.append_assoc, List.take_append_drop]
  rw [hpad _ hlen, hpad x rfl, hsplit, padShard,
    List.zipWith_append (by rw [LittleEndian.length_encode, List.length_replicate]),
    List.zipWith_append (by rw [List.length_take, Nat.min_eq_left h]),
    zipWith_xor_zeros (LittleEndian.length_encode 2 _),
    zipWith_xor_zeros (by rw [List.length_append, List.length_drop, List.length_replicate]; omega),
    disturbed, List.append_assoc]

theorem getElem?_disturbedGroup (hv : v[i]? = some e) (hx : payloads[i]? = some x) :
    (disturbedGroup v payloads)[i]? = some (disturbed e x) := by
  rw [disturbedGroup, List.getElem?_zipWith, hv, hx]

theorem length_disturbedGroup (hv : v.length = d + p) (hl : payloads.length = d) :
    (disturbedGroup v payloads).length = d := by
  rw [disturbedGroup, List.length_zipWith, hv, hl, Nat.min_eq_right (Nat.le_add_right d p)]

theorem getElem?_of_uniform (hu : Uniform n v) (hv : v[i]? = some e) : e.length = n :=
  hu.2 e (List.mem_of_getElem? hv)

theorem length_disturbedGroup_eq (hu : Uniform n v) (hl : payloads.length ≤ v.length)
    (hlong : ∀ x ∈ payloads, n ≤ x.length) :
    (disturbedGroup v payloads).map List.length = payloads.map List.length := by
  rw [disturbedGroup]
  induction payloads generalizing v with
  | nil => rw [List.zipWith_nil_right]
  | cons x payloads ih =>
    cases v with
    | nil => cases hl
    | cons e v =>
      have he := hu.2 e List.mem_cons_self
      have hx := hlong x List.mem_cons_self
      rw [List.zipWith_cons_cons, List.map_cons, List.map_cons,
        length_disturbed (by rw [he]; exact hx),
        ih ⟨hu.1, fun s hs => hu.2 s (List.mem_cons_of_mem _ hs)⟩ (Nat.le_of_succ_le_succ hl)
          (fun y hy => hlong y (List.mem_cons_of_mem _ hy))]

theorem groupLength_eq (payloads : List Bytes) :
    groupLength payloads = longest ((payloads.map List.length).map (· + 2)) := by
  have hlen : List.length ∘ dataBody = (· + 2) ∘ List.length := funext length_dataBody
  rw [groupLength, List.map_map, List.map_map, hlen]

theorem groupLength_disturbedGroup (hu : Uniform n v) (hl : payloads.length ≤ v.length)
    (hlong : ∀ x ∈ payloads, n ≤ x.length) :
    groupLength (disturbedGroup v payloads) = groupLength payloads := by
  rw [groupLength_eq, groupLength_eq, length_disturbedGroup_eq hu hl hlong]

/-- A group whose payloads are disturbed by a word has the word of the group, disturbed. -/
theorem encode_disturbedGroup (hc : c.Linear d p (· ^^^ ·) 0) (hd : 0 < d)
    (hv : c.IsWord d p n v) (hl : payloads.length = d) (hlong : ∀ x ∈ payloads, n < x.length)
    (hw : c.encode (groupShards p payloads) = .ok word) :
    ∃ k, groupLength payloads = 2 + (n + k) ∧
      c.encode (groupShards p (disturbedGroup v payloads)) =
        .ok (sumWords (· ^^^ ·) word (v.map (padShard 0 2 k))) := by
  have hne := ne_nil_of_length hd hl
  have hn := hv.uniform.1
  obtain ⟨k, hk, hlen⟩ : ∃ k, 0 < k ∧ groupLength payloads = 2 + (n + k) := by
    obtain ⟨x, hx⟩ := List.exists_mem_of_ne_nil payloads hne
    have hle := length_le_groupLength hx
    have hlt := hlong x hx
    rw [length_dataBody] at hle
    exact ⟨groupLength payloads - 2 - n, by omega, by omega⟩
  refine ⟨k, hlen, ?_⟩
  obtain ⟨hwl, hu, ht⟩ := groupWord_spec hc.lawful.systematic hd hl hw
  have hshards : (groupShards p payloads).length = d + p := by rw [length_groupShards, hl]
  have hword := hc.isWord_of_encode hshards (uniform_groupShards p hne) hw
  have hl' := length_disturbedGroup hv.length hl
  have hlen' := groupLength_disturbedGroup hv.uniform
    (by rw [hl, hv.length]; exact Nat.le_add_right d p) (fun x hx => Nat.le_of_lt (hlong x hx))
  rw [hlen] at hword hlen' ht
  have hu' := uniform_groupShards p (ne_nil_of_length hd hl')
  rw [hlen'] at hu'
  apply hc.encode_eq (hc.disturb hword hv (Nat.succ_pos 1) hk)
    (by rw [length_groupShards, hl']) hu'
  apply List.ext_getElem?
  intro i
  by_cases hi : i < d
  · obtain ⟨x, hx⟩ : ∃ x, payloads[i]? = some x := ⟨_, List.getElem?_eq_getElem (by omega)⟩
    obtain ⟨s, hs⟩ : ∃ s, v[i]? = some s :=
      ⟨_, List.getElem?_eq_getElem (by rw [hv.length]; omega)⟩
    have hsl := getElem?_of_uniform hv.uniform hs
    have hmem := List.mem_of_getElem? hx
    have hle := length_le_groupLength hmem
    have hlt := hlong x hmem
    rw [length_dataBody, hlen] at hle
    have hwi : word[i]? = some (resize (2 + (n + k)) 0 (dataBody x)) := by
      rw [← List.getElem?_take_of_lt hi, ht, List.getElem?_map, hx]
      rfl
    have hdist := resize_disturbed (e := s) (x := x) (k := k)
      (m := 2 + (n + k) - (x.length + 2)) (by omega) (by omega)
    rw [List.getElem?_take_of_lt hi, List.getElem?_take_of_lt hi,
      getElem?_sumWords hwi (by rw [List.getElem?_map, hs]; rfl),
      getElem?_groupShards p (getElem?_disturbedGroup hs hx), hlen', ← hsl, hdist]
  · rw [List.getElem?_eq_none (by rw [List.length_take]; omega),
      List.getElem?_eq_none (by rw [List.length_take]; omega)]

theorem GroupBody.disturbed (h : GroupBody c d p payloads i body) (hc : c.Linear d p (· ^^^ ·) 0)
    (hd : 0 < d) (hv : c.IsWord d p n v) (hlong : ∀ x ∈ payloads, n < x.length)
    (hi : d ≤ i) (hz : v[i]? = some (List.replicate n 0)) :
    GroupBody c d p (disturbedGroup v payloads) i body := by
  rcases h with ⟨hlt, _⟩ | ⟨_, hl, word, hw, hb⟩
  · omega
  · obtain ⟨k, hlen, henc⟩ := encode_disturbedGroup hc hd hv hl hlong hw
    refine .inr ⟨hi, length_disturbedGroup hv.length hl, _, henc, ?_⟩
    obtain ⟨_, hu, _⟩ := groupWord_spec hc.lawful.systematic hd hl hw
    have hbl := getElem?_of_uniform hu hb
    have hpad : padShard 0 2 k (List.replicate n 0) = List.replicate (2 + (n + k)) (0 : UInt8) := by
      rw [padShard, List.replicate_append_replicate, List.replicate_append_replicate]
    rw [getElem?_sumWords hb (by rw [List.getElem?_map, hz]; rfl), hpad,
      zipWith_xor_zeros (by rw [hbl, hlen])]

theorem DisturbedBody.groupBody (h : DisturbedBody c d p n calls err q' body)
    (hc : c.Linear d p (· ^^^ ·) 0) (hd : 0 < d) (hv : BatchWord c d p n err del q v)
    (hlong : ∀ call ∈ calls, n < call.payload.length) (hq : q' ∈ batch d (d + p) del q) :
    GroupBody c d p (disturbedGroup v (groupPayloads d calls (q / (d + p)))) (q' % (d + p))
      body := by
  have hslot := hv.agrees q' hq
  rw [← batch_group hq]
  rcases h with ⟨hlt, payload, hp, rfl⟩ | ⟨hle, hz, hb⟩
  · exact .inl ⟨hlt, _, getElem?_disturbedGroup hslot hp, rfl⟩
  · rw [hz] at hslot
    refine hb.disturbed hc hd hv.word (fun x hx => ?_) hle hslot
    obtain ⟨call, hm, rfl⟩ := mem_groupPayloads hx
    exact hlong call hm

theorem length_batch_le (hd : 0 < d) (size : Nat) (del : List Nat) (q : Nat) :
    (batch d size del q).length ≤ d := by
  have hlt := length_held_lt hd size (q / size) del
  rw [batch, List.length_append, List.length_singleton]
  split
  · exact hlt
  · exact hd

/-- The disturbances of the packets of a batch, in their slots. -/
def batchPattern (d size : Nat) (err : Nat → Bytes) (del : List Nat) (q : Nat) :
    List (Option Bytes) :=
  (List.range size).map fun i =>
    if q / size * size + i ∈ batch d size del q then some (err (q / size * size + i)) else none

theorem getElem?_batchPattern : (batchPattern d size err del q)[i]? = some (some e) ↔
    i < size ∧ q / size * size + i ∈ batch d size del q ∧ e = err (q / size * size + i) := by
  rw [batchPattern, List.getElem?_map]
  by_cases hi : i < size
  · rw [List.getElem?_range hi, Option.map_some, and_iff_right hi]
    split
    · rename_i hb
      rw [and_iff_right hb, Option.some_inj, Option.some_inj]
      exact eq_comm
    · rename_i hb
      rw [Option.some_inj]
      simp only [reduceCtorEq, hb, false_and]
  · rw [List.getElem?_eq_none (by rw [List.length_range]; omega)]
    simp only [Option.map_none, reduceCtorEq, hi, false_and]

theorem present_batchPattern (hs : 0 < size) (hn : del.Nodup) (hf : q ∉ del) :
    present (batchPattern d size err del q) = (batch d size del q).length := by
  rw [present_eq_length (batch_slots_nodup hn hf d size), List.length_map]
  intro i
  constructor
  · intro hi
    have hlt : i < size := by
      obtain ⟨q', _, rfl⟩ := List.mem_map.mp hi
      exact Nat.mod_lt q' hs
    exact ⟨_, getElem?_batchPattern.mpr ⟨hlt, (mem_slots_iff hlt).mp hi, rfl⟩⟩
  · rintro ⟨e, he⟩
    obtain ⟨hlt, hb, _⟩ := getElem?_batchPattern.mp he
    exact (mem_slots_iff hlt).mpr hb

theorem BatchWord.partOf (h : BatchWord c d p n err del q v) :
    PartOf (batchPattern d (d + p) err del q) v := by
  refine ⟨by rw [batchPattern, List.length_map, List.length_range, h.word.length], ?_⟩
  intro i e he
  obtain ⟨hi, hb, rfl⟩ := getElem?_batchPattern.mp he
  have hslot := h.agrees _ hb
  rw [Blocks.mod_of_lt hi] at hslot
  exact hslot

/-- A full batch leaves one word, as far as the data packets go. -/
theorem BatchWord.unique {v' : List Bytes} (h : BatchWord c d p n err del q v)
    (h' : BatchWord c d p n err del q v') (hc : c.Linear d p (· ^^^ ·) 0) (hd : 0 < d)
    (hn : del.Nodup) (hf : q ∉ del) (hfull : d ≤ (batch d (d + p) del q).length) (hi : i < d) :
    v[i]? = v'[i]? := by
  apply hc.data_unique h.word h'.word h.partOf h'.partOf _ i hi
  rw [present_batchPattern (Nat.add_pos_left hd p) hn hf]
  exact hfull

theorem exists_batchWord (hc : c.Linear d p (· ^^^ ·) 0) (hd : 0 < d) (hpos : 0 < n)
    (herr : ∀ q, (err q).length = n) (hn : del.Nodup) (hf : q ∉ del)
    (hfull : d ≤ (batch d (d + p) del q).length) : ∃ v, BatchWord c d p n err del q v := by
  have hlen : (batch d (d + p) del q).length = d :=
    Nat.le_antisymm (length_batch_le hd _ _ _) hfull
  obtain ⟨v, hv, hpart⟩ := hc.fills n (batchPattern d (d + p) err del q) hpos
    (by rw [batchPattern, List.length_map, List.length_range])
    (fun i e he => by rw [(getElem?_batchPattern.mp he).2.2, herr])
    (by rw [present_batchPattern (Nat.add_pos_left hd p) hn hf, hlen])
  refine ⟨v, hv, fun q' hq' => hpart.2 _ _ (getElem?_batchPattern.mpr ?_)⟩
  have hnum : q / (d + p) * (d + p) + q' % (d + p) = q' := by
    rw [← batch_group hq', Nat.div_add_mod']
  rw [hnum]
  exact ⟨Nat.mod_lt q' (Nat.add_pos_left hd p), hq', rfl⟩

/-- Every delivery has its word: that of its batch if the batch is full, the zero word if not. -/
theorem exists_word_at {pkts : List (Nat × Bytes)} (hc : c.Linear d p (· ^^^ ·) 0) (hd : 0 < d)
    (hpos : 0 < n) (herr : ∀ q, (err q).length = n) (hn : (pkts.map Prod.fst).Nodup) (m : Nat) :
    ∃ v, c.IsWord d p n v ∧ ∀ x, pkts[m]? = some x →
      d ≤ (batch d (d + p) ((pkts.map Prod.fst).take m) x.1).length →
      BatchWord c d p n err ((pkts.map Prod.fst).take m) x.1 v := by
  by_cases hfull : ∃ x, pkts[m]? = some x ∧
      d ≤ (batch d (d + p) ((pkts.map Prod.fst).take m) x.1).length
  · obtain ⟨x, hx, hfull⟩ := hfull
    obtain ⟨v, hv⟩ := exists_batchWord hc hd hpos herr
      (hn.sublist (List.take_sublist m _)) (not_mem_take hn hx) hfull
    refine ⟨v, hv.word, fun y hy _ => ?_⟩
    rw [hx] at hy
    cases hy
    exact hv
  · exact ⟨_, hc.zero n hpos, fun x hx hle => absurd ⟨x, hx, hle⟩ hfull⟩

theorem Numbered.fits_disturbed {e : FecEncoder} (h : Numbered c d p e calls) (hu : Uniform n v)
    (hlong : ∀ call ∈ calls, n < call.payload.length)
    (hx : x ∈ disturbedGroup v (groupPayloads d calls g)) : x.length + 2 ≤ 0xffff := by
  obtain ⟨i, hi⟩ := List.getElem?_of_mem hx
  rw [disturbedGroup, List.getElem?_zipWith_eq_some] at hi
  obtain ⟨s, payload, hs, hp, rfl⟩ := hi
  have hmem := List.mem_of_getElem? hp
  obtain ⟨call, hm, hcall⟩ := mem_groupPayloads hmem
  have hlt := hlong call hm
  rw [hcall] at hlt
  rw [length_disturbed (by rw [getElem?_of_uniform hu hs]; exact Nat.le_of_lt hlt)]
  exact h.fits g payload hmem

/-- Deliver any of an encoder's packets, in any order, each at most once, with payloads that
were disturbed on the way: every full batch brings back payloads that are disturbed by the word
through the disturbances of its packets. -/
theorem Numbered.deliver_disturbed {f : Bytes → Bytes} {s : FecDecoder} {e : FecEncoder}
    {pkts : List (Nat × Bytes)} (h : Numbered c d p e calls)
    (hc : c.Linear d p (· ^^^ ·) 0) (hlong : ∀ call ∈ calls, n < call.payload.length)
    (hpos : 0 < n) (herr : ∀ q, (err q).length = n)
    (hs : Tracks c d p (DisturbedBody c d p n calls err) s [])
    (hdel : List.Subperm pkts (numbered d (d + p) calls))
    (hf : ∀ x ∈ pkts, Carries d p (DisturbedBody c d p n calls err) x.1 (f x.2))
    (hclean : Clean d (d + p) (pkts.map Prod.fst)) : ∃ v : Nat → List Bytes,
      (∀ m x, pkts[m]? = some x → d ≤ (batch d (d + p) ((pkts.map Prod.fst).take m) x.1).length →
        BatchWord c d p n err ((pkts.map Prod.fst).take m) x.1 (v m)) ∧
      ∃ t results, decodeAll s (pkts.map fun x => f x.2) = .ok (t, results) ∧
        ∀ m x, pkts[m]? = some x → results[m]? = some (Except.ok (recovery d (d + p)
          (fun g => disturbedGroup (v m) (groupPayloads d calls g))
          ((pkts.map Prod.fst).take m) x.1)) := by
  have hd := h.built.valid.data_pos
  have hnodup := h.delivery_nodup hc.lawful.systematic hdel
  have hword (m : Nat) := exists_word_at hc hd hpos herr hnodup m
  choose v hv hbatch using hword
  refine ⟨v, hbatch, ?_⟩
  have hfst : (pkts.map fun x => (x.1, f x.2)).map Prod.fst = pkts.map Prod.fst := by
    rw [List.map_map]
    rfl
  have hget {m : Nat} {y : Nat × Bytes} (hy : (pkts.map fun x => (x.1, f x.2))[m]? = some y) :
      ∃ x, pkts[m]? = some x ∧ y = (x.1, f x.2) := by
    rw [List.getElem?_map] at hy
    obtain ⟨x, hx, rfl⟩ := Option.map_eq_some_iff.mp hy
    exact ⟨x, hx, rfl⟩
  have hrestorable (m : Nat) (y : Nat × Bytes)
      (hy : (pkts.map fun x => (x.1, f x.2))[m]? = some y) :
      Restorable c d p (DisturbedBody c d p n calls err)
        ((fun m g => disturbedGroup (v m) (groupPayloads d calls g)) m)
        (((pkts.map fun x => (x.1, f x.2)).map Prod.fst).take m) y.1 := by
    obtain ⟨x, hx, rfl⟩ := hget hy
    rw [hfst]
    intro hfull _ q' hq' body hb
    exact hb.groupBody hc hd (hbatch m x hx hfull) hlong hq'
  obtain ⟨t, results, hrun, _, hres⟩ := hs.run hc.lawful
    (fun m g x hx => h.fits_disturbed (hv m).uniform hlong hx) (by rw [hfst]; exact hnodup)
    (fun y hy => by
      obtain ⟨x, hx, rfl⟩ := List.mem_map.mp hy
      exact hf x hx)
    (by rw [hfst]; exact hclean) hrestorable
  rw [List.map_map] at hrun
  refine ⟨t, results, hrun, fun m x hx => ?_⟩
  have hr := hres m (x.1, f x.2) (by rw [List.getElem?_map, hx]; rfl)
  rw [hfst] at hr
  exact hr

end TokioKcp.Fec
