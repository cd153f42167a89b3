import TokioKcp.Fec.Tracking
import Mathlib.Data.List.Perm.Subperm

namespace TokioKcp.Fec
set_option autoImplicit true

open Checked ErasureCode

variable {d p g i k m n q q' size : Nat} {c : ReedSolomon} {s t : FecDecoder} {packet : Bytes}
variable {carried : Nat → Bytes → Prop} {del pre : List Nat} {pkts : List (Nat × Bytes)}
variable {e : FecEncoder} {calls : List Call} {inputs : List (Bytes × Nat)}

/-- At no delivery do packets of another group wait under the id of the packet. -/
def Clean (d size : Nat) (del : List Nat) : Prop :=
  ∀ pre q, pre ++ [q] <+: del → Unmixed d size pre q

/-- The decoder answers every delivery of a clean run as it is meant to, where each delivery may
have groups of its own that its batch is part of. -/
theorem Tracks.run {payloads : Nat → Nat → List Bytes} (h : Tracks c d p carried s [])
    (hc : c.Lawful d p) (hfit : ∀ n g, ∀ x ∈ payloads n g, x.length + 2 ≤ 0xffff)
    (hn : (pkts.map Prod.fst).Nodup)
    (hq : ∀ x ∈ pkts, Carries d p carried x.1 x.2)
    (hclean : Clean d (d + p) (pkts.map Prod.fst))
    (hr : ∀ n x, pkts[n]? = some x →
      Restorable c d p carried (payloads n) ((pkts.map Prod.fst).take n) x.1) :
    ∃ t results, decodeAll s (pkts.map Prod.snd) = .ok (t, results) ∧
      Tracks c d p carried t (pkts.map Prod.fst) ∧
      ∀ n x, pkts[n]? = some x → results[n]? =
        some (Except.ok (recovery d (d + p) (payloads n) ((pkts.map Prod.fst).take n) x.1)) := by
  induction pkts using List.reverseRecOn with
  | nil => exact ⟨s, [], rfl, h, fun n x hx => by cases hx⟩
  | append_singleton pkts x ih =>
    have hfst : (pkts ++ [x]).map Prod.fst = pkts.map Prod.fst ++ [x.1] := List.map_append
    rw [hfst] at hn hclean ⊢
    obtain ⟨hn', -, hdisj⟩ := List.nodup_append.mp hn
    obtain ⟨t, results, hrun, ht, hres⟩ := ih hn'
      (fun y hy => hq y (List.mem_append_left _ hy))
      (fun pre q hp => hclean pre q (hp.trans (List.prefix_append _ _)))
      (fun n y hy => by
        have hlt := (List.getElem?_eq_some_iff.mp hy).1
        have hy' := hr n y (by rw [List.getElem?_append_left hlt, hy])
        rwa [hfst, List.take_append_of_le_length
          (by rw [List.length_map]; exact Nat.le_of_lt hlt)] at hy')
    have hlast := hr pkts.length x List.getElem?_concat_length
    rw [hfst, List.take_left' (List.length_map _)] at hlast
    have hfresh : x.1 ∉ pkts.map Prod.fst :=
      fun hm => hdisj _ hm _ (List.mem_singleton.mpr rfl) rfl
    obtain ⟨u, hu, htu⟩ := ht.deliver hc (hfit _ _) hn' hfresh (hclean _ _ (List.prefix_refl _))
      (hq x (List.mem_append_right _ (List.mem_singleton.mpr rfl))) hlast
    have hlen := runAll_length hrun
    rw [List.length_map] at hlen
    refine ⟨u, results ++ [.ok (recovery d (d + p) (payloads pkts.length) (pkts.map Prod.fst) x.1)],
      ?_, htu, ?_⟩
    · rw [List.map_append, List.map_singleton]
      exact runAll_snoc hrun hu
    · intro n y hy
      rcases getElem?_snoc hy with ⟨hlt, hold⟩ | ⟨rfl, rfl⟩
      · rw [List.getElem?_append_left (by omega), hres n y hold,
          List.take_append_of_le_length (by rw [List.length_map]; omega)]
      · rw [← hlen, List.getElem?_concat_length, hlen]
        rw [List.take_left' (List.length_map _)]

/-- What the packets of an encoder carry. -/
def EmittedBody (c : ReedSolomon) (d p : Nat) (calls : List Call) (q : Nat)
    (body : Bytes) : Prop :=
  GroupBody c d p (groupPayloads d calls (q / (d + p))) (q % (d + p)) body

theorem restorable_emitted (c : ReedSolomon) (d p : Nat) (calls : List Call) (del : List Nat)
    (q : Nat) : Restorable c d p (EmittedBody c d p calls) (groupPayloads d calls) del q := by
  intro _ _ q' hq' body hb
  rw [EmittedBody, batch_group hq'] at hb
  exact hb

theorem groupPayloads_getElem? (hi : i < d) (calls : List Call) (g : Nat) :
    (groupPayloads d calls g)[i]? = (calls[g * d + i]?).map Call.payload := by
  rw [groupPayloads, List.getElem?_take_of_lt hi, List.getElem?_drop, List.getElem?_map]

theorem Numbered.packet_cases (h : Numbered c d p e calls) (hc : c.Systematic d p)
    (hm : (q, packet) ∈ numbered d (d + p) calls) :
    (q % (d + p) < d ∧ ∃ call, calls[q / (d + p) * d + q % (d + p)]? = some call ∧
      packet = packetOf (pawsOf (d + p)) q typeData (dataBody call.payload)) ∨
    (d ≤ q % (d + p) ∧ ∃ body, EmittedBody c d p calls q body ∧
      packet = packetOf (pawsOf (d + p)) q typeParity body) := by
  have hv := h.built.valid
  have hd := hv.data_pos
  obtain ⟨k, call, j, hk, hj, rfl⟩ := mem_numbered.mp hm
  rcases (h.packets k call hk).getElem? hj with ⟨rfl, rfl⟩ | ⟨hpos, hlast, word, body, hw, hb, rfl⟩
  · left
    rw [Nat.add_zero, seqOf_div hv, seqOf_mod hv, Nat.div_add_mod']
    exact ⟨Nat.mod_lt k hd, call, hk, rfl⟩
  · right
    have hl := length_groupPayloads (group_end_le hlast (List.getElem?_eq_some_iff.mp hk).1)
    have hi := (List.getElem?_eq_some_iff.mp hb).1
    rw [(groupWord_spec hc hd hl hw).1] at hi
    have hnum : seqOf d (d + p) k + j = k / d * (d + p) + (d + (j - 1)) := by
      rw [seqOf]
      omega
    have hslot : (seqOf d (d + p) k + j) % (d + p) = d + (j - 1) := by
      rw [hnum, Blocks.mod_of_lt hi]
    have hgroup : (seqOf d (d + p) k + j) / (d + p) = k / d := by
      rw [hnum, Blocks.div_of_lt hi]
    refine ⟨by rw [hslot]; exact Nat.le_add_right _ _, body, ?_, rfl⟩
    rw [EmittedBody, hslot, hgroup]
    exact .inr ⟨Nat.le_add_right _ _, hl, word, hw, hb⟩

theorem Numbered.isFecPacket (h : Numbered c d p e calls) (hc : c.Systematic d p)
    (hm : (q, packet) ∈ numbered d (d + p) calls) : isFecPacket packet = true := by
  rw [TokioKcp.Fec.isFecPacket, Bool.or_eq_true]
  rcases h.packet_cases hc hm with ⟨_, call, _, rfl⟩ | ⟨_, body, _, rfl⟩
  · exact .inl (isDataPacket_data _ _ _)
  · exact .inr (isParityPacket_parity _ _ _)

theorem Numbered.carries (h : Numbered c d p e calls) (hc : c.Systematic d p)
    (hm : (q, packet) ∈ numbered d (d + p) calls) :
    Carries d p (EmittedBody c d p calls) q packet := by
  have hv := h.built.valid
  have hcarries (flag : Nat) (body : Bytes) (hb : EmittedBody c d p calls q body) :
      Carries d p (EmittedBody c d p calls) q (packetOf (pawsOf (d + p)) q flag body) := by
    refine ⟨?_, seqid_packetOf hv _ _ _, ?_⟩
    · rw [length_packetOf]
      exact Nat.le_add_right _ _
    · rw [drop_packetOf]
      exact hb
  rcases h.packet_cases hc hm with ⟨hlt, call, hcall, rfl⟩ | ⟨_, body, hb, rfl⟩
  · refine hcarries _ _ (.inl ⟨hlt, call.payload, ?_, rfl⟩)
    rw [groupPayloads_getElem? hlt, hcall, Option.map_some]
  · exact hcarries _ _ hb

theorem mem_groupPayloads {x : Bytes} (hx : x ∈ groupPayloads d calls g) :
    ∃ call ∈ calls, call.payload = x :=
  List.mem_map.mp (List.mem_of_mem_drop (List.mem_of_mem_take hx))

theorem Numbered.fits (h : Numbered c d p e calls) (g : Nat) :
    ∀ x ∈ groupPayloads d calls g, x.length + 2 ≤ 0xffff := by
  intro x hx
  obtain ⟨call, hm, rfl⟩ := mem_groupPayloads hx
  obtain ⟨k, hk⟩ := List.getElem?_of_mem hm
  exact (h.packets k call hk).fits

theorem Numbered.nodup (h : Numbered c d p e calls) (hc : c.Systematic d p) :
    ((numbered d (d + p) calls).map Prod.fst).Nodup := by
  rw [List.Nodup, List.pairwise_map]
  exact (h.increasing hc).imp fun hlt => Nat.ne_of_lt hlt

theorem Numbered.delivery_nodup (h : Numbered c d p e calls) (hc : c.Systematic d p)
    (hdel : List.Subperm pkts (numbered d (d + p) calls)) : (pkts.map Prod.fst).Nodup := by
  obtain ⟨l, hperm, hsub⟩ := hdel
  rw [← (hperm.map Prod.fst).nodup_iff]
  exact (h.nodup hc).sublist (hsub.map Prod.fst)

/-- Deliver any of an encoder's packets, in any order, each at most once. -/
theorem Numbered.deliver (h : Numbered c d p e calls) (hc : c.Lawful d p)
    (hs : Tracks c d p (EmittedBody c d p calls) s [])
    (hdel : List.Subperm pkts (numbered d (d + p) calls))
    (hclean : Clean d (d + p) (pkts.map Prod.fst)) :
    ∃ t results, decodeAll s (pkts.map Prod.snd) = .ok (t, results) ∧
      ∀ n x, pkts[n]? = some x → results[n]? = some (Except.ok (recovery d (d + p)
        (groupPayloads d calls) ((pkts.map Prod.fst).take n) x.1)) := by
  obtain ⟨t, results, hrun, _, hres⟩ := hs.run hc (fun _ => h.fits)
    (h.delivery_nodup hc.systematic hdel)
    (fun x hx => h.carries hc.systematic (hdel.subset hx)) hclean
    (fun n x _ => restorable_emitted c d p calls _ x.1)
  exact ⟨t, results, hrun, hres⟩

theorem idOf_of_lt (hv : ValidShards d p) (hq : q < pawsOf (d + p)) :
    idOf (d + p) q = q / (d + p) :=
  Nat.mod_eq_of_lt (group_lt_lap hv hq)

theorem clean_of_lt (hv : ValidShards d p) (h : ∀ q ∈ del, q < pawsOf (d + p)) :
    Clean d (d + p) del := by
  intro pre q hp q' hheld hid _
  have hq : q ∈ del := hp.subset (List.mem_append_right _ (List.mem_singleton.mpr rfl))
  have hq' : q' ∈ del := hp.subset (List.mem_append_left _ (mem_of_mem_held hheld).1)
  rw [idOf_of_lt hv (h q hq), idOf_of_lt hv (h q' hq')] at hid
  exact hid

theorem inWindow_of_lt (hv : ValidShards d p) (hq : q < pawsOf (d + p))
    (h : ∀ q' ∈ del, q' < pawsOf (d + p) ∧ q' / (d + p) ≤ q / (d + p) + 3 * (d + p)) :
    InWindow (d + p) del q := by
  rw [InWindow, idOf_of_lt hv hq]
  apply longest_le
  intro w hw
  obtain ⟨q', hq', rfl⟩ := List.mem_map.mp hw
  rw [idOf_of_lt hv (h q' hq').1]
  exact (h q' hq').2

theorem held_of_lt (h : (arrivals size g del).length < d) :
    held d size g del = arrivals size g del := by
  rw [held, Blocks.rest, Nat.div_eq_of_lt h, Nat.zero_mul, List.drop_zero]

theorem mem_first_batch (hw : d = 1 ∨ InWindow size del q)
    (h : (arrivals size (q / size) del).length < d) :
    q' ∈ batch d size del q ↔ q' / size = q / size ∧ q' ∈ del ++ [q] := by
  have hb : q' ∈ batch d size del q ↔ q' ∈ arrivals size (q / size) del ∨ q' = q := by
    rw [mem_batch, held_of_lt h]
    by_cases hwin : InWindow size del q
    · rw [and_iff_right hwin]
    · have hd := hw.resolve_right hwin
      rw [hd, Nat.lt_one_iff] at h
      rw [List.eq_nil_of_length_eq_zero h]
      simp only [List.not_mem_nil, and_false]
  rw [hb, mem_arrivals, List.mem_append, List.mem_singleton]
  constructor
  · rintro (⟨hm, hg⟩ | rfl)
    · exact ⟨hg, .inl hm⟩
    · exact ⟨rfl, .inr rfl⟩
  · rintro ⟨hg, hm | rfl⟩
    · exact .inl ⟨hm, hg⟩
    · exact .inr rfl

theorem length_first_batch (hw : d = 1 ∨ InWindow size del q)
    (h : (arrivals size (q / size) del).length < d) :
    (batch d size del q).length = (arrivals size (q / size) del).length + 1 := by
  rw [batch, List.length_append, List.length_singleton, held_of_lt h]
  by_cases hwin : InWindow size del q
  · rw [if_pos hwin]
  · rw [if_neg hwin]
    have hd := hw.resolve_right hwin
    rw [hd, Nat.lt_one_iff] at h
    rw [h, List.length_nil]

def undelivered (d size g : Nat) (del : List Nat) : List Nat :=
  (List.range d).filter fun i => decide (g * size + i ∉ del)

theorem lacking_first_batch (hsize : d ≤ size) (hw : d = 1 ∨ InWindow size del q)
    (h : (arrivals size (q / size) del).length < d) :
    lacking d size del q = undelivered d size (q / size) (del ++ [q]) := by
  apply List.filter_congr
  intro i hi
  have hlt := Nat.lt_of_lt_of_le (List.mem_range.mp hi) hsize
  rw [Bool.eq_iff_iff, decide_eq_true_eq, decide_eq_true_eq, mem_first_batch hw h,
    Blocks.div_of_lt hlt, and_iff_right rfl]

theorem length_groupPayloads_le (d : Nat) (calls : List Call) (g : Nat) :
    (groupPayloads d calls g).length ≤ d :=
  List.length_take_le _ _

theorem arrivals_slots_nodup (hn : del.Nodup) (size g : Nat) :
    ((arrivals size g del).map (· % size)).Nodup := by
  apply List.Nodup.map_on _ (hn.filter _)
  intro x hx y hy he
  exact eq_of_group_slot ((mem_arrivals.mp hx).2.trans (mem_arrivals.mp hy).2.symm) he

/-- Only a complete group can have `d` of its packets delivered. -/
theorem Numbered.group_complete (h : Numbered c d p e calls) (hc : c.Systematic d p)
    (hdel : List.Subperm pkts (numbered d (d + p) calls))
    (hcount : d ≤ (arrivals (d + p) g (pkts.map Prod.fst)).length) :
    (groupPayloads d calls g).length = d := by
  by_contra hne
  have hsub : (arrivals (d + p) g (pkts.map Prod.fst)).map (· % (d + p)) ⊆
      List.range (groupPayloads d calls g).length := by
    intro i hi
    obtain ⟨q, hq, rfl⟩ := List.mem_map.mp hi
    obtain ⟨hm, rfl⟩ := mem_arrivals.mp hq
    obtain ⟨x, hx, rfl⟩ := List.mem_map.mp hm
    rcases (h.carries hc (hdel.subset hx)).body with ⟨_, payload, hp, _⟩ | ⟨_, hlen, _⟩
    · exact List.mem_range.mpr (List.getElem?_eq_some_iff.mp hp).1
    · exact absurd hlen hne
  have hslots := arrivals_slots_nodup (h.delivery_nodup hc hdel) (d + p) g
  have hle := (List.subperm_of_subset hslots hsub).length_le
  rw [List.length_map, List.length_range] at hle
  have hmax := length_groupPayloads_le d calls g
  omega

theorem group_end_le_of_length (hd : 0 < d) (h : (groupPayloads d calls g).length = d) :
    (g + 1) * d ≤ calls.length := by
  rw [groupPayloads, List.length_take, List.length_drop, List.length_map] at h
  rw [Nat.add_mul, Nat.one_mul]
  omega

/-- A payload was accepted, and its data packet emitted first. -/
def EmitsData (x : (Bytes × Nat) × IoResult EncodedPackets) : Prop :=
  ∃ data parity, x.2 = .ok (data :: parity) ∧ isDataPacket data = true ∧
    dataPayload data = some x.1.1

theorem encodeAll_fits (h : Numbered c d p e []) (hc : c.Systematic d p)
    (hfit : ∀ x ∈ inputs, x.1.length ≤ 65533) : ∃ e' outs,
      encodeAll e inputs = .ok (e', outs) ∧ Numbered c d p e' (accepted (inputs.zip outs)) ∧
      (accepted (inputs.zip outs)).map (fun call => (call.payload, call.now)) = inputs ∧
      ∀ x ∈ inputs.zip outs, EmitsData x := by
  have hall : ∃ e' outs, encodeAll e inputs = .ok (e', outs) ∧
      Numbered c d p e' (accepted (inputs.zip outs)) ∧
      (accepted (inputs.zip outs)).map (fun call => (call.payload, call.now)) =
        (inputs.zip outs).map Prod.fst ∧ ∀ x ∈ inputs.zip outs, EmitsData x := by
    apply runAll_history (P := fun hist e => Numbered c d p e (accepted hist) ∧
      (accepted hist).map (fun call => (call.payload, call.now)) = hist.map Prod.fst ∧
      ∀ x ∈ hist, EmitsData x)
    · exact ⟨h, rfl, List.forall_mem_nil _⟩
    intro hist t x ht hx
    have hf : x.1.length + 2 ≤ 0xffff := Nat.add_le_add_right (hfit x hx) 2
    obtain ⟨e'', data, parity, he, h', hdata⟩ := ht.1.encode_data hf hc x.2
    refine ⟨e'', .ok (data :: parity), he, ?_⟩
    rw [accepted_snoc_ok]
    refine ⟨h', ?_, ?_⟩
    · rw [List.map_append, ht.2.1, List.map_append]
      rfl
    · intro y hy
      rcases List.mem_append.mp hy with hy | hy
      · exact ht.2.2 y hy
      · cases List.mem_singleton.mp hy
        exact ⟨data, parity, rfl, hdata⟩
  obtain ⟨e', outs, hrun, hnum, hmap, hdata⟩ := hall
  refine ⟨e', outs, hrun, hnum, ?_, hdata⟩
  rw [hmap, List.map_fst_zip]
  exact Nat.le_of_eq (runAll_length hrun).symm

theorem FecDecoder.new_tracks {rs : Nat → Nat → Except String ReedSolomon}
    (hv : validateShards d p = .ok (.ok ())) (hrs : rs d p = .ok c) :
    ∃ s, FecDecoder.new rs d p = .ok (.ok s) ∧ ∀ carried, Tracks c d p carried s [] := by
  obtain ⟨s, hs, hb, hn, hm⟩ := FecDecoder.new_ok (validateShards_ok_iff.mp hv) hrs
  exact ⟨s, hs, fun carried => tracks_of_empty hb hn hm carried⟩

theorem Numbered.dataPayload_eq (h : Numbered c d p e calls) (hc : c.Systematic d p)
    (hm : (q, packet) ∈ numbered d (d + p) calls) (hd : isDataPacket packet = true) :
    ∃ call, calls[q / (d + p) * d + q % (d + p)]? = some call ∧
      dataPayload packet = some call.payload := by
  rcases h.packet_cases hc hm with ⟨_, call, hcall, rfl⟩ | ⟨_, body, _, rfl⟩
  · exact ⟨call, hcall, dataPayload_packetOf _ _ _⟩
  · rw [isDataPacket, fecFlag_packetOf _ _ (by decide)] at hd
    cases hd

theorem not_mem_take (hn : (pkts.map Prod.fst).Nodup) (hx : pkts[n]? = some (q, packet)) :
    q ∉ (pkts.map Prod.fst).take n := by
  intro hm
  obtain ⟨i, hi⟩ := List.getElem?_of_mem hm
  have hin : i < n := by
    have hlt := (List.getElem?_eq_some_iff.mp hi).1
    rw [List.length_take] at hlt
    omega
  rw [List.getElem?_take_of_lt hin] at hi
  have hq : (pkts.map Prod.fst)[n]? = some q := by
    rw [List.getElem?_map, hx]
    rfl
  have hlt := (List.getElem?_eq_some_iff.mp hi).1
  exact Nat.ne_of_lt hin ((List.getElem?_inj hlt hn).mp (hi.trans hq.symm))

theorem take_succ_of_getElem? {xs : List α} (h : xs[n]? = some x) :
    xs.take (n + 1) = xs.take n ++ [x] := by
  rw [List.take_add_one, h]
  rfl

theorem arrivals_length_mono (hmn : m ≤ n) (size g : Nat) (del : List Nat) :
    (arrivals size g (del.take m)).length ≤ (arrivals size g (del.take n)).length :=
  ((List.take_sublist_take_left hmn).filter _).length_le

theorem arrivals_length_le (size g : Nat) (del : List Nat) (n : Nat) :
    (arrivals size g (del.take n)).length ≤ (arrivals size g del).length :=
  ((List.take_sublist n del).filter _).length_le

theorem Numbered.group_of_count (h : Numbered c d p e calls) (hc : c.Systematic d p)
    (hdel : List.Subperm pkts (numbered d (d + p) calls)) (hx : pkts[n]? = some (q, packet))
    (hcount : d ≤ (arrivals (d + p) (q / (d + p)) ((pkts.map Prod.fst).take n)).length + 1) :
    (groupPayloads d calls (q / (d + p))).length = d := by
  have hq : (pkts.map Prod.fst)[n]? = some q := by
    rw [List.getElem?_map, hx]
    rfl
  apply h.group_complete hc hdel
  have hle := arrivals_length_le (d + p) (q / (d + p)) (pkts.map Prod.fst) (n + 1)
  rw [take_succ_of_getElem? hq, arrivals_snoc_self, List.length_append,
    List.length_singleton] at hle
  exact Nat.le_trans hcount hle

/-- The first `d` packets of a group bring back the data packets that were not delivered,
at the last of them and not before. -/
theorem recovery_first (hsize : d ≤ size) (hw : d = 1 ∨ InWindow size del q)
    (calls : List Call) :
    ((arrivals size (q / size) del).length + 1 < d →
      recovery d size (groupPayloads d calls) del q = []) ∧
    ((arrivals size (q / size) del).length + 1 = d →
      recovery d size (groupPayloads d calls) del q =
        (undelivered d size (q / size) (del ++ [q])).filterMap fun i =>
          (calls[q / size * d + i]?).map Call.payload) := by
  constructor
  · intro hlt
    have hlen := length_first_batch hw (Nat.lt_of_succ_lt hlt)
    rw [recovery, if_neg (by omega)]
  · intro heq
    have hlen := length_first_batch hw (Nat.lt_of_succ_le (Nat.le_of_eq heq))
    rw [recovery, if_pos (by omega), lacking_first_batch hsize hw (by omega)]
    apply List.filterMap_congr
    intro i hi
    exact groupPayloads_getElem? (List.mem_range.mp (List.mem_of_mem_filter hi)) calls _

/-- Every payload that fits is accepted and its data packet emitted, and decoding undoes encoding
under loss and reordering, as long as the numbers have not wrapped. -/
theorem fec_round_trip {rs : Nat → Nat → Except String ReedSolomon}
    (hv : validateShards d p = .ok (.ok ())) (hrs : rs d p = .ok c) (hc : c.Lawful d p) :
    ∃ e s, FecEncoder.new rs d p = .ok (.ok e) ∧ FecDecoder.new rs d p = .ok (.ok s) ∧
    ∀ inputs : List (Bytes × Nat), (∀ x ∈ inputs, x.1.length ≤ 65533) →
    ∃ e' outs, encodeAll e inputs = .ok (e', outs) ∧
    (accepted (inputs.zip outs)).map (fun call => (call.payload, call.now)) = inputs ∧
    (∀ x ∈ inputs.zip outs, EmitsData x) ∧
    let emitted := numbered d (d + p) (accepted (inputs.zip outs))
    ((∀ x ∈ emitted, x.1 < pawsOf (d + p)) →
      (∀ x ∈ emitted, isDataPacket x.2 = true →
        ∃ input, inputs[x.1 / (d + p) * d + x.1 % (d + p)]? = some input ∧
          dataPayload x.2 = some input.1) ∧
      ∀ pkts, List.Subperm pkts emitted →
      ∃ t results, decodeAll s (pkts.map Prod.snd) = .ok (t, results) ∧
      ∀ n q packet, pkts[n]? = some (q, packet) →
        let g := q / (d + p)
        let before := (pkts.map Prod.fst).take n
        (∀ q' ∈ before, q' / (d + p) ≤ g + 3 * (d + p)) →
        ((arrivals (d + p) g before).length + 1 < d → results[n]? = some (Except.ok [])) ∧
        ((arrivals (d + p) g before).length + 1 = d → (g + 1) * d ≤ inputs.length ∧
          results[n]? = some (Except.ok
            ((undelivered d (d + p) g (before ++ [q])).filterMap fun i =>
              (inputs[g * d + i]?).map Prod.fst)))) := by
  obtain ⟨e, he, hnew⟩ := FecEncoder.new_numbered hv hrs
  obtain ⟨s, hs, htracks⟩ := FecDecoder.new_tracks hv hrs
  refine ⟨e, s, he, hs, fun inputs hfit => ?_⟩
  obtain ⟨e', outs, hrun, hnum, hmap, hdata⟩ := encodeAll_fits hnew hc.systematic hfit
  refine ⟨e', outs, hrun, hmap, hdata, ?_⟩
  intro emitted hlt
  have hvalid := hnum.built.valid
  have hinput (k : Nat) : (inputs[k]?).map Prod.fst =
      ((accepted (inputs.zip outs))[k]?).map Call.payload := by
    conv => lhs; rw [← hmap]
    rw [List.getElem?_map, Option.map_map]
    rfl
  constructor
  · intro x hx hd
    obtain ⟨call, hcall, hpay⟩ := hnum.dataPayload_eq hc.systematic hx hd
    have hk := hinput (x.1 / (d + p) * d + x.1 % (d + p))
    rw [hcall, Option.map_some] at hk
    obtain ⟨input, hi, hfst⟩ := Option.map_eq_some_iff.mp hk
    exact ⟨input, hi, by rw [hpay, hfst]⟩
  · intro pkts hdel
    have hpkts : ∀ q ∈ pkts.map Prod.fst, q < pawsOf (d + p) := by
      intro q hq
      obtain ⟨x, hx, rfl⟩ := List.mem_map.mp hq
      exact hlt x (hdel.subset hx)
    obtain ⟨t, results, hdec, hres⟩ := hnum.deliver hc (htracks _) hdel (clean_of_lt hvalid hpkts)
    refine ⟨t, results, hdec, ?_⟩
    intro n q packet hx g before hwindow
    have hq : q < pawsOf (d + p) := hlt _ (hdel.subset (List.mem_of_getElem? hx))
    have hin : InWindow (d + p) before q := inWindow_of_lt hvalid hq
      (fun q' hq' => ⟨hpkts q' (List.mem_of_mem_take hq'), hwindow q' hq'⟩)
    obtain ⟨hfirst, hlast⟩ := recovery_first (Nat.le_add_right d p) (.inr hin)
      (accepted (inputs.zip outs))
    have hr := hres n _ hx
    constructor
    · intro hcount
      rw [hr, hfirst hcount]
    · intro hcount
      have hgroup := group_end_le_of_length hvalid.data_pos
        (hnum.group_of_count hc.systematic hdel hx (Nat.le_of_eq hcount.symm))
      have hlen := congrArg List.length hmap
      rw [List.length_map] at hlen
      refine ⟨hlen ▸ hgroup, ?_⟩
      rw [hr, hlast hcount]
      simp only [hinput]
      rfl

theorem fec_round_trip_two_one : ∃ e s,
    FecEncoder.new reedSolomon 2 1 = .ok (.ok e) ∧ FecDecoder.new reedSolomon 2 1 = .ok (.ok s) ∧
    ∀ inputs : List (Bytes × Nat), (∀ x ∈ inputs, x.1.length ≤ 65533) →
    ∃ e' outs, encodeAll e inputs = .ok (e', outs) ∧
    (accepted (inputs.zip outs)).map (fun call => (call.payload, call.now)) = inputs ∧
    (∀ x ∈ inputs.zip outs, EmitsData x) ∧
    let emitted := numbered 2 3 (accepted (inputs.zip outs))
    ((∀ x ∈ emitted, x.1 < pawsOf 3) →
      (∀ x ∈ emitted, isDataPacket x.2 = true →
        ∃ input, inputs[x.1 / 3 * 2 + x.1 % 3]? = some input ∧
          dataPayload x.2 = some input.1) ∧
      ∀ pkts, List.Subperm pkts emitted →
      ∃ t results, decodeAll s (pkts.map Prod.snd) = .ok (t, results) ∧
      ∀ n q packet, pkts[n]? = some (q, packet) →
        let g := q / 3
        let before := (pkts.map Prod.fst).take n
        (∀ q' ∈ before, q' / 3 ≤ g + 3 * 3) →
        ((arrivals 3 g before).length + 1 < 2 → results[n]? = some (Except.ok [])) ∧
        ((arrivals 3 g before).length + 1 = 2 → (g + 1) * 2 ≤ inputs.length ∧
          results[n]? = some (Except.ok
            ((undelivered 2 3 g (before ++ [q])).filterMap fun i =>
              (inputs[g * 2 + i]?).map Prod.fst)))) :=
  fec_round_trip rfl rfl reedSolomon21_lawful

/-- Two payloads of different lengths, the first of which is lost and comes back. -/
example : ∃ e s e' outs t,
    FecEncoder.new reedSolomon 2 1 = .ok (.ok e) ∧ FecDecoder.new reedSolomon 2 1 = .ok (.ok s) ∧
    encodeAll e [([0x11, 0x22], 0), ([0x55, 0x66, 0x77], 1)] = .ok (e', outs) ∧
    decodeAll s (((numbered 2 3 (accepted ([([0x11, 0x22], 0), ([0x55, 0x66, 0x77], 1)].zip
      outs))).drop 1).map Prod.snd) = .ok (t, [.ok [], .ok [[0x11, 0x22]]]) :=
  ⟨_, _, _, _, _, rfl, rfl, rfl, rfl⟩

end TokioKcp.Fec
