import TokioKcp.Fec.SpuriousRecovery
import Mathlib.Data.List.Sort

namespace TokioKcp.Fec
set_option autoImplicit true

open Checked ErasureCode

variable {d p g i k m n q q' size : Nat} {c : ReedSolomon} {packet : Bytes}
variable {del : List Nat} {pkts : List (Nat × Bytes)}
variable {e : FecEncoder} {calls : List Call} {s : FecDecoder}

theorem clean_of_one (size : Nat) (del : List Nat) : Clean 1 size del := by
  intro pre q _ q' hheld _ _
  have hlt := length_held_lt Nat.one_pos size (q' / size) pre
  rw [Nat.lt_one_iff] at hlt
  rw [List.eq_nil_of_length_eq_zero hlt] at hheld
  cases hheld

theorem undelivered_payloads_eq_nil (h : (g + 1) * d ≤ calls.length) (del : List Nat) :
    ((undelivered d size g del).filterMap fun i => (calls[g * d + i]?).map Call.payload) = [] ↔
      undelivered d size g del = [] := by
  rw [List.filterMap_eq_nil_iff]
  constructor
  · intro hnone
    apply List.eq_nil_iff_forall_not_mem.mpr
    intro i hi
    have hid := List.mem_range.mp (List.mem_of_mem_filter hi)
    rw [Nat.add_mul, Nat.one_mul] at h
    have hsome := hnone i hi
    rw [List.getElem?_eq_getElem (by omega)] at hsome
    cases hsome
  · intro hnil i hi
    rw [hnil] at hi
    cases hi

/-- Behind the window nothing comes back, unless there is one data shard only. -/
theorem recovery_behind (hd : d ≠ 1) (hp : 0 < d) (hw : ¬InWindow size del q)
    (payloads : Nat → List Bytes) : recovery d size payloads del q = [] := by
  rw [recovery, if_neg]
  intro hfull
  rcases (batch_full hfull).2 with h | h | h
  · exact hd h
  · omega
  · exact hw h

theorem inWindow_of_sorted (hv : ValidShards d p) (hlt : ∀ q ∈ del, q < pawsOf (d + p))
    (hs : del.Pairwise (· < ·)) (hq : del[n]? = some q) :
    InWindow (d + p) (del.take n) q := by
  apply inWindow_of_lt hv (hlt q (List.mem_of_getElem? hq))
  intro q' hq'
  refine ⟨hlt q' (List.mem_of_mem_take hq'), ?_⟩
  obtain ⟨i, hi⟩ := List.getElem?_of_mem hq'
  have hin : i < n := by
    have hl := (List.getElem?_eq_some_iff.mp hi).1
    rw [List.length_take] at hl
    omega
  rw [List.getElem?_take_of_lt hin] at hi
  obtain ⟨hil, rfl⟩ := List.getElem?_eq_some_iff.mp hi
  obtain ⟨hnl, rfl⟩ := List.getElem?_eq_some_iff.mp hq
  have hle := List.pairwise_iff_getElem.mp hs i n hil hnl hin
  exact Nat.le_trans (Nat.div_le_div_right (Nat.le_of_lt hle)) (Nat.le_add_right _ _)

/-- In every run in which no set mixes groups, delivered in order with any losses, the
`d`-th packet of a group brings back the payloads that were not delivered exactly when there
is one data shard, the group is still in the window, or nothing is missing. There is one data
shard or no wrap in every run, so all of this holds there. -/
theorem wraparound_recovery {rs : Nat → Nat → Except String ReedSolomon}
    (hv : validateShards d p = .ok (.ok ())) (hrs : rs d p = .ok c) (hc : c.Lawful d p) :
    ∃ e s, FecEncoder.new rs d p = .ok (.ok e) ∧ FecDecoder.new rs d p = .ok (.ok s) ∧
    ∀ inputs, ∃ e' outs, encodeAll e inputs = .ok (e', outs) ∧
    let calls := accepted (inputs.zip outs)
    ∀ pkts, List.Sublist pkts (numbered d (d + p) calls) →
    (Clean d (d + p) (pkts.map Prod.fst) →
      ∃ t results, decodeAll s (pkts.map Prod.snd) = .ok (t, results) ∧
      ∀ n q packet, pkts[n]? = some (q, packet) →
        let g := q / (d + p)
        let before := (pkts.map Prod.fst).take n
        (arrivals (d + p) g before).length + 1 = d → (g + 1) * d ≤ calls.length ∧
        (results[n]? = some (Except.ok ((undelivered d (d + p) g (before ++ [q])).filterMap
            fun i => (calls[g * d + i]?).map Call.payload)) ↔
          d = 1 ∨ InWindow (d + p) before q ∨ undelivered d (d + p) g (before ++ [q]) = [])) ∧
    ((d = 1 ∨ ∀ x ∈ pkts, x.1 < pawsOf (d + p)) → Clean d (d + p) (pkts.map Prod.fst) ∧
      ∀ n q packet, pkts[n]? = some (q, packet) →
        d = 1 ∨ InWindow (d + p) ((pkts.map Prod.fst).take n) q) := by
  obtain ⟨e, he, hnew⟩ := FecEncoder.new_numbered hv hrs
  obtain ⟨s, hs, htracks⟩ := FecDecoder.new_tracks hv hrs
  refine ⟨e, s, he, hs, fun inputs => ?_⟩
  obtain ⟨e', outs, hrun, hnum⟩ := encodeAll_numbered hnew hc.systematic inputs
  refine ⟨e', outs, hrun, ?_⟩
  intro calls pkts hsub
  have hvalid := hnum.built.valid
  have hdel := hsub.subperm
  constructor
  · intro hclean
    obtain ⟨t, results, hdec, hres⟩ := hnum.deliver hc (htracks _) hdel hclean
    refine ⟨t, results, hdec, ?_⟩
    intro n q packet hx g before hcount
    have hr := hres n _ hx
    have hgroup := group_end_le_of_length hvalid.data_pos
      (hnum.group_of_count hc.systematic hdel hx (Nat.le_of_eq hcount.symm))
    refine ⟨hgroup, ?_⟩
    rw [hres n _ hx]
    by_cases hw : d = 1 ∨ InWindow (d + p) before q
    · rw [(recovery_first (Nat.le_add_right d p) hw calls).2 hcount]
      exact iff_of_true rfl (or_assoc.mp (.inl hw))
    · obtain ⟨hd, hout⟩ := not_or.mp hw
      rw [recovery_behind hd hvalid.data_pos hout, or_iff_right hd, or_iff_right hout,
        ← undelivered_payloads_eq_nil hgroup, Option.some_inj, Except.ok.injEq, eq_comm]
  · rintro (rfl | hlt)
    · exact ⟨clean_of_one _ _, fun _ _ _ _ => .inl rfl⟩
    · have hnumbers : ∀ q ∈ pkts.map Prod.fst, q < pawsOf (d + p) := by
        intro q hq
        obtain ⟨x, hx, rfl⟩ := List.mem_map.mp hq
        exact hlt x hx
      have hsorted : (pkts.map Prod.fst).Pairwise (· < ·) := by
        rw [List.pairwise_map]
        exact (hnum.increasing hc.systematic).sublist hsub
      refine ⟨clean_of_lt hvalid hnumbers, fun n q packet hx => .inr ?_⟩
      apply inWindow_of_sorted hvalid hnumbers hsorted
      rw [List.getElem?_map, hx]
      rfl

theorem wraparound_recovery_two_one : ∃ e s,
    FecEncoder.new reedSolomon 2 1 = .ok (.ok e) ∧ FecDecoder.new reedSolomon 2 1 = .ok (.ok s) ∧
    ∀ inputs, ∃ e' outs, encodeAll e inputs = .ok (e', outs) ∧
    let calls := accepted (inputs.zip outs)
    ∀ pkts, List.Sublist pkts (numbered 2 3 calls) →
    (Clean 2 3 (pkts.map Prod.fst) →
      ∃ t results, decodeAll s (pkts.map Prod.snd) = .ok (t, results) ∧
      ∀ n q packet, pkts[n]? = some (q, packet) →
        let g := q / 3
        let before := (pkts.map Prod.fst).take n
        (arrivals 3 g before).length + 1 = 2 → (g + 1) * 2 ≤ calls.length ∧
        (results[n]? = some (Except.ok ((undelivered 2 3 g (before ++ [q])).filterMap
            fun i => (calls[g * 2 + i]?).map Call.payload)) ↔
          2 = 1 ∨ InWindow 3 before q ∨ undelivered 2 3 g (before ++ [q]) = [])) ∧
    ((2 = 1 ∨ ∀ x ∈ pkts, x.1 < pawsOf 3) → Clean 2 3 (pkts.map Prod.fst) ∧
      ∀ n q packet, pkts[n]? = some (q, packet) →
        2 = 1 ∨ InWindow 3 ((pkts.map Prod.fst).take n) q) :=
  wraparound_recovery rfl rfl reedSolomon21_lawful

theorem Numbered.data_emitted (h : Numbered c d p e calls) (hk : k < calls.length) :
    ∃ packet, (seqOf d (d + p) k, packet) ∈ numbered d (d + p) calls := by
  obtain ⟨parity, he, _⟩ := (h.packets k _ (List.getElem?_eq_getElem hk)).packets
  have hj : calls[k].packets[0]? = some (packetOf (pawsOf (d + p)) (seqOf d (d + p) k) typeData
      (dataBody calls[k].payload)) := by
    rw [he]
    rfl
  exact ⟨_, mem_numbered.mpr ⟨k, calls[k], 0, List.getElem?_eq_getElem hk, hj, rfl⟩⟩

theorem Numbered.parity_emitted (h : Numbered c d p e calls) (hc : c.Systematic d p)
    (hk : k < calls.length) (hlast : k % d + 1 = d) (ht : Timely calls k) :
    ∃ packet, (k / d * (d + p) + d, packet) ∈ numbered d (d + p) calls ∧
      isParityPacket packet = true := by
  have hv := h.built.valid
  have hpos := hv.parity_pos
  obtain ⟨parity, he, hpar⟩ := (h.packets k _ (List.getElem?_eq_getElem hk)).packets
  rcases hpar with ⟨_, hnot⟩ | ⟨_, word, hw, rfl⟩
  · exact absurd ⟨hlast, ht⟩ hnot
  · have hl := (groupWord_spec hc hv.data_pos
      (length_groupPayloads (group_end_le hlast hk)) hw).1
    have hd : d < word.length := by omega
    refine ⟨packetOf (pawsOf (d + p)) (k / d * (d + p) + d + 0) typeParity word[d],
      mem_numbered.mpr ⟨k, calls[k], 1, List.getElem?_eq_getElem hk, ?_, ?_⟩,
      isParityPacket_parity _ _ _⟩
    · rw [he, List.getElem?_cons_succ, parityPackets, List.getElem?_mapIdx,
        List.getElem?_drop, Nat.add_zero d, List.getElem?_eq_getElem hd]
      rfl
    · rw [seqOf]
      omega

theorem clean_of_ids (h : ∀ q ∈ del, ∀ q' ∈ del, idOf size q' = idOf size q →
    q' / size = q / size) (d : Nat) : Clean d size del := by
  intro pre q hp q' hheld hid _
  apply h q (hp.subset (List.mem_append_right _ (List.mem_singleton.mpr rfl))) q' _ hid
  exact hp.subset (List.mem_append_left _ (mem_of_mem_held hheld).1)

theorem sublist_of_increasing {xs ys : List (Nat × Bytes)}
    (hxs : xs.Pairwise fun x y => x.1 < y.1) (hys : ys.Pairwise fun x y => x.1 < y.1)
    (h : xs ⊆ ys) : List.Sublist xs ys := by
  have hanti : Std.Antisymm fun x y : Nat × Bytes => x.1 < y.1 :=
    ⟨fun _ _ hlt hgt => absurd hgt (Nat.lt_asymm hlt)⟩
  have hn : xs.Nodup := hxs.imp fun hlt he => Nat.ne_of_lt hlt (congrArg Prod.fst he)
  exact List.sublist_of_subperm_of_pairwise (List.subperm_of_subset hn h) hxs hys

/-- Three packets around the wrap of an encoder with two data shards and one parity shard:
the first of the last group before it, and the last two of the first group after it. -/
theorem Numbered.around_wrap (h : Numbered reedSolomon21 2 1 e calls)
    (hs : Tracks reedSolomon21 2 1 (EmittedBody reedSolomon21 2 1 calls) s [])
    (hlen : calls.length = 2863311532) (ht : Timely calls 2863311531) :
    ∃ pkts t results, List.Sublist pkts (numbered 2 3 calls) ∧
      decodeAll s (pkts.map Prod.snd) = .ok (t, results) ∧
      pkts.map Prod.fst = [4294967292, 4294967296, 4294967297] ∧
      (pkts[2]?).map (fun x => isParityPacket x.2) = some true ∧
      results = [.ok [], .ok [], .ok []] := by
  have hc := reedSolomon21_lawful
  obtain ⟨x₁, h₁⟩ := h.data_emitted (k := 2863311528) (by omega)
  obtain ⟨x₂, h₂⟩ := h.data_emitted (k := 2863311531) (by omega)
  obtain ⟨x₃, h₃, hparity⟩ := h.parity_emitted hc.systematic (k := 2863311531) (by omega)
    (by decide) ht
  have hsub : List.Sublist [(4294967292, x₁), (4294967296, x₂), (4294967297, x₃)]
      (numbered 2 3 calls) := by
    have hmem : [(4294967292, x₁), (4294967296, x₂), (4294967297, x₃)] ⊆ numbered 2 3 calls := by
      intro x hx
      simp only [List.mem_cons, List.not_mem_nil, or_false] at hx
      rcases hx with rfl | rfl | rfl
      · exact h₁
      · exact h₂
      · exact h₃
    exact sublist_of_increasing (by simp) (h.increasing hc.systematic) hmem
  have hclean : Clean 2 3 [4294967292, 4294967296, 4294967297] :=
    clean_of_ids (by decide) 2
  obtain ⟨t, results, hdec, hres⟩ := h.deliver hc hs hsub.subperm hclean
  refine ⟨_, t, results, hsub, hdec, rfl, ?_, ?_⟩
  · rw [← hparity]
    rfl
  · have hrec (pre : List Nat) (q : Nat) (hb : ¬2 ≤ (batch 2 3 pre q).length) :
        recovery 2 3 (groupPayloads 2 calls) pre q = [] := if_neg hb
    have hr₁ : results[0]? = some (Except.ok []) :=
      (hres 0 _ rfl).trans (by rw [← hrec [] 4294967292 (by decide)]; rfl)
    have hr₂ : results[1]? = some (Except.ok []) :=
      (hres 1 _ rfl).trans (by rw [← hrec [4294967292] 4294967296 (by decide)]; rfl)
    have hr₃ : results[2]? = some (Except.ok []) := (hres 2 _ rfl).trans
      (by rw [← hrec [4294967292, 4294967296] 4294967297 (by decide)]; rfl)
    match results, runAll_length hdec with
    | [r₁, r₂, r₃], _ =>
      cases hr₁
      cases hr₂
      cases hr₃
      rfl

/-- An encoder that is given empty payloads in quick succession over the wrap. -/
theorem Numbered.idle_run (h : Numbered reedSolomon21 2 1 e [])
    (hs : ∀ carried, Tracks reedSolomon21 2 1 carried s []) {inputs : List (Bytes × Nat)}
    (hidle : ∀ x ∈ inputs, x = ([], 0)) (hlen : inputs.length = 2863311532) :
    ∃ e' outs pkts t results, encodeAll e inputs = .ok (e', outs) ∧
    let calls := accepted (inputs.zip outs)
    List.Sublist pkts (numbered 2 3 calls) ∧ decodeAll s (pkts.map Prod.snd) = .ok (t, results) ∧
    pkts.map Prod.fst = [4294967292, 4294967296, 4294967297] ∧
    (pkts[2]?).map (fun x => isParityPacket x.2) = some true ∧
    payloadAt 2 3 calls 4294967295 = some [] ∧ results = [.ok [], .ok [], .ok []] := by
  have hfit : ∀ x ∈ inputs, x.1.length ≤ 65533 := by
    intro x hx
    rw [hidle x hx]
    exact Nat.zero_le _
  obtain ⟨e', outs, hrun, hnum, hmap, _⟩ := encodeAll_fits h reedSolomon21_lawful.systematic hfit
  refine ⟨e', outs, ?_⟩
  generalize accepted (inputs.zip outs) = calls at *
  have hcount := congrArg List.length hmap
  rw [List.length_map, hlen] at hcount
  have hcall {k : Nat} {call : Call} (hk : calls[k]? = some call) :
      call.payload = [] ∧ call.now = 0 := by
    have hm : (call.payload, call.now) ∈ inputs := by
      rw [← hmap]
      exact List.mem_map_of_mem (List.mem_of_getElem? hk)
    exact Prod.ext_iff.mp (hidle _ hm)
  have hget {k : Nat} (hk : k < 2863311532) : ∃ call, calls[k]? = some call :=
    ⟨_, List.getElem?_eq_getElem (hcount.symm ▸ hk)⟩
  obtain ⟨prev, hprev⟩ := hget (show 2863311530 < 2863311532 by decide)
  obtain ⟨last, hlast⟩ := hget (show 2863311531 < 2863311532 by decide)
  have htimely : Timely calls 2863311531 := by
    refine ⟨prev, last, by decide, hprev, hlast, ?_⟩
    rw [(hcall hlast).2, Nat.zero_sub]
    decide
  obtain ⟨pkts, t, results, hsub, hdec, hfst, hpar, hres⟩ :=
    hnum.around_wrap (hs _) hcount htimely
  refine ⟨pkts, t, results, hrun, hsub, hdec, hfst, hpar, ?_, hres⟩
  rw [payloadAt, hprev, Option.map_some, (hcall hprev).1]

/-- With two data shards and one parity shard: after a packet of the last group before the
wrap, the first group after the wrap loses its first data packet, and the two packets of it
that are delivered do not bring it back. -/
theorem not_recovered_after_wrap : reedSolomon21.Lawful 2 1 ∧ ∃ e s,
    FecEncoder.new reedSolomon 2 1 = .ok (.ok e) ∧ FecDecoder.new reedSolomon 2 1 = .ok (.ok s) ∧
    ∃ inputs e' outs pkts t results, encodeAll e inputs = .ok (e', outs) ∧
    let calls := accepted (inputs.zip outs)
    List.Sublist pkts (numbered 2 3 calls) ∧ decodeAll s (pkts.map Prod.snd) = .ok (t, results) ∧
    pkts.map Prod.fst = [4294967292, 4294967296, 4294967297] ∧
    (pkts[2]?).map (fun x => isParityPacket x.2) = some true ∧
    payloadAt 2 3 calls 4294967295 = some [] ∧ results = [.ok [], .ok [], .ok []] := by
  have hrs : reedSolomon 2 1 = .ok reedSolomon21 := rfl
  obtain ⟨e, he, hnew⟩ := FecEncoder.new_numbered rfl hrs
  obtain ⟨s, hs, htracks⟩ := FecDecoder.new_tracks rfl hrs
  exact ⟨reedSolomon21_lawful, e, s, he, hs, List.replicate 2863311532 ([], 0), hnew.idle_run htracks
    (fun x hx => List.eq_of_mem_replicate hx) List.length_replicate⟩

end TokioKcp.Fec
