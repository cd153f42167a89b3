import TokioKcp.Fec.RoundTrip

namespace TokioKcp.Fec
set_option autoImplicit true

open Checked ErasureCode

variable {d p g i k m n q q' size : Nat} {c : ReedSolomon} {packet : Bytes}
variable {payloads : Nat → List Bytes} {del : List Nat} {pkts : List (Nat × Bytes)}
variable {e : FecEncoder} {calls : List Call}

/-- The data packets whose payloads the delivery of `q` brings back. -/
def recovered (d size : Nat) (del : List Nat) (q : Nat) : List Nat :=
  if d ≤ (batch d size del q).length then
    (lacking d size del q).map (q / size * size + ·)
  else
    []

def payloadAt (d size : Nat) (calls : List Call) (q : Nat) : Option Bytes :=
  (calls[q / size * d + q % size]?).map Call.payload

/-- No data packet is recovered after it was delivered, or a second time. -/
def NoSpuriousRecovery (d size : Nat) (del : List Nat) : Prop :=
  ∀ n q, del[n]? = some q → ∀ x ∈ recovered d size (del.take n) q,
    x ∉ del.take (n + 1) ∧
    ∀ m q', m < n → del[m]? = some q' → x ∉ recovered d size (del.take m) q'

/-- Once a group has had a batch, its later batches are made of all its data packets. -/
def LaterBatchesComplete (d size : Nat) (del : List Nat) : Prop :=
  ∀ n q, del[n]? = some q → d ≤ (batch d size (del.take n) q).length →
    d ≤ (arrivals size (q / size) (del.take n)).length → lacking d size (del.take n) q = []

theorem batch_full (h : d ≤ (batch d size del q).length) :
    d ≤ (arrivals size (q / size) del).length + 1 ∧ (d = 1 ∨ d = 0 ∨ InWindow size del q) := by
  rw [batch, List.length_append, List.length_singleton] at h
  split at h
  · rename_i hw
    refine ⟨?_, .inr (.inr hw)⟩
    rw [length_held] at h
    exact Nat.le_trans h (Nat.add_le_add_right (Nat.mod_le _ _) 1)
  · rw [List.length_nil] at h
    exact ⟨by omega, by omega⟩

theorem exists_nth {f : α → Bool} {xs : List α} (hd : 0 < d) (h : d ≤ (xs.filter f).length) :
    ∃ m x, xs[m]? = some x ∧ f x = true ∧ ((xs.take m).filter f).length + 1 = d := by
  induction xs using List.reverseRecOn with
  | nil =>
    rw [List.filter_nil, List.length_nil] at h
    omega
  | append_singleton xs x ih =>
    by_cases hle : d ≤ (xs.filter f).length
    · obtain ⟨m, y, hm, hy, hcount⟩ := ih hle
      have hlt := (List.getElem?_eq_some_iff.mp hm).1
      refine ⟨m, y, ?_, hy, ?_⟩
      · rw [List.getElem?_append_left hlt, hm]
      · rw [List.take_append_of_le_length (Nat.le_of_lt hlt)]
        exact hcount
    · rw [List.filter_append, List.length_append, List.filter_singleton] at h
      have hfx : f x = true := by
        by_contra hne
        rw [Bool.not_eq_true] at hne
        rw [hne] at h
        exact hle (by simpa using h)
      refine ⟨xs.length, x, List.getElem?_concat_length, hfx, ?_⟩
      rw [hfx] at h
      rw [List.take_left' rfl]
      simp only [cond_true, List.length_singleton] at h
      omega

theorem inWindow_anti (h : InWindow size del q) (hsub : del' ⊆ del) : InWindow size del' q := by
  apply longest_le
  intro w hw
  obtain ⟨q', hq', rfl⟩ := List.mem_map.mp hw
  exact Nat.le_trans (idOf_le_newestId (hsub hq')) h

theorem mem_recovered : q' ∈ recovered d size del q ↔ d ≤ (batch d size del q).length ∧
    ∃ i ∈ lacking d size del q, q' = q / size * size + i := by
  rw [recovered]
  split
  · rename_i hfull
    rw [List.mem_map, and_iff_right hfull]
    simp only [eq_comm]
  · rename_i hfull
    simp only [List.not_mem_nil, hfull, false_and]

theorem mem_lacking : i ∈ lacking d size del q ↔
    i < d ∧ q / size * size + i ∉ batch d size del q := by
  rw [lacking, List.mem_filter, List.mem_range, decide_eq_true_eq]

theorem recovered_group (hsize : d ≤ size) (h : q' ∈ recovered d size del q) :
    q' / size = q / size := by
  obtain ⟨_, i, hi, rfl⟩ := mem_recovered.mp h
  exact Blocks.div_of_lt (Nat.lt_of_lt_of_le (mem_lacking.mp hi).1 hsize)

theorem recovered_first (hd : 0 < d) (hsize : d ≤ size) (h : q' ∈ recovered d size del q)
    (hlt : (arrivals size (q / size) del).length < d) : q' ∉ del ++ [q] := by
  obtain ⟨hfull, i, hi, rfl⟩ := mem_recovered.mp h
  obtain ⟨hid, hnot⟩ := mem_lacking.mp hi
  have hw : d = 1 ∨ InWindow size del q := by
    rcases (batch_full hfull).2 with h | h | h
    · exact .inl h
    · omega
    · exact .inr h
  rw [mem_first_batch hw hlt, Blocks.div_of_lt (Nat.lt_of_lt_of_le hid hsize),
    and_iff_right rfl] at hnot
  exact hnot

/-- Spurious recovery is exactly a later batch of a group that lacks a data packet. -/
theorem noSpuriousRecovery_iff (del : List Nat) (hd : 0 < d) (hsize : d ≤ size) :
    NoSpuriousRecovery d size del ↔ LaterBatchesComplete d size del := by
  constructor
  · intro hfresh n q hq hfull hlater
    apply List.eq_nil_iff_forall_not_mem.mpr
    intro i hi
    obtain ⟨hid, hnot⟩ := mem_lacking.mp hi
    have hilt := Nat.lt_of_lt_of_le hid hsize
    have hrec : q / size * size + i ∈ recovered d size (del.take n) q :=
      mem_recovered.mpr ⟨hfull, i, hi, rfl⟩
    obtain ⟨hundelivered, honce⟩ := hfresh n q hq _ hrec
    -- the batch before it either held the packet or brought it back
    obtain ⟨m, q', hm, hg, hcount⟩ := exists_nth hd hlater
    have hg' : q' / size = q / size := beq_iff_eq.mp hg
    have hmn : m < n := by
      have hlt := (List.getElem?_eq_some_iff.mp hm).1
      rw [List.length_take] at hlt
      omega
    rw [List.getElem?_take_of_lt hmn] at hm
    rw [List.take_take, Nat.min_eq_left (Nat.le_of_lt hmn)] at hcount
    have hcount' : (arrivals size (q' / size) (del.take m)).length + 1 = d := by
      rw [hg']
      exact hcount
    have hw : d = 1 ∨ InWindow size (del.take m) q' := by
      rcases (batch_full hfull).2 with h | h | h
      · exact .inl h
      · omega
      · right
        have hw := inWindow_anti h (List.take_subset_take_left del (Nat.le_of_lt hmn))
        rwa [InWindow, ← idOf_of_group hg'] at hw
    apply honce m q' hmn hm
    refine mem_recovered.mpr ⟨?_, i, mem_lacking.mpr ⟨hid, ?_⟩, by rw [hg']⟩
    · rw [length_first_batch hw (by omega), hcount']
    · rw [mem_first_batch hw (by omega), hg', ← take_succ_of_getElem? hm]
      intro hmem
      exact hundelivered (List.take_subset_take_left del (by omega) hmem.2)
  · intro hcomplete n q hq x hx
    have hfull := (mem_recovered.mp hx).1
    have hlt : (arrivals size (q / size) (del.take n)).length < d := by
      by_contra hge
      obtain ⟨i, hi, _⟩ := (mem_recovered.mp hx).2
      rw [hcomplete n q hq hfull (Nat.le_of_not_lt hge)] at hi
      cases hi
    refine ⟨?_, ?_⟩
    · rw [take_succ_of_getElem? hq]
      exact recovered_first hd hsize hx hlt
    · intro m q' hmn hm hx'
      have hg : q' / size = q / size :=
        (recovered_group hsize hx').symm.trans (recovered_group hsize hx)
      have hlen := (batch_full (mem_recovered.mp hx').1).1
      have hmono := arrivals_length_mono (Nat.succ_le_of_lt hmn) size (q / size) del
      rw [take_succ_of_getElem? hm, ← hg, arrivals_snoc_self, List.length_append,
        List.length_singleton] at hmono
      rw [← hg] at hlt
      omega

/-- With fewer parity shards than data shards a group never has a second batch. -/
theorem laterBatchesComplete_of_lt (hpd : p < d) (hp : 0 < p) (hn : del.Nodup) :
    LaterBatchesComplete d (d + p) del := by
  intro n q hq hfull hlater
  exfalso
  have hw : InWindow (d + p) (del.take n) q := by
    rcases (batch_full hfull).2 with h | h | h
    · omega
    · omega
    · exact h
  have hlen := length_batch_of_inWindow (d := d) hw
  rw [length_held] at hlen
  have hdm := Nat.div_add_mod (arrivals (d + p) (q / (d + p)) (del.take n)).length d
  have hpos : 1 ≤ (arrivals (d + p) (q / (d + p)) (del.take n)).length / d :=
    (Nat.one_le_div_iff (by omega)).mpr hlater
  have hmul := Nat.mul_le_mul_left d hpos
  -- the packets of a group that were delivered take different slots
  have hslots : ((arrivals (d + p) (q / (d + p)) (del.take (n + 1))).map (· % (d + p))) ⊆
      List.range (d + p) := by
    intro i hi
    obtain ⟨q', _, rfl⟩ := List.mem_map.mp hi
    exact List.mem_range.mpr (Nat.mod_lt _ (by omega))
  have hnodup := arrivals_slots_nodup (hn.sublist (List.take_sublist (n + 1) del)) (d + p)
    (q / (d + p))
  have hcount := (List.subperm_of_subset hnodup hslots).length_le
  rw [List.length_map, List.length_range, take_succ_of_getElem? hq, arrivals_snoc_self,
    List.length_append, List.length_singleton] at hcount
  omega

theorem map_some_filterMap {f : α → Option β} {xs : List α} (h : ∀ x ∈ xs, ∃ y, f x = some y) :
    (xs.filterMap f).map some = xs.map f := by
  induction xs with
  | nil => rfl
  | cons x xs ih =>
    obtain ⟨y, hy⟩ := h x List.mem_cons_self
    rw [List.filterMap_cons_some hy, List.map_cons, List.map_cons, hy,
      ih (fun z hz => h z (List.mem_cons_of_mem _ hz))]

theorem Numbered.recovery_payloads (h : Numbered c d p e calls) (hc : c.Systematic d p)
    (hdel : List.Subperm pkts (numbered d (d + p) calls)) (hx : pkts[n]? = some (q, packet)) :
    (recovery d (d + p) (groupPayloads d calls) ((pkts.map Prod.fst).take n) q).map some =
      (recovered d (d + p) ((pkts.map Prod.fst).take n) q).map (payloadAt d (d + p) calls) := by
  rw [recovery, recovered]
  split
  · rename_i hfull
    have hgroup := h.group_of_count hc hdel hx (batch_full hfull).1
    rw [map_some_filterMap, List.map_map]
    · apply List.map_congr_left
      intro i hi
      have hid := (mem_lacking.mp hi).1
      rw [Function.comp_apply, payloadAt, Blocks.div_of_lt (Nat.lt_add_right p hid),
        Blocks.mod_of_lt (Nat.lt_add_right p hid)]
      exact groupPayloads_getElem? hid calls _
    · intro i hi
      have hid := (mem_lacking.mp hi).1
      exact ⟨_, List.getElem?_eq_getElem (by omega)⟩
  · rfl

/-- In every run in which no set mixes groups, the decoder returns the payloads of the
packets recovered; none of them is spurious exactly when the later batches of every group
are complete, which they are when there is less parity than data. -/
theorem spurious_recovery {rs : Nat → Nat → Except String ReedSolomon}
    (hv : validateShards d p = .ok (.ok ())) (hrs : rs d p = .ok c) (hc : c.Lawful d p) :
    ∃ e s, FecEncoder.new rs d p = .ok (.ok e) ∧ FecDecoder.new rs d p = .ok (.ok s) ∧
    ∀ inputs, ∃ e' outs, encodeAll e inputs = .ok (e', outs) ∧
    let calls := accepted (inputs.zip outs)
    ∀ pkts, List.Subperm pkts (numbered d (d + p) calls) → Clean d (d + p) (pkts.map Prod.fst) →
    (∃ t results, decodeAll s (pkts.map Prod.snd) = .ok (t, results) ∧
      ∀ n q packet, pkts[n]? = some (q, packet) → ∃ payloads,
        results[n]? = some (Except.ok payloads) ∧
        payloads.map some = (recovered d (d + p) ((pkts.map Prod.fst).take n) q).map
          (payloadAt d (d + p) calls)) ∧
    (NoSpuriousRecovery d (d + p) (pkts.map Prod.fst) ↔
      LaterBatchesComplete d (d + p) (pkts.map Prod.fst)) ∧
    (p < d → NoSpuriousRecovery d (d + p) (pkts.map Prod.fst)) := by
  obtain ⟨e, he, hnew⟩ := FecEncoder.new_numbered hv hrs
  obtain ⟨s, hs, htracks⟩ := FecDecoder.new_tracks hv hrs
  refine ⟨e, s, he, hs, fun inputs => ?_⟩
  obtain ⟨e', outs, hrun, hnum⟩ := encodeAll_numbered hnew hc.systematic inputs
  refine ⟨e', outs, hrun, ?_⟩
  intro calls pkts hdel hclean
  have hvalid := hnum.built.valid
  have hiff := noSpuriousRecovery_iff (pkts.map Prod.fst) hvalid.data_pos
    (Nat.le_add_right d p)
  refine ⟨?_, hiff, ?_⟩
  · obtain ⟨t, results, hdec, hres⟩ := hnum.deliver hc (htracks _) hdel hclean
    exact ⟨t, results, hdec, fun n q packet hx =>
      ⟨_, hres n _ hx, hnum.recovery_payloads hc.systematic hdel hx⟩⟩
  · intro hlt
    exact hiff.mpr (laterBatchesComplete_of_lt hlt hvalid.parity_pos
      (hnum.delivery_nodup hc.systematic hdel))

theorem spurious_recovery_two_one : ∃ e s,
    FecEncoder.new reedSolomon 2 1 = .ok (.ok e) ∧ FecDecoder.new reedSolomon 2 1 = .ok (.ok s) ∧
    ∀ inputs, ∃ e' outs, encodeAll e inputs = .ok (e', outs) ∧
    let calls := accepted (inputs.zip outs)
    ∀ pkts, List.Subperm pkts (numbered 2 3 calls) → Clean 2 3 (pkts.map Prod.fst) →
    (∃ t results, decodeAll s (pkts.map Prod.snd) = .ok (t, results) ∧
      ∀ n q packet, pkts[n]? = some (q, packet) → ∃ payloads,
        results[n]? = some (Except.ok payloads) ∧
        payloads.map some = (recovered 2 3 ((pkts.map Prod.fst).take n) q).map
          (payloadAt 2 3 calls)) ∧
    (NoSpuriousRecovery 2 3 (pkts.map Prod.fst) ↔ LaterBatchesComplete 2 3 (pkts.map Prod.fst)) ∧
    (1 < 2 → NoSpuriousRecovery 2 3 (pkts.map Prod.fst)) :=
  spurious_recovery rfl rfl reedSolomon21_lawful

/-- With one data and one parity shard, all packets delivered in order: the second payload
is delivered, and the parity packet after it brings it back. -/
theorem spurious_recovery_one_one : reedSolomon11.Lawful 1 1 ∧ ∃ e s e' outs t results,
    FecEncoder.new reedSolomon 1 1 = .ok (.ok e) ∧ FecDecoder.new reedSolomon 1 1 = .ok (.ok s) ∧
    encodeAll e [([7], 0), ([8], 0)] = .ok (e', outs) ∧
    let pkts := numbered 1 2 (accepted ([([7], 0), ([8], 0)].zip outs))
    decodeAll s (pkts.map Prod.snd) = .ok (t, results) ∧
    pkts.map Prod.fst = [0, 2, 3] ∧
    (pkts[1]?).bind (fun x => dataPayload x.2) = some [8] ∧ results[2]? = some (.ok [[8]]) := by
  refine ⟨reedSolomon11_lawful, _, _, _, _, _, _, rfl, rfl, rfl, rfl, ?_⟩
  decide

end TokioKcp.Fec
