import TokioKcp.Listener.Duplicates
import TokioKcp.Socket.Decoding
import TokioKcp.Fec.Disturbance

namespace TokioKcp
set_option autoImplicit true

open Checked Fec ErasureCode Transition

variable {κ : Type} {K : KcpCrate κ} {rs : Nat → Nat → Except String ReedSolomon}
variable {config : KcpConfig} {s t : System κ} {packet packet' payload e x : Bytes}
variable {conv : UInt32} {d p i k n q size : Nat} {c : ReedSolomon} {calls : List Call}
variable {del : List Nat}

/-- The listener hands the packet, as it leaves it, to a session of the given conversation. -/
def Forwards (K : KcpCrate κ) (rs : Nat → Nat → Except String ReedSolomon) (config : KcpConfig)
    (conv : UInt32) (packet packet' : Bytes) : Prop :=
  ∃ (s t : System κ) (peer : SocketAddr) (draws : RandomDraws) (now id : Nat),
    s.handleDatagram K rs config packet peer draws now = .ok (t, some (id, packet')) ∧
    t.InConv K id conv

/-- The packet with the conversation in it, if it is a FEC data packet that asks for one. -/
def rewritten (conv : UInt32) (packet : Bytes) : Bytes :=
  match dataPayloadMut packet with
  | some (front, payload) => if convOf payload = 0 then front ++ withConv conv payload else packet
  | none => packet

/-- The payload is the original, except that a conversation of zero may have been replaced. -/
def EqualUpToConv (conv : UInt32) (original payload : Bytes) : Prop :=
  payload = original ∨ (convOf original = 0 ∧ payload = withConv conv original)

instance (conv : UInt32) (original payload : Bytes) :
    Decidable (EqualUpToConv conv original payload) :=
  inferInstanceAs (Decidable (_ ∨ _))

/-- The packet with the number is a data packet that was emitted without a conversation. -/
def AsksConv (d size : Nat) (calls : List Call) (q : Nat) : Prop :=
  q % size < d ∧ (payloadAt d size calls q).map convOf = some 0

instance (d size : Nat) (calls : List Call) (q : Nat) : Decidable (AsksConv d size calls q) :=
  inferInstanceAs (Decidable (_ ∧ _))

/-- What the listener adds to the first bytes of a payload. -/
def convBytes (d size : Nat) (calls : List Call) (conv : UInt32) (q : Nat) : Bytes :=
  if AsksConv d size calls q then LittleEndian.encode 4 conv.toNat else List.replicate 4 0

/-- When the delivery of `q` fills a batch, the conversations that the listener has written into
packets of the batch leave alone each data packet that the batch lacks, or give that packet the
conversation that it asks for. They reach it as the code spreads them: through the word that has
them in the slots of those packets, and zeros in the other slots of the batch. -/
def ConvHarmless (c : ReedSolomon) (d p : Nat) (calls : List Call) (conv : UInt32)
    (del : List Nat) (q : Nat) : Prop :=
  d ≤ (batch d (d + p) del q).length → ∀ v,
    BatchWord c d p 4 (convBytes d (d + p) calls conv) del q v → ∀ i ∈ lacking d (d + p) del q,
      v[i]? = some (List.replicate 4 0) ∨
      (AsksConv d (d + p) calls (q / (d + p) * (d + p) + i) ∧
        v[i]? = some (LittleEndian.encode 4 conv.toNat))

theorem System.InConv.unique {id : Nat} {conv' : UInt32} (h : s.InConv K id conv)
    (h' : s.InConv K id conv') : conv' = conv := by
  obtain ⟨session, hs, hc, _⟩ := h
  obtain ⟨session', hs', hc', _⟩ := h'
  rw [hs] at hs'
  cases hs'
  exact hc'.symm.trans hc

theorem rewritten_of_parity (conv : UInt32) (h : isParityPacket packet = true) :
    rewritten conv packet = packet := by
  have hdata : isDataPacket packet = false := by
    rw [isParityPacket, beq_iff_eq] at h
    rw [isDataPacket, h]
    rfl
  rw [rewritten, dataPayloadMut, if_neg (fun hd => Bool.false_ne_true (hdata.symm.trans hd.1))]

theorem CarriesKcp.rewritten (h : CarriesKcp config packet front body)
    (hfec : config.fec.enabled = true) (hp : isFecPacket packet = true) (draws : RandomDraws) :
    front ++ withConvFor draws body = rewritten (convFor draws body) packet := by
  have hdata : isDataPacket packet = true := by
    have hpar := h.not_parity
    rw [hfec, Bool.true_and] at hpar
    exact (Bool.or_eq_true_iff.mp hp).resolve_right fun h => Bool.false_ne_true (hpar.symm.trans h)
  have hpacket := h.packet
  rw [kcpPacket, hfec, hdata, Bool.true_and, if_pos rfl] at hpacket
  have hsome : dataPayloadMut packet = some (front, body) := by
    cases hm : dataPayloadMut packet with
    | none =>
      rw [hm] at hpacket
      cases hpacket
    | some pair =>
      rw [hm] at hpacket
      cases hpacket
      rfl
  rw [TokioKcp.rewritten, hsome, withConvFor, convFor]
  dsimp only
  split
  · rfl
  · rw [dataPayloadMut] at hsome
    split at hsome
    · cases hsome
      exact List.take_append_drop _ _
    · cases hsome

theorem Forwards.eq (h : Forwards K rs config conv packet packet') (hW : K.wire.Laws)
    (hK : K.ConvLaws) (hfec : config.fec.enabled = true) (hp : isFecPacket packet = true) :
    packet' = rewritten conv packet := by
  obtain ⟨s, t, peer, draws, now, id, hhandle, hconv⟩ := h
  generalize ho : some (id, packet') = outcome at hhandle
  cases System.handled hW hhandle with
  | parity hpar =>
    obtain ⟨entry, _, he⟩ := Option.map_eq_some_iff.mp ho.symm
    cases he
    rw [rewritten_of_parity conv (Bool.and_eq_true_iff.mp hpar).2]
  | tooShort => cases ho
  | failed => cases ho
  | refused => cases ho
  | mismatch => cases ho
  | opened hb hopens hnew hroom =>
    cases ho
    have hopened := (s.opening_opened K config _ peer now).inConv hK (convFor_ne_zero draws _) hnew
    have hsame : convFor draws _ = conv := System.InConv.unique hconv hopened
    rw [← hsame]
    exact hb.rewritten hfec hp draws
  | kept hb hg hc =>
    cases ho
    obtain ⟨session, hs, hcs, _⟩ := hconv
    rw [(System.get_eq_some hg).2] at hs
    cases hs
    rw [← hcs, hc]
    exact hb.rewritten hfec hp draws

theorem zipWith_xor_eq_self (hl : e.length = x.length) (h : List.zipWith (· ^^^ ·) x e = x) :
    e = List.replicate x.length 0 := by
  induction x generalizing e with
  | nil => exact List.eq_nil_of_length_eq_zero hl
  | cons b x ih =>
    cases e with
    | nil => cases hl
    | cons b' e =>
      rw [List.zipWith_cons_cons] at h
      obtain ⟨hb, hrest⟩ := List.cons.inj h
      have hzero : b' = 0 := by
        rw [← UInt8.zero_xor (a := b'), ← UInt8.xor_self (a := b), UInt8.xor_assoc, hb]
      rw [List.length_cons, List.replicate_succ, hzero, ih (Nat.succ.inj hl) hrest]

theorem zipWith_zeros_xor (hl : e.length = n) :
    List.zipWith (· ^^^ ·) (List.replicate n 0) e = e := by
  induction e generalizing n with
  | nil => exact List.zipWith_nil_right
  | cons b e ih =>
    cases n with
    | zero => cases hl
    | succ n =>
      rw [List.replicate_succ, List.zipWith_cons_cons, ih (Nat.succ.inj hl), UInt8.zero_xor]

theorem take_of_convOf_eq_zero (hx : 4 ≤ x.length) (h : convOf x = 0) :
    x.take 4 = List.replicate 4 0 := by
  have hlen : (x.take 4).length = 4 := List.length_take_of_le hx
  have hlt := LittleEndian.decode_lt (x.take 4)
  rw [hlen] at hlt
  have hzero : LittleEndian.decode (x.take 4) = 0 := by
    have ht := congrArg UInt32.toNat h
    rw [convOf, UInt32.toNat_ofNat', Nat.mod_eq_of_lt (show _ < 2 ^ 32 from hlt)] at ht
    exact ht
  have hback := LittleEndian.encode_decode (x.take 4)
  rw [hlen, hzero] at hback
  exact hback.symm

theorem disturbed_of_convOf_eq_zero (hx : 4 ≤ x.length) (he : e.length = 4) (h : convOf x = 0) :
    disturbed e x = e ++ x.drop 4 := by
  rw [disturbed, he, take_of_convOf_eq_zero hx h, zipWith_zeros_xor he]

theorem disturbed_encode (hx : 4 ≤ x.length) (h : convOf x = 0) (conv : UInt32) :
    disturbed (LittleEndian.encode 4 conv.toNat) x = withConv conv x :=
  disturbed_of_convOf_eq_zero hx (LittleEndian.length_encode 4 _) h

/-- A disturbed payload is the original, or the original in its conversation, exactly if nothing
was added to it, or that conversation to zero. -/
theorem equalUpToConv_disturbed (hx : 4 ≤ x.length) (he : e.length = 4) :
    EqualUpToConv conv x (disturbed e x) ↔ e = List.replicate 4 0 ∨
      (convOf x = 0 ∧ e = LittleEndian.encode 4 conv.toNat) := by
  have htake : (x.take e.length).length = 4 := by
    rw [he]
    exact List.length_take_of_le hx
  apply or_congr
  · constructor
    · intro h
      have hsplit : x.take e.length ++ x.drop e.length = x := List.take_append_drop _ _
      rw [disturbed] at h
      conv at h => rhs; rw [← hsplit]
      have hfront := (List.append_inj' h rfl).1
      rw [← htake]
      exact zipWith_xor_eq_self (he.trans htake.symm) hfront
    · rintro rfl
      exact disturbed_zeros hx
  · apply and_congr_right
    intro hz
    rw [disturbed_of_convOf_eq_zero hx he hz, withConv]
    exact List.append_left_inj _

theorem dataPayloadMut_packetOf (paws q : Nat) (payload : Bytes) :
    dataPayloadMut (packetOf paws q typeData (dataBody payload)) =
      some (packetOf paws q typeData (LittleEndian.encode 2 (payload.length + 2)), payload) := by
  have hlen : (packetOf paws q typeData (LittleEndian.encode 2 (payload.length + 2))).length =
      fecHeaderSizePlusSize := by
    rw [length_packetOf, LittleEndian.length_encode]
    rfl
  rw [dataPayloadMut, if_pos ⟨isDataPacket_data paws q _, by
    rw [length_packetOf, length_dataBody, fecHeaderSizePlusSize]
    omega⟩, dataBody, ← packetOf_append, List.take_left' hlen, List.drop_left' hlen]

theorem rewritten_packetOf (paws q : Nat) (h : kcpOverhead ≤ payload.length) (conv : UInt32) :
    rewritten conv (packetOf paws q typeData (dataBody payload)) = packetOf paws q typeData
      (dataBody (if convOf payload = 0 then withConv conv payload else payload)) := by
  rw [rewritten, dataPayloadMut_packetOf]
  dsimp only
  split
  · rw [dataBody, length_withConv conv h, packetOf_append]
  · rfl

theorem convBytes_of_payload (hq : q % size < d) (hp : payloadAt d size calls q = some payload)
    (hlen : 4 ≤ payload.length) (conv : UInt32) :
    disturbed (convBytes d size calls conv q) payload =
      if convOf payload = 0 then withConv conv payload else payload := by
  have hasks : AsksConv d size calls q ↔ convOf payload = 0 := by
    rw [AsksConv, hp, Option.map_some, Option.some_inj]
    exact and_iff_right hq
  rw [convBytes]
  by_cases hz : convOf payload = 0
  · rw [if_pos (hasks.mpr hz), if_pos hz, disturbed_encode hlen hz]
  · rw [if_neg (fun ha => hz (hasks.mp ha)), if_neg hz, disturbed_zeros hlen]

theorem length_convBytes (d size : Nat) (calls : List Call) (conv : UInt32) (q : Nat) :
    (convBytes d size calls conv q).length = 4 := by
  rw [convBytes]
  split
  · exact LittleEndian.length_encode 4 _
  · exact List.length_replicate

theorem Fec.Numbered.rewritten_carries {enc : FecEncoder} (h : Numbered c d p enc calls)
    (hc : c.Systematic d p) (hlong : ∀ call ∈ calls, kcpOverhead ≤ call.payload.length)
    (hm : (q, packet) ∈ numbered d (d + p) calls) (conv : UInt32) :
    Carries d p (DisturbedBody c d p 4 calls (convBytes d (d + p) calls conv)) q
      (rewritten conv packet) := by
  have hv := h.built.valid
  rcases h.packet_cases hc hm with ⟨hlt, call, hcall, rfl⟩ | ⟨hle, body, hb, rfl⟩
  · have hlen := hlong call (List.mem_of_getElem? hcall)
    have hpay : payloadAt d (d + p) calls q = some call.payload := by
      rw [payloadAt, hcall, Option.map_some]
    have hbytes := convBytes_of_payload hlt hpay (Nat.le_trans (by decide) hlen) conv
    rw [rewritten_packetOf _ _ hlen, ← hbytes]
    refine ⟨?_, seqid_packetOf hv _ _ _, .inl ⟨hlt, call.payload, ?_, ?_⟩⟩
    · rw [length_packetOf]
      exact Nat.le_add_right _ _
    · rw [groupPayloads_getElem? hlt]
      exact hpay
    · rw [drop_packetOf]
  · have hpar := isParityPacket_parity (pawsOf (d + p)) q body
    have hcarries := h.carries hc hm
    rw [rewritten_of_parity conv hpar]
    refine ⟨hcarries.header, hcarries.seq, .inr ⟨hle, ?_, hcarries.body⟩⟩
    rw [convBytes, if_neg (fun ha => Nat.not_lt_of_le hle ha.1)]

theorem forall₂_filterMap {R : β → γ → Prop} {f : α → Option β} {g : α → Option γ} {as : List α}
    (h : ∀ a ∈ as, ∃ b c, f a = some b ∧ g a = some c) :
    List.Forall₂ R (as.filterMap f) (as.filterMap g) ↔
      ∀ a ∈ as, ∀ b c, f a = some b → g a = some c → R b c := by
  induction as with
  | nil => exact iff_of_true .nil (fun a ha => absurd ha List.not_mem_nil)
  | cons a as ih =>
    obtain ⟨b, c, hf, hg⟩ := h a List.mem_cons_self
    rw [List.filterMap_cons_some hf, List.filterMap_cons_some hg, List.forall₂_cons,
      ih (fun a' ha' => h a' (List.mem_cons_of_mem _ ha')), List.forall_mem_cons]
    apply and_congr_left'
    constructor
    · intro hR b' c' hf' hg'
      rw [hf] at hf'
      rw [hg] at hg'
      cases hf'
      cases hg'
      exact hR
    · intro hR
      exact hR b c hf hg

theorem asksConv_iff (hi : i < d) (hx : (groupPayloads d calls g)[i]? = some x) :
    AsksConv d (d + p) calls (g * (d + p) + i) ↔ convOf x = 0 := by
  rw [groupPayloads_getElem? hi] at hx
  rw [AsksConv, payloadAt, Blocks.div_of_lt (Nat.lt_add_right p hi),
    Blocks.mod_of_lt (Nat.lt_add_right p hi), hx, Option.map_some, Option.some_inj]
  exact and_iff_right hi

/-- What a full batch brings back is the originals up to the conversation exactly if the
conversations in it do no harm. -/
theorem recovery_equalUpToConv_iff {v : List Bytes} (conv : UInt32)
    (hc : c.Linear d p (· ^^^ ·) 0) (hd : 0 < d)
    (hlong : ∀ call ∈ calls, kcpOverhead ≤ call.payload.length) (hn : del.Nodup) (hf : q ∉ del)
    (hgroup : d ≤ (batch d (d + p) del q).length →
      (groupPayloads d calls (q / (d + p))).length = d)
    (hv : d ≤ (batch d (d + p) del q).length →
      BatchWord c d p 4 (convBytes d (d + p) calls conv) del q v) :
    List.Forall₂ (EqualUpToConv conv) (recovery d (d + p) (groupPayloads d calls) del q)
      (recovery d (d + p) (fun g => disturbedGroup v (groupPayloads d calls g)) del q) ↔
    ConvHarmless c d p calls conv del q := by
  rw [recovery, recovery]
  by_cases hfull : d ≤ (batch d (d + p) del q).length
  · have hv := hv hfull
    have hl := hgroup hfull
    have hslot (i : Nat) (hi : i ∈ lacking d (d + p) del q) : ∃ x e,
        (groupPayloads d calls (q / (d + p)))[i]? = some x ∧ v[i]? = some e ∧ 4 ≤ x.length ∧
        e.length = 4 := by
      have hid := (mem_lacking.mp hi).1
      have hx := List.getElem?_eq_getElem (show i < (groupPayloads d calls (q / (d + p))).length by
        rw [hl]
        exact hid)
      have he := List.getElem?_eq_getElem (show i < v.length by
        rw [hv.word.length]
        exact Nat.lt_add_right p hid)
      obtain ⟨call, hm, hcall⟩ := mem_groupPayloads (List.mem_of_getElem? hx)
      have hlen := hlong call hm
      rw [hcall] at hlen
      exact ⟨_, _, hx, he, Nat.le_trans (by decide) hlen, getElem?_of_uniform hv.word.uniform he⟩
    rw [if_pos hfull, if_pos hfull, forall₂_filterMap (fun i hi => by
      obtain ⟨x, e, hx, he, _⟩ := hslot i hi
      exact ⟨x, _, hx, getElem?_disturbedGroup he hx⟩)]
    have hone (i : Nat) (hi : i ∈ lacking d (d + p) del q) :
        (∀ x y, (groupPayloads d calls (q / (d + p)))[i]? = some x →
          (disturbedGroup v (groupPayloads d calls (q / (d + p))))[i]? = some y →
          EqualUpToConv conv x y) ↔
        (v[i]? = some (List.replicate 4 0) ∨
          (AsksConv d (d + p) calls (q / (d + p) * (d + p) + i) ∧
            v[i]? = some (LittleEndian.encode 4 conv.toNat))) := by
      obtain ⟨x, e, hx, he, hxl, hel⟩ := hslot i hi
      rw [asksConv_iff (mem_lacking.mp hi).1 hx, hx, getElem?_disturbedGroup he hx, he,
        Option.some_inj, Option.some_inj, ← equalUpToConv_disturbed hxl hel]
      constructor
      · intro h
        exact h x _ rfl rfl
      · rintro h _ _ ⟨⟩ ⟨⟩
        exact h
    constructor
    · intro h _ v' hv' i hi
      rw [← hv.unique hv' hc hd hn hf hfull (mem_lacking.mp hi).1]
      exact (hone i hi).mp (h i hi)
    · intro h i hi
      exact (hone i hi).mpr (h hfull v hv i hi)
  · rw [if_neg hfull, if_neg hfull]
    exact iff_of_true .nil (fun h => absurd h hfull)

theorem convHarmless_of_none (hc : c.Linear d p (· ^^^ ·) 0) (hd : 0 < d) (hn : del.Nodup)
    (hf : q ∉ del) (hnone : ∀ q' ∈ batch d (d + p) del q, ¬AsksConv d (d + p) calls q')
    (conv : UInt32) : ConvHarmless c d p calls conv del q := by
  intro hfull v hv i hi
  have hzero : BatchWord c d p 4 (convBytes d (d + p) calls conv) del q
      (List.replicate (d + p) (List.replicate 4 0)) := by
    refine ⟨hc.zero 4 (by decide), fun q' hq' => ?_⟩
    rw [convBytes, if_neg (hnone q' hq'), List.getElem?_replicate,
      if_pos (Nat.mod_lt q' (Nat.add_pos_left hd p))]
  have hid := (mem_lacking.mp hi).1
  left
  rw [hv.unique hzero hc hd hn hf hfull hid, List.getElem?_replicate,
    if_pos (Nat.lt_add_right p hid)]

/-- The packets of one group never come together with those of another. -/
theorem clean_of_group (h : ∀ q ∈ del, q / size = g) (d : Nat) : Clean d size del := by
  intro pre q hp q' hheld _ _
  rw [h q (hp.subset (List.mem_append_right _ List.mem_cons_self)),
    h q' (hp.subset (List.mem_append_left _ (mem_of_mem_held hheld).1))]

theorem mem_accepted {hist : List ((Bytes × Nat) × IoResult EncodedPackets)} {call : Call}
    (h : call ∈ accepted hist) : ∃ x ∈ hist, call.payload = x.1.1 := by
  obtain ⟨x, hx, he⟩ := List.mem_filterMap.mp h
  split at he
  · cases he
    exact ⟨x, hx, rfl⟩
  · cases he

theorem map_eq_of_forall₂ {R : α → β → Prop} {f : α → γ} {g : β → γ} {as : List α} {bs : List β}
    (h : List.Forall₂ R as bs) (hR : ∀ a ∈ as, ∀ b, R a b → g b = f a) : bs.map g = as.map f := by
  induction h with
  | nil => rfl
  | @cons a b as bs hab _ ih =>
    rw [List.map_cons, List.map_cons, hR a List.mem_cons_self b hab,
      ih (fun a' ha' => hR a' (List.mem_cons_of_mem _ ha'))]

/-- The packets of a client reach one session in any order, each at most once, and those of
different groups do not come together: at every packet that its decoder is handed, what the
decoder reconstructs are the payloads that the client encoded, up to their conversations, exactly
if the conversations that the listener has written into the packets do no harm. A batch in which
no packet asks for a conversation comes to no harm. -/
theorem conv_rewrite_iff (hW : K.wire.Laws) (hK : K.ConvLaws)
    (hconfig : config.validate = .ok (.ok ())) (hfec : config.fec.enabled = true)
    (hdp : config.fec = ⟨d, p⟩) (hrs : rs d p = .ok c) (hc : c.Linear d p (· ^^^ ·) 0) :
    ∃ e, FecEncoder.new rs d p = .ok (.ok e) ∧
    ∀ inputs : List (Bytes × Nat), (∀ x ∈ inputs, kcpOverhead ≤ x.1.length) →
    ∃ e' outs, encodeAll e inputs = .ok (e', outs) ∧
    let calls := accepted (inputs.zip outs)
    ∀ (conv : UInt32) (now : Nat) (s t : KcpSocket κ)
      (trace : List (KcpSocket κ × (SocketCall × Nat))) (pkts : List (Nat × Bytes)),
    KcpSocket.new K rs config conv config.stream now = .ok (.ok s) →
    Run (KcpSocket.Step K) s trace t →
    List.Subperm pkts (numbered d (d + p) calls) → Clean d (d + p) (pkts.map Prod.fst) →
    List.Forall₂ (fun x y => Forwards K rs config conv x.2 y.1) pkts (decodings K trace) →
    ((∀ n x y, pkts[n]? = some x → (decodings K trace)[n]? = some y →
      List.Forall₂ (EqualUpToConv conv)
        (recovery d (d + p) (groupPayloads d calls) ((pkts.map Prod.fst).take n) x.1) y.2) ↔
    ∀ n x, pkts[n]? = some x →
      ConvHarmless c d p calls conv ((pkts.map Prod.fst).take n) x.1) ∧
    ∀ n x, pkts[n]? = some x →
      (∀ q ∈ batch d (d + p) ((pkts.map Prod.fst).take n) x.1, ¬AsksConv d (d + p) calls q) →
      ConvHarmless c d p calls conv ((pkts.map Prod.fst).take n) x.1 := by
  have hshards : ValidShards d p := by
    have h := (KcpConfig.valid_of_validate hconfig).shards hfec
    rw [hdp] at h
    exact h
  have hv := validateShards_ok_iff.mpr hshards
  obtain ⟨e, he, hnew⟩ := FecEncoder.new_numbered hv hrs
  refine ⟨e, he, fun inputs hlong => ?_⟩
  obtain ⟨e', outs, hrun, hnum⟩ := encodeAll_numbered hnew hc.lawful.systematic inputs
  refine ⟨e', outs, hrun, ?_⟩
  intro calls conv now s t trace pkts hsocket hsteps hdel hclean hforward
  have hcalls : ∀ call ∈ calls, kcpOverhead ≤ call.payload.length := by
    intro call hm
    obtain ⟨x, hx, hpay⟩ := mem_accepted hm
    rw [hpay]
    exact hlong x.1 (List.of_mem_zip hx).1
  obtain ⟨decoder, hdecoder, htracks⟩ := FecDecoder.new_tracks hv hrs
  have hs : s.fecDecoder = some decoder := by
    have hfresh := (KcpSocket.new_fresh hsocket).fecDecoder
    rw [FecDecoder.newIfEnabled, if_pos hfec, hdp, hdecoder] at hfresh
    exact (Except.ok.inj (Except.ok.inj hfresh)).symm
  obtain ⟨decoder', results, hall, _, hresults⟩ := KcpSocket.run_decodes hs hsteps
  have harrived : (decodings K trace).map Prod.fst = pkts.map fun x => rewritten conv x.2 :=
    map_eq_of_forall₂ hforward fun x hx y hxy =>
      hxy.eq hW hK hfec (hnum.isFecPacket hc.lawful.systematic (hdel.subset hx))
  have hnodup := hnum.delivery_nodup hc.lawful.systematic hdel
  obtain ⟨v, hbatch, _, results', hall', hres⟩ := hnum.deliver_disturbed hc
    (fun call hm => Nat.lt_of_lt_of_le (show 4 < kcpOverhead by decide) (hcalls call hm))
    (by decide) (length_convBytes d (d + p) calls conv) (htracks _) hdel
    (fun x hx => hnum.rewritten_carries hc.lawful.systematic hcalls (hdel.subset hx) conv) hclean
  rw [harrived, hall'] at hall
  cases hall
  have hiff (n : Nat) (x : Nat × Bytes) (hx : pkts[n]? = some x) :=
    recovery_equalUpToConv_iff conv hc hshards.data_pos hcalls
      (hnodup.sublist (List.take_sublist n _)) (not_mem_take hnodup hx)
      (fun hfull => hnum.group_of_count hc.lawful.systematic hdel hx (batch_full hfull).1)
      (hbatch n x hx)
  have hanswer (n : Nat) (x : Nat × Bytes) (y : Bytes × List Bytes) (hx : pkts[n]? = some x)
      (hy : (decodings K trace)[n]? = some y) : y.2 = recovery d (d + p)
        (fun g => disturbedGroup (v n) (groupPayloads d calls g))
        ((pkts.map Prod.fst).take n) x.1 := by
    have hn := congrArg (fun l => l[n]?) hresults
    rw [List.getElem?_map, List.getElem?_map, hy, hres n x hx] at hn
    exact Option.some.inj hn
  refine ⟨⟨?_, ?_⟩, ?_⟩
  · intro h n x hx
    have hlt := (List.getElem?_eq_some_iff.mp hx).1
    rw [hforward.length_eq] at hlt
    have hy := List.getElem?_eq_getElem hlt
    rw [← hiff n x hx, ← hanswer n x _ hx hy]
    exact h n x _ hx hy
  · intro h n x y hx hy
    rw [hanswer n x y hx hy]
    exact (hiff n x hx).mpr (h n x hx)
  · intro n x hx hnone
    exact convHarmless_of_none hc hshards.data_pos (hnodup.sublist (List.take_sublist n _))
      (not_mem_take hnodup hx) hnone conv

def askingPayloads : List Bytes := [segment 0 81 0 [65], segment 9 81 1 [66]]

def askingData : Bytes := packetOf (pawsOf 3) 0 typeData (dataBody (segment 0 81 0 [65]))

def askingParity : Bytes :=
  packetOf (pawsOf 3) 2 typeParity
    (parityOf (dataBody (segment 0 81 0 [65])) (dataBody (segment 9 81 1 [66])))

/-- The group of the two payloads, without its second data packet. -/
def askingGroup : List (Nat × Bytes) := [(0, askingData), (2, askingParity)]

theorem askingGroup_emitted : ∃ e e' outs, FecEncoder.new reedSolomon 2 1 = .ok (.ok e) ∧
    encodeAll e (askingPayloads.map (·, 0)) = .ok (e', outs) ∧
    let calls := accepted ((askingPayloads.map (·, 0)).zip outs)
    List.Sublist askingGroup (numbered 2 3 calls) ∧ calls.map Call.payload = askingPayloads := by
  refine ⟨_, _, _, rfl, rfl, ?_, rfl⟩
  decide

theorem askingGroup_forwarded :
    Forwards smallKcp reedSolomon (KcpConfig.withFec {} 2 1) 9 askingData
      (rewritten 9 askingData) ∧
    Forwards smallKcp reedSolomon (KcpConfig.withFec {} 2 1) 9 askingParity askingParity := by
  have hsteps : ∃ s t : System SmallKcp,
      System.new.handleDatagram smallKcp reedSolomon (KcpConfig.withFec {} 2 1) askingData
        ⟨[10, 0, 0, 1], 4000⟩ ⟨[9], rfl⟩ 0 = .ok (s, some (0, rewritten 9 askingData)) ∧
      s.InConv smallKcp 0 9 ∧
      s.handleDatagram smallKcp reedSolomon (KcpConfig.withFec {} 2 1) askingParity
        ⟨[10, 0, 0, 1], 4000⟩ ⟨[9], rfl⟩ 0 = .ok (t, some (0, askingParity)) ∧
      t.InConv smallKcp 0 9 :=
    ⟨_, _, rfl, ⟨_, rfl, rfl, rfl⟩, rfl, ⟨_, rfl, rfl, rfl⟩⟩
  obtain ⟨s, t, hdata, hs, hparity, ht⟩ := hsteps
  exact ⟨⟨_, s, _, _, _, 0, hdata, hs⟩, ⟨s, t, _, _, _, 0, hparity, ht⟩⟩

theorem askingGroup_decoded : ∃ s trace t,
    KcpSocket.new smallKcp reedSolomon (KcpConfig.withFec {} 2 1) 9 false 0 = .ok (.ok s) ∧
    Run (KcpSocket.Step smallKcp) s trace t ∧ decodings smallKcp trace =
      [(rewritten 9 askingData, []), (askingParity, [withConv 138 (segment 9 81 1 [66])])] := by
  have hsteps : ∃ s s₁ s₂,
      KcpSocket.new smallKcp reedSolomon (KcpConfig.withFec {} 2 1) 9 false 0 = .ok (.ok s) ∧
      s.Step smallKcp (.input (rewritten 9 askingData), 0) s₁ ∧
      s₁.Step smallKcp (.input askingParity, 0) s₂ ∧
      decodings smallKcp [(s, (.input (rewritten 9 askingData), 0)),
        (s₁, (.input askingParity, 0))] =
        [(rewritten 9 askingData, []), (askingParity, [withConv 138 (segment 9 81 1 [66])])] := by
    refine ⟨_, _, _, rfl, rfl, rfl, ?_⟩
    decide
  obtain ⟨s, s₁, s₂, hnew, hdata, hparity, hdecodings⟩ := hsteps
  exact ⟨s, _, s₂, hnew, .cons hdata (.cons hparity .nil), hdecodings⟩

theorem conv_rewrite_iff_two_one : ∃ e e' outs trace,
    FecEncoder.new reedSolomon 2 1 = .ok (.ok e) ∧
    encodeAll e (askingPayloads.map (·, 0)) = .ok (e', outs) ∧ decodings smallKcp trace =
      [(rewritten 9 askingData, []), (askingParity, [withConv 138 (segment 9 81 1 [66])])] ∧
    let calls := accepted ((askingPayloads.map (·, 0)).zip outs)
    ((∀ n x y, askingGroup[n]? = some x → (decodings smallKcp trace)[n]? = some y →
      List.Forall₂ (EqualUpToConv 9)
        (recovery 2 3 (groupPayloads 2 calls) ((askingGroup.map Prod.fst).take n) x.1) y.2) ↔
    ∀ n x, askingGroup[n]? = some x →
      ConvHarmless reedSolomon21 2 1 calls 9 ((askingGroup.map Prod.fst).take n) x.1) ∧
    ∀ n x, askingGroup[n]? = some x →
      (∀ q ∈ batch 2 3 ((askingGroup.map Prod.fst).take n) x.1, ¬AsksConv 2 3 calls q) →
      ConvHarmless reedSolomon21 2 1 calls 9 ((askingGroup.map Prod.fst).take n) x.1 := by
  have hconfig : (KcpConfig.withFec {} 2 1).validate = .ok (.ok ()) := rfl
  have hrs : reedSolomon 2 1 = .ok reedSolomon21 := rfl
  obtain ⟨e, he, h⟩ := conv_rewrite_iff smallWire_laws smallKcp_convLaws hconfig rfl rfl hrs
    reedSolomon21_linear
  obtain ⟨e', outs, hrun, h⟩ := h (askingPayloads.map (·, 0)) (by decide)
  obtain ⟨_, _, _, hnew, hrun', hsub, _⟩ := askingGroup_emitted
  rw [he] at hnew
  cases hnew
  rw [hrun] at hrun'
  cases hrun'
  obtain ⟨s, trace, t, hs, hsteps, hdecodings⟩ := askingGroup_decoded
  obtain ⟨hdata, hparity⟩ := askingGroup_forwarded
  refine ⟨e, e', outs, trace, he, hrun, hdecodings, ?_⟩
  apply h 9 0 s t trace askingGroup hs hsteps hsub.subperm (clean_of_group (g := 0) (by decide) 2)
  rw [hdecodings]
  exact .cons hdata (.cons hparity .nil)

/-- A client asks for a conversation, and is given 9. Of its first group the second data packet is
lost. From the rewritten packet and the parity of the original ones, the decoder reconstructs it
in conversation 138. -/
theorem conv_rewrite_disturbs_two_one : smallKcp.wire.Laws ∧ smallKcp.ConvLaws ∧
    (KcpConfig.withFec {} 2 1).validate = .ok (.ok ()) ∧
    reedSolomon21.Linear 2 1 (· ^^^ ·) 0 ∧ ∃ e e' outs s trace t,
    FecEncoder.new reedSolomon 2 1 = .ok (.ok e) ∧
    encodeAll e (askingPayloads.map (·, 0)) = .ok (e', outs) ∧
    KcpSocket.new smallKcp reedSolomon (KcpConfig.withFec {} 2 1) 9 false 0 = .ok (.ok s) ∧
    Run (KcpSocket.Step smallKcp) s trace t ∧
    let calls := accepted ((askingPayloads.map (·, 0)).zip outs)
    List.Sublist askingGroup (numbered 2 3 calls) ∧
    List.Forall₂ (fun x y => Forwards smallKcp reedSolomon (KcpConfig.withFec {} 2 1) 9 x.2 y.1)
      askingGroup (decodings smallKcp trace) ∧
    ¬∀ n x y, askingGroup[n]? = some x → (decodings smallKcp trace)[n]? = some y →
      List.Forall₂ (EqualUpToConv 9)
        (recovery 2 3 (groupPayloads 2 calls) ((askingGroup.map Prod.fst).take n) x.1) y.2 := by
  obtain ⟨e, e', outs, he, hrun, hsub, hpayloads⟩ := askingGroup_emitted
  obtain ⟨s, trace, t, hs, hsteps, hdecodings⟩ := askingGroup_decoded
  obtain ⟨hdata, hparity⟩ := askingGroup_forwarded
  refine ⟨smallWire_laws, smallKcp_convLaws, rfl, reedSolomon21_linear, e, e', outs, s, trace, t,
    he, hrun, hs, hsteps, hsub, ?_, ?_⟩
  · rw [hdecodings]
    exact .cons hdata (.cons hparity .nil)
  · intro h
    have hbad := h 1 _ _ rfl (by rw [hdecodings]; rfl)
    have hrecovery : recovery 2 3 (groupPayloads 2 (accepted
        ((askingPayloads.map (·, 0)).zip outs))) [0] 2 = [segment 9 81 1 [66]] := by
      rw [recovery]
      simp only [groupPayloads, hpayloads]
      decide
    have hone : List.Forall₂ (EqualUpToConv 9) [segment 9 81 1 [66]]
        [withConv 138 (segment 9 81 1 [66])] := by
      rw [← hrecovery]
      exact hbad
    exact absurd (List.forall₂_cons.mp hone).1 (by decide)

end TokioKcp
