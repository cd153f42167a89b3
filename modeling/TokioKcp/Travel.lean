import TokioKcp.Listener.Steps
import TokioKcp.Session.ClientInput
import TokioKcp.Output

namespace TokioKcp
set_option autoImplicit true

open Checked Fec

/-- A buffer that KCP writes in a conversation begins with the header of a segment, whose command
is none of the flags of a FEC packet. -/
structure OfConv (conv : UInt32) (buf : Bytes) : Prop where
  conv : convOf buf = conv
  length : kcpOverhead ≤ buf.length
  plain : isFecPacket buf = false

instance (conv : UInt32) (buf : Bytes) : Decidable (OfConv conv buf) :=
  decidable_of_iff (convOf buf = conv ∧ kcpOverhead ≤ buf.length ∧ isFecPacket buf = false)
    ⟨fun ⟨hconv, hlen, hplain⟩ => ⟨hconv, hlen, hplain⟩, fun ⟨hconv, hlen, hplain⟩ =>
      ⟨hconv, hlen, hplain⟩⟩

/-- What the other side may receive of such buffers. -/
inductive Travels (conv : UInt32) : Bytes → Prop where
  | plain (h : OfConv conv buf) : Travels conv buf
  | data (h : OfConv conv buf) (hp : dataPayload packet = some buf) : Travels conv packet
  | parity (hp : isParityPacket packet = true) : Travels conv packet

variable {conv : UInt32} {buf packet front body : Bytes} {config : KcpConfig}
variable {e e' : FecEncoder} {flag now : Nat} {packets : List Bytes} {s t : OutputPipe}
variable {event : OutputEvent}

theorem FecEncoder.seal_packetOf (h : e.seal [] flag = .ok (e', packet)) :
    packet = packetOf 0 e.next flag [] := by
  obtain ⟨next, _, h⟩ := bind_eq_ok.mp h
  obtain ⟨next', _, h⟩ := bind_eq_ok.mp h
  cases h
  rw [packetOf, Nat.mod_zero, List.nil_append, List.append_nil]

theorem FecEncoder.sealParity_parity {parity : List Bytes}
    (h : e.sealParity parity = .ok (e', packets)) :
    ∀ packet ∈ packets, isParityPacket packet = true := by
  induction parity generalizing e packets with
  | nil =>
    cases h
    intro packet hm
    cases hm
  | cons shard rest ih =>
    obtain ⟨⟨e₁, header⟩, hseal, h⟩ := bind_eq_ok.mp h
    obtain ⟨⟨e₂, others⟩, hrest, h⟩ := bind_eq_ok.mp h
    cases h
    intro packet hm
    rcases List.mem_cons.mp hm with rfl | hm
    · rw [FecEncoder.seal_packetOf hseal, packetOf_append]
      exact isParityPacket_parity _ _ _
    · exact ih hrest packet hm

theorem FecEncoder.closeGroup_parity (h : e.closeGroup now = .ok (e', .ok packets)) :
    ∀ packet ∈ packets, isParityPacket packet = true := by
  rw [FecEncoder.closeGroup] at h
  split at h
  · obtain ⟨e₁, _, h⟩ := bind_eq_ok.mp h
    cases h
    intro packet hm
    cases hm
  · dsimp only at h
    split at h
    · cases h
    · obtain ⟨parity, _, h⟩ := bind_eq_ok.mp h
      obtain ⟨⟨e₁, sealed⟩, hseal, h⟩ := bind_eq_ok.mp h
      cases h
      exact FecEncoder.sealParity_parity hseal

/-- Whatever the state of the encoder, what it emits for a payload is the payload's data packet,
and parity packets. -/
theorem FecEncoder.encode_emits {payload : Bytes}
    (h : e.encode payload now = .ok (e', .ok packets)) :
    ∀ packet ∈ packets, dataPayload packet = some payload ∨ isParityPacket packet = true := by
  rw [FecEncoder.encode] at h
  split at h
  · cases h
  · rename_i hlen
    obtain ⟨⟨e₁, header⟩, hseal, h⟩ := bind_eq_ok.mp h
    have hdata : dataPayload (header ++ LittleEndian.encode 2 (cast 16 (payload.length + 2)) ++
        payload) = some payload := by
      rw [FecEncoder.seal_packetOf hseal, cast_of_lt (by omega), List.append_assoc,
        packetOf_append, List.nil_append]
      exact dataPayload_packetOf _ _ _
    obtain ⟨shard, _, h⟩ := bind_eq_ok.mp h
    dsimp only at h
    split at h
    · obtain ⟨⟨e₂, out⟩, hclose, h⟩ := bind_eq_ok.mp h
      cases out with
      | error err => cases h
      | ok parity =>
        cases h
        intro packet hm
        rcases List.mem_cons.mp hm with rfl | hm
        · exact .inl hdata
        · exact .inr (FecEncoder.closeGroup_parity hclose packet hm)
    · cases h
      intro packet hm
      rw [List.mem_singleton.mp hm]
      exact .inl hdata

theorem UdpOutputTask.send_travels {task task' : UdpOutputTask} (hbuf : OfConv conv buf)
    (h : task.send buf now = .ok (task', packets)) : ∀ packet ∈ packets, Travels conv packet := by
  intro packet hm
  rw [UdpOutputTask.send] at h
  split at h
  · obtain ⟨⟨e, out⟩, hencode, h⟩ := bind_eq_ok.mp h
    cases out with
    | error err =>
      cases h
      cases hm
    | ok emitted =>
      cases h
      rcases FecEncoder.encode_emits hencode packet hm with hdata | hparity
      · exact .data hbuf hdata
      · exact .parity hparity
  · cases h
    rw [List.mem_singleton.mp hm]
    exact .plain hbuf

theorem OutputPipe.Acts.waits {P : Bytes → Prop} (h : s.Acts event t packets)
    (hs : ∀ buf ∈ s.output.postTx, P buf) (hw : ∀ buf, event = .write buf → P buf) :
    ∀ buf ∈ t.output.postTx, P buf := by
  intro buf hm
  cases h with
  | queued hopen hroom =>
    rcases List.mem_append.mp hm with hm | hm
    · exact hs buf hm
    · rw [List.mem_singleton.mp hm]
      exact hw _ rfl
  | dropped h => exact hs buf hm
  | sent hopen hq hsend =>
    rw [hq] at hs
    exact hs buf (List.mem_cons_of_mem _ hm)
  | idle h => exact hs buf hm
  | ended => cases hm

theorem OutputPipe.Acts.travels (h : s.Acts event t packets)
    (hs : ∀ buf ∈ s.output.postTx, OfConv conv buf) : ∀ packet ∈ packets, Travels conv packet := by
  cases h with
  | sent hopen hq hsend =>
    have hbuf := hs _ (by
      rw [hq]
      exact List.mem_cons_self)
    exact UdpOutputTask.send_travels hbuf hsend
  | _ =>
    intro packet hm
    cases hm

theorem isDataPacket_of_payload (h : dataPayload packet = some buf) :
    isDataPacket packet = true ∧ dataPayloadMut packet =
      some (packet.take fecHeaderSizePlusSize, buf) := by
  rw [dataPayload] at h
  split at h
  · rename_i hdata
    cases h
    exact ⟨hdata.1, if_pos hdata⟩
  · cases h

theorem OfConv.not_data (h : OfConv conv buf) : isDataPacket buf = false ∧
    isParityPacket buf = false :=
  Bool.or_eq_false_iff.mp h.plain

theorem OfConv.kcpPacket (h : OfConv conv buf) (config : KcpConfig) :
    kcpPacket config buf = .ok ([], buf) := by
  rw [TokioKcp.kcpPacket, h.not_data.1, Bool.and_false, if_neg Bool.false_ne_true]

/-- The listener reads the buffer out of the datagram, if it does error correction or the datagram
is the buffer. -/
theorem Travels.read (h : Travels conv packet)
    (hplain : config.fec.enabled = false → OfConv conv packet) :
    (config.fec.enabled && isParityPacket packet) = true ∨
      ∃ front body, kcpPacket config packet = .ok (front, body) ∧ OfConv conv body ∧
        packet = front ++ body ∧ (config.fec.enabled && isParityPacket packet) = false := by
  cases hfec : config.fec.enabled with
  | false =>
    have hbuf := hplain hfec
    exact .inr ⟨[], packet, hbuf.kcpPacket config, hbuf, rfl, rfl⟩
  | true =>
    cases h with
    | plain hbuf =>
      refine .inr ⟨[], packet, hbuf.kcpPacket config, hbuf, rfl, ?_⟩
      rw [hbuf.not_data.2, Bool.and_false]
    | @data buf _ hbuf hp =>
      obtain ⟨hdata, hmut⟩ := isDataPacket_of_payload hp
      refine .inr ⟨packet.take fecHeaderSizePlusSize, buf, ?_, hbuf, ?_, ?_⟩
      · rw [kcpPacket, hfec, hdata, Bool.true_and, if_pos rfl, hmut]
        rfl
      · rw [dataPayloadMut] at hmut
        split at hmut
        · cases hmut
          exact (List.take_append_drop _ _).symm
        · cases hmut
      · rw [isParityPacket_eq_false hp, Bool.and_false]
    | parity hp =>
      left
      rw [hp]
      rfl

theorem Travels.convOf (h : Travels conv packet)
    (hplain : config.fec.enabled = false → OfConv conv packet)
    (hb : CarriesKcp config packet front body) : convOf body = conv := by
  rcases h.read hplain with hparity | ⟨front', body', hp, hbuf, _, _⟩
  · exact absurd (hb.not_parity.symm.trans hparity) Bool.false_ne_true
  · rw [hb.packet] at hp
    cases hp
    exact hbuf.conv

theorem Travels.namedConv {named : UInt32} (h : Travels conv packet)
    (hn : namedConv packet = some named) : named = conv := by
  rw [TokioKcp.namedConv] at hn
  cases h with
  | plain hbuf =>
    have hnone : dataPayload packet = none := by
      rw [dataPayload, hbuf.not_data.1, if_neg]
      exact fun h => Bool.false_ne_true h.1
    have hlong : ¬(isParityPacket packet = true ∨ packet.length < kcpOverhead) := by
      rw [hbuf.not_data.2]
      exact not_or.mpr ⟨Bool.false_ne_true, Nat.not_lt_of_le hbuf.length⟩
    rw [hnone] at hn
    dsimp only at hn
    rw [if_neg hlong] at hn
    cases hn
    exact hbuf.conv
  | data hbuf hp =>
    rw [hp] at hn
    dsimp only at hn
    rw [if_neg (Nat.not_lt_of_le hbuf.length)] at hn
    cases hn
    exact hbuf.conv
  | parity hp =>
    cases hpayload : dataPayload packet with
    | some payload =>
      rw [isParityPacket_eq_false hpayload] at hp
      cases hp
    | none =>
      rw [hpayload] at hn
      dsimp only at hn
      rw [if_pos (.inl hp)] at hn
      cases hn

end TokioKcp
