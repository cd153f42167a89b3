import TokioKcp.Listener
import TokioKcp.SmallKcp
import TokioKcp.Fec.SmallCodecs

namespace TokioKcp
set_option autoImplicit true

open Checked Fec ErasureCode

variable {κ : Type} {K : KcpCrate κ} {rs : Nat → Nat → Except String ReedSolomon}
variable {config : KcpConfig} {s t : System κ} {packet front body : Bytes} {peer : SocketAddr}
variable {draws : RandomDraws} {conv sn : UInt32} {now id : Nat}

/-- The conversation that a KCP packet is taken to be of. -/
def convFor (draws : RandomDraws) (body : Bytes) : UInt32 :=
  if convOf body = 0 then draws.allocConv else convOf body

def withConvFor (draws : RandomDraws) (body : Bytes) : Bytes :=
  if convOf body = 0 then withConv draws.allocConv body else body

theorem RandomDraws.allocConv_ne_zero (draws : RandomDraws) : draws.allocConv ≠ 0 := by
  have h := List.find?_some (Option.some_get draws.some_ne_zero).symm
  exact of_decide_eq_true h

theorem convFor_ne_zero (draws : RandomDraws) (body : Bytes) : convFor draws body ≠ 0 := by
  rw [convFor]
  split
  · exact draws.allocConv_ne_zero
  · assumption

/-- A datagram that is flagged as FEC data has no KCP packet in it if it ends in the FEC header. -/
def NoPayload (config : KcpConfig) (packet : Bytes) : Prop :=
  config.fec.enabled = true ∧ isDataPacket packet = true ∧
    packet.length < fecHeaderSizePlusSize

theorem kcpPacket_returns_iff (config : KcpConfig) (packet : Bytes) :
    (∃ r, kcpPacket config packet = .ok r) ↔ ¬NoPayload config packet := by
  rw [kcpPacket, NoPayload]
  split
  · rename_i h
    obtain ⟨hfec, hdata⟩ := Bool.and_eq_true_iff.mp h
    rw [dataPayloadMut]
    by_cases hlen : fecHeaderSizePlusSize ≤ packet.length
    · rw [if_pos ⟨hdata, hlen⟩]
      exact ⟨fun _ hn => absurd hlen (Nat.not_le_of_lt hn.2.2), fun _ => ⟨_, rfl⟩⟩
    · rw [if_neg (fun h => hlen h.2)]
      constructor
      · rintro ⟨r, hr⟩
        cases hr
      · intro hn
        exact absurd ⟨hfec, hdata, Nat.lt_of_not_le hlen⟩ hn
  · rename_i h
    refine ⟨fun _ hn => h (Bool.and_eq_true_iff.mpr ⟨hn.1, hn.2.1⟩), fun _ => ⟨_, rfl⟩⟩

theorem readHeader_eq (hW : K.wire.Laws) (hp : kcpPacket config packet = .ok (front, body))
    (draws : RandomDraws) : readHeader K config packet draws =
      if body.length < kcpOverhead then .ok none
      else .ok (some (front ++ withConvFor draws body, convFor draws body, snOf body)) := by
  simp only [readHeader, hp, ok_bind]
  split
  · rfl
  · rename_i hlen
    have hlen := Nat.le_of_not_lt hlen
    rw [hW.getConv body hlen]
    simp only [ok_bind, withConvFor, convFor]
    split
    · have hlen' := length_withConv draws.allocConv hlen
      rw [hW.setConv body _ hlen, ok_bind, hW.getSn _ (by rw [hlen']; exact hlen),
        snOf_withConv]
      rfl
    · rw [hW.getSn body hlen]
      rfl

theorem System.create_returns (hc : config.validate = .ok (.ok ())) (hM : K.AcceptsMtu)
    (s : System κ) (rs : Nat → Nat → Except String ReedSolomon) (conv : UInt32)
    (peer : SocketAddr) (now : Nat) : ∃ r, s.create K rs config conv peer now = .ok r := by
  obtain ⟨out, h⟩ := KcpSocket.new_returns rs hc hM conv config.stream now
  rw [System.create, h, ok_bind]
  cases out with
  | error err => exact ⟨_, rfl⟩
  | ok socket => exact ⟨_, rfl⟩

theorem System.getOrCreate_returns (hc : config.validate = .ok (.ok ())) (hM : K.AcceptsMtu)
    (s : System κ) (rs : Nat → Nat → Except String ReedSolomon) (conv sn : UInt32)
    (peer : SocketAddr) (now : Nat) :
    ∃ r, s.getOrCreate K rs config conv sn peer now = .ok r := by
  obtain ⟨r, h⟩ := s.create_returns hc hM rs conv peer now
  rw [System.getOrCreate, h]
  split
  · split
    · exact ⟨_, rfl⟩
    · exact ⟨_, rfl⟩
  · exact ⟨_, rfl⟩

/-- The handler of datagrams panics exactly on a datagram that is flagged as FEC data and ends
in the FEC header. -/
theorem handleDatagram_returns_iff (hW : K.wire.Laws) (hM : K.AcceptsMtu)
    (hc : config.validate = .ok (.ok ())) (rs : Nat → Nat → Except String ReedSolomon)
    (s : System κ) (packet : Bytes) (peer : SocketAddr) (draws : RandomDraws) (now : Nat) :
    (∃ r, s.handleDatagram K rs config packet peer draws now = .ok r) ↔
      ¬(config.fec.enabled = true ∧ isDataPacket packet = true ∧
        packet.length < fecHeaderSizePlusSize) := by
  rw [System.handleDatagram]
  split
  · rename_i hpar
    have hdata : isDataPacket packet = false := by
      have hflag := (Bool.and_eq_true_iff.mp hpar).2
      rw [isParityPacket, beq_iff_eq] at hflag
      rw [isDataPacket, hflag]
      rfl
    constructor
    · intro _ hn
      exact absurd (hdata.symm.trans hn.2.1) (by decide)
    · intro _
      cases s.get peer with
      | none => exact ⟨_, rfl⟩
      | some entry => exact ⟨_, rfl⟩
  · constructor
    · rintro ⟨r, hr⟩
      obtain ⟨_, hread, _⟩ := bind_eq_ok.mp hr
      obtain ⟨pair, hp, _⟩ := bind_eq_ok.mp hread
      exact (kcpPacket_returns_iff config packet).mp ⟨pair, hp⟩
    · intro hn
      obtain ⟨⟨front, body⟩, hp⟩ := (kcpPacket_returns_iff config packet).mpr hn
      rw [readHeader_eq hW hp]
      split
      · exact ⟨_, rfl⟩
      · obtain ⟨⟨t, result⟩, h⟩ := s.getOrCreate_returns hc hM rs (convFor draws body)
          (snOf body) peer now
        rw [ok_bind]
        dsimp only
        rw [h, ok_bind]
        rcases result with err | ⟨⟨id, session⟩, created⟩
        · exact ⟨_, rfl⟩
        · cases created with
          | true =>
            dsimp only
            split
            · exact ⟨_, rfl⟩
            · exact ⟨_, rfl⟩
          | false =>
            dsimp only
            split
            · exact ⟨_, rfl⟩
            · exact ⟨_, rfl⟩

theorem handleDatagram_returns_iff_small :
    (∃ r, System.new.handleDatagram smallKcp reedSolomon (KcpConfig.withFec {} 2 1)
        (segment 7 81 0 [65]) ⟨[10, 0, 0, 1], 4000⟩ ⟨[9], rfl⟩ 0 = .ok r) ↔
      ¬((KcpConfig.withFec {} 2 1).fec.enabled = true ∧
        isDataPacket (segment 7 81 0 [65]) = true ∧
        (segment 7 81 0 [65]).length < fecHeaderSizePlusSize) :=
  handleDatagram_returns_iff smallWire_laws smallKcp_acceptsMtu rfl reedSolomon System.new
    (segment 7 81 0 [65]) ⟨[10, 0, 0, 1], 4000⟩ ⟨[9], rfl⟩ 0

/-- Six bytes that are no more than a FEC header abort the listener. -/
theorem handleDatagram_panics_small :
    smallKcp.wire.Laws ∧ smallKcp.AcceptsMtu ∧
    (KcpConfig.withFec {} 2 1).validate = .ok (.ok ()) ∧
    System.new.handleDatagram smallKcp reedSolomon (KcpConfig.withFec {} 2 1)
      [0, 0, 0, 0, 0xf1, 0] ⟨[10, 0, 0, 1], 4000⟩ ⟨[9], rfl⟩ 0 = .error .unwrapNone :=
  ⟨smallWire_laws, smallKcp_acceptsMtu, rfl, rfl⟩

end TokioKcp
