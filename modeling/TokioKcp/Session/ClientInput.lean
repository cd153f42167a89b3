import TokioKcp.Session
import TokioKcp.Socket.Readers

namespace TokioKcp
set_option autoImplicit true

open Checked Fec

variable {κ : Type} (K : KcpCrate κ)

/-- A datagram goes to the socket, which first moves to the datagram's conversation. -/
def KcpSession.inputDatagram (self : KcpSession κ) (inputConv : Option UInt32) (buf : Bytes)
    (now : Nat) : Exec (KcpSession κ) := do
  let socket :=
    match inputConv with
    | some conv =>
      -- Server may allocate another conv for this client.
      if !self.socket.waitingConv K && self.socket.conv K != conv then
        self.socket.setConv K conv
      else
        self.socket
    | none => self.socket
  let (socket, _) ← socket.input K buf now
  return { self with socket := socket }

/-- A datagram that is too short is dropped, and a parity packet is in no conversation. -/
def KcpSession.recvDatagram (self : KcpSession κ) (buf : Bytes) (now : Nat) :
    Exec (KcpSession κ) :=
  match dataPayload buf with
  | some payload =>
    if payload.length < kcpOverhead then
      .ok self
    else do
      let conv ← K.wire.getConv payload
      self.inputDatagram K (some conv) buf now
  | none =>
    if isParityPacket buf then
      self.inputDatagram K none buf now
    else if buf.length < kcpOverhead then
      .ok self
    else do
      let conv ← K.wire.getConv buf
      self.inputDatagram K (some conv) buf now

/-- The I/O task of a client receives from the UDP socket, and ends when that fails. -/
def KcpSession.recv (self : KcpSession κ) (recvResult : IoResult Bytes) (now : Nat) :
    Exec (KcpSession κ) :=
  if self.ioTask && self.sessionCloseNotifier.isNone then
    match recvResult with
    | .error _ => .ok { self with closed := true, ioTask := false, inputRx := [] }
    | .ok buf => self.recvDatagram K buf now
  else
    .ok self

/-- The conversation that a datagram names: that of its payload if it looks like a data packet,
and none if it looks like a parity packet or is too short. -/
def namedConv (buf : Bytes) : Option UInt32 :=
  match dataPayload buf with
  | some payload => if payload.length < kcpOverhead then none else some (convOf payload)
  | none => if isParityPacket buf ∨ buf.length < kcpOverhead then none else some (convOf buf)

/-- The socket once the client has moved to the conversation of a datagram. -/
def KcpSocket.movedTo (s : KcpSocket κ) (inputConv : Option UInt32) : KcpSocket κ :=
  match inputConv with
  | some conv => if !s.waitingConv K && s.conv K != conv then s.setConv K conv else s
  | none => s

variable {K} {s t : KcpSession κ} {buf : Bytes} {inputConv : Option UInt32}

theorem KcpSession.inputDatagram_socket (h : s.inputDatagram K inputConv buf now = .ok t) :
    ∃ socket result, (s.socket.movedTo K inputConv).input K buf now = .ok (socket, result) ∧
      t = { s with socket := socket } := by
  obtain ⟨⟨socket, result⟩, hinput, h⟩ := bind_eq_ok.mp h
  cases h
  exact ⟨socket, result, hinput, rfl⟩

theorem KcpSession.recvDatagram_cases (h : s.recvDatagram K buf now = .ok t) :
    t = s ∨ ∃ inputConv socket result,
      (s.socket.movedTo K inputConv).input K buf now = .ok (socket, result) ∧
      t = { s with socket := socket } := by
  rw [KcpSession.recvDatagram] at h
  split at h
  · split at h
    · cases h
      exact .inl rfl
    · obtain ⟨conv, _, h⟩ := bind_eq_ok.mp h
      exact .inr ⟨some conv, inputDatagram_socket h⟩
  · split at h
    · exact .inr ⟨none, inputDatagram_socket h⟩
    · split at h
      · cases h
        exact .inl rfl
      · obtain ⟨conv, _, h⟩ := bind_eq_ok.mp h
        exact .inr ⟨some conv, inputDatagram_socket h⟩

theorem isParityPacket_eq_false (h : dataPayload buf = some payload) :
    isParityPacket buf = false := by
  rw [dataPayload] at h
  split at h
  · rename_i hdata
    have hflag : fecFlag buf = some typeData := eq_of_beq hdata.1
    rw [isParityPacket, hflag]
    rfl
  · cases h

/-- With whole headers to read, a client drops what names no conversation, parity packets
apart, and moves to the conversation that is named. -/
theorem KcpSession.recvDatagram_eq (hW : K.wire.Laws) (s : KcpSession κ) (buf : Bytes)
    (now : Nat) : s.recvDatagram K buf now =
      if isParityPacket buf || (namedConv buf).isSome then
        s.inputDatagram K (namedConv buf) buf now
      else
        .ok s := by
  rw [KcpSession.recvDatagram]
  cases hpayload : dataPayload buf with
  | some payload =>
    rw [isParityPacket_eq_false hpayload, Bool.false_or]
    dsimp only
    by_cases hshort : payload.length < kcpOverhead
    · have hnamed : namedConv buf = none := by
        rw [namedConv, hpayload]
        exact if_pos hshort
      rw [if_pos hshort, hnamed]
      rfl
    · have hnamed : namedConv buf = some (convOf payload) := by
        rw [namedConv, hpayload]
        exact if_neg hshort
      rw [if_neg hshort, hW.getConv payload (Nat.le_of_not_lt hshort), hnamed]
      rfl
  | none =>
    dsimp only
    by_cases hdropped : isParityPacket buf = true ∨ buf.length < kcpOverhead
    · have hnamed : namedConv buf = none := by
        rw [namedConv, hpayload]
        exact if_pos hdropped
      rw [hnamed, Option.isSome_none, Bool.or_false]
      split
      · rfl
      · rename_i hother
        exact if_pos (hdropped.resolve_left hother)
    · have hnamed : namedConv buf = some (convOf buf) := by
        rw [namedConv, hpayload]
        exact if_neg hdropped
      obtain ⟨hother, hlong⟩ := not_or.mp hdropped
      rw [if_neg hother, if_neg hlong, hW.getConv buf (Nat.le_of_not_lt hlong), hnamed,
        Option.isSome_some, Bool.or_true]
      rfl

theorem KcpSocket.input_keepsConv {s t : KcpSocket κ} (hK : K.ConvLaws)
    (h : s.input K buf now = .ok (t, result)) (hgiven : s.waitingConv K = false) :
    t.conv K = s.conv K :=
  ((KcpSocket.input_moves h).kcp.keepsConv hK hgiven).1

theorem KcpSession.inputDatagram_conv (hK : K.ConvLaws) (hset : K.SetsConv)
    (hgiven : s.socket.waitingConv K = false)
    (h : s.inputDatagram K inputConv buf now = .ok t) :
    t.socket.conv K = inputConv.getD (s.socket.conv K) := by
  obtain ⟨⟨socket, result⟩, hinput, h⟩ := bind_eq_ok.mp h
  cases h
  cases inputConv with
  | none => exact KcpSocket.input_keepsConv hK hinput hgiven
  | some conv =>
    obtain ⟨hconv, hwaiting⟩ := hset s.socket.kcp conv
    by_cases hsame : s.socket.conv K = conv
    · have hkept : (!s.socket.waitingConv K && s.socket.conv K != conv) = false := by
        rw [hsame, bne_self_eq_false, Bool.and_false]
      dsimp only at hinput
      rw [hkept] at hinput
      exact (KcpSocket.input_keepsConv hK hinput hgiven).trans hsame
    · have hother : (!s.socket.waitingConv K && s.socket.conv K != conv) = true := by
        rw [hgiven]
        exact bne_iff_ne.mpr hsame
      dsimp only at hinput
      rw [if_pos hother] at hinput
      exact (KcpSocket.input_keepsConv hK hinput (hwaiting.trans hgiven)).trans hconv

/-- A client moves to the conversation that a datagram names, whatever the datagram is. -/
theorem KcpSession.recvDatagram_conv (hW : K.wire.Laws) (hK : K.ConvLaws) (hset : K.SetsConv)
    (hgiven : s.socket.waitingConv K = false) (h : s.recvDatagram K buf now = .ok t) :
    t.socket.conv K = (namedConv buf).getD (s.socket.conv K) := by
  rw [KcpSession.recvDatagram_eq hW] at h
  split at h
  · exact inputDatagram_conv hK hset hgiven h
  · rename_i hdropped
    rw [Bool.or_eq_true, not_or, Option.not_isSome_iff_eq_none] at hdropped
    rw [hdropped.2]
    cases h
    rfl

/-- A datagram that a client receives leaves the client's conversation just if it names no
other, also when nothing else comes of it. -/
theorem datagram_keeps_conv_iff (hW : K.wire.Laws) (hK : K.ConvLaws) (hset : K.SetsConv)
    (hclient : s.sessionCloseNotifier = none) (hruns : s.ioTask = true)
    (hgiven : s.socket.waitingConv K = false) (h : s.recv K (.ok buf) now = .ok t) :
    t.socket.conv K = s.socket.conv K ↔
      ∀ conv, namedConv buf = some conv → conv = s.socket.conv K := by
  rw [KcpSession.recv, hclient, hruns, if_pos (by rfl)] at h
  rw [KcpSession.recvDatagram_conv hW hK hset hgiven h]
  cases namedConv buf with
  | none => exact ⟨fun _ => nofun, fun _ => rfl⟩
  | some named =>
    constructor
    · intro hsame conv hconv
      cases hconv
      exact hsame
    · intro hsame
      exact hsame named rfl

def smallSession : KcpSession SmallKcp := .new smallSocket none none

theorem smallKcp_setsConv : smallKcp.SetsConv := fun _ _ => ⟨rfl, rfl⟩

/-- A segment of the client's own conversation, and one of another. -/
theorem datagram_keeps_conv_iff_small :
    (∃ t, smallSession.recv smallKcp (.ok (segment 1 81 0 [65])) 1 = .ok t ∧
      t.socket.conv smallKcp = 1) ∧
    ∃ t, smallSession.recv smallKcp (.ok (segment 2 81 0 [65])) 1 = .ok t ∧
      t.socket.conv smallKcp ≠ 1 := by
  constructor
  · have hrecv : ∃ t, smallSession.recv smallKcp (.ok (segment 1 81 0 [65])) 1 = .ok t := ⟨_, rfl⟩
    obtain ⟨t, h⟩ := hrecv
    refine ⟨t, h, (datagram_keeps_conv_iff smallWire_laws smallKcp_convLaws smallKcp_setsConv
      rfl rfl rfl h).mpr ?_⟩
    intro conv hconv
    cases hconv
    rfl
  · have hrecv : ∃ t, smallSession.recv smallKcp (.ok (segment 2 81 0 [65])) 1 = .ok t := ⟨_, rfl⟩
    obtain ⟨t, h⟩ := hrecv
    refine ⟨t, h, fun hsame => ?_⟩
    have hother := (datagram_keeps_conv_iff smallWire_laws smallKcp_convLaws smallKcp_setsConv
      rfl rfl rfl h).mp hsame 2 rfl
    exact absurd hother (by decide)

/-- A segment with a bad command is refused, and what looks like a data packet is ignored by a
socket that does without error correction; the conversation of either stays behind. -/
theorem refused_datagram_moves_client :
    KcpSocket.new smallKcp reedSolomon {} 1 false 0 = .ok (.ok smallSocket) ∧
    smallSession.socket.waitingConv smallKcp = false ∧
    smallSession.socket.conv smallKcp = 1 ∧
    (∃ t, smallSession.recv smallKcp (.ok (segment 2 0 0 [])) 1 = .ok t ∧
      (smallSocket.setConv smallKcp 2).input smallKcp (segment 2 0 0 []) 1 =
        .ok (smallSocket.setConv smallKcp 2, .error (.unsupportedCmd 0)) ∧
      t.socket.conv smallKcp = 2) ∧
    ∃ t, smallSession.recv smallKcp
        (.ok ([0, 0, 0, 0, 0xf1, 0, 26, 0] ++ segment 2 81 0 [])) 1 = .ok t ∧
      (smallKcp.input (smallSocket.setConv smallKcp 2).kcp
        ([0, 0, 0, 0, 0xf1, 0, 26, 0] ++ segment 2 81 0 [])).2 =
          .error (.convInconsistent 2 0) ∧
      (smallSocket.setConv smallKcp 2).input smallKcp
          ([0, 0, 0, 0, 0xf1, 0, 26, 0] ++ segment 2 81 0 []) 1 =
        .ok (smallSocket.setConv smallKcp 2, .ok false) ∧
      t.socket.conv smallKcp = 2 :=
  ⟨rfl, rfl, rfl, ⟨_, rfl, rfl, rfl⟩, ⟨_, rfl, rfl, rfl, rfl⟩⟩

end TokioKcp
