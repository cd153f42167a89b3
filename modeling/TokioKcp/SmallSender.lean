import TokioKcp.SmallKcp
import TokioKcp.Fec.SmallCodecs
import TokioKcp.Socket.Sending

/-! A control block that cuts what it sends into segments, on top of the small one. -/

namespace TokioKcp
set_option autoImplicit true

open Checked Fec

structure SmallSender where
  kcp : SmallKcp
  stream : Bool
  sndBuf : List Bytes

def SmallSender.side (self : SmallSender) : SendSide where
  stream := self.stream
  mss := self.kcp.mtu - kcpOverhead
  sndWnd := self.kcp.sndWnd
  sndBuf := self.sndBuf
  sndQueue := self.kcp.sndQueue

def SmallSender.new (conv : UInt32) (stream : Bool) : SmallSender where
  kcp := .new conv
  stream := stream
  sndBuf := []

def SmallSender.send (self : SmallSender) (buf : Bytes) : SmallSender × KcpResult Nat :=
  if self.side.needs buf < 128 then
    ({ self with kcp := { self.kcp with sndQueue := (self.side.send buf).sndQueue } },
      .ok buf.length)
  else
    (self, .error .userBufTooBig)

def SmallSender.flush (self : SmallSender) : SmallSender :=
  { self with
    kcp := { self.kcp with sndQueue := [] }, sndBuf := self.sndBuf ++ self.kcp.sndQueue }

def SmallSender.lift (self : SmallSender) (result : SmallKcp × α) : SmallSender × α :=
  ({ self with kcp := result.1 }, result.2)

def smallSender : KcpCrate SmallSender where
  wire := smallWire
  new conv _ := .new conv false
  newStream conv _ := .new conv true
  setMtu self mtu := self.lift (self.kcp.setMtu mtu)
  setNodelay self _ _ _ _ := self
  setWndsize self snd _ := { self with kcp := { self.kcp with sndWnd := snd } }
  mss self := self.side.mss
  inputConv self := { self with kcp := { self.kcp with inputConv := true } }
  update self _ := (self.flush, .ok ())
  check _ _ := 10
  input self buf := self.lift (self.kcp.input buf)
  send := SmallSender.send
  recv self len := self.lift (self.kcp.recv len)
  peeksize self := self.kcp.peeksize
  flush self := (self.flush, .ok ())
  flushAck self := (self, .ok ())
  waitSnd self := self.side.segments.length
  sndWnd self := self.side.sndWnd
  rmtWnd _ := 128
  waitingConv self := self.kcp.inputConv
  conv self := self.kcp.conv
  setConv self conv := { self with kcp := { self.kcp with conv := conv } }

def SmallKcp.sendSide (self : SmallKcp) : Nat × Nat × List Bytes :=
  (self.mtu, self.sndWnd, self.sndQueue)

theorem SmallKcp.inputSegments_sendSide (k : SmallKcp) (fuel : Nat) (buf : Bytes) :
    (k.inputSegments fuel buf).1.sendSide = k.sendSide := by
  induction fuel generalizing k buf with
  | zero => rfl
  | succ fuel ih =>
    have hadopt : (k.adopt (convOf buf)).sendSide = k.sendSide := by
      rw [SmallKcp.adopt]
      split
      · rfl
      · rfl
    have htake (l : SmallKcp) (cmd : UInt8) (sn : UInt32) (data : Bytes) :
        (l.take cmd sn data).sendSide = l.sendSide := by
      rw [SmallKcp.take]
      split
      · rfl
      · rfl
    rw [SmallKcp.inputSegments]
    split
    · rfl
    · split
      · rfl
      · dsimp only
        split
        · exact hadopt
        · split
          · exact hadopt
          · rw [ih, htake, hadopt]

theorem SmallKcp.input_sendSide (k : SmallKcp) (buf : Bytes) :
    (k.input buf).1.sendSide = k.sendSide :=
  k.input_leads (P := fun l => l.sendSide = k.sendSide) buf rfl
    (k.inputSegments_sendSide buf.length buf)

theorem SmallSender.side_eq {a b : SmallSender} (hkcp : b.kcp.sendSide = a.kcp.sendSide)
    (hstream : b.stream = a.stream) (hbuf : b.sndBuf = a.sndBuf) : b.side = a.side := by
  have hmtu : b.kcp.mtu = a.kcp.mtu := congrArg Prod.fst hkcp
  have hwnd : b.kcp.sndWnd = a.kcp.sndWnd := congrArg (·.2.1) hkcp
  have hqueue : b.kcp.sndQueue = a.kcp.sndQueue := congrArg (·.2.2) hkcp
  rw [SmallSender.side, hmtu, hwnd, hqueue, hstream, hbuf, SmallSender.side]

theorem SmallSender.flush_holds (k : SmallSender) : k.side.Holds k.flush.side :=
  ⟨rfl, List.append_nil _⟩

theorem smallSender_sends : smallSender.Sends SmallSender.side where
  mss _ := rfl
  sndWnd _ := rfl
  waitSnd _ := rfl
  new _ _ := ⟨rfl, rfl⟩
  newStream _ _ := ⟨rfl, rfl⟩
  setMtu k mtu h := by
    have hmtu : ¬mtu < 50 := Nat.not_lt_of_le h
    change ({ k with kcp := (k.kcp.setMtu mtu).1 } : SmallSender).side = _
    rw [SmallKcp.setMtu, if_neg hmtu]
    rfl
  setNodelay _ _ _ _ _ := rfl
  setWndsize _ snd _ := ⟨snd, rfl⟩
  inputConv _ := rfl
  setConv _ _ := rfl
  recv k len := by
    apply SmallSender.side_eq
    · change (k.kcp.recv len).1.sendSide = _
      rw [SmallKcp.recv]
      split
      · rfl
      · split
        · rfl
        · rfl
    · rfl
    · rfl
  update k _ := k.flush_holds
  flush k := k.flush_holds
  flushAck _ := .refl _
  input k buf := by
    have hsame : (smallSender.input k buf).1.side = k.side :=
      SmallSender.side_eq (k.kcp.input_sendSide buf) rfl rfl
    rw [hsame]
    exact (SendSide.Holds.refl _).acked
  send k buf _ h := by
    change (k.send buf).1.side = _ ∧ (k.send buf).2 = _
    rw [SmallSender.send, if_pos h]
    exact ⟨rfl, rfl⟩
  send_big k buf _ h := by
    change (k.send buf).2 = _
    rw [SmallSender.send, if_neg (Nat.not_lt_of_le h)]

theorem smallSender_waits : smallSender.Waits where
  setConv _ _ := rfl
  recv k len := by
    change (k.kcp.recv len).1.inputConv = _
    rw [SmallKcp.recv]
    split
    · rfl
    · split
      · rfl
      · rfl
  update _ _ := rfl
  flush _ := rfl
  flushAck _ := rfl
  send k buf := by
    change (k.send buf).1.kcp.inputConv = _
    rw [SmallSender.send]
    split
    · rfl
    · rfl
  input k buf h := (smallKcp_convLaws.input k.kcp buf h).2

theorem smallSender_takesNamed : smallSender.TakesNamed where
  named k buf hw h := smallKcp_takesNamed.named k.kcp buf hw h
  unnamed k buf hw h := smallKcp_takesNamed.unnamed k.kcp buf hw h
  flushAck _ := ⟨rfl, rfl⟩

/-- A new socket that asks for a conversation, with segments of 26 bytes. -/
def smallClient (stream : Bool) : KcpSocket SmallSender where
  kcp := {
    kcp := { SmallKcp.new 0 with inputConv := true, mtu := 50, sndWnd := 256 }
    stream := stream
    sndBuf := [] }
  lastUpdateMs := 0
  updateIntervalMs := 40
  flushWrite := false
  flushAckInput := false
  firstSendChunkLen := 26
  maxSendChunkLen := 3302
  sentFirst := false
  pendingSender := none
  pendingReceiver := none
  closed := false
  allowRecvEmptyPacket := false
  fecDecoder := none
  outputTask := ⟨none⟩
  woken := []

theorem smallClient_new (stream : Bool) :
    KcpSocket.new smallSender reedSolomon { mtu := 50 } 0 stream 0 =
      .ok (.ok (smallClient stream)) := by
  cases stream with
  | true => rfl
  | false => rfl

end TokioKcp
