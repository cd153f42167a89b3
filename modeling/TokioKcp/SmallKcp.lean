import TokioKcp.Kcp

/-! A control block that takes unfragmented segments in order and keeps no send window: the
`kcp` crate on such segments. -/

namespace TokioKcp
set_option autoImplicit true

open Checked

structure SmallKcp where
  conv : UInt32
  inputConv : Bool
  mtu : Nat
  sndWnd : Nat
  rcvNxt : UInt32
  messages : List Bytes
  sndQueue : List Bytes

def segment (conv : UInt32) (cmd : UInt8) (sn : Nat) (data : Bytes) : Bytes :=
  LittleEndian.encode 4 conv.toNat ++ [cmd, 0, 0, 1] ++ LittleEndian.encode 4 0 ++
    LittleEndian.encode 4 sn ++ LittleEndian.encode 4 0 ++
    LittleEndian.encode 4 data.length ++ data

def SmallKcp.new (conv : UInt32) : SmallKcp where
  conv := conv
  inputConv := false
  mtu := 1400
  sndWnd := 32
  rcvNxt := 0
  messages := []
  sndQueue := []

/-- A data segment with the next number is a complete message. -/
def SmallKcp.take (self : SmallKcp) (cmd : UInt8) (sn : UInt32) (data : Bytes) : SmallKcp :=
  if cmd = 81 ∧ sn = self.rcvNxt then
    { self with rcvNxt := self.rcvNxt + 1, messages := self.messages ++ [data] }
  else
    self

/-- A control block that waits for its conversation takes that of the first segment. -/
def SmallKcp.adopt (self : SmallKcp) (conv : UInt32) : SmallKcp :=
  if conv ≠ self.conv then { self with conv := conv, inputConv := false } else self

@[simp] theorem SmallKcp.messages_adopt (k : SmallKcp) (conv : UInt32) :
    (k.adopt conv).messages = k.messages := by
  rw [SmallKcp.adopt]
  split
  · rfl
  · rfl

/-- The loop over the segments of a datagram, which it takes up to the first bad one. -/
def SmallKcp.inputSegments (self : SmallKcp) : Nat → Bytes → SmallKcp × KcpResult Unit
  | 0, _ => (self, .ok ())
  | fuel + 1, buf =>
    if buf.length < kcpOverhead then
      (self, .ok ())
    else if convOf buf ≠ self.conv ∧ self.inputConv = false then
      (self, .error (.convInconsistent self.conv (convOf buf)))
    else
      let self := self.adopt (convOf buf)
      let cmd := buf.getD 4 0
      let len := LittleEndian.decode ((buf.drop 20).take 4)
      let data := buf.drop kcpOverhead
      if data.length < len then
        (self, .error (.invalidSegmentDataSize len data.length))
      else if cmd < 81 ∨ 84 < cmd then
        (self, .error (.unsupportedCmd cmd))
      else
        (self.take cmd (snOf buf) (data.take len)).inputSegments fuel (data.drop len)

def SmallKcp.input (self : SmallKcp) (buf : Bytes) : SmallKcp × KcpResult Nat :=
  if buf.length < kcpOverhead then
    (self, .error (.invalidSegmentSize buf.length))
  else
    match self.inputSegments buf.length buf with
    | (self, .ok ()) => (self, .ok buf.length)
    | (self, .error err) => (self, .error err)

def SmallKcp.recv (self : SmallKcp) (len : Nat) : SmallKcp × KcpResult Bytes :=
  match self.messages with
  | [] => (self, .error .recvQueueEmpty)
  | data :: rest =>
    if len < data.length then (self, .error .userBufTooSmall)
    else ({ self with messages := rest }, .ok data)

def SmallKcp.peeksize (self : SmallKcp) : KcpResult Nat :=
  match self.messages with
  | [] => .error .recvQueueEmpty
  | data :: _ => .ok data.length

def SmallKcp.setMtu (self : SmallKcp) (mtu : Nat) : SmallKcp × KcpResult Unit :=
  if mtu < 50 then (self, .error (.invalidMtu mtu)) else ({ self with mtu := mtu }, .ok ())

/-- The bytes of a header are only there in a whole header. -/
def smallWire : KcpWire where
  getConv buf := if kcpOverhead ≤ buf.length then .ok (convOf buf) else .error .bufferUnderflow
  setConv buf conv :=
    if kcpOverhead ≤ buf.length then .ok (withConv conv buf) else .error .bufferUnderflow
  getSn buf := if kcpOverhead ≤ buf.length then .ok (snOf buf) else .error .bufferUnderflow

def smallKcp : KcpCrate SmallKcp where
  wire := smallWire
  new conv _ := .new conv
  newStream conv _ := .new conv
  setMtu := SmallKcp.setMtu
  setNodelay self _ _ _ _ := self
  setWndsize self snd _ := { self with sndWnd := snd }
  mss self := self.mtu - kcpOverhead
  inputConv self := { self with inputConv := true }
  update self _ := (self, .ok ())
  check _ _ := 10
  input := SmallKcp.input
  send self data := ({ self with sndQueue := self.sndQueue ++ [data] }, .ok data.length)
  recv := SmallKcp.recv
  peeksize := SmallKcp.peeksize
  flush self := (self, .ok ())
  flushAck self := (self, .ok ())
  waitSnd self := self.sndQueue.length
  sndWnd self := self.sndWnd
  rmtWnd _ := 128
  waitingConv self := self.inputConv
  conv self := self.conv
  setConv self conv := { self with conv := conv }

theorem smallWire_laws : smallWire.Laws where
  getConv _ h := if_pos h
  setConv _ _ h := if_pos h
  getSn _ h := if_pos h

theorem smallKcp_acceptsMtu : smallKcp.AcceptsMtu := by
  intro k mtu h
  exact ⟨{ k with mtu := mtu }, if_neg (Nat.not_lt_of_le h)⟩

theorem SmallKcp.take_conv (k : SmallKcp) (cmd : UInt8) (sn : UInt32) (data : Bytes) :
    (k.take cmd sn data).conv = k.conv ∧ (k.take cmd sn data).inputConv = k.inputConv := by
  rw [SmallKcp.take]
  split
  · exact ⟨rfl, rfl⟩
  · exact ⟨rfl, rfl⟩

theorem SmallKcp.inputSegments_keepsConv (k : SmallKcp) (fuel : Nat) (buf : Bytes) :
    smallKcp.KeepsConv k (k.inputSegments fuel buf).1 := by
  induction fuel generalizing k buf with
  | zero => exact .refl _ _
  | succ fuel ih =>
    intro hk
    have hw : k.inputConv = false := hk
    rw [SmallKcp.inputSegments]
    split
    · exact ⟨rfl, hk⟩
    · split
      · exact ⟨rfl, hk⟩
      · rename_i hne
        have hconv : k.adopt (convOf buf) = k := if_neg fun h => hne ⟨h, hw⟩
        rw [hconv]
        dsimp only
        split
        · exact ⟨rfl, hk⟩
        · split
          · exact ⟨rfl, hk⟩
          · have ht := k.take_conv (buf.getD 4 0) (snOf buf)
              ((buf.drop kcpOverhead).take (LittleEndian.decode ((buf.drop 20).take 4)))
            obtain ⟨hc, hi⟩ := ih _ _ (ht.2.trans hw)
            exact ⟨hc.trans ht.1, hi⟩

/-- The loop takes another conversation exactly from a header that names one. -/
theorem SmallKcp.inputSegments_named (k : SmallKcp) (fuel : Nat) (buf : Bytes)
    (hw : k.inputConv = true) :
    (namesOtherWithin k.conv fuel buf = true → (k.inputSegments fuel buf).1.inputConv = false) ∧
    (namesOtherWithin k.conv fuel buf = false →
      smallKcp.SameConv k (k.inputSegments fuel buf).1) := by
  induction fuel generalizing k buf with
  | zero => exact ⟨fun h => absurd h Bool.false_ne_true, fun _ => ⟨rfl, rfl⟩⟩
  | succ fuel ih =>
    rw [SmallKcp.inputSegments, namesOtherWithin]
    by_cases hlen : buf.length < kcpOverhead
    · rw [if_pos hlen, if_pos hlen]
      exact ⟨fun h => absurd h Bool.false_ne_true, fun _ => ⟨rfl, rfl⟩⟩
    · have hnot : ¬(convOf buf ≠ k.conv ∧ k.inputConv = false) :=
        fun h => absurd (hw.symm.trans h.2) (by decide)
      rw [if_neg hlen, if_neg hlen, if_neg hnot]
      by_cases hconv : convOf buf ≠ k.conv
      · rw [if_pos hconv]
        have hadopt : k.adopt (convOf buf) = { k with conv := convOf buf, inputConv := false } :=
          if_pos hconv
        rw [hadopt]
        refine ⟨fun _ => ?_, fun h => absurd h.symm Bool.false_ne_true⟩
        dsimp only
        split
        · rfl
        · split
          · rfl
          · -- whatever follows, the conversation is given
            have ht := SmallKcp.take_conv { k with conv := convOf buf, inputConv := false }
              (buf.getD 4 0) (snOf buf)
              ((buf.drop kcpOverhead).take (LittleEndian.decode ((buf.drop 20).take 4)))
            exact (inputSegments_keepsConv _ fuel _ ht.2).2
      · rw [if_neg hconv]
        have hadopt : k.adopt (convOf buf) = k := if_neg hconv
        rw [hadopt]
        dsimp only
        split
        · exact ⟨fun h => absurd h Bool.false_ne_true, fun _ => ⟨rfl, rfl⟩⟩
        · split
          · exact ⟨fun h => absurd h Bool.false_ne_true, fun _ => ⟨rfl, rfl⟩⟩
          · have ht := k.take_conv (buf.getD 4 0) (snOf buf)
              ((buf.drop kcpOverhead).take (LittleEndian.decode ((buf.drop 20).take 4)))
            obtain ⟨hnamed, hunnamed⟩ := ih _ _ (ht.2.trans hw)
            rw [ht.1] at hnamed hunnamed
            refine ⟨hnamed, fun h => ?_⟩
            obtain ⟨hc, hi⟩ := hunnamed h
            exact ⟨hc.trans ht.1, hi.trans ht.2⟩

theorem SmallKcp.input_eq (k : SmallKcp) (h : kcpOverhead ≤ buf.length) :
    (k.input buf).1 = (k.inputSegments buf.length buf).1 := by
  rw [SmallKcp.input, if_neg (Nat.not_lt_of_le h)]
  split
  · rename_i he
    rw [he]
  · rename_i he
    rw [he]

theorem SmallKcp.input_leads {P : SmallKcp → Prop} (k : SmallKcp) (buf : Bytes) (hk : P k)
    (h : P (k.inputSegments buf.length buf).1) : P (k.input buf).1 := by
  by_cases hlen : kcpOverhead ≤ buf.length
  · rw [k.input_eq hlen]
    exact h
  · rw [SmallKcp.input, if_pos (Nat.lt_of_not_le hlen)]
    exact hk

theorem smallKcp_convLaws : smallKcp.ConvLaws where
  new _ _ := ⟨rfl, rfl⟩
  newStream _ _ := ⟨rfl, rfl⟩
  setMtu k mtu := by
    intro hk
    change smallKcp.conv (k.setMtu mtu).1 = _ ∧ smallKcp.waitingConv (k.setMtu mtu).1 = _
    rw [SmallKcp.setMtu]
    split
    · exact ⟨rfl, hk⟩
    · exact ⟨rfl, hk⟩
  setNodelay _ _ _ _ _ := .refl _ _
  setWndsize _ _ _ hk := ⟨rfl, hk⟩
  update _ _ := .refl _ _
  input k buf :=
    k.input_leads (P := smallKcp.KeepsConv k) buf (.refl _ k)
      (k.inputSegments_keepsConv buf.length buf)
  send _ _ hk := ⟨rfl, hk⟩
  recv k len := by
    intro hk
    change smallKcp.conv (k.recv len).1 = _ ∧ smallKcp.waitingConv (k.recv len).1 = _
    rw [SmallKcp.recv]
    split
    · exact ⟨rfl, hk⟩
    · split
      · exact ⟨rfl, hk⟩
      · exact ⟨rfl, hk⟩
  flush _ := .refl _ _
  flushAck _ := .refl _ _

theorem smallKcp_takesNamed : smallKcp.TakesNamed where
  named k buf hw h := by
    change (k.input buf).1.inputConv = false
    rw [k.input_eq (length_of_namesOther h)]
    exact (k.inputSegments_named buf.length buf hw).1 h
  unnamed k buf hw h :=
    k.input_leads (P := smallKcp.SameConv k) buf ⟨rfl, rfl⟩
      ((k.inputSegments_named buf.length buf hw).2 h)
  flushAck _ := ⟨rfl, rfl⟩

end TokioKcp
