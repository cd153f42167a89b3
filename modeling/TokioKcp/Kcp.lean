import TokioKcp.Fec.Encoder

namespace TokioKcp
set_option autoImplicit true

open Checked Fec

def kcpOverhead : Nat := 24

def outputBacklog : Nat := 2048

/-- The channel to the task that writes to the UDP socket. -/
structure UdpOutput where
  postTx : List Bytes
  taskClosed : Bool

/-- The state of that task. -/
structure UdpOutputTask where
  fecEncoder : Option FecEncoder

def UdpOutput.write (self : UdpOutput) (buf : Bytes) : UdpOutput × IoResult Nat :=
  if self.taskClosed then
    (self, .error ⟨.brokenPipe, "UDP output task closed"⟩)
  else if self.postTx.length < outputBacklog then
    ({ self with postTx := self.postTx ++ [buf] }, .ok buf.length)
  else
    (self, .ok buf.length)

def UdpOutputTask.send (self : UdpOutputTask) (buf : Bytes) (now : Nat) :
    Exec (UdpOutputTask × List Bytes) :=
  match self.fecEncoder with
  | some encoder => do
    match ← encoder.encode buf now with
    | (encoder, .ok packets) => return ({ self with fecEncoder := some encoder }, packets)
    | (encoder, .error _) => return ({ self with fecEncoder := some encoder }, [])
  | none => .ok (self, [buf])

/-- The functions of the `kcp` crate on the bytes of a segment. -/
structure KcpWire where
  getConv : Bytes → Exec UInt32
  setConv : Bytes → UInt32 → Exec Bytes
  getSn : Bytes → Exec UInt32

/-- The `kcp` crate, with a type for its control block and the output in it. Its functions on a
control block are taken to return: a panic of KCP's own, such as an overflow that is checked
within its `input`, has no place here. What is proved about panics, of a task or of a thread,
holds as long as KCP's own functions return. -/
structure KcpCrate (κ : Type) where
  wire : KcpWire
  new : UInt32 → UdpOutput → κ
  newStream : UInt32 → UdpOutput → κ
  setMtu : κ → Nat → κ × KcpResult Unit
  setNodelay : κ → Bool → Int → Int → Bool → κ
  setWndsize : κ → Nat → Nat → κ
  mss : κ → Nat
  inputConv : κ → κ
  update : κ → UInt32 → κ × KcpResult Unit
  check : κ → UInt32 → UInt32
  input : κ → Bytes → κ × KcpResult Nat
  send : κ → Bytes → κ × KcpResult Nat
  /-- The number is the length of the caller's buffer. -/
  recv : κ → Nat → κ × KcpResult Bytes
  peeksize : κ → KcpResult Nat
  flush : κ → κ × KcpResult Unit
  flushAck : κ → κ × KcpResult Unit
  waitSnd : κ → Nat
  sndWnd : κ → Nat
  rmtWnd : κ → Nat
  waitingConv : κ → Bool
  conv : κ → UInt32
  setConv : κ → UInt32 → κ

variable {κ : Type}

def convOf (buf : Bytes) : UInt32 := .ofNat (LittleEndian.decode (buf.take 4))

def withConv (conv : UInt32) (buf : Bytes) : Bytes :=
  LittleEndian.encode 4 conv.toNat ++ buf.drop 4

def snOf (buf : Bytes) : UInt32 := .ofNat (LittleEndian.decode ((buf.drop 12).take 4))

/-- The functions on bytes work on a whole header. -/
structure KcpWire.Laws (W : KcpWire) : Prop where
  getConv : ∀ buf, kcpOverhead ≤ buf.length → W.getConv buf = .ok (convOf buf)
  setConv : ∀ buf conv, kcpOverhead ≤ buf.length → W.setConv buf conv = .ok (withConv conv buf)
  getSn : ∀ buf, kcpOverhead ≤ buf.length → W.getSn buf = .ok (snOf buf)

def KcpCrate.AcceptsMtu (K : KcpCrate κ) : Prop :=
  ∀ k mtu, 50 ≤ mtu → ∃ k', K.setMtu k mtu = (k', .ok ())

/-- The conversation of a control block that does not wait for one stays. -/
def KcpCrate.KeepsConv (K : KcpCrate κ) (k k' : κ) : Prop :=
  K.waitingConv k = false → K.conv k' = K.conv k ∧ K.waitingConv k' = false

/-- Nothing but `setConv` changes a conversation that was given. -/
structure KcpCrate.ConvLaws (K : KcpCrate κ) : Prop where
  new : ∀ conv output, K.conv (K.new conv output) = conv ∧
    K.waitingConv (K.new conv output) = false
  newStream : ∀ conv output, K.conv (K.newStream conv output) = conv ∧
    K.waitingConv (K.newStream conv output) = false
  setMtu : ∀ k mtu, K.KeepsConv k (K.setMtu k mtu).1
  setNodelay : ∀ k nodelay interval resend nc,
    K.KeepsConv k (K.setNodelay k nodelay interval resend nc)
  setWndsize : ∀ k snd rcv, K.KeepsConv k (K.setWndsize k snd rcv)
  update : ∀ k now, K.KeepsConv k (K.update k now).1
  input : ∀ k buf, K.KeepsConv k (K.input k buf).1
  send : ∀ k buf, K.KeepsConv k (K.send k buf).1
  recv : ∀ k len, K.KeepsConv k (K.recv k len).1
  flush : ∀ k, K.KeepsConv k (K.flush k).1
  flushAck : ∀ k, K.KeepsConv k (K.flushAck k).1

def KcpCrate.SameConv (K : KcpCrate κ) (k l : κ) : Prop :=
  K.conv l = K.conv k ∧ K.waitingConv l = K.waitingConv k

/-- Whether a header names another conversation, among those that KCP reads in turn: it stops at
a segment that is cut off or of no known command. -/
def namesOtherWithin (conv : UInt32) : Nat → Bytes → Bool
  | 0, _ => false
  | fuel + 1, buf =>
    if buf.length < kcpOverhead then
      false
    else if convOf buf ≠ conv then
      true
    else
      let cmd := buf.getD 4 0
      let len := LittleEndian.decode ((buf.drop 20).take 4)
      let data := buf.drop kcpOverhead
      if data.length < len then false
      else if cmd < 81 ∨ 84 < cmd then false
      else namesOtherWithin conv fuel (data.drop len)

def namesOther (conv : UInt32) (buf : Bytes) : Bool := namesOtherWithin conv buf.length buf

/-- A control block that waits for a conversation takes the first other one that a datagram
names, and waits on through a datagram that names none. -/
structure KcpCrate.TakesNamed (K : KcpCrate κ) : Prop where
  named : ∀ k buf, K.waitingConv k = true → namesOther (K.conv k) buf = true →
    K.waitingConv (K.input k buf).1 = false
  unnamed : ∀ k buf, K.waitingConv k = true → namesOther (K.conv k) buf = false →
    K.SameConv k (K.input k buf).1
  flushAck : ∀ k, K.SameConv k (K.flushAck k).1

def KcpCrate.SetsConv (K : KcpCrate κ) : Prop :=
  ∀ k conv, K.conv (K.setConv k conv) = conv ∧
    K.waitingConv (K.setConv k conv) = K.waitingConv k

theorem length_of_namesOther (h : namesOther conv buf = true) : kcpOverhead ≤ buf.length := by
  apply Nat.le_of_not_lt
  intro hlen
  rw [namesOther] at h
  cases hn : buf.length with
  | zero =>
    rw [hn] at h
    cases h
  | succ n =>
    rw [hn, namesOtherWithin, if_pos hlen] at h
    cases h

theorem length_withConv (conv : UInt32) (h : kcpOverhead ≤ buf.length) :
    (withConv conv buf).length = buf.length := by
  rw [withConv, List.length_append, LittleEndian.length_encode, List.length_drop]
  exact Nat.add_sub_of_le (Nat.le_trans (by decide) h)

@[simp] theorem convOf_withConv (conv : UInt32) (buf : Bytes) :
    convOf (withConv conv buf) = conv := by
  rw [convOf, withConv, List.take_left' (LittleEndian.length_encode 4 _),
    LittleEndian.decode_encode conv.toNat_lt]
  exact UInt32.ofNat_toNat

@[simp] theorem snOf_withConv (conv : UInt32) (buf : Bytes) :
    snOf (withConv conv buf) = snOf buf := by
  have hlen : (LittleEndian.encode 4 conv.toNat).length = 4 := LittleEndian.length_encode 4 _
  have hdrop : (withConv conv buf).drop 12 = buf.drop 12 := by
    rw [withConv, List.drop_append, List.drop_eq_nil_of_le (by omega), hlen, List.drop_drop]
    rfl
  rw [snOf, snOf, hdrop]

theorem KcpCrate.KeepsConv.trans {K : KcpCrate κ} (h : K.KeepsConv k l) (h' : K.KeepsConv l m) :
    K.KeepsConv k m := by
  intro hk
  obtain ⟨hc, hw⟩ := h hk
  obtain ⟨hc', hw'⟩ := h' hw
  exact ⟨hc'.trans hc, hw'⟩

theorem KcpCrate.KeepsConv.refl (K : KcpCrate κ) (k : κ) : K.KeepsConv k k :=
  fun hk => ⟨rfl, hk⟩

end TokioKcp
