import TokioKcp.Config
import TokioKcp.Fec.Decoder

namespace TokioKcp
set_option autoImplicit true

open Checked Fec

variable {κ : Type} (K : KcpCrate κ) (reedSolomon : Nat → Nat → Except String ReedSolomon)

def maxSendSegments : Nat := 127

/-- A waker is known by the task that it wakes. -/
abbrev Waker := Nat

inductive Poll (α : Type) where
  | ready (value : α)
  | pending

/-- `outputTask` is the task that the socket spawns, and `woken` lists the wakers that were
called, in order. -/
structure KcpSocket (κ : Type) where
  kcp : κ
  lastUpdateMs : Nat
  updateIntervalMs : Nat
  flushWrite : Bool
  flushAckInput : Bool
  firstSendChunkLen : Nat
  maxSendChunkLen : Nat
  sentFirst : Bool
  pendingSender : Option Waker
  pendingReceiver : Option Waker
  closed : Bool
  allowRecvEmptyPacket : Bool
  fecDecoder : Option FecDecoder
  outputTask : UdpOutputTask
  woken : List Waker

def UdpOutput.new (config : KcpConfig) : Exec (IoResult (UdpOutput × UdpOutputTask)) := do
  if config.fec.enabled then
    match ← FecEncoder.new reedSolomon config.fec.dataShards config.fec.parityShards with
    | .error err => return .error err
    | .ok encoder => return .ok (⟨[], false⟩, ⟨some encoder⟩)
  else
    return .ok (⟨[], false⟩, ⟨none⟩)

def FecDecoder.newIfEnabled (config : KcpConfig) : Exec (IoResult (Option FecDecoder)) := do
  if config.fec.enabled then
    match ← FecDecoder.new reedSolomon config.fec.dataShards config.fec.parityShards with
    | .error err => return .error err
    | .ok decoder => return .ok (some decoder)
  else
    return .ok none

def KcpSocket.newKcp (c : KcpConfig) (conv : UInt32) (stream : Bool) (output : UdpOutput)
    (now : Nat) : Exec (κ × Nat × KcpResult Unit) := do
  let kcp := if stream then K.newStream conv output else K.new conv output
  let kcp ← c.applyConfig K kcp
  let firstSendChunkLen := K.mss kcp
  -- Ask server to allocate one
  let kcp := if conv = 0 then K.inputConv kcp else kcp
  let (kcp, result) := K.update kcp (.ofNat now)
  return (kcp, firstSendChunkLen, result)

/-- `now` is the clock reading of the call, here and below. -/
def KcpSocket.new (c : KcpConfig) (conv : UInt32) (stream : Bool) (now : Nat) :
    Exec (KcpResult (KcpSocket κ)) := do
  match ← c.validate with
  | .error err => return .error (.ioError err)
  | .ok () =>
    match ← UdpOutput.new reedSolomon c with
    | .error err => return .error (.ioError err)
    | .ok (output, outputTask) =>
      match ← KcpSocket.newKcp K c conv stream output now with
      | (_, _, .error err) => return .error err
      | (kcp, firstSendChunkLen, .ok ()) =>
        match ← FecDecoder.newIfEnabled reedSolomon c with
        | .error err => return .error (.ioError err)
        | .ok fecDecoder =>
          return .ok {
            kcp := kcp
            lastUpdateMs := now
            updateIntervalMs := (max 10 (min c.nodelay.interval 5000)).toNat
            flushWrite := c.flushWrite
            flushAckInput := c.flushAcksInput
            firstSendChunkLen := firstSendChunkLen
            maxSendChunkLen := firstSendChunkLen * maxSendSegments
            sentFirst := false
            pendingSender := none
            pendingReceiver := none
            closed := false
            allowRecvEmptyPacket := c.allowRecvEmptyPacket
            fecDecoder := fecDecoder
            outputTask := outputTask
            woken := [] }

def KcpCrate.windowFull (k : κ) : Bool :=
  decide (K.waitSnd k ≥ K.sndWnd k) || decide (K.waitSnd k ≥ K.rmtWnd k)

def KcpSocket.tryWakePendingSender (self : KcpSocket κ) : KcpSocket κ × Bool :=
  match self.pendingSender with
  | some waker =>
    if !K.windowFull self.kcp && !K.waitingConv self.kcp then
      ({ self with pendingSender := none, woken := self.woken ++ [waker] }, true)
    else
      (self, false)
  | none => (self, false)

def KcpSocket.tryWakePendingReceiver (self : KcpSocket κ) : KcpSocket κ × Bool :=
  match self.pendingReceiver with
  | some waker =>
    match K.peeksize self.kcp with
    | .ok peek =>
      if self.allowRecvEmptyPacket ∨ peek > 0 then
        ({ self with pendingReceiver := none, woken := self.woken ++ [waker] }, true)
      else
        (self, false)
    | .error _ => (self, false)
  | none => (self, false)

def KcpSocket.tryWakePendingWaker (self : KcpSocket κ) : KcpSocket κ × Bool :=
  let (self, sender) := self.tryWakePendingSender K
  let (self, receiver) := self.tryWakePendingReceiver K
  (self, sender || receiver)

def KcpSocket.flushIf (self : KcpSocket κ) (condition : Bool) : KcpSocket κ × KcpResult Unit :=
  if condition then
    let (kcp, result) := K.flush self.kcp
    ({ self with kcp := kcp }, result)
  else
    (self, .ok ())

def KcpSocket.flushAckIf (self : KcpSocket κ) (condition : Bool) :
    KcpSocket κ × KcpResult Unit :=
  if condition then
    let (kcp, result) := K.flushAck self.kcp
    ({ self with kcp := kcp }, result)
  else
    (self, .ok ())

def KcpSocket.inputKcp (self : KcpSocket κ) (buf : Bytes) (now : Nat) :
    KcpSocket κ × KcpResult Bool :=
  let (kcp, result) := K.input self.kcp buf
  let self := { self with kcp := kcp }
  match result with
  | .error (.convInconsistent _ _) => (self, .ok false)
  | .error err => (self, .error err)
  | .ok _ =>
    let self := { self with lastUpdateMs := now }
    match self.flushAckIf K self.flushAckInput with
    | (self, .error err) => (self, .error err)
    | (self, .ok ()) =>
      let (self, waked) := self.tryWakePendingWaker K
      (self, .ok waked)

def KcpSocket.inputEach (self : KcpSocket κ) (waked : Bool) (now : Nat) :
    List Bytes → KcpSocket κ × KcpResult Bool
  | [] => (self, .ok waked)
  | payload :: rest =>
    match self.inputKcp K payload now with
    | (self, .error err) => (self, .error err)
    | (self, .ok woke) => self.inputEach (waked || woke) now rest

def KcpSocket.inputFec (self : KcpSocket κ) (buf : Bytes) (now : Nat) :
    Exec (KcpSocket κ × KcpResult Bool) := do
  match self.inputEach K false now (dataPayload buf).toList with
  | (self, .error err) => return (self, .error err)
  | (self, .ok waked) =>
    let decoder ← unwrap self.fecDecoder
    match ← decoder.decode buf with
    | (decoder, .error err) =>
      return ({ self with fecDecoder := some decoder }, .error (.ioError err))
    | (decoder, .ok recovered) =>
      return { self with fecDecoder := some decoder }.inputEach K waked now recovered

/-- Call every time you got data from transmission. -/
def KcpSocket.input (self : KcpSocket κ) (buf : Bytes) (now : Nat) :
    Exec (KcpSocket κ × KcpResult Bool) :=
  if self.fecDecoder.isSome && isFecPacket buf then
    self.inputFec K buf now
  else
    .ok (self.inputKcp K buf now)

/-- The waker that a new one takes the place of is called, unless it is the same. -/
def displaced (old : Option Waker) (new : Waker) : List Waker :=
  old.toList.filter (· ≠ new)

def KcpSocket.replaceSender (self : KcpSocket κ) (waker : Waker) : KcpSocket κ :=
  { self with
    pendingSender := some waker, woken := self.woken ++ displaced self.pendingSender waker }

def KcpSocket.replaceReceiver (self : KcpSocket κ) (waker : Waker) : KcpSocket κ :=
  { self with
    pendingReceiver := some waker, woken := self.woken ++ displaced self.pendingReceiver waker }

def KcpSocket.maxSendLen (self : KcpSocket κ) : Nat :=
  if !self.sentFirst && K.waitingConv self.kcp then self.firstSendChunkLen
  else self.maxSendChunkLen

/-- What `pollSend` does once KCP has taken `n` bytes. -/
def KcpSocket.sent (self : KcpSocket κ) (n now : Nat) : KcpSocket κ × KcpResult Nat :=
  let self := { self with sentFirst := true }
  match self.flushIf K (K.windowFull self.kcp) with
  | (self, .error err) => (self, .error err)
  | (self, .ok ()) =>
    match { self with lastUpdateMs := now }.flushIf K self.flushWrite with
    | (self, .error err) => (self, .error err)
    | (self, .ok ()) => (self, .ok n)

def KcpSocket.pollSend (self : KcpSocket κ) (waker : Waker) (buf : Bytes) (now : Nat) :
    KcpSocket κ × Poll (KcpResult Nat) :=
  if self.closed then
    (self, .ready (.error (.ioError ⟨.brokenPipe, "broken pipe"⟩)))
  else if self.sentFirst && (K.windowFull self.kcp || K.waitingConv self.kcp) then
    (self.replaceSender waker, .pending)
  else
    match K.send self.kcp (buf.take (self.maxSendLen K)) with
    | (kcp, .error err) => ({ self with kcp := kcp }, .ready (.error err))
    | (kcp, .ok n) =>
      let (self, result) := { self with kcp := kcp }.sent K n now
      (self, .ready result)

/-- `len` is the length of the caller's buffer. -/
def KcpSocket.pollRecv (self : KcpSocket κ) (waker : Waker) (len now : Nat) :
    KcpSocket κ × Poll (KcpResult Bytes) :=
  if self.closed then
    (self, .ready (.ok []))
  else
    let (kcp, result) := K.recv self.kcp len
    let self := { self with kcp := kcp }
    match result with
    | .error .recvQueueEmpty => (self.replaceReceiver waker, .pending)
    | .error .expectingFragment => (self.replaceReceiver waker, .pending)
    | .error err => (self, .ready (.error err))
    | .ok data =>
      if data.length = 0 ∧ !self.allowRecvEmptyPacket then
        -- the empty message is gone and the task waits for the next wake-up
        (self.replaceReceiver waker, .pending)
      else
        ({ self with lastUpdateMs := now }, .ready (.ok data))

def KcpSocket.flush (self : KcpSocket κ) (now : Nat) : KcpSocket κ × KcpResult Unit :=
  match K.flush self.kcp with
  | (kcp, .error err) => ({ self with kcp := kcp }, .error err)
  | (kcp, .ok ()) => ({ self with kcp := kcp, lastUpdateMs := now }, .ok ())

/-- The result is the delay to the next update, in milliseconds. -/
def KcpSocket.updateAt (self : KcpSocket κ) (nowMs : Nat) : KcpSocket κ × KcpResult Nat :=
  let now : UInt32 := .ofNat nowMs
  match K.update self.kcp now with
  | (kcp, .error err) => ({ self with kcp := kcp }, .error err)
  | (kcp, .ok ()) =>
    let next := if K.waitSnd kcp = 0 then self.updateIntervalMs else (K.check kcp now).toNat
    let (self, _) := { self with kcp := kcp }.tryWakePendingSender K
    (self, .ok next)

def KcpSocket.close (self : KcpSocket κ) : KcpSocket κ :=
  { self with
    closed := true, pendingSender := none, pendingReceiver := none
    woken := self.woken ++ self.pendingSender.toList ++ self.pendingReceiver.toList }

def KcpSocket.canClose (self : KcpSocket κ) : Bool := decide (K.waitSnd self.kcp = 0)

def KcpSocket.conv (self : KcpSocket κ) : UInt32 := K.conv self.kcp

def KcpSocket.setConv (self : KcpSocket κ) (conv : UInt32) : KcpSocket κ :=
  { self with kcp := K.setConv self.kcp conv }

def KcpSocket.waitingConv (self : KcpSocket κ) : Bool := K.waitingConv self.kcp

/-- A call on a socket, at a clock reading. -/
inductive SocketCall where
  | input (buf : Bytes)
  | pollSend (waker : Waker) (buf : Bytes)
  | pollRecv (waker : Waker) (len : Nat)
  | updateAt
  | flush
  | close

def KcpSocket.call (self : KcpSocket κ) (now : Nat) : SocketCall → Exec (KcpSocket κ)
  | .input buf => do
    let (self, _) ← self.input K buf now
    return self
  | .pollSend waker buf => .ok (self.pollSend K waker buf now).1
  | .pollRecv waker len => .ok (self.pollRecv K waker len now).1
  | .updateAt => .ok (self.updateAt K now).1
  | .flush => .ok (self.flush K now).1
  | .close => .ok self.close

def KcpSocket.Step (s : KcpSocket κ) (call : SocketCall × Nat) (t : KcpSocket κ) : Prop :=
  s.call K call.2 call.1 = .ok t

/-- What a new socket is made of. -/
structure KcpSocket.Fresh (c : KcpConfig) (conv : UInt32) (stream : Bool) (now : Nat)
    (s : KcpSocket κ) : Prop where
  valid : c.validate = .ok (.ok ())
  kcp : ∃ output, KcpSocket.newKcp K c conv stream output now =
    .ok (s.kcp, s.firstSendChunkLen, .ok ())
  maxSendChunkLen : s.maxSendChunkLen = s.firstSendChunkLen * maxSendSegments
  fecDecoder : FecDecoder.newIfEnabled reedSolomon c = .ok (.ok s.fecDecoder)
  fields : s.lastUpdateMs = now ∧ s.sentFirst = false ∧ s.pendingSender = none ∧
    s.pendingReceiver = none ∧ s.closed = false ∧
    s.allowRecvEmptyPacket = c.allowRecvEmptyPacket ∧ s.flushAckInput = c.flushAcksInput

theorem KcpSocket.new_fresh {K : KcpCrate κ}
    {reedSolomon : Nat → Nat → Except String ReedSolomon} {c : KcpConfig} {conv : UInt32}
    {stream : Bool} {s : KcpSocket κ}
    (h : KcpSocket.new K reedSolomon c conv stream now = .ok (.ok s)) :
    s.Fresh K reedSolomon c conv stream now := by
  obtain ⟨valid, hvalid, h⟩ := bind_eq_ok.mp h
  cases valid with
  | error err => cases h
  | ok _ =>
    obtain ⟨out, _, h⟩ := bind_eq_ok.mp h
    cases out with
    | error err => cases h
    | ok pair =>
      obtain ⟨output, outputTask⟩ := pair
      obtain ⟨⟨kcp, len, result⟩, hkcp, h⟩ := bind_eq_ok.mp h
      cases result with
      | error err => cases h
      | ok _ =>
        obtain ⟨dec, hdec, h⟩ := bind_eq_ok.mp h
        cases dec with
        | error err => cases h
        | ok fecDecoder =>
          cases h
          exact ⟨hvalid, ⟨output, hkcp⟩, rfl, hdec, rfl, rfl, rfl, rfl, rfl, rfl, rfl⟩

theorem KcpSocket.Fresh.conv {K : KcpCrate κ} {c : KcpConfig} {conv : UInt32} {stream : Bool}
    {s : KcpSocket κ} {now : Nat} (h : s.Fresh K reedSolomon c conv stream now)
    (hK : K.ConvLaws) (hne : conv ≠ 0) :
    K.conv s.kcp = conv ∧ K.waitingConv s.kcp = false := by
  obtain ⟨output, hkcp⟩ := h.kcp
  have hnew : K.conv (if stream then K.newStream conv output else K.new conv output) = conv ∧
      K.waitingConv (if stream then K.newStream conv output else K.new conv output) = false := by
    split
    · exact hK.newStream conv output
    · exact hK.new conv output
  obtain ⟨k, hk, hkcp⟩ := bind_eq_ok.mp hkcp
  have hkeep := KcpConfig.applyConfig_keepsConv hK hk
  dsimp only at hkcp
  rw [if_neg hne] at hkcp
  have hlast : (K.update k (.ofNat now)).1 = s.kcp := congrArg Prod.fst (Except.ok.inj hkcp)
  obtain ⟨hc, hw⟩ := (hkeep.trans (hK.update k (.ofNat now))) hnew.2
  rw [hlast] at hc hw
  exact ⟨hc.trans hnew.1, hw⟩

theorem UdpOutput.new_returns {c : KcpConfig} (hc : c.Valid) :
    ∃ r, UdpOutput.new reedSolomon c = .ok r := by
  rw [UdpOutput.new]
  split
  · rename_i he
    obtain ⟨out, h⟩ := FecEncoder.new_returns (hc.shards he) reedSolomon
    rw [h, ok_bind]
    cases out with
    | error err => exact ⟨_, rfl⟩
    | ok encoder => exact ⟨_, rfl⟩
  · exact ⟨_, rfl⟩

theorem FecDecoder.newIfEnabled_returns {c : KcpConfig} (hc : c.Valid) :
    ∃ r, FecDecoder.newIfEnabled reedSolomon c = .ok r := by
  rw [FecDecoder.newIfEnabled]
  split
  · rename_i he
    obtain ⟨out, h⟩ := FecDecoder.new_returns (hc.shards he) reedSolomon
    rw [h, ok_bind]
    cases out with
    | error err => exact ⟨_, rfl⟩
    | ok decoder => exact ⟨_, rfl⟩
  · exact ⟨_, rfl⟩

theorem KcpSocket.newKcp_returns {K : KcpCrate κ} {c : KcpConfig}
    (hc : c.validate = .ok (.ok ())) (hK : K.AcceptsMtu) (conv : UInt32) (stream : Bool)
    (output : UdpOutput) (now : Nat) :
    ∃ r, KcpSocket.newKcp K c conv stream output now = .ok r := by
  obtain ⟨k, mtu, hk, -⟩ := KcpConfig.applyConfig_ok hc hK
    (if stream then K.newStream conv output else K.new conv output)
  rw [KcpSocket.newKcp, hk]
  exact ⟨_, rfl⟩

theorem KcpSocket.new_returns {K : KcpCrate κ} {c : KcpConfig}
    (hc : c.validate = .ok (.ok ())) (hK : K.AcceptsMtu) (conv : UInt32) (stream : Bool)
    (now : Nat) : ∃ r, KcpSocket.new K reedSolomon c conv stream now = .ok r := by
  have hvalid := KcpConfig.valid_of_validate hc
  obtain ⟨output, ho⟩ := UdpOutput.new_returns reedSolomon hvalid
  obtain ⟨decoder, hd⟩ := FecDecoder.newIfEnabled_returns reedSolomon hvalid
  rw [KcpSocket.new, hc, ok_bind]
  dsimp only
  rw [ho, ok_bind]
  cases output with
  | error err => exact ⟨_, rfl⟩
  | ok pair =>
    obtain ⟨⟨kcp, len, result⟩, hk⟩ := newKcp_returns hc hK conv stream pair.1 now
    dsimp only
    rw [hk, ok_bind]
    cases result with
    | error err => exact ⟨_, rfl⟩
    | ok _ =>
      dsimp only
      rw [hd, ok_bind]
      cases decoder with
      | error err => exact ⟨_, rfl⟩
      | ok decoder => exact ⟨_, rfl⟩

/-- A control block that the crate's operations lead to, those on the receive side only if
`receive` is set. -/
inductive KcpCrate.Driven (receive : Bool) : κ → κ → Prop where
  | refl : Driven receive k k
  | update : Driven receive k l → Driven receive k (K.update l now).1
  | send : Driven receive k l → Driven receive k (K.send l buf).1
  | flush : Driven receive k l → Driven receive k (K.flush l).1
  | flushAck : Driven receive k l → Driven receive k (K.flushAck l).1
  | input (hr : receive = true) : Driven receive k l → Driven receive k (K.input l buf).1
  | recv (hr : receive = true) : Driven receive k l → Driven receive k (K.recv l len).1

variable {K} {s t u : KcpSocket κ} {receive : Bool}

theorem KcpCrate.Driven.trans (h : K.Driven receive k l) (h' : K.Driven receive l m) :
    K.Driven receive k m := by
  induction h' with
  | refl => exact h
  | update _ ih => exact .update ih
  | send _ ih => exact .send ih
  | flush _ ih => exact .flush ih
  | flushAck _ ih => exact .flushAck ih
  | input hr _ ih => exact .input hr ih
  | recv hr _ ih => exact .recv hr ih

theorem KcpCrate.Driven.mono (h : K.Driven receive k l) : K.Driven true k l := by
  induction h with
  | refl => exact .refl
  | update _ ih => exact .update ih
  | send _ ih => exact .send ih
  | flush _ ih => exact .flush ih
  | flushAck _ ih => exact .flushAck ih
  | input _ _ ih => exact .input rfl ih
  | recv _ _ ih => exact .recv rfl ih

theorem KcpCrate.Driven.keepsConv (hK : K.ConvLaws) (h : K.Driven receive k l) :
    K.KeepsConv k l := by
  induction h with
  | refl => exact .refl K k
  | update _ ih => exact ih.trans (hK.update _ _)
  | send _ ih => exact ih.trans (hK.send _ _)
  | flush _ ih => exact ih.trans (hK.flush _)
  | flushAck _ ih => exact ih.trans (hK.flushAck _)
  | input _ _ ih => exact ih.trans (hK.input _ _)
  | recv _ _ ih => exact ih.trans (hK.recv _ _)

def KcpSocket.settings (self : KcpSocket κ) : Nat × Bool × Bool × Nat × Nat × Bool × UdpOutputTask :=
  (self.updateIntervalMs, self.flushWrite, self.flushAckInput, self.firstSendChunkLen,
    self.maxSendChunkLen, self.allowRecvEmptyPacket, self.outputTask)

theorem KcpSocket.allowRecvEmptyPacket_eq (h : t.settings = s.settings) :
    t.allowRecvEmptyPacket = s.allowRecvEmptyPacket :=
  congrArg (fun x => x.2.2.2.2.2.1) h

theorem KcpSocket.flushAckInput_eq (h : t.settings = s.settings) :
    t.flushAckInput = s.flushAckInput :=
  congrArg (fun x => x.2.2.1) h

/-- A call moves the control block by the crate's operations and leaves the settings. It
leaves the waiting receiver and the decoder unless `receive` is set. -/
structure KcpSocket.Moves (K : KcpCrate κ) (receive : Bool) (s t : KcpSocket κ) : Prop where
  kcp : K.Driven receive s.kcp t.kcp
  settings : t.settings = s.settings
  receiver : receive = false → t.pendingReceiver = s.pendingReceiver
  decoder : receive = false → t.fecDecoder = s.fecDecoder

theorem KcpSocket.Moves.refl (K : KcpCrate κ) (receive : Bool) (s : KcpSocket κ) :
    s.Moves K receive s := ⟨.refl, rfl, fun _ => rfl, fun _ => rfl⟩

theorem KcpSocket.Moves.trans (h : s.Moves K receive t) (h' : t.Moves K receive u) :
    s.Moves K receive u :=
  ⟨h.kcp.trans h'.kcp, h'.settings.trans h.settings,
    fun hr => (h'.receiver hr).trans (h.receiver hr),
    fun hr => (h'.decoder hr).trans (h.decoder hr)⟩

theorem KcpSocket.Moves.mono (h : s.Moves K receive t) : s.Moves K true t :=
  ⟨h.kcp.mono, h.settings, nofun, nofun⟩

theorem KcpSocket.tryWakePendingSender_eq (K : KcpCrate κ) (s : KcpSocket κ) :
    ∃ sender woken, (s.tryWakePendingSender K).1 =
      { s with pendingSender := sender, woken := woken } := by
  rw [KcpSocket.tryWakePendingSender]
  split
  · split
    · exact ⟨none, _, rfl⟩
    · exact ⟨s.pendingSender, s.woken, rfl⟩
  · exact ⟨s.pendingSender, s.woken, rfl⟩

theorem KcpSocket.tryWakePendingReceiver_eq (K : KcpCrate κ) (s : KcpSocket κ) :
    ∃ receiver woken, (s.tryWakePendingReceiver K).1 =
      { s with pendingReceiver := receiver, woken := woken } := by
  rw [KcpSocket.tryWakePendingReceiver]
  split
  · split
    · split
      · exact ⟨none, _, rfl⟩
      · exact ⟨s.pendingReceiver, s.woken, rfl⟩
    · exact ⟨s.pendingReceiver, s.woken, rfl⟩
  · exact ⟨s.pendingReceiver, s.woken, rfl⟩

theorem KcpSocket.tryWakePendingWaker_eq (K : KcpCrate κ) (s : KcpSocket κ) :
    ∃ sender receiver woken, (s.tryWakePendingWaker K).1 =
      { s with pendingSender := sender, pendingReceiver := receiver, woken := woken } := by
  obtain ⟨sender, _, hs⟩ := s.tryWakePendingSender_eq K
  obtain ⟨receiver, woken, hr⟩ := (s.tryWakePendingSender K).1.tryWakePendingReceiver_eq K
  rw [KcpSocket.tryWakePendingWaker]
  dsimp only
  rw [hr, hs]
  exact ⟨sender, receiver, woken, rfl⟩

theorem KcpSocket.flushIf_moves (K : KcpCrate κ) (s : KcpSocket κ) (condition : Bool) :
    s.Moves K false (s.flushIf K condition).1 := by
  rw [KcpSocket.flushIf]
  split
  · exact ⟨.flush .refl, rfl, fun _ => rfl, fun _ => rfl⟩
  · exact .refl K _ s

/-- How KCP takes a payload: whole, as one of another conversation, or with an error. -/
inductive Verdict where
  | accepted
  | ignored
  | refused

/-- KCP's part in the input of one payload, the flush of acknowledgements included. -/
def KcpCrate.judge (K : KcpCrate κ) (flushAck : Bool) (k : κ) (buf : Bytes) : κ × Verdict :=
  match K.input k buf with
  | (k, .error (.convInconsistent _ _)) => (k, .ignored)
  | (k, .error _) => (k, .refused)
  | (k, .ok _) =>
    if flushAck then
      match K.flushAck k with
      | (k, .error _) => (k, .refused)
      | (k, .ok ()) => (k, .accepted)
    else
      (k, .accepted)

/-- What the input leads to and every flush of acknowledgements keeps, a payload leads to. -/
theorem KcpCrate.judge_leads (K : KcpCrate κ) {P : κ → Prop} (hone : P (K.input k buf).1)
    (hack : ∀ k, P k → P (K.flushAck k).1) (flushAck : Bool) :
    P (K.judge flushAck k buf).1 := by
  rw [KcpCrate.judge]
  split
  · rename_i he
    rw [he] at hone
    exact hone
  · rename_i he
    rw [he] at hone
    exact hone
  · rename_i l _ he
    rw [he] at hone
    have hboth := hack l hone
    split
    · split
      · rename_i he'
        rw [he'] at hboth
        exact hboth
      · rename_i he'
        rw [he'] at hboth
        exact hboth
    · exact hone

/-- All that the input of one payload can do, by KCP's verdict on it. -/
theorem KcpSocket.inputKcp_cases (K : KcpCrate κ) (s : KcpSocket κ) (buf : Bytes) (now : Nat) :
    ∃ k, (K.judge s.flushAckInput s.kcp buf = (k, .ignored) ∧
        (∃ err, (K.input s.kcp buf).2 = .error err) ∧
        s.inputKcp K buf now = ({ s with kcp := k }, .ok false)) ∨
      (K.judge s.flushAckInput s.kcp buf = (k, .refused) ∧ ∃ last err,
        s.inputKcp K buf now = ({ s with kcp := k, lastUpdateMs := last }, .error err)) ∨
      (K.judge s.flushAckInput s.kcp buf = (k, .accepted) ∧ s.inputKcp K buf now =
        (({ s with kcp := k, lastUpdateMs := now }.tryWakePendingWaker K).1,
          .ok ({ s with kcp := k, lastUpdateMs := now }.tryWakePendingWaker K).2)) := by
  rcases hi : K.input s.kcp buf with ⟨k, err | n⟩
  · simp only [KcpSocket.inputKcp, KcpCrate.judge, hi]
    cases err with
    | convInconsistent expected actual => exact ⟨k, .inl ⟨rfl, ⟨_, rfl⟩, rfl⟩⟩
    | _ => exact ⟨k, .inr (.inl ⟨rfl, s.lastUpdateMs, _, rfl⟩)⟩
  · simp only [KcpSocket.inputKcp, KcpCrate.judge, hi, KcpSocket.flushAckIf]
    by_cases hf : s.flushAckInput = true
    · rcases hl : K.flushAck k with ⟨l, err | _⟩
      · simp only [if_pos hf, hl]
        exact ⟨l, .inr (.inl ⟨rfl, now, err, rfl⟩)⟩
      · simp only [if_pos hf, hl]
        exact ⟨l, .inr (.inr ⟨rfl, rfl⟩)⟩
    · simp only [if_neg hf]
      exact ⟨k, .inr (.inr ⟨rfl, rfl⟩)⟩

theorem KcpSocket.inputKcp_eq (K : KcpCrate κ) (s : KcpSocket κ) (buf : Bytes) (now : Nat) :
    ∃ kcp last sender receiver woken, K.Driven true s.kcp kcp ∧ (s.inputKcp K buf now).1 =
      { s with
        kcp := kcp, lastUpdateMs := last, pendingSender := sender, pendingReceiver := receiver
        woken := woken } := by
  have hk : K.Driven true s.kcp (K.judge s.flushAckInput s.kcp buf).1 :=
    K.judge_leads (P := K.Driven true s.kcp) (.input rfl .refl) (fun _ h => .flushAck h)
      s.flushAckInput
  rcases s.inputKcp_cases K buf now with ⟨k, ⟨hj, _, h⟩ | ⟨hj, last, err, h⟩ | ⟨hj, h⟩⟩
  · rw [hj] at hk
    rw [h]
    exact ⟨k, _, _, _, _, hk, rfl⟩
  · rw [hj] at hk
    rw [h]
    exact ⟨k, _, _, _, _, hk, rfl⟩
  · rw [hj] at hk
    rw [h]
    obtain ⟨sender, receiver, woken, hwake⟩ :=
      { s with kcp := k, lastUpdateMs := now }.tryWakePendingWaker_eq K
    exact ⟨k, now, sender, receiver, woken, hk, hwake⟩

theorem KcpSocket.inputKcp_moves (K : KcpCrate κ) (s : KcpSocket κ) (buf : Bytes) (now : Nat) :
    s.Moves K true (s.inputKcp K buf now).1 ∧
      (s.inputKcp K buf now).1.fecDecoder = s.fecDecoder := by
  obtain ⟨kcp, last, sender, receiver, woken, hk, h⟩ := s.inputKcp_eq K buf now
  rw [h]
  exact ⟨⟨hk, rfl, nofun, nofun⟩, rfl⟩

theorem KcpSocket.inputEach_moves (K : KcpCrate κ) (s : KcpSocket κ) (waked : Bool) (now : Nat)
    (bufs : List Bytes) : s.Moves K true (s.inputEach K waked now bufs).1 ∧
      (s.inputEach K waked now bufs).1.fecDecoder = s.fecDecoder := by
  induction bufs generalizing s waked with
  | nil => exact ⟨.refl K true s, rfl⟩
  | cons buf bufs ih =>
    obtain ⟨hm, hd⟩ := s.inputKcp_moves K buf now
    rw [KcpSocket.inputEach]
    split
    · rename_i he
      rw [he] at hm hd
      exact ⟨hm, hd⟩
    · rename_i self woke he
      rw [he] at hm hd
      obtain ⟨hm', hd'⟩ := ih self (waked || woke)
      exact ⟨hm.trans hm', hd'.trans hd⟩

theorem KcpSocket.inputFec_cases (h : s.inputFec K buf now = .ok (t, result)) :
    ∃ u, u = (s.inputEach K false now (dataPayload buf).toList).1 ∧
      ((t = u ∧ ∃ err, (s.inputEach K false now (dataPayload buf).toList).2 = .error err) ∨
      ∃ waked decoder decoder' out, (s.inputEach K false now (dataPayload buf).toList).2 = .ok waked ∧
        s.fecDecoder = some decoder ∧ decoder.decode buf = .ok (decoder', out) ∧
        ((t = { u with fecDecoder := some decoder' } ∧ ∃ err, out = .error err) ∨
        ∃ recovered, out = .ok recovered ∧
          t = ({ u with fecDecoder := some decoder' }.inputEach K waked now recovered).1)) := by
  obtain ⟨_, hd⟩ := s.inputEach_moves K false now (dataPayload buf).toList
  rw [KcpSocket.inputFec] at h
  rcases he : s.inputEach K false now (dataPayload buf).toList with ⟨u, err | waked⟩
  · rw [he] at h
    cases h
    exact ⟨t, rfl, .inl ⟨rfl, err, rfl⟩⟩
  · rw [he] at h hd
    dsimp only at h hd
    rw [hd] at h
    obtain ⟨decoder, hsome, h⟩ := bind_eq_ok.mp h
    obtain ⟨⟨decoder', out⟩, hdec, h⟩ := bind_eq_ok.mp h
    have hs : s.fecDecoder = some decoder := by
      cases ho : s.fecDecoder with
      | none =>
        rw [ho] at hsome
        cases hsome
      | some _ =>
        rw [ho] at hsome
        cases hsome
        rfl
    refine ⟨u, rfl, .inr ⟨waked, decoder, decoder', out, rfl, hs, hdec, ?_⟩⟩
    cases out with
    | error err =>
      cases h
      exact .inl ⟨rfl, err, rfl⟩
    | ok recovered =>
      exact .inr ⟨recovered, rfl, (congrArg Prod.fst (Except.ok.inj h)).symm⟩

theorem KcpSocket.input_moves (h : s.input K buf now = .ok (t, result)) :
    s.Moves K true t := by
  rw [KcpSocket.input] at h
  split at h
  · have hu := (s.inputEach_moves K false now (dataPayload buf).toList).1
    obtain ⟨u, rfl, ⟨rfl, _⟩ | ⟨waked, _, decoder, _, _, _, _, hout⟩⟩ := inputFec_cases h
    · exact hu
    · have hd : s.Moves K true { (s.inputEach K false now (dataPayload buf).toList).1 with
          fecDecoder := some decoder } :=
        ⟨hu.kcp, hu.settings, nofun, nofun⟩
      rcases hout with ⟨rfl, _⟩ | ⟨recovered, _, rfl⟩
      · exact hd
      · exact hd.trans (inputEach_moves K _ waked now recovered).1
  · have he : (s.inputKcp K buf now).1 = t := congrArg Prod.fst (Except.ok.inj h)
    rw [← he]
    exact (s.inputKcp_moves K buf now).1

theorem KcpSocket.sent_moves (K : KcpCrate κ) (s : KcpSocket κ) (n now : Nat) :
    s.Moves K false (s.sent K n now).1 := by
  have hs : s.Moves K false { s with sentFirst := true } := ⟨.refl, rfl, fun _ => rfl, fun _ => rfl⟩
  have hfull := hs.trans (flushIf_moves K _ (K.windowFull s.kcp))
  rw [KcpSocket.sent]
  dsimp only
  split
  · rename_i he
    rw [he] at hfull
    exact hfull
  · rename_i u he
    rw [he] at hfull
    have hu : u.Moves K false { u with lastUpdateMs := now } :=
      ⟨.refl, rfl, fun _ => rfl, fun _ => rfl⟩
    have hwrite := (hfull.trans hu).trans (flushIf_moves K _ u.flushWrite)
    split
    · rename_i he'
      rw [he'] at hwrite
      exact hwrite
    · rename_i he'
      rw [he'] at hwrite
      exact hwrite

theorem KcpSocket.pollSend_moves (K : KcpCrate κ) (s : KcpSocket κ) (waker : Waker)
    (buf : Bytes) (now : Nat) : s.Moves K false (s.pollSend K waker buf now).1 := by
  have hsend : K.Driven false s.kcp (K.send s.kcp (buf.take (s.maxSendLen K))).1 := .send .refl
  rw [KcpSocket.pollSend]
  split
  · exact .refl K _ s
  · split
    · exact ⟨.refl, rfl, fun _ => rfl, fun _ => rfl⟩
    · rcases he : K.send s.kcp (buf.take (s.maxSendLen K)) with ⟨kcp, err | n⟩
      · rw [he] at hsend
        exact ⟨hsend, rfl, fun _ => rfl, fun _ => rfl⟩
      · rw [he] at hsend
        have hs : s.Moves K false { s with kcp := kcp } := ⟨hsend, rfl, fun _ => rfl, fun _ => rfl⟩
        exact hs.trans (sent_moves K _ n now)

theorem KcpSocket.pollRecv_moves (K : KcpCrate κ) (s : KcpSocket κ) (waker : Waker)
    (len now : Nat) : s.Moves K true (s.pollRecv K waker len now).1 := by
  have hrecv : K.Driven true s.kcp (K.recv s.kcp len).1 := .recv rfl .refl
  rw [KcpSocket.pollRecv]
  split
  · exact .refl K _ s
  · dsimp only
    split
    · exact ⟨hrecv, rfl, nofun, nofun⟩
    · exact ⟨hrecv, rfl, nofun, nofun⟩
    · exact ⟨hrecv, rfl, nofun, nofun⟩
    · split
      · exact ⟨hrecv, rfl, nofun, nofun⟩
      · exact ⟨hrecv, rfl, nofun, nofun⟩

theorem KcpSocket.pollRecv_decoder (K : KcpCrate κ) (s : KcpSocket κ) (waker : Waker)
    (len now : Nat) : (s.pollRecv K waker len now).1.fecDecoder = s.fecDecoder := by
  rw [KcpSocket.pollRecv]
  split
  · rfl
  · dsimp only
    split
    · rfl
    · rfl
    · rfl
    · split
      · rfl
      · rfl

theorem KcpSocket.flush_moves (K : KcpCrate κ) (s : KcpSocket κ) (now : Nat) :
    s.Moves K false (s.flush K now).1 := by
  have hflush : K.Driven false s.kcp (K.flush s.kcp).1 := .flush .refl
  rw [KcpSocket.flush]
  split
  · rename_i he
    rw [he] at hflush
    exact ⟨hflush, rfl, fun _ => rfl, fun _ => rfl⟩
  · rename_i he
    rw [he] at hflush
    exact ⟨hflush, rfl, fun _ => rfl, fun _ => rfl⟩

theorem KcpSocket.updateAt_moves (K : KcpCrate κ) (s : KcpSocket κ) (nowMs : Nat) :
    s.Moves K false (s.updateAt K nowMs).1 := by
  have hupdate : K.Driven false s.kcp (K.update s.kcp (.ofNat nowMs)).1 := .update .refl
  rw [KcpSocket.updateAt]
  dsimp only
  split
  · rename_i he
    rw [he] at hupdate
    exact ⟨hupdate, rfl, fun _ => rfl, fun _ => rfl⟩
  · rename_i kcp he
    rw [he] at hupdate
    obtain ⟨sender, woken, h⟩ := { s with kcp := kcp }.tryWakePendingSender_eq K
    rw [h]
    exact ⟨hupdate, rfl, fun _ => rfl, fun _ => rfl⟩

theorem KcpSocket.Step.moves {c : SocketCall × Nat} (h : s.Step K c t) :
    s.Moves K true t := by
  obtain ⟨call, now⟩ := c
  cases call with
  | input buf =>
    obtain ⟨⟨u, result⟩, hu, he⟩ := bind_eq_ok.mp h
    cases he
    exact input_moves hu
  | pollSend waker buf =>
    cases h
    exact (s.pollSend_moves K waker buf now).mono
  | pollRecv waker len =>
    cases h
    exact s.pollRecv_moves K waker len now
  | updateAt =>
    cases h
    exact (s.updateAt_moves K now).mono
  | flush =>
    cases h
    exact (s.flush_moves K now).mono
  | close =>
    cases h
    exact ⟨.refl, rfl, nofun, nofun⟩

end TokioKcp
