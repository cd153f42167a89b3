import TokioKcp.Session
import TokioKcp.Lib.Runs

namespace TokioKcp
set_option autoImplicit true

open Checked Fec Transition

variable {κ : Type} (K : KcpCrate κ) (reedSolomon : Nat → Nat → Except String ReedSolomon)
variable (config : KcpConfig)

def acceptBacklog : Nat := 1024

/-- The values that the random number generator returns, one of which is not zero. -/
structure RandomDraws where
  draws : List UInt32
  some_ne_zero : (draws.find? (· ≠ 0)).isSome

/-- The code uses the address alone. The sender is known to proofs only. -/
structure CloseNotification where
  peer : SocketAddr
  sender : Nat
  deriving DecidableEq

structure ScheduledTask where
  session : Nat
  deadlineMs : Nat

/-- A listener with its sessions and all that refers to them. The sessions are numbered in the
order of their creation; `sessions` is the listener's table, `forwarding` the packet that the
listener waits to hand to a session, and `streams` the streams that were accepted. The accept
queue is closed once the application has dropped the listener. -/
structure System (κ : Type) where
  arena : List (KcpSession κ)
  sessions : FinMap SocketAddr Nat
  closeRx : List CloseNotification
  acceptRx : List (Nat × SocketAddr)
  acceptClosed : Bool
  forwarding : Option (Nat × Bytes)
  tasks : List ScheduledTask
  streams : List Nat

def System.new : System κ where
  arena := []
  sessions := ∅
  closeRx := []
  acceptRx := []
  acceptClosed := false
  forwarding := none
  tasks := []
  streams := []

def RandomDraws.allocConv (self : RandomDraws) : UInt32 :=
  (self.draws.find? (· ≠ 0)).get self.some_ne_zero

def System.modify (self : System κ) (id : Nat) (f : KcpSession κ → KcpSession κ) : System κ :=
  { self with arena := self.arena.modify id f }

/-- The table's handle of a session closes it when it is dropped. -/
def System.dropHandle (self : System κ) : Option Nat → System κ
  | some id => self.modify id KcpSession.close
  | none => self

def System.closePeer (self : System κ) (peerAddr : SocketAddr) : System κ :=
  { self.dropHandle (self.sessions.lookup peerAddr) with
    sessions := self.sessions.erase peerAddr }

def System.get (self : System κ) (peerAddr : SocketAddr) : Option (Nat × KcpSession κ) :=
  (self.sessions.lookup peerAddr).bind fun id => (self.arena[id]?).map (id, ·)

/-- A new session gets a number, and a task of the scheduler. -/
def System.newShared (self : System κ) (session : KcpSession κ) (now : Nat) : System κ :=
  { self with
    arena := self.arena ++ [session]
    tasks := self.tasks ++ [⟨self.arena.length, now⟩] }

def System.insert (self : System κ) (peerAddr : SocketAddr) (id : Nat) : System κ :=
  { self.dropHandle (self.sessions.lookup peerAddr) with
    sessions := self.sessions.insert peerAddr id }

def System.create (self : System κ) (conv : UInt32) (peerAddr : SocketAddr) (now : Nat) :
    Exec (System κ × KcpResult (Nat × KcpSession κ)) := do
  match ← KcpSocket.new K reedSolomon config conv config.stream now with
  | .error err => return (self, .error err)
  | .ok socket =>
    let session := KcpSession.new socket config.sessionExpire (some peerAddr)
    let id := self.arena.length
    return ((self.newShared session now).insert peerAddr id, .ok (id, session))

/-- The flag tells whether the session is a new one. -/
def System.getOrCreate (self : System κ) (conv sn : UInt32) (peerAddr : SocketAddr)
    (now : Nat) : Exec (System κ × KcpResult ((Nat × KcpSession κ) × Bool)) := do
  match self.get peerAddr with
  | some (id, session) =>
    if sn = 0 ∧ session.socket.conv K ≠ conv then
      -- This is the first packet received from this peer.
      -- Recreate a new session for this specific client.
      let (self, result) ← self.create K reedSolomon config conv peerAddr now
      return (self, result.map (·, true))
    else
      return (self, .ok ((id, session), false))
  | none =>
    let (self, result) ← self.create K reedSolomon config conv peerAddr now
    return (self, result.map (·, true))

/-- The KCP packet in a datagram, as a mutable slice of it. -/
def kcpPacket (packet : Bytes) : Exec (Bytes × Bytes) :=
  if config.fec.enabled && isDataPacket packet then unwrap (dataPayloadMut packet)
  else .ok ([], packet)

/-- The conversation and number of a datagram, and the datagram with the conversation that the
listener allocates for a client that has none. The result is `none` if it is too short. -/
def readHeader (packet : Bytes) (draws : RandomDraws) :
    Exec (Option (Bytes × UInt32 × UInt32)) := do
  let (front, kcpPacket) ← kcpPacket config packet
  if kcpPacket.length < kcpOverhead then
    return none
  let conv ← K.wire.getConv kcpPacket
  if conv = 0 then
    -- Allocate a conv for client.
    let conv := draws.allocConv
    let kcpPacket ← K.wire.setConv kcpPacket conv
    let sn ← K.wire.getSn kcpPacket
    return some (front ++ kcpPacket, conv, sn)
  else
    let sn ← K.wire.getSn kcpPacket
    return some (front ++ kcpPacket, conv, sn)

def System.acceptRoom (self : System κ) : Bool :=
  !self.acceptClosed && decide (self.acceptRx.length < acceptBacklog)

/-- A datagram is dropped, or the result names the session that it is handed to. -/
def System.handleDatagram (self : System κ) (packet : Bytes) (peerAddr : SocketAddr)
    (draws : RandomDraws) (now : Nat) : Exec (System κ × Option (Nat × Bytes)) := do
  if config.fec.enabled && isParityPacket packet then
    match self.get peerAddr with
    | some (id, _) => return (self, some (id, packet))
    | none => return (self, none)
  else
    match ← readHeader K config packet draws with
    | none => return (self, none)
    | some (packet, conv, sn) =>
      match ← self.getOrCreate K reedSolomon config conv sn peerAddr now with
      | (self, .error _) => return (self, none)
      | (self, .ok ((id, _), true)) =>
        if self.acceptRoom then
          return ({ self with acceptRx := self.acceptRx ++ [(id, peerAddr)] }, some (id, packet))
        else
          -- the stream goes with the failure to send it, and closes its session
          return ((self.modify id KcpSession.close).closePeer peerAddr, none)
      | (self, .ok ((id, session), false)) =>
        if session.socket.conv K ≠ conv then
          return (self, none)
        else
          return (self, some (id, packet))

/-- What a stream does to its socket. -/
inductive StreamCall where
  | pollSend (waker : Waker) (buf : Bytes)
  | pollRecv (waker : Waker) (len : Nat)
  | flush

def StreamCall.toSocket : StreamCall → SocketCall
  | .pollSend waker buf => .pollSend waker buf
  | .pollRecv waker len => .pollRecv waker len
  | .flush => .flush

/-- What may happen next: the listener's task receives a datagram, hands one on or receives a
notification; the application accepts a stream, uses or drops one, or drops the listener; the
scheduler polls a task; the I/O task of a session runs. -/
inductive Event where
  | datagram (packet : Bytes) (peerAddr : SocketAddr) (draws : RandomDraws) (now : Nat)
  | forward
  | closeNotification
  | accept
  | stream (id : Nat) (call : StreamCall) (now : Nat)
  | streamDrop (id : Nat)
  | listenerDrop
  | tick (task : Nat) (nowMs : Nat)
  | ioTask (id : Nat) (now : Nat)

/-- The listener hands the packet that it holds to the session, once there is room. -/
def System.forward (self : System κ) : Option (System κ) :=
  match self.forwarding with
  | none => none
  | some (id, packet) =>
    match self.arena[id]? with
    | none => none
    | some session =>
      match session.input packet with
      | .pending => none
      | .ready none => some { self with forwarding := none }
      | .ready (some session) =>
        some { self with arena := self.arena.set id session, forwarding := none }

def System.closeNotification (self : System κ) : Option (System κ) :=
  match self.forwarding, self.closeRx with
  | none, notification :: rest =>
    some ({ self with closeRx := rest }.closePeer notification.peer)
  | _, _ => none

def System.accept (self : System κ) : Option (System κ) :=
  match self.acceptRx with
  | [] => none
  | (id, _) :: rest => some { self with acceptRx := rest, streams := self.streams ++ [id] }

def System.stream (self : System κ) (id : Nat) (call : StreamCall) (now : Nat) :
    Exec (Option (System κ)) :=
  match self.arena[id]? with
  | some session =>
    if id ∈ self.streams then do
      let socket ← session.socket.call K now call.toSocket
      return some { self with arena := self.arena.set id { session with socket := socket } }
    else
      .ok none
  | none => .ok none

def System.streamDrop (self : System κ) (id : Nat) : Option (System κ) :=
  if id ∈ self.streams then
    some ({ self with streams := self.streams.erase id }.modify id KcpSession.close)
  else
    none

/-- The listener goes with the streams that nobody has accepted. Its loop runs on until the task
notices that it was aborted. -/
def System.listenerDrop (self : System κ) : Option (System κ) :=
  if self.acceptClosed then
    none
  else
    some ((self.acceptRx.map Prod.fst).foldl (fun self id => self.modify id KcpSession.close)
      { self with acceptRx := [], acceptClosed := true })

/-- The scheduler polls one task that is due. A session that is done with loses its task. -/
def System.tick (self : System κ) (task nowMs : Nat) : Option (System κ) :=
  match self.tasks[task]? with
  | none => none
  | some scheduled =>
    match self.arena[scheduled.session]? with
    | none => none
    | some session =>
      if scheduled.deadlineMs > nowMs then
        none
      else
        match session.pollSchedulerTick K nowMs with
        | (session, some deadlineMs, _) =>
          some { self with
            arena := self.arena.set scheduled.session session
            tasks := self.tasks.set task ⟨scheduled.session, deadlineMs⟩ }
        | (session, none, notification) =>
          some { self with
            arena := self.arena.set scheduled.session session
            tasks := self.tasks.eraseIdx task
            closeRx := self.closeRx ++
              notification.toList.map fun peer => ⟨peer, scheduled.session⟩ }

def System.ioTask (self : System κ) (id now : Nat) : Exec (Option (System κ)) :=
  match self.arena[id]? with
  | none => .ok none
  | some session => do
    let session ← session.runIoTask K now
    return some { self with arena := self.arena.set id session }

/-- The next state, or none when the event cannot happen now. -/
def System.next (self : System κ) : Event → Exec (Option (System κ))
  | .datagram packet peerAddr draws now =>
    match self.forwarding with
    | some _ => .ok none
    | none => do
      let (self, forwarding) ←
        self.handleDatagram K reedSolomon config packet peerAddr draws now
      return some { self with forwarding := forwarding }
  | .forward => .ok self.forward
  | .closeNotification => .ok self.closeNotification
  | .accept => .ok self.accept
  | .stream id call now => self.stream K id call now
  | .streamDrop id => .ok (self.streamDrop id)
  | .listenerDrop => .ok self.listenerDrop
  | .tick task nowMs => .ok (self.tick K task nowMs)
  | .ioTask id now => self.ioTask K id now

def System.Step (s : System κ) (event : Event) (t : System κ) : Prop :=
  s.next K reedSolomon config event = .ok (some t)

def System.next? (self : System κ) (event : Event) : Option (System κ) :=
  (self.next K reedSolomon config event).toOption.join

theorem System.step_of_next? {s t : System κ} {event : Event}
    (h : s.next? K reedSolomon config event = some t) : s.Step K reedSolomon config event t := by
  rw [System.next?] at h
  rw [System.Step]
  cases hn : s.next K reedSolomon config event with
  | error err =>
    rw [hn] at h
    cases h
  | ok next =>
    rw [hn] at h
    exact congrArg Except.ok h

end TokioKcp
