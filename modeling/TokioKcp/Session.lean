import TokioKcp.Socket

namespace TokioKcp
set_option autoImplicit true

open Checked

variable {κ : Type} (K : KcpCrate κ)

structure SocketAddr where
  ip : Bytes
  port : UInt16
  deriving DecidableEq

def inputBacklog : Nat := 64

/-- `inputRx` is what waits in the channel to the I/O task, and `ioTask` tells whether that task
runs. A session of a listener has a notifier, with the address of its peer. -/
structure KcpSession (κ : Type) where
  socket : KcpSocket κ
  closed : Bool
  sessionExpireMs : Nat
  sessionCloseNotifier : Option SocketAddr
  inputRx : List Bytes
  ioTask : Bool

/-- `sessionExpire` counts nanoseconds. -/
def KcpSession.new (socket : KcpSocket κ) (sessionExpire : Option Nat)
    (sessionCloseNotifier : Option SocketAddr) : KcpSession κ where
  socket := socket
  closed := false
  sessionExpireMs :=
    if sessionCloseNotifier.isSome then
      (sessionExpire.map fun expire => cast 64 (expire / 1000000)).getD 0
    else
      0
  sessionCloseNotifier := sessionCloseNotifier
  inputRx := []
  ioTask := true

def KcpSession.close (self : KcpSession κ) : KcpSession κ := { self with closed := true }

/-- Sending to the I/O task waits for room in the channel and fails once the task is gone. -/
def KcpSession.input (self : KcpSession κ) (buf : Bytes) : Poll (Option (KcpSession κ)) :=
  if !self.ioTask then
    .ready none
  else if self.inputRx.length < inputBacklog then
    .ready (some { self with inputRx := self.inputRx ++ [buf] })
  else
    .pending

/-- The I/O task of a listener's session takes what comes next out of the channel. -/
def KcpSession.runIoTask (self : KcpSession κ) (now : Nat) : Exec (KcpSession κ) :=
  match self.ioTask, self.inputRx with
  | true, inputBuffer :: rest => do
    let (socket, _) ← self.socket.input K inputBuffer now
    return { self with socket := socket, inputRx := rest }
  | _, _ => .ok self

def KcpSession.closeInactive (self : KcpSession κ) (elapsedMs : Nat) : KcpSession κ :=
  if self.sessionExpireMs ≠ 0 ∧ elapsedMs > self.sessionExpireMs ∧ !self.closed then
    { self with closed := true }
  else
    self

def KcpSession.update (self : KcpSession κ) (nowMs : Nat) : KcpSession κ × Option Nat :=
  match self.socket.updateAt K nowMs with
  | (socket, .ok nextDelay) =>
    ({ self with socket := socket }, some (saturatingAdd 64 nowMs nextDelay))
  | (socket, .error (.ioError err)) =>
    if err.kind = .brokenPipe then ({ self with socket := socket }, none)
    else ({ self with socket := socket }, some (saturatingAdd 64 nowMs 10))
  | (socket, .error _) =>
    ({ self with socket := socket }, some (saturatingAdd 64 nowMs 10))

/-- A result of `none` means that the session is to be finalized. -/
def KcpSession.driveUpdate (self : KcpSession κ) (nowMs : Nat) : KcpSession κ × Option Nat :=
  let expireMs := self.sessionExpireMs
  let elapsedMs := nowMs - self.socket.lastUpdateMs
  if self.closed && self.socket.canClose K then
    (self, none)
  else if expireMs ≠ 0 ∧ elapsedMs > expireMs ∧ elapsedMs > saturatingMul 64 expireMs 2 then
    (self, none)
  else
    (self.closeInactive elapsedMs).update K nowMs

/-- The second part is the notification that is sent. -/
def KcpSession.finalize (self : KcpSession κ) : KcpSession κ × Option SocketAddr :=
  ({ self with
    socket := self.socket.close, ioTask := false, inputRx := [], closed := true },
    self.sessionCloseNotifier)

/-- The deadline of the next poll, or none and the notification sent. -/
def KcpSession.pollSchedulerTick (self : KcpSession κ) (nowMs : Nat) :
    KcpSession κ × Option Nat × Option SocketAddr :=
  match self.driveUpdate K nowMs with
  | (self, some nextUpdateMs) => (self, some nextUpdateMs, none)
  | (self, none) =>
    let (self, notification) := self.finalize
    (self, none, notification)

variable {K} {s t u : KcpSession κ}

/-- What may happen to a session: its socket moves, and it can only be closed. -/
structure KcpSession.Evolves (K : KcpCrate κ) (s t : KcpSession κ) : Prop where
  socket : s.socket.Moves K true t.socket
  closed : s.closed = true → t.closed = true
  notifier : t.sessionCloseNotifier = s.sessionCloseNotifier

theorem KcpSession.Evolves.refl (K : KcpCrate κ) (s : KcpSession κ) : s.Evolves K s :=
  ⟨.refl K true _, id, rfl⟩

theorem KcpSession.Evolves.trans (h : s.Evolves K t) (h' : t.Evolves K u) : s.Evolves K u :=
  ⟨h.socket.trans h'.socket, fun hc => h'.closed (h.closed hc), h'.notifier.trans h.notifier⟩

theorem KcpSession.close_evolves (K : KcpCrate κ) (s : KcpSession κ) : s.Evolves K s.close :=
  ⟨.refl K true _, fun _ => rfl, rfl⟩

theorem KcpSession.runIoTask_evolves (h : s.runIoTask K now = .ok t) : s.Evolves K t := by
  rw [KcpSession.runIoTask] at h
  split at h
  · obtain ⟨⟨socket, result⟩, hi, h⟩ := bind_eq_ok.mp h
    cases h
    exact ⟨KcpSocket.input_moves hi, id, rfl⟩
  · cases h
    exact .refl K s

theorem KcpSession.closeInactive_evolves (K : KcpCrate κ) (s : KcpSession κ)
    (elapsedMs : Nat) : s.Evolves K (s.closeInactive elapsedMs) := by
  rw [KcpSession.closeInactive]
  split
  · exact s.close_evolves K
  · exact .refl K s

theorem KcpSession.update_moves (K : KcpCrate κ) (s : KcpSession κ) (nowMs : Nat) :
    s.socket.Moves K false (s.update K nowMs).1.socket := by
  have hupdate := s.socket.updateAt_moves K nowMs
  rw [KcpSession.update]
  split
  · rename_i he
    rw [he] at hupdate
    exact hupdate
  · rename_i he
    rw [he] at hupdate
    split
    · exact hupdate
    · exact hupdate
  · rename_i he
    rw [he] at hupdate
    exact hupdate

theorem KcpSession.update_keeps (K : KcpCrate κ) (s : KcpSession κ) (nowMs : Nat) :
    (s.update K nowMs).1 = { s with socket := (s.update K nowMs).1.socket } := by
  rw [KcpSession.update]
  split
  · rfl
  · split
    · rfl
    · rfl
  · rfl

theorem KcpSession.update_evolves (K : KcpCrate κ) (s : KcpSession κ) (nowMs : Nat) :
    s.Evolves K (s.update K nowMs).1 := by
  have hmoves := s.update_moves K nowMs
  rw [s.update_keeps K nowMs]
  exact ⟨hmoves.mono, id, rfl⟩

theorem KcpSession.closeInactive_socket (s : KcpSession κ) (elapsedMs : Nat) :
    (s.closeInactive elapsedMs).socket = s.socket := by
  rw [KcpSession.closeInactive]
  split
  · rfl
  · rfl

theorem KcpSession.driveUpdate_moves (K : KcpCrate κ) (s : KcpSession κ) (nowMs : Nat) :
    s.socket.Moves K false (s.driveUpdate K nowMs).1.socket := by
  rw [KcpSession.driveUpdate]
  split
  · exact .refl K false _
  · split
    · exact .refl K false _
    · have hmoves := update_moves K (s.closeInactive (nowMs - s.socket.lastUpdateMs)) nowMs
      rw [closeInactive_socket] at hmoves
      exact hmoves

theorem KcpSession.driveUpdate_evolves (K : KcpCrate κ) (s : KcpSession κ) (nowMs : Nat) :
    s.Evolves K (s.driveUpdate K nowMs).1 := by
  rw [KcpSession.driveUpdate]
  split
  · exact .refl K s
  · split
    · exact .refl K s
    · exact (s.closeInactive_evolves K _).trans (update_evolves K _ nowMs)

theorem KcpSession.pollSchedulerTick_evolves (K : KcpCrate κ) (s : KcpSession κ)
    (nowMs : Nat) : s.Evolves K (s.pollSchedulerTick K nowMs).1 := by
  have hdrive := s.driveUpdate_evolves K nowMs
  rw [KcpSession.pollSchedulerTick]
  split
  · rename_i he
    rw [he] at hdrive
    exact hdrive
  · rename_i self he
    rw [he] at hdrive
    exact hdrive.trans ⟨⟨.refl, rfl, nofun, nofun⟩, fun _ => rfl, rfl⟩

/-- A session that is finalized tells its listener, and one that goes on tells nobody. -/
theorem KcpSession.pollSchedulerTick_notification {next : Option Nat}
    {notification : Option SocketAddr}
    (h : s.pollSchedulerTick K nowMs = (t, next, notification)) :
    notification = if next.isSome then none else s.sessionCloseNotifier := by
  have hdrive := (s.driveUpdate_evolves K nowMs).notifier
  rw [KcpSession.pollSchedulerTick] at h
  split at h
  · cases h
    rfl
  · rename_i self he
    rw [he] at hdrive
    cases h
    exact hdrive

end TokioKcp
