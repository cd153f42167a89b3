import TokioKcp.Session.ClientInput
import TokioKcp.Lib.Runs

namespace TokioKcp
set_option autoImplicit true

open Checked Fec Transition

variable {κ : Type} (K : KcpCrate κ)

/-- What happens to a session: a call on its socket by a stream, input from the listener or from
the network, a close, and a tick of the scheduler. -/
inductive SessionEvent where
  | call (call : SocketCall) (now : Nat)
  | close
  | input (buf : Bytes)
  | runIoTask (now : Nat)
  | recv (recvResult : IoResult Bytes) (now : Nat)
  | tick (nowMs : Nat)

def KcpSession.Step (s : KcpSession κ) : SessionEvent → KcpSession κ → Prop
  | .call call now, t => ∃ socket, s.socket.call K now call = .ok socket ∧
      t = { s with socket := socket }
  | .close, t => t = s.close
  | .input buf, t => s.input buf = .ready (some t)
  | .runIoTask now, t => s.runIoTask K now = .ok t
  | .recv recvResult now, t => s.recv K recvResult now = .ok t
  | .tick nowMs, t => t = (s.pollSchedulerTick K nowMs).1

def KcpSession.next? (self : KcpSession κ) : SessionEvent → Option (KcpSession κ)
  | .call call now =>
    (self.socket.call K now call).toOption.map fun socket => { self with socket := socket }
  | .close => some self.close
  | .input buf =>
    match self.input buf with
    | .ready next => next
    | .pending => none
  | .runIoTask now => (self.runIoTask K now).toOption
  | .recv recvResult now => (self.recv K recvResult now).toOption
  | .tick nowMs => some (self.pollSchedulerTick K nowMs).1

/-- The parts of a session that say when it expires, and whom this is told. -/
def KcpSession.expiry (self : KcpSession κ) : Nat × Option SocketAddr :=
  (self.sessionExpireMs, self.sessionCloseNotifier)

/-- The session was inactive for twice the time after which it is closed. -/
def KcpSession.Expired (self : KcpSession κ) (nowMs : Nat) : Prop :=
  self.sessionExpireMs ≠ 0 ∧
    saturatingMul 64 self.sessionExpireMs 2 < nowMs - self.socket.lastUpdateMs

/-- The next update fails since nobody takes the output. -/
def KcpSession.OutputClosed (self : KcpSession κ) (nowMs : Nat) : Prop :=
  ∃ err, (K.update self.socket.kcp (.ofNat nowMs)).2 = .error (.ioError err) ∧
    err.kind = .brokenPipe

/-- Nothing drives the session any more. -/
structure KcpSession.Finalized (self : KcpSession κ) : Prop where
  closed : self.closed = true
  socket : self.socket.closed = true
  ioTask : self.ioTask = false
  inputRx : self.inputRx = []

/-- A tick finalizes the session, for which it is the last. -/
def KcpSession.Reclaimed (self : KcpSession κ) (nowMs : Nat) : Prop :=
  ∃ t, self.pollSchedulerTick K nowMs = (t, none, self.sessionCloseNotifier) ∧ t.Finalized

variable {K} {s t : KcpSession κ}

theorem KcpSession.step_of_next? {event : SessionEvent} (h : s.next? K event = some t) :
    s.Step K event t := by
  cases event with
  | call call now =>
    obtain ⟨socket, hs, rfl⟩ := Option.map_eq_some_iff.mp h
    exact ⟨socket, eq_ok_of_toOption hs, rfl⟩
  | close => exact (Option.some.inj h).symm
  | input buf =>
    rw [KcpSession.next?] at h
    split at h
    · rename_i next hi
      rw [KcpSession.Step, hi, h]
    · cases h
  | runIoTask now => exact eq_ok_of_toOption h
  | recv recvResult now => exact eq_ok_of_toOption h
  | tick nowMs => exact (Option.some.inj h).symm

theorem KcpSession.recv_expiry (h : s.recv K recvResult now = .ok t) : t.expiry = s.expiry := by
  cases recvResult with
  | error err =>
    rw [KcpSession.recv] at h
    split at h
    · cases h
      rfl
    · cases h
      rfl
  | ok buf =>
    rw [KcpSession.recv] at h
    split at h
    · rcases recvDatagram_cases h with rfl | ⟨_, _, _, _, rfl⟩
      · rfl
      · rfl
    · cases h
      rfl

theorem KcpSession.closeInactive_expiry (s : KcpSession κ) (elapsedMs : Nat) :
    (s.closeInactive elapsedMs).expiry = s.expiry := by
  rw [KcpSession.closeInactive]
  split
  · rfl
  · rfl

theorem KcpSession.update_expiry (K : KcpCrate κ) (s : KcpSession κ) (nowMs : Nat) :
    (s.update K nowMs).1.expiry = s.expiry := by
  rw [s.update_keeps K nowMs]
  rfl

theorem KcpSession.driveUpdate_expiry (K : KcpCrate κ) (s : KcpSession κ) (nowMs : Nat) :
    (s.driveUpdate K nowMs).1.expiry = s.expiry := by
  rw [KcpSession.driveUpdate]
  split
  · rfl
  · split
    · rfl
    · exact (update_expiry K _ nowMs).trans (s.closeInactive_expiry _)

theorem KcpSession.pollSchedulerTick_expiry (K : KcpCrate κ) (s : KcpSession κ) (nowMs : Nat) :
    (s.pollSchedulerTick K nowMs).1.expiry = s.expiry := by
  have hdrive := s.driveUpdate_expiry K nowMs
  rw [KcpSession.pollSchedulerTick]
  split
  · rename_i he
    rw [he] at hdrive
    exact hdrive
  · rename_i he
    rw [he] at hdrive
    exact hdrive

theorem KcpSession.Step.expiry {event : SessionEvent} (h : s.Step K event t) :
    t.expiry = s.expiry := by
  cases event with
  | call call now =>
    obtain ⟨socket, _, rfl⟩ := h
    rfl
  | close =>
    cases h
    rfl
  | input buf =>
    change s.input buf = _ at h
    rw [KcpSession.input] at h
    split at h
    · cases h
    · split at h
      · cases h
        rfl
      · cases h
  | runIoTask now =>
    change s.runIoTask K now = _ at h
    rw [KcpSession.runIoTask] at h
    split at h
    · obtain ⟨⟨socket, result⟩, _, h⟩ := bind_eq_ok.mp h
      cases h
      rfl
    · cases h
      rfl
  | recv recvResult now => exact recv_expiry h
  | tick nowMs =>
    cases h
    exact s.pollSchedulerTick_expiry K nowMs

theorem KcpSession.run_expiry {trace : List (KcpSession κ × SessionEvent)}
    (h : Run (KcpSession.Step K) s trace t) : t.expiry = s.expiry := by
  induction h with
  | nil => rfl
  | cons hstep _ ih => exact ih.trans hstep.expiry

/-- A tick that finds nothing more to do finalizes the session. -/
theorem KcpSession.reclaimed_iff (K : KcpCrate κ) (s : KcpSession κ) (nowMs : Nat) :
    s.Reclaimed K nowMs ↔ (s.driveUpdate K nowMs).2 = none := by
  have hdrive := (s.driveUpdate_evolves K nowMs).notifier
  rw [KcpSession.Reclaimed, KcpSession.pollSchedulerTick]
  rcases he : s.driveUpdate K nowMs with ⟨self, _ | nextUpdateMs⟩
  · rw [he] at hdrive
    refine ⟨fun _ => rfl, fun _ => ⟨self.finalize.1, ?_, ⟨rfl, rfl, rfl, rfl⟩⟩⟩
    rw [← hdrive]
    rfl
  · constructor
    · rintro ⟨t, ht, _⟩
      cases ht
    · intro hnone
      cases hnone

theorem KcpSession.update_none_iff (K : KcpCrate κ) (s : KcpSession κ) (nowMs : Nat) :
    (s.update K nowMs).2 = none ↔ s.OutputClosed K nowMs := by
  rw [KcpSession.update, KcpSocket.updateAt, KcpSession.OutputClosed]
  rcases hupdate : K.update s.socket.kcp (.ofNat nowMs) with ⟨kcp, err | _⟩
  · dsimp only
    constructor
    · intro hnone
      cases err with
      | ioError err =>
        dsimp only at hnone
        split at hnone
        · rename_i hkind
          exact ⟨err, rfl, hkind⟩
        · cases hnone
      | _ => cases hnone
    · rintro ⟨err, he, hkind⟩
      cases he
      dsimp only
      rw [if_pos hkind]
  · dsimp only
    constructor
    · intro hnone
      cases hnone
    · rintro ⟨err, he, _⟩
      cases he

/-- Twice the expiry is not less than the expiry, as long as this is a machine word. -/
theorem KcpSession.Expired.inactive (h : s.Expired nowMs) (hword : s.sessionExpireMs < 2 ^ 64) :
    s.sessionExpireMs < nowMs - s.socket.lastUpdateMs := by
  apply Nat.lt_of_le_of_lt _ h.2
  apply Nat.le_min.mpr
  exact ⟨Nat.le_mul_of_pos_right _ (by decide), Nat.le_pred_of_lt hword⟩

theorem KcpSession.driveUpdate_none_iff (K : KcpCrate κ) (nowMs : Nat)
    (hword : s.sessionExpireMs < 2 ^ 64) : (s.driveUpdate K nowMs).2 = none ↔
      (s.closed = true ∧ K.waitSnd s.socket.kcp = 0) ∨ s.Expired nowMs ∨
        s.OutputClosed K nowMs := by
  rw [KcpSession.driveUpdate]
  by_cases hclose : (s.closed && s.socket.canClose K) = true
  · rw [if_pos hclose]
    obtain ⟨hclosed, hcan⟩ := Bool.and_eq_true_iff.mp hclose
    exact ⟨fun _ => .inl ⟨hclosed, of_decide_eq_true hcan⟩, fun _ => rfl⟩
  · rw [if_neg hclose]
    have hopen : ¬(s.closed = true ∧ K.waitSnd s.socket.kcp = 0) := by
      rintro ⟨hclosed, hcan⟩
      apply hclose
      rw [hclosed, KcpSocket.canClose, decide_eq_true hcan]
      rfl
    rw [or_iff_right hopen]
    by_cases hexpired : s.Expired nowMs
    · rw [if_pos ⟨hexpired.1, hexpired.inactive hword, hexpired.2⟩]
      exact ⟨fun _ => .inl hexpired, fun _ => rfl⟩
    · have hactive : ¬(s.sessionExpireMs ≠ 0 ∧
          nowMs - s.socket.lastUpdateMs > s.sessionExpireMs ∧
          nowMs - s.socket.lastUpdateMs > saturatingMul 64 s.sessionExpireMs 2) :=
        fun h => hexpired ⟨h.1, h.2.2⟩
      rw [if_neg hactive, or_iff_right hexpired, update_none_iff, KcpSession.OutputClosed,
        KcpSession.OutputClosed, closeInactive_socket]

theorem KcpSession.new_expireMs_lt (socket : KcpSocket κ) (sessionExpire : Option Nat)
    (sessionCloseNotifier : Option SocketAddr) :
    (KcpSession.new socket sessionExpire sessionCloseNotifier).sessionExpireMs < 2 ^ 64 := by
  rw [KcpSession.new]
  dsimp only
  split
  · cases sessionExpire with
    | none => exact Nat.two_pow_pos 64
    | some expire => exact Nat.mod_lt _ (Nat.two_pow_pos 64)
  · exact Nat.two_pow_pos 64

/-- A session of a listener that can expire is finalized once it was inactive for longer than
twice its expiry. Any session that was closed is finalized just if it has nothing left that is
not acknowledged, if it has expired or if its output is closed, and the sessions of clients and
those without an expiry never expire. -/
theorem closed_session_reclaimed {trace : List (KcpSession κ × SessionEvent)}
    (hrun : Run (KcpSession.Step K) (.new socket sessionExpire sessionCloseNotifier) trace s)
    (nowMs : Nat) :
    (∀ expire peer, sessionExpire = some expire → sessionCloseNotifier = some peer →
      cast 64 (expire / 1000000) ≠ 0 →
      saturatingMul 64 (cast 64 (expire / 1000000)) 2 < nowMs - s.socket.lastUpdateMs →
      s.Reclaimed K nowMs) ∧
    (s.closed = true → (s.Reclaimed K nowMs ↔
      K.waitSnd s.socket.kcp = 0 ∨ s.Expired nowMs ∨ s.OutputClosed K nowMs)) ∧
    (sessionCloseNotifier = none ∨ sessionExpire = none → ¬s.Expired nowMs) := by
  have hexpire : s.sessionExpireMs =
      (KcpSession.new socket sessionExpire sessionCloseNotifier).sessionExpireMs :=
    congrArg Prod.fst (KcpSession.run_expiry hrun)
  have hword := KcpSession.new_expireMs_lt socket sessionExpire sessionCloseNotifier
  rw [← hexpire] at hword
  rw [s.reclaimed_iff, KcpSession.driveUpdate_none_iff K nowMs hword]
  refine ⟨?_, ?_, ?_⟩
  · rintro expire peer rfl rfl hne hlate
    have hms : s.sessionExpireMs = cast 64 (expire / 1000000) := hexpire
    apply Or.inr
    apply Or.inl
    rw [KcpSession.Expired, hms]
    exact ⟨hne, hlate⟩
  · intro hclosed
    rw [and_iff_right hclosed]
  · rintro hnever ⟨hne, _⟩
    apply hne
    rw [hexpire]
    rcases hnever with rfl | rfl
    · rfl
    · cases sessionCloseNotifier with
      | none => rfl
      | some peer => rfl

/-- A session with a segment that nobody acknowledges, and closed after that. -/
def KcpSession.unacknowledged (self : KcpSession SmallKcp) : KcpSession SmallKcp :=
  { self with socket := (smallSocket.pollSend smallKcp 5 [65] 0).1, closed := true }

theorem KcpSession.unacknowledged_run (sessionExpire : Option Nat)
    (sessionCloseNotifier : Option SocketAddr) : ∃ trace,
    trace.map Prod.snd = [.call (.pollSend 5 [65]) 0, .close] ∧
    Run (KcpSession.Step smallKcp) (.new smallSocket sessionExpire sessionCloseNotifier) trace
      (KcpSession.new smallSocket sessionExpire sessionCloseNotifier).unacknowledged := by
  let s : KcpSession SmallKcp := .new smallSocket sessionExpire sessionCloseNotifier
  let t : KcpSession SmallKcp :=
    { s with socket := (smallSocket.pollSend smallKcp 5 [65] 0).1 }
  exact ⟨[(s, .call (.pollSend 5 [65]) 0), (t, .close)], rfl, .cons ⟨_, rfl, rfl⟩ (.cons rfl .nil)⟩

/-- A listener's session with an expiry of one whole millisecond. -/
theorem closed_session_reclaimed_small :
    let s := (KcpSession.new smallSocket (some 1999999) (some ⟨[10, 0, 0, 1], 4000⟩)).unacknowledged
    smallKcp.waitSnd s.socket.kcp = 1 ∧ ¬s.Reclaimed smallKcp 2 ∧ s.Reclaimed smallKcp 3 := by
  intro s
  obtain ⟨trace, _, hrun⟩ :=
    KcpSession.unacknowledged_run (some 1999999) (some ⟨[10, 0, 0, 1], 4000⟩)
  obtain ⟨_, hiff, _⟩ := closed_session_reclaimed hrun 2
  obtain ⟨hbound, _, _⟩ := closed_session_reclaimed hrun 3
  refine ⟨rfl, ?_, hbound 1999999 _ rfl rfl (by decide) (by decide)⟩
  rw [hiff rfl]
  rintro (hwait | hexpired | ⟨err, herr, _⟩)
  · exact absurd hwait (by decide)
  · exact absurd hexpired.2 (by decide)
  · cases herr

/-- A client with the default configuration is not finalized, however long it was inactive. -/
theorem closed_client_kept : ∃ trace s,
    trace.map Prod.snd = [.call (.pollSend 5 [65]) 0, .close] ∧
    Run (KcpSession.Step smallKcp) (.new smallSocket ({} : KcpConfig).sessionExpire none)
      trace s ∧
    s.closed = true ∧ smallKcp.waitSnd s.socket.kcp = 1 ∧
    (∀ nowMs, ¬s.Reclaimed smallKcp nowMs) ∧
    ∀ bound, ∃ nowMs, bound < nowMs - s.socket.lastUpdateMs := by
  obtain ⟨trace, hevents, hrun⟩ :=
    KcpSession.unacknowledged_run ({} : KcpConfig).sessionExpire none
  refine ⟨trace, _, hevents, hrun, rfl, rfl, ?_, fun bound => ⟨bound + 1, Nat.lt_succ_self _⟩⟩
  intro nowMs hreclaimed
  have hnone := (KcpSession.reclaimed_iff smallKcp _ nowMs).mp hreclaimed
  cases hnone

end TokioKcp
