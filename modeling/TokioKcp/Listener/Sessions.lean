import TokioKcp.Listener.Acts
import TokioKcp.Session.Decoders

namespace TokioKcp
set_option autoImplicit true

open Checked Fec Transition Population

variable {κ : Type}

/-- What can happen to a session of a listener. It does not read from the UDP socket, and a
stream does not give it input, update it or close its socket. -/
def SessionEvent.OfListener : SessionEvent → Prop
  | .call socketCall _ => ∃ c : StreamCall, socketCall = c.toSocket
  | .recv _ _ => False
  | _ => True

def KcpSession.Reaches (K : KcpCrate κ) (s t : KcpSession κ) : Prop :=
  Population.Reaches (KcpSession.Step K) SessionEvent.OfListener s t

def KcpSocket.Reaches (K : KcpCrate κ) (s t : KcpSocket κ) : Prop :=
  Population.Reaches (KcpSocket.Step K) (fun _ => True) s t

/-- Every session has come from its birth by its own steps. -/
def System.Descends (K : KcpCrate κ) (rs : Nat → Nat → Except String ReedSolomon)
    (config : KcpConfig) (s : System κ) : Prop :=
  Population.Descends (SessionBorn K rs config) (KcpSession.Reaches K) s.arena

variable {K : KcpCrate κ} {rs : Nat → Nat → Except String ReedSolomon} {config : KcpConfig}
variable {s t u : System κ}

theorem KcpSession.reaches_admits (K : KcpCrate κ) :
    KcpSession.Admits K (KcpSession.Reaches K) where
  refl s := .refl _ _ s
  trans _ _ _ h h' := Population.Reaches.trans h h'
  close s := by
    have hstep : s.Step K .close s.close := rfl
    exact .single hstep True.intro
  input s t packet h := by
    have hstep : s.Step K (.input packet) t := h
    exact .single hstep True.intro
  runIoTask s t now h := by
    have hstep : s.Step K (.runIoTask now) t := h
    exact .single hstep True.intro
  call s socket call now h := by
    have hstep : s.Step K (.call call.toSocket now) { s with socket := socket } :=
      ⟨socket, h, rfl⟩
    exact .single hstep ⟨call, rfl⟩
  tick s t nowMs deadlineMs notification h := by
    have hstep : s.Step K (.tick nowMs) t := by
      rw [KcpSession.Step, h]
    exact .single hstep True.intro

theorem System.new_descends (K : KcpCrate κ) (rs : Nat → Nat → Except String ReedSolomon)
    (config : KcpConfig) : (System.new : System κ).Descends K rs config := by
  intro session hs
  cases hs

/-- A step of the listener is, for each of its sessions, some steps of that session alone. -/
theorem System.Acts.descends {event : Event} (h : s.Acts K rs config event t)
    (hs : s.Descends K rs config) : t.Descends K rs config := by
  have hR := KcpSession.reaches_admits K
  have harena := h.arena hR
  rw [System.Descends]
  generalize t.arena = arena', t.scheduled = tasks' at harena ⊢
  cases harena with
  | kept h => exact hs.forall₂ hR.trans h
  | born hborn h => exact (hs.concat hR.refl hborn).forall₂ hR.trans h
  | @finalized session nowMs session' task id htask hget hp =>
    have hstep : session.Step K (.tick nowMs) session' := by
      rw [KcpSession.Step, hp]
    have hreaches : session.Reaches K session' := .single hstep True.intro
    exact hs.forall₂ hR.trans (forall₂_set hR.refl hget hreaches)

theorem System.run_descends {trace : List (System κ × Event)} (hW : K.wire.Laws)
    (h : Run (System.Step K rs config) .new trace s) : s.Descends K rs config :=
  (h.invariant (P := fun s => s.Descends K rs config)
    (fun _ _ _ hs hstep => (System.Step.acts hW hstep).descends hs) (new_descends K rs config)).2

theorem KcpSession.update_socket (K : KcpCrate κ) (s : KcpSession κ) (nowMs : Nat) :
    (s.update K nowMs).1.socket = (s.socket.updateAt K nowMs).1 := by
  rw [KcpSession.update]
  split
  · rename_i he
    rw [he]
  · rename_i he
    rw [he]
    split
    · rfl
    · rfl
  · rename_i he
    rw [he]

theorem KcpSession.driveUpdate_socket (K : KcpCrate κ) (s : KcpSession κ) (nowMs : Nat) :
    s.socket.Reaches K (s.driveUpdate K nowMs).1.socket := by
  rw [KcpSession.driveUpdate]
  split
  · exact .refl _ _ _
  · split
    · exact .refl _ _ _
    · rw [update_socket, closeInactive_socket]
      have hstep : s.socket.Step K (.updateAt, nowMs) (s.socket.updateAt K nowMs).1 := rfl
      exact .single hstep True.intro

theorem KcpSession.Step.socket {s t : KcpSession κ} {event : SessionEvent}
    (he : event.OfListener) (h : s.Step K event t) : s.socket.Reaches K t.socket := by
  cases event with
  | call call now =>
    obtain ⟨socket, hcall, rfl⟩ := h
    have hstep : s.socket.Step K (call, now) socket := hcall
    exact .single hstep True.intro
  | close =>
    cases h
    exact .refl _ _ _
  | input buf =>
    change s.input buf = _ at h
    rw [KcpSession.input] at h
    split at h
    · cases h
    · split at h
      · cases h
        exact .refl _ _ _
      · cases h
  | runIoTask now =>
    change s.runIoTask K now = _ at h
    rw [KcpSession.runIoTask] at h
    split at h
    · rename_i inputBuffer rest _ _
      obtain ⟨⟨socket, result⟩, hinput, h⟩ := bind_eq_ok.mp h
      cases h
      have hcall : s.socket.Step K (.input inputBuffer, now) socket :=
        bind_eq_ok.mpr ⟨(socket, result), hinput, rfl⟩
      exact .single hcall True.intro
    · cases h
      exact .refl _ _ _
  | recv recvResult now => exact he.elim
  | tick nowMs =>
    cases h
    have hdrive := s.driveUpdate_socket K nowMs
    rw [KcpSession.pollSchedulerTick]
    split
    · rename_i he
      rw [he] at hdrive
      exact hdrive
    · rename_i self he
      rw [he] at hdrive
      have hstep : self.socket.Step K (.close, nowMs) self.socket.close := rfl
      exact hdrive.trans (.single hstep True.intro)

theorem KcpSession.Reaches.socket {s t : KcpSession κ} (h : s.Reaches K t) :
    s.socket.Reaches K t.socket :=
  h.map KcpSession.socket fun _ _ _ ha hstep => hstep.socket ha

/-- However the steps of the listener's task, of the applications, of the scheduler and of the
I/O tasks interleave, each session is what its own machine makes of a new socket for its peer,
and this socket what its own calls make of it. -/
theorem listener_sessions {trace : List (System κ × Event)} (hW : K.wire.Laws)
    (hrun : Run (System.Step K rs config) .new trace s) :
    ∀ session ∈ s.arena, ∃ conv socket peer now, conv ≠ 0 ∧
      KcpSocket.new K rs config conv config.stream now = .ok (.ok socket) ∧
      session.sessionCloseNotifier = some peer ∧
      (∃ own, Run (KcpSession.Step K) (.new socket config.sessionExpire (some peer)) own session ∧
        ∀ x ∈ own, x.2.OfListener) ∧
      ∃ calls, Run (KcpSocket.Step K) socket calls session.socket := by
  intro session hs
  obtain ⟨_, ⟨conv, socket, peer, now, hne, hn, rfl⟩, hreaches⟩ :=
    System.run_descends hW hrun session hs
  obtain ⟨own, hown, hall⟩ := id hreaches
  obtain ⟨calls, hcalls, _⟩ := hreaches.socket
  have hnotifier : session.sessionCloseNotifier = some peer :=
    congrArg Prod.snd (KcpSession.run_expiry hown)
  exact ⟨conv, socket, peer, now, hne, hn, hnotifier, ⟨own, hown, hall⟩, calls, hcalls⟩

/-- A session that a segment opens, and that is given the segment. -/
theorem listener_sessions_small : ∃ trace s,
    trace.map Prod.snd = [.datagram (segment 7 81 0 [65]) ⟨[10, 0, 0, 1], 4000⟩ ⟨[9], rfl⟩ 0,
      .forward, .ioTask 0 1] ∧
    Run (System.Step smallKcp reedSolomon {}) .new trace s ∧ s.arena.length = 1 ∧
    ∀ session ∈ s.arena, ∃ conv socket peer now, conv ≠ 0 ∧
      KcpSocket.new smallKcp reedSolomon {} conv false now = .ok (.ok socket) ∧
      session.sessionCloseNotifier = some peer ∧
      (∃ own, Run (KcpSession.Step smallKcp)
          (.new socket ({} : KcpConfig).sessionExpire (some peer)) own session ∧
        ∀ x ∈ own, x.2.OfListener) ∧
      ∃ calls, Run (KcpSocket.Step smallKcp) socket calls session.socket := by
  have hreplay : ∃ trace s, replay (System.next? smallKcp reedSolomon {}) .new
      [.datagram (segment 7 81 0 [65]) ⟨[10, 0, 0, 1], 4000⟩ ⟨[9], rfl⟩ 0, .forward,
        .ioTask 0 1] = some (trace, s) ∧
      trace.map Prod.snd = [.datagram (segment 7 81 0 [65]) ⟨[10, 0, 0, 1], 4000⟩ ⟨[9], rfl⟩ 0,
        .forward, .ioTask 0 1] ∧ s.arena.length = 1 := ⟨_, _, rfl, rfl, rfl⟩
  obtain ⟨trace, s, hr, hevents, hlen⟩ := hreplay
  have hrun := run_of_replay (fun _ _ _ => System.step_of_next? smallKcp reedSolomon {}) hr
  exact ⟨trace, s, hevents, hrun, hlen, listener_sessions smallWire_laws hrun⟩

end TokioKcp
