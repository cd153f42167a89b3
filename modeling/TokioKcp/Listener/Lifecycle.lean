import TokioKcp.Listener.Sessions
import TokioKcp.Listener.Notifications
import TokioKcp.Socket.Calls
import Mathlib.Data.List.Perm.Basic

namespace TokioKcp
set_option autoImplicit true

open Checked Fec Transition Population

variable {κ : Type}

def System.receives (s : System κ) : Event → List CloseNotification
  | .closeNotification => s.closeRx.take 1
  | _ => []

def received (trace : List (System κ × Event)) : List CloseNotification :=
  trace.flatMap fun x => x.1.receives x.2

/-- Every session is in one place: the scheduler has one task for it, or the one notification of
its end is under way or was received. -/
def System.Placed (s : System κ) (got : List CloseNotification) : Prop :=
  (s.scheduled ++ (got ++ s.closeRx).map CloseNotification.sender).Perm
    (List.range s.arena.length)

/-- The scheduler has no task for a session whose socket is closed, and one for any other. -/
def System.Tended (s : System κ) : Prop :=
  ∀ (id : Nat) session, s.arena[id]? = some session →
    (session.socket.closed = true ↔ id ∉ s.scheduled)

/-- What a listener keeps, with the notifications that it has received. -/
structure System.Attended (s : System κ) (got : List CloseNotification) : Prop where
  accounted : s.Accounted
  placed : s.Placed got
  told : ∀ n ∈ got, s.peerOf n.sender = some n.peer
  tended : s.Tended

/-- What is known of a session on its own: it goes on until it is finalized. -/
structure KcpSession.Sane (s : KcpSession κ) : Prop where
  finalized : s.socket.closed = true ∨ s.ioTask = false → s.Finalized
  inputRx : s.inputRx.length ≤ inputBacklog

/-- What happens to a session that is not finalized. -/
structure KcpSession.Lives (s t : KcpSession κ) : Prop where
  socket : t.socket.closed = s.socket.closed
  closed : s.closed = true → t.closed = true
  notifier : t.sessionCloseNotifier = s.sessionCloseNotifier

variable {K : KcpCrate κ} {rs : Nat → Nat → Except String ReedSolomon} {config : KcpConfig}
variable {s t u : System κ} {event : Event} {got : List CloseNotification}

theorem System.Effect.placed_quiet (h : s.Placed got) (hq : s.Quiet K t) : t.Placed got := by
  rw [System.Placed, System.scheduled, hq.tasks, hq.closeRx, hq.length]
  exact h

theorem perm_eraseIdx {xs : List Nat} {i x : Nat} (h : xs[i]? = some x) :
    xs.Perm (x :: xs.eraseIdx i) := by
  obtain ⟨hlt, rfl⟩ := List.getElem?_eq_some_iff.mp h
  exact (List.getElem_cons_eraseIdx_perm hlt).symm

theorem System.Step.placed (hW : K.wire.Laws) (ha : s.Accounted) (h : s.Step K rs config event t)
    (hp : s.Placed got) : t.Placed (got ++ s.receives event) := by
  by_cases hn : event = .closeNotification
  · subst hn
    cases System.Step.acts hW h with
    | @notified notification rest hf hc =>
      obtain ⟨_, hclose, htasks, hlen⟩ := @System.notified_frame _ s _ notification rest rfl
      rw [System.Placed, System.scheduled, htasks, hclose, hlen, System.receives, hc,
        List.append_assoc]
      rw [System.Placed, hc] at hp
      exact hp
  · have hnone : s.receives event = [] := by
      cases event with
      | closeNotification => exact absurd rfl hn
      | _ => rfl
    rw [hnone, List.append_nil]
    cases System.Step.effect hW h with
    | quiet hq => exact System.Effect.placed_quiet hp hq
    | opened hb ho hnew hopen =>
      rw [System.Placed, System.scheduled, hopen.tasks, hopen.closeRx, hopen.length,
        List.range_succ, List.append_assoc, List.singleton_append]
      exact List.perm_middle.trans ((hp.cons _).trans (List.perm_append_singleton _ _).symm)
    | @finalized task scheduled session _ _ hfin =>
      obtain ⟨peer, hpeer⟩ : ∃ peer, session.sessionCloseNotifier = some peer := by
        rw [← hfin.peerOf_scheduled]
        exact ha.peers _ (List.getElem?_eq_some_iff.mp hfin.session_eq).1
      have hplace : s.scheduled[task]? = some scheduled.session := by
        rw [System.scheduled, List.getElem?_map, hfin.task_eq, Option.map_some]
      have hscheduled : t.scheduled = s.scheduled.eraseIdx task := by
        rw [System.scheduled, hfin.tasks]
        exact (List.eraseIdx_map _ _ _).symm
      rw [System.Placed, hscheduled, hfin.closeRx, hfin.length, hpeer, ← List.append_assoc,
        List.map_append, ← List.append_assoc]
      have hmove := (perm_eraseIdx hplace).append_right
        ((got ++ s.closeRx).map CloseNotification.sender)
      exact ((List.perm_append_singleton _ _).trans hmove.symm).trans hp
    | notified hc ht => exact absurd rfl hn

theorem System.new_placed : (System.new : System κ).Placed [] := .refl _

theorem System.Placed.nodup (h : s.Placed got) : s.scheduled.Nodup :=
  (List.nodup_append.mp (h.nodup_iff.mpr List.nodup_range)).1

theorem KcpSocket.Step.closed_eq {s t : KcpSocket κ} {call : SocketCall × Nat}
    (h : s.Step K call t) (hne : call.1 ≠ .close) : t.closed = s.closed := by
  obtain ⟨call, now⟩ := call
  have hiff := h.closed_iff
  rw [or_iff_left hne] at hiff
  exact Bool.eq_iff_iff.mpr hiff

theorem StreamCall.toSocket_ne_close (call : StreamCall) : call.toSocket ≠ .close := by
  cases call <;> nofun

theorem KcpSession.driveUpdate_closed (K : KcpCrate κ) (s : KcpSession κ) (nowMs : Nat) :
    (s.driveUpdate K nowMs).1.socket.closed = s.socket.closed := by
  have hupdate (u : KcpSession κ) : (u.update K nowMs).1.socket.closed = u.socket.closed := by
    have hphase := congrArg Prod.snd (u.socket.updateAt_phase K nowMs)
    rw [KcpSession.update]
    split
    · rename_i he
      rw [he] at hphase
      exact hphase
    · rename_i he
      rw [he] at hphase
      split
      · exact hphase
      · exact hphase
    · rename_i he
      rw [he] at hphase
      exact hphase
  rw [KcpSession.driveUpdate]
  split
  · rfl
  · split
    · rfl
    · rw [hupdate, closeInactive_socket]

theorem KcpSession.lives_admits (K : KcpCrate κ) :
    KcpSession.Admits K KcpSession.Lives where
  refl s := ⟨rfl, id, rfl⟩
  trans s t u h h' := ⟨h'.socket.trans h.socket, fun hc => h'.closed (h.closed hc),
    h'.notifier.trans h.notifier⟩
  close s := ⟨rfl, fun _ => rfl, rfl⟩
  input s t packet h := by
    rw [KcpSession.input] at h
    split at h
    · cases h
    · split at h
      · cases h
        exact ⟨rfl, id, rfl⟩
      · cases h
  runIoTask s t now h := by
    have he := KcpSession.runIoTask_evolves h
    refine ⟨?_, he.closed, he.notifier⟩
    rw [KcpSession.runIoTask] at h
    split at h
    · obtain ⟨⟨socket, result⟩, hi, h⟩ := bind_eq_ok.mp h
      cases h
      exact congrArg Prod.snd (KcpSocket.input_phase hi)
    · cases h
      rfl
  call s socket call now h := ⟨h.closed_eq call.toSocket_ne_close, id, rfl⟩
  tick s t nowMs deadlineMs notification h := by
    have he := s.driveUpdate_evolves K nowMs
    have hc := s.driveUpdate_closed K nowMs
    rw [KcpSession.pollSchedulerTick] at h
    split at h
    · rename_i hd
      rw [hd] at he hc
      cases h
      exact ⟨hc, he.closed, he.notifier⟩
    · cases h

theorem KcpSession.pollSchedulerTick_finalized {s t : KcpSession κ} {nowMs : Nat}
    {notification : Option SocketAddr}
    (h : s.pollSchedulerTick K nowMs = (t, none, notification)) : t.Finalized := by
  rw [KcpSession.pollSchedulerTick] at h
  split at h
  · cases h
  · cases h
    exact ⟨rfl, rfl, rfl, rfl⟩

theorem SessionBorn.closed {session : KcpSession κ} (h : SessionBorn K rs config session) :
    session.socket.closed = false := by
  obtain ⟨conv, socket, peer, now, _, hn, rfl⟩ := h
  exact (KcpSocket.new_fresh hn).fields.2.2.2.2.1

theorem System.Acts.tended (h : s.Acts K rs config event t) (hp : s.Placed got)
    (hs : s.Tended) : t.Tended := by
  have hlt {id : Nat} (hid : id ∈ s.scheduled) : id < s.arena.length :=
    List.mem_range.mp (hp.subset (List.mem_append_left _ hid))
  have hnodup := hp.nodup
  have harena := h.arena (KcpSession.lives_admits K)
  intro id session' ht
  generalize t.arena = arena', t.scheduled = tasks' at harena ht ⊢
  cases harena with
  | kept hl =>
    obtain ⟨session, hget, hlives⟩ := forall₂_getElem? hl ht
    rw [hlives.socket]
    exact hs id session hget
  | @born session _ hborn hl =>
    obtain ⟨before, hget, hlives⟩ := forall₂_getElem? hl ht
    rw [hlives.socket, List.mem_append, List.mem_singleton]
    by_cases hid : id < s.arena.length
    · rw [List.getElem?_append_left hid] at hget
      rw [hs id before hget, or_iff_left (Nat.ne_of_lt hid)]
    · have hend : id = s.arena.length := by
        have hbound := (List.getElem?_eq_some_iff.mp hget).1
        rw [List.length_append, List.length_singleton] at hbound
        omega
      rw [hend, List.getElem?_concat_length] at hget
      cases hget
      rw [hborn.closed, hend]
      exact iff_of_false Bool.false_ne_true (fun hn => hn (.inr rfl))
  | @finalized session nowMs after task id' htask hget hpoll =>
    obtain ⟨_, hclosed, _, _⟩ := KcpSession.pollSchedulerTick_finalized hpoll
    have hgone : id' ∉ s.scheduled.eraseIdx task := by
      have hperm := perm_eraseIdx htask
      exact (List.nodup_cons.mp (hperm.nodup_iff.mp hnodup)).1
    by_cases hid : id = id'
    · rw [hid, List.getElem?_set_self (List.getElem?_eq_some_iff.mp hget).1] at ht
      cases ht
      rw [hid]
      exact iff_of_true hclosed hgone
    · rw [List.getElem?_set_ne (Ne.symm hid)] at ht
      have hmem : id ∈ s.scheduled ↔ id ∈ s.scheduled.eraseIdx task := by
        rw [(perm_eraseIdx htask).mem_iff, List.mem_cons, or_iff_right hid]
      rw [hs id session' ht, hmem]

theorem System.Step.attended (hW : K.wire.Laws) (h : s.Step K rs config event t)
    (hs : s.Attended got) : t.Attended (got ++ s.receives event) where
  accounted := (System.Step.effect hW h).accounted hs.accounted
  placed := System.Step.placed hW hs.accounted h hs.placed
  told n hn := by
    apply (System.Step.effect hW h).grows.peerOf
    rcases List.mem_append.mp hn with hold | hnew
    · exact hs.told n hold
    · apply hs.accounted.closeRx
      cases event with
      | closeNotification => exact List.mem_of_mem_take hnew
      | _ => cases hnew
  tended := (System.Step.acts hW h).tended hs.placed hs.tended

theorem System.new_attended : (System.new : System κ).Attended [] where
  accounted := new_accounted
  placed := new_placed
  told _ h := absurd h List.not_mem_nil
  tended _ _ h := nomatch h

theorem System.run_attended {trace : List (System κ × Event)} (hW : K.wire.Laws)
    (hs : s.Attended got) (hrun : Run (System.Step K rs config) s trace t) :
    t.Attended (got ++ received trace) := by
  induction hrun generalizing got with
  | nil => exact (List.append_nil got).symm ▸ hs
  | cons hstep _ ih =>
    rw [received, List.flatMap_cons, ← List.append_assoc]
    exact ih (System.Step.attended hW hstep hs)

theorem KcpSession.driveUpdate_input (K : KcpCrate κ) (s : KcpSession κ) (nowMs : Nat) :
    (s.driveUpdate K nowMs).1.ioTask = s.ioTask ∧
      (s.driveUpdate K nowMs).1.inputRx = s.inputRx := by
  have hclose (elapsedMs : Nat) : (s.closeInactive elapsedMs).ioTask = s.ioTask ∧
      (s.closeInactive elapsedMs).inputRx = s.inputRx := by
    rw [KcpSession.closeInactive]
    split
    · exact ⟨rfl, rfl⟩
    · exact ⟨rfl, rfl⟩
  rw [KcpSession.driveUpdate]
  split
  · exact ⟨rfl, rfl⟩
  · split
    · exact ⟨rfl, rfl⟩
    · rw [update_keeps]
      exact hclose _

theorem KcpSession.Sane.mono {s t : KcpSession κ} (hs : s.Sane)
    (hsocket : t.socket.closed = s.socket.closed) (hclosed : s.closed = true → t.closed = true)
    (hio : t.ioTask = s.ioTask) (hrx : t.inputRx = s.inputRx) : t.Sane where
  finalized h := by
    rw [hsocket, hio] at h
    obtain ⟨hc, hsc, hi, hr⟩ := hs.finalized h
    exact ⟨hclosed hc, hsocket.trans hsc, hio.trans hi, hrx.trans hr⟩
  inputRx := hrx ▸ hs.inputRx

theorem KcpSession.Sane.step {s t : KcpSession κ} {event : SessionEvent} (hs : s.Sane)
    (he : event.OfListener) (h : s.Step K event t) : t.Sane := by
  cases event with
  | call call now =>
    obtain ⟨streamCall, rfl⟩ := he
    obtain ⟨socket, hcall, rfl⟩ := h
    have hcall : s.socket.Step K (streamCall.toSocket, now) socket := hcall
    exact hs.mono (hcall.closed_eq streamCall.toSocket_ne_close) id rfl rfl
  | close =>
    cases h
    exact hs.mono rfl (fun _ => rfl) rfl rfl
  | input buf =>
    change s.input buf = _ at h
    rw [KcpSession.input] at h
    split at h
    · cases h
    · rename_i hio
      rw [Bool.not_eq_true, Bool.not_eq_false'] at hio
      split at h
      · rename_i hroom
        cases h
        constructor
        · intro hend
          obtain ⟨_, _, hgone, _⟩ := hs.finalized hend
          exact absurd (hio.symm.trans hgone) Bool.noConfusion
        · rw [List.length_append, List.length_singleton]
          exact hroom
      · cases h
  | runIoTask now =>
    change s.runIoTask K now = _ at h
    rw [KcpSession.runIoTask] at h
    split at h
    · rename_i inputBuffer rest hio hrx
      obtain ⟨⟨socket, result⟩, hi, h⟩ := bind_eq_ok.mp h
      cases h
      have hsame : socket.closed = s.socket.closed := congrArg Prod.snd (KcpSocket.input_phase hi)
      constructor
      · intro hend
        rw [hsame] at hend
        obtain ⟨_, _, hgone, _⟩ := hs.finalized hend
        exact absurd (hio.symm.trans hgone) Bool.noConfusion
      · have hbound := hs.inputRx
        rw [hrx, List.length_cons] at hbound
        exact Nat.le_of_succ_le hbound
    · cases h
      exact hs
  | recv recvResult now => exact he.elim
  | tick nowMs =>
    cases h
    obtain ⟨hio, hrx⟩ := s.driveUpdate_input K nowMs
    have hclosed := (s.driveUpdate_evolves K nowMs).closed
    have hsocket := s.driveUpdate_closed K nowMs
    rw [KcpSession.pollSchedulerTick]
    split
    · rename_i hd
      rw [hd] at hio hrx hclosed hsocket
      exact hs.mono hsocket hclosed hio hrx
    · exact ⟨fun _ => ⟨rfl, rfl, rfl, rfl⟩, Nat.zero_le _⟩

theorem SessionBorn.sane {session : KcpSession κ} (h : SessionBorn K rs config session) :
    session.Sane := by
  have hopen := h.closed
  obtain ⟨conv, socket, peer, now, _, hn, rfl⟩ := h
  constructor
  · rintro (hclosed | hio)
    · exact absurd (hopen.symm.trans hclosed) Bool.noConfusion
    · cases hio
  · exact Nat.zero_le _

theorem System.Descends.sane {session : KcpSession κ} (h : s.Descends K rs config)
    (hs : session ∈ s.arena) : session.Sane :=
  Population.Descends.invariant h (P := KcpSession.Sane)
    (fun _ _ _ hsane he hstep => hsane.step he hstep) (fun _ hborn => hborn.sane) hs

/-- The scheduler has a task for a session just while this is not finalized, and then its I/O
task runs. -/
theorem System.Attended.life (hs : s.Attended got) (hd : s.Descends K rs config)
    {id : Nat} {session : KcpSession κ} (hget : s.arena[id]? = some session) :
    (id ∉ s.scheduled ↔ session.Finalized) ∧
      (id ∈ s.scheduled ↔ session.socket.closed = false ∧ session.ioTask = true) := by
  have hsane := hd.sane (List.mem_of_getElem? hget)
  have htended := hs.tended id session hget
  have hfinal : id ∉ s.scheduled ↔ session.Finalized := by
    rw [← htended]
    exact ⟨fun hc => hsane.finalized (.inl hc), fun ⟨_, hc, _, _⟩ => hc⟩
  refine ⟨hfinal, ?_⟩
  constructor
  · intro hmem
    have hnot : ¬session.Finalized := fun hf => hfinal.mpr hf hmem
    constructor
    · by_contra hc
      exact hnot (hsane.finalized (.inl (Bool.not_eq_false _ ▸ hc)))
    · by_contra hio
      exact hnot (hsane.finalized (.inr (Bool.not_eq_true _ ▸ hio)))
  · rintro ⟨hopen, _⟩
    by_contra hmem
    exact absurd (hopen.symm.trans (htended.mpr hmem)) Bool.noConfusion

/-- In every state of a listener the sessions are those that the scheduler has a task for, one
each, and those that were finalized, of which the listener has one notification each that it is
still to receive or has received. A session loses its I/O task and its input just when it is
finalized. -/
theorem session_lifecycle {trace : List (System κ × Event)} (hW : K.wire.Laws)
    (hrun : Run (System.Step K rs config) .new trace s) :
    (s.scheduled ++ (received trace ++ s.closeRx).map CloseNotification.sender).Perm
      (List.range s.arena.length) ∧
    (∀ n ∈ received trace ++ s.closeRx, s.peerOf n.sender = some n.peer) ∧
    ∀ (id : Nat) session, s.arena[id]? = some session →
      (id ∉ s.scheduled ↔ session.Finalized) ∧
      (id ∈ s.scheduled ↔ session.socket.closed = false ∧ session.ioTask = true) ∧
      session.inputRx.length ≤ inputBacklog := by
  have hs : s.Attended (received trace) := System.run_attended hW System.new_attended hrun
  have hdescends := System.run_descends hW hrun
  refine ⟨hs.placed, ?_, ?_⟩
  · intro n hn
    rcases List.mem_append.mp hn with hgot | hcoming
    · exact hs.told n hgot
    · exact hs.accounted.closeRx n hcoming
  · intro id session hget
    have hsane := hdescends.sane (List.mem_of_getElem? hget)
    obtain ⟨hfinal, halive⟩ := hs.life hdescends hget
    exact ⟨hfinal, halive, hsane.inputRx⟩

/-- A session that is accepted, dropped and finalized beside another that goes on. -/
theorem session_lifecycle_small : ∃ trace s,
    trace.map Prod.snd = [.datagram (segment 1 81 0 [65]) ⟨[10, 0, 0, 1], 4000⟩ ⟨[9], rfl⟩ 0,
      .forward, .accept, .streamDrop 0,
      .datagram (segment 2 81 0 [66]) ⟨[10, 0, 0, 2], 4000⟩ ⟨[9], rfl⟩ 1, .tick 0 10, .forward,
      .closeNotification] ∧
    Run (System.Step smallKcp reedSolomon {}) .new trace s ∧
    s.scheduled = [1] ∧ received trace = [⟨⟨[10, 0, 0, 1], 4000⟩, 0⟩] ∧
    (s.scheduled ++ (received trace ++ s.closeRx).map CloseNotification.sender).Perm
      (List.range s.arena.length) ∧
    (∀ n ∈ received trace ++ s.closeRx, s.peerOf n.sender = some n.peer) ∧
    ∀ (id : Nat) session, s.arena[id]? = some session →
      (id ∉ s.scheduled ↔ session.Finalized) ∧
      (id ∈ s.scheduled ↔ session.socket.closed = false ∧ session.ioTask = true) ∧
      session.inputRx.length ≤ inputBacklog := by
  have hreplay : ∃ trace s, replay (System.next? smallKcp reedSolomon {}) .new
      [.datagram (segment 1 81 0 [65]) ⟨[10, 0, 0, 1], 4000⟩ ⟨[9], rfl⟩ 0, .forward, .accept,
        .streamDrop 0, .datagram (segment 2 81 0 [66]) ⟨[10, 0, 0, 2], 4000⟩ ⟨[9], rfl⟩ 1,
        .tick 0 10, .forward, .closeNotification] = some (trace, s) ∧
      trace.map Prod.snd = [.datagram (segment 1 81 0 [65]) ⟨[10, 0, 0, 1], 4000⟩ ⟨[9], rfl⟩ 0,
        .forward, .accept, .streamDrop 0,
        .datagram (segment 2 81 0 [66]) ⟨[10, 0, 0, 2], 4000⟩ ⟨[9], rfl⟩ 1, .tick 0 10, .forward,
        .closeNotification] ∧
      s.scheduled = [1] ∧ received trace = [⟨⟨[10, 0, 0, 1], 4000⟩, 0⟩] :=
    ⟨_, _, rfl, rfl, rfl, rfl⟩
  obtain ⟨trace, s, hr, hevents, hscheduled, hreceived⟩ := hreplay
  have hrun := run_of_replay (fun _ _ _ => System.step_of_next? smallKcp reedSolomon {}) hr
  exact ⟨trace, s, hevents, hrun, hscheduled, hreceived, session_lifecycle smallWire_laws hrun⟩

end TokioKcp
