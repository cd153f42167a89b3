import TokioKcp.Listener.Steps
import TokioKcp.Lib.Population
import Mathlib.Data.List.InsertIdx

namespace TokioKcp
set_option autoImplicit true

open Checked Fec Population

variable {κ : Type}

def System.closeAll (s : System κ) (ids : List Nat) : System κ :=
  ids.foldl (fun self id => self.modify id KcpSession.close) s

/-- What a step of the listener is, with all that it leaves behind. -/
inductive System.Acts (K : KcpCrate κ) (rs : Nat → Nat → Except String ReedSolomon)
    (config : KcpConfig) (s : System κ) : Event → System κ → Prop where
  | handled (hf : s.forwarding = none)
      (hh : s.Handled K rs config packet peer draws now u outcome) :
    Acts K rs config s (.datagram packet peer draws now) { u with forwarding := outcome }
  | forwarded {id : Nat} (hf : s.forwarding = some (id, packet))
      (hs : s.arena[id]? = some session) (hi : session.input packet = .ready (some session')) :
    Acts K rs config s .forward
      { s with arena := s.arena.set id session', forwarding := none }
  | discarded {id : Nat} (hf : s.forwarding = some (id, packet))
      (hs : s.arena[id]? = some session) (hi : session.input packet = .ready none) :
    Acts K rs config s .forward { s with forwarding := none }
  | notified (hf : s.forwarding = none) (hc : s.closeRx = notification :: rest) :
    Acts K rs config s .closeNotification
      ({ s with closeRx := rest }.closePeer notification.peer)
  | accepted {id : Nat} (ha : s.acceptRx = (id, peer) :: rest) :
    Acts K rs config s .accept { s with acceptRx := rest, streams := s.streams ++ [id] }
  | called {id : Nat} (hs : s.arena[id]? = some session) (hm : id ∈ s.streams)
      (hcall : session.socket.Step K (call.toSocket, now) socket) :
    Acts K rs config s (.stream id call now)
      { s with arena := s.arena.set id { session with socket := socket } }
  | streamDropped {id : Nat} (hm : id ∈ s.streams) :
    Acts K rs config s (.streamDrop id)
      ({ s with streams := s.streams.erase id }.modify id KcpSession.close)
  | listenerDropped (hc : s.acceptClosed = false) :
    Acts K rs config s .listenerDrop
      ({ s with acceptRx := [], acceptClosed := true }.closeAll (s.acceptRx.map Prod.fst))
  | rescheduled {task : Nat} {scheduled : ScheduledTask} (htask : s.tasks[task]? = some scheduled)
      (hs : s.arena[scheduled.session]? = some session) (hdue : scheduled.deadlineMs ≤ nowMs)
      (hp : session.pollSchedulerTick K nowMs = (session', some deadlineMs, notification)) :
    Acts K rs config s (.tick task nowMs)
      { s with
        arena := s.arena.set scheduled.session session'
        tasks := s.tasks.set task ⟨scheduled.session, deadlineMs⟩ }
  | finalized {task : Nat} {scheduled : ScheduledTask} (htask : s.tasks[task]? = some scheduled)
      (hs : s.arena[scheduled.session]? = some session) (hdue : scheduled.deadlineMs ≤ nowMs)
      (hp : session.pollSchedulerTick K nowMs =
        (session', none, session.sessionCloseNotifier)) :
    Acts K rs config s (.tick task nowMs)
      { s with
        arena := s.arena.set scheduled.session session'
        tasks := s.tasks.eraseIdx task
        closeRx := s.closeRx ++
          session.sessionCloseNotifier.toList.map fun peer => ⟨peer, scheduled.session⟩ }
  | ranIoTask {id : Nat} (hs : s.arena[id]? = some session)
      (hrun : session.runIoTask K now = .ok session') :
    Acts K rs config s (.ioTask id now) { s with arena := s.arena.set id session' }

/-- A preorder that holds of whatever happens to a session of a listener, but for its end. -/
structure KcpSession.Admits (K : KcpCrate κ) (R : KcpSession κ → KcpSession κ → Prop) : Prop where
  refl : ∀ s, R s s
  trans : ∀ s t u, R s t → R t u → R s u
  close : ∀ s, R s s.close
  input : ∀ s t packet, s.input packet = .ready (some t) → R s t
  runIoTask : ∀ s t now, s.runIoTask K now = .ok t → R s t
  call : ∀ (s : KcpSession κ) socket (call : StreamCall) now,
    s.socket.Step K (call.toSocket, now) socket → R s { s with socket := socket }
  tick : ∀ s t nowMs deadlineMs notification,
    s.pollSchedulerTick K nowMs = (t, some deadlineMs, notification) → R s t

/-- A listener makes its sessions of new sockets, each in a conversation of its own. -/
def SessionBorn (K : KcpCrate κ) (rs : Nat → Nat → Except String ReedSolomon)
    (config : KcpConfig) (session : KcpSession κ) : Prop :=
  ∃ conv socket peer now, conv ≠ 0 ∧
    KcpSocket.new K rs config conv config.stream now = .ok (.ok socket) ∧
    session = .new socket config.sessionExpire (some peer)

/-- What a step does to the sessions and to the tasks for them: one may come with its task, or
one may be finalized and lose it. -/
inductive ArenaStep (K : KcpCrate κ) (rs : Nat → Nat → Except String ReedSolomon)
    (config : KcpConfig) (R : KcpSession κ → KcpSession κ → Prop) (arena : List (KcpSession κ))
    (tasks : List Nat) : List (KcpSession κ) → List Nat → Prop where
  | kept (h : arena.Forall₂ R arena') : ArenaStep K rs config R arena tasks arena' tasks
  | born (hs : SessionBorn K rs config session) (h : (arena ++ [session]).Forall₂ R arena') :
    ArenaStep K rs config R arena tasks arena' (tasks ++ [arena.length])
  | finalized {task id : Nat} (htask : tasks[task]? = some id) (hs : arena[id]? = some session)
      (hp : session.pollSchedulerTick K nowMs =
        (session', none, session.sessionCloseNotifier)) :
    ArenaStep K rs config R arena tasks (arena.set id session') (tasks.eraseIdx task)

def System.scheduled (s : System κ) : List Nat := s.tasks.map ScheduledTask.session

variable {K : KcpCrate κ} {rs : Nat → Nat → Except String ReedSolomon} {config : KcpConfig}
variable {s t u : System κ} {event : Event} {R : KcpSession κ → KcpSession κ → Prop}

theorem System.tick_acts {task nowMs : Nat} (h : s.tick K task nowMs = some t) :
    s.Acts K rs config (.tick task nowMs) t := by
  rw [System.tick] at h
  split at h
  · cases h
  · rename_i scheduled htask
    split at h
    · cases h
    · rename_i session hs
      split at h
      · cases h
      · rename_i hdue
        have hdue : scheduled.deadlineMs ≤ nowMs := Nat.le_of_not_lt hdue
        split at h
        · rename_i hp
          cases h
          exact .rescheduled htask hs hdue hp
        · rename_i hp
          have hnote := KcpSession.pollSchedulerTick_notification hp
          cases h
          rw [hnote] at hp ⊢
          exact .finalized htask hs hdue hp

theorem System.forward_acts (h : s.forward = some t) : s.Acts K rs config .forward t := by
  rw [System.forward] at h
  split at h
  · cases h
  · rename_i hf
    split at h
    · cases h
    · rename_i hs
      split at h
      · cases h
      · rename_i hi
        cases h
        exact .discarded hf hs hi
      · rename_i hi
        cases h
        exact .forwarded hf hs hi

theorem System.Step.acts (hW : K.wire.Laws) (h : s.Step K rs config event t) :
    s.Acts K rs config event t := by
  cases event with
  | datagram packet peer draws now =>
    have hidle : s.forwarding = none := by
      rw [System.Step, System.next] at h
      split at h
      · cases h
      · assumption
    obtain ⟨u, outcome, hd, rfl⟩ := h.handled hW
    exact .handled hidle hd
  | forward => exact forward_acts (Except.ok.inj h)
  | closeNotification =>
    have h : s.closeNotification = some t := Except.ok.inj h
    rw [System.closeNotification] at h
    split at h
    · rename_i hf hc
      cases h
      exact .notified hf hc
    · cases h
  | accept =>
    have h : s.accept = some t := Except.ok.inj h
    rw [System.accept] at h
    split at h
    · cases h
    · rename_i ha
      cases h
      exact .accepted ha
  | stream id call now =>
    change s.stream K id call now = _ at h
    rw [System.stream] at h
    split at h
    · rename_i hs
      split at h
      · rename_i hm
        obtain ⟨socket, hcall, h⟩ := bind_eq_ok.mp h
        cases h
        exact .called hs hm hcall
      · cases h
    · cases h
  | streamDrop id =>
    have h : s.streamDrop id = some t := Except.ok.inj h
    rw [System.streamDrop] at h
    split at h
    · rename_i hm
      cases h
      exact .streamDropped hm
    · cases h
  | listenerDrop =>
    have h : s.listenerDrop = some t := Except.ok.inj h
    rw [System.listenerDrop] at h
    split at h
    · cases h
    · rename_i hc
      cases h
      exact .listenerDropped (Bool.not_eq_true _ ▸ hc)
  | tick task nowMs => exact tick_acts (Except.ok.inj h)
  | ioTask id now =>
    change s.ioTask K id now = _ at h
    rw [System.ioTask] at h
    split at h
    · cases h
    · rename_i hs
      obtain ⟨session', hrun, h⟩ := bind_eq_ok.mp h
      cases h
      exact .ranIoTask hs hrun

theorem System.closeAll_tasks (s : System κ) (ids : List Nat) :
    (s.closeAll ids).tasks = s.tasks := by
  induction ids generalizing s with
  | nil => rfl
  | cons id ids ih => exact ih (s.modify id KcpSession.close)

theorem System.closeAll_forwarding (s : System κ) (ids : List Nat) :
    (s.closeAll ids).forwarding = s.forwarding := by
  induction ids generalizing s with
  | nil => rfl
  | cons id ids ih => exact ih (s.modify id KcpSession.close)

section Admits

variable (hR : KcpSession.Admits K R)

include hR

theorem System.dropHandle_follows (s : System κ) (handle : Option Nat) :
    s.arena.Forall₂ R (s.dropHandle handle).arena := by
  cases handle with
  | none => exact List.forall₂_same.mpr fun session _ => hR.refl session
  | some id => exact forall₂_modify hR.refl hR.close s.arena id

theorem System.closeAll_follows (s : System κ) (ids : List Nat) :
    s.arena.Forall₂ R (s.closeAll ids).arena := by
  induction ids generalizing s with
  | nil => exact List.forall₂_same.mpr fun session _ => hR.refl session
  | cons id ids ih =>
    have hfirst := forall₂_modify hR.refl hR.close s.arena id
    exact forall₂_trans hR.trans hfirst (ih (s.modify id KcpSession.close))

theorem System.Handled.arena {outcome : Option (Nat × Bytes)}
    (h : s.Handled K rs config packet peer draws now t outcome) :
    ArenaStep K rs config R s.arena s.scheduled t.arena t.scheduled := by
  have hsame : s.arena.Forall₂ R s.arena := List.forall₂_same.mpr fun session _ => hR.refl session
  have hopened (socket : KcpSocket κ) :
      (s.arena ++ [KcpSession.new socket config.sessionExpire (some peer)]).Forall₂ R
        (s.opened config socket peer now).arena :=
    System.dropHandle_follows hR
      (s.newShared (.new socket config.sessionExpire (some peer)) now) (s.sessions.lookup peer)
  cases h with
  | parity hp => exact .kept hsame
  | tooShort hp hlen => exact .kept hsame
  | failed hb ho hn => exact .kept hsame
  | kept hb hg hc => exact .kept hsame
  | mismatch hb hg hc hsn => exact .kept hsame
  | @opened _ body socket hb ho hn hroom =>
    have htasks : (s.opened config socket peer now).scheduled = s.scheduled ++ [s.arena.length] :=
      (s.opening_opened K config socket peer now).tasks
    change ArenaStep K rs config R _ _ (s.opened config socket peer now).arena
      (s.opened config socket peer now).scheduled
    rw [htasks]
    exact .born ⟨_, socket, peer, now, convFor_ne_zero draws body, hn, rfl⟩ (hopened socket)
  | @refused _ body socket hb ho hn hroom =>
    have htasks : (((s.opened config socket peer now).modify s.arena.length
        KcpSession.close).closePeer peer).scheduled = s.scheduled ++ [s.arena.length] :=
      ((s.opening_opened K config socket peer now).modify s.arena.length).closePeer.tasks
    rw [htasks]
    refine .born ⟨_, socket, peer, now, convFor_ne_zero draws body, hn, rfl⟩ ?_
    have hclosed := forall₂_modify hR.refl hR.close
      (s.opened config socket peer now).arena s.arena.length
    have hdropped := System.dropHandle_follows hR
      ((s.opened config socket peer now).modify s.arena.length KcpSession.close)
      ((s.opened config socket peer now).sessions.lookup peer)
    exact forall₂_trans hR.trans (forall₂_trans hR.trans (hopened socket) hclosed) hdropped

/-- All sessions go on, but for one that may come and one that may be finalized. -/
theorem System.Acts.arena (h : s.Acts K rs config event t) :
    ArenaStep K rs config R s.arena s.scheduled t.arena t.scheduled := by
  have hsame : s.arena.Forall₂ R s.arena := List.forall₂_same.mpr fun session _ => hR.refl session
  cases h with
  | handled hf hh =>
    have harena := System.Handled.arena hR hh
    exact harena
  | forwarded hf hs hi => exact .kept (forall₂_set hR.refl hs (hR.input _ _ _ hi))
  | discarded hf hs hi => exact .kept hsame
  | @notified notification rest hf hc =>
    have htasks := (System.frame_dropHandle { s with closeRx := rest }
      (s.sessions.lookup notification.peer)).2.2.1
    have hkept : ({ s with closeRx := rest }.closePeer notification.peer).scheduled =
        s.scheduled := congrArg (List.map ScheduledTask.session) htasks
    rw [hkept]
    exact .kept (System.dropHandle_follows hR { s with closeRx := rest } _)
  | accepted ha => exact .kept hsame
  | called hs hm hcall => exact .kept (forall₂_set hR.refl hs (hR.call _ _ _ _ hcall))
  | @streamDropped id hm => exact .kept (forall₂_modify hR.refl hR.close s.arena id)
  | listenerDropped hc =>
    have hclosed := System.closeAll_follows hR
      { s with acceptRx := [], acceptClosed := true } (s.acceptRx.map Prod.fst)
    have hkept := congrArg (List.map ScheduledTask.session) (System.closeAll_tasks
      { s with acceptRx := [], acceptClosed := true } (s.acceptRx.map Prod.fst))
    rw [System.scheduled, System.scheduled, hkept]
    exact .kept hclosed
  | rescheduled htask hs hdue hp =>
    rw [System.scheduled, System.scheduled, map_set_session htask]
    exact .kept (forall₂_set hR.refl hs (hR.tick _ _ _ _ _ hp))
  | @finalized _ _ _ task scheduled htask hs hdue hp =>
    have hplace : s.scheduled[task]? = some scheduled.session := by
      rw [System.scheduled, List.getElem?_map, htask, Option.map_some]
    have hgone : (s.tasks.eraseIdx task).map ScheduledTask.session =
        s.scheduled.eraseIdx task := (List.eraseIdx_map _ _ _).symm
    rw [System.scheduled, System.scheduled, hgone]
    exact .finalized hplace hs hp
  | ranIoTask hs hrun => exact .kept (forall₂_set hR.refl hs (hR.runIoTask _ _ _ hrun))

end Admits

end TokioKcp
