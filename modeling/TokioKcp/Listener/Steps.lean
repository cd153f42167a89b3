import TokioKcp.Listener.Dispatch

namespace TokioKcp
set_option autoImplicit true

open Checked Fec

variable {κ : Type}

/-- The datagram carries the given KCP packet. -/
structure CarriesKcp (config : KcpConfig) (packet front body : Bytes) : Prop where
  not_parity : (config.fec.enabled && isParityPacket packet) = false
  packet : kcpPacket config packet = .ok (front, body)
  length : kcpOverhead ≤ body.length

/-- A KCP packet of the conversation and number opens a session for the peer. -/
def System.Opens (K : KcpCrate κ) (s : System κ) (peer : SocketAddr) (conv sn : UInt32) : Prop :=
  ∀ id session, s.get peer = some (id, session) → sn = 0 ∧ session.socket.conv K ≠ conv

def System.opened (config : KcpConfig) (s : System κ) (socket : KcpSocket κ)
    (peer : SocketAddr) (now : Nat) : System κ :=
  (s.newShared (.new socket config.sessionExpire (some peer)) now).insert peer s.arena.length

/-- All that the handler can do with a datagram. -/
inductive System.Handled (K : KcpCrate κ) (rs : Nat → Nat → Except String ReedSolomon)
    (config : KcpConfig) (s : System κ) (packet : Bytes) (peer : SocketAddr)
    (draws : RandomDraws) (now : Nat) : System κ → Option (Nat × Bytes) → Prop where
  | parity (hp : (config.fec.enabled && isParityPacket packet) = true) :
    Handled K rs config s packet peer draws now s
      ((s.get peer).map fun entry => (entry.1, packet))
  | tooShort (hp : kcpPacket config packet = .ok (front, body))
      (hlen : body.length < kcpOverhead) :
    Handled K rs config s packet peer draws now s none
  | failed (hb : CarriesKcp config packet front body)
      (ho : s.Opens K peer (convFor draws body) (snOf body))
      (hn : KcpSocket.new K rs config (convFor draws body) config.stream now = .ok (.error err)) :
    Handled K rs config s packet peer draws now s none
  | opened (hb : CarriesKcp config packet front body)
      (ho : s.Opens K peer (convFor draws body) (snOf body))
      (hn : KcpSocket.new K rs config (convFor draws body) config.stream now =
        .ok (.ok socket)) (hroom : s.acceptRoom = true) :
    Handled K rs config s packet peer draws now
      { s.opened config socket peer now with
        acceptRx := s.acceptRx ++ [(s.arena.length, peer)] }
      (some (s.arena.length, front ++ withConvFor draws body))
  | refused (hb : CarriesKcp config packet front body)
      (ho : s.Opens K peer (convFor draws body) (snOf body))
      (hn : KcpSocket.new K rs config (convFor draws body) config.stream now =
        .ok (.ok socket)) (hroom : s.acceptRoom = false) :
    Handled K rs config s packet peer draws now
      (((s.opened config socket peer now).modify s.arena.length KcpSession.close).closePeer peer)
      none
  | kept {id : Nat} (hb : CarriesKcp config packet front body)
      (hg : s.get peer = some (id, session))
      (hc : session.socket.conv K = convFor draws body) :
    Handled K rs config s packet peer draws now s
      (some (id, front ++ withConvFor draws body))
  | mismatch {id : Nat} (hb : CarriesKcp config packet front body)
      (hg : s.get peer = some (id, session))
      (hc : session.socket.conv K ≠ convFor draws body) (hsn : snOf body ≠ 0) :
    Handled K rs config s packet peer draws now s none

/-- Every session is still there, whatever has happened to it. -/
def System.Grows (K : KcpCrate κ) (s t : System κ) : Prop :=
  ∀ (id : Nat) (session : KcpSession κ), s.arena[id]? = some session →
    ∃ session', t.arena[id]? = some session' ∧ session.Evolves K session'

/-- No session comes or goes, and none is finalized. -/
structure System.Quiet (K : KcpCrate κ) (s t : System κ) : Prop where
  grows : s.Grows K t
  length : t.arena.length = s.arena.length
  sessions : t.sessions = s.sessions
  closeRx : t.closeRx = s.closeRx
  tasks : t.tasks.map ScheduledTask.session = s.tasks.map ScheduledTask.session

/-- One session comes, for the given peer. -/
structure System.Opening (K : KcpCrate κ) (config : KcpConfig) (s : System κ)
    (socket : KcpSocket κ) (peer : SocketAddr) (now : Nat) (t : System κ) : Prop where
  grows : (s.newShared (.new socket config.sessionExpire (some peer)) now).Grows K t
  length : t.arena.length = s.arena.length + 1
  sessions : ∀ p id, t.sessions.lookup p = some id →
    (p = peer ∧ id = s.arena.length) ∨ s.sessions.lookup p = some id
  closeRx : t.closeRx = s.closeRx
  tasks : t.tasks.map ScheduledTask.session =
    s.tasks.map ScheduledTask.session ++ [s.arena.length]

/-- One session is finalized, and its task removed. -/
structure System.Finalizing (K : KcpCrate κ) (s : System κ) (task : Nat)
    (scheduled : ScheduledTask) (session : KcpSession κ) (t : System κ) : Prop where
  task_eq : s.tasks[task]? = some scheduled
  session_eq : s.arena[scheduled.session]? = some session
  grows : s.Grows K t
  length : t.arena.length = s.arena.length
  sessions : t.sessions = s.sessions
  closeRx : t.closeRx = s.closeRx ++
    session.sessionCloseNotifier.toList.map fun peer => ⟨peer, scheduled.session⟩
  tasks : t.tasks = s.tasks.eraseIdx task

/-- All that an event can do to the sessions, their tasks and their notifications. -/
inductive System.Effect (K : KcpCrate κ) (rs : Nat → Nat → Except String ReedSolomon)
    (config : KcpConfig) (s : System κ) : Event → System κ → Prop where
  | quiet (h : s.Quiet K t) : Effect K rs config s event t
  | opened (hb : CarriesKcp config packet front body)
      (ho : s.Opens K peer (convFor draws body) (snOf body))
      (hn : KcpSocket.new K rs config (convFor draws body) config.stream now =
        .ok (.ok socket)) (h : s.Opening K config socket peer now t) :
    Effect K rs config s (.datagram packet peer draws now) t
  | finalized (h : s.Finalizing K task scheduled session t) :
    Effect K rs config s (.tick task nowMs) t
  | notified (h : s.closeRx = notification :: rest)
      (ht : t = { s with closeRx := rest }.closePeer notification.peer) :
    Effect K rs config s .closeNotification t

variable {K : KcpCrate κ} {rs : Nat → Nat → Except String ReedSolomon} {config : KcpConfig}
variable {s t : System κ} {packet : Bytes} {peer : SocketAddr} {draws : RandomDraws}
variable {conv sn : UInt32} {now : Nat}

theorem System.accept_opened (s : System κ) (socket : KcpSocket κ) (peer : SocketAddr)
    (now : Nat) : (s.opened config socket peer now).acceptRx = s.acceptRx ∧
      (s.opened config socket peer now).acceptRoom = s.acceptRoom := by
  rw [System.opened, System.insert]
  cases (s.newShared _ now).sessions.lookup peer with
  | none => exact ⟨rfl, rfl⟩
  | some id => exact ⟨rfl, rfl⟩

theorem System.create_cases (h : s.create K rs config conv peer now = .ok (t, result)) :
    (∃ err, KcpSocket.new K rs config conv config.stream now = .ok (.error err) ∧ t = s ∧
      result = .error err) ∨
    ∃ socket, KcpSocket.new K rs config conv config.stream now = .ok (.ok socket) ∧
      t = s.opened config socket peer now ∧
      result = .ok (s.arena.length, .new socket config.sessionExpire (some peer)) := by
  obtain ⟨out, hn, h⟩ := bind_eq_ok.mp h
  cases out with
  | error err =>
    cases h
    exact .inl ⟨err, hn, rfl, rfl⟩
  | ok socket =>
    cases h
    exact .inr ⟨socket, hn, rfl, rfl⟩

/-- Either a session is made, or fails to be, or the one in the table is the result. -/
theorem System.getOrCreate_cases
    (h : s.getOrCreate K rs config conv sn peer now = .ok (t, result)) :
    (s.Opens K peer conv sn ∧ ∃ result', s.create K rs config conv peer now = .ok (t, result') ∧
      result = result'.map (·, true)) ∨
    ∃ id session, s.get peer = some (id, session) ∧ (sn = 0 → session.socket.conv K = conv) ∧
      t = s ∧ result = .ok ((id, session), false) := by
  rw [System.getOrCreate] at h
  split at h
  · rename_i id session hg
    split at h
    · rename_i hopen
      obtain ⟨⟨u, result'⟩, hcreate, h⟩ := bind_eq_ok.mp h
      cases h
      refine .inl ⟨?_, result', hcreate, rfl⟩
      intro id' session' hg'
      rw [hg] at hg'
      cases hg'
      exact hopen
    · rename_i hopen
      cases h
      exact .inr ⟨id, session, hg, fun hsn => by_contra fun hc => hopen ⟨hsn, hc⟩, rfl, rfl⟩
  · rename_i hg
    obtain ⟨⟨u, result'⟩, hcreate, h⟩ := bind_eq_ok.mp h
    cases h
    refine .inl ⟨?_, result', hcreate, rfl⟩
    intro id session hg'
    rw [hg] at hg'
    cases hg'

theorem System.handled (hW : K.wire.Laws)
    (h : s.handleDatagram K rs config packet peer draws now = .ok (t, outcome)) :
    s.Handled K rs config packet peer draws now t outcome := by
  rw [System.handleDatagram] at h
  split at h
  · rename_i hp
    have ht : t = s ∧ outcome = (s.get peer).map fun entry => (entry.1, packet) := by
      cases hg : s.get peer with
      | none =>
        rw [hg] at h
        cases h
        exact ⟨rfl, rfl⟩
      | some entry =>
        rw [hg] at h
        cases h
        exact ⟨rfl, rfl⟩
    rw [ht.1, ht.2]
    exact .parity hp
  · rename_i hp
    rw [Bool.not_eq_true] at hp
    obtain ⟨read, hread, h⟩ := bind_eq_ok.mp h
    have hread' := hread
    obtain ⟨⟨front, body⟩, hpacket, _⟩ := bind_eq_ok.mp hread'
    rw [readHeader_eq hW hpacket] at hread
    split at hread
    · rename_i hlen
      cases hread
      cases h
      exact .tooShort hpacket hlen
    · rename_i hlen
      cases hread
      have hb : CarriesKcp config packet front body := ⟨hp, hpacket, Nat.le_of_not_lt hlen⟩
      obtain ⟨⟨u, result⟩, hget, h⟩ := bind_eq_ok.mp h
      rcases System.getOrCreate_cases hget with
        ⟨ho, result', hcreate, rfl⟩ | ⟨id, session, hg, hsn, rfl, rfl⟩
      · rcases System.create_cases hcreate with
          ⟨err, hn, rfl, rfl⟩ | ⟨socket, hn, rfl, rfl⟩
        · cases h
          exact .failed hb ho hn
        · dsimp only [Except.map] at h
          split at h
          · rename_i hroom
            cases h
            rw [(s.accept_opened socket peer now).2] at hroom
            rw [(s.accept_opened socket peer now).1]
            exact .opened hb ho hn hroom
          · rename_i hroom
            cases h
            rw [(s.accept_opened socket peer now).2, Bool.not_eq_true] at hroom
            exact .refused hb ho hn hroom
      · dsimp only at h
        split at h
        · rename_i hc
          cases h
          exact .mismatch hb hg hc (fun hz => hc (hsn hz))
        · rename_i hc
          cases h
          exact .kept hb hg (Decidable.not_not.mp hc)

theorem System.Grows.of_eq (h : t.arena = s.arena) : s.Grows K t := by
  intro id session hs
  exact ⟨session, by rw [h, hs], .refl K session⟩

theorem System.Grows.trans {u : System κ} (h : s.Grows K t) (h' : t.Grows K u) :
    s.Grows K u := by
  intro id session hs
  obtain ⟨session', ht, he⟩ := h id session hs
  obtain ⟨session'', hu, he'⟩ := h' id session' ht
  exact ⟨session'', hu, he.trans he'⟩

theorem System.grows_modify {f : KcpSession κ → KcpSession κ}
    (hf : ∀ session : KcpSession κ, session.Evolves K (f session)) (s : System κ) (id : Nat) :
    s.Grows K (s.modify id f) := by
  intro id' session hs
  have hget : (s.modify id f).arena[id']? = (s.arena.modify id f)[id']? := rfl
  rw [hget, List.getElem?_modify, hs]
  by_cases he : id = id'
  · exact ⟨f session, congrArg some (if_pos he), hf session⟩
  · exact ⟨session, congrArg some (if_neg he), .refl K session⟩

theorem System.grows_set {id : Nat} {session session' : KcpSession κ}
    (hs : s.arena[id]? = some session) (he : session.Evolves K session')
    (ht : t.arena = s.arena.set id session') : s.Grows K t := by
  intro id' other ho
  rw [ht]
  by_cases hid : id = id'
  · rw [hid] at hs
    rw [hs] at ho
    cases ho
    have hlt := (List.getElem?_eq_some_iff.mp hs).1
    exact ⟨session', by rw [hid, List.getElem?_set_self hlt], he⟩
  · exact ⟨other, by rw [List.getElem?_set_ne hid, ho], .refl K other⟩

theorem System.grows_newShared (K : KcpCrate κ) (s : System κ) (session : KcpSession κ)
    (now : Nat) : s.Grows K (s.newShared session now) := by
  intro id other ho
  refine ⟨other, ?_, .refl K other⟩
  have hlt := (List.getElem?_eq_some_iff.mp ho).1
  change (s.arena ++ [session])[id]? = _
  rw [List.getElem?_append_left hlt, ho]

theorem System.grows_dropHandle (K : KcpCrate κ) (s : System κ) (handle : Option Nat) :
    s.Grows K (s.dropHandle handle) := by
  cases handle with
  | none => exact .of_eq rfl
  | some id => exact s.grows_modify (KcpSession.close_evolves K) id

theorem System.grows_insert (K : KcpCrate κ) (s : System κ) (peer : SocketAddr) (id : Nat) :
    s.Grows K (s.insert peer id) := by
  have h := s.grows_dropHandle K (s.sessions.lookup peer)
  exact h.trans (.of_eq rfl)

theorem System.grows_closePeer (K : KcpCrate κ) (s : System κ) (peer : SocketAddr) :
    s.Grows K (s.closePeer peer) := by
  have h := s.grows_dropHandle K (s.sessions.lookup peer)
  exact h.trans (.of_eq rfl)

theorem System.length_dropHandle (s : System κ) (handle : Option Nat) :
    (s.dropHandle handle).arena.length = s.arena.length := by
  cases handle with
  | none => rfl
  | some id => exact List.length_modify _ _ _

theorem System.arena_dropHandle {handle : Option Nat} {id : Nat} (h : handle ≠ some id)
    (s : System κ) : (s.dropHandle handle).arena[id]? = s.arena[id]? := by
  cases handle with
  | none => rfl
  | some other =>
    change (s.arena.modify other _)[id]? = _
    rw [List.getElem?_modify]
    have hne : other ≠ id := fun he => h (congrArg some he)
    simp only [if_neg hne]
    exact Option.map_id'

theorem System.frame_dropHandle (s : System κ) (handle : Option Nat) :
    (s.dropHandle handle).sessions = s.sessions ∧ (s.dropHandle handle).closeRx = s.closeRx ∧
      (s.dropHandle handle).tasks = s.tasks ∧ (s.dropHandle handle).acceptRx = s.acceptRx := by
  cases handle with
  | none => exact ⟨rfl, rfl, rfl, rfl⟩
  | some id => exact ⟨rfl, rfl, rfl, rfl⟩

theorem System.length_opened (s : System κ) (socket : KcpSocket κ) (peer : SocketAddr)
    (now : Nat) : (s.opened config socket peer now).arena.length = s.arena.length + 1 := by
  have hdrop := (s.newShared (.new socket config.sessionExpire (some peer)) now).length_dropHandle
    (s.sessions.lookup peer)
  exact hdrop.trans List.length_append

theorem System.opening_opened (K : KcpCrate κ) (config : KcpConfig) (s : System κ)
    (socket : KcpSocket κ) (peer : SocketAddr) (now : Nat) :
    s.Opening K config socket peer now (s.opened config socket peer now) := by
  let u := s.newShared (.new socket config.sessionExpire (some peer)) now
  obtain ⟨_, hc, ht, _⟩ := u.frame_dropHandle (u.sessions.lookup peer)
  refine ⟨grows_insert K u peer _, s.length_opened socket peer now, ?_, hc, ?_⟩
  · intro p id hp
    change (s.sessions.insert peer s.arena.length).lookup p = _ at hp
    rw [FinMap.lookup_insert_of] at hp
    split at hp
    · rename_i he
      cases hp
      exact .inl ⟨he, rfl⟩
    · exact .inr hp
  · have hm := congrArg (List.map ScheduledTask.session) ht
    exact hm.trans List.map_append

theorem System.Opening.closePeer {socket : KcpSocket κ}
    (h : s.Opening K config socket peer now t) :
    s.Opening K config socket peer now (t.closePeer peer) := by
  obtain ⟨_, hc, ht, _⟩ := t.frame_dropHandle (t.sessions.lookup peer)
  refine ⟨h.grows.trans (t.grows_closePeer K peer), ?_, ?_, hc.trans h.closeRx, ?_⟩
  · have hl := t.length_dropHandle (t.sessions.lookup peer)
    exact hl.trans h.length
  · intro p id hp
    change (t.sessions.erase peer).lookup p = _ at hp
    rw [FinMap.lookup_erase_of] at hp
    split at hp
    · cases hp
    · exact h.sessions p id hp
  · have hm := congrArg (List.map ScheduledTask.session) ht
    exact hm.trans h.tasks

theorem System.Opening.modify {socket : KcpSocket κ}
    (h : s.Opening K config socket peer now t) (id : Nat) :
    s.Opening K config socket peer now (t.modify id KcpSession.close) where
  grows := h.grows.trans (t.grows_modify (KcpSession.close_evolves K) id)
  length := (List.length_modify _ _ _).trans h.length
  sessions := h.sessions
  closeRx := h.closeRx
  tasks := h.tasks

theorem System.Handled.effect {outcome : Option (Nat × Bytes)}
    (h : s.Handled K rs config packet peer draws now t outcome) :
    System.Effect K rs config s (.datagram packet peer draws now)
      { t with forwarding := outcome } := by
  cases h with
  | parity hp => exact .quiet ⟨.of_eq rfl, rfl, rfl, rfl, rfl⟩
  | tooShort hp hlen => exact .quiet ⟨.of_eq rfl, rfl, rfl, rfl, rfl⟩
  | failed hb ho hn => exact .quiet ⟨.of_eq rfl, rfl, rfl, rfl, rfl⟩
  | kept hb hg hc => exact .quiet ⟨.of_eq rfl, rfl, rfl, rfl, rfl⟩
  | mismatch hb hg hc hsn => exact .quiet ⟨.of_eq rfl, rfl, rfl, rfl, rfl⟩
  | @opened _ _ socket hb ho hn hroom =>
    have h := s.opening_opened K config socket peer now
    exact .opened hb ho hn ⟨h.grows, h.length, h.sessions, h.closeRx, h.tasks⟩
  | @refused _ _ socket hb ho hn hroom =>
    have h := ((s.opening_opened K config socket peer now).modify s.arena.length).closePeer
    exact .opened hb ho hn ⟨h.grows, h.length, h.sessions, h.closeRx, h.tasks⟩

theorem System.quiet_set {id : Nat} {session session' : KcpSession κ}
    (hs : s.arena[id]? = some session) (he : session.Evolves K session')
    (ha : t.arena = s.arena.set id session') (hm : t.sessions = s.sessions)
    (hc : t.closeRx = s.closeRx)
    (ht : t.tasks.map ScheduledTask.session = s.tasks.map ScheduledTask.session) :
    s.Quiet K t :=
  ⟨grows_set hs he ha, by rw [ha, List.length_set], hm, hc, ht⟩

theorem System.forward_quiet (K : KcpCrate κ) (h : s.forward = some t) :
    s.Quiet K t ∧ t.forwarding = none := by
  rw [System.forward] at h
  split at h
  · cases h
  · split at h
    · cases h
    · rename_i session hs
      split at h
      · cases h
      · cases h
        exact ⟨⟨.of_eq rfl, rfl, rfl, rfl, rfl⟩, rfl⟩
      · rename_i session' hi
        cases h
        have he : session.Evolves K session' := by
          rw [KcpSession.input] at hi
          split at hi
          · cases hi
          · split at hi
            · cases hi
              exact ⟨.refl K true _, fun h => h, rfl⟩
            · cases hi
        exact ⟨quiet_set hs he rfl rfl rfl rfl, rfl⟩

theorem System.accept_quiet (K : KcpCrate κ) (h : s.accept = some t) :
    s.Quiet K t ∧ t.forwarding = s.forwarding := by
  rw [System.accept] at h
  split at h
  · cases h
  · cases h
    exact ⟨⟨.of_eq rfl, rfl, rfl, rfl, rfl⟩, rfl⟩

theorem System.stream_quiet {id : Nat} {call : StreamCall}
    (h : s.stream K id call now = .ok (some t)) :
    s.Quiet K t ∧ t.forwarding = s.forwarding := by
  rw [System.stream] at h
  split at h
  · rename_i session hs
    split at h
    · obtain ⟨socket, hcall, h⟩ := bind_eq_ok.mp h
      cases h
      have hstep : session.socket.Step K (call.toSocket, now) socket := hcall
      have he : session.Evolves K { session with socket := socket } :=
        ⟨hstep.moves, fun h => h, rfl⟩
      exact ⟨quiet_set hs he rfl rfl rfl rfl, rfl⟩
    · cases h
  · cases h

theorem System.streamDrop_quiet (K : KcpCrate κ) {id : Nat} (h : s.streamDrop id = some t) :
    s.Quiet K t ∧ t.forwarding = s.forwarding := by
  rw [System.streamDrop] at h
  split at h
  · cases h
    exact ⟨⟨s.grows_modify (KcpSession.close_evolves K) id, List.length_modify _ _ _, rfl, rfl,
      rfl⟩, rfl⟩
  · cases h

theorem System.listenerDrop_quiet (K : KcpCrate κ) (h : s.listenerDrop = some t) :
    s.Quiet K t ∧ t.forwarding = s.forwarding := by
  rw [System.listenerDrop] at h
  split at h
  · cases h
  · have hclose (ids : List Nat) (u : System κ) (hu : s.Quiet K u ∧ u.forwarding = s.forwarding) :
        s.Quiet K (ids.foldl (fun self id => self.modify id KcpSession.close) u) ∧
          (ids.foldl (fun self id => self.modify id KcpSession.close) u).forwarding =
            s.forwarding := by
      induction ids generalizing u with
      | nil => exact hu
      | cons id ids ih =>
        obtain ⟨hquiet, hsame⟩ := hu
        exact ih _ ⟨⟨hquiet.grows.trans (u.grows_modify (KcpSession.close_evolves K) id),
          (List.length_modify _ _ _).trans hquiet.length, hquiet.sessions, hquiet.closeRx,
          hquiet.tasks⟩, hsame⟩
    cases h
    exact hclose _ _ ⟨⟨.of_eq rfl, rfl, rfl, rfl, rfl⟩, rfl⟩

theorem System.ioTask_quiet {id : Nat} (h : s.ioTask K id now = .ok (some t)) :
    s.Quiet K t ∧ t.forwarding = s.forwarding := by
  rw [System.ioTask] at h
  split at h
  · cases h
  · rename_i session hs
    obtain ⟨session', hrun, h⟩ := bind_eq_ok.mp h
    cases h
    exact ⟨quiet_set hs (KcpSession.runIoTask_evolves hrun) rfl rfl rfl rfl, rfl⟩

theorem map_set_session {tasks : List ScheduledTask} {task : Nat} {scheduled : ScheduledTask}
    (h : tasks[task]? = some scheduled) (deadlineMs : Nat) :
    (tasks.set task ⟨scheduled.session, deadlineMs⟩).map ScheduledTask.session =
      tasks.map ScheduledTask.session := by
  obtain ⟨hlt, he⟩ := List.getElem?_eq_some_iff.mp h
  have hlt' : task < (tasks.map ScheduledTask.session).length := by rwa [List.length_map]
  have hval : scheduled.session = (tasks.map ScheduledTask.session)[task] := by
    rw [List.getElem_map, he]
  rw [List.map_set]
  dsimp only
  rw [hval, List.set_getElem_self]

theorem System.tick_effect {task nowMs : Nat} (h : s.tick K task nowMs = some t) :
    t.forwarding = s.forwarding ∧
      (s.Quiet K t ∨ ∃ scheduled session, s.Finalizing K task scheduled session t) := by
  rw [System.tick] at h
  split at h
  · cases h
  · rename_i scheduled htask
    split at h
    · cases h
    · rename_i session hs
      have hev := session.pollSchedulerTick_evolves K nowMs
      split at h
      · cases h
      · split at h
        · rename_i he
          rw [he] at hev
          cases h
          exact ⟨rfl, .inl (quiet_set hs hev rfl rfl rfl (map_set_session htask _))⟩
        · rename_i he
          have hnote := KcpSession.pollSchedulerTick_notification he
          rw [he] at hev
          cases h
          exact ⟨rfl, .inr ⟨scheduled, session, htask, hs, grows_set hs hev rfl,
            List.length_set, rfl, by rw [hnote]; rfl, rfl⟩⟩

theorem System.Step.handled (hW : K.wire.Laws)
    (h : s.Step K rs config (.datagram packet peer draws now) t) :
    ∃ u outcome, s.Handled K rs config packet peer draws now u outcome ∧
      t = { u with forwarding := outcome } := by
  rw [System.Step, System.next] at h
  split at h
  · cases h
  · obtain ⟨⟨u, outcome⟩, hd, h⟩ := bind_eq_ok.mp h
    cases h
    exact ⟨u, outcome, System.handled hW hd, rfl⟩

/-- All that a step can do. -/
theorem System.Step.effect {event : Event} (hW : K.wire.Laws)
    (h : s.Step K rs config event t) : System.Effect K rs config s event t := by
  cases event with
  | datagram packet peer draws now =>
    obtain ⟨u, outcome, hd, rfl⟩ := h.handled hW
    exact hd.effect
  | forward => exact .quiet (forward_quiet K (Except.ok.inj h)).1
  | closeNotification =>
    have h : s.closeNotification = some t := Except.ok.inj h
    rw [System.closeNotification] at h
    split at h
    · rename_i hc
      cases h
      exact .notified hc rfl
    · cases h
  | accept => exact .quiet (accept_quiet K (Except.ok.inj h)).1
  | stream id call now => exact .quiet (stream_quiet h).1
  | streamDrop id => exact .quiet (streamDrop_quiet K (Except.ok.inj h)).1
  | listenerDrop => exact .quiet (listenerDrop_quiet K (Except.ok.inj h)).1
  | tick task nowMs =>
    rcases (tick_effect (Except.ok.inj h)).2 with hq | ⟨scheduled, session, hf⟩
    · exact .quiet hq
    · exact .finalized hf
  | ioTask id now => exact .quiet (ioTask_quiet h).1

theorem System.Effect.grows {event : Event} (h : System.Effect K rs config s event t) :
    s.Grows K t := by
  cases h with
  | quiet h => exact h.grows
  | opened hb ho hn h => exact (s.grows_newShared K _ _).trans h.grows
  | finalized h => exact h.grows
  | @notified notification rest _ hc ht =>
    have hrest : s.Grows K { s with closeRx := rest } := .of_eq rfl
    rw [ht]
    exact hrest.trans (System.grows_closePeer K _ _)

end TokioKcp
