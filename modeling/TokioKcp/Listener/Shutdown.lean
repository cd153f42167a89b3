import TokioKcp.Listener.OpenSessions

namespace TokioKcp
set_option autoImplicit true

open Checked Fec Transition Population

variable {κ : Type}

/-- The listener's task ends, since it was aborted or has panicked. Its table goes with it, and
what it waited to hand on; notifications are sent to nobody. -/
def System.abort (s : System κ) : System κ :=
  { s.closeAll (s.sessions.entries.map Sigma.snd) with
    sessions := ∅, closeRx := [], forwarding := none }

/-- What goes on without the listener's task. -/
def Event.Outlives : Event → Prop
  | .datagram _ _ _ _ | .forward | .closeNotification => False
  | _ => True

def System.WindDown (K : KcpCrate κ) (rs : Nat → Nat → Except String ReedSolomon)
    (config : KcpConfig) (s : System κ) (event : Event) (t : System κ) : Prop :=
  event.Outlives ∧ s.Step K rs config event t

/-- The sessions that the task has left behind, all of them closed. -/
structure System.Abandoned (K : KcpCrate κ) (rs : Nat → Nat → Except String ReedSolomon)
    (config : KcpConfig) (got : List CloseNotification) (count : Nat) (s : System κ) : Prop where
  attended : s.Attended got
  descends : s.Descends K rs config
  closed : ∀ session ∈ s.arena, session.closed = true
  length : s.arena.length = count

variable {K : KcpCrate κ} {rs : Nat → Nat → Except String ReedSolomon} {config : KcpConfig}
variable {s t u : System κ} {event : Event} {got : List CloseNotification} {taken : List Nat}
variable {count : Nat} {p : Nat} {task : ScheduledTask} {session : KcpSession κ} {nowMs : Nat}

theorem System.closeAll_quiet (K : KcpCrate κ) (s : System κ) (ids : List Nat) :
    s.Quiet K (s.closeAll ids) := by
  induction ids generalizing s with
  | nil => exact ⟨.of_eq rfl, rfl, rfl, rfl, rfl⟩
  | cons id ids ih =>
    have hrest := ih (s.modify id KcpSession.close)
    exact ⟨(s.grows_modify (KcpSession.close_evolves K) id).trans hrest.grows,
      hrest.length.trans (List.length_modify _ _ _), hrest.sessions, hrest.closeRx, hrest.tasks⟩

theorem System.Attended.abort (K : KcpCrate κ) (hs : s.Attended got) :
    s.abort.Attended (got ++ s.closeRx) := by
  have hquiet := s.closeAll_quiet K (s.sessions.entries.map Sigma.snd)
  have haccounted := hquiet.accounted hs.accounted
  have hscheduled : s.abort.scheduled = s.scheduled := hquiet.tasks
  constructor
  · exact {
      peers := haccounted.peers
      tasks := haccounted.tasks
      closeRx := fun _ h => absurd h List.not_mem_nil
      table := fun peer id h => by
        change (∅ : FinMap SocketAddr Nat).lookup peer = _ at h
        rw [AList.lookup_empty] at h
        cases h }
  · have hlength : s.abort.arena.length = s.arena.length := hquiet.length
    rw [System.Placed, hscheduled, hlength]
    change (s.scheduled ++ (got ++ s.closeRx ++ []).map _).Perm _
    rw [List.append_nil]
    exact hs.placed
  · intro n hn
    apply hquiet.grows.peerOf
    rcases List.mem_append.mp hn with hold | hdropped
    · exact hs.told n hold
    · exact hs.accounted.closeRx n hdropped
  · intro id session hget
    have hlives := System.closeAll_follows (KcpSession.lives_admits K) s
      (s.sessions.entries.map Sigma.snd)
    obtain ⟨before, hbefore, hlive⟩ := forall₂_getElem? hlives hget
    rw [hlive.socket, hscheduled]
    exact hs.tended id before hbefore

theorem System.Entered.abort (he : s.Entered taken) (ha : s.abort.Accounted) :
    ∀ session ∈ s.abort.arena, session.closed = true := by
  intro session hm
  obtain ⟨id, hget⟩ := List.getElem?_of_mem hm
  by_contra hopen
  rw [Bool.not_eq_true] at hopen
  obtain ⟨peer, hpeer⟩ := ha.peers id (List.getElem?_eq_some_iff.mp hget).1
  rw [System.peerOf, hget, Option.bind_some] at hpeer
  have hclosing : (s.closeAll (s.sessions.entries.map Sigma.snd)).OpenFor id peer :=
    ⟨session, hget, hopen, hpeer⟩
  obtain ⟨hnot, hold⟩ := openFor_closeAll hclosing
  have hentry := FinMap.lookup_eq_some.mp (he.table id peer hold)
  exact hnot (List.mem_map.mpr ⟨⟨peer, id⟩, hentry, rfl⟩)

theorem System.Attended.abandoned (hs : s.Attended got) (he : s.Entered taken)
    (hd : s.Descends K rs config) :
    s.abort.Abandoned K rs config (got ++ s.closeRx) s.arena.length where
  attended := hs.abort K
  descends := hd.forall₂ (KcpSession.reaches_admits K).trans
    (System.closeAll_follows (KcpSession.reaches_admits K) s _)
  closed := he.abort (hs.abort K).accounted
  length := (s.closeAll_quiet K _).length

theorem System.Abandoned.step (hW : K.wire.Laws) (hs : s.Abandoned K rs config got count)
    (h : s.WindDown K rs config event t) : t.Abandoned K rs config got count := by
  obtain ⟨hout, hstep⟩ := h
  have heffect := System.Step.effect hW hstep
  have hacts := System.Step.acts hW hstep
  have hreceives : s.receives event = [] := by
    cases event with
    | closeNotification => exact hout.elim
    | _ => rfl
  have hattended := System.Step.attended hW hstep hs.attended
  rw [hreceives, List.append_nil] at hattended
  refine ⟨hattended, hacts.descends hs.descends, ?_, ?_⟩
  · intro session hm
    obtain ⟨id, hget⟩ := List.getElem?_of_mem hm
    have hlt := (List.getElem?_eq_some_iff.mp hget).1
    have hback (hl : t.arena.length = s.arena.length) (hg : s.Grows K t) :
        session.closed = true := by
      rw [hl] at hlt
      obtain ⟨session', hget', he⟩ := hg id s.arena[id] (List.getElem?_eq_getElem hlt)
      rw [hget] at hget'
      cases hget'
      exact he.closed (hs.closed _ (List.getElem_mem hlt))
    cases heffect with
    | quiet h => exact hback h.length h.grows
    | opened hb ho hn h => exact hout.elim
    | finalized h => exact hback h.length h.grows
    | notified h ht => exact hout.elim
  · cases heffect with
    | quiet h => exact h.length.trans hs.length
    | opened hb ho hn h => exact hout.elim
    | finalized h => exact h.length.trans hs.length
    | notified h ht => exact hout.elim

theorem System.Descends.expireMs_lt (hd : s.Descends K rs config) (hm : session ∈ s.arena) :
    session.sessionExpireMs < 2 ^ 64 := by
  obtain ⟨_, ⟨conv, socket, peer, now, _, _, rfl⟩, own, hown, _⟩ := hd session hm
  have hsame : session.sessionExpireMs =
      (KcpSession.new socket config.sessionExpire (some peer)).sessionExpireMs :=
    congrArg Prod.fst (KcpSession.run_expiry hown)
  rw [hsame]
  exact KcpSession.new_expireMs_lt _ _ _

theorem System.tick_due (rs : Nat → Nat → Except String ReedSolomon) (config : KcpConfig)
    (htask : s.tasks[p]? = some task) (hget : s.arena[task.session]? = some session)
    (hdue : task.deadlineMs ≤ nowMs) :
    ∃ t session' next notification,
      session.pollSchedulerTick K nowMs = (session', next, notification) ∧
      s.Step K rs config (.tick p nowMs) t ∧ t.arena = s.arena.set task.session session' ∧
      (next = none → t.tasks = s.tasks.eraseIdx p) := by
  have hnot : ¬ task.deadlineMs > nowMs := Nat.not_lt_of_le hdue
  rcases hpoll : session.pollSchedulerTick K nowMs with ⟨session', next, notification⟩
  cases next with
  | some deadlineMs =>
    refine ⟨{ s with
      arena := s.arena.set task.session session'
      tasks := s.tasks.set p ⟨task.session, deadlineMs⟩ },
      session', some deadlineMs, notification, rfl, ?_, rfl, nofun⟩
    rw [System.Step, System.next, System.tick]
    simp only [htask, hget, hpoll, if_neg hnot]
  | none =>
    refine ⟨{ s with
      arena := s.arena.set task.session session'
      tasks := s.tasks.eraseIdx p
      closeRx := s.closeRx ++ notification.toList.map fun peer => ⟨peer, task.session⟩ },
      session', none, notification, rfl, ?_, rfl, fun _ => rfl⟩
    rw [System.Step, System.next, System.tick]
    simp only [htask, hget, hpoll, if_neg hnot]

theorem KcpSession.pollSchedulerTick_driveUpdate {session' : KcpSession κ} {next : Option Nat}
    {notification : Option SocketAddr}
    (h : session.pollSchedulerTick K nowMs = (session', next, notification)) :
    (session.driveUpdate K nowMs).2 = next := by
  rw [KcpSession.pollSchedulerTick] at h
  split at h
  · rename_i hd
    cases h
    rw [hd]
  · rename_i hd
    cases h
    rw [hd]

/-- A poll finalizes a session that was left behind just if the session has nothing more to send,
has expired, or cannot send. -/
theorem System.Abandoned.finalizes (hs : s.Abandoned K rs config got count)
    (htask : s.tasks[p]? = some task) (hget : s.arena[task.session]? = some session)
    (hdue : task.deadlineMs ≤ nowMs) : ∃ t session', s.Step K rs config (.tick p nowMs) t ∧
      t.arena[task.session]? = some session' ∧
      (session'.Finalized ↔ K.waitSnd session.socket.kcp = 0 ∨ session.Expired nowMs ∨
        session.OutputClosed K nowMs) := by
  have hm := List.mem_of_getElem? hget
  have hexpire := hs.descends.expireMs_lt hm
  obtain ⟨t, session', next, notification, hpoll, hstep, harena, _⟩ :=
    System.tick_due rs config htask hget hdue
  refine ⟨t, session', hstep, ?_, ?_⟩
  · rw [harena]
    exact List.getElem?_set_self (List.getElem?_eq_some_iff.mp hget).1
  · have hnone := KcpSession.driveUpdate_none_iff K nowMs hexpire
    rw [KcpSession.pollSchedulerTick_driveUpdate hpoll, hs.closed session hm, eq_self,
      true_and] at hnone
    rw [← hnone]
    cases next with
    | none => exact iff_of_true (KcpSession.pollSchedulerTick_finalized hpoll) rfl
    | some deadlineMs =>
      have hmem : task.session ∈ s.scheduled :=
        List.mem_map_of_mem (List.mem_of_getElem? htask)
      have hopen := ((hs.attended.life hs.descends hget).2.mp hmem).1
      have hsame := ((KcpSession.lives_admits K).tick _ _ _ _ _ hpoll).socket
      refine iff_of_false ?_ nofun
      rintro ⟨_, hclosed, _, _⟩
      exact Bool.false_ne_true (hopen.symm.trans (hsame.symm.trans hclosed))

/-- Once no session has anything more to send, the scheduler finalizes all of them, one poll
each. -/
theorem System.Abandoned.drains (hW : K.wire.Laws) (hs : s.Abandoned K rs config got count)
    (hsent : ∀ id ∈ s.scheduled, ∀ session, s.arena[id]? = some session →
      K.waitSnd session.socket.kcp = 0) :
    ∃ trace t, Run (System.WindDown K rs config) s trace t ∧
      trace.length = s.tasks.length ∧ ∀ session ∈ t.arena, session.Finalized := by
  generalize hn : s.tasks.length = n
  induction n generalizing s with
  | zero =>
    refine ⟨[], s, .nil, rfl, ?_⟩
    intro session hm
    obtain ⟨id, hget⟩ := List.getElem?_of_mem hm
    apply (hs.attended.life hs.descends hget).1.mp
    rw [System.scheduled, List.eq_nil_of_length_eq_zero hn]
    exact List.not_mem_nil
  | succ n ih =>
    obtain ⟨task, tasks, htasks⟩ := List.exists_cons_of_length_eq_add_one hn
    have htask : s.tasks[0]? = some task := by
      rw [htasks]
      rfl
    have hscheduled : s.scheduled = task.session :: tasks.map ScheduledTask.session := by
      rw [System.scheduled, htasks]
      rfl
    have hmem : task.session ∈ s.scheduled := by
      rw [hscheduled]
      exact List.mem_cons_self
    have hlt := hs.attended.accounted.tasks task.session hmem
    have hget := List.getElem?_eq_getElem hlt
    obtain ⟨t, session', next, notification, hpoll, hstep, harena, hleft⟩ :=
      System.tick_due (K := K) rs config htask hget (Nat.le_refl _)
    have hclosed := hs.closed _ (List.getElem_mem hlt)
    have hnone : next = none := by
      rw [← KcpSession.pollSchedulerTick_driveUpdate hpoll,
        KcpSession.driveUpdate_none_iff K _ (hs.descends.expireMs_lt (List.getElem_mem hlt))]
      exact .inl ⟨hclosed, hsent _ hmem _ hget⟩
    have hleft := hleft hnone
    rw [htasks] at hleft
    have hdown : s.WindDown K rs config (.tick 0 task.deadlineMs) t := ⟨True.intro, hstep⟩
    have hrest : t.scheduled = tasks.map ScheduledTask.session := by
      rw [System.scheduled, hleft]
      rfl
    have hnodup := hs.attended.placed.nodup
    rw [hscheduled, List.nodup_cons] at hnodup
    obtain ⟨trace, u, hrun, hlength, hall⟩ := ih (hs.step hW hdown)
      (by
        intro id hid session hget'
        rw [hrest] at hid
        have hne : task.session ≠ id := by
          intro he
          rw [he] at hnodup
          exact hnodup.1 hid
        rw [harena, List.getElem?_set_ne hne] at hget'
        apply hsent id _ session hget'
        rw [hscheduled]
        exact List.mem_cons_of_mem _ hid)
      (by
        rw [htasks, List.length_cons] at hn
        rw [hleft]
        exact Nat.succ.inj hn)
    exact ⟨_, u, .cons hdown hrun, congrArg Nat.succ hlength, hall⟩

/-- When the listener's task ends, in whatever state the listener is, all sessions are closed, also
those whose streams the application goes on with. No session comes after that, each has a task of
the scheduler until it is finalized, a poll finalizes it just if it has nothing more to send, has
expired or cannot send, and one poll each is enough once nothing is left to send. -/
theorem shutdown_reclaims {trace after : List (System κ × Event)} (hW : K.wire.Laws)
    (hrun : Run (System.Step K rs config) .new trace s)
    (hdown : Run (System.WindDown K rs config) s.abort after u) :
    u.arena.length = s.arena.length ∧ (∀ session ∈ u.arena, session.closed = true) ∧
    (∀ (id : Nat) session, u.arena[id]? = some session →
      (id ∉ u.scheduled ↔ session.Finalized)) ∧
    (∀ (p : Nat) task session nowMs, u.tasks[p]? = some task →
      u.arena[task.session]? = some session → task.deadlineMs ≤ nowMs →
      ∃ v session', u.Step K rs config (.tick p nowMs) v ∧
        v.arena[task.session]? = some session' ∧
        (session'.Finalized ↔ K.waitSnd session.socket.kcp = 0 ∨ session.Expired nowMs ∨
          session.OutputClosed K nowMs)) ∧
    ((∀ id ∈ u.scheduled, ∀ session, u.arena[id]? = some session →
      K.waitSnd session.socket.kcp = 0) →
      ∃ polls v, Run (System.WindDown K rs config) u polls v ∧
        polls.length = u.tasks.length ∧ ∀ session ∈ v.arena, session.Finalized) := by
  have hattended := System.run_attended hW System.new_attended hrun
  have hentered := System.run_entered hW System.new_entered hrun
  have hstart := hattended.abandoned hentered (System.run_descends hW hrun)
  have hu := (hdown.invariant (fun _ _ _ h hstep => h.step hW hstep) hstart).2
  exact ⟨hu.length, hu.closed, fun id session hget => (hu.attended.life hu.descends hget).1,
    fun p task session nowMs htask hget hdue => hu.finalizes htask hget hdue,
    fun hsent => hu.drains hW hsent⟩

/-- The application goes on with the stream of one of the two sessions. -/
theorem shutdown_reclaims_small : ∃ trace s after u,
    Run (System.Step smallKcp reedSolomon {}) .new trace s ∧
    s.arena.map KcpSession.closed = [false, false] ∧
    Run (System.WindDown smallKcp reedSolomon {}) s.abort after u ∧
    after.map Prod.snd = [.stream 0 (.pollRecv 5 10) 1, .tick 1 10] ∧ u.scheduled = [0] ∧
    u.arena.length = s.arena.length ∧ (∀ session ∈ u.arena, session.closed = true) ∧
    (∀ (id : Nat) session, u.arena[id]? = some session →
      (id ∉ u.scheduled ↔ session.Finalized)) ∧
    ∃ polls v, Run (System.WindDown smallKcp reedSolomon {}) u polls v ∧
      polls.length = u.tasks.length ∧ ∀ session ∈ v.arena, session.Finalized := by
  have hreplay : ∃ trace s middle after u, replay (System.next? smallKcp reedSolomon {}) .new
      [.datagram (segment 7 81 0 [65]) ⟨[10, 0, 0, 1], 4000⟩ ⟨[9], rfl⟩ 0, .forward,
        .datagram (segment 8 81 0 [65]) ⟨[10, 0, 0, 2], 4000⟩ ⟨[9], rfl⟩ 0, .forward,
        .accept] = some (trace, s) ∧
      s.arena.map KcpSession.closed = [false, false] ∧
      s.abort.next? smallKcp reedSolomon {} (.stream 0 (.pollRecv 5 10) 1) = some middle ∧
      middle.next? smallKcp reedSolomon {} (.tick 1 10) = some u ∧
      after = [(s.abort, Event.stream 0 (.pollRecv 5 10) 1), (middle, .tick 1 10)] ∧
      u.scheduled = [0] ∧
      ∀ id ∈ u.scheduled, ∀ session, u.arena[id]? = some session →
        smallKcp.waitSnd session.socket.kcp = 0 := by
    refine ⟨_, _, _, _, _, rfl, rfl, rfl, rfl, rfl, rfl, ?_⟩
    intro id hid session hget
    cases List.mem_singleton.mp hid
    cases hget
    rfl
  obtain ⟨trace, s, middle, after, u, hr, hopen, hfirst, hsecond, hafter, htasks, hsent⟩ := hreplay
  have hrun := run_of_replay (fun _ _ _ => System.step_of_next? smallKcp reedSolomon {}) hr
  have hdown : Run (System.WindDown smallKcp reedSolomon {}) s.abort after u := by
    rw [hafter]
    exact .cons ⟨True.intro, System.step_of_next? _ _ _ hfirst⟩
      (.cons ⟨True.intro, System.step_of_next? _ _ _ hsecond⟩ .nil)
  have hevents : after.map Prod.snd = [.stream 0 (.pollRecv 5 10) 1, .tick 1 10] := by
    rw [hafter]
    rfl
  obtain ⟨hlength, hclosed, hfinal, _, hdrains⟩ := shutdown_reclaims smallWire_laws hrun hdown
  exact ⟨trace, s, after, u, hrun, hopen, hdown, hevents, htasks, hlength, hclosed, hfinal,
    hdrains hsent⟩

end TokioKcp
