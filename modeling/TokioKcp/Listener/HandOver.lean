import TokioKcp.Listener.Lifecycle
import TokioKcp.Listener.Conversations
import TokioKcp.Listener.Duplicates
import TokioKcp.Lib.Queue

namespace TokioKcp
set_option autoImplicit true

open Checked Fec Transition Queues

variable {κ : Type}

/-- The datagram that an event makes the listener hand to a session. -/
def System.addressed (K : KcpCrate κ) (rs : Nat → Nat → Except String ReedSolomon)
    (config : KcpConfig) (s : System κ) : Event → Option (Nat × Bytes)
  | .datagram packet peerAddr draws now =>
    (s.next? K rs config (.datagram packet peerAddr draws now)).bind System.forwarding
  | _ => none

def forSession (id : Nat) : Option (Nat × Bytes) → List Bytes
  | some (other, packet) => if other = id then [packet] else []
  | none => []

def KcpSession.nextInput (session : KcpSession κ) : List Bytes :=
  if session.ioTask then session.inputRx.take 1 else []

/-- What an event makes the I/O task of the session take. -/
def System.takes (s : System κ) (id : Nat) : Event → List Bytes
  | .ioTask other _ =>
    if other = id then ((s.arena[id]?).map KcpSession.nextInput).getD [] else []
  | _ => []

def addressedIn (K : KcpCrate κ) (rs : Nat → Nat → Except String ReedSolomon)
    (config : KcpConfig) (id : Nat) (trace : List (System κ × Event)) : List Bytes :=
  trace.flatMap fun x => forSession id (x.1.addressed K rs config x.2)

def takenIn (id : Nat) (trace : List (System κ × Event)) : List Bytes :=
  trace.flatMap fun x => x.1.takes id x.2

def System.inputOf (s : System κ) (id : Nat) : List Bytes :=
  ((s.arena[id]?).map KcpSession.inputRx).getD []

/-- What waits for a session: its channel, and what the listener holds for it. -/
def System.waiting (s : System κ) (id : Nat) : List Bytes :=
  s.inputOf id ++ forSession id s.forwarding

def System.Ended (s : System κ) (id : Nat) : Prop :=
  id < s.arena.length ∧ id ∉ s.scheduled

variable {K : KcpCrate κ} {rs : Nat → Nat → Except String ReedSolomon} {config : KcpConfig}
variable {s t u : System κ} {event : Event} {got : List CloseNotification} {id other : Nat}

theorem System.inputOf_close (s : System κ) (id other : Nat) :
    (s.modify other KcpSession.close).inputOf id = s.inputOf id := by
  change (((s.arena.modify other KcpSession.close)[id]?).map KcpSession.inputRx).getD [] = _
  rw [List.getElem?_modify, System.inputOf]
  cases s.arena[id]? with
  | none => rfl
  | some session =>
    change (if other = id then session.close else session).inputRx = session.inputRx
    split
    · rfl
    · rfl

theorem System.inputOf_dropHandle (s : System κ) (handle : Option Nat) (id : Nat) :
    (s.dropHandle handle).inputOf id = s.inputOf id := by
  cases handle with
  | none => rfl
  | some other => exact s.inputOf_close id other

theorem System.inputOf_closeAll (s : System κ) (ids : List Nat) (id : Nat) :
    (s.closeAll ids).inputOf id = s.inputOf id := by
  induction ids generalizing s with
  | nil => rfl
  | cons other ids ih =>
    exact (ih (s.modify other KcpSession.close)).trans (s.inputOf_close id other)

theorem System.inputOf_set {session session' : KcpSession κ} (hs : s.arena[other]? = some session)
    (ht : t.arena = s.arena.set other session') (id : Nat) :
    t.inputOf id = if id = other then session'.inputRx else s.inputOf id := by
  rw [System.inputOf, ht]
  split
  · rename_i hid
    rw [hid, List.getElem?_set_self (List.getElem?_eq_some_iff.mp hs).1]
    rfl
  · rename_i hid
    rw [List.getElem?_set_ne (Ne.symm hid), System.inputOf]

theorem System.inputOf_newShared (s : System κ) (socket : KcpSocket κ) (expire : Option Nat)
    (notifier : Option SocketAddr) (now : Nat) (id : Nat) :
    (s.newShared (.new socket expire notifier) now).inputOf id = s.inputOf id := by
  change (((s.arena ++ [_])[id]?).map KcpSession.inputRx).getD [] = _
  rw [System.inputOf]
  by_cases hid : id < s.arena.length
  · rw [List.getElem?_append_left hid]
  · rw [List.getElem?_eq_none (Nat.le_of_not_lt hid)]
    rw [List.getElem?_append_right (Nat.le_of_not_lt hid)]
    cases id - s.arena.length with
    | zero => rfl
    | succ n => rfl

theorem System.inputOf_opened (s : System κ) (socket : KcpSocket κ) (peer : SocketAddr)
    (now id : Nat) : (s.opened config socket peer now).inputOf id = s.inputOf id := by
  have hdrop := System.inputOf_dropHandle
    (s.newShared (.new socket config.sessionExpire (some peer)) now) (s.sessions.lookup peer) id
  exact hdrop.trans (s.inputOf_newShared socket _ _ now id)

theorem System.Handled.inputOf {packet : Bytes} {peer : SocketAddr} {draws : RandomDraws}
    {now : Nat} {outcome : Option (Nat × Bytes)}
    (h : s.Handled K rs config packet peer draws now t outcome) (id : Nat) :
    t.inputOf id = s.inputOf id := by
  cases h with
  | parity hp => rfl
  | tooShort hp hlen => rfl
  | failed hb ho hn => rfl
  | kept hb hg hc => rfl
  | mismatch hb hg hc hsn => rfl
  | @opened _ _ socket hb ho hn hroom => exact s.inputOf_opened socket peer now id
  | @refused _ _ socket hb ho hn hroom =>
    let v := (s.opened config socket peer now).modify s.arena.length KcpSession.close
    have hdrop := v.inputOf_dropHandle (v.sessions.lookup peer) id
    have hclose := System.inputOf_close (s.opened config socket peer now) id s.arena.length
    exact (hdrop.trans hclose).trans (s.inputOf_opened socket peer now id)

theorem System.Ended.step (h : s.Acts K rs config event t) (he : s.Ended id) : t.Ended id := by
  obtain ⟨hlt, hnot⟩ := he
  have harena := h.arena (KcpSession.lives_admits K)
  rw [System.Ended]
  generalize t.arena = arena', t.scheduled = tasks' at harena ⊢
  cases harena with
  | kept hl => exact ⟨hl.length_eq ▸ hlt, hnot⟩
  | born hborn hl =>
    have hlen := hl.length_eq
    rw [List.length_append, List.length_singleton] at hlen
    refine ⟨hlen ▸ Nat.lt_succ_of_lt hlt, ?_⟩
    rw [List.mem_append, List.mem_singleton]
    exact fun hm => hm.elim hnot (Nat.ne_of_lt hlt)
  | finalized htask hget hp =>
    rw [List.length_set]
    exact ⟨hlt, fun hm => hnot (List.eraseIdx_subset hm)⟩

theorem KcpSession.pollSchedulerTick_inputRx {session session' : KcpSession κ} {nowMs : Nat}
    {deadlineMs : Nat} {notification : Option SocketAddr}
    (h : session.pollSchedulerTick K nowMs = (session', some deadlineMs, notification)) :
    session'.inputRx = session.inputRx := by
  have hrx := (session.driveUpdate_input K nowMs).2
  rw [KcpSession.pollSchedulerTick] at h
  split at h
  · rename_i he
    rw [he] at hrx
    cases h
    exact hrx
  · cases h

theorem System.Step.addressed {packet : Bytes} {peer : SocketAddr} {draws : RandomDraws}
    {now : Nat} (h : s.Step K rs config (.datagram packet peer draws now) t) :
    s.addressed K rs config (.datagram packet peer draws now) = t.forwarding := by
  have hnext : s.next? K rs config (.datagram packet peer draws now) = some t := by
    rw [System.next?, h]
    rfl
  rw [System.addressed, hnext]
  rfl

theorem KcpSession.input_inputRx {session session' : KcpSession κ} {packet : Bytes}
    (h : session.input packet = .ready (some session')) :
    session'.inputRx = session.inputRx ++ [packet] := by
  rw [KcpSession.input] at h
  split at h
  · cases h
  · split at h
    · cases h
      rfl
    · cases h

theorem KcpSession.input_none {session : KcpSession κ} {packet : Bytes}
    (h : session.input packet = .ready none) : session.ioTask = false := by
  rw [KcpSession.input] at h
  split at h
  · rename_i hio
    exact Bool.not_eq_true' _ ▸ hio
  · split at h
    · cases h
    · cases h

theorem KcpSession.runIoTask_inputRx {session session' : KcpSession κ}
    (h : session.runIoTask K now = .ok session') :
    session.inputRx = session.nextInput ++ session'.inputRx ∧
      (session.nextInput = [] ∨ session.ioTask = true ∧ ∃ packet, session.nextInput = [packet]) := by
  rw [KcpSession.runIoTask] at h
  split at h
  · rename_i inputBuffer rest hio hrx
    obtain ⟨⟨socket, result⟩, _, h⟩ := bind_eq_ok.mp h
    cases h
    have hnext : session.nextInput = [inputBuffer] := by
      rw [KcpSession.nextInput, hio, hrx]
      rfl
    exact ⟨hrx.trans (congrArg (· ++ rest) hnext.symm), .inr ⟨hio, inputBuffer, hnext⟩⟩
  · rename_i hidle
    cases h
    have hnext : session.nextInput = [] := by
      rw [KcpSession.nextInput]
      split
      · rename_i hio
        cases hrx : session.inputRx with
        | nil => rfl
        | cons inputBuffer rest => exact absurd hrx (hidle inputBuffer rest hio)
      · rfl
    exact ⟨congrArg (· ++ session.inputRx) hnext.symm, .inl hnext⟩

/-- What a step can do to the datagrams of a session: it puts some behind those that wait, takes
the first of them, or has ended the session. -/
inductive System.Delivers (s t : System κ) (id : Nat) : List Bytes → List Bytes → Prop where
  | sent (h : t.waiting id = s.waiting id ++ put) : Delivers s t id put []
  | took (hopen : ¬s.Ended id) (h : s.waiting id = packet :: t.waiting id) :
    Delivers s t id [] [packet]
  | ended (h : t.Ended id) : Delivers s t id [] []

theorem System.Delivers.same (h : t.waiting id = s.waiting id) : s.Delivers t id [] [] :=
  .sent (h.trans (List.append_nil _).symm)

theorem System.waiting_set {session session' : KcpSession κ} (hs : s.arena[other]? = some session)
    (ht : t.arena = s.arena.set other session') (hf : t.forwarding = s.forwarding)
    (hrx : id = other → session'.inputRx = session.inputRx) : t.waiting id = s.waiting id := by
  rw [System.waiting, System.waiting, System.inputOf_set hs ht, hf]
  split
  · rename_i hid
    rw [hrx hid, System.inputOf, hid, hs]
    rfl
  · rfl

theorem System.Handled.waiting {packet : Bytes} {peer : SocketAddr} {draws : RandomDraws}
    {now : Nat} {outcome : Option (Nat × Bytes)} (hf : s.forwarding = none)
    (h : s.Handled K rs config packet peer draws now t outcome) (id : Nat) :
    System.waiting { t with forwarding := outcome } id =
      s.waiting id ++ forSession id outcome := by
  rw [System.waiting, System.waiting, hf, forSession, List.append_nil]
  exact congrArg (· ++ _) (h.inputOf id)

theorem System.waiting_forwarded {session session' : KcpSession κ} {packet : Bytes}
    (hf : s.forwarding = some (other, packet)) (hs : s.arena[other]? = some session)
    (hi : session.input packet = .ready (some session')) (id : Nat) :
    System.waiting { s with arena := s.arena.set other session', forwarding := none } id =
      s.waiting id := by
  rw [System.waiting, System.waiting, hf, System.inputOf_set hs rfl, forSession, forSession,
    List.append_nil]
  split
  · rename_i hid
    rw [hid, if_pos rfl, KcpSession.input_inputRx hi, System.inputOf, hs]
    rfl
  · rename_i hid
    rw [if_neg (Ne.symm hid), List.append_nil]

/-- A datagram is thrown away only when its session has ended. -/
theorem System.delivers_discarded {session : KcpSession κ} {packet : Bytes}
    (ha : s.Attended got) (hd : s.Descends K rs config)
    (hf : s.forwarding = some (other, packet)) (hs : s.arena[other]? = some session)
    (hi : session.input packet = .ready none) (id : Nat) :
    s.Delivers { s with forwarding := none } id [] [] := by
  by_cases hid : id = other
  · apply Delivers.ended
    refine ⟨hid ▸ (List.getElem?_eq_some_iff.mp hs).1, fun hm => ?_⟩
    have halive := ((ha.life hd hs).2.mp (hid ▸ hm)).2
    exact absurd ((KcpSession.input_none hi).symm.trans halive) Bool.noConfusion
  · apply Delivers.same
    rw [System.waiting, System.waiting, hf, forSession, forSession, if_neg (Ne.symm hid)]
    rfl

theorem System.waiting_dropHandle (s : System κ) (handle : Option Nat) (id : Nat) :
    (s.dropHandle handle).waiting id = s.waiting id := by
  rw [System.waiting, System.waiting, s.inputOf_dropHandle, System.forwarding_dropHandle]

theorem System.waiting_closeAll (s : System κ) (ids : List Nat) (id : Nat) :
    (s.closeAll ids).waiting id = s.waiting id := by
  rw [System.waiting, System.waiting, s.inputOf_closeAll, System.closeAll_forwarding]

theorem System.delivers_finalized {session' : KcpSession κ} {scheduled : ScheduledTask}
    {task : Nat} {closeRx : List CloseNotification} (ha : s.Attended got)
    (htask : s.tasks[task]? = some scheduled)
    (hs : s.arena[scheduled.session]? = some session) (id : Nat) :
    s.Delivers { s with
      arena := s.arena.set scheduled.session session'
      tasks := s.tasks.eraseIdx task
      closeRx := closeRx } id [] [] := by
  by_cases hid : id = scheduled.session
  · have hplace : s.scheduled[task]? = some scheduled.session := by
      rw [System.scheduled, List.getElem?_map, htask, Option.map_some]
    have hgone : scheduled.session ∉ s.scheduled.eraseIdx task :=
      (List.nodup_cons.mp ((perm_eraseIdx hplace).nodup_iff.mp ha.placed.nodup)).1
    apply Delivers.ended
    constructor
    · rw [List.length_set, hid]
      exact (List.getElem?_eq_some_iff.mp hs).1
    · rw [hid, System.scheduled, ← List.eraseIdx_map]
      exact hgone
  · exact .same (System.waiting_set hs rfl rfl fun he => absurd he hid)

theorem System.delivers_ioTask {session session' : KcpSession κ} (ha : s.Attended got)
    (hd : s.Descends K rs config) (hs : s.arena[other]? = some session)
    (hrun : session.runIoTask K now = .ok session') (id : Nat) :
    s.Delivers { s with arena := s.arena.set other session' } id []
      (s.takes id (.ioTask other now)) := by
  by_cases hid : other = id
  · subst hid
    have htakes : s.takes other (.ioTask other now) = session.nextInput := by
      rw [System.takes, if_pos rfl, hs]
      rfl
    have hbefore : s.waiting other = session.inputRx ++ forSession other s.forwarding := by
      rw [System.waiting, System.inputOf, hs]
      rfl
    have hafter : System.waiting { s with arena := s.arena.set other session' } other =
        session'.inputRx ++ forSession other s.forwarding := by
      rw [System.waiting, System.inputOf_set hs rfl, if_pos rfl]
    obtain ⟨hrx, hnext | ⟨hio, packet, hnext⟩⟩ := KcpSession.runIoTask_inputRx hrun
    · rw [htakes, hnext]
      rw [hnext, List.nil_append] at hrx
      exact .same (by rw [hbefore, hafter, hrx])
    · have hopen : ¬s.Ended other := by
        rintro ⟨_, hnot⟩
        obtain ⟨_, _, hgone, _⟩ := (ha.life hd hs).1.mp hnot
        exact absurd (hio.symm.trans hgone) Bool.noConfusion
      rw [htakes, hnext]
      rw [hnext] at hrx
      exact .took hopen (by rw [hbefore, hafter, hrx, List.append_assoc, List.singleton_append])
  · have htakes : s.takes id (.ioTask other now) = [] := if_neg hid
    rw [htakes]
    exact .same (System.waiting_set hs rfl rfl fun he => absurd he.symm hid)

theorem System.Step.delivers (hW : K.wire.Laws) (ha : s.Attended got)
    (hd : s.Descends K rs config) (h : s.Step K rs config event t) (id : Nat) :
    s.Delivers t id (forSession id (s.addressed K rs config event)) (s.takes id event) := by
  cases System.Step.acts hW h with
  | handled hf hh =>
    rw [h.addressed]
    exact .sent (hh.waiting hf id)
  | forwarded hf hs hi => exact .same (System.waiting_forwarded hf hs hi id)
  | discarded hf hs hi => exact System.delivers_discarded ha hd hf hs hi id
  | @notified notification rest hf hc =>
    have hwaiting := System.waiting_dropHandle { s with closeRx := rest }
      (s.sessions.lookup notification.peer) id
    exact .same hwaiting
  | accepted ha => exact .same rfl
  | called hs hm hcall => exact .same (System.waiting_set hs rfl rfl fun _ => rfl)
  | @streamDropped other hm =>
    have hin := System.inputOf_close { s with streams := s.streams.erase other } id other
    exact .same (congrArg (· ++ _) hin)
  | listenerDropped hc =>
    have hwaiting := System.waiting_closeAll { s with acceptRx := [], acceptClosed := true }
      (s.acceptRx.map Prod.fst) id
    exact .same hwaiting
  | rescheduled htask hs hdue hp =>
    have hrx := KcpSession.pollSchedulerTick_inputRx hp
    exact .same (System.waiting_set hs rfl rfl fun _ => hrx)
  | finalized htask hs hdue hp => exact System.delivers_finalized ha htask hs id
  | ranIoTask hs hrun => exact System.delivers_ioTask ha hd hs hrun id

/-- Datagrams reach the I/O task of a session in the order in which the listener addresses them
to the session, each once, as long as the session is not finalized. -/
theorem System.Step.inOrder {put taken : List Bytes} (hW : K.wire.Laws)
    (hs : s.Attended got) (hd : s.Descends K rs config) (h : s.Step K rs config event t)
    (ho : InOrder put taken (s.waiting id) (s.Ended id)) :
    InOrder (put ++ forSession id (s.addressed K rs config event)) (taken ++ s.takes id event)
      (t.waiting id) (t.Ended id) := by
  have hended : s.Ended id → t.Ended id := fun he => he.step (System.Step.acts hW h)
  have hhands := System.Step.delivers hW hs hd h id
  generalize forSession id (s.addressed K rs config event) = more, s.takes id event = first
    at hhands
  cases hhands with
  | sent hw =>
    rw [List.append_nil, hw]
    have hmore := ho.send more
    exact ⟨hmore.isPrefix, fun hopen => hmore.whole fun he => hopen (hended he)⟩
  | took hopen hw =>
    rw [hw] at ho
    rw [List.append_nil]
    have htook := ho.take hopen
    exact ⟨htook.isPrefix, fun hn => htook.whole fun he => hn (hended he)⟩
  | ended he =>
    rw [List.append_nil, List.append_nil]
    exact ho.end he

theorem System.run_inOrder {trace : List (System κ × Event)} (hW : K.wire.Laws)
    (hrun : Run (System.Step K rs config) .new trace s) (id : Nat) :
    InOrder (addressedIn K rs config id trace) (takenIn id trace) (s.waiting id) (s.Ended id) := by
  apply InOrder.run (P := fun s : System κ => (∃ got, s.Attended got) ∧ s.Descends K rs config)
    hrun ⟨⟨[], System.new_attended⟩, System.new_descends K rs config⟩ rfl
  · rintro s event t ⟨⟨got, hs⟩, hd⟩ hstep
    exact ⟨⟨_, System.Step.attended hW hstep hs⟩, (System.Step.acts hW hstep).descends hd⟩
  · rintro s event t put taken ⟨⟨got, hs⟩, hd⟩ hstep ho
    exact System.Step.inOrder hW hs hd hstep ho

/-- The datagram that a session is handed came from its peer, whole or with a conversation
filled in. -/
def HandedFrom (config : KcpConfig) (event : Event) (peer : SocketAddr) (packet' : Bytes) :
    Prop :=
  ∃ packet draws now, event = .datagram packet peer draws now ∧
    (packet' = packet ∨ ∃ front body, kcpPacket config packet = .ok (front, body) ∧
      packet' = front ++ withConvFor draws body)

theorem System.get_peerOf {session : KcpSession κ} {peer : SocketAddr} (hs : s.Accounted)
    (h : s.get peer = some (id, session)) : s.peerOf id = some peer :=
  (hs.table peer id (System.get_eq_some h).1).1

theorem System.Step.handedFrom {packet' : Bytes} (hW : K.wire.Laws) (hs : s.Accounted)
    (h : s.Step K rs config event t) (ha : s.addressed K rs config event = some (id, packet')) :
    ∃ peer, t.peerOf id = some peer ∧ HandedFrom config event peer packet' := by
  cases event with
  | datagram packet peer draws now =>
    rw [h.addressed] at ha
    cases System.Step.acts hW h with
    | handled hf hh =>
      have ha := ha
      cases hh with
      | parity hp =>
        obtain ⟨⟨other, session⟩, hg, he⟩ := Option.map_eq_some_iff.mp ha
        cases he
        have hpeer := System.get_peerOf hs hg
        exact ⟨peer, hpeer, _, draws, now, rfl, .inl rfl⟩
      | tooShort hp hlen => cases ha
      | failed hb ho hn => cases ha
      | @opened front body socket hb ho hn hroom =>
        cases ha
        have hpeer := (s.opening_opened K config socket peer now).peerOf_new
        exact ⟨peer, hpeer, packet, draws, now, rfl, .inr ⟨front, body, hb.packet, rfl⟩⟩
      | refused hb ho hn hroom => cases ha
      | @kept front body session other hb hg hc =>
        cases ha
        have hpeer := System.get_peerOf hs hg
        exact ⟨peer, hpeer, packet, draws, now, rfl, .inr ⟨front, body, hb.packet, rfl⟩⟩
      | mismatch hb hg hc hsn => cases ha
  | _ => cases ha

theorem System.run_handedFrom {trace : List (System κ × Event)} (hW : K.wire.Laws)
    (hs : s.Accounted) (hrun : Run (System.Step K rs config) s trace t) :
    ∀ x ∈ trace, ∀ packet', x.1.addressed K rs config x.2 = some (id, packet') →
      ∃ peer, t.peerOf id = some peer ∧ HandedFrom config x.2 peer packet' := by
  induction hrun with
  | nil => intro x hx; cases hx
  | @cons s event u trace t hstep hrest ih =>
    have hgrows : u.Grows K t := (hrest.relates (R := System.Grows K) (fun s => .of_eq rfl)
      (fun _ _ _ h h' => h.trans h') (fun _ _ _ h => (System.Step.effect hW h).grows)).1
    intro x hx packet' ha
    cases hx with
    | head =>
      obtain ⟨peer, hpeer, hfrom⟩ := System.Step.handedFrom hW hs hstep ha
      exact ⟨peer, hgrows.peerOf hpeer, hfrom⟩
    | tail _ hx => exact ih ((System.Step.effect hW hstep).accounted hs) x hx packet' ha

/-- The I/O task of a session takes just what the listener addressed to the session, in order,
without loss and without repetition, until the session is finalized; and all of this came from
the session's own peer. -/
theorem datagrams_in_order {trace : List (System κ × Event)} (hW : K.wire.Laws)
    (hrun : Run (System.Step K rs config) .new trace s) (id : Nat) :
    takenIn id trace <+: addressedIn K rs config id trace ∧
    (∀ session, s.arena[id]? = some session → ¬session.Finalized →
      addressedIn K rs config id trace =
        takenIn id trace ++ session.inputRx ++ forSession id s.forwarding) ∧
    ∀ x ∈ trace, ∀ packet', x.1.addressed K rs config x.2 = some (id, packet') →
      ∃ peer, s.peerOf id = some peer ∧ HandedFrom config x.2 peer packet' := by
  have h := System.run_inOrder hW hrun id
  have hs : s.Attended (received trace) := System.run_attended hW System.new_attended hrun
  have hd := System.run_descends hW hrun
  refine ⟨h.isPrefix, ?_, System.run_handedFrom hW System.new_accounted hrun⟩
  intro session hget hlive
  have hopen : ¬s.Ended id := fun he => hlive ((hs.life hd hget).1.mp he.2)
  rw [h.whole hopen, System.waiting, System.inputOf, hget, List.append_assoc]
  rfl

/-- Three datagrams of a peer, of which one was taken, one waits in the channel and one is held
by the listener. -/
theorem datagrams_in_order_small : ∃ trace s session,
    Run (System.Step smallKcp reedSolomon {}) .new trace s ∧ s.arena[0]? = some session ∧
    ¬session.Finalized ∧ takenIn 0 trace = [segment 1 81 0 [65]] ∧
    session.inputRx = [segment 1 81 1 [66]] ∧
    forSession 0 s.forwarding = [segment 1 81 2 [67]] ∧
    takenIn 0 trace <+: addressedIn smallKcp reedSolomon {} 0 trace ∧
    (∀ session, s.arena[0]? = some session → ¬session.Finalized →
      addressedIn smallKcp reedSolomon {} 0 trace =
        takenIn 0 trace ++ session.inputRx ++ forSession 0 s.forwarding) ∧
    ∀ x ∈ trace, ∀ packet', x.1.addressed smallKcp reedSolomon {} x.2 = some (0, packet') →
      ∃ peer, s.peerOf 0 = some peer ∧ HandedFrom {} x.2 peer packet' := by
  have hreplay : ∃ trace s session, replay (System.next? smallKcp reedSolomon {}) .new
      [.datagram (segment 1 81 0 [65]) ⟨[10, 0, 0, 1], 4000⟩ ⟨[9], rfl⟩ 0, .forward,
        .datagram (segment 1 81 1 [66]) ⟨[10, 0, 0, 1], 4000⟩ ⟨[9], rfl⟩ 1, .forward, .ioTask 0 2,
        .datagram (segment 1 81 2 [67]) ⟨[10, 0, 0, 1], 4000⟩ ⟨[9], rfl⟩ 3] = some (trace, s) ∧
      s.arena[0]? = some session ∧ session.ioTask = true ∧
      takenIn 0 trace = [segment 1 81 0 [65]] ∧ session.inputRx = [segment 1 81 1 [66]] ∧
      forSession 0 s.forwarding = [segment 1 81 2 [67]] := ⟨_, _, _, rfl, rfl, rfl, rfl, rfl, rfl⟩
  obtain ⟨trace, s, session, hr, hget, hio, htaken, hrx, hheld⟩ := hreplay
  have hrun := run_of_replay (fun _ _ _ => System.step_of_next? smallKcp reedSolomon {}) hr
  have hlive : ¬session.Finalized := fun ⟨_, _, hgone, _⟩ =>
    absurd (hio.symm.trans hgone) Bool.noConfusion
  exact ⟨trace, s, session, hrun, hget, hlive, htaken, hrx, hheld,
    datagrams_in_order smallWire_laws hrun 0⟩

end TokioKcp
