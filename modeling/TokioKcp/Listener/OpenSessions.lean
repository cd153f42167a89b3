import TokioKcp.Listener.Lifecycle

namespace TokioKcp
set_option autoImplicit true

open Checked Fec Transition

variable {κ : Type}

/-- The session is one for the peer, and it is not closed. -/
def System.OpenFor (s : System κ) (id : Nat) (peer : SocketAddr) : Prop :=
  ∃ session, s.arena[id]? = some session ∧ session.closed = false ∧
    session.sessionCloseNotifier = some peer

def System.queued (s : System κ) : List Nat := s.acceptRx.map Prod.fst

def System.accepts (s : System κ) : Event → List Nat
  | .accept => s.queued.take 1
  | _ => []

def acceptedIn (trace : List (System κ × Event)) : List Nat :=
  trace.flatMap fun x => x.1.accepts x.2

/-- A session that is not closed is its peer's in the table, and its stream waits in the accept
queue or is the application's. Streams are accepted in the order in which their sessions were
made. -/
structure System.Entered (s : System κ) (taken : List Nat) : Prop where
  table : ∀ id peer, s.OpenFor id peer → s.sessions.lookup peer = some id
  offered : ∀ id peer, s.OpenFor id peer → id ∈ s.streams ∨ id ∈ s.queued
  order : (taken ++ s.queued).Pairwise (· < ·)
  created : ∀ id ∈ taken ++ s.queued, id < s.arena.length
  streams : s.streams.Sublist taken
  room : s.acceptRx.length ≤ acceptBacklog

variable {K : KcpCrate κ} {rs : Nat → Nat → Except String ReedSolomon} {config : KcpConfig}
variable {s t : System κ} {event : Event} {id other : Nat} {peer p : SocketAddr}
variable {taken : List Nat}

theorem System.openFor_close (h : (s.modify other KcpSession.close).OpenFor id p) :
    id ≠ other ∧ s.OpenFor id p := by
  obtain ⟨session, hget, hopen, hpeer⟩ := h
  change (s.arena.modify other KcpSession.close)[id]? = some session at hget
  rw [List.getElem?_modify] at hget
  obtain ⟨before, hbefore, rfl⟩ := Option.map_eq_some_iff.mp hget
  by_cases hid : other = id
  · rw [if_pos hid] at hopen
    cases hopen
  · rw [if_neg hid] at hopen hpeer
    exact ⟨Ne.symm hid, before, hbefore, hopen, hpeer⟩

theorem System.openFor_dropHandle {handle : Option Nat} (h : (s.dropHandle handle).OpenFor id p) :
    handle ≠ some id ∧ s.OpenFor id p := by
  cases handle with
  | none => exact ⟨nofun, h⟩
  | some other =>
    obtain ⟨hne, h⟩ := openFor_close h
    exact ⟨fun he => hne (Option.some.inj he).symm, h⟩

theorem System.openFor_closeAll {ids : List Nat}
    (h : (s.closeAll ids).OpenFor id p) : id ∉ ids ∧ s.OpenFor id p := by
  induction ids generalizing s with
  | nil => exact ⟨List.not_mem_nil, h⟩
  | cons other ids ih =>
    obtain ⟨hnot, hrest⟩ := ih h
    obtain ⟨hne, hs⟩ := openFor_close hrest
    exact ⟨List.not_mem_cons_of_ne_of_not_mem hne hnot, hs⟩

theorem System.openFor_set {session session' : KcpSession κ}
    (hs : s.arena[other]? = some session) (he : session.Evolves K session')
    (ht : t.arena = s.arena.set other session') (h : t.OpenFor id p) : s.OpenFor id p := by
  obtain ⟨after, hget, hopen, hpeer⟩ := h
  rw [ht] at hget
  by_cases hid : id = other
  · rw [hid, List.getElem?_set_self (List.getElem?_eq_some_iff.mp hs).1] at hget
    cases hget
    refine ⟨session, hid ▸ hs, ?_, he.notifier ▸ hpeer⟩
    by_contra hc
    rw [Bool.not_eq_false] at hc
    exact absurd (hopen.symm.trans (he.closed hc)) Bool.noConfusion
  · rw [List.getElem?_set_ne (Ne.symm hid)] at hget
    exact ⟨after, hget, hopen, hpeer⟩

theorem System.openFor_newShared {socket : KcpSocket κ} {expire : Option Nat} {now : Nat}
    (h : (s.newShared (.new socket expire (some peer)) now).OpenFor id p) :
    s.OpenFor id p ∨ (id = s.arena.length ∧ p = peer) := by
  obtain ⟨session, hget, hopen, hpeer⟩ := h
  change (s.arena ++ [_])[id]? = some session at hget
  by_cases hid : id < s.arena.length
  · rw [List.getElem?_append_left hid] at hget
    exact .inl ⟨session, hget, hopen, hpeer⟩
  · have hbound := (List.getElem?_eq_some_iff.mp hget).1
    rw [List.length_append, List.length_singleton] at hbound
    have hend : id = s.arena.length := by omega
    rw [hend, List.getElem?_concat_length] at hget
    cases hget
    exact .inr ⟨hend, (Option.some.inj hpeer).symm⟩

theorem System.OpenFor.lt (h : s.OpenFor id p) : id < s.arena.length := by
  obtain ⟨session, hget, _⟩ := h
  exact (List.getElem?_eq_some_iff.mp hget).1

/-- The session that comes takes the place of the one that its peer has. -/
theorem System.Entered.opened {socket : KcpSocket κ} {now : Nat} (hs : s.Entered taken)
    (h : (s.opened config socket peer now).OpenFor id p) :
    (s.opened config socket peer now).sessions.lookup p = some id ∧
      (id = s.arena.length ∨ (p ≠ peer ∧ s.OpenFor id p)) := by
  have hlookup : (s.opened config socket peer now).sessions.lookup p =
      if p = peer then some s.arena.length else s.sessions.lookup p :=
    FinMap.lookup_insert_of s.sessions peer p s.arena.length
  have h : ((s.newShared (.new socket config.sessionExpire (some peer)) now).dropHandle
      (s.sessions.lookup peer)).OpenFor id p := h
  obtain ⟨hdropped, h⟩ := openFor_dropHandle h
  rw [hlookup]
  rcases openFor_newShared h with hold | ⟨rfl, rfl⟩
  · have hne : p ≠ peer := fun he => hdropped (he ▸ hs.table id p hold)
    rw [if_neg hne]
    exact ⟨hs.table id p hold, .inr ⟨hne, hold⟩⟩
  · rw [if_pos rfl]
    exact ⟨rfl, .inl rfl⟩

theorem System.length_closePeer (s : System κ) (peer : SocketAddr) :
    (s.closePeer peer).arena.length = s.arena.length :=
  s.length_dropHandle (s.sessions.lookup peer)

theorem System.openFor_closePeer (htable : ∀ id p, s.OpenFor id p → s.sessions.lookup p = some id)
    (h : (s.closePeer peer).OpenFor id p) :
    (s.closePeer peer).sessions.lookup p = some id ∧ p ≠ peer ∧ s.OpenFor id p := by
  have h : (s.dropHandle (s.sessions.lookup peer)).OpenFor id p := h
  obtain ⟨hdropped, hold⟩ := openFor_dropHandle h
  have hne : p ≠ peer := fun he => hdropped (he ▸ htable id p hold)
  have hlookup : (s.closePeer peer).sessions.lookup p =
      if p = peer then none else s.sessions.lookup p :=
    FinMap.lookup_erase_of s.sessions peer p
  rw [hlookup, if_neg hne]
  exact ⟨htable id p hold, hne, hold⟩

theorem System.streams_dropHandle (s : System κ) (handle : Option Nat) :
    (s.dropHandle handle).streams = s.streams := by
  cases handle <;> rfl

theorem System.closeAll_frame (s : System κ) (ids : List Nat) :
    (s.closeAll ids).sessions = s.sessions ∧ (s.closeAll ids).acceptRx = s.acceptRx ∧
      (s.closeAll ids).streams = s.streams ∧
      (s.closeAll ids).arena.length = s.arena.length := by
  induction ids generalizing s with
  | nil => exact ⟨rfl, rfl, rfl, rfl⟩
  | cons id ids ih =>
    obtain ⟨hm, ha, hstreams, hl⟩ := ih (s.modify id KcpSession.close)
    exact ⟨hm, ha, hstreams, hl.trans (List.length_modify _ _ _)⟩

/-- Nothing comes that is open, and nothing that is open loses its entry or its stream. -/
theorem System.Entered.mono (hs : s.Entered taken)
    (hopen : ∀ id p, t.OpenFor id p → t.sessions.lookup p = some id ∧ s.OpenFor id p)
    (ha : t.acceptRx = s.acceptRx) (hstreams : t.streams = s.streams)
    (hl : s.arena.length ≤ t.arena.length) : t.Entered taken where
  table id p h := (hopen id p h).1
  offered id p h := by
    rw [System.queued, ha, hstreams]
    exact hs.offered id p (hopen id p h).2
  order := by
    rw [System.queued, ha]
    exact hs.order
  created id hid := by
    rw [System.queued, ha] at hid
    exact Nat.lt_of_lt_of_le (hs.created id hid) hl
  streams := hstreams ▸ hs.streams
  room := ha ▸ hs.room

theorem System.Entered.set {session session' : KcpSession κ} (hs : s.Entered taken)
    (hget : s.arena[other]? = some session) (he : session.Evolves K session')
    (ht : t.arena = s.arena.set other session') (hm : t.sessions = s.sessions)
    (ha : t.acceptRx = s.acceptRx) (hstreams : t.streams = s.streams) : t.Entered taken := by
  have hopen (id : Nat) (p : SocketAddr) (h : t.OpenFor id p) :
      t.sessions.lookup p = some id ∧ s.OpenFor id p := by
    have hold := openFor_set hget he ht h
    rw [hm]
    exact ⟨hs.table id p hold, hold⟩
  have hl : t.arena.length = s.arena.length := by
    rw [ht, List.length_set]
  exact hs.mono hopen ha hstreams (Nat.le_of_eq hl.symm)

theorem System.Entered.queued {socket : KcpSocket κ} {now : Nat} (hs : s.Entered taken)
    (hroom : s.acceptRoom = true) :
    System.Entered { s.opened config socket peer now with
      acceptRx := s.acceptRx ++ [(s.arena.length, peer)] } taken := by
  have hlen : (s.opened config socket peer now).arena.length = s.arena.length + 1 :=
    s.length_opened socket peer now
  have hstreams : (s.opened config socket peer now).streams = s.streams :=
    System.streams_dropHandle _ _
  have hqueued : System.queued { s.opened config socket peer now with
      acceptRx := s.acceptRx ++ [(s.arena.length, peer)] } = s.queued ++ [s.arena.length] :=
    List.map_append
  constructor
  · intro id p h
    exact (hs.opened h).1
  · intro id p h
    rw [hqueued, List.mem_append, List.mem_singleton]
    rcases (hs.opened h).2 with hnew | ⟨_, hold⟩
    · exact .inr (.inr hnew)
    · rcases hs.offered id p hold with hstream | hqueue
      · exact .inl (hstreams ▸ hstream)
      · exact .inr (.inl hqueue)
  · rw [hqueued, ← List.append_assoc, List.pairwise_append]
    refine ⟨hs.order, List.pairwise_singleton _ _, ?_⟩
    intro a ha b hb
    rw [List.mem_singleton.mp hb]
    exact hs.created a ha
  · intro id hid
    change id < (s.opened config socket peer now).arena.length
    rw [hlen]
    rw [hqueued, ← List.append_assoc, List.mem_append, List.mem_singleton] at hid
    rcases hid with hold | rfl
    · exact Nat.lt_succ_of_lt (hs.created id hold)
    · exact Nat.lt_succ_self _
  · exact hstreams ▸ hs.streams
  · rw [List.length_append, List.length_singleton]
    exact of_decide_eq_true (Bool.and_eq_true_iff.mp hroom).2

theorem System.Entered.refused {socket : KcpSocket κ} {now : Nat} (hs : s.Entered taken) :
    (((s.opened config socket peer now).modify s.arena.length KcpSession.close).closePeer
      peer).Entered taken := by
  let v := (s.opened config socket peer now).modify s.arena.length KcpSession.close
  have hlen : (v.closePeer peer).arena.length = s.arena.length + 1 := by
    rw [v.length_closePeer]
    exact (List.length_modify _ _ _).trans (s.length_opened socket peer now)
  have hv (id : Nat) (p : SocketAddr) (h : v.OpenFor id p) :
      v.sessions.lookup p = some id ∧ p ≠ peer ∧ s.OpenFor id p := by
    obtain ⟨hne, h⟩ := openFor_close h
    obtain ⟨hlookup, hcase⟩ := hs.opened h
    exact ⟨hlookup, hcase.resolve_left hne⟩
  have hold (id : Nat) (p : SocketAddr) (h : (v.closePeer peer).OpenFor id p) :
      (v.closePeer peer).sessions.lookup p = some id ∧ s.OpenFor id p := by
    obtain ⟨hlookup, _, h⟩ := openFor_closePeer (fun id p h => (hv id p h).1) h
    exact ⟨hlookup, (hv id p h).2.2⟩
  have haccept : (v.closePeer peer).acceptRx = s.acceptRx :=
    (System.frame_dropHandle v _).2.2.2.trans (s.accept_opened socket peer now).1
  have hstreams : (v.closePeer peer).streams = s.streams :=
    (System.streams_dropHandle v _).trans (System.streams_dropHandle
      (s.newShared (.new socket config.sessionExpire (some peer)) now) _)
  exact hs.mono hold haccept hstreams (hlen ▸ Nat.le_succ _)

theorem System.Handled.entered {packet : Bytes} {draws : RandomDraws} {now : Nat}
    {outcome : Option (Nat × Bytes)}
    (h : s.Handled K rs config packet peer draws now t outcome) (hs : s.Entered taken) :
    t.Entered taken := by
  cases h with
  | parity hp => exact hs
  | tooShort hp hlen => exact hs
  | failed hb ho hn => exact hs
  | kept hb hg hc => exact hs
  | mismatch hb hg hc hsn => exact hs
  | opened hb ho hn hroom => exact hs.queued hroom
  | refused hb ho hn hroom => exact hs.refused

theorem KcpSession.input_evolves {session session' : KcpSession κ} {buf : Bytes}
    (K : KcpCrate κ) (h : session.input buf = .ready (some session')) :
    session.Evolves K session' := by
  rw [KcpSession.input] at h
  split at h
  · cases h
  · split at h
    · cases h
      exact ⟨.refl K true _, id, rfl⟩
    · cases h

theorem System.Entered.listenerDropped (hs : s.Entered taken) :
    ({ s with acceptRx := [], acceptClosed := true }.closeAll s.queued).Entered taken := by
  let u : System κ := { s with acceptRx := [], acceptClosed := true }
  have hopen (id : Nat) (p : SocketAddr) :
      (u.closeAll s.queued).OpenFor id p → ¬id ∈ s.queued ∧ u.OpenFor id p :=
    openFor_closeAll
  obtain ⟨hm, ha, hstreams, hl⟩ := System.closeAll_frame u s.queued
  change (u.closeAll s.queued).Entered taken
  generalize u.closeAll s.queued = v at hopen hm ha hstreams hl ⊢
  have hqueued : v.queued = [] := congrArg (List.map Prod.fst) ha
  constructor
  · intro id p h
    rw [hm]
    exact hs.table id p (hopen id p h).2
  · intro id p h
    obtain ⟨hnot, hold⟩ := hopen id p h
    rw [hstreams]
    exact .inl ((hs.offered id p hold).resolve_right hnot)
  · rw [hqueued]
    exact hs.order.sublist ((List.Sublist.refl taken).append (List.nil_sublist _))
  · intro id hid
    rw [hqueued, List.append_nil] at hid
    rw [hl]
    exact hs.created id (List.mem_append_left _ hid)
  · rw [hstreams]
    exact hs.streams
  · rw [ha]
    exact Nat.zero_le _

theorem System.accepts_eq_nil (s : System κ) (hne : event ≠ .accept) : s.accepts event = [] := by
  cases event with
  | accept => exact absurd rfl hne
  | _ => rfl

theorem System.Entered.accepted {rest : List (Nat × SocketAddr)} (hs : s.Entered taken)
    (ha : s.acceptRx = (id, peer) :: rest) :
    System.Entered { s with acceptRx := rest, streams := s.streams ++ [id] }
      (taken ++ s.accepts .accept) := by
  have htaken : s.accepts .accept = [id] := by
    rw [System.accepts, System.queued, ha]
    rfl
  have hqueued : s.queued = id :: rest.map Prod.fst := by
    rw [System.queued, ha]
    rfl
  have horder := hs.order
  have hcreated := hs.created
  have hroom := hs.room
  rw [hqueued, List.append_cons] at horder hcreated
  rw [ha, List.length_cons] at hroom
  rw [htaken]
  constructor
  · exact hs.table
  · intro other p h
    have hold := hs.offered other p h
    rw [hqueued, List.mem_cons] at hold
    rw [List.mem_append, List.mem_singleton, or_assoc]
    exact hold
  · exact horder
  · exact hcreated
  · exact hs.streams.append (.refl _)
  · exact Nat.le_of_succ_le hroom

theorem System.Entered.notified {rest : List CloseNotification} (hs : s.Entered taken)
    (peer : SocketAddr) : (({ s with closeRx := rest } : System κ).closePeer peer).Entered taken := by
  let u : System κ := { s with closeRx := rest }
  have htable : ∀ id p, u.OpenFor id p → u.sessions.lookup p = some id := hs.table
  have hold (id : Nat) (p : SocketAddr) (h : (u.closePeer peer).OpenFor id p) :
      (u.closePeer peer).sessions.lookup p = some id ∧ s.OpenFor id p := by
    obtain ⟨hlookup, _, h⟩ := openFor_closePeer htable h
    exact ⟨hlookup, h⟩
  have haccept : (u.closePeer peer).acceptRx = s.acceptRx :=
    (System.frame_dropHandle u _).2.2.2
  exact hs.mono hold haccept (System.streams_dropHandle u _)
    (Nat.le_of_eq (u.length_closePeer peer).symm)

theorem System.Entered.streamDropped (hs : s.Entered taken) (id : Nat) :
    (({ s with streams := s.streams.erase id } : System κ).modify id
      KcpSession.close).Entered taken := by
  let u : System κ := { s with streams := s.streams.erase id }
  have hl : (u.modify id KcpSession.close).arena.length = s.arena.length :=
    List.length_modify _ _ _
  constructor
  · exact fun other p h => hs.table other p (openFor_close (s := u) h).2
  · intro other p h
    obtain ⟨hne, hold⟩ := openFor_close (s := u) h
    rcases hs.offered other p hold with hstream | hqueue
    · exact .inl ((List.mem_erase_of_ne hne).mpr hstream)
    · exact .inr hqueue
  · exact hs.order
  · intro other hother
    rw [hl]
    exact hs.created other hother
  · exact List.erase_sublist.trans hs.streams
  · exact hs.room

/-- No step leaves a session open that its peer could not reach, or that nobody could use. -/
theorem System.Acts.entered (h : s.Acts K rs config event t) (hs : s.Entered taken) :
    t.Entered (taken ++ s.accepts event) := by
  by_cases haccept : event = .accept
  · subst haccept
    cases h with
    | accepted ha => exact hs.accepted ha
  · rw [s.accepts_eq_nil haccept, List.append_nil]
    cases h with
    | handled hf hh =>
      obtain ⟨htable, hoffered, horder, hcreated, hstreams, hroom⟩ := System.Handled.entered hh hs
      exact ⟨htable, hoffered, horder, hcreated, hstreams, hroom⟩
    | forwarded hf hget hi =>
      exact hs.set hget (KcpSession.input_evolves K hi) rfl rfl rfl rfl
    | discarded hf hget hi => exact ⟨hs.table, hs.offered, hs.order, hs.created, hs.streams, hs.room⟩
    | notified hf hc => exact hs.notified _
    | accepted ha => exact absurd rfl haccept
    | @called session now socket call id hget hm hcall =>
      have he : session.Evolves K { session with socket := socket } :=
        ⟨hcall.moves, fun h => h, rfl⟩
      exact hs.set hget he rfl rfl rfl rfl
    | streamDropped hm => exact hs.streamDropped _
    | listenerDropped hc => exact hs.listenerDropped
    | @rescheduled session nowMs session' deadlineMs notification _ _ htask hget hdue hp =>
      have he := session.pollSchedulerTick_evolves K nowMs
      rw [hp] at he
      exact hs.set hget he rfl rfl rfl rfl
    | @finalized session nowMs session' _ _ htask hget hdue hp =>
      have he := session.pollSchedulerTick_evolves K nowMs
      rw [hp] at he
      exact hs.set hget he rfl rfl rfl rfl
    | ranIoTask hget hrun =>
      exact hs.set hget (KcpSession.runIoTask_evolves hrun) rfl rfl rfl rfl

theorem System.new_entered : (System.new : System κ).Entered [] where
  table _ _ h := absurd h.lt (Nat.not_lt_zero _)
  offered _ _ h := absurd h.lt (Nat.not_lt_zero _)
  order := .nil
  created _ h := absurd h List.not_mem_nil
  streams := .refl _
  room := Nat.zero_le _

theorem System.run_entered {trace : List (System κ × Event)} (hW : K.wire.Laws)
    (hs : s.Entered taken) (hrun : Run (System.Step K rs config) s trace t) :
    t.Entered (taken ++ acceptedIn trace) := by
  induction hrun generalizing taken with
  | nil => exact (List.append_nil taken).symm ▸ hs
  | cons hstep _ ih =>
    rw [acceptedIn, List.flatMap_cons, ← List.append_assoc]
    exact ih ((System.Step.acts hW hstep).entered hs)

/-- In every state of a listener, a session that is not closed is the one that the table has for
its peer, so that a peer has at most one, and its stream is the application's or waits in the
accept queue. Every stream is accepted at most once, and in the order in which the sessions were
made; the accept queue stays within its bound. -/
theorem open_sessions {trace : List (System κ × Event)} (hW : K.wire.Laws)
    (hrun : Run (System.Step K rs config) .new trace s) :
    (∀ id peer, s.OpenFor id peer →
      s.sessions.lookup peer = some id ∧ (id ∈ s.streams ∨ id ∈ s.acceptRx.map Prod.fst) ∧
      ∀ id', s.OpenFor id' peer → id' = id) ∧
    (acceptedIn trace ++ s.acceptRx.map Prod.fst).Pairwise (· < ·) ∧
    s.streams.Sublist (acceptedIn trace) ∧ s.acceptRx.length ≤ acceptBacklog := by
  have hs : s.Entered (acceptedIn trace) := System.run_entered hW System.new_entered hrun
  refine ⟨?_, hs.order, hs.streams, hs.room⟩
  intro id peer h
  have hlookup := hs.table id peer h
  refine ⟨hlookup, hs.offered id peer h, ?_⟩
  intro id' h'
  have hlookup' := hs.table id' peer h'
  exact Option.some.inj (hlookup'.symm.trans hlookup)

/-- A session that was replaced, the one in its place, and one of another peer. -/
theorem open_sessions_small : ∃ trace s,
    trace.map Prod.snd = [.datagram (segment 1 81 0 [65]) ⟨[10, 0, 0, 1], 4000⟩ ⟨[9], rfl⟩ 0,
      .forward, .datagram (segment 2 81 0 [66]) ⟨[10, 0, 0, 1], 4000⟩ ⟨[9], rfl⟩ 1, .forward,
      .accept, .datagram (segment 3 81 0 [67]) ⟨[10, 0, 0, 2], 4000⟩ ⟨[9], rfl⟩ 2, .accept] ∧
    Run (System.Step smallKcp reedSolomon {}) .new trace s ∧
    s.OpenFor 1 ⟨[10, 0, 0, 1], 4000⟩ ∧ s.streams = [0, 1] ∧ acceptedIn trace = [0, 1] ∧
    s.acceptRx.map Prod.fst = [2] ∧
    (∀ id peer, s.OpenFor id peer →
      s.sessions.lookup peer = some id ∧ (id ∈ s.streams ∨ id ∈ s.acceptRx.map Prod.fst) ∧
      ∀ id', s.OpenFor id' peer → id' = id) ∧
    (acceptedIn trace ++ s.acceptRx.map Prod.fst).Pairwise (· < ·) ∧
    s.streams.Sublist (acceptedIn trace) ∧ s.acceptRx.length ≤ acceptBacklog := by
  have hreplay : ∃ trace s, replay (System.next? smallKcp reedSolomon {}) .new
      [.datagram (segment 1 81 0 [65]) ⟨[10, 0, 0, 1], 4000⟩ ⟨[9], rfl⟩ 0, .forward,
        .datagram (segment 2 81 0 [66]) ⟨[10, 0, 0, 1], 4000⟩ ⟨[9], rfl⟩ 1, .forward, .accept,
        .datagram (segment 3 81 0 [67]) ⟨[10, 0, 0, 2], 4000⟩ ⟨[9], rfl⟩ 2, .accept] =
          some (trace, s) ∧
      trace.map Prod.snd = [.datagram (segment 1 81 0 [65]) ⟨[10, 0, 0, 1], 4000⟩ ⟨[9], rfl⟩ 0,
        .forward, .datagram (segment 2 81 0 [66]) ⟨[10, 0, 0, 1], 4000⟩ ⟨[9], rfl⟩ 1, .forward,
        .accept, .datagram (segment 3 81 0 [67]) ⟨[10, 0, 0, 2], 4000⟩ ⟨[9], rfl⟩ 2, .accept] ∧
      s.OpenFor 1 ⟨[10, 0, 0, 1], 4000⟩ ∧ s.streams = [0, 1] ∧ acceptedIn trace = [0, 1] ∧
      s.acceptRx.map Prod.fst = [2] := ⟨_, _, rfl, rfl, ⟨_, rfl, rfl, rfl⟩, rfl, rfl, rfl⟩
  obtain ⟨trace, s, hr, hevents, hopen, hstreams, haccepted, hqueue⟩ := hreplay
  have hrun := run_of_replay (fun _ _ _ => System.step_of_next? smallKcp reedSolomon {}) hr
  exact ⟨trace, s, hevents, hrun, hopen, hstreams, haccepted, hqueue,
    open_sessions smallWire_laws hrun⟩

end TokioKcp
