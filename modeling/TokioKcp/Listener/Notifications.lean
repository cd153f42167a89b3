import TokioKcp.Listener.Steps

namespace TokioKcp
set_option autoImplicit true

open Checked Fec Transition

variable {κ : Type} {K : KcpCrate κ} {rs : Nat → Nat → Except String ReedSolomon}
variable {config : KcpConfig}

def System.peerOf (s : System κ) (id : Nat) : Option SocketAddr :=
  (s.arena[id]?).bind KcpSession.sessionCloseNotifier

/-- The session is still to be finalized, or its notification to be received. -/
def System.Outstanding (s : System κ) (id : Nat) : Prop :=
  id ∈ s.tasks.map ScheduledTask.session ∨ id ∈ s.closeRx.map CloseNotification.sender

/-- The step changes nothing but the given session, and the table only at that session. -/
structure System.AffectsOnly (s t : System κ) (id : Nat) : Prop where
  sessions : ∀ (peer : SocketAddr) (id' : Nat), s.sessions.lookup peer = some id' → id' ≠ id →
    t.sessions.lookup peer = some id'
  arena : ∀ id' : Nat, id' ≠ id → t.arena[id']? = s.arena[id']?

/-- The notification that the listener may receive now affects at most its sender. -/
def System.NotificationSafe (s : System κ) : Prop :=
  ∀ n rest t, s.closeRx = n :: rest → s.closeNotification = some t → s.AffectsOnly t n.sender

/-- The table has no other session for the address in that notification. -/
def System.SenderHasEntry (s : System κ) : Prop :=
  ∀ n rest id, s.forwarding = none → s.closeRx = n :: rest →
    s.sessions.lookup n.peer = some id → id = n.sender

/-- A session is opened only for a peer that has no outstanding session. -/
def System.OpensAlone (K : KcpCrate κ) (rs : Nat → Nat → Except String ReedSolomon)
    (config : KcpConfig) (s : System κ) : Event → Prop
  | .datagram packet peer draws now => ∀ front body socket, CarriesKcp config packet front body →
      s.Opens K peer (convFor draws body) (snOf body) →
      KcpSocket.new K rs config (convFor draws body) config.stream now = .ok (.ok socket) →
      ∀ id, s.Outstanding id → s.peerOf id ≠ some peer
  | _ => True

/-- What the scheduler, the notifications and the table refer to is there. -/
structure System.Accounted (s : System κ) : Prop where
  peers : ∀ id, id < s.arena.length → ∃ peer, s.peerOf id = some peer
  tasks : ∀ id ∈ s.tasks.map ScheduledTask.session, id < s.arena.length
  closeRx : ∀ n ∈ s.closeRx, s.peerOf n.sender = some n.peer
  table : ∀ (peer : SocketAddr) (id : Nat), s.sessions.lookup peer = some id →
    s.peerOf id = some peer ∧ s.Outstanding id

/-- No two outstanding sessions have the same peer. -/
def System.Single (s : System κ) : Prop :=
  ∀ (id id' : Nat) (peer : SocketAddr), s.Outstanding id → s.Outstanding id' →
    s.peerOf id = some peer → s.peerOf id' = some peer → id = id'

variable {s t : System κ} {event : Event} {notification : CloseNotification}
variable {rest : List CloseNotification}

theorem System.Grows.peerOf {id : Nat} (h : s.Grows K t) (hp : s.peerOf id = some peer) :
    t.peerOf id = some peer := by
  obtain ⟨session, hs, hn⟩ := Option.bind_eq_some_iff.mp hp
  obtain ⟨session', ht, he⟩ := h id session hs
  rw [System.peerOf, ht, Option.bind_some, he.notifier, hn]

theorem System.Accounted.outstanding_lt {id : Nat} (h : s.Accounted) (ho : s.Outstanding id) :
    id < s.arena.length := by
  rcases ho with ht | hn
  · exact h.tasks id ht
  · obtain ⟨n, hmem, rfl⟩ := List.mem_map.mp hn
    obtain ⟨session, hs, _⟩ := Option.bind_eq_some_iff.mp (h.closeRx n hmem)
    exact (List.getElem?_eq_some_iff.mp hs).1

theorem System.new_accounted : (System.new : System κ).Accounted where
  peers _ h := absurd h (Nat.not_lt_zero _)
  tasks _ h := absurd h List.not_mem_nil
  closeRx _ h := absurd h List.not_mem_nil
  table peer id h := by
    change (∅ : FinMap SocketAddr Nat).lookup peer = _ at h
    rw [AList.lookup_empty] at h
    cases h

theorem System.new_single : (System.new : System κ).Single := by
  intro id id' peer h
  rcases h with h | h
  · cases h
  · cases h

theorem System.Quiet.outstanding_iff {id : Nat} (h : s.Quiet K t) :
    t.Outstanding id ↔ s.Outstanding id := by
  rw [System.Outstanding, System.Outstanding, h.tasks, h.closeRx]

theorem System.Quiet.accounted (h : s.Quiet K t) (hs : s.Accounted) : t.Accounted where
  peers id hid := by
    rw [h.length] at hid
    obtain ⟨peer, hp⟩ := hs.peers id hid
    exact ⟨peer, h.grows.peerOf hp⟩
  tasks id hid := by
    rw [h.tasks] at hid
    rw [h.length]
    exact hs.tasks id hid
  closeRx n hn := by
    rw [h.closeRx] at hn
    exact h.grows.peerOf (hs.closeRx n hn)
  table peer id hl := by
    rw [h.sessions] at hl
    obtain ⟨hp, ho⟩ := hs.table peer id hl
    exact ⟨h.grows.peerOf hp, h.outstanding_iff.mpr ho⟩

section Opening

variable {socket : KcpSocket κ} {peer : SocketAddr} {now : Nat}

theorem System.Opening.peerOf_old {id : Nat} {p : SocketAddr}
    (h : s.Opening K config socket peer now t) (hp : s.peerOf id = some p) :
    t.peerOf id = some p :=
  h.grows.peerOf ((s.grows_newShared K _ now).peerOf hp)

theorem System.Opening.peerOf_new (h : s.Opening K config socket peer now t) :
    t.peerOf s.arena.length = some peer := by
  apply h.grows.peerOf
  rw [System.peerOf]
  change ((s.arena ++ [_])[s.arena.length]?).bind _ = _
  rw [List.getElem?_concat_length]
  rfl

theorem System.Opening.outstanding_iff {id : Nat} (h : s.Opening K config socket peer now t) :
    t.Outstanding id ↔ s.Outstanding id ∨ id = s.arena.length := by
  rw [System.Outstanding, System.Outstanding, h.tasks, h.closeRx, List.mem_append,
    List.mem_singleton]
  exact or_right_comm

theorem System.Opening.accounted (h : s.Opening K config socket peer now t)
    (hs : s.Accounted) : t.Accounted where
  peers id hid := by
    rw [h.length] at hid
    rcases Nat.lt_succ_iff_lt_or_eq.mp hid with hlt | rfl
    · obtain ⟨p, hp⟩ := hs.peers id hlt
      exact ⟨p, h.peerOf_old hp⟩
    · exact ⟨peer, h.peerOf_new⟩
  tasks id hid := by
    rw [h.tasks, List.mem_append, List.mem_singleton] at hid
    rw [h.length]
    rcases hid with hold | rfl
    · exact Nat.lt_succ_of_lt (hs.tasks id hold)
    · exact Nat.lt_succ_self _
  closeRx n hn := by
    rw [h.closeRx] at hn
    exact h.peerOf_old (hs.closeRx n hn)
  table p id hl := by
    rcases h.sessions p id hl with ⟨rfl, rfl⟩ | hold
    · exact ⟨h.peerOf_new, h.outstanding_iff.mpr (.inr rfl)⟩
    · obtain ⟨hp, ho⟩ := hs.table p id hold
      exact ⟨h.peerOf_old hp, h.outstanding_iff.mpr (.inl ho)⟩

end Opening

section Finalizing

variable {task : Nat} {scheduled : ScheduledTask} {session : KcpSession κ}

theorem System.Finalizing.peerOf_scheduled (h : s.Finalizing K task scheduled session t) :
    s.peerOf scheduled.session = session.sessionCloseNotifier := by
  rw [System.peerOf, h.session_eq, Option.bind_some]

theorem System.Finalizing.outstanding_iff {id : Nat}
    (h : s.Finalizing K task scheduled session t) (hs : s.Accounted) :
    t.Outstanding id ↔ s.Outstanding id := by
  obtain ⟨peer, hpeer⟩ : ∃ peer, session.sessionCloseNotifier = some peer := by
    rw [← h.peerOf_scheduled]
    exact hs.peers _ (List.getElem?_eq_some_iff.mp h.session_eq).1
  have hclose : id ∈ t.closeRx.map CloseNotification.sender ↔
      id ∈ s.closeRx.map CloseNotification.sender ∨ id = scheduled.session := by
    rw [h.closeRx, hpeer, List.map_append, List.mem_append]
    exact or_congr_right List.mem_singleton
  rw [System.Outstanding, System.Outstanding, hclose, h.tasks]
  constructor
  · rintro (ht | hc | rfl)
    · exact .inl (List.map_subset _ List.eraseIdx_subset ht)
    · exact .inr hc
    · exact .inl (List.mem_map.mpr ⟨scheduled, List.mem_of_getElem? h.task_eq, rfl⟩)
  · rintro (ht | hc)
    · obtain ⟨other, hm, rfl⟩ := List.mem_map.mp ht
      obtain ⟨i, hi⟩ := List.getElem?_of_mem hm
      by_cases he : i = task
      · rw [he, h.task_eq] at hi
        cases hi
        exact .inr (.inr rfl)
      · exact .inl (List.mem_map.mpr
          ⟨other, List.mem_eraseIdx_iff_getElem?.mpr ⟨i, he, hi⟩, rfl⟩)
    · exact .inr (.inl hc)

theorem System.Finalizing.accounted (h : s.Finalizing K task scheduled session t)
    (hs : s.Accounted) : t.Accounted where
  peers id hid := by
    rw [h.length] at hid
    obtain ⟨peer, hp⟩ := hs.peers id hid
    exact ⟨peer, h.grows.peerOf hp⟩
  tasks id hid := by
    rw [h.tasks] at hid
    rw [h.length]
    exact hs.tasks id (List.map_subset _ List.eraseIdx_subset hid)
  closeRx n hn := by
    rw [h.closeRx, List.mem_append] at hn
    rcases hn with hold | hnew
    · exact h.grows.peerOf (hs.closeRx n hold)
    · obtain ⟨peer, hp, rfl⟩ := List.mem_map.mp hnew
      apply h.grows.peerOf
      rw [h.peerOf_scheduled]
      exact Option.mem_toList.mp hp
  table peer id hl := by
    rw [h.sessions] at hl
    obtain ⟨hp, ho⟩ := hs.table peer id hl
    exact ⟨h.grows.peerOf hp, (h.outstanding_iff hs).mpr ho⟩

end Finalizing

section Notified

variable (h : s.closeRx = notification :: rest)
variable (ht : t = { s with closeRx := rest }.closePeer notification.peer)

include ht

theorem System.notified_frame : t.sessions = s.sessions.erase notification.peer ∧
    t.closeRx = rest ∧ t.tasks = s.tasks ∧ t.arena.length = s.arena.length := by
  obtain ⟨_, hc, htasks, _⟩ :=
    System.frame_dropHandle { s with closeRx := rest } (s.sessions.lookup notification.peer)
  have hl :=
    System.length_dropHandle { s with closeRx := rest } (s.sessions.lookup notification.peer)
  rw [ht]
  exact ⟨rfl, hc, htasks, hl⟩

theorem System.notified_grows (K : KcpCrate κ) : s.Grows K t := by
  have hrest : s.Grows K { s with closeRx := rest } := .of_eq rfl
  rw [ht]
  exact hrest.trans (System.grows_closePeer K _ _)

include h

theorem System.notified_outstanding {id : Nat} :
    (t.Outstanding id → s.Outstanding id) ∧
    (s.Outstanding id → id ≠ notification.sender → t.Outstanding id) := by
  obtain ⟨_, hc, htasks, _⟩ := notified_frame ht
  rw [System.Outstanding, System.Outstanding, htasks, hc, h, List.map_cons, List.mem_cons]
  constructor
  · rintro (hid | hid)
    · exact .inl hid
    · exact .inr (.inr hid)
  · rintro (hid | hid | hid) hne
    · exact .inl hid
    · exact absurd hid hne
    · exact .inr hid

theorem System.notified_accounted (K : KcpCrate κ) (hs : s.Accounted) : t.Accounted := by
  obtain ⟨hm, hc, htasks, hl⟩ := notified_frame ht
  have hg := notified_grows ht K
  constructor
  · intro id hid
    rw [hl] at hid
    obtain ⟨peer, hp⟩ := hs.peers id hid
    exact ⟨peer, hg.peerOf hp⟩
  · intro id hid
    rw [htasks] at hid
    rw [hl]
    exact hs.tasks id hid
  · intro n hn
    rw [hc] at hn
    apply hg.peerOf
    apply hs.closeRx
    rw [h]
    exact List.mem_cons_of_mem _ hn
  · intro peer id hlookup
    rw [hm, FinMap.lookup_erase_of] at hlookup
    split at hlookup
    · cases hlookup
    · rename_i hne
      obtain ⟨hp, ho⟩ := hs.table peer id hlookup
      refine ⟨hg.peerOf hp, (notified_outstanding h ht).2 ho ?_⟩
      intro he
      have hsender := hs.closeRx notification (by rw [h]; exact List.mem_cons_self)
      rw [← he, hp] at hsender
      exact hne (Option.some.inj hsender)

omit h in
/-- A notification affects only its sender exactly if the table has no other session for the
address in it. -/
theorem System.notified_affectsOnly_iff : s.AffectsOnly t notification.sender ↔
    ∀ id, s.sessions.lookup notification.peer = some id → id = notification.sender := by
  obtain ⟨hm, _⟩ := notified_frame ht
  constructor
  · intro hA id hlookup
    by_contra hne
    have hkept := hA.sessions _ id hlookup hne
    rw [hm, AList.lookup_erase] at hkept
    cases hkept
  · intro honly
    constructor
    · intro peer id hlookup hne
      rw [hm, FinMap.lookup_erase_of]
      split
      · rename_i he
        rw [he] at hlookup
        exact absurd (honly id hlookup) hne
      · exact hlookup
    · intro id hne
      rw [ht]
      exact System.arena_dropHandle (fun hl => hne (honly id hl)) { s with closeRx := rest }

end Notified

theorem System.Effect.accounted (h : System.Effect K rs config s event t)
    (hs : s.Accounted) : t.Accounted := by
  cases h with
  | quiet h => exact h.accounted hs
  | opened hb ho hn h => exact h.accounted hs
  | finalized h => exact h.accounted hs
  | notified h ht => exact notified_accounted h ht K hs

theorem System.Grows.peerOf_iff {id : Nat} {peer : SocketAddr} (h : s.Grows K t)
    (hs : s.Accounted) (hid : id < s.arena.length) :
    t.peerOf id = some peer ↔ s.peerOf id = some peer := by
  obtain ⟨p, hp⟩ := hs.peers id hid
  rw [h.peerOf hp, hp]

theorem System.Single.mono (h₁ : s.Single) (hg : s.Grows K t) (hs : s.Accounted)
    (ho : ∀ id, t.Outstanding id → s.Outstanding id) : t.Single := by
  intro id id' peer hid hid' hp hp'
  have hold := ho id hid
  have hold' := ho id' hid'
  rw [hg.peerOf_iff hs (hs.outstanding_lt hold)] at hp
  rw [hg.peerOf_iff hs (hs.outstanding_lt hold')] at hp'
  exact h₁ id id' peer hold hold' hp hp'

theorem System.Opening.single {socket : KcpSocket κ} {peer : SocketAddr} {now : Nat}
    (h : s.Opening K config socket peer now t) (hs : s.Accounted) (h₁ : s.Single)
    (halone : ∀ id, s.Outstanding id → s.peerOf id ≠ some peer) : t.Single := by
  have hg := (s.grows_newShared K _ now).trans h.grows
  -- an old session has another peer than the new one
  have hnew (id : Nat) (p : SocketAddr) (ho : s.Outstanding id) (hp : t.peerOf id = some p)
      (hp' : t.peerOf s.arena.length = some p) : False := by
    rw [h.peerOf_new] at hp'
    cases hp'
    rw [hg.peerOf_iff hs (hs.outstanding_lt ho)] at hp
    exact halone id ho hp
  intro id id' p hid hid' hp hp'
  rcases h.outstanding_iff.mp hid with ho | rfl
  · rcases h.outstanding_iff.mp hid' with ho' | rfl
    · rw [hg.peerOf_iff hs (hs.outstanding_lt ho)] at hp
      rw [hg.peerOf_iff hs (hs.outstanding_lt ho')] at hp'
      exact h₁ id id' p ho ho' hp hp'
    · exact (hnew id p ho hp hp').elim
  · rcases h.outstanding_iff.mp hid' with ho' | rfl
    · exact (hnew id' p ho' hp' hp).elim
    · rfl

/-- A step that opens no session, or opens one alone, keeps outstanding sessions apart. -/
theorem System.Effect.single (h : System.Effect K rs config s event t) (hs : s.Accounted)
    (h₁ : s.Single) (halone : s.OpensAlone K rs config event) : t.Single := by
  cases h with
  | quiet h => exact h₁.mono h.grows hs fun id ho => h.outstanding_iff.mp ho
  | opened hb ho hn h => exact h.single hs h₁ (halone _ _ _ hb ho hn)
  | finalized h => exact h₁.mono h.grows hs fun id ho => (h.outstanding_iff hs).mp ho
  | notified h ht =>
    exact h₁.mono (notified_grows ht K) hs fun id ho => (notified_outstanding h ht).1 ho

theorem System.notificationSafe_iff (s : System κ) : s.NotificationSafe ↔ s.SenderHasEntry := by
  have hnext (hf : s.forwarding = none) (n : CloseNotification) (rest : List CloseNotification)
      (hc : s.closeRx = n :: rest) :
      s.closeNotification = some ({ s with closeRx := rest }.closePeer n.peer) := by
    rw [System.closeNotification, hf, hc]
  constructor
  · intro hsafe n rest id hf hc hlookup
    have hA := hsafe n rest _ hc (hnext hf n rest hc)
    exact (notified_affectsOnly_iff rfl).mp hA id hlookup
  · intro hentry n rest t hc ht
    cases hf : s.forwarding with
    | some held =>
      rw [System.closeNotification, hf] at ht
      cases ht
    | none =>
      rw [hnext hf n rest hc] at ht
      cases ht
      exact (notified_affectsOnly_iff rfl).mpr fun id hlookup => hentry n rest id hf hc hlookup

theorem System.Single.senderHasEntry (h₁ : s.Single) (hs : s.Accounted) : s.SenderHasEntry := by
  intro n rest id _ hc hlookup
  have hmem : n ∈ s.closeRx := by
    rw [hc]
    exact List.mem_cons_self
  obtain ⟨hp, ho⟩ := hs.table n.peer id hlookup
  exact h₁ id n.sender n.peer ho (.inr (List.mem_map_of_mem hmem)) hp (hs.closeRx n hmem)

/-- A notification affects another session than its sender exactly if that session has the
table's entry for the address; in runs in which sessions are opened alone, none does. -/
theorem notifications_safe {trace : List (System κ × Event)} {last : System κ}
    (hW : K.wire.Laws) (hrun : Run (System.Step K rs config) System.new trace last) :
    (Always System.NotificationSafe trace last ↔ Always System.SenderHasEntry trace last) ∧
    ((∀ x ∈ trace, x.1.OpensAlone K rs config x.2) →
      Always System.NotificationSafe trace last) := by
  constructor
  · exact ⟨fun h => h.mono fun s => s.notificationSafe_iff.mp,
      fun h => h.mono fun s => s.notificationSafe_iff.mpr⟩
  · intro halone
    have hall := hrun.guarded (P := fun s => s.Accounted ∧ s.Single)
      (C := fun s event => s.OpensAlone K rs config event)
      (fun s event t hs hopen ht =>
        have he := System.Step.effect hW ht
        ⟨he.accounted hs.1, he.single hs.1 hs.2 hopen⟩)
      ⟨System.new_accounted, System.new_single⟩ halone
    exact hall.mono fun s hs => s.notificationSafe_iff.mpr (hs.2.senderHasEntry hs.1)

theorem System.opensAlone_of_none (h : ∀ id, ¬s.Outstanding id) (event : Event) :
    s.OpensAlone K rs config event := by
  cases event with
  | datagram packet peer draws now => exact fun _ _ _ _ _ _ id ho => absurd ho (h id)
  | _ => trivial

/-- A session that comes, is accepted, dropped and finalized; then its peer comes back. -/
theorem notifications_safe_small : ∃ trace last,
    replay (System.next? smallKcp reedSolomon {}) System.new
      [.datagram (segment 1 81 0 [65]) ⟨[10, 0, 0, 1], 4000⟩ ⟨[9], rfl⟩ 0, .forward, .accept,
        .streamDrop 0, .tick 0 10, .closeNotification,
        .datagram (segment 2 81 0 [66]) ⟨[10, 0, 0, 1], 4000⟩ ⟨[9], rfl⟩ 20] =
          some (trace, last) ∧
    last.arena.length = 2 ∧
    (∀ x ∈ trace, x.1.OpensAlone smallKcp reedSolomon {} x.2) ∧
    (Always System.NotificationSafe trace last ↔ Always System.SenderHasEntry trace last) ∧
    Always System.NotificationSafe trace last := by
  have hreplay : ∃ trace last, replay (System.next? smallKcp reedSolomon {}) System.new
      [.datagram (segment 1 81 0 [65]) ⟨[10, 0, 0, 1], 4000⟩ ⟨[9], rfl⟩ 0, .forward, .accept,
        .streamDrop 0, .tick 0 10, .closeNotification,
        .datagram (segment 2 81 0 [66]) ⟨[10, 0, 0, 1], 4000⟩ ⟨[9], rfl⟩ 20] =
          some (trace, last) ∧
      last.arena.length = 2 ∧ ∀ x ∈ trace, x.1.OpensAlone smallKcp reedSolomon {} x.2 := by
    refine ⟨_, _, rfl, rfl, ?_⟩
    have hnone {s : System SmallKcp} (htasks : s.tasks = []) (hclose : s.closeRx = []) (id : Nat) :
        ¬s.Outstanding id := by
      rw [System.Outstanding, htasks, hclose]
      rintro (h | h)
      · cases h
      · cases h
    rintro x (_ | ⟨_, _ | ⟨_, _ | ⟨_, _ | ⟨_, _ | ⟨_, _ | ⟨_, _ | ⟨_, hx⟩⟩⟩⟩⟩⟩⟩)
    · exact System.opensAlone_of_none (hnone rfl rfl) _
    · trivial
    · trivial
    · trivial
    · trivial
    · trivial
    · exact System.opensAlone_of_none (hnone rfl rfl) _
    · cases hx
  obtain ⟨trace, last, h, hlen, halone⟩ := hreplay
  obtain ⟨hiff, hsafe⟩ := notifications_safe smallWire_laws
    (run_of_replay (fun _ _ _ h => System.step_of_next? _ _ _ h) h)
  exact ⟨trace, last, h, hlen, halone, hiff, hsafe halone⟩

/-- A first packet with another conversation replaces a session. Once that session is
finalized, its notification removes and closes the new one. -/
theorem notification_closes_other_small : ∃ trace s t,
    replay (System.next? smallKcp reedSolomon {}) System.new
      [.datagram (segment 1 81 0 [65]) ⟨[10, 0, 0, 1], 4000⟩ ⟨[9], rfl⟩ 0, .forward,
        .datagram (segment 2 81 0 [66]) ⟨[10, 0, 0, 1], 4000⟩ ⟨[9], rfl⟩ 1, .forward,
        .tick 0 10] = some (trace, s) ∧
    s.closeRx = [⟨⟨[10, 0, 0, 1], 4000⟩, 0⟩] ∧ s.closeNotification = some t ∧
    s.sessions.lookup ⟨[10, 0, 0, 1], 4000⟩ = some 1 ∧
    (s.arena[1]?).map KcpSession.closed = some false ∧
    t.sessions.lookup ⟨[10, 0, 0, 1], 4000⟩ = none ∧
    (t.arena[1]?).map KcpSession.closed = some true ∧ ¬s.NotificationSafe := by
  refine ⟨_, _, _, rfl, rfl, rfl, rfl, rfl, rfl, rfl, ?_⟩
  intro hsafe
  have hA := hsafe _ _ _ rfl rfl
  have hkept := hA.sessions ⟨[10, 0, 0, 1], 4000⟩ 1 rfl (by decide)
  exact absurd hkept (by decide)

end TokioKcp
