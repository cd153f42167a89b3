import TokioKcp.Listener.Acts
import TokioKcp.Listener.Conversations

namespace TokioKcp
set_option autoImplicit true

open Checked Fec Transition

variable {κ : Type}

/-- All that the listener and the scheduler have of a peer. -/
structure PeerShare (κ : Type) where
  entry : Option Nat
  sessions : Nat → Option (KcpSession κ)
  tasks : List ScheduledTask
  notifications : List CloseNotification
  queued : List (Nat × SocketAddr)
  held : Option (Nat × Bytes)
  streams : List Nat

/-- The share of a peer that has the sessions with the given numbers. -/
def System.shareOf (s : System κ) (peer : SocketAddr) (mine : Nat → Bool) : PeerShare κ where
  entry := s.sessions.lookup peer
  sessions id := if mine id then s.arena[id]? else none
  tasks := s.tasks.filter fun task => mine task.session
  notifications := s.closeRx.filter fun n => decide (n.peer = peer)
  queued := s.acceptRx.filter fun x => mine x.1
  held := s.forwarding.filter fun x => mine x.1
  streams := s.streams.filter mine

def System.has (s : System κ) (peer : SocketAddr) (id : Nat) : Bool :=
  decide (s.peerOf id = some peer)

def System.share (s : System κ) (peer : SocketAddr) : PeerShare κ :=
  s.shareOf peer (s.has peer)

/-- The event is about the peer: its datagrams, its sessions, their tasks and streams. -/
def System.Concerns (s : System κ) (peer : SocketAddr) : Event → Prop
  | .datagram _ peerAddr _ _ => peerAddr = peer
  | .forward => ∃ x ∈ s.forwarding, s.has peer x.1 = true
  | .closeNotification => ∃ n ∈ s.closeRx.head?, n.peer = peer
  | .accept => ∃ x ∈ s.acceptRx.head?, s.has peer x.1 = true
  | .stream id _ _ | .streamDrop id | .ioTask id _ => s.has peer id = true
  | .listenerDrop => ∃ x ∈ s.acceptRx, s.has peer x.1 = true
  | .tick task _ => ∃ scheduled ∈ s.tasks[task]?, s.has peer scheduled.session = true

instance (s : System κ) (peer : SocketAddr) (event : Event) : Decidable (s.Concerns peer event) :=
  match event with
  | .datagram _ peerAddr _ _ => inferInstanceAs (Decidable (peerAddr = peer))
  | .forward => inferInstanceAs (Decidable (∃ x ∈ s.forwarding, s.has peer x.1 = true))
  | .closeNotification => inferInstanceAs (Decidable (∃ n ∈ s.closeRx.head?, n.peer = peer))
  | .accept => inferInstanceAs (Decidable (∃ x ∈ s.acceptRx.head?, s.has peer x.1 = true))
  | .stream id _ _ | .streamDrop id | .ioTask id _ =>
    inferInstanceAs (Decidable (s.has peer id = true))
  | .listenerDrop => inferInstanceAs (Decidable (∃ x ∈ s.acceptRx, s.has peer x.1 = true))
  | .tick task _ => inferInstanceAs
    (Decidable (∃ scheduled ∈ s.tasks[task]?, s.has peer scheduled.session = true))

section Share

variable {K : KcpCrate κ} {s : System κ} {peer peer' : SocketAddr} {mine : Nat → Bool} {id : Nat}

theorem filter_eraseIdx_of_neg {p : α → Bool} {xs : List α} {i : Nat} (h : xs[i]? = some x)
    (hx : p x = false) : (xs.eraseIdx i).filter p = xs.filter p := by
  induction xs generalizing i with
  | nil => rfl
  | cons y ys ih =>
    cases i with
    | zero =>
      cases h
      exact (List.filter_cons_of_neg (Bool.eq_false_iff.mp hx)).symm
    | succ i =>
      rw [List.eraseIdx_cons_succ, List.filter_cons, List.filter_cons, ih h]

theorem filter_set_of_neg {p : α → Bool} {xs : List α} {i : Nat} (h : xs[i]? = some x)
    (hx : p x = false) (hy : p y = false) : (xs.set i y).filter p = xs.filter p := by
  induction xs generalizing i with
  | nil => rfl
  | cons z zs ih =>
    cases i with
    | zero =>
      cases h
      rw [List.set_cons_zero, List.filter_cons_of_neg (Bool.eq_false_iff.mp hx),
        List.filter_cons_of_neg (Bool.eq_false_iff.mp hy)]
    | succ i =>
      rw [List.set_cons_succ, List.filter_cons, List.filter_cons, ih h]

theorem filter_erase_of_neg {p : Nat → Bool} (xs : List Nat) (hid : p id = false) :
    (xs.erase id).filter p = xs.filter p := by
  induction xs with
  | nil => rfl
  | cons x xs ih =>
    rw [List.erase_cons]
    split
    · rename_i he
      rw [← eq_of_beq he] at hid
      exact (List.filter_cons_of_neg (Bool.eq_false_iff.mp hid)).symm
    · rw [List.filter_cons, List.filter_cons, ih]

theorem System.shareOf_arena (s : System κ) {arena : List (KcpSession κ)}
    (h : ∀ id, mine id = true → arena[id]? = s.arena[id]?) :
    ({ s with arena := arena } : System κ).shareOf peer mine = s.shareOf peer mine := by
  have hsessions : (fun id => if mine id then arena[id]? else none) =
      fun id => if mine id then s.arena[id]? else none := by
    funext id
    split
    · rename_i hm
      exact h id hm
    · rfl
  rw [System.shareOf, System.shareOf, hsessions]

theorem System.shareOf_set (hid : mine id = false) (s : System κ) (session : KcpSession κ) :
    ({ s with arena := s.arena.set id session } : System κ).shareOf peer mine =
      s.shareOf peer mine := by
  apply s.shareOf_arena
  intro id' hm
  apply List.getElem?_set_ne
  rintro rfl
  exact Bool.false_ne_true (hid.symm.trans hm)

theorem System.shareOf_modify (hid : mine id = false) (s : System κ)
    (f : KcpSession κ → KcpSession κ) :
    (s.modify id f).shareOf peer mine = s.shareOf peer mine := by
  apply s.shareOf_arena
  intro id' hm
  apply List.getElem?_modify_ne
  rintro rfl
  exact Bool.false_ne_true (hid.symm.trans hm)

theorem System.shareOf_closeAll {ids : List Nat} (hids : ∀ id ∈ ids, mine id = false)
    (s : System κ) : (s.closeAll ids).shareOf peer mine = s.shareOf peer mine := by
  induction ids generalizing s with
  | nil => rfl
  | cons id ids ih =>
    have hrest := ih (fun id hm => hids id (List.mem_cons_of_mem _ hm))
      (s.modify id KcpSession.close)
    exact hrest.trans (s.shareOf_modify (hids id List.mem_cons_self) _)

theorem System.shareOf_dropHandle {handle : Option Nat} (h : ∀ id ∈ handle, mine id = false)
    (s : System κ) : (s.dropHandle handle).shareOf peer mine = s.shareOf peer mine := by
  cases handle with
  | none => rfl
  | some id => exact s.shareOf_modify (h id rfl) _

theorem System.shareOf_sessions {sessions : FinMap SocketAddr Nat}
    (h : sessions.lookup peer = s.sessions.lookup peer) :
    ({ s with sessions := sessions } : System κ).shareOf peer mine = s.shareOf peer mine := by
  rw [System.shareOf, System.shareOf, h]

theorem System.shareOf_tasks {tasks : List ScheduledTask}
    (h : tasks.filter (fun task => mine task.session) =
      s.tasks.filter fun task => mine task.session) :
    ({ s with tasks := tasks } : System κ).shareOf peer mine = s.shareOf peer mine := by
  rw [System.shareOf, System.shareOf, h]

theorem System.shareOf_closeRx {closeRx : List CloseNotification}
    (h : closeRx.filter (fun n => decide (n.peer = peer)) =
      s.closeRx.filter fun n => decide (n.peer = peer)) :
    ({ s with closeRx := closeRx } : System κ).shareOf peer mine = s.shareOf peer mine := by
  rw [System.shareOf, System.shareOf, h]

theorem System.shareOf_acceptRx {acceptRx : List (Nat × SocketAddr)}
    (h : acceptRx.filter (fun x => mine x.1) = s.acceptRx.filter fun x => mine x.1) :
    ({ s with acceptRx := acceptRx } : System κ).shareOf peer mine = s.shareOf peer mine := by
  rw [System.shareOf, System.shareOf, h]

theorem System.shareOf_streams {streams : List Nat}
    (h : streams.filter mine = s.streams.filter mine) :
    ({ s with streams := streams } : System κ).shareOf peer mine = s.shareOf peer mine := by
  rw [System.shareOf, System.shareOf, h]

theorem System.shareOf_forwarding {forwarding : Option (Nat × Bytes)}
    (h : ∀ x ∈ forwarding, mine x.1 = false) (h' : ∀ x ∈ s.forwarding, mine x.1 = false) :
    ({ s with forwarding := forwarding } : System κ).shareOf peer mine =
      s.shareOf peer mine := by
  have hnone (held : Option (Nat × Bytes)) (hheld : ∀ x ∈ held, mine x.1 = false) :
      (held.filter fun x => mine x.1) = none := by
    rw [Option.filter_eq_none_iff]
    intro x hx
    exact Bool.eq_false_iff.mp (hheld x hx)
  rw [System.shareOf, System.shareOf]
  dsimp only
  rw [hnone _ h, hnone _ h']

theorem System.shareOf_idle (h : ∀ x ∈ s.forwarding, mine x.1 = false) :
    ({ s with forwarding := none } : System κ).shareOf peer mine = s.shareOf peer mine := by
  have hnone : ∀ x ∈ (none : Option (Nat × Bytes)), mine x.1 = false := nofun
  exact System.shareOf_forwarding hnone h

theorem System.shareOf_closePeer (hne : peer' ≠ peer)
    (h : ∀ id ∈ s.sessions.lookup peer', mine id = false) :
    (s.closePeer peer').shareOf peer mine = s.shareOf peer mine := by
  rw [System.closePeer, System.shareOf_sessions]
  · exact s.shareOf_dropHandle h
  · rw [(s.frame_dropHandle _).1]
    exact AList.lookup_erase_ne hne.symm

theorem System.shareOf_insert (hne : peer' ≠ peer)
    (h : ∀ id ∈ s.sessions.lookup peer', mine id = false) (id : Nat) :
    (s.insert peer' id).shareOf peer mine = s.shareOf peer mine := by
  rw [System.insert, System.shareOf_sessions]
  · exact s.shareOf_dropHandle h
  · rw [(s.frame_dropHandle _).1]
    exact AList.lookup_insert_ne hne.symm

theorem filter_concat_of_neg {p : α → Bool} (xs : List α) (hx : p x = false) :
    (xs ++ [x]).filter p = xs.filter p := by
  have hnil : [x].filter p = [] := List.filter_cons_of_neg (Bool.eq_false_iff.mp hx)
  rw [List.filter_append, hnil, List.append_nil]

theorem System.shareOf_newShared (hid : mine s.arena.length = false) (session : KcpSession κ)
    (now : Nat) : (s.newShared session now).shareOf peer mine = s.shareOf peer mine := by
  have harena : ({ s with arena := s.arena ++ [session] } : System κ).shareOf peer mine =
      s.shareOf peer mine := by
    apply s.shareOf_arena
    intro id hm
    have hne : id ≠ s.arena.length := by
      rintro rfl
      exact Bool.false_ne_true (hid.symm.trans hm)
    rw [List.getElem?_append]
    split
    · rfl
    · rename_i hle
      have hgt : s.arena.length < id := Nat.lt_of_le_of_ne (Nat.le_of_not_lt hle) hne.symm
      rw [List.getElem?_eq_none (Nat.sub_pos_of_lt hgt), List.getElem?_eq_none (Nat.le_of_lt hgt)]
  rw [← harena]
  exact System.shareOf_tasks (s := { s with arena := s.arena ++ [session] })
    (filter_concat_of_neg (p := fun task => mine task.session) (x := ⟨s.arena.length, now⟩)
      s.tasks hid)

theorem System.shareOf_opened (hne : peer' ≠ peer)
    (h : ∀ id ∈ s.sessions.lookup peer', mine id = false) (hid : mine s.arena.length = false)
    (config : KcpConfig) (socket : KcpSocket κ) (now : Nat) :
    (s.opened config socket peer' now).shareOf peer mine = s.shareOf peer mine := by
  rw [System.opened, System.shareOf_insert hne]
  · exact s.shareOf_newShared hid _ now
  · exact h

end Share

section Isolation

variable {K : KcpCrate κ} {rs : Nat → Nat → Except String ReedSolomon} {config : KcpConfig}
variable {s t : System κ} {peer peer' : SocketAddr} {event : Event} {mine : Nat → Bool} {id : Nat}

theorem System.has_eq_false (h : s.peerOf id = some peer') (hne : peer' ≠ peer) :
    s.has peer id = false := by
  rw [System.has, h]
  exact decide_eq_false fun he => hne (Option.some.inj he)

theorem System.has_of_length_le (h : s.arena.length ≤ id) : s.has peer id = false := by
  rw [System.has, System.peerOf, List.getElem?_eq_none h]
  exact decide_eq_false (Option.some_ne_none peer).symm

theorem System.Grows.has (h : s.Grows K t) (hs : s.Accounted) (hid : id < s.arena.length) :
    t.has peer id = s.has peer id := by
  obtain ⟨peer', hp⟩ := hs.peers id hid
  rw [System.has, System.has, hp, h.peerOf hp]

theorem System.Effect.has (h : s.Effect K rs config event t) (hs : s.Accounted)
    (hother : ¬s.Concerns peer event) : t.has peer = s.has peer := by
  have hsame (hl : t.arena.length = s.arena.length) (hg : s.Grows K t) :
      t.has peer = s.has peer := by
    funext id
    by_cases hlt : id < s.arena.length
    · exact hg.has hs hlt
    · have hle := Nat.le_of_not_lt hlt
      rw [has_of_length_le hle, has_of_length_le (hl ▸ hle)]
  have hgrows := h.grows
  cases h with
  | quiet h => exact hsame h.length hgrows
  | finalized h => exact hsame h.length hgrows
  | notified h ht => exact hsame (notified_frame ht).2.2.2 hgrows
  | opened hb ho hn h =>
    funext id
    rcases Nat.lt_trichotomy id s.arena.length with hlt | rfl | hgt
    · exact hgrows.has hs hlt
    · rw [has_of_length_le (Nat.le_refl _), has_eq_false h.peerOf_new hother]
    · have hout : t.arena.length ≤ id := by
        rw [h.length]
        exact hgt
      rw [has_of_length_le (Nat.le_of_lt hgt), has_of_length_le hout]

theorem System.Accounted.has_table (hs : s.Accounted) (hne : peer' ≠ peer) :
    ∀ id ∈ s.sessions.lookup peer', s.has peer id = false :=
  fun id hl => has_eq_false (hs.table peer' id hl).1 hne

theorem System.forwarding_opened (s : System κ) (config : KcpConfig) (socket : KcpSocket κ)
    (peer : SocketAddr) (now : Nat) :
    (s.opened config socket peer now).forwarding = s.forwarding :=
  System.forwarding_dropHandle (s.newShared (.new socket config.sessionExpire (some peer)) now)
    (s.sessions.lookup peer)

section Opened

variable (hne : peer' ≠ peer) (htable : ∀ id ∈ s.sessions.lookup peer', mine id = false)
variable (hnew : mine s.arena.length = false) (hidle : ∀ x ∈ s.forwarding, mine x.1 = false)

include hne htable hnew hidle

theorem System.shareOf_queued (socket : KcpSocket κ) (now : Nat) (packet : Bytes) :
    ({ s.opened config socket peer' now with
      acceptRx := s.acceptRx ++ [(s.arena.length, peer')]
      forwarding := some (s.arena.length, packet) } : System κ).shareOf peer mine =
      s.shareOf peer mine := by
  have hqueue : (s.acceptRx ++ [(s.arena.length, peer')]).filter (fun x => mine x.1) =
      (s.opened config socket peer' now).acceptRx.filter fun x => mine x.1 := by
    rw [(s.accept_opened socket peer' now).1]
    exact filter_concat_of_neg (p := fun x => mine x.1) (x := (s.arena.length, peer'))
      s.acceptRx hnew
  let u : System κ := { s.opened config socket peer' now with
    acceptRx := s.acceptRx ++ [(s.arena.length, peer')] }
  have hidle' : ∀ x ∈ u.forwarding, mine x.1 = false := by
    intro x hx
    have hx : x ∈ (s.opened config socket peer' now).forwarding := hx
    rw [s.forwarding_opened] at hx
    exact hidle x hx
  have hnew' : ∀ x ∈ some (s.arena.length, packet), mine x.1 = false := by
    intro x hx
    cases hx
    exact hnew
  have hopened : (s.opened config socket peer' now).shareOf peer mine = s.shareOf peer mine :=
    System.shareOf_opened hne htable hnew config socket now
  exact (System.shareOf_forwarding hnew' hidle').trans
    ((System.shareOf_acceptRx hqueue).trans hopened)

theorem System.shareOf_refused (socket : KcpSocket κ) (now : Nat) :
    ({ ((s.opened config socket peer' now).modify s.arena.length KcpSession.close).closePeer peer'
        with forwarding := none } : System κ).shareOf peer mine = s.shareOf peer mine := by
  have hentry : ∀ id ∈ (s.opened config socket peer' now).sessions.lookup peer',
      mine id = false := by
    intro id hl
    change (s.sessions.insert peer' s.arena.length).lookup peer' = _ at hl
    rw [AList.lookup_insert] at hl
    cases hl
    exact hnew
  have hkept : (((s.opened config socket peer' now).modify s.arena.length
      KcpSession.close).closePeer peer').forwarding =
      (s.opened config socket peer' now).forwarding := System.forwarding_dropHandle _ _
  rw [System.shareOf_idle, System.shareOf_closePeer hne, System.shareOf_modify hnew]
  · exact System.shareOf_opened hne htable hnew config socket now
  · exact hentry
  · intro x hx
    rw [hkept, s.forwarding_opened] at hx
    exact hidle x hx

end Opened

theorem System.Handled.shareOf {packet : Bytes} {draws : RandomDraws} {now : Nat}
    {outcome : Option (Nat × Bytes)}
    (h : s.Handled K rs config packet peer' draws now t outcome) (hf : s.forwarding = none)
    (hne : peer' ≠ peer) (htable : ∀ id ∈ s.sessions.lookup peer', mine id = false)
    (hnew : mine s.arena.length = false) :
    ({ t with forwarding := outcome } : System κ).shareOf peer mine = s.shareOf peer mine := by
  have hidle : ∀ x ∈ s.forwarding, mine x.1 = false := by
    rw [hf]
    exact nofun
  have hget {id : Nat} {session : KcpSession κ} (hg : s.get peer' = some (id, session)) :
      mine id = false := htable id (System.get_eq_some hg).1
  cases h with
  | parity hp =>
    apply System.shareOf_forwarding _ hidle
    intro x hx
    obtain ⟨entry, hg, rfl⟩ := Option.map_eq_some_iff.mp hx
    exact hget hg
  | tooShort hp hlen => exact System.shareOf_idle hidle
  | failed hb ho hn => exact System.shareOf_idle hidle
  | mismatch hb hg hc hsn => exact System.shareOf_idle hidle
  | kept hb hg hc =>
    apply System.shareOf_forwarding _ hidle
    intro x hx
    cases hx
    exact hget hg
  | opened hb ho hn hroom => exact System.shareOf_queued hne htable hnew hidle _ now _
  | refused hb ho hn hroom => exact System.shareOf_refused hne htable hnew hidle _ now

theorem System.held_of_some {packet : Bytes} (hf : s.forwarding = some (id, packet))
    (hid : mine id = false) : ∀ x ∈ s.forwarding, mine x.1 = false := by
  intro x hx
  cases hf.symm.trans hx
  exact hid

theorem System.shareOf_forwarded {packet : Bytes} (hf : s.forwarding = some (id, packet))
    (hid : mine id = false) (session : KcpSession κ) :
    ({ s with
      arena := s.arena.set id session
      forwarding := none } : System κ).shareOf peer mine = s.shareOf peer mine := by
  exact (System.shareOf_idle (s := { s with arena := s.arena.set id session })
    (System.held_of_some hf hid)).trans (s.shareOf_set hid session)

theorem System.shareOf_notified {notification : CloseNotification} {rest : List CloseNotification}
    (hc : s.closeRx = notification :: rest) (hne : notification.peer ≠ peer)
    (htable : ∀ id ∈ s.sessions.lookup notification.peer, mine id = false) :
    (({ s with closeRx := rest } : System κ).closePeer notification.peer).shareOf peer mine =
      s.shareOf peer mine := by
  have hrest : rest.filter (fun n => decide (n.peer = peer)) =
      s.closeRx.filter fun n => decide (n.peer = peer) := by
    rw [hc, List.filter_cons_of_neg]
    exact fun h => hne (of_decide_eq_true h)
  rw [System.shareOf_closePeer hne]
  · exact System.shareOf_closeRx hrest
  · exact htable

theorem System.shareOf_accepted {rest : List (Nat × SocketAddr)}
    (ha : s.acceptRx = (id, peer') :: rest) (hid : mine id = false) :
    ({ s with acceptRx := rest, streams := s.streams ++ [id] } : System κ).shareOf peer mine =
      s.shareOf peer mine := by
  have hqueue : rest.filter (fun x => mine x.1) = s.acceptRx.filter fun x => mine x.1 := by
    rw [ha, List.filter_cons_of_neg]
    exact Bool.eq_false_iff.mp hid
  exact (System.shareOf_streams (s := { s with acceptRx := rest })
    (filter_concat_of_neg s.streams hid)).trans (System.shareOf_acceptRx hqueue)

theorem System.shareOf_listenerDropped (hqueued : ∀ x ∈ s.acceptRx, mine x.1 = false) :
    (({ s with acceptRx := [], acceptClosed := true } : System κ).closeAll
      (s.acceptRx.map Prod.fst)).shareOf peer mine = s.shareOf peer mine := by
  rw [System.shareOf_closeAll]
  · have hnone : (s.acceptRx.filter fun x => mine x.1) = [] :=
      List.filter_eq_nil_iff.mpr fun x hx => Bool.eq_false_iff.mp (hqueued x hx)
    exact System.shareOf_acceptRx hnone.symm
  · intro id hid
    obtain ⟨x, hx, rfl⟩ := List.mem_map.mp hid
    exact hqueued x hx

theorem System.shareOf_rescheduled {task deadlineMs : Nat} {scheduled : ScheduledTask}
    (htask : s.tasks[task]? = some scheduled) (hid : mine scheduled.session = false)
    (session : KcpSession κ) :
    ({ s with
      arena := s.arena.set scheduled.session session
      tasks := s.tasks.set task ⟨scheduled.session, deadlineMs⟩ } : System κ).shareOf peer mine =
      s.shareOf peer mine := by
  have htasks : (s.tasks.set task ⟨scheduled.session, deadlineMs⟩).filter
      (fun task => mine task.session) = s.tasks.filter fun task => mine task.session :=
    filter_set_of_neg (p := fun task => mine task.session)
      (y := ⟨scheduled.session, deadlineMs⟩) htask hid hid
  exact (System.shareOf_tasks (s := { s with arena := s.arena.set scheduled.session session })
    htasks).trans (s.shareOf_set hid session)

theorem System.shareOf_finalized {task : Nat} {scheduled : ScheduledTask}
    {notices : List CloseNotification} (htask : s.tasks[task]? = some scheduled)
    (hid : mine scheduled.session = false) (hnotices : ∀ n ∈ notices, n.peer ≠ peer)
    (session : KcpSession κ) :
    ({ s with
      arena := s.arena.set scheduled.session session
      tasks := s.tasks.eraseIdx task
      closeRx := s.closeRx ++ notices } : System κ).shareOf peer mine = s.shareOf peer mine := by
  have htasks : (s.tasks.eraseIdx task).filter (fun task => mine task.session) =
      s.tasks.filter fun task => mine task.session :=
    filter_eraseIdx_of_neg (p := fun task => mine task.session) htask hid
  have hnone : notices.filter (fun n => decide (n.peer = peer)) = [] :=
    List.filter_eq_nil_iff.mpr fun n hn he => hnotices n hn (of_decide_eq_true he)
  rw [System.shareOf_closeRx (s := { s with
    arena := s.arena.set scheduled.session session, tasks := s.tasks.eraseIdx task })]
  · exact (System.shareOf_tasks (s := { s with arena := s.arena.set scheduled.session session })
      htasks).trans (s.shareOf_set hid session)
  · rw [List.filter_append, hnone, List.append_nil]

theorem System.peer_ne_of_notifier {session : KcpSession κ} (hs : s.arena[id]? = some session)
    (hid : s.has peer id = false) :
    ∀ n ∈ session.sessionCloseNotifier.toList.map fun peer => (⟨peer, id⟩ : CloseNotification),
      n.peer ≠ peer := by
  intro n hn
  obtain ⟨peer', hp, rfl⟩ := List.mem_map.mp hn
  rintro rfl
  have hpeer : s.peerOf id = some peer' := by
    rw [System.peerOf, hs]
    exact Option.mem_toList.mp hp
  rw [System.has, hpeer] at hid
  exact of_decide_eq_false hid rfl

/-- A step that does not concern a peer leaves it with what it has. -/
theorem System.Acts.shareOf (h : s.Acts K rs config event t) (hs : s.Accounted)
    (hother : ¬s.Concerns peer event) :
    t.shareOf peer (s.has peer) = s.shareOf peer (s.has peer) := by
  have hno {id : Nat} (h : s.has peer id ≠ true) : s.has peer id = false :=
    Bool.eq_false_iff.mpr h
  cases h with
  | handled hf hh =>
    exact hh.shareOf hf hother (hs.has_table hother) (System.has_of_length_le (Nat.le_refl _))
  | forwarded hf hsession hi =>
    exact System.shareOf_forwarded hf (hno fun hm => hother ⟨_, hf, hm⟩) _
  | discarded hf hsession hi =>
    exact System.shareOf_idle (System.held_of_some hf (hno fun hm => hother ⟨_, hf, hm⟩))
  | @notified notification rest hf hc =>
    have hne : notification.peer ≠ peer := fun he => hother ⟨notification, by rw [hc]; rfl, he⟩
    exact System.shareOf_notified hc hne (hs.has_table hne)
  | @accepted peer' rest id ha =>
    have hid := hno fun hm => hother ⟨(id, peer'), by rw [ha]; rfl, hm⟩
    exact System.shareOf_accepted ha hid
  | called hsession hm hcall => exact s.shareOf_set (hno hother) _
  | streamDropped hm =>
    rw [System.shareOf_modify (hno hother)]
    exact System.shareOf_streams (filter_erase_of_neg s.streams (hno hother))
  | listenerDropped hc =>
    exact System.shareOf_listenerDropped fun x hx => hno fun hm => hother ⟨x, hx, hm⟩
  | rescheduled htask hsession hdue hp =>
    exact System.shareOf_rescheduled htask (hno fun hm => hother ⟨_, htask, hm⟩) _
  | finalized htask hsession hdue hp =>
    have hid := hno fun hm => hother ⟨_, htask, hm⟩
    exact System.shareOf_finalized htask hid (System.peer_ne_of_notifier hsession hid) _
  | ranIoTask hsession hrun => exact s.shareOf_set (hno hother) _

theorem System.Step.share (hW : K.wire.Laws) (h : s.Step K rs config event t)
    (hs : s.Accounted) (hother : ¬s.Concerns peer event) : t.share peer = s.share peer := by
  rw [System.share, (h.effect hW).has hs hother]
  exact (h.acts hW).shareOf hs hother

/-- In any order of events, whatever a peer has of the listener and the scheduler stays as it is
but for the events that concern this peer. -/
theorem peers_isolated {earlier trace : List (System κ × Event)} (hW : K.wire.Laws)
    (hreach : Run (System.Step K rs config) System.new earlier s)
    (hrun : Run (System.Step K rs config) s trace t)
    (hother : ∀ x ∈ trace, ¬x.1.Concerns peer x.2) :
    Always (fun u => u.share peer = s.share peer) trace t := by
  have haccounted := hreach.invariant (P := System.Accounted)
    (fun u event v hu hstep => (System.Step.effect hW hstep).accounted hu) System.new_accounted
  have hall := hrun.guarded (P := fun u => u.Accounted ∧ u.share peer = s.share peer)
    (C := fun u event => ¬u.Concerns peer event)
    (fun u event v hu hother hstep =>
      ⟨(System.Step.effect hW hstep).accounted hu.1, (hstep.share hW hu.1 hother).trans hu.2⟩)
    ⟨haccounted.2, rfl⟩ hother
  exact hall.mono fun u hu => hu.2

/-- The sessions of another peer come, run and go. -/
theorem peers_isolated_small : ∃ earlier s trace t,
    Run (System.Step smallKcp reedSolomon {}) .new earlier s ∧
    s.has ⟨[10, 0, 0, 1], 4000⟩ 0 = true ∧
    Run (System.Step smallKcp reedSolomon {}) s trace t ∧
    trace.map Prod.snd = [.datagram (segment 1 81 0 [66]) ⟨[10, 0, 0, 2], 4000⟩ ⟨[9], rfl⟩ 1,
      .forward, .accept, .ioTask 1 1, .streamDrop 1, .tick 1 11, .closeNotification] ∧
    Always (fun u => u.share ⟨[10, 0, 0, 1], 4000⟩ = s.share ⟨[10, 0, 0, 1], 4000⟩) trace t := by
  have hreplay : ∃ earlier s trace t, replay (System.next? smallKcp reedSolomon {}) .new
      [.datagram (segment 1 81 0 [65]) ⟨[10, 0, 0, 1], 4000⟩ ⟨[9], rfl⟩ 0, .forward, .accept] =
        some (earlier, s) ∧ s.has ⟨[10, 0, 0, 1], 4000⟩ 0 = true ∧
      replay (System.next? smallKcp reedSolomon {}) s
        [.datagram (segment 1 81 0 [66]) ⟨[10, 0, 0, 2], 4000⟩ ⟨[9], rfl⟩ 1, .forward, .accept,
          .ioTask 1 1, .streamDrop 1, .tick 1 11, .closeNotification] = some (trace, t) ∧
      trace.map Prod.snd = [.datagram (segment 1 81 0 [66]) ⟨[10, 0, 0, 2], 4000⟩ ⟨[9], rfl⟩ 1,
        .forward, .accept, .ioTask 1 1, .streamDrop 1, .tick 1 11, .closeNotification] ∧
      (trace.all fun x => !decide (x.1.Concerns ⟨[10, 0, 0, 1], 4000⟩ x.2)) = true :=
    ⟨_, _, _, _, rfl, rfl, rfl, rfl, rfl⟩
  obtain ⟨earlier, s, trace, t, hfirst, hhas, hr, hevents, hothers⟩ := hreplay
  have hreach := run_of_replay (fun _ _ _ => System.step_of_next? smallKcp reedSolomon {}) hfirst
  have hrun := run_of_replay (fun _ _ _ => System.step_of_next? smallKcp reedSolomon {}) hr
  refine ⟨earlier, s, trace, t, hreach, hhas, hrun, hevents,
    peers_isolated smallWire_laws hreach hrun ?_⟩
  intro x hx
  have hother := List.all_eq_true.mp hothers x hx
  exact of_decide_eq_false (Bool.not_eq_true' _ ▸ hother)

end Isolation

end TokioKcp
