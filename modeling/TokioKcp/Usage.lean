import TokioKcp.Peers

namespace TokioKcp
set_option autoImplicit true

open Checked Fec Transition

variable {κ : Type}

def KcpSession.writtenIn (K : KcpCrate κ) (self : KcpSession κ) : SessionEvent → Bytes
  | .call call _ => self.socket.acceptedIn K call
  | _ => []

def KcpSession.readIn (K : KcpCrate κ) (self : KcpSession κ) : SessionEvent → Bytes
  | .call call now => self.socket.givenIn K call now
  | _ => []

/-- What an event is to the given session, if an application causes it. -/
def Event.callOn (id : Nat) : Event → Option SessionEvent
  | .stream other call now => if other = id then some (.call call.toSocket now) else none
  | _ => none

def KcpSession.writtenOn (K : KcpCrate κ) (self : KcpSession κ) (id : Nat) (event : Event) :
    Bytes :=
  ((event.callOn id).map (self.writtenIn K)).getD []

def KcpSession.readOn (K : KcpCrate κ) (self : KcpSession κ) (id : Nat) (event : Event) : Bytes :=
  ((event.callOn id).map (self.readIn K)).getD []

/-- A session but for its flags. -/
def KcpSession.core (self : KcpSession κ) : KcpSocket κ × List Bytes × Option SocketAddr :=
  (self.socket, self.inputRx, self.sessionCloseNotifier)

def System.cores (s : System κ) : List (KcpSocket κ × List Bytes × Option SocketAddr) :=
  s.arena.map KcpSession.core

/-- Nobody but the network has datagrams for a client. -/
def SessionEvent.OfClient : SessionEvent → Prop
  | .input _ | .runIoTask _ | .call (.input _) _ => False
  | _ => True

/-- What becomes of a session of a listener that has the given datagrams for it: KCP takes and
hands over the given bytes. -/
structure KcpSession.Follows (K : KcpCrate κ) (held : List Bytes) (written read : Bytes)
    (s t : KcpSession κ) : Prop where
  notifier : t.sessionCloseNotifier = s.sessionCloseNotifier
  inputRx : t.inputRx ⊆ s.inputRx ++ held
  socket : s.socket.Uses K s.inputRx written read t.socket

variable {K : KcpCrate κ} {rs : Nat → Nat → Except String ReedSolomon} {config : KcpConfig}
variable {datagrams held : List Bytes} {written read : Bytes}

section Socket

variable {s t u : KcpSocket κ} {call : SocketCall} {now : Nat}

theorem KcpSocket.Uses.quiet (h : s.Uses K datagrams written read t)
    (hinput : ∀ packet, call = .input packet → packet ∈ datagrams)
    (hwritten : t.acceptedIn K call = []) (hread : t.givenIn K call now = [])
    (hcall : t.Step K (call, now) u) : s.Uses K datagrams written read u := by
  have hnext := h.call hinput hcall
  rw [hwritten, hread, List.append_nil, List.append_nil] at hnext
  exact hnext

theorem KcpSocket.uses_once (hinput : ∀ packet, call = .input packet → packet ∈ datagrams)
    (hcall : s.Step K (call, now) t) :
    s.Uses K datagrams (s.acceptedIn K call) (s.givenIn K call now) t :=
  KcpSocket.Uses.refl.call hinput hcall

theorem KcpSocket.step_input {packet : Bytes} {result : KcpResult Bool}
    (h : s.input K packet now = .ok (t, result)) : s.Step K (.input packet, now) t := by
  change (s.input K packet now >>= _) = _
  rw [h]
  rfl

end Socket

section Session

variable {s t : KcpSession κ}

theorem KcpSession.driveUpdate_uses (K : KcpCrate κ) (datagrams : List Bytes) (s : KcpSession κ)
    (nowMs : Nat) : s.socket.Uses K datagrams [] [] (s.driveUpdate K nowMs).1.socket := by
  rw [KcpSession.driveUpdate]
  split
  · exact .refl
  · split
    · exact .refl
    · rw [update_socket, closeInactive_socket]
      have hupdate : s.socket.Step K (.updateAt, nowMs) (s.socket.updateAt K nowMs).1 := rfl
      refine KcpSocket.uses_once ?_ hupdate
      intro packet he
      cases he

theorem KcpSession.pollSchedulerTick_uses (K : KcpCrate κ) (datagrams : List Bytes)
    (s : KcpSession κ) (nowMs : Nat) :
    s.socket.Uses K datagrams [] [] (s.pollSchedulerTick K nowMs).1.socket := by
  have hdrive := s.driveUpdate_uses K datagrams nowMs
  rw [KcpSession.pollSchedulerTick]
  split
  · rename_i he
    rw [he] at hdrive
    exact hdrive
  · rename_i self he
    rw [he] at hdrive
    have hclose : self.socket.Step K (.close, nowMs) self.socket.close := rfl
    refine hdrive.quiet ?_ rfl rfl hclose
    intro packet he
    cases he

theorem KcpSession.Step.uses {event : SessionEvent} (hW : K.wire.Laws) (h : s.Step K event t)
    (hclient : event.OfClient) (hfrom : event.From datagrams)
    (hnamed : ∀ buf now, event = .recv (.ok buf) now →
      ∀ conv, namedConv buf = some conv → conv = s.socket.conv K) :
    s.socket.Uses K datagrams (s.writtenIn K event) (s.readIn K event) t.socket := by
  cases event with
  | call call now =>
    obtain ⟨socket, hcall, rfl⟩ := h
    apply KcpSocket.uses_once _ hcall
    rintro packet rfl
    exact hclient.elim
  | close =>
    cases h
    exact .refl
  | input buf => exact hclient.elim
  | runIoTask now => exact hclient.elim
  | recv recvResult now =>
    change s.recv K recvResult now = _ at h
    cases recvResult with
    | error err =>
      rw [KcpSession.recv] at h
      split at h
      · cases h
        exact .refl
      · cases h
        exact .refl
    | ok buf =>
      rw [KcpSession.recv] at h
      split at h
      · rw [KcpSession.recvDatagram_eq hW] at h
        split at h
        · obtain ⟨socket, result, hinput, rfl⟩ := inputDatagram_socket h
          rw [KcpSocket.movedTo_same (hnamed buf now rfl)] at hinput
          refine KcpSocket.uses_once ?_ (KcpSocket.step_input hinput)
          intro packet he
          cases he
          exact hfrom
        · cases h
          exact .refl
      · cases h
        exact .refl
  | tick nowMs =>
    cases h
    exact s.pollSchedulerTick_uses K datagrams nowMs

theorem KcpSession.runIoTask_follows (h : s.runIoTask K now = .ok t) :
    s.Follows K held [] [] t := by
  have hnotifier := (KcpSession.runIoTask_evolves h).notifier
  rw [KcpSession.runIoTask] at h
  split at h
  · rename_i inputBuffer rest _ hrx
    obtain ⟨⟨socket, result⟩, hinput, h⟩ := bind_eq_ok.mp h
    cases h
    refine ⟨hnotifier, ?_, KcpSocket.uses_once ?_ (KcpSocket.step_input hinput)⟩
    · rw [hrx]
      exact List.subset_append_of_subset_left _ (List.subset_cons_self _ _)
    · intro packet he
      cases he
      rw [hrx]
      exact List.mem_cons_self
  · cases h
    exact ⟨hnotifier, List.subset_append_left _ _, .refl⟩

theorem KcpSession.pollSchedulerTick_follows (K : KcpCrate κ) (held : List Bytes)
    (s : KcpSession κ) (nowMs : Nat) :
    s.Follows K held [] [] (s.pollSchedulerTick K nowMs).1 := by
  refine ⟨(s.pollSchedulerTick_evolves K nowMs).notifier, ?_,
    s.pollSchedulerTick_uses K s.inputRx nowMs⟩
  have hrx := (s.driveUpdate_input K nowMs).2
  rw [KcpSession.pollSchedulerTick]
  split
  · rename_i he
    rw [he] at hrx
    rw [hrx]
    exact List.subset_append_left _ _
  · exact List.nil_subset _

end Session

section Listener

variable {s t : System κ} {session session' : KcpSession κ} {id other : Nat} {event : Event}
variable {packet : Bytes} {peer : SocketAddr} {draws : RandomDraws} {now : Nat}

theorem System.cores_close (s : System κ) (id : Nat) :
    (s.modify id KcpSession.close).cores = s.cores := by
  apply List.ext_getElem?
  intro i
  rw [System.cores, System.cores, List.getElem?_map, List.getElem?_map]
  change ((s.arena.modify id KcpSession.close)[i]?).map _ = _
  rw [List.getElem?_modify, Option.map_eq_map, Option.map_map]
  congr 1
  funext session
  rw [Function.comp_apply]
  split
  · rfl
  · rfl

theorem System.cores_dropHandle (s : System κ) (handle : Option Nat) :
    (s.dropHandle handle).cores = s.cores := by
  cases handle with
  | none => rfl
  | some id => exact s.cores_close id

theorem System.cores_closeAll (s : System κ) (ids : List Nat) :
    (s.closeAll ids).cores = s.cores := by
  induction ids generalizing s with
  | nil => rfl
  | cons id ids ih => exact (ih (s.modify id KcpSession.close)).trans (s.cores_close id)

theorem System.cores_opened (s : System κ) (socket : KcpSocket κ) (peer : SocketAddr)
    (now : Nat) :
    (s.opened config socket peer now).cores = s.cores ++ [(socket, [], some peer)] := by
  have hdrop := System.cores_dropHandle
    (s.newShared (.new socket config.sessionExpire (some peer)) now) (s.sessions.lookup peer)
  exact hdrop.trans List.map_append

theorem System.Handled.cores {outcome : Option (Nat × Bytes)}
    (h : s.Handled K rs config packet peer draws now t outcome) : t.cores = s.cores ∨
    ∃ front body socket, CarriesKcp config packet front body ∧
      KcpSocket.new K rs config (convFor draws body) config.stream now = .ok (.ok socket) ∧
      t.cores = s.cores ++ [(socket, [], some peer)] := by
  cases h with
  | parity hp => exact .inl rfl
  | tooShort hp hlen => exact .inl rfl
  | failed hb ho hn => exact .inl rfl
  | kept hb hg hc => exact .inl rfl
  | mismatch hb hg hc hsn => exact .inl rfl
  | @opened front body socket hb ho hn hroom =>
    exact .inr ⟨front, body, socket, hb, hn, s.cores_opened socket peer now⟩
  | @refused front body socket hb ho hn hroom =>
    let v := (s.opened config socket peer now).modify s.arena.length KcpSession.close
    have hdrop := v.cores_dropHandle (v.sessions.lookup peer)
    have hclose := System.cores_close (s.opened config socket peer now) s.arena.length
    exact .inr ⟨front, body, socket, hb, hn,
      (hdrop.trans hclose).trans (s.cores_opened socket peer now)⟩

theorem KcpSession.Follows.of_core (h : session'.core = session.core) :
    session.Follows K held [] [] session' := by
  obtain ⟨hsocket, hrest⟩ := Prod.ext_iff.mp h
  obtain ⟨hrx, hnotifier⟩ := Prod.ext_iff.mp hrest
  refine ⟨hnotifier, ?_, ?_⟩
  · rw [show session'.inputRx = session.inputRx from hrx]
    exact List.subset_append_left _ _
  · rw [show session'.socket = session.socket from hsocket]
    exact .refl

/-- A session is still there after a step, and has followed its part in the event. -/
def System.Followed (K : KcpCrate κ) (s t : System κ) (id : Nat) (event : Event)
    (session : KcpSession κ) : Prop :=
  ∃ session', t.arena[id]? = some session' ∧
    session.Follows K (forSession id s.forwarding) (session.writtenOn K id event)
      (session.readOn K id event) session'

theorem System.followed_kept (hs : s.arena[id]? = some session) (hcall : event.callOn id = none)
    (hc : t.cores[id]? = s.cores[id]?) : s.Followed K t id event session := by
  have hcores : s.cores[id]? = some session.core := by
    rw [System.cores, List.getElem?_map, hs]
    rfl
  rw [hcores, System.cores, List.getElem?_map] at hc
  obtain ⟨session', ht, hcore⟩ := Option.map_eq_some_iff.mp hc
  refine ⟨session', ht, ?_⟩
  rw [KcpSession.writtenOn, KcpSession.readOn, hcall]
  exact .of_core hcore

theorem System.followed_set {old new : KcpSession κ} (hs : s.arena[id]? = some session)
    (hold : s.arena[other]? = some old) (ht : t.arena = s.arena.set other new)
    (hother : other ≠ id → event.callOn id = none)
    (hsame : other = id → old.Follows K (forSession id s.forwarding) (old.writtenOn K id event)
      (old.readOn K id event) new) : s.Followed K t id event session := by
  by_cases hid : other = id
  · have hold' := hold
    rw [hid, hs] at hold'
    cases hold'
    refine ⟨new, ?_, hsame hid⟩
    rw [ht, ← hid, List.getElem?_set_self (List.getElem?_eq_some_iff.mp hold).1]
  · apply followed_kept hs (hother hid)
    rw [System.cores, System.cores, ht, List.getElem?_map, List.getElem?_map,
      List.getElem?_set_ne hid]

theorem KcpSession.input_follows (h : session.input packet = .ready (some session')) :
    session.Follows K [packet] [] [] session' := by
  rw [KcpSession.input] at h
  split at h
  · cases h
  · split at h
    · cases h
      exact ⟨rfl, List.Subset.refl _, .refl⟩
    · cases h

theorem KcpSession.call_follows {socket : KcpSocket κ} {call : StreamCall}
    (h : session.socket.Step K (call.toSocket, now) socket) :
    session.Follows K held (session.writtenOn K id (.stream id call now))
      (session.readOn K id (.stream id call now)) { session with socket := socket } := by
  have hon : (Event.stream id call now).callOn id = some (.call call.toSocket now) := if_pos rfl
  rw [KcpSession.writtenOn, KcpSession.readOn, hon]
  refine ⟨rfl, List.subset_append_left _ _, KcpSocket.uses_once ?_ h⟩
  intro packet he
  cases call with
  | _ => cases he

/-- What a step is to a session that is there. -/
theorem System.Acts.follows (h : s.Acts K rs config event t) (hs : s.arena[id]? = some session) :
    s.Followed K t id event session := by
  have htick {old new : KcpSession κ} {nowMs : Nat} {deadlineMs : Option Nat}
      {notification : Option SocketAddr}
      (hp : old.pollSchedulerTick K nowMs = (new, deadlineMs, notification)) :
      old.Follows K (forSession id s.forwarding) [] [] new := by
    have hfollows := old.pollSchedulerTick_follows K (forSession id s.forwarding) nowMs
    rw [hp] at hfollows
    exact hfollows
  cases h with
  | handled hf hh =>
    apply followed_kept hs rfl
    rcases System.Handled.cores hh with hc | ⟨_, _, _, _, _, hc⟩
    · exact congrArg (·[id]?) hc
    · have hlt : id < s.cores.length := by
        rw [System.cores, List.length_map]
        exact (List.getElem?_eq_some_iff.mp hs).1
      exact (congrArg (·[id]?) hc).trans (List.getElem?_append_left hlt)
  | @forwarded packet old new other hf hold hi =>
    refine followed_set hs hold rfl (fun _ => rfl) ?_
    rintro rfl
    rw [hf, forSession, if_pos rfl]
    exact KcpSession.input_follows hi
  | discarded hf hold hi => exact followed_kept hs rfl rfl
  | @notified notification rest hf hc =>
    have hdrop := System.cores_dropHandle { s with closeRx := rest }
      (s.sessions.lookup notification.peer)
    exact followed_kept hs rfl (congrArg (·[id]?) hdrop)
  | accepted ha => exact followed_kept hs rfl rfl
  | called hold hm hcall =>
    refine followed_set hs hold rfl (fun hne => if_neg hne) ?_
    rintro rfl
    exact KcpSession.call_follows hcall
  | @streamDropped other hm =>
    exact followed_kept hs rfl (congrArg (·[id]?) (s.cores_close other))
  | listenerDropped hc =>
    have hclosed := System.cores_closeAll { s with acceptRx := [], acceptClosed := true }
      (s.acceptRx.map Prod.fst)
    exact followed_kept hs rfl (congrArg (·[id]?) hclosed)
  | rescheduled htask hold hdue hp =>
    exact followed_set hs hold rfl (fun _ => rfl) fun _ => htick hp
  | finalized htask hold hdue hp =>
    exact followed_set hs hold rfl (fun _ => rfl) fun _ => htick hp
  | ranIoTask hold hrun =>
    exact followed_set hs hold rfl (fun _ => rfl) fun _ => KcpSession.runIoTask_follows hrun

/-- A session that was not there comes with a datagram, and its socket is a new one. -/
theorem System.Step.born (hW : K.wire.Laws) (h : s.Step K rs config event t)
    (hout : s.arena.length ≤ id) (ht : t.arena[id]? = some session) :
    ∃ packet peer draws now front body socket, event = .datagram packet peer draws now ∧
      CarriesKcp config packet front body ∧
      KcpSocket.new K rs config (convFor draws body) config.stream now = .ok (.ok socket) ∧
      id = s.arena.length ∧ session.core = (socket, [], some peer) := by
  have hcore : t.cores[id]? = some session.core := by
    rw [System.cores, List.getElem?_map, ht]
    rfl
  have hlt := (List.getElem?_eq_some_iff.mp ht).1
  have hgrown : t.arena.length ≠ s.arena.length := by
    intro hlen
    rw [hlen] at hlt
    exact Nat.not_lt_of_le hout hlt
  cases System.Step.effect hW h with
  | quiet h => exact absurd h.length hgrown
  | finalized h => exact absurd h.length hgrown
  | notified h ht => exact absurd (notified_frame ht).2.2.2 hgrown
  | @opened packet _ _ peer draws now _ _ _ _ _ =>
    cases System.Step.acts hW h with
    | @handled _ _ _ _ u _ hf hh =>
      rcases System.Handled.cores hh with hc | ⟨front, body, socket, hb, hn, hc⟩
      · have hlen := congrArg List.length hc
        rw [System.cores, System.cores, List.length_map, List.length_map] at hlen
        exact absurd hlen hgrown
      · change u.cores[id]? = _ at hcore
        have hlen : s.cores.length = s.arena.length := List.length_map _
        rw [hc, List.getElem?_append_right (hlen ▸ hout), hlen] at hcore
        have hid : id - s.arena.length = 0 := by
          have hone := (List.getElem?_eq_some_iff.mp hcore).1
          exact Nat.lt_one_iff.mp hone
        rw [hid] at hcore
        exact ⟨packet, peer, draws, now, front, body, socket, rfl, hb, hn,
          Nat.le_antisymm (Nat.sub_eq_zero_iff_le.mp hid) hout, (Option.some.inj hcore).symm⟩

end Listener

end TokioKcp
