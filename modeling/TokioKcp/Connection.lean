import TokioKcp.Travel
import TokioKcp.Listener.HandOver

namespace TokioKcp
set_option autoImplicit true

open Checked Fec Transition

/-- A client and the listener that it talks to. `clientPipe` and `pipes` are the outputs of the
client and of the listener's sessions, and the networks have all that was ever sent. -/
structure Connection (κ : Type) where
  listener : System κ
  client : KcpSession κ
  clientPipe : OutputPipe
  pipes : List OutputPipe
  toListener : List Bytes
  toClient : List Bytes

inductive ConnectionEvent where
  | listener (event : Event)
  | client (event : SessionEvent)
  | clientOutput (event : OutputEvent)
  | sessionOutput (id : Nat) (event : OutputEvent)

/-- What comes from the peer was sent. Other peers send what they like. -/
def Event.From (peer : SocketAddr) (network : List Bytes) : Event → Prop
  | .datagram packet peerAddr _ _ => peerAddr = peer → packet ∈ network
  | _ => True

def SessionEvent.From (network : List Bytes) : SessionEvent → Prop
  | .recv (.ok buf) _ => buf ∈ network
  | _ => True

def OutputEvent.OfConv (conv : UInt32) : OutputEvent → Prop
  | .write buf => TokioKcp.OfConv conv buf
  | _ => True

instance (peer : SocketAddr) (network : List Bytes) (event : Event) :
    Decidable (event.From peer network) :=
  match event with
  | .datagram packet peerAddr _ _ =>
    inferInstanceAs (Decidable (peerAddr = peer → packet ∈ network))
  | .forward | .closeNotification | .accept | .stream .. | .streamDrop _ | .listenerDrop
  | .tick .. | .ioTask .. => .isTrue True.intro

instance (network : List Bytes) (event : SessionEvent) : Decidable (event.From network) :=
  match event with
  | .recv (.ok buf) _ => inferInstanceAs (Decidable (buf ∈ network))
  | .recv (.error _) _ | .call .. | .close | .input _ | .runIoTask _ | .tick _ =>
    .isTrue True.intro

instance (conv : UInt32) (event : OutputEvent) : Decidable (event.OfConv conv) :=
  match event with
  | .write buf => inferInstanceAs (Decidable (TokioKcp.OfConv conv buf))
  | .runTask _ | .dropTask => .isTrue True.intro

variable {κ : Type}

def KcpSocket.pipe (self : KcpSocket κ) : OutputPipe := ⟨⟨[], false⟩, self.outputTask⟩

def Connection.new (socket : KcpSocket κ) (sessionExpire : Option Nat) : Connection κ where
  listener := .new
  client := .new socket sessionExpire none
  clientPipe := socket.pipe
  pipes := []
  toListener := []
  toClient := []

/-- The listener's sessions have their outputs from the start. -/
def Connection.withListener (s : Connection κ) (listener : System κ) : Connection κ :=
  { s with
    listener := listener
    pipes := s.pipes ++
      (listener.arena.drop s.pipes.length).map fun session => session.socket.pipe }

/-- Each network loses, repeats and reorders as it likes. -/
inductive Connection.Step (K : KcpCrate κ) (rs : Nat → Nat → Except String ReedSolomon)
    (config : KcpConfig) (peer : SocketAddr) (s : Connection κ) :
    ConnectionEvent → Connection κ → Prop where
  | listener (hfrom : event.From peer s.toListener)
      (h : s.listener.Step K rs config event listener') :
    Step K rs config peer s (.listener event) (s.withListener listener')
  | client (hfrom : event.From s.toClient) (h : s.client.Step K event client') :
    Step K rs config peer s (.client event) { s with client := client' }
  | clientOutput (hconv : event.OfConv (s.client.socket.conv K))
      (h : s.clientPipe.next event = .ok (pipe, packets)) :
    Step K rs config peer s (.clientOutput event)
      { s with clientPipe := pipe, toListener := s.toListener ++ packets }
  | sessionOutput {id : Nat} (hs : s.listener.arena[id]? = some session)
      (hpeer : session.sessionCloseNotifier = some peer)
      (hconv : event.OfConv (session.socket.conv K)) (hp : s.pipes[id]? = some pipe)
      (h : pipe.next event = .ok (pipe', packets)) :
    Step K rs config peer s (.sessionOutput id event)
      { s with pipes := s.pipes.set id pipe', toClient := s.toClient ++ packets }

def Connection.next? (K : KcpCrate κ) (rs : Nat → Nat → Except String ReedSolomon)
    (config : KcpConfig) (peer : SocketAddr) (s : Connection κ) :
    ConnectionEvent → Option (Connection κ)
  | .listener event =>
    if event.From peer s.toListener then
      (s.listener.next? K rs config event).map s.withListener
    else
      none
  | .client event =>
    if event.From s.toClient then
      (s.client.next? K event).map fun client => { s with client := client }
    else
      none
  | .clientOutput event =>
    if event.OfConv (s.client.socket.conv K) then
      (s.clientPipe.next event).toOption.map fun (pipe, packets) =>
        { s with clientPipe := pipe, toListener := s.toListener ++ packets }
    else
      none
  | .sessionOutput id event =>
    match s.listener.arena[id]?, s.pipes[id]? with
    | some session, some pipe =>
      if session.sessionCloseNotifier = some peer ∧ event.OfConv (session.socket.conv K) then
        (pipe.next event).toOption.map fun (pipe, packets) =>
          { s with pipes := s.pipes.set id pipe, toClient := s.toClient ++ packets }
      else
        none
    | _, _ => none

/-- A control block has the conversation, and waits for no other. -/
def KcpCrate.Settled (K : KcpCrate κ) (conv : UInt32) (k : κ) : Prop :=
  K.conv k = conv ∧ K.waitingConv k = false

/-- Both sides are in the conversation, and so is what is on its way. -/
structure Connection.Agrees (K : KcpCrate κ) (config : KcpConfig) (peer : SocketAddr)
    (conv : UInt32) (s : Connection κ) : Prop where
  accounted : s.listener.Accounted
  client : K.Settled conv s.client.socket.kcp
  sessions : ∀ session ∈ s.listener.arena, session.sessionCloseNotifier = some peer →
    K.Settled conv session.socket.kcp
  clientPipe : ∀ buf ∈ s.clientPipe.output.postTx, OfConv conv buf
  pipes : ∀ pipe ∈ s.pipes, ∀ buf ∈ pipe.output.postTx, OfConv conv buf
  toListener : ∀ packet ∈ s.toListener, Travels conv packet
  toClient : ∀ packet ∈ s.toClient, Travels conv packet
  plain : config.fec.enabled = false →
    s.clientPipe.task.fecEncoder = none ∧ ∀ packet ∈ s.toListener, OfConv conv packet

variable {K : KcpCrate κ} {rs : Nat → Nat → Except String ReedSolomon} {config : KcpConfig}
variable {peer : SocketAddr} {conv : UInt32} {s t : Connection κ} {event : ConnectionEvent}
variable {socket : KcpSocket κ} {buf packet : Bytes}

theorem KcpCrate.Settled.moves {u v : KcpSocket κ} (h : K.Settled conv u.kcp)
    (hK : K.ConvLaws) (hm : u.Moves K receive v) : K.Settled conv v.kcp := by
  obtain ⟨hconv, hwaiting⟩ := hm.kcp.keepsConv hK h.2
  exact ⟨hconv.trans h.1, hwaiting⟩

theorem KcpSocket.movedTo_same {u : KcpSocket κ} {named : Option UInt32}
    (h : ∀ conv, named = some conv → conv = u.conv K) : u.movedTo K named = u := by
  cases named with
  | none => rfl
  | some conv =>
    rw [KcpSocket.movedTo, h conv rfl, bne_self_eq_false, Bool.and_false]
    rfl

/-- A client whose datagrams name its own conversation makes only socket calls. -/
theorem KcpSession.Step.moves {u v : KcpSession κ} {event : SessionEvent} (hW : K.wire.Laws)
    (h : u.Step K event v) (hnamed : ∀ buf now, event = .recv (.ok buf) now →
      ∀ conv, namedConv buf = some conv → conv = u.socket.conv K) :
    u.socket.Moves K true v.socket := by
  cases event with
  | call call now =>
    obtain ⟨socket, hcall, rfl⟩ := h
    have hstep : u.socket.Step K (call, now) socket := hcall
    exact hstep.moves
  | close =>
    cases h
    exact .refl K true _
  | input buf =>
    change u.input buf = _ at h
    rw [KcpSession.input] at h
    split at h
    · cases h
    · split at h
      · cases h
        exact .refl K true _
      · cases h
  | runIoTask now => exact (KcpSession.runIoTask_evolves h).socket
  | recv recvResult now =>
    change u.recv K recvResult now = _ at h
    cases recvResult with
    | error err =>
      rw [KcpSession.recv] at h
      split at h
      · cases h
        exact .refl K true _
      · cases h
        exact .refl K true _
    | ok buf =>
      rw [KcpSession.recv] at h
      split at h
      · rw [KcpSession.recvDatagram_eq hW] at h
        split at h
        · obtain ⟨socket, result, hinput, rfl⟩ := inputDatagram_socket h
          rw [KcpSocket.movedTo_same (hnamed buf now rfl)] at hinput
          exact KcpSocket.input_moves hinput
        · cases h
          exact .refl K true _
      · cases h
        exact .refl K true _
  | tick nowMs =>
    cases h
    exact (u.pollSchedulerTick_evolves K nowMs).socket

theorem System.Grows.back {u v : System κ} {session : KcpSession κ} {id : Nat}
    (h : u.Grows K v) (hid : id < u.arena.length) (hv : v.arena[id]? = some session) :
    ∃ old ∈ u.arena, old.Evolves K session := by
  obtain ⟨session', hv', he⟩ := h id u.arena[id] (List.getElem?_eq_getElem hid)
  rw [hv] at hv'
  cases hv'
  exact ⟨_, List.getElem_mem hid, he⟩

theorem System.Effect.members {u v : System κ} {event : Event} {session : KcpSession κ}
    (h : System.Effect K rs config u event v) (hs : session ∈ v.arena) :
    (∃ old ∈ u.arena, old.Evolves K session) ∨
    ∃ packet peerAddr draws now front body socket,
      event = .datagram packet peerAddr draws now ∧ CarriesKcp config packet front body ∧
      KcpSocket.new K rs config (convFor draws body) config.stream now = .ok (.ok socket) ∧
      (KcpSession.new socket config.sessionExpire (some peerAddr)).Evolves K session := by
  obtain ⟨id, hid⟩ := List.getElem?_of_mem hs
  have hlt := (List.getElem?_eq_some_iff.mp hid).1
  cases h with
  | quiet h =>
    rw [h.length] at hlt
    exact .inl (h.grows.back hlt hid)
  | @opened packet front body peerAddr draws now socket _ hb ho hn h =>
    rw [h.length] at hlt
    have hnew : id < (u.newShared (.new socket config.sessionExpire (some peerAddr))
        now).arena.length := by
      change id < (u.arena ++ [_]).length
      rw [List.length_append]
      exact hlt
    obtain ⟨old, hold, he⟩ := h.grows.back hnew hid
    change old ∈ u.arena ++ [_] at hold
    rcases List.mem_append.mp hold with hold | hold
    · exact .inl ⟨old, hold, he⟩
    · rw [List.mem_singleton.mp hold] at he
      exact .inr ⟨packet, peerAddr, draws, now, front, body, socket, rfl, hb, hn, he⟩
  | finalized h =>
    rw [h.length] at hlt
    exact .inl (h.grows.back hlt hid)
  | notified h ht =>
    rw [(notified_frame ht).2.2.2] at hlt
    exact .inl ((notified_grows ht K).back hlt hid)

theorem Connection.Agrees.listener {event : Event} {listener : System κ} (hW : K.wire.Laws)
    (hK : K.ConvLaws) (hne : conv ≠ 0) (hs : s.Agrees K config peer conv)
    (hfrom : event.From peer s.toListener) (h : s.listener.Step K rs config event listener) :
    (s.withListener listener).Agrees K config peer conv := by
  have heffect := System.Step.effect hW h
  refine { hs with accounted := heffect.accounted hs.accounted, sessions := ?_, pipes := ?_ }
  · intro session hm hpeer
    rcases heffect.members hm with ⟨old, hold, he⟩ |
      ⟨packet, peerAddr, draws, now, front, body, socket, rfl, hb, hn, he⟩
    · exact (hs.sessions old hold (he.notifier ▸ hpeer)).moves hK he.socket
    · have hnotifier := he.notifier.symm.trans hpeer
      have hsent : packet ∈ s.toListener := hfrom (Option.some.inj hnotifier)
      have hconv : convFor draws body = conv := by
        have hbody :=
          (hs.toListener packet hsent).convOf (fun hf => (hs.plain hf).2 packet hsent) hb
        rw [convFor, hbody, if_neg hne]
      rw [hconv] at hn
      have hsettled : K.Settled conv socket.kcp := (KcpSocket.new_fresh hn).conv rs hK hne
      have hfresh : K.Settled conv
          (KcpSession.new socket config.sessionExpire (some peerAddr)).socket.kcp := hsettled
      exact hfresh.moves hK he.socket
  · intro pipe hm
    rcases List.mem_append.mp hm with hm | hm
    · exact hs.pipes pipe hm
    · obtain ⟨session, _, rfl⟩ := List.mem_map.mp hm
      intro buf hm
      cases hm

theorem OutputEvent.OfConv.write {event : OutputEvent} (h : event.OfConv conv) :
    ∀ buf, event = .write buf → TokioKcp.OfConv conv buf := by
  rintro buf rfl
  exact h

theorem Connection.Agrees.step (hW : K.wire.Laws) (hK : K.ConvLaws) (hne : conv ≠ 0)
    (hs : s.Agrees K config peer conv) (h : s.Step K rs config peer event t) :
    t.Agrees K config peer conv := by
  cases h with
  | listener hfrom h => exact hs.listener hW hK hne hfrom h
  | @client event client' hfrom h =>
    have hmoves : s.client.socket.Moves K true client'.socket := by
      apply h.moves hW
      rintro buf now rfl named hn
      exact ((hs.toClient buf hfrom).namedConv hn).trans hs.client.1.symm
    exact { hs with client := hs.client.moves hK hmoves }
  | @clientOutput event pipe packets hconv h =>
    have hacts := OutputPipe.acts h
    rw [KcpSocket.conv, hs.client.1] at hconv
    refine { hs with
      clientPipe := hacts.waits hs.clientPipe hconv.write, toListener := ?_, plain := ?_ }
    · intro packet hm
      rcases List.mem_append.mp hm with hm | hm
      · exact hs.toListener packet hm
      · exact hacts.travels hs.clientPipe packet hm
    · intro hf
      obtain ⟨hnone, hall⟩ := hs.plain hf
      obtain ⟨hnone', hpackets⟩ := hacts.sendsPlain hnone
      refine ⟨hnone', fun packet hm => ?_⟩
      rcases List.mem_append.mp hm with hm | hm
      · exact hall packet hm
      · rw [hpackets] at hm
        exact hs.clientPipe packet (OutputPipe.takes_subset _ _ hm)
  | @sessionOutput session pipe event pipe' packets id hget hpeer hconv hp h =>
    have hacts := OutputPipe.acts h
    have hwaits := hs.pipes pipe (List.mem_of_getElem? hp)
    rw [KcpSocket.conv, (hs.sessions session (List.mem_of_getElem? hget) hpeer).1] at hconv
    refine { hs with pipes := ?_, toClient := ?_ }
    · intro other hm
      rcases List.mem_or_eq_of_mem_set hm with hm | rfl
      · exact hs.pipes other hm
      · exact hacts.waits hwaits hconv.write
    · intro packet hm
      rcases List.mem_append.mp hm with hm | hm
      · exact hs.toClient packet hm
      · exact hacts.travels hwaits packet hm

theorem KcpSocket.new_outputTask {c : KcpConfig} {stream : Bool} {now : Nat}
    (h : KcpSocket.new K rs c conv stream now = .ok (.ok socket)) :
    ∃ output, UdpOutput.new rs c = .ok (.ok (output, socket.outputTask)) := by
  obtain ⟨valid, _, h⟩ := bind_eq_ok.mp h
  cases valid with
  | error err => cases h
  | ok _ =>
    obtain ⟨out, hout, h⟩ := bind_eq_ok.mp h
    cases out with
    | error err => cases h
    | ok pair =>
      obtain ⟨⟨kcp, len, result⟩, _, h⟩ := bind_eq_ok.mp h
      cases result with
      | error err => cases h
      | ok _ =>
        obtain ⟨dec, _, h⟩ := bind_eq_ok.mp h
        cases dec with
        | error err => cases h
        | ok fecDecoder =>
          cases h
          exact ⟨pair.1, hout⟩

theorem Connection.new_agrees {c : KcpConfig} {start : Nat} (hK : K.ConvLaws) (hne : conv ≠ 0)
    (hs : KcpSocket.new K rs c conv c.stream start = .ok (.ok socket))
    (hfec : c.fec.enabled = true → config.fec.enabled = true) :
    (Connection.new socket c.sessionExpire).Agrees K config peer conv where
  accounted := System.new_accounted
  client := (KcpSocket.new_fresh hs).conv rs hK hne
  sessions _ hm := absurd hm List.not_mem_nil
  clientPipe _ hm := absurd hm List.not_mem_nil
  pipes _ hm := absurd hm List.not_mem_nil
  toListener _ hm := absurd hm List.not_mem_nil
  toClient _ hm := absurd hm List.not_mem_nil
  plain hf := by
    obtain ⟨output, hn⟩ := KcpSocket.new_outputTask hs
    have hoff : ¬c.fec.enabled = true := by
      intro he
      exact Bool.false_ne_true (hf.symm.trans (hfec he))
    rw [UdpOutput.new, if_neg hoff] at hn
    have htask : (⟨none⟩ : UdpOutputTask) = socket.outputTask :=
      congrArg Prod.snd (Except.ok.inj (Except.ok.inj hn))
    refine ⟨?_, fun _ hm => absurd hm List.not_mem_nil⟩
    change socket.outputTask.fecEncoder = none
    rw [← htask]

theorem Connection.Agrees.handed {id : Nat} {session : KcpSession κ} (hW : K.wire.Laws)
    (hne : conv ≠ 0) (hs : s.Agrees K config peer conv) (hsent : packet ∈ s.toListener)
    (hget : s.listener.get peer = some (id, session)) (draws : RandomDraws) (now : Nat) :
    s.listener.handleDatagram K rs config packet peer draws now =
      .ok (s.listener, some (id, packet)) := by
  have hsame : session.socket.conv K = conv := by
    have harena := (System.get_eq_some hget).2
    have hpeer := System.get_peerOf hs.accounted hget
    rw [System.peerOf, harena, Option.bind_some] at hpeer
    exact (hs.sessions session (List.mem_of_getElem? harena) hpeer).1
  have hread := (hs.toListener packet hsent).read (fun hf => (hs.plain hf).2 packet hsent)
  rw [System.handleDatagram]
  rcases hread with hparity | ⟨front, body, hp, hbody, hwhole, hparity⟩
  · rw [if_pos hparity, hget]
    rfl
  · have hasks : ¬convOf body = 0 := by
      rw [hbody.conv]
      exact hne
    have hconv : convFor draws body = conv := (if_neg hasks).trans hbody.conv
    have hkept : withConvFor draws body = body := if_neg hasks
    have hlong : ¬body.length < kcpOverhead := Nat.not_lt_of_le hbody.length
    have hfound : s.listener.getOrCreate K rs config conv (snOf body) peer now =
        .ok (s.listener, .ok ((id, session), false)) := by
      rw [System.getOrCreate, hget]
      exact if_neg fun h => h.2 hsame
    rw [if_neg (Bool.eq_false_iff.mp hparity), readHeader_eq hW hp, if_neg hlong, hkept, hconv,
      ← hwhole, ok_bind]
    dsimp only
    rw [hfound, ok_bind]
    exact if_neg fun h => h hsame

/-- Client and listener agree on the conversation, whatever the networks do and whatever else the
listener receives: each session that the listener has ever opened for the client is in the
client's conversation, the client never leaves it, and a datagram of the client never replaces a
session or fails to reach it. -/
theorem conversations_agree {c : KcpConfig} {start : Nat}
    {trace : List (Connection κ × ConnectionEvent)} (hW : K.wire.Laws) (hK : K.ConvLaws)
    (hne : conv ≠ 0) (hs : KcpSocket.new K rs c conv c.stream start = .ok (.ok socket))
    (hfec : c.fec.enabled = true → config.fec.enabled = true)
    (hrun : Run (Connection.Step K rs config peer) (.new socket c.sessionExpire) trace s) :
    s.client.socket.conv K = conv ∧
    (∀ session ∈ s.listener.arena, session.sessionCloseNotifier = some peer →
      session.socket.conv K = conv) ∧
    ∀ packet ∈ s.toListener, ∀ id session, s.listener.get peer = some (id, session) →
      ∀ draws now, s.listener.handleDatagram K rs config packet peer draws now =
        .ok (s.listener, some (id, packet)) := by
  have hagrees : s.Agrees K config peer conv :=
    (hrun.invariant (P := fun s => s.Agrees K config peer conv)
      (fun _ _ _ h hstep => h.step hW hK hne hstep) (Connection.new_agrees hK hne hs hfec)).2
  exact ⟨hagrees.client.1, fun session hm hpeer => (hagrees.sessions session hm hpeer).1,
    fun packet hsent id session hget draws now => hagrees.handed hW hne hsent hget draws now⟩

theorem Connection.step_of_next? (h : s.next? K rs config peer event = some t) :
    s.Step K rs config peer event t := by
  cases event with
  | listener event =>
    rw [Connection.next?] at h
    split at h
    · rename_i hfrom
      obtain ⟨listener, hl, rfl⟩ := Option.map_eq_some_iff.mp h
      exact .listener hfrom (System.step_of_next? K rs config hl)
    · cases h
  | client event =>
    rw [Connection.next?] at h
    split at h
    · rename_i hfrom
      obtain ⟨client, hc, rfl⟩ := Option.map_eq_some_iff.mp h
      exact .client hfrom (KcpSession.step_of_next? hc)
    · cases h
  | clientOutput event =>
    rw [Connection.next?] at h
    split at h
    · rename_i hconv
      obtain ⟨⟨pipe, packets⟩, hp, rfl⟩ := Option.map_eq_some_iff.mp h
      exact .clientOutput hconv (eq_ok_of_toOption hp)
    · cases h
  | sessionOutput id event =>
    rw [Connection.next?] at h
    split at h
    · rename_i session pipe hs hp
      split at h
      · rename_i hconv
        obtain ⟨⟨pipe', packets⟩, hnext, rfl⟩ := Option.map_eq_some_iff.mp h
        exact .sessionOutput hs hconv.1 hconv.2 hp (eq_ok_of_toOption hnext)
      · cases h
    · cases h

def smallPush : Bytes := packetOf (pawsOf 3) 0 typeData (dataBody (segment 7 81 0 [65]))

def smallAck : Bytes := packetOf (pawsOf 3) 0 typeData (dataBody (segment 7 82 0 []))

/-- Another peer comes first. The client's packet comes twice, is handed on, and acknowledged. -/
theorem conversations_agree_small : ∃ socket trace s session,
    KcpSocket.new smallKcp reedSolomon (KcpConfig.withFec {} 2 1) 7 false 0 = .ok (.ok socket) ∧
    Run (Connection.Step smallKcp reedSolomon (KcpConfig.withFec {} 2 1) ⟨[10, 0, 0, 2], 4000⟩)
      (.new socket (KcpConfig.withFec {} 2 1).sessionExpire) trace s ∧
    s.listener.arena.length = 2 ∧
    s.listener.get ⟨[10, 0, 0, 2], 4000⟩ = some (1, session) ∧
    session.sessionCloseNotifier = some ⟨[10, 0, 0, 2], 4000⟩ ∧
    session.socket.kcp.messages = [[65]] ∧ s.toListener = [smallPush] ∧
    s.toClient = [smallAck] ∧ s.client.socket.conv smallKcp = 7 ∧
    session.socket.conv smallKcp = 7 ∧
    ∀ draws now, s.listener.handleDatagram smallKcp reedSolomon (KcpConfig.withFec {} 2 1)
      smallPush ⟨[10, 0, 0, 2], 4000⟩ draws now = .ok (s.listener, some (1, smallPush)) := by
  have hreplay : ∃ socket trace s session,
      KcpSocket.new smallKcp reedSolomon (KcpConfig.withFec {} 2 1) 7 false 0 =
        .ok (.ok socket) ∧
      replay (Connection.next? smallKcp reedSolomon (KcpConfig.withFec {} 2 1)
          ⟨[10, 0, 0, 2], 4000⟩)
        (.new socket (KcpConfig.withFec {} 2 1).sessionExpire)
        [.listener (.datagram (segment 9 81 0 [66]) ⟨[10, 0, 0, 1], 4000⟩ ⟨[9], rfl⟩ 0),
          .listener .forward, .clientOutput (.write (segment 7 81 0 [65])),
          .clientOutput (.runTask 0),
          .listener (.datagram smallPush ⟨[10, 0, 0, 2], 4000⟩ ⟨[9], rfl⟩ 0),
          .listener .forward,
          .listener (.datagram smallPush ⟨[10, 0, 0, 2], 4000⟩ ⟨[9], rfl⟩ 1),
          .listener .forward, .listener (.ioTask 1 1), .listener (.ioTask 1 1),
          .sessionOutput 1 (.write (segment 7 82 0 [])), .sessionOutput 1 (.runTask 1),
          .client (.recv (.ok smallAck) 2)] = some (trace, s) ∧
      s.listener.arena.length = 2 ∧
      s.listener.get ⟨[10, 0, 0, 2], 4000⟩ = some (1, session) ∧
      session.sessionCloseNotifier = some ⟨[10, 0, 0, 2], 4000⟩ ∧
      session.socket.kcp.messages = [[65]] ∧ s.toListener = [smallPush] ∧
      s.toClient = [smallAck] ∧ session ∈ s.listener.arena :=
    ⟨_, _, _, _, rfl, rfl, rfl, rfl, rfl, rfl, rfl, rfl, .tail _ (.head _)⟩
  obtain ⟨socket, trace, s, session, hs, hr, hlen, hget, hpeer, hgot, hsent, hsent', hm⟩ :=
    hreplay
  have hrun := run_of_replay (fun _ _ _ => Connection.step_of_next?) hr
  obtain ⟨hclient, hsessions, hhanded⟩ := conversations_agree smallWire_laws smallKcp_convLaws
    (by decide) hs id hrun
  refine ⟨socket, trace, s, session, hs, hrun, hlen, hget, hpeer, hgot, hsent, hsent',
    hclient, hsessions session hm hpeer, ?_⟩
  exact hhanded smallPush (by rw [hsent]; exact List.mem_singleton_self _) 1 session hget

end TokioKcp
