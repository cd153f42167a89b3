import TokioKcp.Service

namespace TokioKcp
set_option autoImplicit true

open Checked Fec Transition

variable {κ : Type}

/-- A control block that waits for a conversation takes that of the next segment, once it is
another one, and gets it in no other way. -/
structure KcpCrate.Adopts (K : KcpCrate κ) : Prop where
  inputConv : ∀ k, K.conv (K.inputConv k) = K.conv k ∧ K.waitingConv (K.inputConv k) = true
  operate : ∀ k op, (∀ buf, op ≠ .input buf) → K.SameConv k (K.operate k op)
  input : ∀ k buf, K.waitingConv k = true → convOf buf ≠ K.conv k →
    K.SameConv k (K.input k buf).1 ∨ K.Settled (convOf buf) (K.input k buf).1

def KcpCrate.Asking (K : KcpCrate κ) (k : κ) : Prop := K.conv k = 0 ∧ K.waitingConv k = true

/-- A control block still asks, or is in one of the conversations. -/
def KcpCrate.InOneOf (K : KcpCrate κ) (P : UInt32 → Prop) (k : κ) : Prop :=
  K.Asking k ∨ ∃ conv, P conv ∧ K.Settled conv k

/-- A buffer that KCP writes in one of the conversations. -/
def OfOne (P : UInt32 → Prop) (buf : Bytes) : Prop := ∃ conv, P conv ∧ OfConv conv buf

def System.Serves (K : KcpCrate κ) (s : System κ) (peer : SocketAddr) (conv : UInt32) : Prop :=
  ∃ session ∈ s.arena, session.sessionCloseNotifier = some peer ∧
    K.Settled conv session.socket.kcp

/-- What a client may write in: it asks, or the listener has opened a session for it. -/
def System.Knows (K : KcpCrate κ) (s : System κ) (peer : SocketAddr) (conv : UInt32) : Prop :=
  conv = 0 ∨ s.Serves K peer conv

def ConnectionEvent.OfNetwork : ConnectionEvent → Prop
  | .client event => event.OfClient
  | _ => True

instance (event : ConnectionEvent) : Decidable event.OfNetwork :=
  match event with
  | .client event => inferInstanceAs (Decidable event.OfClient)
  | .listener _ | .clientOutput _ | .sessionOutput _ _ => .isTrue True.intro

/-- A connection, with the conversations that its client has been in. -/
structure Negotiation (κ : Type) where
  connection : Connection κ
  convs : List UInt32

def Negotiation.new (K : KcpCrate κ) (socket : KcpSocket κ) (sessionExpire : Option Nat) :
    Negotiation κ := ⟨.new socket sessionExpire, [socket.conv K]⟩

/-- A segment that was sent keeps the conversation that it was sent in. -/
inductive Negotiation.Step (K : KcpCrate κ) (rs : Nat → Nat → Except String ReedSolomon)
    (config : KcpConfig) (peer : SocketAddr) (s : Negotiation κ) :
    ConnectionEvent → Negotiation κ → Prop where
  | connection (h : s.connection.Step K rs config peer event t) :
    Step K rs config peer s event ⟨t, s.convs ++ [t.client.socket.conv K]⟩
  | resent (hpast : conv ∈ s.convs) (hconv : OfConv conv buf)
      (h : s.connection.clientPipe.next (.write buf) = .ok (pipe, packets)) :
    Step K rs config peer s (.clientOutput (.write buf))
      ⟨{ s.connection with
        clientPipe := pipe, toListener := s.connection.toListener ++ packets }, s.convs⟩

def Negotiation.resend? (s : Negotiation κ) : ConnectionEvent → Option (Negotiation κ)
  | .clientOutput (.write buf) =>
    if convOf buf ∈ s.convs ∧ OfConv (convOf buf) buf then
      (s.connection.clientPipe.next (.write buf)).toOption.map fun (pipe, packets) =>
        ⟨{ s.connection with
          clientPipe := pipe, toListener := s.connection.toListener ++ packets }, s.convs⟩
    else
      none
  | _ => none

def Negotiation.next? (K : KcpCrate κ) (rs : Nat → Nat → Except String ReedSolomon)
    (config : KcpConfig) (peer : SocketAddr) (s : Negotiation κ) (event : ConnectionEvent) :
    Option (Negotiation κ) :=
  match s.connection.next? K rs config peer event with
  | some t => some ⟨t, s.convs ++ [t.client.socket.conv K]⟩
  | none => s.resend? event

/-- The listener drew the conversation for a datagram of the peer that asked for one. -/
def Drawn (peer : SocketAddr) (trace : List (Negotiation κ × ConnectionEvent)) (conv : UInt32) :
    Prop :=
  ∃ x ∈ trace, ∃ packet draws now, x.2 = .listener (.datagram packet peer draws now) ∧
    convOf packet = 0 ∧ draws.allocConv = conv

/-- All that is kept of the conversations, without error correction. -/
structure Negotiation.Keeps (K : KcpCrate κ) (peer : SocketAddr)
    (trace : List (Negotiation κ × ConnectionEvent)) (s : Negotiation κ) : Prop where
  sessions : ∀ session ∈ s.connection.listener.arena, ∃ conv, conv ≠ 0 ∧
    K.Settled conv session.socket.kcp
  plain : ∀ session ∈ s.connection.listener.arena, session.socket.outputTask.fecEncoder = none
  drawn : ∀ conv, s.connection.listener.Serves K peer conv → Drawn peer trace conv
  client : K.InOneOf (s.connection.listener.Serves K peer) s.connection.client.socket.kcp
  convs : ∀ conv ∈ s.convs, s.connection.listener.Knows K peer conv
  clientTask : s.connection.clientPipe.task.fecEncoder = none
  clientPipe : ∀ buf ∈ s.connection.clientPipe.output.postTx,
    OfOne (s.connection.listener.Knows K peer) buf
  tasks : ∀ pipe ∈ s.connection.pipes, pipe.task.fecEncoder = none
  pipes : ∀ pipe ∈ s.connection.pipes, ∀ buf ∈ pipe.output.postTx,
    OfOne (s.connection.listener.Serves K peer) buf
  toListener : ∀ packet ∈ s.connection.toListener,
    OfOne (s.connection.listener.Knows K peer) packet
  toClient : ∀ packet ∈ s.connection.toClient,
    OfOne (s.connection.listener.Serves K peer) packet

variable {K : KcpCrate κ} {rs : Nat → Nat → Except String ReedSolomon} {config : KcpConfig}
variable {peer : SocketAddr} {conv : UInt32} {P Q : UInt32 → Prop} {k l : κ}
variable {inputs network packets : List Bytes} {buf packet written read : Bytes}

theorem OfOne.mono (h : OfOne P buf) (hPQ : ∀ conv, P conv → Q conv) : OfOne Q buf := by
  obtain ⟨conv, hconv, hbuf⟩ := h
  exact ⟨conv, hPQ conv hconv, hbuf⟩

theorem OfOne.names (h : OfOne P buf) : P (convOf buf) := by
  obtain ⟨conv, hconv, hbuf⟩ := h
  rw [hbuf.conv]
  exact hconv

theorem KcpCrate.InOneOf.mono (h : K.InOneOf P k) (hPQ : ∀ conv, P conv → Q conv) :
    K.InOneOf Q k := by
  rcases h with hasks | ⟨conv, hconv, hsettled⟩
  · exact .inl hasks
  · exact .inr ⟨conv, hPQ conv hconv, hsettled⟩

theorem KcpCrate.ConvLaws.operate (hK : K.ConvLaws) (k : κ) (op : KcpOp) :
    K.KeepsConv k (K.operate k op) := by
  cases op with
  | update now => exact hK.update k now
  | input buf => exact hK.input k buf
  | send buf => exact hK.send k buf
  | recv len => exact hK.recv k len
  | flush => exact hK.flush k
  | flushAck => exact hK.flushAck k

theorem KcpCrate.Works.inOneOf (hK : K.ConvLaws) (ha : K.Adopts)
    (h : K.Works inputs k written read l)
    (hinputs : ∀ buf ∈ inputs, P (convOf buf) ∧ convOf buf ≠ 0) (hk : K.InOneOf P k) :
    K.InOneOf P l := by
  induction h with
  | refl => exact hk
  | @operate _ _ l _ op hinput ih =>
    rcases ih with hasks | ⟨conv, hconv, hsettled⟩
    · have hkept (hsame : K.SameConv l (K.operate l op)) : K.InOneOf P (K.operate l op) :=
        .inl ⟨hsame.1.trans hasks.1, hsame.2.trans hasks.2⟩
      by_cases hop : ∃ buf, op = .input buf
      · obtain ⟨buf, rfl⟩ := hop
        obtain ⟨hP, hne⟩ := hinputs buf (hinput buf rfl)
        rw [← hasks.1] at hne
        rcases ha.input l buf hasks.2 hne with hsame | hsettled
        · exact hkept hsame
        · exact .inr ⟨convOf buf, hP, hsettled⟩
      · exact hkept (ha.operate l op fun buf he => hop ⟨buf, he⟩)
    · obtain ⟨hc, hw⟩ := hK.operate l op hsettled.2
      exact .inr ⟨conv, hconv, hc.trans hsettled.1, hw⟩

theorem KcpSocket.Uses.inOneOf {s t : KcpSocket κ} (hK : K.ConvLaws) (ha : K.Adopts)
    (h : s.Uses K [] written read t) (hs : K.InOneOf P s.kcp) : K.InOneOf P t.kcp := by
  induction h with
  | refl => exact hs
  | @call u now v call _ _ _ hinput hcall ih =>
    have hlocal : ∀ packet, call ≠ .input packet := by
      intro packet he
      cases hinput packet he
    have hworks : K.Works [] u.kcp _ _ v.kcp := KcpSocket.works_call hlocal hcall
    exact hworks.inOneOf hK ha (fun _ hm => absurd hm List.not_mem_nil) ih

theorem KcpSocket.offered_plain (s : KcpSocket κ) (hplain : isFecPacket buf = false) :
    s.offered buf = [buf] := by
  rw [KcpSocket.offered]
  split
  · exact if_neg (Bool.eq_false_iff.mp hplain)
  · rfl

theorem namedConv_plain (h : OfConv conv buf) : namedConv buf = some conv := by
  have hlen := h.length
  have hpayload : dataPayload buf = none := by
    rw [dataPayload, h.not_data.1, if_neg]
    exact fun h => Bool.false_ne_true h.1
  rw [namedConv, hpayload]
  dsimp only
  rw [h.not_data.2, if_neg, h.conv]
  rintro (hparity | hshort)
  · exact Bool.false_ne_true hparity
  · exact absurd hlen (Nat.not_le_of_lt hshort)

theorem KcpSocket.movedTo_inOneOf {s : KcpSocket κ} (hset : K.SetsConv) (hP : P conv)
    (hs : K.InOneOf P s.kcp) : K.InOneOf P (s.movedTo K (some conv)).kcp := by
  rw [KcpSocket.movedTo]
  split
  · rename_i hmoves
    have hgiven : K.waitingConv s.kcp = false :=
      (Bool.not_eq_true' _).mp (Bool.and_eq_true_iff.mp hmoves).1
    obtain ⟨hconv, hwaits⟩ := hset s.kcp conv
    exact .inr ⟨conv, hP, hconv, hwaits.trans hgiven⟩
  · exact hs

theorem SessionEvent.from_of_ne {event : SessionEvent} (network : List Bytes)
    (h : ∀ buf now, event ≠ .recv (.ok buf) now) : event.From network := by
  cases event with
  | recv recvResult now =>
    cases recvResult with
    | error err => trivial
    | ok buf => exact absurd rfl (h buf now)
  | _ => trivial

/-- A client that gets nothing but the network's datagrams is led into no conversation but
theirs. -/
theorem KcpSession.Step.inOneOf {s t : KcpSession κ} {event : SessionEvent} (hW : K.wire.Laws)
    (hK : K.ConvLaws) (hset : K.SetsConv) (ha : K.Adopts) (h : s.Step K event t)
    (hclient : event.OfClient) (hfrom : event.From network)
    (hnetwork : ∀ packet ∈ network, OfOne P packet) (hP : ∀ conv, P conv → conv ≠ 0)
    (hs : K.InOneOf P s.socket.kcp) : K.InOneOf P t.socket.kcp := by
  by_cases hrecv : ∃ buf now, event = .recv (.ok buf) now
  · obtain ⟨buf, now, rfl⟩ := hrecv
    obtain ⟨conv, hconv, hbuf⟩ := hnetwork buf hfrom
    change s.recv K (.ok buf) now = _ at h
    rw [KcpSession.recv] at h
    split at h
    · rw [KcpSession.recvDatagram_eq hW, namedConv_plain hbuf, Option.isSome_some, Bool.or_true,
        if_pos rfl] at h
      obtain ⟨socket, result, hinput, rfl⟩ := inputDatagram_socket h
      have hkcp := KcpSocket.input_kcp hinput
      rw [KcpSocket.offered_plain _ hbuf.plain] at hkcp
      have hworks : K.Works [buf] (s.socket.movedTo K (some conv)).kcp [] [] socket.kcp := by
        rw [hkcp]
        exact K.works_takes _ _ (List.Subset.refl [buf])
      apply hworks.inOneOf hK ha _ (KcpSocket.movedTo_inOneOf hset hconv hs)
      intro buf' hm
      rw [List.mem_singleton.mp hm, hbuf.conv]
      exact ⟨hconv, hP conv hconv⟩
    · cases h
      exact hs
  · have hnot : ∀ buf now, event ≠ .recv (.ok buf) now := fun buf now he => hrecv ⟨buf, now, he⟩
    have huses : s.socket.Uses K [] _ _ t.socket :=
      h.uses hW hclient (SessionEvent.from_of_ne [] hnot) fun buf now he =>
        absurd he (hnot buf now)
    exact huses.inOneOf hK ha hs

theorem KcpCrate.InOneOf.known (h : K.InOneOf P k) : K.conv k = 0 ∨ P (K.conv k) := by
  rcases h with hasks | ⟨conv, hconv, hsettled⟩
  · exact .inl hasks.1
  · rw [hsettled.1]
    exact .inr hconv

theorem Drawn.append {before : List (Negotiation κ × ConnectionEvent)}
    (h : Drawn peer before conv) (after : List (Negotiation κ × ConnectionEvent)) :
    Drawn peer (before ++ after) conv := by
  obtain ⟨x, hm, hx⟩ := h
  exact ⟨x, List.mem_append_left _ hm, hx⟩

theorem OutputPipe.Acts.sendsOf {s t : OutputPipe} {event : OutputEvent} {R : Bytes → Prop}
    (h : s.Acts event t packets) (hplain : s.task.fecEncoder = none)
    (hs : ∀ buf ∈ s.output.postTx, R buf) :
    t.task.fecEncoder = none ∧ ∀ packet ∈ packets, R packet := by
  obtain ⟨hplain', hpackets⟩ := h.sendsPlain hplain
  refine ⟨hplain', fun packet hm => ?_⟩
  rw [hpackets] at hm
  exact hs packet (OutputPipe.takes_subset _ _ hm)

theorem KcpSocket.new_plain {c : KcpConfig} {stream : Bool} {now : Nat} {socket : KcpSocket κ}
    (hoff : c.fec.enabled = false)
    (h : KcpSocket.new K rs c conv stream now = .ok (.ok socket)) :
    socket.outputTask.fecEncoder = none := by
  obtain ⟨output, hn⟩ := KcpSocket.new_outputTask h
  rw [UdpOutput.new, if_neg (Bool.eq_false_iff.mp hoff)] at hn
  have htask : (⟨none⟩ : UdpOutputTask) = socket.outputTask :=
    congrArg Prod.snd (Except.ok.inj (Except.ok.inj hn))
  rw [← htask]

theorem KcpSocket.Moves.outputTask {s t : KcpSocket κ} (h : s.Moves K receive t) :
    t.outputTask = s.outputTask :=
  congrArg (fun x => x.2.2.2.2.2.2) h.settings

section Listener

variable {u v : System κ} {event : Event} {session : KcpSession κ}

theorem System.Serves.grows (hK : K.ConvLaws) (h : u.Serves K peer conv) (hg : u.Grows K v) :
    v.Serves K peer conv := by
  obtain ⟨session, hm, hpeer, hsettled⟩ := h
  obtain ⟨id, hid⟩ := List.getElem?_of_mem hm
  obtain ⟨session', hid', he⟩ := hg id session hid
  exact ⟨session', List.mem_of_getElem? hid', he.notifier.trans hpeer,
    hsettled.moves hK he.socket⟩

theorem System.Knows.grows (hK : K.ConvLaws) (h : u.Knows K peer conv) (hg : u.Grows K v) :
    v.Knows K peer conv :=
  h.imp id fun h => h.grows hK hg

/-- Without error correction a new session is in the conversation that the listener read from the
datagram, or drew for it. -/
theorem System.Effect.comes (hK : K.ConvLaws) (hoff : config.fec.enabled = false)
    (h : System.Effect K rs config u event v) (hm : session ∈ v.arena) :
    (∃ old ∈ u.arena, old.Evolves K session) ∨ ∃ packet peerAddr draws now,
      event = .datagram packet peerAddr draws now ∧
      session.sessionCloseNotifier = some peerAddr ∧
      K.Settled (convFor draws packet) session.socket.kcp ∧
      session.socket.outputTask.fecEncoder = none := by
  rcases h.members hm with hold |
    ⟨packet, peerAddr, draws, now, front, body, socket, rfl, hb, hn, he⟩
  · exact .inl hold
  · have hbody : body = packet := by
      have hpacket := hb.packet
      rw [kcpPacket, hoff, Bool.false_and, if_neg Bool.false_ne_true] at hpacket
      cases hpacket
      rfl
    rw [hbody] at hn
    have hsettled : K.Settled (convFor draws packet)
        (KcpSession.new socket config.sessionExpire (some peerAddr)).socket.kcp :=
      (KcpSocket.new_fresh hn).conv rs hK (convFor_ne_zero draws packet)
    refine .inr ⟨packet, peerAddr, draws, now, rfl, he.notifier, hsettled.moves hK he.socket, ?_⟩
    rw [he.socket.outputTask]
    exact KcpSocket.new_plain hoff hn

end Listener

variable {s t : Negotiation κ} {event : ConnectionEvent}
variable {before trace : List (Negotiation κ × ConnectionEvent)}

/-- A datagram of the client that opens a session asks for its conversation, or is in one that was
drawn before. -/
theorem Negotiation.Keeps.draws {event : Event} {listener : System κ} (hK : K.ConvLaws)
    (hoff : config.fec.enabled = false) (hs : s.Keeps K peer before)
    (hfrom : event.From peer s.connection.toListener)
    (h : System.Effect K rs config s.connection.listener event listener)
    (hserves : listener.Serves K peer conv) :
    Drawn peer (before ++ [(s, .listener event)]) conv := by
  obtain ⟨session, hm, hpeer, hsettled⟩ := hserves
  rcases h.comes hK hoff hm with ⟨old, hold, he⟩ |
    ⟨packet, peerAddr, draws, now, rfl, hnotifier, hgiven, _⟩
  · obtain ⟨conv', _, hsettled'⟩ := hs.sessions old hold
    have hsame : conv' = conv := (hsettled'.moves hK he.socket).1.symm.trans hsettled.1
    rw [hsame] at hsettled'
    exact (hs.drawn conv ⟨old, hold, he.notifier.symm.trans hpeer, hsettled'⟩).append _
  · rw [hnotifier] at hpeer
    cases hpeer
    have hsame : convFor draws packet = conv := hgiven.1.symm.trans hsettled.1
    rw [convFor] at hsame
    split at hsame
    · rename_i hasks
      exact ⟨_, List.mem_append_right _ (List.mem_singleton_self _), packet, draws, now, rfl,
        hasks, hsame⟩
    · rename_i hnamed
      have hknown := (hs.toListener packet (hfrom rfl)).names
      rw [← hsame]
      exact (hs.drawn _ (hknown.resolve_left hnamed)).append _

theorem Negotiation.Keeps.listener {event : Event} {listener : System κ} (hW : K.wire.Laws)
    (hK : K.ConvLaws) (hoff : config.fec.enabled = false) (hs : s.Keeps K peer before)
    (hfrom : event.From peer s.connection.toListener)
    (h : s.connection.listener.Step K rs config event listener) :
    (⟨s.connection.withListener listener, s.convs⟩ : Negotiation κ).Keeps K peer
      (before ++ [(s, .listener event)]) := by
  have heffect := System.Step.effect hW h
  have hserves (conv : UInt32) (h : s.connection.listener.Serves K peer conv) :
      listener.Serves K peer conv := h.grows hK heffect.grows
  have hknows (conv : UInt32) (h : s.connection.listener.Knows K peer conv) :
      listener.Knows K peer conv := h.grows hK heffect.grows
  have hplain : ∀ session ∈ listener.arena, session.socket.outputTask.fecEncoder = none := by
    intro session hm
    rcases heffect.comes hK hoff hm with ⟨old, hold, he⟩ | ⟨_, _, _, _, _, _, _, hnone⟩
    · rw [he.socket.outputTask]
      exact hs.plain old hold
    · exact hnone
  refine ⟨?_, hplain, ?_, hs.client.mono hserves, ?_, hs.clientTask, ?_, ?_, ?_, ?_, ?_⟩
  · intro session hm
    rcases heffect.comes hK hoff hm with ⟨old, hold, he⟩ |
      ⟨packet, _, draws, _, _, _, hsettled, _⟩
    · obtain ⟨conv, hne, hsettled⟩ := hs.sessions old hold
      exact ⟨conv, hne, hsettled.moves hK he.socket⟩
    · exact ⟨_, convFor_ne_zero draws packet, hsettled⟩
  · exact fun conv h => hs.draws hK hoff hfrom heffect h
  · exact fun conv hm => hknows conv (hs.convs conv hm)
  · exact fun buf hm => (hs.clientPipe buf hm).mono hknows
  · intro pipe hm
    rcases List.mem_append.mp hm with hm | hm
    · exact hs.tasks pipe hm
    · obtain ⟨session, hdrop, rfl⟩ := List.mem_map.mp hm
      exact hplain session (List.mem_of_mem_drop hdrop)
  · intro pipe hm buf hbuf
    rcases List.mem_append.mp hm with hm | hm
    · exact (hs.pipes pipe hm buf hbuf).mono hserves
    · obtain ⟨session, _, rfl⟩ := List.mem_map.mp hm
      cases hbuf
  · exact fun packet hm => (hs.toListener packet hm).mono hknows
  · exact fun packet hm => (hs.toClient packet hm).mono hserves

theorem Negotiation.Keeps.wrote {event : OutputEvent} {pipe : OutputPipe}
    (hs : s.Keeps K peer before)
    (hwrite : ∀ buf, event = .write buf → OfOne (s.connection.listener.Knows K peer) buf)
    (h : s.connection.clientPipe.next event = .ok (pipe, packets)) :
    (⟨{ s.connection with
        clientPipe := pipe, toListener := s.connection.toListener ++ packets }, s.convs⟩ :
      Negotiation κ).Keeps K peer (before ++ [(s, .clientOutput event)]) := by
  have hacts := OutputPipe.acts h
  obtain ⟨hplain, hpackets⟩ := hacts.sendsOf hs.clientTask hs.clientPipe
  refine { hs with
    drawn := fun conv h => (hs.drawn conv h).append _
    clientTask := hplain
    clientPipe := hacts.waits hs.clientPipe hwrite
    toListener := ?_ }
  intro packet hm
  rcases List.mem_append.mp hm with hm | hm
  · exact hs.toListener packet hm
  · exact hpackets packet hm

theorem Negotiation.Keeps.connection {t : Connection κ} (hW : K.wire.Laws) (hK : K.ConvLaws)
    (hset : K.SetsConv) (ha : K.Adopts) (hoff : config.fec.enabled = false)
    (hs : s.Keeps K peer before) (hclient : event.OfNetwork)
    (h : s.connection.Step K rs config peer event t) :
    (⟨t, s.convs⟩ : Negotiation κ).Keeps K peer (before ++ [(s, event)]) := by
  cases h with
  | listener hfrom h => exact hs.listener hW hK hoff hfrom h
  | client hfrom h =>
    have hne (conv : UInt32) (h : s.connection.listener.Serves K peer conv) : conv ≠ 0 := by
      obtain ⟨session, hm, _, hsettled⟩ := h
      obtain ⟨conv', hne, hsettled'⟩ := hs.sessions session hm
      rw [← hsettled.1, hsettled'.1]
      exact hne
    exact { hs with
      drawn := fun conv h => (hs.drawn conv h).append _
      client := h.inOneOf hW hK hset ha hclient hfrom hs.toClient hne hs.client }
  | clientOutput hconv h =>
    apply hs.wrote _ h
    intro buf he
    exact ⟨_, hs.client.known, hconv.write buf he⟩
  | @sessionOutput session pipe event pipe' packets id hget hpeer hconv hp h =>
    have hacts := OutputPipe.acts h
    have hmem := List.mem_of_getElem? hget
    have hpipe := List.mem_of_getElem? hp
    obtain ⟨conv, _, hsettled⟩ := hs.sessions session hmem
    have hserves : s.connection.listener.Serves K peer conv := ⟨session, hmem, hpeer, hsettled⟩
    rw [KcpSocket.conv, hsettled.1] at hconv
    obtain ⟨hplain, hpackets⟩ := hacts.sendsOf (hs.tasks pipe hpipe) (hs.pipes pipe hpipe)
    refine { hs with
      drawn := fun conv h => (hs.drawn conv h).append _
      tasks := ?_, pipes := ?_, toClient := ?_ }
    · intro other hm
      rcases List.mem_or_eq_of_mem_set hm with hm | rfl
      · exact hs.tasks other hm
      · exact hplain
    · intro other hm
      rcases List.mem_or_eq_of_mem_set hm with hm | rfl
      · exact hs.pipes other hm
      · exact hacts.waits (hs.pipes pipe hpipe) fun buf he => ⟨conv, hserves, hconv.write buf he⟩
    · intro packet hm
      rcases List.mem_append.mp hm with hm | hm
      · exact hs.toClient packet hm
      · exact hpackets packet hm

theorem Negotiation.Keeps.step (hW : K.wire.Laws) (hK : K.ConvLaws) (hset : K.SetsConv)
    (ha : K.Adopts) (hoff : config.fec.enabled = false) (hs : s.Keeps K peer before)
    (hclient : event.OfNetwork) (h : s.Step K rs config peer event t) :
    t.Keeps K peer (before ++ [(s, event)]) := by
  cases h with
  | connection h =>
    have ht := hs.connection hW hK hset ha hoff hclient h
    refine { ht with convs := ?_ }
    intro conv hm
    rcases List.mem_append.mp hm with hm | hm
    · exact ht.convs conv hm
    · rw [List.mem_singleton.mp hm]
      exact ht.client.known
  | resent hpast hconv h =>
    apply hs.wrote _ h
    intro buf he
    cases he
    exact ⟨_, hs.convs _ hpast, hconv⟩

theorem KcpSocket.Fresh.asking {c : KcpConfig} {stream : Bool} {now : Nat} {socket : KcpSocket κ}
    (h : socket.Fresh K rs c 0 stream now) (hK : K.ConvLaws) (ha : K.Adopts) :
    K.Asking socket.kcp := by
  obtain ⟨output, hkcp⟩ := h.kcp
  have hnew : K.Settled 0 (if stream then K.newStream 0 output else K.new 0 output) := by
    split
    · exact hK.newStream 0 output
    · exact hK.new 0 output
  obtain ⟨k, hk, hkcp⟩ := bind_eq_ok.mp hkcp
  have hconv := (KcpConfig.applyConfig_keepsConv hK hk hnew.2).1.trans hnew.1
  have hlast : (K.update (K.inputConv k) (.ofNat now)).1 = socket.kcp :=
    congrArg Prod.fst (Except.ok.inj hkcp)
  have hupdate := ha.operate (K.inputConv k) (.update (.ofNat now)) fun _ he => by cases he
  rw [KcpCrate.operate, hlast] at hupdate
  obtain ⟨hc, hw⟩ := ha.inputConv k
  exact ⟨hupdate.1.trans (hc.trans hconv), hupdate.2.trans hw⟩

theorem Negotiation.new_keeps {c : KcpConfig} {stream : Bool} {start : Nat} {socket : KcpSocket κ}
    (hK : K.ConvLaws) (ha : K.Adopts) (hoff : c.fec.enabled = false)
    (hs : KcpSocket.new K rs c 0 stream start = .ok (.ok socket)) (sessionExpire : Option Nat) :
    (Negotiation.new K socket sessionExpire).Keeps K peer [] where
  sessions _ hm := absurd hm List.not_mem_nil
  plain _ hm := absurd hm List.not_mem_nil
  drawn := by
    rintro conv ⟨session, hm, _⟩
    cases hm
  client := .inl ((KcpSocket.new_fresh hs).asking hK ha)
  convs := by
    intro conv hm
    rw [List.mem_singleton.mp hm]
    exact .inl ((KcpSocket.new_fresh hs).asking hK ha).1
  clientTask := KcpSocket.new_plain hoff hs
  clientPipe _ hm := absurd hm List.not_mem_nil
  tasks _ hm := absurd hm List.not_mem_nil
  pipes _ hm := absurd hm List.not_mem_nil
  toListener _ hm := absurd hm List.not_mem_nil
  toClient _ hm := absurd hm List.not_mem_nil

/-- A client that asks for a conversation is in none but those that the listener drew for its own
datagrams, and has opened sessions in, whatever the networks do and whatever other peers send.
What is on its way to the client is in such a conversation, and so is what is on its way to the
listener, unless it asks. -/
theorem conversation_negotiated {c : KcpConfig} {start : Nat} {socket : KcpSocket κ}
    (hW : K.wire.Laws) (hK : K.ConvLaws) (hset : K.SetsConv) (ha : K.Adopts)
    (hoff : c.fec.enabled = false) (hoff' : config.fec.enabled = false)
    (hs : KcpSocket.new K rs c 0 c.stream start = .ok (.ok socket))
    (hrun : Run (Negotiation.Step K rs config peer) (.new K socket c.sessionExpire) trace s)
    (hclient : ∀ x ∈ trace, x.2.OfNetwork) :
    (K.Asking s.connection.client.socket.kcp ∨
      K.waitingConv s.connection.client.socket.kcp = false ∧
        s.connection.listener.Serves K peer (s.connection.client.socket.conv K)) ∧
    (∀ conv, s.connection.listener.Serves K peer conv → conv ≠ 0 ∧ Drawn peer trace conv) ∧
    (∀ packet ∈ s.connection.toClient, s.connection.listener.Serves K peer (convOf packet)) ∧
    ∀ packet ∈ s.connection.toListener,
      convOf packet = 0 ∨ s.connection.listener.Serves K peer (convOf packet) := by
  have hkeeps : s.Keeps K peer ([] ++ trace) :=
    hrun.recorded (fun _ _ _ _ hs hc h => hs.step hW hK hset ha hoff' hc h)
      (Negotiation.new_keeps hK ha hoff hs c.sessionExpire) hclient
  refine ⟨?_, ?_, fun packet hm => (hkeeps.toClient packet hm).names,
    fun packet hm => (hkeeps.toListener packet hm).names⟩
  · rcases hkeeps.client with hasks | ⟨conv, hserves, hsettled⟩
    · exact .inl hasks
    · rw [KcpSocket.conv, hsettled.1]
      exact .inr ⟨hsettled.2, hserves⟩
  · intro conv hserves
    refine ⟨?_, hkeeps.drawn conv hserves⟩
    obtain ⟨session, hm, _, hsettled⟩ := hserves
    obtain ⟨conv', hne, hsettled'⟩ := hkeeps.sessions session hm
    rw [← hsettled.1, hsettled'.1]
    exact hne

theorem Negotiation.step_of_resend? (h : s.resend? event = some t) :
    s.Step K rs config peer event t := by
  cases event with
  | clientOutput event =>
    cases event with
    | write buf =>
      rw [Negotiation.resend?] at h
      split at h
      · rename_i hconv
        obtain ⟨⟨pipe, packets⟩, hp, rfl⟩ := Option.map_eq_some_iff.mp h
        exact .resent hconv.1 hconv.2 (eq_ok_of_toOption hp)
      · cases h
    | _ => cases h
  | _ => cases h

theorem Negotiation.step_of_next? (h : s.next? K rs config peer event = some t) :
    s.Step K rs config peer event t := by
  rw [Negotiation.next?] at h
  split at h
  · rename_i hnext
    cases h
    exact .connection (Connection.step_of_next? hnext)
  · exact Negotiation.step_of_resend? h

theorem SmallKcp.inputSegments_adopts (k : SmallKcp) (hw : k.inputConv = true)
    (hne : convOf buf ≠ k.conv) (fuel : Nat) :
    smallKcp.SameConv k (k.inputSegments fuel buf).1 ∨
      smallKcp.Settled (convOf buf) (k.inputSegments fuel buf).1 := by
  cases fuel with
  | zero => exact .inl ⟨rfl, rfl⟩
  | succ fuel =>
    have hadopt : k.adopt (convOf buf) = { k with conv := convOf buf, inputConv := false } :=
      if_pos hne
    rw [SmallKcp.inputSegments]
    by_cases hshort : buf.length < kcpOverhead
    · rw [if_pos hshort]
      exact .inl ⟨rfl, rfl⟩
    · rw [if_neg hshort, if_neg fun h => Bool.false_ne_true (h.2.symm.trans hw), hadopt]
      right
      dsimp only
      split
      · exact ⟨rfl, rfl⟩
      · split
        · exact ⟨rfl, rfl⟩
        · obtain ⟨hc, hi⟩ := SmallKcp.take_conv
            { k with conv := convOf buf, inputConv := false } (buf.getD 4 0) (snOf buf)
            ((buf.drop kcpOverhead).take (LittleEndian.decode ((buf.drop 20).take 4)))
          obtain ⟨hconv, hwaiting⟩ := SmallKcp.inputSegments_keepsConv _ _ _ hi
          exact ⟨hconv.trans hc, hwaiting⟩

theorem smallKcp_adopts : smallKcp.Adopts where
  inputConv _ := ⟨rfl, rfl⟩
  operate k op hop := by
    cases op with
    | input buf => exact absurd rfl (hop buf)
    | recv len =>
      change smallKcp.SameConv k (k.recv len).1
      rw [SmallKcp.recv]
      split
      · exact ⟨rfl, rfl⟩
      · split
        · exact ⟨rfl, rfl⟩
        · exact ⟨rfl, rfl⟩
    | _ => exact ⟨rfl, rfl⟩
  input k buf hwaits hne :=
    k.input_leads (P := fun l => smallKcp.SameConv k l ∨ smallKcp.Settled (convOf buf) l) buf
      (.inl ⟨rfl, rfl⟩) (k.inputSegments_adopts hwaits hne buf.length)

/-- The client's first segment comes twice, and the listener opens a session for each. The client
adopts the conversation of the first, sends its segment once more and follows the second. -/
def smallNegotiation : List ConnectionEvent :=
  [.client (.call (.pollSend 5 [65]) 0), .clientOutput (.write (segment 0 81 0 [65])),
    .clientOutput (.runTask 0),
    .listener (.datagram (segment 0 81 0 [65]) ⟨[10, 0, 0, 2], 4000⟩ ⟨[0, 8], rfl⟩ 1),
    .listener .forward, .listener (.ioTask 0 1),
    .listener (.datagram (segment 0 81 0 [65]) ⟨[10, 0, 0, 2], 4000⟩ ⟨[0, 9], rfl⟩ 2),
    .listener .forward, .listener (.ioTask 1 2), .sessionOutput 0 (.write (segment 8 82 0 [])),
    .sessionOutput 0 (.runTask 3), .sessionOutput 1 (.write (segment 9 82 0 [])),
    .sessionOutput 1 (.runTask 3), .client (.recv (.ok (segment 8 82 0 [])) 4),
    .clientOutput (.write (segment 0 81 0 [65])), .clientOutput (.runTask 4),
    .client (.recv (.ok (segment 9 82 0 [])) 5), .clientOutput (.write (segment 8 81 0 [65])),
    .clientOutput (.runTask 6)]

theorem conversation_negotiated_small : ∃ socket trace s,
    KcpSocket.new smallKcp reedSolomon {} 0 false 0 = .ok (.ok socket) ∧
    Run (Negotiation.Step smallKcp reedSolomon {} ⟨[10, 0, 0, 2], 4000⟩)
      (.new smallKcp socket none) trace s ∧
    trace.map Prod.snd = smallNegotiation ∧
    s.connection.toListener.map convOf = [0, 0, 8] ∧
    s.connection.toClient.map convOf = [8, 9] ∧
    s.connection.client.socket.conv smallKcp = 9 ∧
    (∀ conv ∈ [8, 9], s.connection.listener.Serves smallKcp ⟨[10, 0, 0, 2], 4000⟩ conv ∧
      Drawn ⟨[10, 0, 0, 2], 4000⟩ trace conv) := by
  have hreplay : ∃ socket trace s,
      KcpSocket.new smallKcp reedSolomon {} 0 false 0 = .ok (.ok socket) ∧
      replay (Negotiation.next? smallKcp reedSolomon {} ⟨[10, 0, 0, 2], 4000⟩)
        (.new smallKcp socket none) smallNegotiation = some (trace, s) ∧
      trace.map Prod.snd = smallNegotiation ∧
      s.connection.toListener.map convOf = [0, 0, 8] ∧
      s.connection.toClient.map convOf = [8, 9] ∧
      s.connection.client.socket.conv smallKcp = 9 ∧
      (trace.all fun x => decide x.2.OfNetwork) = true :=
    ⟨_, _, _, rfl, rfl, rfl, rfl, rfl, rfl, rfl⟩
  obtain ⟨socket, trace, s, hs, hr, hevents, hsent, hanswered, hconv, hall⟩ := hreplay
  have hrun := run_of_replay (fun _ _ _ => Negotiation.step_of_next?) hr
  obtain ⟨_, hdrawn, hserves, _⟩ := conversation_negotiated smallWire_laws smallKcp_convLaws
    smallKcp_setsConv smallKcp_adopts rfl rfl hs hrun
    fun x hx => of_decide_eq_true (List.all_eq_true.mp hall x hx)
  refine ⟨socket, trace, s, hs, hrun, hevents, hsent, hanswered, hconv, ?_⟩
  intro conv hm
  rw [← hanswered] at hm
  obtain ⟨packet, hpacket, rfl⟩ := List.mem_map.mp hm
  exact ⟨hserves packet hpacket, (hdrawn _ (hserves packet hpacket)).2⟩

end TokioKcp
