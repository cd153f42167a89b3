import TokioKcp.Usage

namespace TokioKcp
set_option autoImplicit true

open Checked Fec ErasureCode Transition

/-- What went through one side of a connection: the bytes that KCP took to send and those that it
handed over, and the number of buffers that the output task took. -/
structure Log where
  written : Bytes
  read : Bytes
  taken : Nat

def Log.empty : Log := ⟨[], [], 0⟩

def Log.add (self other : Log) : Log where
  written := self.written ++ other.written
  read := self.read ++ other.read
  taken := self.taken + other.taken

variable {κ : Type}

/-- An end of a connection without the stream's buffer. -/
def Log.endpoint (self : Log) (socket : KcpSocket κ) (pipe : OutputPipe) (sent : List Bytes) :
    Endpoint κ :=
  ⟨.withSession, socket, pipe, sent, self.written, self.read, self.taken⟩

/-- What an event adds to the log of a side: of the client, or of the session with the number. -/
def Connection.logOf (K : KcpCrate κ) (id : Nat) (side : Bool) :
    Connection κ × ConnectionEvent → Log
  | (s, .client event) =>
    if side then ⟨s.client.writtenIn K event, s.client.readIn K event, 0⟩ else .empty
  | (s, .listener event) =>
    if side then .empty
    else ((s.listener.arena[id]?).map fun session =>
      ⟨session.writtenOn K id event, session.readOn K id event, 0⟩).getD .empty
  | (s, .clientOutput event) =>
    if side then ⟨[], [], (OutputPipe.takes (s.clientPipe, event)).length⟩ else .empty
  | (s, .sessionOutput other event) =>
    if side ∨ other ≠ id then .empty
    else ((s.pipes[id]?).map fun pipe =>
      ⟨[], [], (OutputPipe.takes (pipe, event)).length⟩).getD .empty

def Connection.log (K : KcpCrate κ) (id : Nat) (trace : List (Connection κ × ConnectionEvent))
    (side : Bool) : Log :=
  trace.foldl (fun log x => log.add (Connection.logOf K id side x)) .empty

/-- Datagrams come to the client from the network alone, and KCP writes what it may. -/
def Connection.Ordinary (writes : κ → Bytes → Prop) (s : Connection κ) : ConnectionEvent → Prop
  | .client event => event.OfClient
  | .clientOutput event => event.Written writes s.client.socket.kcp
  | .sessionOutput id event =>
    ∀ session ∈ s.listener.arena[id]?, event.Written writes session.socket.kcp
  | .listener _ => True

instance (event : SessionEvent) : Decidable event.OfClient :=
  match event with
  | .input _ | .runIoTask _ | .call (.input _) _ => .isFalse id
  | .call (.pollSend _ _) _ | .call (.pollRecv _ _) _ | .call .updateAt _ | .call .flush _
  | .call .close _ | .close | .recv _ _ | .tick _ => .isTrue True.intro

instance (writes : κ → Bytes → Prop) [∀ k buf, Decidable (writes k buf)] (s : Connection κ)
    (event : ConnectionEvent) : Decidable (s.Ordinary writes event) :=
  match event with
  | .client event => inferInstanceAs (Decidable event.OfClient)
  | .clientOutput event => inferInstanceAs (Decidable (event.Written writes s.client.socket.kcp))
  | .sessionOutput id event => inferInstanceAs
    (Decidable (∀ session ∈ s.listener.arena[id]?, event.Written writes session.socket.kcp))
  | .listener _ => .isTrue True.intro

def Connection.peers (s : Connection κ) (socket : KcpSocket κ) (pipe : OutputPipe)
    (log : Bool → Log) : Peers κ
  | true => (log true).endpoint s.client.socket s.clientPipe s.toListener
  | false => (log false).endpoint socket pipe s.toClient

def ends (client session : κ) : Bool → κ
  | true => client
  | false => session

/-- The client and the session have come to be what they are as two control blocks that began with
those of the given ones would. -/
def Connection.Refined (K : KcpCrate κ) (writes : κ → Bytes → Prop) (fec : KcpFecConfig)
    (c : ReedSolomon) (kcp : κ) (start socket : KcpSocket κ) (pipe : OutputPipe) (log : Bool → Log)
    (s : Connection κ) : Prop :=
  ∃ trace pair, Run (KcpPair.Step K writes) (.new (ends kcp start.kcp)) trace pair ∧
    (s.peers socket pipe log).Refines fec c pair

/-- A side's task has taken no more buffers than a lap of packet numbers has data packets for. -/
def LogsInLap (fec : KcpFecConfig) (log : Bool → Log) : Prop :=
  fec.enabled = true → ∀ side, (log side).taken ≤
    lapGroups (fec.dataShards + fec.parityShards) * fec.dataShards

/-- The listener has opened no session for the client but the one with the number. -/
def Connection.Only (peer : SocketAddr) (id : Nat) (s : Connection κ) : Prop :=
  ∀ other, s.listener.peerOf other = some peer → other = id

/-- Until the session comes, any new socket would do for it; then it is as its own socket has
become. -/
structure Connection.Linked (K : KcpCrate κ) (rs : Nat → Nat → Except String ReedSolomon)
    (config : KcpConfig) (peer : SocketAddr) (conv : UInt32) (writes : κ → Bytes → Prop)
    (c : ReedSolomon) (kcp : κ) (id : Nat) (log : Bool → Log) (s : Connection κ) : Prop where
  before : s.listener.arena.length ≤ id → ∀ socket start,
    KcpSocket.new K rs config conv config.stream start = .ok (.ok socket) →
    s.Refined K writes config.fec c kcp socket socket socket.pipe log
  after : ∀ session pipe, s.listener.arena[id]? = some session →
    session.sessionCloseNotifier = some peer → s.pipes[id]? = some pipe → ∃ socket start,
      KcpSocket.new K rs config conv config.stream start = .ok (.ok socket) ∧
      s.Refined K writes config.fec c kcp socket session.socket pipe log

/-- All that is kept of a connection in a run: what waits for the session was sent by the client,
and the two are linked. -/
structure Connection.Served (K : KcpCrate κ) (rs : Nat → Nat → Except String ReedSolomon)
    (config : KcpConfig) (peer : SocketAddr) (conv : UInt32) (writes : κ → Bytes → Prop)
    (c : ReedSolomon) (kcp : κ) (id : Nat) (trace : List (Connection κ × ConnectionEvent))
    (s : Connection κ) : Prop where
  agrees : s.Agrees K config peer conv
  pipes : s.pipes.length = s.listener.arena.length
  held : ∀ session, s.listener.arena[id]? = some session →
    session.sessionCloseNotifier = some peer →
    session.inputRx ++ forSession id s.listener.forwarding ⊆ s.toListener
  linked : LogsInLap config.fec (Connection.log K id trace) → s.Only peer id →
    s.Linked K rs config peer conv writes c kcp id (Connection.log K id trace)

variable {K : KcpCrate κ} {rs : Nat → Nat → Except String ReedSolomon} {config : KcpConfig}
variable {peer : SocketAddr} {conv : UInt32} {s t : Connection κ} {writes : κ → Bytes → Prop}
variable {c : ReedSolomon} {fec : KcpFecConfig} {kcp : κ} {start socket socket' : KcpSocket κ}
variable {pipe pipe' : OutputPipe} {log log' : Bool → Log} {written read : Bytes} {id : Nat}
variable {trace : List (Connection κ × ConnectionEvent)} {x : Connection κ × ConnectionEvent}

theorem Log.add_empty (self : Log) : self.add .empty = self := by
  rw [Log.add, Log.empty, List.append_nil, List.append_nil, Nat.add_zero]

theorem Connection.log_concat (side : Bool) :
    Connection.log K id (trace ++ [x]) side =
      (Connection.log K id trace side).add (Connection.logOf K id side x) :=
  List.foldl_concat ..

theorem Peers.Refines.of_eq {p q : Peers κ} {pair : KcpPair κ} (h : p.Refines fec c pair)
    (heq : ∀ side, q side = p side) : q.Refines fec c pair := by
  rw [show q = p from funext heq]
  exact h

theorem Connection.logOf_sessionOutput {event : OutputEvent} (hp : s.pipes[id]? = some pipe) :
    Connection.logOf K id false (s, .sessionOutput id event) =
      ⟨[], [], (OutputPipe.takes (pipe, event)).length⟩ := by
  have hhere : ¬(false = true ∨ id ≠ id) := fun h => h.elim Bool.false_ne_true fun hne => hne rfl
  rw [Connection.logOf, if_neg hhere, hp]
  rfl

theorem Connection.logOf_listener {event : Event} {session : KcpSession κ}
    (hs : s.listener.arena[id]? = some session) :
    Connection.logOf K id false (s, .listener event) =
      ⟨session.writtenOn K id event, session.readOn K id event, 0⟩ := by
  rw [Connection.logOf, if_neg Bool.false_ne_true, hs]
  rfl

theorem Connection.logOf_listener_none {event : Event} (hs : s.listener.arena[id]? = none)
    (side : Bool) : Connection.logOf K id side (s, .listener event) = .empty := by
  rw [Connection.logOf, hs]
  exact ite_self _

section Refined

variable (h : s.Refined K writes fec c kcp start socket pipe log)
variable (hc : fec.enabled = true → c.Lawful fec.dataShards fec.parityShards)
variable (hlap : fec.enabled = true → ∀ side, (log side).taken ≤
  lapGroups (fec.dataShards + fec.parityShards) * fec.dataShards)

include h hc hlap

theorem Connection.Refined.client {client : KcpSession κ}
    (hu : s.client.socket.Uses K s.toClient written read client.socket)
    (htrue : log' true = (log true).add ⟨written, read, 0⟩) (hfalse : log' false = log false) :
    ({ s with client := client } : Connection κ).Refined K writes fec c kcp start socket pipe
      log' := by
  obtain ⟨trace, pair, hrun, hrefines⟩ := h
  obtain ⟨more, pair', hmore, hnext⟩ := hrefines.uses writes true hc (fun he => hlap he false) rfl
    (List.Subset.refl _) hu
  refine ⟨trace ++ more, pair', hrun.append hmore, ?_⟩
  apply hnext.of_eq
  intro side
  cases side with
  | true => exact congrArg (Log.endpoint · client.socket s.clientPipe s.toListener) htrue
  | false => exact congrArg (Log.endpoint · socket pipe s.toClient) hfalse

theorem Connection.Refined.session {listener : System κ} {datagrams : List Bytes}
    (hsub : datagrams ⊆ s.toListener) (hu : socket.Uses K datagrams written read socket')
    (htrue : log' true = log true) (hfalse : log' false = (log false).add ⟨written, read, 0⟩) :
    (s.withListener listener).Refined K writes fec c kcp start socket' pipe log' := by
  obtain ⟨trace, pair, hrun, hrefines⟩ := h
  obtain ⟨more, pair', hmore, hnext⟩ := hrefines.uses writes false hc (fun he => hlap he true) rfl
    hsub hu
  refine ⟨trace ++ more, pair', hrun.append hmore, ?_⟩
  apply hnext.of_eq
  intro side
  cases side with
  | true => exact congrArg (Log.endpoint · s.client.socket s.clientPipe s.toListener) htrue
  | false => exact congrArg (Log.endpoint · socket' pipe s.toClient) hfalse

theorem Connection.Refined.clientOutput {event : OutputEvent} {packets : List Bytes}
    (hwritten : event.Written writes s.client.socket.kcp)
    (hnext : s.clientPipe.next event = .ok (pipe', packets))
    (htrue : log' true =
      (log true).add ⟨[], [], (OutputPipe.takes (s.clientPipe, event)).length⟩)
    (hfalse : log' false = log false) :
    ({ s with clientPipe := pipe', toListener := s.toListener ++ packets } :
      Connection κ).Refined K writes fec c kcp start socket pipe log' := by
  obtain ⟨trace, pair, hrun, hrefines⟩ := h
  obtain ⟨more, pair', hmore, hnext⟩ := hrefines.output true hc
    (fun he => hlap he true) hwritten hnext
  refine ⟨trace ++ more, pair', hrun.append hmore, ?_⟩
  apply hnext.of_eq
  intro side
  cases side with
  | true =>
    rw [Log.add, List.append_nil, List.append_nil] at htrue
    exact congrArg (Log.endpoint · s.client.socket pipe' (s.toListener ++ packets)) htrue
  | false => exact congrArg (Log.endpoint · socket pipe s.toClient) hfalse

theorem Connection.Refined.sessionOutput {event : OutputEvent} {packets : List Bytes}
    {pipes : List OutputPipe} (hwritten : event.Written writes socket.kcp)
    (hnext : pipe.next event = .ok (pipe', packets)) (htrue : log' true = log true)
    (hfalse : log' false = (log false).add ⟨[], [], (OutputPipe.takes (pipe, event)).length⟩) :
    ({ s with pipes := pipes, toClient := s.toClient ++ packets } : Connection κ).Refined K writes
      fec c kcp start socket pipe' log' := by
  obtain ⟨trace, pair, hrun, hrefines⟩ := h
  obtain ⟨more, pair', hmore, hnext⟩ := hrefines.output false hc
    (fun he => hlap he false) hwritten hnext
  refine ⟨trace ++ more, pair', hrun.append hmore, ?_⟩
  apply hnext.of_eq
  intro side
  cases side with
  | true => exact congrArg (Log.endpoint · s.client.socket s.clientPipe s.toListener) htrue
  | false =>
    rw [Log.add, List.append_nil, List.append_nil] at hfalse
    exact congrArg (Log.endpoint · socket pipe' (s.toClient ++ packets)) hfalse

end Refined

theorem System.Grows.length_le {u v : System κ} (h : u.Grows K v) :
    u.arena.length ≤ v.arena.length := by
  apply Nat.le_of_not_lt
  intro hlt
  obtain ⟨_, hget, _⟩ := h _ _ (List.getElem?_eq_getElem hlt)
  exact Nat.lt_irrefl _ (List.getElem?_eq_some_iff.mp hget).1

theorem mem_forSession {packet : Bytes} {forwarding : Option (Nat × Bytes)} :
    packet ∈ forSession id forwarding ↔ forwarding = some (id, packet) := by
  cases forwarding with
  | none =>
    constructor
    · intro h
      cases h
    · intro h
      cases h
  | some held =>
    rw [forSession]
    split
    · rename_i hid
      rw [List.mem_singleton, ← hid]
      exact ⟨fun h => by rw [h], fun h => (congrArg Prod.snd (Option.some.inj h)).symm⟩
    · rename_i hid
      constructor
      · intro h
        cases h
      · intro h
        exact absurd (congrArg Prod.fst (Option.some.inj h)) hid

/-- A packet that names its conversation is handed on as it is. -/
theorem Travels.withConvFor {packet front body : Bytes} (h : Travels conv packet) (hne : conv ≠ 0)
    (hplain : config.fec.enabled = false → OfConv conv packet)
    (hb : CarriesKcp config packet front body) (draws : RandomDraws) :
    front ++ withConvFor draws body = packet := by
  have hkept : TokioKcp.withConvFor draws body = body := by
    apply if_neg
    rw [h.convOf hplain hb]
    exact hne
  rcases h.read hplain with hparity | ⟨front', body', hp, _, hwhole, _⟩
  · exact absurd (hb.not_parity.symm.trans hparity) Bool.false_ne_true
  · rw [hb.packet] at hp
    cases hp
    rw [hkept, hwhole]

/-- What the listener comes to hold for a session of the client is what the client sent. -/
theorem Connection.Agrees.holds {event : Event} {listener : System κ} (hW : K.wire.Laws)
    (hne : conv ≠ 0) (hs : s.Agrees K config peer conv) (hfrom : event.From peer s.toListener)
    (h : s.listener.Step K rs config event listener) (hpeer : listener.peerOf id = some peer) :
    forSession id listener.forwarding ⊆
      forSession id s.listener.forwarding ++ s.toListener := by
  intro packet' hm
  rw [mem_forSession] at hm
  rw [List.mem_append]
  by_cases hdatagram : ∃ packet peerAddr draws now, event = .datagram packet peerAddr draws now
  · obtain ⟨packet, peerAddr, draws, now, rfl⟩ := hdatagram
    right
    have hto := System.Step.handedFrom hW hs.accounted h (h.addressed.trans hm)
    obtain ⟨peer', hpeer', _, _, _, he, _⟩ := hto
    rw [hpeer] at hpeer'
    cases hpeer'
    cases he
    have hsent : packet ∈ s.toListener := hfrom rfl
    have htravels := hs.toListener packet hsent
    have hplain (hf : config.fec.enabled = false) := (hs.plain hf).2 packet hsent
    cases System.Step.acts hW h with
    | handled hf hh =>
      cases hh with
      | parity hp =>
        obtain ⟨_, _, he⟩ := Option.map_eq_some_iff.mp hm
        cases he
        exact hsent
      | tooShort hp hlen => cases hm
      | failed hb ho hn => cases hm
      | opened hb ho hn hroom =>
        cases hm
        rw [htravels.withConvFor hne hplain hb]
        exact hsent
      | refused hb ho hn hroom => cases hm
      | kept hb hg hc =>
        cases hm
        rw [htravels.withConvFor hne hplain hb]
        exact hsent
      | mismatch hb hg hc hsn => cases hm
  · left
    rw [mem_forSession]
    rcases h.forwarding_kept fun packet peerAddr draws now he =>
      hdatagram ⟨packet, peerAddr, draws, now, he⟩ with hn | hk
    · rw [hn] at hm
      cases hm
    · exact hk ▸ hm

theorem Connection.log_nobody {event : Event} (hout : s.listener.arena.length ≤ id) :
    Connection.log K id (trace ++ [(s, .listener event)]) = Connection.log K id trace := by
  funext side
  rw [Connection.log_concat, Connection.logOf_listener_none (List.getElem?_eq_none hout),
    Log.add_empty]

theorem Connection.Served.sessionBorn {event : Event} {listener : System κ}
    {session : KcpSession κ} (hs : s.Served K rs config peer conv writes c kcp id trace)
    (hW : K.wire.Laws) (hne : conv ≠ 0) (hfrom : event.From peer s.toListener)
    (h : s.listener.Step K rs config event listener) (hout : s.listener.arena.length ≤ id)
    (hget : listener.arena[id]? = some session)
    (hpeer : session.sessionCloseNotifier = some peer) :
    id = s.listener.arena.length ∧ ∃ start,
      KcpSocket.new K rs config conv config.stream start = .ok (.ok session.socket) := by
  obtain ⟨packet, peerAddr, draws, now, front, body, socket, rfl, hb, hnew, hid, hcore⟩ :=
    h.born hW hout hget
  obtain ⟨rfl, hrest⟩ := Prod.mk.inj hcore
  obtain ⟨_, hnotifier⟩ := Prod.mk.inj hrest
  rw [hpeer] at hnotifier
  cases hnotifier
  have hsent : packet ∈ s.toListener := hfrom rfl
  have hbody := (hs.agrees.toListener packet hsent).convOf
    (fun hf => (hs.agrees.plain hf).2 packet hsent) hb
  have hconv : convFor draws body = conv := by
    rw [convFor, hbody, if_neg hne]
  exact ⟨hid, now, hconv ▸ hnew⟩

theorem Connection.Served.heldThen {event : Event} {listener : System κ} {session' : KcpSession κ}
    (hs : s.Served K rs config peer conv writes c kcp id trace) (hW : K.wire.Laws)
    (hne : conv ≠ 0) (hfrom : event.From peer s.toListener)
    (h : s.listener.Step K rs config event listener)
    (hget' : listener.arena[id]? = some session')
    (hpeer' : session'.sessionCloseNotifier = some peer) :
    session'.inputRx ++ forSession id listener.forwarding ⊆ s.toListener := by
  have hpeer : listener.peerOf id = some peer := by
    rw [System.peerOf, hget']
    exact hpeer'
  have hto := hs.agrees.holds hW hne hfrom h hpeer
  by_cases hlt : id < s.listener.arena.length
  · have hget := List.getElem?_eq_getElem hlt
    obtain ⟨session'', hget'', hfollows⟩ := (System.Step.acts hW h).follows hget
    rw [hget'] at hget''
    cases hget''
    have hheld := hs.held _ hget (hfollows.notifier ▸ hpeer')
    apply List.append_subset.mpr ⟨List.Subset.trans hfollows.inputRx hheld, ?_⟩
    exact List.Subset.trans hto (List.append_subset.mpr
      ⟨(List.append_subset.mp hheld).2, List.Subset.refl _⟩)
  · obtain ⟨packet, peerAddr, draws, now, _, _, _, rfl, _, _, _, hcore⟩ :=
      h.born hW (Nat.le_of_not_lt hlt) hget'
    have hrx : session'.inputRx = [] := congrArg (fun x => x.2.1) hcore
    cases System.Step.acts hW h with
    | handled hf hh =>
      rw [hf] at hto
      rw [hrx]
      exact hto

section Served

variable (hs : s.Served K rs config peer conv writes c kcp id trace)
variable (hc : config.fec.enabled = true → c.Lawful config.fec.dataShards config.fec.parityShards)

theorem LogsInLap.init (h : LogsInLap fec (Connection.log K id (trace ++ [x]))) :
    LogsInLap fec (Connection.log K id trace) := by
  intro he side
  have hlap := h he side
  rw [Connection.log_concat] at hlap
  exact Nat.le_trans (Nat.le_add_right _ _) hlap

include hs hc

theorem Connection.Served.client {event : SessionEvent} {client : KcpSession κ}
    (hW : K.wire.Laws)
    (hagrees : ({ s with client := client } : Connection κ).Agrees K config peer conv)
    (hclient : event.OfClient) (hfrom : event.From s.toClient) (h : s.client.Step K event client) :
    ({ s with client := client } : Connection κ).Served K rs config peer conv writes c kcp id
      (trace ++ [(s, .client event)]) := by
  refine ⟨hagrees, hs.pipes, hs.held, ?_⟩
  intro hlap honly
  have hu : s.client.socket.Uses K s.toClient (s.client.writtenIn K event)
      (s.client.readIn K event) client.socket := by
    apply h.uses hW hclient hfrom
    rintro buf now rfl named hn
    exact ((hs.agrees.toClient buf hfrom).namedConv hn).trans hs.agrees.client.1.symm
  have hlinked := hs.linked hlap.init honly
  have htrue : Connection.log K id (trace ++ [(s, .client event)]) true = _ :=
    Connection.log_concat true
  have hfalse : Connection.log K id (trace ++ [(s, .client event)]) false =
      Connection.log K id trace false := by
    rw [Connection.log_concat]
    exact Log.add_empty _
  constructor
  · intro hout socket start hnew
    exact (hlinked.before hout socket start hnew).client hc hlap.init hu htrue hfalse
  · intro session pipe hget hpeer hpipe
    obtain ⟨socket, start, hnew, h⟩ := hlinked.after session pipe hget hpeer hpipe
    exact ⟨socket, start, hnew, h.client hc hlap.init hu htrue hfalse⟩

theorem Connection.Served.clientOutput {event : OutputEvent} {packets : List Bytes}
    (hagrees : ({ s with clientPipe := pipe', toListener := s.toListener ++ packets } :
      Connection κ).Agrees K config peer conv)
    (hwritten : event.Written writes s.client.socket.kcp)
    (hnext : s.clientPipe.next event = .ok (pipe', packets)) :
    ({ s with clientPipe := pipe', toListener := s.toListener ++ packets } : Connection κ).Served K
      rs config peer conv writes c kcp id (trace ++ [(s, .clientOutput event)]) := by
  refine ⟨hagrees, hs.pipes, ?_, ?_⟩
  · intro session hget hpeer
    exact List.subset_append_of_subset_left _ (hs.held session hget hpeer)
  · intro hlap honly
    have hlinked := hs.linked hlap.init honly
    have htrue : Connection.log K id (trace ++ [(s, .clientOutput event)]) true = _ :=
      Connection.log_concat true
    have hfalse : Connection.log K id (trace ++ [(s, .clientOutput event)]) false =
        Connection.log K id trace false := by
      rw [Connection.log_concat]
      exact Log.add_empty _
    constructor
    · intro hout socket start hnew
      exact (hlinked.before hout socket start hnew).clientOutput hc hlap.init hwritten hnext htrue
        hfalse
    · intro session pipe hget hpeer hpipe
      obtain ⟨socket, start, hnew, h⟩ := hlinked.after session pipe hget hpeer hpipe
      exact ⟨socket, start, hnew, h.clientOutput hc hlap.init hwritten hnext htrue hfalse⟩

theorem Connection.Served.sessionOutput {event : OutputEvent} {packets : List Bytes}
    {session : KcpSession κ} {other : Nat}
    (hagrees : ({ s with pipes := s.pipes.set other pipe', toClient := s.toClient ++ packets } :
      Connection κ).Agrees K config peer conv)
    (hget : s.listener.arena[other]? = some session)
    (hpeer : session.sessionCloseNotifier = some peer) (hp : s.pipes[other]? = some pipe)
    (hwritten : event.Written writes session.socket.kcp)
    (hnext : pipe.next event = .ok (pipe', packets)) :
    ({ s with pipes := s.pipes.set other pipe', toClient := s.toClient ++ packets } :
      Connection κ).Served K rs config peer conv writes c kcp id
        (trace ++ [(s, .sessionOutput other event)]) := by
  refine ⟨hagrees, List.length_set.trans hs.pipes, hs.held, ?_⟩
  intro hlap honly
  have hid : other = id := by
    apply honly
    rw [System.peerOf, hget]
    exact hpeer
  subst hid
  have hlinked := hs.linked hlap.init honly
  have htrue : Connection.log K other (trace ++ [(s, .sessionOutput other event)]) true =
      Connection.log K other trace true := by
    rw [Connection.log_concat]
    exact Log.add_empty _
  have hfalse : Connection.log K other (trace ++ [(s, .sessionOutput other event)]) false =
      (Connection.log K other trace false).add
        ⟨[], [], (OutputPipe.takes (pipe, event)).length⟩ := by
    rw [Connection.log_concat, Connection.logOf_sessionOutput hp]
  constructor
  · intro hout
    exact absurd (List.getElem?_eq_some_iff.mp hget).1 (Nat.not_lt_of_le hout)
  · intro session' pipe'' hget' hpeer' hpipe
    rw [hget] at hget'
    cases hget'
    have hpipe : (s.pipes.set other pipe')[other]? = some pipe'' := hpipe
    rw [List.getElem?_set_self (List.getElem?_eq_some_iff.mp hp).1] at hpipe
    cases hpipe
    obtain ⟨socket, start, hnew, h⟩ := hlinked.after session pipe hget hpeer hp
    exact ⟨socket, start, hnew, h.sessionOutput hc hlap.init hwritten hnext htrue hfalse⟩

/-- A session that was there goes on as its socket's control block does. -/
theorem Connection.Served.sessionKept {event : Event} {listener : System κ}
    {session session' : KcpSession κ} (hW : K.wire.Laws)
    (h : s.listener.Step K rs config event listener)
    (hlap : LogsInLap config.fec (Connection.log K id (trace ++ [(s, .listener event)])))
    (honly : s.Only peer id) (hget : s.listener.arena[id]? = some session)
    (hget' : listener.arena[id]? = some session')
    (hpeer' : session'.sessionCloseNotifier = some peer) (hpipe : s.pipes[id]? = some pipe) :
    ∃ socket start, KcpSocket.new K rs config conv config.stream start = .ok (.ok socket) ∧
      (s.withListener listener).Refined K writes config.fec c kcp socket session'.socket pipe
        (Connection.log K id (trace ++ [(s, .listener event)])) := by
  obtain ⟨session'', hget'', hfollows⟩ := (System.Step.acts hW h).follows hget
  rw [hget'] at hget''
  cases hget''
  have hpeer := hfollows.notifier ▸ hpeer'
  have hlinked := hs.linked hlap.init honly
  obtain ⟨socket, start, hnew, hrefined⟩ := hlinked.after session pipe hget hpeer hpipe
  have hsub := (List.append_subset.mp (hs.held session hget hpeer)).1
  refine ⟨socket, start, hnew, hrefined.session hc hlap.init hsub hfollows.socket ?_ ?_⟩
  · rw [Connection.log_concat]
    exact Log.add_empty _
  · rw [Connection.log_concat, Connection.logOf_listener hget]

theorem Connection.Served.listener {event : Event} {listener : System κ} (hW : K.wire.Laws)
    (hne : conv ≠ 0) (hagrees : (s.withListener listener).Agrees K config peer conv)
    (hfrom : event.From peer s.toListener) (h : s.listener.Step K rs config event listener) :
    (s.withListener listener).Served K rs config peer conv writes c kcp id
      (trace ++ [(s, .listener event)]) := by
  have hgrows := (System.Step.effect hW h).grows
  have hlength := hgrows.length_le
  refine ⟨hagrees, ?_, ?_, ?_⟩
  · change (s.pipes ++ _).length = listener.arena.length
    rw [List.length_append, List.length_map, List.length_drop, hs.pipes]
    exact Nat.add_sub_cancel' hlength
  · intro session' hget' hpeer'
    exact hs.heldThen hW hne hfrom h hget' hpeer'
  · intro hlap honly
    have honly' : s.Only peer id := fun other hpeer => honly other (hgrows.peerOf hpeer)
    have hlinked := hs.linked hlap.init honly'
    constructor
    · intro hout socket start hnew
      have hout := Nat.le_trans hlength hout
      rw [Connection.log_nobody hout]
      exact hlinked.before hout socket start hnew
    · intro session' pipe' hget' hpeer' hpipe'
      have hpipe' : (s.pipes ++ _)[id]? = some pipe' := hpipe'
      by_cases hlt : id < s.listener.arena.length
      · rw [List.getElem?_append_left (hs.pipes ▸ hlt)] at hpipe'
        exact hs.sessionKept hc hW h hlap honly' (List.getElem?_eq_getElem hlt) hget' hpeer' hpipe'
      · have hout := Nat.le_of_not_lt hlt
        obtain ⟨hid, start, hnew⟩ := hs.sessionBorn hW hne hfrom h hout hget' hpeer'
        have hpipe : pipe' = session'.socket.pipe := by
          have hget' : listener.arena[id]? = some session' := hget'
          rw [List.getElem?_append_right (hs.pipes ▸ hout), hs.pipes, hid, Nat.sub_self,
            List.getElem?_map, List.getElem?_drop, Nat.add_zero, ← hid, hget'] at hpipe'
          exact (Option.some.inj hpipe').symm
        rw [Connection.log_nobody hout, hpipe]
        exact ⟨session'.socket, start, hnew, hlinked.before hout session'.socket start hnew⟩

theorem Connection.Served.step {event : ConnectionEvent} (hW : K.wire.Laws) (hK : K.ConvLaws)
    (hne : conv ≠ 0) (hordinary : s.Ordinary writes event)
    (h : s.Step K rs config peer event t) :
    t.Served K rs config peer conv writes c kcp id (trace ++ [(s, event)]) := by
  have hagrees := hs.agrees.step hW hK hne h
  cases h with
  | listener hfrom h => exact hs.listener hc hW hne hagrees hfrom h
  | client hfrom h => exact hs.client hc hW hagrees hordinary hfrom h
  | clientOutput hconv h => exact hs.clientOutput hc hagrees hordinary h
  | sessionOutput hget hpeer hconv hp h =>
    exact hs.sessionOutput hc hagrees hget hpeer hp (hordinary _ hget) h

end Served

theorem Connection.new_served {mine : KcpConfig} {start : Nat} (hK : K.ConvLaws) (hne : conv ≠ 0)
    (hs : KcpSocket.new K rs mine conv mine.stream start = .ok (.ok socket))
    (hfec : mine.fec = config.fec) (hcodec : config.CodecIs rs c) :
    (Connection.new socket mine.sessionExpire).Served K rs config peer conv writes c socket.kcp id
      [] where
  agrees := Connection.new_agrees hK hne hs fun he => hfec ▸ he
  pipes := rfl
  held _ hget := absurd hget nofun
  linked _ _ := by
    constructor
    · intro _ other start' hnew
      have hsockets (side : Bool) : KcpSocket.new K rs (ends mine config side) conv
          (ends mine config side).stream (ends start start' side) =
            .ok (.ok (ends socket other side)) := by
        cases side with
        | true => exact hs
        | false => exact hnew
      have hsame (side : Bool) : (ends mine config side).fec = config.fec := by
        cases side with
        | true => exact hfec
        | false => rfl
      have hcodecs (side : Bool) : (ends mine config side).CodecIs rs c := by
        rw [KcpConfig.CodecIs, hsame side]
        exact hcodec
      have hkcp : (fun side => (ends socket other side).kcp) = ends socket.kcp other.kcp := by
        funext side
        cases side with
        | true => rfl
        | false => rfl
      have hstart := Peers.new_refines hsockets hsame hcodecs
      rw [hkcp] at hstart
      refine ⟨[], _, .nil, hstart.of_eq ?_⟩
      intro side
      cases side with
      | true => rfl
      | false => rfl
    · intro session pipe hget
      exact absurd hget nofun

/-- A client and a listener that serves it in one session carry two reliable streams between their
applications, whatever the networks lose, repeat and reorder, whatever other peers send to the
listener, and in whatever order everything happens: if KCP is reliable, what one application reads
is what the other wrote, from the beginning. -/
theorem service_reliable {mine : KcpConfig} {start : Nat} (hW : K.wire.Laws) (hK : K.ConvLaws)
    (hne : conv ≠ 0) (hs : KcpSocket.new K rs mine conv mine.stream start = .ok (.ok socket))
    (hfec : mine.fec = config.fec) (hcodec : config.CodecIs rs c)
    (hc : config.fec.enabled = true → c.Lawful config.fec.dataShards config.fec.parityShards)
    (hreliable : ∀ other start',
      KcpSocket.new K rs config conv config.stream start' = .ok (.ok other) →
      K.Reliable writes (ends socket.kcp other.kcp))
    (hrun : Run (Connection.Step K rs config peer) (.new socket mine.sessionExpire) trace s)
    (hordinary : ∀ x ∈ trace, x.1.Ordinary writes x.2) (hid : s.listener.peerOf id = some peer)
    (honly : s.Only peer id) (hlap : LogsInLap config.fec (Connection.log K id trace))
    (side : Bool) :
    (Connection.log K id trace side).read <+: (Connection.log K id trace (!side)).written := by
  have hserved : s.Served K rs config peer conv writes c socket.kcp id ([] ++ trace) :=
    hrun.recorded (fun _ _ _ _ hs ho h => hs.step hc hW hK hne ho h)
      (Connection.new_served hK hne hs hfec hcodec) hordinary
  obtain ⟨session, hget, hpeer⟩ := Option.bind_eq_some_iff.mp hid
  have hlt : id < s.pipes.length := by
    rw [hserved.pipes]
    exact (List.getElem?_eq_some_iff.mp hget).1
  obtain ⟨other, start', hnew, trace', pair, hpair, hrefines⟩ :=
    (hserved.linked hlap honly).after session _ hget hpeer (List.getElem?_eq_getElem hlt)
  have hprefix := hreliable other start' hnew trace' pair hpair side
  rw [(hrefines.ends side).received, (hrefines.ends (!side)).sent] at hprefix
  have hread (log : Log) : log.read <+: log.read ++ KcpStream.withSession.leftover :=
    List.prefix_append _ _
  cases side with
  | true => exact (hread _).trans hprefix
  | false => exact (hread _).trans hprefix

/-- One peer comes first. Of the client's first group a packet is lost, and its second packet is
sent again; then the session answers. -/
def smallService : List ConnectionEvent :=
  [.listener (.datagram (segment 9 81 0 [66]) ⟨[10, 0, 0, 1], 4000⟩ ⟨[9], rfl⟩ 0),
    .listener .forward, .client (.call (.pollSend 5 [65]) 0),
    .clientOutput (.write (segment 7 81 0 [65])), .client (.call (.pollSend 5 [66]) 0),
    .clientOutput (.write (segment 7 81 1 [66])), .clientOutput (.runTask 0),
    .clientOutput (.runTask 0),
    .listener (.datagram (packetOf (pawsOf 3) 1 typeData (dataBody (segment 7 81 1 [66])))
      ⟨[10, 0, 0, 2], 4000⟩ ⟨[9], rfl⟩ 1), .listener .forward,
    .listener (.datagram (packetOf (pawsOf 3) 2 typeParity
      (parityOf (dataBody (segment 7 81 0 [65])) (dataBody (segment 7 81 1 [66]))))
      ⟨[10, 0, 0, 2], 4000⟩ ⟨[9], rfl⟩ 1), .listener .forward,
    .listener (.ioTask 1 2), .listener (.ioTask 1 2), .listener .accept, .listener .accept,
    .listener (.stream 1 (.pollRecv 6 4) 2), .clientOutput (.write (segment 7 81 1 [66])),
    .clientOutput (.runTask 3),
    .listener (.datagram (packetOf (pawsOf 3) 3 typeData (dataBody (segment 7 81 1 [66])))
      ⟨[10, 0, 0, 2], 4000⟩ ⟨[9], rfl⟩ 4), .listener .forward, .listener (.ioTask 1 4),
    .listener (.stream 1 (.pollRecv 6 4) 4), .listener (.stream 1 (.pollSend 6 [67]) 4),
    .sessionOutput 1 (.write (segment 7 81 0 [67])), .sessionOutput 1 (.runTask 5),
    .client (.recv (.ok (packetOf (pawsOf 3) 0 typeData (dataBody (segment 7 81 0 [67])))) 6),
    .client (.call (.pollRecv 5 4) 6)]

theorem service_reliable_small : ∃ socket trace s,
    KcpSocket.new smallKcp reedSolomon (KcpConfig.withFec {} 2 1) 7 false 0 = .ok (.ok socket) ∧
    Run (Connection.Step smallKcp reedSolomon (KcpConfig.withFec {} 2 1) ⟨[10, 0, 0, 2], 4000⟩)
      (.new socket (KcpConfig.withFec {} 2 1).sessionExpire) trace s ∧
    trace.map Prod.snd = smallService ∧
    (Connection.log smallKcp 1 trace true).written = [65, 66] ∧
    (Connection.log smallKcp 1 trace false).read = [65, 66] ∧
    (Connection.log smallKcp 1 trace false).written = [67] ∧
    (Connection.log smallKcp 1 trace true).read = [67] ∧
    ∀ side, (Connection.log smallKcp 1 trace side).read <+:
      (Connection.log smallKcp 1 trace (!side)).written := by
  have hreplay : ∃ socket trace s,
      KcpSocket.new smallKcp reedSolomon (KcpConfig.withFec {} 2 1) 7 false 0 =
        .ok (.ok socket) ∧
      replay (Connection.next? smallKcp reedSolomon (KcpConfig.withFec {} 2 1)
          ⟨[10, 0, 0, 2], 4000⟩)
        (.new socket (KcpConfig.withFec {} 2 1).sessionExpire) smallService = some (trace, s) ∧
      trace.map Prod.snd = smallService ∧
      Connection.log smallKcp 1 trace true = ⟨[65, 66], [67], 3⟩ ∧
      Connection.log smallKcp 1 trace false = ⟨[67], [65, 66], 1⟩ ∧
      (trace.all fun x => decide (x.1.Ordinary SmallKcp.Writes x.2)) = true ∧
      s.listener.arena.map KcpSession.sessionCloseNotifier =
        [some ⟨[10, 0, 0, 1], 4000⟩, some ⟨[10, 0, 0, 2], 4000⟩] ∧
      (∀ start', ∃ other,
        KcpSocket.new smallKcp reedSolomon (KcpConfig.withFec {} 2 1) 7 false start' =
          .ok (.ok other) ∧ other.kcp = socket.kcp) ∧
      socket.kcp.conv = 7 ∧ socket.kcp.rcvNxt = 0 ∧ socket.kcp.messages = [] ∧
      socket.kcp.sndQueue = [] :=
    ⟨_, _, _, rfl, rfl, rfl, rfl, rfl, rfl, rfl, fun _ => ⟨_, rfl, rfl⟩, rfl, rfl, rfl, rfl⟩
  obtain ⟨socket, trace, s, hs, hr, hevents, htrue, hfalse, hall, hnotifiers, hnew, hconv, hnext,
    hmessages, hqueue⟩ := hreplay
  have hrun := run_of_replay (fun _ _ _ => Connection.step_of_next?) hr
  have hpeerOf (id : Nat) : s.listener.peerOf id = Option.join ([some ⟨[10, 0, 0, 1], 4000⟩,
      some ⟨[10, 0, 0, 2], 4000⟩] : List (Option SocketAddr))[id]? := by
    rw [← hnotifiers, List.getElem?_map, System.peerOf]
    cases s.listener.arena[id]? with
    | none => rfl
    | some session => rfl
  have honly : s.Only ⟨[10, 0, 0, 2], 4000⟩ 1 := by
    intro other hpeer
    rw [hpeerOf] at hpeer
    cases other with
    | zero => exact absurd hpeer (by decide)
    | succ other =>
      cases other with
      | zero => rfl
      | succ other => cases hpeer
  have hreliable (other : KcpSocket SmallKcp) (start' : Nat)
      (hother : KcpSocket.new smallKcp reedSolomon (KcpConfig.withFec {} 2 1) 7 false start' =
        .ok (.ok other)) : smallKcp.Reliable SmallKcp.Writes (ends socket.kcp other.kcp) := by
    obtain ⟨other', hother', hkcp⟩ := hnew start'
    rw [hother] at hother'
    cases hother'
    have hends (side : Bool) : ends socket.kcp other.kcp side = socket.kcp := by
      cases side with
      | true => rfl
      | false => exact hkcp
    apply smallKcp_reliable
    · exact fun side => (hends side).symm ▸ hconv
    · exact fun side => (hends side).symm ▸ hnext
    · exact fun side => (hends side).symm ▸ hmessages
    · exact fun side => (hends side).symm ▸ hqueue
  have hlap : LogsInLap (KcpConfig.withFec {} 2 1).fec (Connection.log smallKcp 1 trace) := by
    intro _ side
    cases side with
    | true =>
      rw [htrue]
      decide
    | false =>
      rw [hfalse]
      decide
  refine ⟨socket, trace, s, hs, hrun, hevents, ?_, ?_, ?_, ?_, ?_⟩
  · rw [htrue]
  · rw [hfalse]
  · rw [hfalse]
  · rw [htrue]
  · exact service_reliable smallWire_laws smallKcp_convLaws (by decide) hs rfl (fun _ => rfl)
      (fun _ => reedSolomon21_lawful) hreliable hrun
      (fun x hx => of_decide_eq_true (List.all_eq_true.mp hall x hx)) (hpeerOf 1) honly hlap

end TokioKcp
