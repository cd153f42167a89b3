import TokioKcp.Listener.Steps

namespace TokioKcp
set_option autoImplicit true

open Checked Fec Transition

variable {κ : Type}

/-- The session is in the given conversation for good. -/
def System.InConv (K : KcpCrate κ) (s : System κ) (id : Nat) (conv : UInt32) : Prop :=
  ∃ session, s.arena[id]? = some session ∧ session.socket.conv K = conv ∧
    K.waitingConv session.socket.kcp = false

/-- A datagram of the peer is forwarded to its session as the packet. The session stays as it is,
and nobody is accepted. -/
structure System.Repeats (s t : System κ) (peer : SocketAddr) (id : Nat) (packet : Bytes)
    (outcome : Option (Nat × Bytes)) : Prop where
  entry : t.sessions.lookup peer = some id
  session : t.arena[id]? = s.arena[id]?
  accept : t.acceptRx = s.acceptRx
  forwarded : outcome = some (id, packet)

variable {K : KcpCrate κ} {rs : Nat → Nat → Except String ReedSolomon} {config : KcpConfig}
variable {s t : System κ} {packet front body : Bytes} {peer : SocketAddr} {draws : RandomDraws}
variable {conv : UInt32} {now n : Nat} {outcome : Option (Nat × Bytes)}

theorem System.InConv.grows (hK : K.ConvLaws) (h : s.InConv K n conv) (hg : s.Grows K t) :
    t.InConv K n conv := by
  obtain ⟨session, hs, hc, hw⟩ := h
  obtain ⟨session', ht, he⟩ := hg n session hs
  obtain ⟨hc', hw'⟩ := he.socket.kcp.keepsConv hK hw
  exact ⟨session', ht, hc'.trans hc, hw'⟩

theorem System.InConv.run (hK : K.ConvLaws) (hW : K.wire.Laws) (h : s.InConv K n conv)
    (hrun : Run (System.Step K rs config) s trace t) : t.InConv K n conv :=
  (hrun.invariant (P := fun s => s.InConv K n conv)
    (fun _ _ _ hs hstep => hs.grows hK (System.Step.effect hW hstep).grows) h).2

theorem CarriesKcp.unique (h : CarriesKcp config packet front body)
    (h' : CarriesKcp config packet front' body') : body' = body := by
  have he := h.packet.symm.trans h'.packet
  cases he
  rfl

theorem System.get_eq_some {id : Nat} {session : KcpSession κ}
    (h : s.get peer = some (id, session)) :
    s.sessions.lookup peer = some id ∧ s.arena[id]? = some session := by
  obtain ⟨id', hl, h⟩ := Option.bind_eq_some_iff.mp h
  obtain ⟨session', hs, he⟩ := Option.map_eq_some_iff.mp h
  cases he
  exact ⟨hl, hs⟩

theorem System.get_ne_length {session : KcpSession κ} :
    s.get peer ≠ some (s.arena.length, session) := by
  intro h
  have hlt := (List.getElem?_eq_some_iff.mp (System.get_eq_some h).2).1
  exact Nat.lt_irrefl _ hlt

theorem System.Opening.inConv {socket : KcpSocket κ}
    (h : s.Opening K config socket peer now t) (hK : K.ConvLaws) (hne : conv ≠ 0)
    (hn : KcpSocket.new K rs config conv config.stream now = .ok (.ok socket)) :
    t.InConv K s.arena.length conv := by
  obtain ⟨hc, hw⟩ := (KcpSocket.new_fresh hn).conv rs hK hne
  have hnew : (s.newShared (.new socket config.sessionExpire (some peer)) now).InConv K
      s.arena.length conv :=
    ⟨.new socket config.sessionExpire (some peer), List.getElem?_concat_length, hc, hw⟩
  exact hnew.grows hK h.grows

/-- A datagram that creates the session in the table for its peer opens it, in the
conversation that the datagram counts for. -/
theorem System.Handled.creates (hK : K.ConvLaws)
    (h : s.Handled K rs config packet peer draws now t outcome)
    (hc : t.get peer = some (s.arena.length, session)) :
    ∃ front body, CarriesKcp config packet front body ∧
      t.InConv K s.arena.length (convFor draws body) := by
  cases h with
  | parity hp => exact absurd hc System.get_ne_length
  | tooShort hp hlen => exact absurd hc System.get_ne_length
  | failed hb ho hn => exact absurd hc System.get_ne_length
  | kept hb hg hconv => exact absurd hc System.get_ne_length
  | mismatch hb hg hconv hsn => exact absurd hc System.get_ne_length
  | @opened front body socket hb ho hn hroom =>
    refine ⟨front, body, hb, ?_⟩
    exact (s.opening_opened K config socket peer now).inConv hK (convFor_ne_zero draws body) hn
  | refused hb ho hn hroom =>
    have hl := (System.get_eq_some hc).1
    change (AList.erase peer _).lookup peer = _ at hl
    rw [AList.lookup_erase] at hl
    cases hl

/-- A datagram of the conversation of the peer's session goes to that session, and every other
one does not. -/
theorem System.Handled.repeats_iff (h : s.Handled K rs config packet peer draws now t outcome)
    (hb : CarriesKcp config packet front body) (hl : s.sessions.lookup peer = some n)
    (hs : s.InConv K n conv) :
    s.Repeats t peer n (front ++ withConvFor draws body) outcome ↔ convFor draws body = conv := by
  obtain ⟨session, hsession, rfl, _⟩ := hs
  have hget : s.get peer = some (n, session) := by
    rw [System.get, hl, Option.bind_some, hsession]
    rfl
  have hlt := (List.getElem?_eq_some_iff.mp hsession).1
  have hdropped : ¬s.Repeats t peer n (front ++ withConvFor draws body) none :=
    fun h => nomatch h.forwarded
  cases h with
  | parity hp => exact absurd (hb.not_parity.symm.trans hp) (by decide)
  | tooShort hp hlen =>
    have he := hb.packet.symm.trans hp
    cases he
    exact absurd hb.length (Nat.not_le_of_lt hlen)
  | failed hb' ho hn =>
    have hne := (ho n session hget).2
    rw [hb.unique hb'] at hne
    exact iff_of_false hdropped (Ne.symm hne)
  | refused hb' ho hn hroom =>
    have hne := (ho n session hget).2
    rw [hb.unique hb'] at hne
    exact iff_of_false (fun h => nomatch h.forwarded) (Ne.symm hne)
  | opened hb' ho hn hroom =>
    have hne := (ho n session hget).2
    rw [hb.unique hb'] at hne
    refine iff_of_false (fun h => ?_) (Ne.symm hne)
    have hid := congrArg Prod.fst (Option.some.inj h.forwarded)
    exact absurd hid (Nat.ne_of_gt hlt)
  | kept hb' hg hc =>
    rw [hget] at hg
    cases hg
    cases hb.packet.symm.trans hb'.packet
    exact iff_of_true ⟨hl, rfl, rfl, rfl⟩ hc.symm
  | mismatch hb' hg hc hsn =>
    rw [hget] at hg
    cases hg
    rw [hb.unique hb'] at hc
    exact iff_of_false hdropped (Ne.symm hc)

theorem convFor_eq_iff (draws draws' : RandomDraws) (body : Bytes) :
    convFor draws' body = convFor draws body ↔
      convOf body ≠ 0 ∨ draws'.allocConv = draws.allocConv := by
  rw [convFor, convFor]
  split
  · rename_i hz
    exact ⟨.inr, fun h => h.resolve_left (fun hne => hne hz)⟩
  · rename_i hne
    exact iff_of_true rfl (.inl hne)

/-- A datagram that created a session and comes again while that session is in the table goes
to it, with its conversation, and changes nothing, exactly if it has a conversation or is given
the same one. -/
theorem duplicate_datagram_iff (hW : K.wire.Laws) (hK : K.ConvLaws) (hM : K.AcceptsMtu)
    (hc : config.validate = .ok (.ok ())) {s₀ s₁ s₂ : System κ}
    (hfirst : s₀.Step K rs config (.datagram packet peer draws now) s₁)
    (hcreated : ∃ session, s₁.get peer = some (s₀.arena.length, session))
    (hrun : Run (System.Step K rs config) s₁ trace s₂)
    (hentry : s₂.sessions.lookup peer = some s₀.arena.length)
    (draws' : RandomDraws) (now' : Nat) :
    ∃ front body s₃ outcome, CarriesKcp config packet front body ∧
      s₂.handleDatagram K rs config packet peer draws' now' = .ok (s₃, outcome) ∧
      (s₂.Repeats s₃ peer s₀.arena.length (front ++ withConvFor draws' body) outcome ↔
        convOf body ≠ 0 ∨ draws'.allocConv = draws.allocConv) := by
  obtain ⟨u, outcome, hhandled, rfl⟩ := hfirst.handled hW
  obtain ⟨session, hget⟩ := hcreated
  obtain ⟨front, body, hb, hconv⟩ := hhandled.creates hK hget
  have hconv₁ : System.InConv K { u with forwarding := outcome } s₀.arena.length
      (convFor draws body) := hconv
  have hconv₂ := hconv₁.run hK hW hrun
  have hreturns := (handleDatagram_returns_iff hW hM hc rs s₂ packet peer draws' now').mpr
    ((kcpPacket_returns_iff config packet).mp ⟨_, hb.packet⟩)
  obtain ⟨⟨s₃, outcome'⟩, hsecond⟩ := hreturns
  refine ⟨front, body, s₃, outcome', hb, hsecond, ?_⟩
  rw [(System.handled hW hsecond).repeats_iff hb hentry hconv₂]
  exact convFor_eq_iff draws draws' body

/-- The session of the first copy has taken its data and was accepted when the second comes. -/
theorem duplicate_datagram_iff_small : ∃ s₁ trace s₂,
    System.new.Step smallKcp reedSolomon {}
      (.datagram (segment 5 81 0 [65]) ⟨[10, 0, 0, 1], 4000⟩ ⟨[9], rfl⟩ 0) s₁ ∧
    replay (System.next? smallKcp reedSolomon {}) s₁ [.forward, .ioTask 0 1, .accept] =
      some (trace, s₂) ∧
    ∃ front body s₃ outcome, CarriesKcp {} (segment 5 81 0 [65]) front body ∧
      s₂.handleDatagram smallKcp reedSolomon {} (segment 5 81 0 [65]) ⟨[10, 0, 0, 1], 4000⟩
        ⟨[0, 8], rfl⟩ 2 = .ok (s₃, outcome) ∧
      (s₂.Repeats s₃ ⟨[10, 0, 0, 1], 4000⟩ 0 (front ++ withConvFor ⟨[0, 8], rfl⟩ body) outcome ↔
        convOf body ≠ 0 ∨
          (⟨[0, 8], rfl⟩ : RandomDraws).allocConv = (⟨[9], rfl⟩ : RandomDraws).allocConv) := by
  have hstart : ∃ s₁ trace s₂, System.new.Step smallKcp reedSolomon {}
      (.datagram (segment 5 81 0 [65]) ⟨[10, 0, 0, 1], 4000⟩ ⟨[9], rfl⟩ 0) s₁ ∧
      replay (System.next? smallKcp reedSolomon {}) s₁ [.forward, .ioTask 0 1, .accept] =
        some (trace, s₂) ∧
      (∃ session, s₁.get ⟨[10, 0, 0, 1], 4000⟩ = some (0, session)) ∧
      s₂.sessions.lookup ⟨[10, 0, 0, 1], 4000⟩ = some 0 := ⟨_, _, _, rfl, rfl, ⟨_, rfl⟩, rfl⟩
  obtain ⟨s₁, trace, s₂, hfirst, hreplay, hcreated, hentry⟩ := hstart
  have hrun := run_of_replay
    (fun _ _ _ => System.step_of_next? smallKcp reedSolomon {}) hreplay
  exact ⟨s₁, trace, s₂, hfirst, hreplay, duplicate_datagram_iff smallWire_laws smallKcp_convLaws
    smallKcp_acceptsMtu rfl hfirst hcreated hrun hentry ⟨[0, 8], rfl⟩ 2⟩

/-- A client that asks for a conversation sends its first segment twice. The second copy is
given another conversation, closes the session of the first and makes a second stream. -/
theorem duplicate_replaces_small : ∃ trace s₂ s₃ outcome,
    replay (System.next? smallKcp reedSolomon {}) System.new
      [.datagram (segment 0 81 0 [65]) ⟨[10, 0, 0, 1], 4000⟩ ⟨[9], rfl⟩ 0, .forward] =
        some (trace, s₂) ∧
    s₂.sessions.lookup ⟨[10, 0, 0, 1], 4000⟩ = some 0 ∧
    s₂.handleDatagram smallKcp reedSolomon {} (segment 0 81 0 [65]) ⟨[10, 0, 0, 1], 4000⟩
      ⟨[8], rfl⟩ 1 = .ok (s₃, outcome) ∧
    s₃.sessions.lookup ⟨[10, 0, 0, 1], 4000⟩ = some 1 ∧
    (s₃.arena[0]?).map KcpSession.closed = some true ∧
    s₃.acceptRx = [(0, ⟨[10, 0, 0, 1], 4000⟩), (1, ⟨[10, 0, 0, 1], 4000⟩)] ∧
    ∀ packet, ¬s₂.Repeats s₃ ⟨[10, 0, 0, 1], 4000⟩ 0 packet outcome := by
  refine ⟨_, _, _, _, rfl, rfl, rfl, rfl, rfl, rfl, ?_⟩
  intro packet h
  exact absurd h.entry (by decide)

end TokioKcp
