import TokioKcp.Listener.Notifications
import TokioKcp.Listener.Duplicates

namespace TokioKcp
set_option autoImplicit true

open Checked Fec Transition

variable {κ : Type}

/-- The packet carries the conversation of the session, unless it is a parity packet. -/
def System.Belongs (K : KcpCrate κ) (config : KcpConfig) (s : System κ) (id : Nat)
    (packet : Bytes) : Prop :=
  (config.fec.enabled && isParityPacket packet) = false →
    ∃ front body, CarriesKcp config packet front body ∧ s.InConv K id (convOf body)

/-- Every session is in a conversation for good, and is handed only packets of it. -/
structure System.Conversing (K : KcpCrate κ) (config : KcpConfig) (s : System κ) : Prop where
  conv : ∀ id, id < s.arena.length → ∃ conv, conv ≠ 0 ∧ s.InConv K id conv
  forwarding : ∀ (id : Nat) (packet : Bytes), s.forwarding = some (id, packet) →
    s.Belongs K config id packet

/-- The sessions whose streams an event hands to the accept queue. -/
def System.handsOver (K : KcpCrate κ) (rs : Nat → Nat → Except String ReedSolomon)
    (config : KcpConfig) (s : System κ) : Event → List Nat
  | .datagram packet peer draws now =>
    match s.handleDatagram K rs config packet peer draws now with
    | .ok (t, _) => (t.acceptRx.drop s.acceptRx.length).map Prod.fst
    | .error _ => []
  | _ => []

def handedOver (K : KcpCrate κ) (rs : Nat → Nat → Except String ReedSolomon)
    (config : KcpConfig) (trace : List (System κ × Event)) : List Nat :=
  trace.flatMap fun x => x.1.handsOver K rs config x.2

/-- The streams of the sessions in the table were handed over once each. -/
structure System.HandedOnce (s : System κ) (handed : List Nat) : Prop where
  table : ∀ (peer : SocketAddr) (id : Nat), s.sessions.lookup peer = some id →
    handed.count id = 1
  created : ∀ id ∈ handed, id < s.arena.length

variable {K : KcpCrate κ} {rs : Nat → Nat → Except String ReedSolomon} {config : KcpConfig}
variable {s t : System κ} {packet front body : Bytes} {peer : SocketAddr} {draws : RandomDraws}
variable {conv : UInt32} {now : Nat} {handed : List Nat}

theorem fecFlag_append (body body' : Bytes) (h : fecHeaderSize ≤ front.length) :
    fecFlag (front ++ body') = fecFlag (front ++ body) := by
  have hlen (b : Bytes) : fecHeaderSize ≤ (front ++ b).length := by
    rw [List.length_append]
    exact Nat.le_add_right_of_le h
  have hflag (b : Bytes) : ((front ++ b).drop 4).take 2 = (front.drop 4).take 2 := by
    have h4 : 4 ≤ front.length := Nat.le_trans (by decide) h
    have h2 : 2 ≤ (front.drop 4).length := by
      rw [List.length_drop]
      exact Nat.le_sub_of_add_le h
    rw [List.drop_append_of_le_length h4, List.take_append_of_le_length h2]
  rw [fecFlag, fecFlag, if_pos (hlen body), if_pos (hlen body'), hflag, hflag]

theorem fecFlag_withConv (conv : UInt32) (h : kcpOverhead ≤ packet.length) :
    fecFlag (withConv conv packet) = fecFlag packet := by
  have hdrop : (withConv conv packet).drop 4 = packet.drop 4 :=
    List.drop_left' (LittleEndian.length_encode 4 _)
  rw [fecFlag, fecFlag, length_withConv conv h, hdrop]

theorem CarriesKcp.filled (h : CarriesKcp config packet front body) (draws : RandomDraws) :
    CarriesKcp config (front ++ withConvFor draws body) front (withConvFor draws body) := by
  have hlen : (withConvFor draws body).length = body.length := by
    rw [withConvFor]
    split
    · exact length_withConv _ h.length
    · rfl
  have hlen' : kcpOverhead ≤ (withConvFor draws body).length := by
    rw [hlen]
    exact h.length
  have hp := h.packet
  rw [kcpPacket] at hp
  split at hp
  · rename_i hdata
    cases hm : dataPayloadMut packet with
    | none =>
      rw [hm] at hp
      cases hp
    | some pair =>
      rw [hm] at hp
      cases hp
      rw [dataPayloadMut] at hm
      split at hm
      · rename_i hsize
        cases hm
        have hfront : (packet.take fecHeaderSizePlusSize).length = fecHeaderSizePlusSize := by
          rw [List.length_take, Nat.min_eq_left hsize.2]
        have hflag : fecFlag (packet.take fecHeaderSizePlusSize ++
            withConvFor draws (packet.drop fecHeaderSizePlusSize)) = fecFlag packet := by
          rw [fecFlag_append (packet.drop fecHeaderSizePlusSize) _ (by rw [hfront]; decide),
            List.take_append_drop]
        refine ⟨?_, ?_, hlen'⟩
        · rw [isParityPacket, hflag]
          exact h.not_parity
        · rw [isDataPacket] at hdata hsize
          rw [kcpPacket, isDataPacket, hflag, if_pos hdata, dataPayloadMut, isDataPacket, hflag,
            if_pos ⟨hsize.1, by rw [List.length_append, hfront]; exact Nat.le_add_right _ _⟩,
            List.take_left' hfront, List.drop_left' hfront]
          rfl
      · cases hm
  · rename_i hdata
    cases hp
    have hflag : fecFlag ([] ++ withConvFor draws packet) = fecFlag packet := by
      rw [List.nil_append, withConvFor]
      split
      · exact fecFlag_withConv _ h.length
      · rfl
    refine ⟨?_, ?_, hlen'⟩
    · rw [isParityPacket, hflag]
      exact h.not_parity
    · rw [isDataPacket] at hdata
      rw [kcpPacket, isDataPacket, hflag, if_neg hdata]
      rfl

theorem convOf_withConvFor (draws : RandomDraws) (body : Bytes) :
    convOf (withConvFor draws body) = convFor draws body := by
  rw [withConvFor, convFor]
  split
  · exact convOf_withConv _ _
  · rfl

theorem System.Belongs.grows {id : Nat} (h : s.Belongs K config id packet) (hK : K.ConvLaws)
    (hg : s.Grows K t) : t.Belongs K config id packet := by
  intro hp
  obtain ⟨front, body, hb, hc⟩ := h hp
  exact ⟨front, body, hb, hc.grows hK hg⟩

theorem CarriesKcp.belongs {id : Nat} (h : CarriesKcp config packet front body)
    (draws : RandomDraws) (hc : s.InConv K id (convFor draws body)) :
    s.Belongs K config id (front ++ withConvFor draws body) := by
  intro _
  refine ⟨front, withConvFor draws body, h.filled draws, ?_⟩
  rw [convOf_withConvFor]
  exact hc

theorem System.Handled.belongs {outcome : Option (Nat × Bytes)} {id : Nat} {packet' : Bytes}
    (hK : K.ConvLaws) (hs : s.Conversing K config)
    (h : s.Handled K rs config packet peer draws now t outcome)
    (ho : outcome = some (id, packet')) : t.Belongs K config id packet' := by
  cases h with
  | parity hp =>
    obtain ⟨entry, _, he⟩ := Option.map_eq_some_iff.mp ho
    cases he
    intro hp'
    exact absurd (hp'.symm.trans hp) Bool.false_ne_true
  | tooShort hp hlen => cases ho
  | failed hb hopens hn => cases ho
  | refused hb hopens hn hroom => cases ho
  | mismatch hb hg hc hsn => cases ho
  | opened hb hopens hn hroom =>
    cases ho
    apply hb.belongs draws
    exact (s.opening_opened K config _ peer now).inConv hK (convFor_ne_zero draws _) hn
  | kept hb hg hc =>
    cases ho
    apply hb.belongs draws
    have hsession := (System.get_eq_some hg).2
    obtain ⟨conv, _, session', hs', hconv, hw⟩ :=
      hs.conv _ (List.getElem?_eq_some_iff.mp hsession).1
    rw [hsession] at hs'
    cases hs'
    exact ⟨_, hsession, hc, hw⟩

theorem System.forwarding_dropHandle (s : System κ) (handle : Option Nat) :
    (s.dropHandle handle).forwarding = s.forwarding := by
  cases handle with
  | none => rfl
  | some id => rfl

/-- Only a datagram gives the listener something to hand on. -/
theorem System.Step.forwarding_kept {event : Event} (h : s.Step K rs config event t)
    (hne : ∀ packet peer draws now, event ≠ .datagram packet peer draws now) :
    t.forwarding = none ∨ t.forwarding = s.forwarding := by
  cases event with
  | datagram packet peer draws now => exact absurd rfl (hne packet peer draws now)
  | forward => exact .inl (forward_quiet K (Except.ok.inj h)).2
  | closeNotification =>
    have h : s.closeNotification = some t := Except.ok.inj h
    rw [System.closeNotification] at h
    split at h
    · cases h
      exact .inr (System.forwarding_dropHandle _ _)
    · cases h
  | accept => exact .inr (accept_quiet K (Except.ok.inj h)).2
  | stream id call now => exact .inr (stream_quiet h).2
  | streamDrop id => exact .inr (streamDrop_quiet K (Except.ok.inj h)).2
  | listenerDrop => exact .inr (listenerDrop_quiet K (Except.ok.inj h)).2
  | tick task nowMs => exact .inr (tick_effect (Except.ok.inj h)).1
  | ioTask id now => exact .inr (ioTask_quiet h).2

theorem System.Effect.inConv {event : Event} (h : System.Effect K rs config s event t)
    (hK : K.ConvLaws) (hs : ∀ id, id < s.arena.length → ∃ conv, conv ≠ 0 ∧ s.InConv K id conv)
    (id : Nat) (hid : id < t.arena.length) : ∃ conv, conv ≠ 0 ∧ t.InConv K id conv := by
  have hold (hlt : id < s.arena.length) : ∃ conv, conv ≠ 0 ∧ t.InConv K id conv := by
    obtain ⟨conv, hne, hc⟩ := hs id hlt
    exact ⟨conv, hne, hc.grows hK h.grows⟩
  cases h with
  | quiet h =>
    rw [h.length] at hid
    exact hold hid
  | @opened _ front body _ _ _ _ _ hb ho hn h =>
    rw [h.length] at hid
    rcases Nat.lt_succ_iff_lt_or_eq.mp hid with hlt | rfl
    · exact hold hlt
    · exact ⟨_, convFor_ne_zero _ _, h.inConv hK (convFor_ne_zero _ _) hn⟩
  | finalized h =>
    rw [h.length] at hid
    exact hold hid
  | notified h ht =>
    rw [(notified_frame ht).2.2.2] at hid
    exact hold hid

theorem System.Step.conversing {event : Event} (hW : K.wire.Laws) (hK : K.ConvLaws)
    (hs : s.Conversing K config) (h : s.Step K rs config event t) : t.Conversing K config := by
  have he := System.Step.effect hW h
  refine ⟨he.inConv hK hs.conv, ?_⟩
  intro id packet' hf
  by_cases hd : ∃ packet peer draws now, event = .datagram packet peer draws now
  · obtain ⟨packet, peer, draws, now, rfl⟩ := hd
    obtain ⟨u, outcome, hh, rfl⟩ := h.handled hW
    have hb : u.Belongs K config id packet' := hh.belongs hK hs hf
    exact hb
  · rcases h.forwarding_kept (fun packet peer draws now he => hd ⟨_, _, _, _, he⟩) with hn | hk
    · rw [hn] at hf
      cases hf
    · rw [hk] at hf
      exact (hs.forwarding id packet' hf).grows hK he.grows

theorem System.HandedOnce.mono (h : s.HandedOnce handed) (hl : t.arena.length = s.arena.length)
    (ht : ∀ (peer : SocketAddr) (id : Nat), t.sessions.lookup peer = some id →
      s.sessions.lookup peer = some id) : t.HandedOnce handed where
  table peer id hlookup := h.table peer id (ht peer id hlookup)
  created id hid := by
    rw [hl]
    exact h.created id hid

theorem System.Opening.handedOnce {socket : KcpSocket κ}
    (h : s.Opening K config socket peer now t) (hs : s.HandedOnce handed) :
    t.HandedOnce (handed ++ [s.arena.length]) where
  table p id hl := by
    have hnew : s.arena.length ∉ handed := fun hm => Nat.lt_irrefl _ (hs.created _ hm)
    rw [List.count_append]
    rcases h.sessions p id hl with ⟨_, rfl⟩ | hold
    · rw [List.count_eq_zero.mpr hnew, List.count_singleton_self]
    · have hone := hs.table p id hold
      have hlt := hs.created id (List.count_pos_iff.mp (by rw [hone]; exact Nat.one_pos))
      rw [hone, List.count_eq_zero.mpr]
      intro hm
      rw [List.mem_singleton.mp hm] at hlt
      exact Nat.lt_irrefl _ hlt
  created id hid := by
    rw [h.length]
    rcases List.mem_append.mp hid with hm | hm
    · exact Nat.lt_succ_of_lt (hs.created id hm)
    · rw [List.mem_singleton.mp hm]
      exact Nat.lt_succ_self _

theorem System.Opening.refused {socket : KcpSocket κ}
    (h : s.Opening K config socket peer now t) (hs : s.HandedOnce handed) :
    (t.closePeer peer).HandedOnce handed where
  table p id hl := by
    change (t.sessions.erase peer).lookup p = _ at hl
    rw [FinMap.lookup_erase_of] at hl
    split at hl
    · cases hl
    · rename_i hne
      rcases h.sessions p id hl with ⟨he, _⟩ | hold
      · exact absurd he hne
      · exact hs.table p id hold
  created id hid := by
    have hl := t.length_dropHandle (t.sessions.lookup peer)
    change id < (t.dropHandle (t.sessions.lookup peer)).arena.length
    rw [hl, h.length]
    exact Nat.lt_succ_of_lt (hs.created id hid)

theorem System.Handled.handedOnce {outcome : Option (Nat × Bytes)}
    (h : s.Handled K rs config packet peer draws now t outcome) (hs : s.HandedOnce handed) :
    t.HandedOnce (handed ++ (t.acceptRx.drop s.acceptRx.length).map Prod.fst) := by
  have hsame (u : System κ) (hu : u.acceptRx = s.acceptRx) (h : u.HandedOnce handed) :
      u.HandedOnce (handed ++ (u.acceptRx.drop s.acceptRx.length).map Prod.fst) := by
    rw [hu, List.drop_length, List.map_nil, List.append_nil]
    exact h
  cases h with
  | parity hp => exact hsame s rfl hs
  | tooShort hp hlen => exact hsame s rfl hs
  | failed hb ho hn => exact hsame s rfl hs
  | kept hb hg hc => exact hsame s rfl hs
  | mismatch hb hg hc hsn => exact hsame s rfl hs
  | @opened _ _ socket hb ho hn hroom =>
    have h := s.opening_opened K config socket peer now
    have hopening : s.Opening K config socket peer now
        { s.opened config socket peer now with
          acceptRx := s.acceptRx ++ [(s.arena.length, peer)] } :=
      ⟨h.grows, h.length, h.sessions, h.closeRx, h.tasks⟩
    rw [List.drop_left]
    exact hopening.handedOnce hs
  | @refused _ _ socket hb ho hn hroom =>
    have h := (s.opening_opened K config socket peer now).modify s.arena.length
    refine hsame _ ?_ (h.refused hs)
    exact (System.frame_dropHandle _ _).2.2.2.trans (s.accept_opened socket peer now).1

theorem System.Step.handedOnce {event : Event} (hW : K.wire.Laws)
    (h : s.Step K rs config event t) (hs : s.HandedOnce handed) :
    t.HandedOnce (handed ++ s.handsOver K rs config event) := by
  by_cases hd : ∃ packet peer draws now, event = .datagram packet peer draws now
  · obtain ⟨packet, peer, draws, now, rfl⟩ := hd
    rw [System.Step, System.next] at h
    split at h
    · cases h
    · obtain ⟨⟨u, outcome⟩, hu, h⟩ := bind_eq_ok.mp h
      cases h
      have hout := (System.handled hW hu).handedOnce hs
      rw [System.handsOver, hu]
      exact ⟨hout.table, hout.created⟩
  · have hnone : s.handsOver K rs config event = [] := by
      cases event with
      | datagram packet peer draws now => exact absurd ⟨packet, peer, draws, now, rfl⟩ hd
      | _ => rfl
    rw [hnone, List.append_nil]
    cases System.Step.effect hW h with
    | quiet h =>
      refine hs.mono h.length ?_
      rw [h.sessions]
      exact fun _ _ h => h
    | opened hb ho hn h => exact absurd ⟨_, _, _, _, rfl⟩ hd
    | finalized h =>
      refine hs.mono h.length ?_
      rw [h.sessions]
      exact fun _ _ h => h
    | notified h ht =>
      obtain ⟨hm, _, _, hl⟩ := notified_frame ht
      refine hs.mono hl fun p id hlookup => ?_
      rw [hm, FinMap.lookup_erase_of] at hlookup
      split at hlookup
      · cases hlookup
      · exact hlookup

theorem System.HandedOnce.run {trace : List (System κ × Event)} (hW : K.wire.Laws)
    (hs : s.HandedOnce handed) (hrun : Run (System.Step K rs config) s trace t) :
    t.HandedOnce (handed ++ handedOver K rs config trace) := by
  induction hrun generalizing handed with
  | nil => exact (List.append_nil handed).symm ▸ hs
  | cons hstep _ ih =>
    rw [handedOver, List.flatMap_cons, ← List.append_assoc]
    exact ih (System.Step.handedOnce hW hstep hs)

theorem System.new_conversing (K : KcpCrate κ) (config : KcpConfig) :
    System.new.Conversing K config where
  conv _ h := absurd h (Nat.not_lt_zero _)
  forwarding _ _ h := nomatch h

theorem System.new_handedOnce : (System.new : System κ).HandedOnce [] where
  table peer id h := by
    change (∅ : FinMap SocketAddr Nat).lookup peer = _ at h
    rw [AList.lookup_empty] at h
    cases h
  created _ h := absurd h List.not_mem_nil

/-- A datagram whose session cannot be made changes nothing. -/
theorem System.Step.failed {err : KcpError} (hW : K.wire.Laws)
    (hb : CarriesKcp config packet front body)
    (ho : s.Opens K peer (convFor draws body) (snOf body))
    (hn : KcpSocket.new K rs config (convFor draws body) config.stream now = .ok (.error err))
    (h : s.Step K rs config (.datagram packet peer draws now) t) : t = s := by
  have hidle : s.forwarding = none := by
    rw [System.Step, System.next] at h
    split at h
    · cases h
    · assumption
  have hsame : t = { s with forwarding := none } := by
    obtain ⟨u, outcome, hh, rfl⟩ := h.handled hW
    cases hh with
    | parity hp => exact absurd (hb.not_parity.symm.trans hp) Bool.false_ne_true
    | tooShort hp hlen => rfl
    | failed => rfl
    | opened hb' ho' hn' hroom =>
      rw [hb.unique hb', hn] at hn'
      cases hn'
    | refused hb' ho' hn' hroom =>
      rw [hb.unique hb', hn] at hn'
      cases hn'
    | kept hb' hg hc =>
      rw [hb.unique hb'] at hc
      exact absurd hc (ho _ _ hg).2
    | mismatch hb' hg hc hsn => rfl
  rw [hsame, ← hidle]

/-- In every run of the listener, its table has one session for a peer, with a conversation that
stays and with one stream handed over; packets go to the session of their conversation; and a
session that cannot be made leaves the table as it is. -/
theorem listener_dispatch {trace later : List (System κ × Event)} (hW : K.wire.Laws)
    (hK : K.ConvLaws) (hrun : Run (System.Step K rs config) System.new trace s)
    (hlater : Run (System.Step K rs config) s later t) :
    s.sessions.keys.Nodup ∧
    (∀ (peer : SocketAddr) (id : Nat), s.sessions.lookup peer = some id →
      s.peerOf id = some peer ∧ (handedOver K rs config trace).count id = 1 ∧
      ∃ conv, conv ≠ 0 ∧ s.InConv K id conv ∧ t.InConv K id conv) ∧
    (∀ (id : Nat) (packet : Bytes), s.forwarding = some (id, packet) →
      (config.fec.enabled && isParityPacket packet) = false →
      ∃ front body, CarriesKcp config packet front body ∧ s.InConv K id (convOf body)) ∧
    (∀ packet peer draws now front body err u, CarriesKcp config packet front body →
      s.Opens K peer (convFor draws body) (snOf body) →
      KcpSocket.new K rs config (convFor draws body) config.stream now = .ok (.error err) →
      s.Step K rs config (.datagram packet peer draws now) u → u = s) := by
  have hconv := (hrun.invariant (P := fun s => s.Conversing K config)
    (fun _ _ _ hs h => System.Step.conversing hW hK hs h) (System.new_conversing K config)).2
  have haccounted := (hrun.invariant (P := System.Accounted)
    (fun _ _ _ hs h => (System.Step.effect hW h).accounted hs) System.new_accounted).2
  have hhanded := System.new_handedOnce.run hW hrun
  rw [List.nil_append] at hhanded
  refine ⟨s.sessions.nodupKeys, ?_, hconv.forwarding, ?_⟩
  · intro peer id hlookup
    have hpeer := (haccounted.table peer id hlookup).1
    obtain ⟨session, hsession, _⟩ := Option.bind_eq_some_iff.mp hpeer
    obtain ⟨conv, hne, hc⟩ := hconv.conv id (List.getElem?_eq_some_iff.mp hsession).1
    exact ⟨hpeer, hhanded.table peer id hlookup, conv, hne, hc, hc.run hK hW hlater⟩
  · intro packet peer draws now front body err u hb ho hn hstep
    exact hstep.failed hW hb ho hn

/-- The small KCP, with a conversation in which every update fails. -/
def failingKcp : KcpCrate SmallKcp :=
  { smallKcp with
    update := fun k _ => if k.conv = 13 then (k, .error .needUpdate) else (k, .ok ()) }

theorem failingKcp_convLaws : failingKcp.ConvLaws :=
  { smallKcp_convLaws with
    update := by
      intro k now hk
      dsimp only [failingKcp]
      split
      · exact ⟨rfl, hk⟩
      · exact ⟨rfl, hk⟩ }

/-- A client that asks for a conversation is given one, and sends a second segment in it. A first
segment of another conversation, for which no session can be made, leaves it there. -/
theorem listener_dispatch_small : ∃ trace s later t,
    replay (System.next? failingKcp reedSolomon {}) System.new
      [.datagram (segment 0 81 0 [65]) ⟨[10, 0, 0, 1], 4000⟩ ⟨[9], rfl⟩ 0, .forward, .accept,
        .datagram (segment 9 81 1 [66]) ⟨[10, 0, 0, 1], 4000⟩ ⟨[8], rfl⟩ 1] = some (trace, s) ∧
    replay (System.next? failingKcp reedSolomon {}) s [.forward, .ioTask 0 2] = some (later, t) ∧
    s.peerOf 0 = some ⟨[10, 0, 0, 1], 4000⟩ ∧
    (handedOver failingKcp reedSolomon {} trace).count 0 = 1 ∧
    (∃ conv, conv ≠ 0 ∧ s.InConv failingKcp 0 conv ∧ t.InConv failingKcp 0 conv) ∧
    (∃ front body, CarriesKcp {} (segment 9 81 1 [66]) front body ∧
      s.InConv failingKcp 0 (convOf body)) ∧
    t.sessions.lookup ⟨[10, 0, 0, 1], 4000⟩ = some 0 ∧
    ∃ u, t.Step failingKcp reedSolomon {}
      (.datagram (segment 13 81 0 [67]) ⟨[10, 0, 0, 1], 4000⟩ ⟨[8], rfl⟩ 3) u ∧ u = t := by
  have hreplay : ∃ trace s, replay (System.next? failingKcp reedSolomon {}) System.new
      [.datagram (segment 0 81 0 [65]) ⟨[10, 0, 0, 1], 4000⟩ ⟨[9], rfl⟩ 0, .forward, .accept,
        .datagram (segment 9 81 1 [66]) ⟨[10, 0, 0, 1], 4000⟩ ⟨[8], rfl⟩ 1] = some (trace, s) ∧
      s.sessions.lookup ⟨[10, 0, 0, 1], 4000⟩ = some 0 ∧
      s.forwarding = some (0, segment 9 81 1 [66]) ∧
      ∃ later t, replay (System.next? failingKcp reedSolomon {}) s [.forward, .ioTask 0 2] =
        some (later, t) ∧ t.sessions.lookup ⟨[10, 0, 0, 1], 4000⟩ = some 0 ∧
        (∃ session, t.get ⟨[10, 0, 0, 1], 4000⟩ = some (0, session) ∧
          session.socket.conv failingKcp = 9) ∧
        ∃ u, t.Step failingKcp reedSolomon {}
          (.datagram (segment 13 81 0 [67]) ⟨[10, 0, 0, 1], 4000⟩ ⟨[8], rfl⟩ 3) u :=
    ⟨_, _, rfl, rfl, rfl, _, _, rfl, rfl, ⟨_, rfl, rfl⟩, _, rfl⟩
  obtain ⟨trace, s, hfirst, hlookup, hforwarding, later, t, hlater, hentry, hget, u, hstep⟩ :=
    hreplay
  have hrun := run_of_replay
    (fun _ _ _ => System.step_of_next? failingKcp reedSolomon {}) hfirst
  have hrest := run_of_replay
    (fun _ _ _ => System.step_of_next? failingKcp reedSolomon {}) hlater
  obtain ⟨_, htable, hforwards, _⟩ :=
    listener_dispatch smallWire_laws failingKcp_convLaws hrun hrest
  obtain ⟨_, _, _, hfailed⟩ :=
    listener_dispatch smallWire_laws failingKcp_convLaws (hrun.append hrest) .nil
  obtain ⟨hpeer, hcount, hconv⟩ := htable _ 0 hlookup
  have hopens : t.Opens failingKcp ⟨[10, 0, 0, 1], 4000⟩
      (convFor ⟨[8], rfl⟩ (segment 13 81 0 [67])) (snOf (segment 13 81 0 [67])) := by
    obtain ⟨session, hget, hnine⟩ := hget
    intro id session' hget'
    cases hget.symm.trans hget'
    rw [hnine]
    exact ⟨by decide, by decide⟩
  have hcarries : CarriesKcp {} (segment 13 81 0 [67]) [] (segment 13 81 0 [67]) :=
    ⟨rfl, rfl, by decide⟩
  exact ⟨trace, s, later, t, hfirst, hlater, hpeer, hcount, hconv, hforwards 0 _ hforwarding rfl,
    hentry, u, hstep, hfailed _ _ _ _ _ _ .needUpdate u hcarries hopens rfl hstep⟩

end TokioKcp
