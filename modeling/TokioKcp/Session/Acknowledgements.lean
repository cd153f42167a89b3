import TokioKcp.Session.Expiry
import TokioKcp.Socket.Calls
import TokioKcp.Socket.Payloads

namespace TokioKcp
set_option autoImplicit true

open Checked Fec Transition

/-- The acknowledgements that a control block has handed to its output, and those it owes. -/
structure Acks (α : Type) where
  handed : List α
  owed : List α

/-- What was handed over stays so, and what was owed is handed over or still owed. -/
structure Acks.Grows (a b : Acks α) : Prop where
  handed : a.handed ⊆ b.handed
  owed : a.owed ⊆ b.handed ++ b.owed

def Acks.HandedIn (a b : Acks α) : Prop := a.handed ++ a.owed ⊆ b.handed

variable {κ α : Type} (K : KcpCrate κ)

/-- `input` may add owed acknowledgements, and `flush`, `flushAck` and the flush that is `due` in
`update` hand over all that are owed, unless they fail. -/
structure KcpCrate.Acknowledges (acks : κ → Acks α) (due : κ → UInt32 → Bool) : Prop where
  input : ∀ k buf, (acks (K.input k buf).1).handed = (acks k).handed ∧
    (acks k).owed ⊆ (acks (K.input k buf).1).owed
  send : ∀ k buf, acks (K.send k buf).1 = acks k
  recv : ∀ k len, acks (K.recv k len).1 = acks k
  setConv : ∀ k conv, acks (K.setConv k conv) = acks k
  flush : ∀ k, (acks k).Grows (acks (K.flush k).1) ∧
    ((K.flush k).2 = .ok () → (acks (K.flush k).1).owed = [])
  flushAck : ∀ k, (acks k).Grows (acks (K.flushAck k).1) ∧
    ((K.flushAck k).2 = .ok () → (acks (K.flushAck k).1).owed = [])
  update : ∀ k now, (acks k).Grows (acks (K.update k now).1) ∧
    (due k now = true → (K.update k now).2 = .ok () → (acks (K.update k now).1).owed = [])

/-- The last payload that KCP is given is accepted, and the acknowledgements are flushed. -/
def KcpCrate.AcceptsLast (k : κ) (bufs : List Bytes) : Prop :=
  ∃ initial last, bufs = initial ++ [last] ∧ K.refuses true k initial = false ∧
    ∃ l, K.judge true (K.takes true k initial) last = (l, .accepted)

/-- The datagram that a socket is given in an event, with the socket that is given it. -/
def KcpSession.receiving (s : KcpSession κ) : SessionEvent → Option (KcpSocket κ × Bytes × Nat)
  | .call (.input buf) now => some (s.socket, buf, now)
  | .runIoTask now => if s.ioTask then s.inputRx.head?.map (s.socket, ·, now) else none
  | .recv (.ok buf) now =>
    if s.ioTask && s.sessionCloseNotifier.isNone &&
        (isParityPacket buf || (namedConv buf).isSome) then
      some (s.socket.movedTo K (namedConv buf), buf, now)
    else
      none
  | _ => none

/-- The events in which the acknowledgements that KCP owes are handed to the output: a flush, a
send that flushes, an update that is due, by itself or in a tick that gets to it, and a datagram
whose last payload is accepted while acknowledgements are flushed at input. -/
inductive KcpSession.Flushes (due : κ → UInt32 → Bool) (s : KcpSession κ) :
    SessionEvent → Prop where
  | flush : (K.flush s.socket.kcp).2 = .ok () → Flushes due s (.call .flush now)
  | pollSend : (s.socket.pollSend K waker buf now).2 = .ready (.ok n) →
      (s.socket.flushWrite = true ∨
        K.windowFull (K.send s.socket.kcp (buf.take (s.socket.maxSendLen K))).1 = true) →
      Flushes due s (.call (.pollSend waker buf) now)
  | update : due s.socket.kcp (.ofNat nowMs) = true →
      (K.update s.socket.kcp (.ofNat nowMs)).2 = .ok () → Flushes due s (.call .updateAt nowMs)
  | tick : ¬(s.closed = true ∧ s.socket.canClose K = true) → ¬s.Expired nowMs →
      due s.socket.kcp (.ofNat nowMs) = true →
      (K.update s.socket.kcp (.ofNat nowMs)).2 = .ok () → Flushes due s (.tick nowMs)
  | datagram : s.receiving K event = some (u, buf, now) → u.flushAckInput = true →
      K.AcceptsLast u.kcp (u.offered buf) → Flushes due s event

variable {K} {acks : κ → Acks α} {due : κ → UInt32 → Bool} {s t : KcpSession κ}
variable {a b c : Acks α} {k l : κ} {buf : Bytes} {bufs : List Bytes} {flushAck : Bool}

theorem Acks.Grows.refl (a : Acks α) : a.Grows a :=
  ⟨List.Subset.refl _, List.subset_append_right _ _⟩

theorem Acks.Grows.trans (h : a.Grows b) (h' : b.Grows c) : a.Grows c where
  handed := List.Subset.trans h.handed h'.handed
  owed := by
    apply List.Subset.trans h.owed
    apply List.append_subset.mpr
    exact ⟨List.Subset.trans h'.handed (List.subset_append_left _ _), h'.owed⟩

theorem Acks.Grows.of_eq (h : b = a) : a.Grows b := by
  rw [h]
  exact .refl a

theorem Acks.Grows.handedIn (h : a.Grows b) (hb : b.owed = []) (h' : b.Grows c) :
    a.HandedIn c := by
  have howed := h.owed
  rw [hb, List.append_nil] at howed
  exact List.append_subset.mpr
    ⟨List.Subset.trans h.handed h'.handed, List.Subset.trans howed h'.handed⟩

theorem KcpCrate.Acknowledges.input_grows (hK : K.Acknowledges acks due) (k : κ) (buf : Bytes) :
    (acks k).Grows (acks (K.input k buf).1) := by
  obtain ⟨hh, ho⟩ := hK.input k buf
  refine ⟨?_, List.Subset.trans ho (List.subset_append_right _ _)⟩
  rw [hh]
  exact List.Subset.refl _

theorem KcpCrate.Driven.acks_grow (hK : K.Acknowledges acks due) (h : K.Driven receive k l) :
    (acks k).Grows (acks l) := by
  induction h with
  | refl => exact .refl _
  | update _ ih => exact ih.trans (hK.update _ _).1
  | send _ ih => exact ih.trans (.of_eq (hK.send _ _))
  | flush _ ih => exact ih.trans (hK.flush _).1
  | flushAck _ ih => exact ih.trans (hK.flushAck _).1
  | input _ _ ih => exact ih.trans (hK.input_grows _ _)
  | recv _ _ ih => exact ih.trans (.of_eq (hK.recv _ _))

theorem KcpSocket.movedTo_acks (hK : K.Acknowledges acks due) (s : KcpSocket κ)
    (inputConv : Option UInt32) : acks (s.movedTo K inputConv).kcp = acks s.kcp := by
  cases inputConv with
  | none => rfl
  | some conv =>
    rw [KcpSocket.movedTo]
    split
    · exact hK.setConv _ _
    · rfl

theorem KcpSession.recv_cases (h : s.recv K recvResult now = .ok t) : t.socket = s.socket ∨
    ∃ inputConv buf result,
      (s.socket.movedTo K inputConv).input K buf now = .ok (t.socket, result) := by
  cases recvResult with
  | error err =>
    rw [KcpSession.recv] at h
    split at h
    · cases h
      exact .inl rfl
    · cases h
      exact .inl rfl
  | ok buf =>
    rw [KcpSession.recv] at h
    split at h
    · rcases recvDatagram_cases h with rfl | ⟨inputConv, socket, result, hinput, rfl⟩
      · exact .inl rfl
      · exact .inr ⟨inputConv, buf, result, hinput⟩
    · cases h
      exact .inl rfl

theorem KcpSession.Step.acks_grow (hK : K.Acknowledges acks due) (h : s.Step K event t) :
    (acks s.socket.kcp).Grows (acks t.socket.kcp) := by
  cases event with
  | call call now =>
    obtain ⟨socket, hcall, rfl⟩ := h
    exact (KcpSocket.Step.moves (c := (call, now)) hcall).kcp.acks_grow hK
  | close =>
    cases h
    exact .refl _
  | input buf =>
    change s.input buf = _ at h
    rw [KcpSession.input] at h
    split at h
    · cases h
    · split at h
      · cases h
        exact .refl _
      · cases h
  | runIoTask now => exact (KcpSession.runIoTask_evolves h).socket.kcp.acks_grow hK
  | recv recvResult now =>
    rcases KcpSession.recv_cases h with hsame | ⟨inputConv, buf, result, hinput⟩
    · rw [hsame]
      exact .refl _
    · have hmoved := KcpSocket.movedTo_acks hK s.socket inputConv
      exact (Acks.Grows.of_eq hmoved).trans ((KcpSocket.input_moves hinput).kcp.acks_grow hK)
  | tick nowMs =>
    cases h
    exact (s.pollSchedulerTick_evolves K nowMs).socket.kcp.acks_grow hK

theorem KcpCrate.Acknowledges.accepted_owed (hK : K.Acknowledges acks due)
    (h : K.judge true k buf = (l, .accepted)) : (acks l).owed = [] := by
  rw [KcpCrate.judge] at h
  split at h
  · cases h
  · cases h
  · rename_i k' _ _
    rw [if_pos rfl] at h
    rcases hf : K.flushAck k' with ⟨l', err | _⟩
    · rw [hf] at h
      cases h
    · have howed := (hK.flushAck k').2
      rw [hf] at h howed
      cases h
      exact howed rfl

theorem KcpCrate.AcceptsLast.owed (hK : K.Acknowledges acks due) (h : K.AcceptsLast k bufs) :
    (acks (K.takes true k bufs)).owed = [] := by
  obtain ⟨initial, last, rfl, hinitial, l, hlast⟩ := h
  have htakes : K.takes true (K.takes true k initial) [last] = l := by
    rw [KcpCrate.takes, hlast]
    rfl
  rw [KcpCrate.takes_append hinitial, htakes]
  exact hK.accepted_owed hlast

def KcpCrate.JustFlushed (K : KcpCrate κ) (k : κ) : Prop :=
  ∃ l, (K.flush l).2 = .ok () ∧ k = (K.flush l).1

theorem KcpSocket.flushIf_flushed {u v : KcpSocket κ} {condition : Bool}
    (h : u.flushIf K condition = (v, .ok ()))
    (hu : condition = true ∨ K.JustFlushed u.kcp) : K.JustFlushed v.kcp := by
  rw [KcpSocket.flushIf] at h
  split at h
  · have hok : (K.flush u.kcp).2 = .ok () := congrArg Prod.snd h
    have hkcp : (K.flush u.kcp).1 = v.kcp := congrArg (fun x => x.1.kcp) h
    exact ⟨u.kcp, hok, hkcp.symm⟩
  · rename_i hc
    cases h
    exact hu.resolve_left hc

theorem KcpSocket.sent_flushed {u : KcpSocket κ} (h : (u.sent K n now).2 = .ok m)
    (hu : u.flushWrite = true ∨ K.windowFull u.kcp = true) :
    K.JustFlushed (u.sent K n now).1.kcp := by
  have hmoves := flushIf_moves K { u with sentFirst := true } (K.windowFull u.kcp)
  rw [KcpSocket.sent] at h ⊢
  dsimp only at h ⊢
  rcases hfull : { u with sentFirst := true }.flushIf K (K.windowFull u.kcp) with ⟨v, err | _⟩
  · rw [hfull] at h
    cases h
  · rw [hfull] at h hmoves ⊢
    dsimp only at h ⊢
    rcases hwrite : { v with lastUpdateMs := now }.flushIf K v.flushWrite with ⟨w, err | _⟩
    · rw [hwrite] at h
      cases h
    · rw [hwrite]
      apply flushIf_flushed hwrite
      rcases hu with hwrites | hisfull
      · have hkeep : v.flushWrite = u.flushWrite := congrArg (fun x => x.2.1) hmoves.settings
        exact .inl (hkeep.trans hwrites)
      · have hflushed : K.JustFlushed v.kcp := flushIf_flushed hfull (.inl hisfull)
        exact .inr hflushed

theorem KcpSocket.pollSend_flushed {u : KcpSocket κ}
    (h : (u.pollSend K waker buf now).2 = .ready (.ok n))
    (hu : u.flushWrite = true ∨
      K.windowFull (K.send u.kcp (buf.take (u.maxSendLen K))).1 = true) :
    K.JustFlushed (u.pollSend K waker buf now).1.kcp := by
  rw [KcpSocket.pollSend] at h ⊢
  split at h
  · cases h
  · rename_i hopen
    rw [if_neg hopen]
    split at h
    · cases h
    · rename_i hfree
      rw [if_neg hfree]
      rcases hs : K.send u.kcp (buf.take (u.maxSendLen K)) with ⟨k, err | m⟩
      · rw [hs] at h
        cases h
      · rw [hs] at h hu
        exact sent_flushed (u := { u with kcp := k }) (Poll.ready.inj h) hu

/-- A datagram that a session receives goes to the socket that it is meant for. -/
theorem KcpSession.Step.receives {u : KcpSocket κ} (hW : K.wire.Laws) (h : s.Step K event t)
    (hu : s.receiving K event = some (u, buf, now)) :
    ∃ result, u.input K buf now = .ok (t.socket, result) := by
  cases event with
  | call call now' =>
    cases call with
    | input buf' =>
      cases hu
      obtain ⟨socket, hcall, rfl⟩ := h
      obtain ⟨⟨socket', result⟩, hinput, he⟩ := bind_eq_ok.mp hcall
      cases he
      exact ⟨result, hinput⟩
    | _ => cases hu
  | runIoTask now' =>
    change s.runIoTask K now' = _ at h
    rw [KcpSession.receiving] at hu
    rw [KcpSession.runIoTask] at h
    cases htask : s.ioTask with
    | false =>
      rw [htask] at hu
      cases hu
    | true =>
      cases hrx : s.inputRx with
      | nil =>
        rw [htask, hrx] at hu
        cases hu
      | cons next rest =>
        rw [htask, hrx] at hu h
        cases hu
        obtain ⟨⟨socket, result⟩, hinput, he⟩ := bind_eq_ok.mp h
        cases he
        exact ⟨result, hinput⟩
  | recv recvResult now' =>
    cases recvResult with
    | error err => cases hu
    | ok buf' =>
      rw [KcpSession.receiving] at hu
      split at hu
      · rename_i hnamed
        cases hu
        rw [Bool.and_eq_true] at hnamed
        change s.recv K (.ok buf) now = _ at h
        rw [KcpSession.recv, if_pos hnamed.1] at h
        rw [KcpSession.recvDatagram_eq hW, if_pos hnamed.2] at h
        obtain ⟨socket, result, hinput, rfl⟩ := inputDatagram_socket h
        exact ⟨result, hinput⟩
      · cases hu
  | _ => cases hu

theorem KcpSession.pollSchedulerTick_update
    (hopen : ¬(s.closed = true ∧ s.socket.canClose K = true)) (hactive : ¬s.Expired nowMs)
    (hok : (K.update s.socket.kcp (.ofNat nowMs)).2 = .ok ()) :
    (s.pollSchedulerTick K nowMs).1.socket.kcp = (K.update s.socket.kcp (.ofNat nowMs)).1 := by
  have hdrive : s.driveUpdate K nowMs =
      (s.closeInactive (nowMs - s.socket.lastUpdateMs)).update K nowMs := by
    rw [KcpSession.driveUpdate, if_neg (fun h => hopen (Bool.and_eq_true_iff.mp h))]
    exact if_neg (fun h => hactive ⟨h.1, h.2.2⟩)
  have hkcp := KcpSocket.updateAt_kcp K s.socket nowMs
  rw [KcpSession.pollSchedulerTick, hdrive, KcpSession.update, closeInactive_socket]
  rw [KcpSocket.updateAt] at hkcp ⊢
  rcases hupdate : K.update s.socket.kcp (.ofNat nowMs) with ⟨kcp, err | _⟩
  · rw [hupdate] at hok
    cases hok
  · rw [hupdate] at hkcp
    exact hkcp

/-- After an event that flushes, nothing is owed. -/
theorem KcpSession.Step.flushes (hW : K.wire.Laws) (hK : K.Acknowledges acks due)
    (h : s.Step K event t) (hf : s.Flushes K due event) : (acks t.socket.kcp).owed = [] := by
  cases hf with
  | flush hok =>
    obtain ⟨socket, hcall, rfl⟩ := h
    cases hcall
    rw [KcpSocket.flush_kcp]
    exact (hK.flush _).2 hok
  | pollSend hsent hflushes =>
    obtain ⟨socket, hcall, rfl⟩ := h
    cases hcall
    obtain ⟨l, hok, hl⟩ := KcpSocket.pollSend_flushed hsent hflushes
    rw [hl]
    exact (hK.flush l).2 hok
  | update hdue hok =>
    obtain ⟨socket, hcall, rfl⟩ := h
    cases hcall
    rw [KcpSocket.updateAt_kcp]
    exact (hK.update _ _).2 hdue hok
  | tick hopen hactive hdue hok =>
    cases h
    rw [KcpSession.pollSchedulerTick_update hopen hactive hok]
    exact (hK.update _ _).2 hdue hok
  | datagram hu hflush hlast =>
    obtain ⟨result, hinput⟩ := h.receives hW hu
    rw [KcpSocket.input_kcp hinput, hflush]
    exact hlast.owed hK

theorem KcpSession.pollSchedulerTick_closing (hclosed : s.closed = true)
    (hcan : s.socket.canClose K = true) (nowMs : Nat) :
    s.pollSchedulerTick K nowMs = (s.finalize.1, none, s.sessionCloseNotifier) := by
  have hdrive : s.driveUpdate K nowMs = (s, none) :=
    if_pos (Bool.and_eq_true_iff.mpr ⟨hclosed, hcan⟩)
  rw [KcpSession.pollSchedulerTick, hdrive]
  rfl

/-- The tick that finalizes a closed session hands nothing over and gives up what is owed. What
was owed before an event that flushes, and what came to be owed in it, has been handed over. -/
theorem graceful_close {trace : List (KcpSession κ × SessionEvent)} (hW : K.wire.Laws)
    (hK : K.Acknowledges acks due)
    (hrun : Run (KcpSession.Step K) (.new socket sessionExpire sessionCloseNotifier) trace s)
    (hclosed : s.closed = true) (hcan : s.socket.canClose K = true) (nowMs : Nat) :
    ∃ t, s.pollSchedulerTick K nowMs = (t, none, s.sessionCloseNotifier) ∧ t.Finalized ∧
      acks t.socket.kcp = acks s.socket.kcp ∧
      ∀ before x event after, trace = before ++ (x, event) :: after → x.Flushes K due event →
        (∀ w ∈ before ++ [(x, event)],
          (acks w.1.socket.kcp).HandedIn (acks s.socket.kcp)) ∧
        ∃ y, x.Step K event y ∧ Run (KcpSession.Step K) y after s ∧
          (acks y.socket.kcp).owed = [] ∧
          (acks y.socket.kcp).HandedIn (acks s.socket.kcp) := by
  refine ⟨s.finalize.1, KcpSession.pollSchedulerTick_closing hclosed hcan nowMs,
    ⟨rfl, rfl, rfl, rfl⟩, rfl, ?_⟩
  rintro before x event after rfl hflushes
  have hgrow {u v : KcpSession κ} {steps : List (KcpSession κ × SessionEvent)}
      (h : Run (KcpSession.Step K) u steps v) :=
    h.relates (R := fun u v => (acks u.socket.kcp).Grows (acks v.socket.kcp))
      (fun _ => .refl _) (fun _ _ _ => .trans) (fun _ _ _ hstep => hstep.acks_grow hK)
  obtain ⟨_, hbefore, hrest⟩ := hrun.split
  cases hrest with
  | @cons _ _ y _ _ hstep hafter =>
    have howed := hstep.flushes hW hK hflushes
    have hlater := (hgrow hafter).1
    refine ⟨?_, y, hstep, hafter, howed, (Acks.Grows.refl _).handedIn howed hlater⟩
    intro w hw
    rcases List.mem_append.mp hw with hw | hw
    · exact (((hgrow hbefore).2 w hw).trans (hstep.acks_grow hK)).handedIn howed hlater
    · rw [List.mem_singleton.mp hw]
      exact (hstep.acks_grow hK).handedIn howed hlater

/-- The numbers of the segments that came in between two states. -/
def SmallKcp.taken (before after : SmallKcp) : List UInt32 :=
  (List.range (after.rcvNxt - before.rcvNxt).toNat).map fun i => before.rcvNxt + .ofNat i

def Acks.flush (a : Acks α) : Acks α := ⟨a.handed ++ a.owed, []⟩

/-- The crate on unfragmented segments in order, with an acknowledgement of each. -/
def smallAcker : KcpCrate (SmallKcp × Acks UInt32) :=
  smallKcp.beside ⟨[], []⟩
    (fun k buf acks => { acks with owed := acks.owed ++ k.taken (k.input buf).1 }) Acks.flush

theorem Acks.flush_grows (a : Acks α) : a.Grows a.flush := by
  refine ⟨List.subset_append_left _ _, ?_⟩
  rw [Acks.flush, List.append_nil]
  exact List.subset_append_right _ _

theorem smallAcker_acknowledges : smallAcker.Acknowledges Prod.snd (fun _ _ => true) where
  input _ _ := ⟨rfl, List.subset_append_left _ _⟩
  send _ _ := rfl
  recv _ _ := rfl
  setConv _ _ := rfl
  flush k := ⟨k.2.flush_grows, fun _ => rfl⟩
  flushAck k := ⟨k.2.flush_grows, fun _ => rfl⟩
  update k _ := ⟨k.2.flush_grows, fun _ _ => rfl⟩

theorem updated_run : ∃ (socket : KcpSocket (SmallKcp × Acks UInt32))
    (before : List (KcpSession (SmallKcp × Acks UInt32) × SessionEvent))
    (x y s : KcpSession (SmallKcp × Acks UInt32)),
    KcpSocket.new smallAcker reedSolomon {} 1 false 0 = .ok (.ok socket) ∧
    before.map Prod.snd = [.input (segment 1 81 0 [65]), .runIoTask 0] ∧
    Run (KcpSession.Step smallAcker)
      (.new socket ({} : KcpConfig).sessionExpire (some ⟨[10, 0, 0, 1], 4000⟩))
      (before ++ (x, .tick 10) :: [(y, .close)]) s ∧
    x.Flushes smallAcker (fun _ _ => true) (.tick 10) ∧ x.socket.kcp.2 = ⟨[], [0]⟩ ∧
    s.closed = true ∧ s.socket.canClose smallAcker = true := by
  refine ⟨_, [(_, _), (_, _)], _, _, _, rfl, rfl,
    .cons rfl (.cons rfl (.cons rfl (.cons rfl .nil))), ?_, rfl, rfl, rfl⟩
  apply KcpSession.Flushes.tick
  · intro h
    exact absurd h.1 (by decide)
  · intro h
    exact absurd h.2 (by decide)
  · rfl
  · rfl

theorem graceful_close_small : ∃ (socket : KcpSocket (SmallKcp × Acks UInt32))
    (trace : List (KcpSession (SmallKcp × Acks UInt32) × SessionEvent))
    (s t : KcpSession (SmallKcp × Acks UInt32)),
    KcpSocket.new smallAcker reedSolomon {} 1 false 0 = .ok (.ok socket) ∧
    trace.map Prod.snd =
      [.input (segment 1 81 0 [65]), .runIoTask 0, .tick 10, .close] ∧
    Run (KcpSession.Step smallAcker)
      (.new socket ({} : KcpConfig).sessionExpire (some ⟨[10, 0, 0, 1], 4000⟩)) trace s ∧
    s.pollSchedulerTick smallAcker 20 = (t, none, s.sessionCloseNotifier) ∧ t.Finalized ∧
    0 ∈ t.socket.kcp.2.handed := by
  obtain ⟨socket, before, x, y, s, hnew, hevents, hrun, hflushes, hx, hclosed, hcan⟩ :=
    updated_run
  obtain ⟨t, htick, hfinal, hacks, hhanded⟩ :=
    graceful_close smallWire_laws smallAcker_acknowledges hrun hclosed hcan 20
  obtain ⟨hearlier, _⟩ := hhanded before x (.tick 10) [(y, .close)] rfl hflushes
  have hin := hearlier (x, .tick 10) (List.mem_append_right _ List.mem_cons_self)
  dsimp only at hin
  rw [hx] at hin
  refine ⟨socket, before ++ (x, .tick 10) :: [(y, .close)], s, t, hnew, ?_, hrun, htick, hfinal,
    ?_⟩
  · rw [List.map_append, hevents]
    rfl
  · rw [hacks]
    exact hin List.mem_cons_self

/-- A listener's session is given a datagram and its stream is dropped. The next tick finalizes
it with the acknowledgement of the datagram's first segment still owed. -/
def GivesUpFirst (config : KcpConfig) (datagram : Bytes) : Prop :=
  ∃ socket trace s t,
    KcpSocket.new smallAcker reedSolomon config 1 false 0 = .ok (.ok socket) ∧
    trace.map Prod.snd = [.input datagram, .runIoTask 0, .close] ∧
    Run (KcpSession.Step smallAcker)
      (.new socket config.sessionExpire (some ⟨[10, 0, 0, 1], 4000⟩)) trace s ∧
    s.closed = true ∧ s.socket.canClose smallAcker = true ∧
    s.pollSchedulerTick smallAcker 10 = (t, none, some ⟨[10, 0, 0, 1], 4000⟩) ∧
    t.Finalized ∧ t.socket.kcp.2.handed = [] ∧ t.socket.kcp.2.owed = [0]

/-- Acknowledgements are given up without a flush at input, and with it if the datagram has a bad
segment behind a good one. -/
theorem graceful_close_gives_up : smallAcker.wire.Laws ∧
    smallAcker.Acknowledges Prod.snd (fun _ _ => true) ∧
    GivesUpFirst {} (segment 1 81 0 [65]) ∧
    GivesUpFirst { flushAcksInput := true } (segment 1 81 0 [65] ++ segment 1 0 1 []) :=
  ⟨smallWire_laws, smallAcker_acknowledges,
    ⟨_, [(_, _), (_, _), (_, _)], _, _, rfl, rfl, .cons rfl (.cons rfl (.cons rfl .nil)), rfl,
      rfl, rfl, ⟨rfl, rfl, rfl, rfl⟩, rfl, rfl⟩,
    ⟨_, [(_, _), (_, _), (_, _)], _, _, rfl, rfl, .cons rfl (.cons rfl (.cons rfl .nil)), rfl,
      rfl, rfl, ⟨rfl, rfl, rfl, rfl⟩, rfl, rfl⟩⟩

end TokioKcp
