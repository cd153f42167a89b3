import TokioKcp.Socket
import TokioKcp.SmallKcp
import TokioKcp.Fec.SmallCodecs
import TokioKcp.Lib.Runs

namespace TokioKcp
set_option autoImplicit true

open Checked Fec Transition

variable {κ : Type} {K : KcpCrate κ} {queue : κ → List Bytes} {k : κ} {s t u : KcpSocket κ}
variable {rs : Nat → Nat → Except String ReedSolomon} {c : KcpConfig} {conv : UInt32}
variable {m buf : Bytes} {ms bufs : List Bytes} {allowEmpty flushAck : Bool}

/-- The receive side of KCP is a queue of complete messages, which only `input` adds to and
only `recv` takes from. -/
structure KcpCrate.Receives (K : KcpCrate κ) (queue : κ → List Bytes) : Prop where
  peeksize_nil : ∀ k, queue k = [] → ∃ err, K.peeksize k = .error err
  peeksize_cons : ∀ k m ms, queue k = m :: ms → K.peeksize k = .ok m.length
  recv_nil : ∀ k len, queue k = [] → queue (K.recv k len).1 = [] ∧
    ((K.recv k len).2 = .error .recvQueueEmpty ∨ (K.recv k len).2 = .error .expectingFragment)
  recv_cons : ∀ k len m ms, queue k = m :: ms → m.length ≤ len →
    queue (K.recv k len).1 = ms ∧ (K.recv k len).2 = .ok m
  recv_short : ∀ k len m ms, queue k = m :: ms → len < m.length →
    queue (K.recv k len).1 = m :: ms ∧ (K.recv k len).2 = .error .userBufTooSmall
  input : ∀ k buf, queue k <+: queue (K.input k buf).1
  send : ∀ k buf, queue (K.send k buf).1 = queue k
  update : ∀ k now, queue (K.update k now).1 = queue k
  flush : ∀ k, queue (K.flush k).1 = queue k
  flushAck : ∀ k, queue (K.flushAck k).1 = queue k

/-- The length of the first message in the queue can be peeked at. -/
structure KcpCrate.Peeks (K : KcpCrate κ) (queue : κ → List Bytes) : Prop where
  nil : ∀ k, queue k = [] → ∃ err, K.peeksize k = .error err
  cons : ∀ k m ms, queue k = m :: ms → K.peeksize k = .ok m.length

/-- A reader should be given the message. -/
def Readable (allowEmpty : Bool) (m : Bytes) : Prop := allowEmpty = true ∨ m ≠ []

instance (allowEmpty : Bool) (m : Bytes) : Decidable (Readable allowEmpty m) :=
  inferInstanceAs (Decidable (_ ∨ _))

def HeadReadable (allowEmpty : Bool) (queue : List Bytes) : Prop :=
  ∃ m ∈ queue.head?, Readable allowEmpty m

instance (allowEmpty : Bool) (queue : List Bytes) : Decidable (HeadReadable allowEmpty queue) :=
  inferInstanceAs (Decidable (∃ m ∈ _, _))

/-- If a reader waits, no message in the queue is one that it should be given. -/
def KcpSocket.NoLostWakeup (queue : κ → List Bytes) (s : KcpSocket κ) : Prop :=
  s.pendingReceiver ≠ none → ∀ m ∈ queue s.kcp, ¬Readable s.allowRecvEmptyPacket m

/-- A queue that shows no more than the length of its first message. -/
def KcpCrate.peeked (K : KcpCrate κ) (k : κ) : List Bytes :=
  match K.peeksize k with
  | .ok n => [List.replicate n 0]
  | .error _ => []

/-- KCP's part in the input of payloads in turn, up to the first that it refuses. It is
`announced` that there is something to read if a payload was accepted with a readable message
at the head of the queue. -/
structure Intake (κ : Type) where
  kcp : κ
  announced : Bool
  refused : Bool

def KcpCrate.intake (K : KcpCrate κ) (queue : κ → List Bytes) (allowEmpty flushAck : Bool) :
    κ → List Bytes → Intake κ
  | k, [] => ⟨k, false, false⟩
  | k, buf :: rest =>
    match K.judge flushAck k buf with
    | (k, .refused) => ⟨k, false, true⟩
    | (k, .ignored) => K.intake queue allowEmpty flushAck k rest
    | (k, .accepted) =>
      let intake := K.intake queue allowEmpty flushAck k rest
      { intake with
        announced := decide (HeadReadable allowEmpty (queue k)) || intake.announced }

/-- KCP after the input of payloads in turn. -/
def KcpCrate.takes (K : KcpCrate κ) (flushAck : Bool) : κ → List Bytes → κ
  | k, [] => k
  | k, buf :: rest =>
    match K.judge flushAck k buf with
    | (k, .refused) => k
    | (k, _) => K.takes flushAck k rest

/-- The payloads that a datagram offers to KCP, if all goes well: the one it carries, and those
that it lets the decoder recover. -/
def KcpSocket.offered (s : KcpSocket κ) (buf : Bytes) : List Bytes :=
  match s.fecDecoder with
  | some decoder =>
    if isFecPacket buf then (dataPayload buf).toList ++ decoder.recovers buf else [buf]
  | none => [buf]

/-- A datagram that comes while a reader waits announces what it brings, or brings nothing to
read. -/
def KcpSocket.InputSafe (K : KcpCrate κ) (queue : κ → List Bytes) (s : KcpSocket κ)
    (buf : Bytes) : Prop :=
  let intake := K.intake queue s.allowRecvEmptyPacket s.flushAckInput s.kcp (s.offered buf)
  s.pendingReceiver = none ∨ intake.announced = true ∨
    ∀ m ∈ queue intake.kcp, ¬Readable s.allowRecvEmptyPacket m

/-- No empty message that a reader is not given stands before one that it should be given. -/
def KcpSocket.RecvSafe (queue : κ → List Bytes) (s : KcpSocket κ) : Prop :=
  s.closed = false → ∀ ms, queue s.kcp = [] :: ms → ¬Readable s.allowRecvEmptyPacket [] →
    ∀ m ∈ ms, ¬Readable s.allowRecvEmptyPacket m

/-- The condition on a call under which no wake-up is lost in it. -/
def KcpSocket.CallSafe (K : KcpCrate κ) (queue : κ → List Bytes) (s : KcpSocket κ) :
    SocketCall × Nat → Prop
  | (.input buf, _) => s.InputSafe K queue buf
  | (.pollRecv _ _, _) => s.RecvSafe queue
  | _ => True

/-- What the input of payloads does to a socket, as far as readers are concerned. -/
structure KcpSocket.Took (s t : KcpSocket κ) (intake : Intake κ) : Prop where
  kcp : t.kcp = intake.kcp
  receiver : t.pendingReceiver = if intake.announced then none else s.pendingReceiver
  settings : t.settings = s.settings

theorem KcpCrate.Receives.peeks (hK : K.Receives queue) : K.Peeks queue :=
  ⟨hK.peeksize_nil, hK.peeksize_cons⟩

theorem KcpCrate.peeks (K : KcpCrate κ) : K.Peeks K.peeked where
  nil k h := by
    rw [KcpCrate.peeked] at h
    split at h
    · cases h
    · rename_i err he
      exact ⟨err, he⟩
  cons k m ms h := by
    rw [KcpCrate.peeked] at h
    split at h
    · rename_i n he
      cases h
      rw [he, List.length_replicate]
    · cases h

theorem readable_iff_length (allowEmpty : Bool) (m : Bytes) :
    Readable allowEmpty m ↔ allowEmpty = true ∨ m.length > 0 := by
  rw [Readable, ne_eq, ← List.length_eq_zero_iff]
  simp only [Nat.pos_iff_ne_zero, gt_iff_lt]

theorem headReadable_cons : HeadReadable allowEmpty (m :: ms) ↔ Readable allowEmpty m := by
  rw [HeadReadable, List.head?_cons]
  simp only [Option.mem_some_iff, exists_eq_left']

theorem KcpSocket.Took.refl (s : KcpSocket κ) (refused : Bool) :
    s.Took s ⟨s.kcp, false, refused⟩ := ⟨rfl, rfl, rfl⟩

theorem KcpSocket.Took.trans {i j : Intake κ} (h : s.Took t i) (h' : t.Took u j) :
    s.Took u ⟨j.kcp, i.announced || j.announced, j.refused⟩ where
  kcp := h'.kcp
  receiver := by
    rw [h'.receiver, h.receiver]
    cases i.announced <;> cases j.announced <;> rfl
  settings := h'.settings.trans h.settings

theorem KcpSocket.tryWakePendingSender_took (K : KcpCrate κ) (s : KcpSocket κ) :
    s.Took (s.tryWakePendingSender K).1 ⟨s.kcp, false, false⟩ := by
  obtain ⟨sender, woken, h⟩ := s.tryWakePendingSender_eq K
  rw [h]
  exact ⟨rfl, rfl, rfl⟩

/-- The receiver is woken exactly when the head of the queue is readable. -/
theorem KcpSocket.tryWakePendingReceiver_took (hK : K.Peeks queue) (s : KcpSocket κ) :
    s.Took (s.tryWakePendingReceiver K).1
      ⟨s.kcp, decide (HeadReadable s.allowRecvEmptyPacket (queue s.kcp)), false⟩ := by
  rw [KcpSocket.tryWakePendingReceiver]
  split
  · rename_i waker hw
    cases hm : queue s.kcp with
    | nil =>
      obtain ⟨err, he⟩ := hK.nil _ hm
      rw [he]
      exact .refl s false
    | cons m ms =>
      rw [hK.cons _ _ _ hm]
      dsimp only
      split
      · rename_i h
        rw [decide_eq_true (headReadable_cons.mpr ((readable_iff_length _ m).mpr h))]
        exact ⟨rfl, rfl, rfl⟩
      · rename_i h
        rw [decide_eq_false
          (fun h' => h ((readable_iff_length _ m).mp (headReadable_cons.mp h')))]
        exact .refl s false
  · rename_i hn
    exact ⟨rfl, by rw [hn, ite_self], rfl⟩

theorem KcpSocket.tryWakePendingWaker_took (hK : K.Peeks queue) (s : KcpSocket κ) :
    s.Took (s.tryWakePendingWaker K).1
      ⟨s.kcp, decide (HeadReadable s.allowRecvEmptyPacket (queue s.kcp)), false⟩ := by
  have hs := s.tryWakePendingSender_took K
  have hr := tryWakePendingReceiver_took hK (s.tryWakePendingSender K).1
  rw [allowRecvEmptyPacket_eq hs.settings, hs.kcp] at hr
  exact hs.trans hr

theorem KcpSocket.inputKcp_took (hK : K.Peeks queue) (s : KcpSocket κ) (buf : Bytes)
    (now : Nat) :
    let intake := K.intake queue s.allowRecvEmptyPacket s.flushAckInput s.kcp [buf]
    s.Took (s.inputKcp K buf now).1 intake ∧
      (s.inputKcp K buf now).2.isOk = !intake.refused := by
  rcases s.inputKcp_cases K buf now with ⟨k, ⟨hj, _, h⟩ | ⟨hj, last, err, h⟩ | ⟨hj, h⟩⟩
  · simp only [KcpCrate.intake, hj, h]
    exact ⟨⟨rfl, rfl, rfl⟩, rfl⟩
  · simp only [KcpCrate.intake, hj, h]
    exact ⟨⟨rfl, rfl, rfl⟩, rfl⟩
  · simp only [KcpCrate.intake, hj, h, Bool.or_false]
    obtain ⟨hk, hr, hs⟩ := tryWakePendingWaker_took hK
      { s with kcp := k, lastUpdateMs := now }
    exact ⟨⟨hk, hr, hs⟩, rfl⟩

theorem KcpCrate.intake_append (K : KcpCrate κ) (queue : κ → List Bytes)
    (allowEmpty flushAck : Bool) (k : κ) (bufs rest : List Bytes) :
    K.intake queue allowEmpty flushAck k (bufs ++ rest) =
      let i := K.intake queue allowEmpty flushAck k bufs
      if i.refused then i
      else
        let j := K.intake queue allowEmpty flushAck i.kcp rest
        ⟨j.kcp, i.announced || j.announced, j.refused⟩ := by
  induction bufs generalizing k with
  | nil => rfl
  | cons buf bufs ih =>
    rw [List.cons_append, KcpCrate.intake, KcpCrate.intake]
    rcases K.judge flushAck k buf with ⟨l, verdict⟩
    cases verdict with
    | refused => rfl
    | ignored => exact ih l
    | accepted =>
      dsimp only
      rw [ih]
      dsimp only
      split
      · rfl
      · rw [Bool.or_assoc]

theorem KcpSocket.inputEach_took (hK : K.Peeks queue) (s : KcpSocket κ) (waked : Bool)
    (now : Nat) (bufs : List Bytes) :
    let intake := K.intake queue s.allowRecvEmptyPacket s.flushAckInput s.kcp bufs
    s.Took (s.inputEach K waked now bufs).1 intake ∧
      (s.inputEach K waked now bufs).2.isOk = !intake.refused := by
  induction bufs generalizing s waked with
  | nil => exact ⟨.refl s false, rfl⟩
  | cons buf bufs ih =>
    obtain ⟨ht, hok⟩ := inputKcp_took hK s buf now
    have happ := K.intake_append queue s.allowRecvEmptyPacket s.flushAckInput s.kcp [buf] bufs
    rw [List.singleton_append] at happ
    dsimp only at happ ⊢
    rw [happ, KcpSocket.inputEach]
    split
    · rename_i he
      rw [he] at ht hok
      have href : (K.intake queue s.allowRecvEmptyPacket s.flushAckInput s.kcp [buf]).refused =
          true := (Bool.not_eq_false' ..).mp hok.symm
      rw [if_pos href]
      exact ⟨ht, hok⟩
    · rename_i self woke he
      rw [he] at ht hok
      have href : ¬(K.intake queue s.allowRecvEmptyPacket s.flushAckInput s.kcp [buf]).refused =
          true := by
        rw [Bool.not_eq_true]
        exact (Bool.not_eq_true' ..).mp hok.symm
      rw [if_neg href]
      obtain ⟨ht', hok'⟩ := ih self (waked || woke)
      rw [allowRecvEmptyPacket_eq ht.settings, flushAckInput_eq ht.settings, ht.kcp] at ht' hok'
      exact ⟨ht.trans ht', hok'⟩

theorem KcpSocket.input_took (hK : K.Peeks queue) (h : s.input K buf now = .ok (t, result)) :
    s.Took t (K.intake queue s.allowRecvEmptyPacket s.flushAckInput s.kcp (s.offered buf)) := by
  rw [KcpSocket.input] at h
  split at h
  · rename_i hfec
    obtain ⟨hsome, hpacket⟩ := Bool.and_eq_true_iff.mp hfec
    obtain ⟨decoder, hdec⟩ := Option.isSome_iff_exists.mp hsome
    have hoff : s.offered buf = (dataPayload buf).toList ++ decoder.recovers buf := by
      simp only [KcpSocket.offered, hdec, if_pos hpacket]
    rw [hoff, K.intake_append]
    obtain ⟨ht, hok⟩ := inputEach_took hK s false now (dataPayload buf).toList
    obtain ⟨u, rfl, ⟨rfl, err, herr⟩ | ⟨waked, decoder', next, out, hwaked, hdec', hdecode, hout⟩⟩ :=
      inputFec_cases h
    · rw [herr] at hok
      dsimp only
      rw [if_pos ((Bool.not_eq_false' ..).mp hok.symm)]
      exact ht
    · rw [hdec] at hdec'
      cases hdec'
      rw [hwaked] at hok
      dsimp only
      rw [if_neg (by rw [Bool.not_eq_true]; exact (Bool.not_eq_true' ..).mp hok.symm)]
      have hu : s.Took { (s.inputEach K false now (dataPayload buf).toList).1 with
          fecDecoder := some next } _ := ⟨ht.kcp, ht.receiver, ht.settings⟩
      rcases hout with ⟨rfl, err, rfl⟩ | ⟨recovered, rfl, rfl⟩
      · have hnone : decoder.recovers buf = [] := by rw [FecDecoder.recovers, hdecode]
        rw [hnone]
        exact hu.trans ⟨hu.kcp, rfl, rfl⟩
      · have hsome : decoder.recovers buf = recovered := by rw [FecDecoder.recovers, hdecode]
        obtain ⟨ht', _⟩ := inputEach_took hK { (s.inputEach K false now
          (dataPayload buf).toList).1 with fecDecoder := some next } waked now recovered
        rw [hsome]
        rw [allowRecvEmptyPacket_eq hu.settings, flushAckInput_eq hu.settings, hu.kcp] at ht'
        exact hu.trans ht'
  · rename_i hfec
    have hoff : s.offered buf = [buf] := by
      rw [KcpSocket.offered]
      split
      · rename_i hdec
        rw [hdec] at hfec
        exact if_neg hfec
      · rfl
    have he : (s.inputKcp K buf now).1 = t := congrArg Prod.fst (Except.ok.inj h)
    rw [hoff, ← he]
    exact (inputKcp_took hK s buf now).1

theorem KcpCrate.intake_kcp (K : KcpCrate κ) (queue : κ → List Bytes)
    (allowEmpty flushAck : Bool) (k : κ) (bufs : List Bytes) :
    (K.intake queue allowEmpty flushAck k bufs).kcp = K.takes flushAck k bufs := by
  induction bufs generalizing k with
  | nil => rfl
  | cons buf bufs ih =>
    rw [KcpCrate.intake, KcpCrate.takes]
    rcases K.judge flushAck k buf with ⟨l, verdict⟩
    cases verdict with
    | refused => rfl
    | ignored => exact ih l
    | accepted => exact ih l

theorem KcpCrate.takes_keeps {P : κ → Prop} (hin : ∀ k buf, P k → P (K.input k buf).1)
    (hack : ∀ k, P k → P (K.flushAck k).1) (flushAck : Bool) (bufs : List Bytes) (hk : P k) :
    P (K.takes flushAck k bufs) := by
  induction bufs generalizing k with
  | nil => exact hk
  | cons buf bufs ih =>
    have hjudge := K.judge_leads (hin k buf hk) hack flushAck
    rw [KcpCrate.takes]
    rcases hj : K.judge flushAck k buf with ⟨l, verdict⟩
    rw [hj] at hjudge
    cases verdict with
    | refused => exact hjudge
    | ignored => exact ih hjudge
    | accepted => exact ih hjudge

theorem KcpSocket.input_kcp (h : s.input K buf now = .ok (t, result)) :
    t.kcp = K.takes s.flushAckInput s.kcp (s.offered buf) := by
  rw [(input_took K.peeks h).kcp, K.intake_kcp]

theorem KcpCrate.Driven.queue_eq (hK : K.Receives queue) (h : K.Driven false k l) :
    queue l = queue k := by
  induction h with
  | refl => rfl
  | update _ ih => exact (hK.update _ _).trans ih
  | send _ ih => exact (hK.send _ _).trans ih
  | flush _ ih => exact (hK.flush _).trans ih
  | flushAck _ ih => exact (hK.flushAck _).trans ih
  | input hr => cases hr
  | recv hr => cases hr

theorem KcpSocket.Moves.noLostWakeup (hK : K.Receives queue) (h : s.Moves K false t)
    (hs : s.NoLostWakeup queue) : t.NoLostWakeup queue := by
  rw [KcpSocket.NoLostWakeup, h.receiver rfl, h.kcp.queue_eq hK,
    allowRecvEmptyPacket_eq h.settings]
  exact hs

theorem KcpSocket.Took.noLostWakeup_iff {i : Intake κ} (h : s.Took t i) :
    t.NoLostWakeup queue ↔ s.pendingReceiver = none ∨ i.announced = true ∨
      ∀ m ∈ queue i.kcp, ¬Readable s.allowRecvEmptyPacket m := by
  rw [KcpSocket.NoLostWakeup, h.receiver, h.kcp, allowRecvEmptyPacket_eq h.settings]
  cases i.announced with
  | true => simp only [if_true, ne_eq, not_true_eq_false, false_implies, true_or, or_true]
  | false =>
    simp only [Bool.false_eq_true, if_false, false_or]
    exact Decidable.imp_iff_not_or.trans (or_congr_left Decidable.not_not)

theorem KcpSocket.pollRecv_nil (hK : K.Receives queue) (hc : s.closed = false)
    (hq : queue s.kcp = []) (waker : Waker) (len now : Nat) :
    queue (s.pollRecv K waker len now).1.kcp = [] := by
  obtain ⟨hk, hr⟩ := hK.recv_nil s.kcp len hq
  rw [KcpSocket.pollRecv, if_neg (ne_true_of_eq_false hc)]
  rcases hr with hr | hr
  · simp only [hr]
    exact hk
  · simp only [hr]
    exact hk

theorem not_readable_iff : ¬Readable allowEmpty m ↔ m.length = 0 ∧ (!allowEmpty) = true := by
  rw [readable_iff_length, not_or, Bool.not_eq_true, Nat.not_lt, Nat.le_zero, Bool.not_eq_true',
    and_comm]

/-- A reader is given a readable message, if its buffer has room, and otherwise gets the
reason why not; for an empty message that it is not given it waits. -/
theorem KcpSocket.pollRecv_cons (hK : K.Receives queue) (hc : s.closed = false)
    (hq : queue s.kcp = m :: ms) (waker : Waker) (len now : Nat) :
    (Readable s.allowRecvEmptyPacket m →
      (s.pollRecv K waker len now).1.pendingReceiver = s.pendingReceiver) ∧
    (¬Readable s.allowRecvEmptyPacket m →
      (s.pollRecv K waker len now).1.pendingReceiver = some waker ∧
      queue (s.pollRecv K waker len now).1.kcp = ms) := by
  rw [KcpSocket.pollRecv, if_neg (ne_true_of_eq_false hc)]
  by_cases hlen : m.length ≤ len
  · obtain ⟨hk, hr⟩ := hK.recv_cons s.kcp len m ms hq hlen
    simp only [hr]
    constructor
    · intro hm
      rw [if_neg (fun h => not_readable_iff.mpr h hm)]
    · intro hm
      rw [if_pos (not_readable_iff.mp hm)]
      exact ⟨rfl, hk⟩
  · obtain ⟨hk, hr⟩ := hK.recv_short s.kcp len m ms hq (Nat.lt_of_not_le hlen)
    constructor
    · intro _
      simp only [hr]
    · intro hm
      have hzero := (not_readable_iff.mp hm).1
      omega

theorem KcpSocket.pollRecv_noLostWakeup_iff (hK : K.Receives queue)
    (hs : s.NoLostWakeup queue) (waker : Waker) (len now : Nat) :
    (s.pollRecv K waker len now).1.NoLostWakeup queue ↔ s.RecvSafe queue := by
  have hallow := allowRecvEmptyPacket_eq (s.pollRecv_moves K waker len now).settings
  cases hc : s.closed with
  | true =>
    have hsame : (s.pollRecv K waker len now).1 = s := by rw [KcpSocket.pollRecv, if_pos hc]
    rw [hsame]
    exact ⟨fun _ hopen => absurd (hc.symm.trans hopen) (by decide), fun _ => hs⟩
  | false =>
    cases hq : queue s.kcp with
    | nil =>
      have hnil := pollRecv_nil hK hc hq waker len now
      constructor
      · intro _ _ ms hms
        rw [hq] at hms
        cases hms
      · intro _ _ m hm
        rw [hnil] at hm
        cases hm
    | cons m ms =>
      obtain ⟨hgiven, hwaits⟩ := pollRecv_cons hK hc hq waker len now
      by_cases hm : Readable s.allowRecvEmptyPacket m
      · have hnone : s.pendingReceiver = none := by
          by_contra hne
          exact hs hne m (by rw [hq]; exact List.mem_cons_self) hm
        constructor
        · intro _ _ ms' hms hempty
          rw [hq] at hms
          cases hms
          exact absurd hm hempty
        · intro _ hne
          rw [hgiven hm, hnone] at hne
          exact absurd rfl hne
      · obtain ⟨hpending, hqueue⟩ := hwaits hm
        have hzero : m = [] := List.length_eq_zero_iff.mp (not_readable_iff.mp hm).1
        rw [KcpSocket.NoLostWakeup, hpending, hqueue, hallow]
        constructor
        · intro h _ ms' hms _
          rw [hq] at hms
          cases hms
          exact h (Option.some_ne_none _)
        · intro h _
          rw [hzero] at hq hm
          exact h hc ms hq hm

/-- If a wake-up is not lost before a call, one is lost in it exactly if it is not safe. -/
theorem KcpSocket.Step.noLostWakeup_iff (hK : K.Receives queue) (c : SocketCall × Nat)
    (hs : s.NoLostWakeup queue) (h : s.Step K c t) :
    t.NoLostWakeup queue ↔ s.CallSafe K queue c := by
  obtain ⟨call, now⟩ := c
  cases call with
  | input buf =>
    obtain ⟨⟨u, result⟩, hu, he⟩ := bind_eq_ok.mp h
    cases he
    exact (input_took hK.peeks hu).noLostWakeup_iff
  | pollRecv waker len =>
    cases h
    exact pollRecv_noLostWakeup_iff hK hs waker len now
  | pollSend waker buf =>
    cases h
    exact iff_true_intro ((s.pollSend_moves K waker buf now).noLostWakeup hK hs)
  | updateAt =>
    cases h
    exact iff_true_intro ((s.updateAt_moves K now).noLostWakeup hK hs)
  | flush =>
    cases h
    exact iff_true_intro ((s.flush_moves K now).noLostWakeup hK hs)
  | close =>
    cases h
    exact iff_true_intro (fun hne => absurd rfl hne)

theorem KcpSocket.new_noLostWakeup
    (h : KcpSocket.new K rs c conv stream now = .ok (.ok s)) :
    s.NoLostWakeup queue := by
  obtain ⟨_, _, _, hnone, _⟩ := (new_fresh h).fields
  intro hne
  exact absurd hnone hne

/-- In a run of calls on a new socket, no wake-up is lost exactly if every call is safe. -/
theorem no_lost_wakeup_iff {trace : List (KcpSocket κ × (SocketCall × Nat))}
    (hK : K.Receives queue)
    (hnew : KcpSocket.new K rs c conv stream now = .ok (.ok s))
    (hrun : Run (KcpSocket.Step K) s trace t) :
    Always (KcpSocket.NoLostWakeup queue) trace t ↔ ∀ x ∈ trace, x.1.CallSafe K queue x.2 :=
  hrun.guarded_iff (fun _ c _ hs h => h.noLostWakeup_iff hK c hs) (KcpSocket.new_noLostWakeup hnew)

theorem SmallKcp.inputSegments_messages (k : SmallKcp) (fuel : Nat) (buf : Bytes) :
    k.messages <+: (k.inputSegments fuel buf).1.messages := by
  induction fuel generalizing k buf with
  | zero => exact List.prefix_refl _
  | succ fuel ih =>
    have htake (cmd : UInt8) (sn : UInt32) (data : Bytes) (k' : SmallKcp)
        (hk : k'.messages = k.messages) : k.messages <+: (k'.take cmd sn data).messages := by
      rw [SmallKcp.take, ← hk]
      split
      · exact List.prefix_append _ _
      · exact List.prefix_refl _
    rw [SmallKcp.inputSegments]
    split
    · exact List.prefix_refl _
    · split
      · exact List.prefix_refl _
      · have hk := k.messages_adopt (convOf buf)
        dsimp only
        split
        · exact ⟨[], (List.append_nil _).trans hk.symm⟩
        · split
          · exact ⟨[], (List.append_nil _).trans hk.symm⟩
          · exact (htake _ _ _ _ hk).trans (ih _ _)

theorem smallKcp_receives : smallKcp.Receives SmallKcp.messages where
  peeksize_nil k h := ⟨.recvQueueEmpty, by
    change k.peeksize = _
    rw [SmallKcp.peeksize, h]⟩
  peeksize_cons k m ms h := by
    change k.peeksize = _
    rw [SmallKcp.peeksize, h]
  recv_nil k len h := by
    change (k.recv len).1.messages = _ ∧ ((k.recv len).2 = _ ∨ (k.recv len).2 = _)
    rw [SmallKcp.recv, h]
    exact ⟨h, .inl rfl⟩
  recv_cons k len m ms h hlen := by
    change (k.recv len).1.messages = _ ∧ (k.recv len).2 = _
    rw [SmallKcp.recv, h]
    dsimp only
    rw [if_neg (Nat.not_lt_of_le hlen)]
    exact ⟨rfl, rfl⟩
  recv_short k len m ms h hlen := by
    change (k.recv len).1.messages = _ ∧ (k.recv len).2 = _
    rw [SmallKcp.recv, h]
    dsimp only
    rw [if_pos hlen]
    exact ⟨h, rfl⟩
  input k buf :=
    k.input_leads (P := fun l => k.messages <+: l.messages) buf (List.prefix_refl _)
      (k.inputSegments_messages buf.length buf)
  send _ _ := rfl
  update _ _ := rfl
  flush _ := rfl
  flushAck _ := rfl

def smallSocket : KcpSocket SmallKcp where
  kcp := { SmallKcp.new 1 with sndWnd := 256 }
  lastUpdateMs := 0
  updateIntervalMs := 40
  flushWrite := false
  flushAckInput := false
  firstSendChunkLen := 1376
  maxSendChunkLen := 174752
  sentFirst := false
  pendingSender := none
  pendingReceiver := none
  closed := false
  allowRecvEmptyPacket := false
  fecDecoder := none
  outputTask := ⟨none⟩
  woken := []

theorem smallSocket_new :
    KcpSocket.new smallKcp reedSolomon {} 1 false 0 = .ok (.ok smallSocket) := rfl

theorem no_lost_wakeup_iff_small : ∃ trace t,
    trace.map Prod.snd = [(.pollRecv 7 1024, 0), (.input (segment 1 81 0 [65]), 1)] ∧
    Run (KcpSocket.Step smallKcp) smallSocket trace t ∧
    (Always (KcpSocket.NoLostWakeup SmallKcp.messages) trace t ↔
      ∀ x ∈ trace, x.1.CallSafe smallKcp SmallKcp.messages x.2) :=
  have hrun : Run (KcpSocket.Step smallKcp) smallSocket
    [(smallSocket, (.pollRecv 7 1024, 0)),
      ((smallSocket.pollRecv smallKcp 7 1024 0).1, (.input (segment 1 81 0 [65]), 1))] _ :=
    .cons rfl (.cons rfl .nil)
  ⟨_, _, rfl, hrun, no_lost_wakeup_iff smallKcp_receives smallSocket_new hrun⟩

/-- The reader takes an empty message for an empty queue and waits, with a byte behind it. -/
theorem lost_wakeup_small : smallKcp.Receives SmallKcp.messages ∧
    KcpSocket.new smallKcp reedSolomon {} 1 false 0 = .ok (.ok smallSocket) ∧
    ∃ trace t, trace.map Prod.snd =
        [(.input (segment 1 81 0 [] ++ segment 1 81 1 [65]), 0), (.pollRecv 7 1024, 1)] ∧
      Run (KcpSocket.Step smallKcp) smallSocket trace t ∧
      ¬Always (KcpSocket.NoLostWakeup SmallKcp.messages) trace t := by
  let s : KcpSocket SmallKcp :=
    { smallSocket with
      kcp := { smallSocket.kcp with rcvNxt := 2, messages := [[], [65]] }, lastUpdateMs := 0 }
  have hrun : Run (KcpSocket.Step smallKcp) smallSocket
      [(smallSocket, (.input (segment 1 81 0 [] ++ segment 1 81 1 [65]), 0)),
        (s, (.pollRecv 7 1024, 1))] (s.pollRecv smallKcp 7 1024 1).1 :=
    .cons rfl (.cons rfl .nil)
  refine ⟨smallKcp_receives, smallSocket_new, _, _, rfl, hrun, ?_⟩
  intro h
  exact h.2 (Option.some_ne_none 7) [65] (by decide) (by decide)

/-- The reader is not told of a byte before a segment that is refused. -/
example : ∃ t, smallSocket.Step smallKcp (.pollRecv 7 1024, 0) t ∧ ∃ u,
    t.Step smallKcp (.input (segment 1 81 0 [65] ++ segment 1 0 1 []), 1) u ∧
    u.pendingReceiver = some 7 ∧ u.kcp.messages = [[65]] :=
  ⟨_, rfl, _, rfl, rfl, rfl⟩

end TokioKcp
