import TokioKcp.Stream
import TokioKcp.Socket.Calls
import TokioKcp.Socket.Readers
import TokioKcp.Lib.MessageReader

namespace TokioKcp
set_option autoImplicit true

open Checked Fec ErasureCode Transition MessageReader

variable {κ : Type}

/-- What the stream has taken from KCP and not handed over yet. -/
def KcpStream.leftover (self : KcpStream) : Bytes :=
  (self.recvBuffer.take self.recvBufferCap).drop self.recvBufferPos

/-- The positions in the stream's buffer are in order. -/
structure KcpStream.Bounded (x : KcpStream) : Prop where
  pos_le : x.recvBufferPos ≤ x.recvBufferCap
  cap_le : x.recvBufferCap ≤ x.recvBuffer.length

/-- A call that reads gives what the reader gets, or waits. -/
def answer : Option Bytes → Poll (KcpResult Bytes)
  | some data => .ready (.ok data)
  | none => .pending

/-- What happens to a stream that is open: the application reads from it, with the given result,
or others use its socket, and the given messages arrive. -/
inductive StreamEvent where
  | recv (waker : Waker) (len now : Nat) (result : Poll (KcpResult Bytes))
  | call (call : SessionCall) (now : Nat) (arrived : List Bytes)

def StreamStep (K : KcpCrate κ) (queue : κ → List Bytes) (x : Locked κ) :
    StreamEvent → Locked κ → Prop
  | .recv waker len now result, y =>
    ∃ rounds, KcpStream.pollRecv K rounds waker len now x = .ok (some (y, result))
  | .call call now arrived, y =>
    x.2.Step K (call.toSocket, now) y.2 ∧ y.1 = x.1 ∧ queue y.2.kcp = queue x.2.kcp ++ arrived

def StreamEvent.returned : StreamEvent → Bytes
  | .recv _ _ _ (.ready (.ok data)) => data
  | _ => []

def StreamEvent.arrived : StreamEvent → List Bytes
  | .call _ _ arrived => arrived
  | .recv .. => []

def returned (trace : List (Locked κ × StreamEvent)) : Bytes :=
  trace.flatMap fun x => x.2.returned

def arrivals (trace : List (Locked κ × StreamEvent)) : List Bytes :=
  trace.flatMap fun x => x.2.arrived

/-- The stream of an open socket, with the messages that came and the bytes that were read. -/
structure Reading (queue : κ → List Bytes) (came : List Bytes) (read : Bytes) (x : Locked κ) :
    Prop where
  bounded : x.1.Bounded
  isOpen : x.2.closed = false
  faithful : Faithful came read x.1.leftover (queue x.2.kcp)

variable {K : KcpCrate κ} {queue : κ → List Bytes} {self : KcpStream} {s : KcpSocket κ}
variable {m data : Bytes} {ms : List Bytes} {waker : Waker} {len now : Nat}

theorem KcpSocket.pollRecv_gives (hK : K.Receives queue) (hc : s.closed = false)
    (hq : queue s.kcp = m :: ms) (hlen : m.length ≤ len) (hm : Readable s.allowRecvEmptyPacket m)
    (waker : Waker) (now : Nat) :
    ∃ t, s.pollRecv K waker len now = (t, .ready (.ok m)) ∧ queue t.kcp = ms := by
  obtain ⟨hk, hr⟩ := hK.recv_cons s.kcp len m ms hq hlen
  rw [KcpSocket.pollRecv, if_neg (ne_true_of_eq_false hc)]
  simp only [hr]
  rw [if_neg (fun h => not_readable_iff.mpr h hm)]
  exact ⟨_, rfl, hk⟩

theorem KcpSocket.pollRecv_skips (hK : K.Receives queue) (hc : s.closed = false)
    (hq : queue s.kcp = m :: ms) (hm : ¬Readable s.allowRecvEmptyPacket m)
    (waker : Waker) (len now : Nat) :
    ∃ t, s.pollRecv K waker len now = (t, .pending) ∧ queue t.kcp = ms := by
  have hzero := not_readable_iff.mp hm
  obtain ⟨hk, hr⟩ := hK.recv_cons s.kcp len m ms hq (hzero.1.symm ▸ Nat.zero_le len)
  rw [KcpSocket.pollRecv, if_neg (ne_true_of_eq_false hc)]
  simp only [hr]
  rw [if_pos hzero]
  exact ⟨_, rfl, hk⟩

theorem KcpSocket.pollRecv_waits (hK : K.Receives queue) (hc : s.closed = false)
    (hq : queue s.kcp = []) (waker : Waker) (len now : Nat) :
    ∃ t, s.pollRecv K waker len now = (t, .pending) ∧ queue t.kcp = [] := by
  obtain ⟨hk, hr⟩ := hK.recv_nil s.kcp len hq
  rw [KcpSocket.pollRecv, if_neg (ne_true_of_eq_false hc)]
  rcases hr with hr | hr
  · simp only [hr]
    exact ⟨_, rfl, hk⟩
  · simp only [hr]
    exact ⟨_, rfl, hk⟩

theorem KcpStream.Bounded.leftover_length (h : self.Bounded) :
    self.leftover.length = self.recvBufferCap - self.recvBufferPos := by
  rw [KcpStream.leftover, List.length_drop, List.length_take, Nat.min_eq_left h.cap_le]

theorem KcpStream.leftover_eq_nil (h : ¬self.recvBufferPos < self.recvBufferCap) :
    self.leftover = [] := by
  apply List.drop_eq_nil_of_le
  exact Nat.le_trans (List.length_take_le _ _) (Nat.le_of_not_lt h)

theorem KcpStream.recvRound_rest (K : KcpCrate κ) (h : self.Bounded)
    (hlt : self.recvBufferPos < self.recvBufferCap) (s : KcpSocket κ) (waker : Waker)
    (len now : Nat) : ∃ self', KcpStream.recvRound K waker len now (self, s) =
      .ok (.inr ((self', s), .ready (.ok (self.leftover.take len)))) ∧
      self'.leftover = self.leftover.drop len ∧ self'.Bounded := by
  obtain ⟨hpos, hcap⟩ := h
  have hcopy : self.recvBufferPos + min (self.recvBufferCap - self.recvBufferPos) len ≤
      self.recvBufferCap := by omega
  have hdata : slice self.recvBuffer self.recvBufferPos
      (self.recvBufferPos + min (self.recvBufferCap - self.recvBufferPos) len) =
      .ok (self.leftover.take len) := by
    rw [slice_of_le (Nat.le_add_right _ _) (Nat.le_trans hcopy hcap), KcpStream.leftover,
      List.drop_take, List.drop_take, List.take_take, Nat.add_sub_cancel_left, Nat.min_comm]
  rw [KcpStream.recvRound, if_pos hlt]
  dsimp only
  rw [hdata, ok_bind]
  refine ⟨_, rfl, ?_, ⟨hcopy, hcap⟩⟩
  change (self.recvBuffer.take self.recvBufferCap).drop
    (self.recvBufferPos + min (self.recvBufferCap - self.recvBufferPos) len) = _
  rw [← List.drop_drop, ← KcpStream.leftover]
  rcases Nat.le_total (self.recvBufferCap - self.recvBufferPos) len with hle | hle
  · have hlen := KcpStream.Bounded.leftover_length ⟨hpos, hcap⟩
    rw [Nat.min_eq_left hle, List.drop_eq_nil_of_le (Nat.le_of_eq hlen),
      List.drop_eq_nil_of_le (by rw [hlen]; exact hle)]
  · rw [Nat.min_eq_right hle]

theorem KcpSocket.pollRecv_keeps (h : s.pollRecv K waker len now = (t, result)) :
    t.closed = s.closed ∧ t.allowRecvEmptyPacket = s.allowRecvEmptyPacket := by
  have hphase := s.pollRecv_phase K waker len now
  have hmoves := s.pollRecv_moves K waker len now
  rw [h] at hphase hmoves
  exact ⟨congrArg Prod.snd hphase, allowRecvEmptyPacket_eq hmoves.settings⟩

theorem KcpStream.recvBuffered_message (hK : K.Receives queue) (self : KcpStream)
    (hc : s.closed = false) (hq : queue s.kcp = m :: ms) (hm : m ≠ []) (waker : Waker) (now : Nat) :
    ∃ self' t, self.recvBuffered K s m.length waker now = .inl (self', t) ∧ self'.leftover = m ∧
      self'.recvBufferPos < self'.recvBufferCap ∧ self'.Bounded ∧ queue t.kcp = ms ∧
      t.closed = s.closed ∧ t.allowRecvEmptyPacket = s.allowRecvEmptyPacket := by
  obtain ⟨grown, hgrown, hroom⟩ : ∃ grown, (if self.recvBuffer.length < m.length then
      { self with recvBuffer := resize m.length 0 self.recvBuffer } else self) = grown ∧
      m.length ≤ grown.recvBuffer.length := by
    split
    · exact ⟨_, rfl, Nat.le_of_eq (length_resize m.length 0 self.recvBuffer).symm⟩
    · rename_i hle
      exact ⟨_, rfl, Nat.le_of_not_lt hle⟩
  obtain ⟨t, ht, hqueue⟩ := KcpSocket.pollRecv_gives hK hc hq hroom (.inr hm) waker now
  obtain ⟨hclosed, hallow⟩ := KcpSocket.pollRecv_keeps ht
  rw [KcpStream.recvBuffered, hgrown, ht]
  cases m with
  | nil => exact absurd rfl hm
  | cons b m =>
    refine ⟨_, t, rfl, ?_, Nat.succ_pos _, ⟨Nat.zero_le _, ?_⟩, hqueue, hclosed, hallow⟩
    · exact List.take_left
    · change (b :: m).length ≤ ((b :: m) ++ _).length
      rw [List.length_append]
      exact Nat.le_add_right _ _

theorem KcpStream.recvBuffered_answer {P : KcpSocket κ → Prop} (given : Option Bytes) (size : Nat)
    (h : ∀ room, size ≤ room → ∃ t, s.pollRecv K waker room now = (t, answer given) ∧ P t)
    (hempty : ∀ data ∈ given, data = []) (hs : self.Bounded) :
    ∃ self' t, self.recvBuffered K s size waker now = .inr ((self', t), answer given) ∧
      self'.leftover = self.leftover ∧ self'.Bounded ∧ P t ∧
      t.closed = s.closed ∧ t.allowRecvEmptyPacket = s.allowRecvEmptyPacket := by
  obtain ⟨grown, hgrown, hroom, hleft, hbounded⟩ : ∃ grown, (if self.recvBuffer.length < size then
      { self with recvBuffer := resize size 0 self.recvBuffer } else self) = grown ∧
      size ≤ grown.recvBuffer.length ∧ grown.leftover = self.leftover ∧ grown.Bounded := by
    split
    · rename_i hlt
      refine ⟨_, rfl, Nat.le_of_eq (length_resize size 0 self.recvBuffer).symm, ?_, hs.pos_le, ?_⟩
      · change ((resize size 0 self.recvBuffer).take self.recvBufferCap).drop _ = _
        rw [take_resize (Nat.le_of_lt hlt) 0 hs.cap_le, KcpStream.leftover]
      · change _ ≤ (resize size 0 self.recvBuffer).length
        rw [length_resize]
        exact Nat.le_trans hs.cap_le (Nat.le_of_lt hlt)
    · rename_i hle
      exact ⟨_, rfl, Nat.le_of_not_lt hle, rfl, hs⟩
  obtain ⟨t, ht, ht'⟩ := h _ hroom
  obtain ⟨hclosed, hallow⟩ := KcpSocket.pollRecv_keeps ht
  rw [KcpStream.recvBuffered, hgrown, ht]
  cases given with
  | none => exact ⟨grown, t, rfl, hleft, hbounded, ht', hclosed, hallow⟩
  | some data =>
    rw [hempty data rfl]
    exact ⟨grown, t, rfl, hleft, hbounded, ht', hclosed, hallow⟩

theorem KcpStream.pollRecv_left {x : Locked κ × Poll (KcpResult Bytes)}
    (h : KcpStream.recvRound K waker len now (self, s) = .ok (.inr x)) (rounds : Nat)
    (hle : 1 ≤ rounds) : KcpStream.pollRecv K rounds waker len now (self, s) = .ok (some x) :=
  have hleft : loop _ 1 (self, s) = _ := loop_left h
  loop_more hleft hle

/-- A call on a stream returns after two rounds at most, and reads as a reader of the messages
in the queue does. -/
def KcpStream.CallReads (K : KcpCrate κ) (queue : κ → List Bytes) (self : KcpStream)
    (s : KcpSocket κ) (waker : Waker) (len now : Nat) : Prop :=
  ∃ self' t given, (∀ rounds, 2 ≤ rounds → KcpStream.pollRecv K rounds waker len now (self, s) =
      .ok (some ((self', t), answer given))) ∧
    Reads s.allowRecvEmptyPacket len self.leftover (queue s.kcp) given self'.leftover
      (queue t.kcp) ∧
    self'.Bounded ∧ t.closed = s.closed ∧ t.allowRecvEmptyPacket = s.allowRecvEmptyPacket

theorem KcpStream.callReads_rest (hs : self.Bounded)
    (hlt : self.recvBufferPos < self.recvBufferCap) (waker : Waker) (len now : Nat) :
    self.CallReads K queue s waker len now := by
  obtain ⟨self', hround, hleft, hbounded⟩ := KcpStream.recvRound_rest K hs hlt s waker len now
  have hpoll := KcpStream.pollRecv_left hround
  refine ⟨self', s, some _, fun n hn => hpoll n (Nat.le_of_succ_le hn), ?_, hbounded, rfl, rfl⟩
  rw [hleft]
  apply Reads.rest
  intro hnil
  have hlen := hs.leftover_length
  rw [hnil] at hlen
  exact absurd hlen (Nat.ne_of_lt (Nat.sub_pos_of_lt hlt))

theorem KcpStream.callReads_answer (given : Option Bytes) {q' : List Bytes}
    (hs : self.Bounded) (hlt : ¬self.recvBufferPos < self.recvBufferCap)
    (hpeek : (K.peeksize s.kcp).toOption.getD 0 = 0)
    (hpoll : ∀ room, ∃ t, s.pollRecv K waker room now = (t, answer given) ∧ queue t.kcp = q')
    (hempty : ∀ data ∈ given, data = [])
    (hreads : Reads s.allowRecvEmptyPacket len [] (queue s.kcp) given [] q') :
    self.CallReads K queue s waker len now := by
  obtain ⟨self', t, hbuffered, hleft, hbounded, hqueue, hkeep⟩ :=
    KcpStream.recvBuffered_answer given 0 (fun room _ => hpoll room) hempty hs
  have hround : KcpStream.recvRound K waker len now (self, s) =
      .ok (.inr ((self', t), answer given)) := by
    rw [KcpStream.recvRound, if_neg hlt, hpeek]
    exact congrArg _ hbuffered
  refine ⟨self', t, given, fun n hn => KcpStream.pollRecv_left hround n (Nat.le_of_succ_le hn), ?_,
    hbounded, hkeep⟩
  rw [hqueue, hleft, KcpStream.leftover_eq_nil hlt]
  exact hreads

theorem KcpStream.callReads_whole (hK : K.Receives queue) (hs : self.Bounded)
    (hc : s.closed = false) (hlt : ¬self.recvBufferPos < self.recvBufferCap)
    (hq : queue s.kcp = m :: ms) (hm : m ≠ []) (hlen : m.length ≤ len) (waker : Waker)
    (now : Nat) : self.CallReads K queue s waker len now := by
  obtain ⟨t, ht, hqueue⟩ := KcpSocket.pollRecv_gives hK hc hq hlen (.inr hm) waker now
  have hround : KcpStream.recvRound K waker len now (self, s) =
      .ok (.inr ((self, t), answer (some m))) := by
    rw [KcpStream.recvRound, if_neg hlt, hK.peeksize_cons _ _ _ hq]
    dsimp only [Except.toOption, Option.getD]
    rw [if_pos ⟨List.length_pos_of_ne_nil hm, hlen⟩, ht]
    rfl
  refine ⟨self, t, some m, fun n hn => KcpStream.pollRecv_left hround n (Nat.le_of_succ_le hn), ?_,
    hs, KcpSocket.pollRecv_keeps ht⟩
  rw [hq, hqueue, KcpStream.leftover_eq_nil hlt]
  exact .whole hm hlen

/-- The first round takes the message to the stream's buffer, and the second serves the reader
from there. -/
theorem KcpStream.callReads_part (hK : K.Receives queue) (hc : s.closed = false)
    (hlt : ¬self.recvBufferPos < self.recvBufferCap) (hq : queue s.kcp = m :: ms) (hm : m ≠ [])
    (hlen : ¬m.length ≤ len) (waker : Waker) (now : Nat) :
    self.CallReads K queue s waker len now := by
  obtain ⟨self₁, t, hbuffered, hleft₁, hlt₁, hbounded₁, hqueue, hkeep⟩ :=
    KcpStream.recvBuffered_message hK self hc hq hm waker now
  have hround : KcpStream.recvRound K waker len now (self, s) = .ok (.inl (self₁, t)) := by
    rw [KcpStream.recvRound, if_neg hlt, hK.peeksize_cons _ _ _ hq]
    dsimp only [Except.toOption, Option.getD]
    rw [if_neg (fun h => hlen h.2), hbuffered]
  obtain ⟨self', hsecond, hleft, hbounded⟩ :=
    KcpStream.recvRound_rest K hbounded₁ hlt₁ t waker len now
  rw [hleft₁] at hsecond hleft
  refine ⟨self', t, some (m.take len), ?_, ?_, hbounded, hkeep⟩
  · intro rounds hle
    have htwo : loop (KcpStream.recvRound K waker len now) 2 (self, s) = _ :=
      (loop_next hround).trans (loop_left hsecond)
    exact loop_more htwo hle
  · rw [hq, hqueue, hleft, KcpStream.leftover_eq_nil hlt]
    exact .part (Nat.lt_of_not_le hlen)

theorem KcpStream.pollRecv_reads (hK : K.Receives queue) (hs : self.Bounded)
    (hc : s.closed = false) (waker : Waker) (len now : Nat) :
    self.CallReads K queue s waker len now := by
  by_cases hlt : self.recvBufferPos < self.recvBufferCap
  · exact KcpStream.callReads_rest hs hlt waker len now
  · cases hq : queue s.kcp with
    | nil =>
      obtain ⟨err, hpeek⟩ := hK.peeksize_nil _ hq
      apply KcpStream.callReads_answer none hs hlt (by rw [hpeek]; rfl)
        (fun room => KcpSocket.pollRecv_waits hK hc hq waker room now) nofun
      rw [hq]
      exact .waits
    | cons m ms =>
      have hpeek := hK.peeksize_cons _ _ _ hq
      by_cases hm : m = []
      · rw [hm] at hq hpeek
        cases hallow : s.allowRecvEmptyPacket with
        | true =>
          apply KcpStream.callReads_answer (some []) hs hlt (by rw [hpeek]; rfl)
            (fun room => KcpSocket.pollRecv_gives hK hc hq (Nat.zero_le room) (.inl hallow)
              waker now)
            (fun _ h => (Option.some.inj h).symm)
          rw [hq]
          exact .empty hallow
        | false =>
          have hskip : ¬Readable s.allowRecvEmptyPacket [] := by
            rw [hallow]
            decide
          apply KcpStream.callReads_answer none hs hlt (by rw [hpeek]; rfl)
            (fun room => KcpSocket.pollRecv_skips hK hc hq hskip waker room now) nofun
          rw [hq]
          exact .skipped hallow
      · by_cases hlen : m.length ≤ len
        · exact KcpStream.callReads_whole hK hs hc hlt hq hm hlen waker now
        · exact KcpStream.callReads_part hK hc hlt hq hm hlen waker now

/-- Whatever others do, messages only arrive: every call of theirs is a step. -/
theorem SessionCall.arrives (hK : K.Receives queue) (self : KcpStream) {call : SessionCall}
    (h : s.Step K (call.toSocket, now) t) :
    ∃ arrived, StreamStep K queue (self, s) (.call call now arrived) (self, t) := by
  have hsame (hm : s.Moves K false t) :
      ∃ arrived, StreamStep K queue (self, s) (.call call now arrived) (self, t) :=
    ⟨[], h, rfl, by rw [hm.kcp.queue_eq hK, List.append_nil]⟩
  cases call with
  | input buf =>
    obtain ⟨⟨u, result⟩, hu, he⟩ := bind_eq_ok.mp h
    cases he
    have hinitial : queue s.kcp <+: queue (K.takes s.flushAckInput s.kcp (s.offered buf)) := by
      apply KcpCrate.takes_keeps (P := fun k => queue s.kcp <+: queue k)
      · exact fun k buf h => h.trans (hK.input k buf)
      · intro k h
        rw [hK.flushAck k]
        exact h
      · exact List.prefix_refl _
    obtain ⟨arrived, harrived⟩ := hinitial
    refine ⟨arrived, h, rfl, ?_⟩
    rw [KcpSocket.input_kcp hu, harrived]
  | pollSend waker buf =>
    cases h
    exact hsame (s.pollSend_moves K waker buf now)
  | updateAt =>
    cases h
    exact hsame (s.updateAt_moves K now)
  | flush =>
    cases h
    exact hsame (s.flush_moves K now)

theorem SessionCall.keeps {call : SessionCall} (h : s.Step K (call.toSocket, now) t) :
    t.closed = s.closed ∧ t.allowRecvEmptyPacket = s.allowRecvEmptyPacket := by
  refine ⟨?_, KcpSocket.allowRecvEmptyPacket_eq h.moves.settings⟩
  have hne : call.toSocket ≠ .close := by
    cases call with
    | _ => exact nofun
  rw [Bool.eq_iff_iff, h.closed_iff, or_iff_left hne]

variable {came : List Bytes} {read : Bytes} {x y : Locked κ}

theorem Reading.recv (hK : K.Receives queue) (h : Reading queue came read x) (waker : Waker)
    (len now : Nat) : ∃ y given, (∀ rounds, 2 ≤ rounds →
        KcpStream.pollRecv K rounds waker len now x = .ok (some (y, answer given))) ∧
      Reads x.2.allowRecvEmptyPacket len x.1.leftover (queue x.2.kcp) given y.1.leftover
        (queue y.2.kcp) ∧
      Reading queue came (read ++ given.getD []) y ∧
      y.2.allowRecvEmptyPacket = x.2.allowRecvEmptyPacket := by
  obtain ⟨stream, socket⟩ := x
  obtain ⟨self', t, given, hpoll, hreads, hbounded, hclosed, hallow⟩ :=
    KcpStream.pollRecv_reads hK h.bounded h.isOpen waker len now
  exact ⟨(self', t), given, hpoll, hreads,
    ⟨hbounded, hclosed.trans h.isOpen, hreads.faithful h.faithful⟩, hallow⟩

theorem StreamStep.reading {event : StreamEvent} (hK : K.Receives queue)
    (h : Reading queue came read x) (hstep : StreamStep K queue x event y) :
    Reading queue (came ++ event.arrived) (read ++ event.returned) y ∧
      y.2.allowRecvEmptyPacket = x.2.allowRecvEmptyPacket := by
  cases event with
  | recv waker len now result =>
    obtain ⟨rounds, hround⟩ := hstep
    obtain ⟨y', given, hpoll, _, hreading, hallow⟩ := h.recv hK waker len now
    have he := loop_unique (hpoll 2 (Nat.le_refl 2)) hround
    cases he
    change Reading queue (came ++ []) _ y ∧ _
    rw [List.append_nil]
    cases given with
    | none => exact ⟨hreading, hallow⟩
    | some data => exact ⟨hreading, hallow⟩
  | call call now arrived =>
    obtain ⟨hcall, hstream, hqueue⟩ := hstep
    obtain ⟨hclosed, hallow⟩ := SessionCall.keeps hcall
    have hfaithful := h.faithful.arrive arrived
    rw [← hqueue, ← hstream] at hfaithful
    change Reading queue (came ++ arrived) (read ++ []) y ∧ _
    rw [List.append_nil]
    exact ⟨⟨hstream ▸ h.bounded, hclosed.trans h.isOpen, hfaithful⟩, hallow⟩

theorem Reading.run {trace : List (Locked κ × StreamEvent)} (hK : K.Receives queue)
    (h : Reading queue came read x) (hrun : Run (StreamStep K queue) x trace y) :
    Reading queue (came ++ arrivals trace) (read ++ returned trace) y ∧
      y.2.allowRecvEmptyPacket = x.2.allowRecvEmptyPacket := by
  induction hrun generalizing came read with
  | nil =>
    rw [arrivals, returned, List.flatMap_nil, List.append_nil, List.flatMap_nil, List.append_nil]
    exact ⟨h, rfl⟩
  | cons hstep _ ih =>
    obtain ⟨hy, hallow⟩ := StreamStep.reading hK h hstep
    obtain ⟨hz, hallow'⟩ := ih hy
    rw [arrivals, returned, List.flatMap_cons, List.flatMap_cons, ← List.append_assoc,
      ← List.append_assoc]
    exact ⟨hz, hallow'.trans hallow⟩

theorem Reading.init (hc : s.closed = false) :
    Reading queue (queue s.kcp) [] (KcpStream.withSession, s) where
  bounded := ⟨Nat.le_refl _, Nat.le_refl _⟩
  isOpen := hc
  faithful := .init _

/-- Reading from an open stream gives the messages that arrive, byte for byte: in every run the
bytes that were read, the rest in the stream's buffer and the messages in the queue make up what
came; and every further call returns, with bytes that follow in one message or to wait. -/
theorem reading_faithful {trace : List (Locked κ × StreamEvent)} (hK : K.Receives queue)
    (hopen : s.closed = false)
    (hrun : Run (StreamStep K queue) (KcpStream.withSession, s) trace x) :
    let came := queue s.kcp ++ arrivals trace
    returned trace ++ x.1.leftover ++ (queue x.2.kcp).flatten = came.flatten ∧
    (x.1.recvBufferPos ≤ x.1.recvBufferCap ∧ x.1.recvBufferCap ≤ x.1.recvBuffer.length) ∧
    ∀ waker len now, ∃ y given, (∀ rounds, 2 ≤ rounds →
        KcpStream.pollRecv K rounds waker len now x = .ok (some (y, answer given))) ∧
      ∀ data, given = some data → data.length ≤ len ∧
        (0 < len → s.allowRecvEmptyPacket = false → data ≠ []) ∧
        ∃ before m after i, came = before ++ m :: after ∧
          returned trace = before.flatten ++ m.take i ∧ data <+: m.drop i := by
  intro came
  obtain ⟨hreading, hallow⟩ := (Reading.init hopen).run hK hrun
  rw [List.nil_append] at hreading
  refine ⟨hreading.faithful.stream, ⟨hreading.bounded.pos_le, hreading.bounded.cap_le⟩, ?_⟩
  intro waker len now
  obtain ⟨y, given, hpoll, hreads, _⟩ := hreading.recv hK waker len now
  refine ⟨y, given, hpoll, ?_⟩
  rintro data rfl
  obtain ⟨hfits, hsome⟩ := hreads.fits
  rw [hallow] at hsome
  exact ⟨hfits, hsome, hreads.within hreading.faithful⟩

/-- A message of two bytes, read one byte at a time. -/
theorem reading_faithful_small : ∃ trace x,
    trace.map Prod.snd = [.call (.input (segment 1 81 0 [65, 66])) 0 [[65, 66]],
      .recv 7 1 1 (.ready (.ok [65])), .recv 7 1 2 (.ready (.ok [66]))] ∧
    Run (StreamStep smallKcp SmallKcp.messages) (KcpStream.withSession, smallSocket) trace x ∧
    returned trace ++ x.1.leftover ++ (SmallKcp.messages x.2.kcp).flatten = [65, 66] := by
  let s : KcpSocket SmallKcp :=
    { smallSocket with kcp := { smallSocket.kcp with rcvNxt := 1, messages := [[65, 66]] } }
  let t : KcpSocket SmallKcp :=
    { s with kcp := { s.kcp with messages := [] }, lastUpdateMs := 1 }
  let trace : List (Locked SmallKcp × StreamEvent) :=
    [((.withSession, smallSocket), .call (.input (segment 1 81 0 [65, 66])) 0 [[65, 66]]),
      ((.withSession, s), .recv 7 1 1 (.ready (.ok [65]))),
      ((⟨[65, 66], 1, 2⟩, t), .recv 7 1 2 (.ready (.ok [66])))]
  have hrun : Run (StreamStep smallKcp SmallKcp.messages) (KcpStream.withSession, smallSocket)
      trace (⟨[65, 66], 2, 2⟩, t) := by
    refine .cons (t := (KcpStream.withSession, s)) ⟨rfl, rfl, rfl⟩ ?_
    refine .cons (t := (⟨[65, 66], 1, 2⟩, t)) ⟨2, rfl⟩ ?_
    exact .cons ⟨1, rfl⟩ .nil
  exact ⟨trace, _, rfl, hrun, (reading_faithful smallKcp_receives rfl hrun).1⟩

end TokioKcp
