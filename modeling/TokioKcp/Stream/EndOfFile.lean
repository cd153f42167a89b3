import TokioKcp.Stream.Reading

namespace TokioKcp
set_option autoImplicit true

open Checked Fec ErasureCode Transition MessageReader

variable {κ : Type}

def StreamEvent.isEnd : StreamEvent → Bool
  | .recv _ _ _ (.ready (.ok [])) => true
  | _ => false

def StreamEvent.HasRoom : StreamEvent → Prop
  | .recv _ len _ _ => 0 < len
  | .call .. => True

/-- The part of a run before the reader is told that it is at the end. -/
def untilEnd (trace : List (Locked κ × StreamEvent)) : List (Locked κ × StreamEvent) :=
  trace.takeWhile fun x => !x.2.isEnd

variable {K : KcpCrate κ} {queue : κ → List Bytes} {self : KcpStream} {s : KcpSocket κ}
variable {x y : Locked κ} {session session' : KcpSession κ}

theorem KcpStream.pollRecv_closed (K : KcpCrate κ) (hs : self.Bounded) (hc : s.closed = true)
    (waker : Waker) (len now : Nat) : ∃ self', (∀ rounds, 1 ≤ rounds →
        KcpStream.pollRecv K rounds waker len now (self, s) =
          .ok (some ((self', s), .ready (.ok (self.leftover.take len))))) ∧
      self'.leftover = self.leftover.drop len ∧ self'.Bounded := by
  by_cases hlt : self.recvBufferPos < self.recvBufferCap
  · obtain ⟨self', hround, hleft, hbounded⟩ := KcpStream.recvRound_rest K hs hlt s waker len now
    exact ⟨self', KcpStream.pollRecv_left hround, hleft, hbounded⟩
  · have hnil := KcpStream.leftover_eq_nil hlt
    have hpoll (room : Nat) : s.pollRecv K waker room now = (s, .ready (.ok [])) := by
      rw [KcpSocket.pollRecv, if_pos hc]
    rw [hnil, List.take_nil, List.drop_nil]
    by_cases hpeek : (K.peeksize s.kcp).toOption.getD 0 > 0 ∧
        (K.peeksize s.kcp).toOption.getD 0 ≤ len
    · refine ⟨self, KcpStream.pollRecv_left ?_, hnil, hs⟩
      rw [KcpStream.recvRound, if_neg hlt]
      dsimp only
      rw [if_pos hpeek, hpoll]
    · obtain ⟨self', t, hbuffered, hleft, hbounded, rfl, _⟩ :=
        KcpStream.recvBuffered_answer (P := fun t => t = s) (some [])
          ((K.peeksize s.kcp).toOption.getD 0) (fun room _ => ⟨s, hpoll room, rfl⟩)
          (fun _ h => (Option.some.inj h).symm) hs
      refine ⟨self', KcpStream.pollRecv_left ?_, hleft.trans hnil, hbounded⟩
      rw [KcpStream.recvRound, if_neg hlt]
      dsimp only
      rw [if_neg hpeek, hbuffered, answer]

theorem StreamStep.afterClose {event : StreamEvent} (h : StreamStep K queue x event y)
    (hs : x.1.Bounded) (hc : x.2.closed = true) (hroom : event.HasRoom) :
    y.1.Bounded ∧ y.2.closed = true ∧
      if event.isEnd then x.1.leftover = []
      else x.1.leftover = event.returned ++ y.1.leftover := by
  cases event with
  | recv waker len now result =>
    obtain ⟨rounds, hround⟩ := h
    obtain ⟨self', hpoll, hleft, hbounded⟩ :=
      KcpStream.pollRecv_closed K hs hc waker len now
    have he := loop_unique (hpoll 1 (Nat.le_refl 1)) hround
    cases he
    refine ⟨hbounded, hc, ?_⟩
    cases htake : x.1.leftover.take len with
    | nil =>
      rcases List.take_eq_nil_iff.mp htake with hzero | hnil
      · exact absurd hzero (Nat.ne_of_gt hroom)
      · exact hnil
    | cons b data =>
      change x.1.leftover = (b :: data) ++ self'.leftover
      rw [hleft, ← htake, List.take_append_drop]
  | call call now arrived =>
    obtain ⟨hcall, hstream, _⟩ := h
    refine ⟨hstream ▸ hs, hcall.closed_iff.mpr (.inl hc), ?_⟩
    rw [hstream]
    rfl

/-- Over a run, the reader of a closed socket gets the rest in the stream's buffer before it is
told of the end. -/
theorem returned_untilEnd {later : List (Locked κ × StreamEvent)}
    (h : Run (StreamStep K queue) x later y) (hs : x.1.Bounded) (hc : x.2.closed = true)
    (hroom : ∀ e ∈ later, e.2.HasRoom) (hend : ∃ e ∈ later, e.2.isEnd = true) :
    returned (untilEnd later) = x.1.leftover := by
  induction h with
  | nil =>
    obtain ⟨e, he, _⟩ := hend
    cases he
  | @cons x event t later y hstep hrun ih =>
    obtain ⟨hs', hc', hleft⟩ := hstep.afterClose hs hc (hroom _ List.mem_cons_self)
    rw [untilEnd, List.takeWhile_cons]
    cases he : event.isEnd with
    | true =>
      rw [he, if_pos rfl] at hleft
      exact hleft.symm
    | false =>
      rw [he, if_neg Bool.false_ne_true] at hleft
      have hend' : ∃ e ∈ later, e.2.isEnd = true := by
        obtain ⟨e, hmem, hlast⟩ := hend
        cases hmem with
        | head => exact absurd (he.symm.trans hlast) Bool.false_ne_true
        | tail _ hmem => exact ⟨e, hmem, hlast⟩
      have hrest := ih hs' hc' (fun e hmem => hroom e (List.mem_cons_of_mem _ hmem)) hend'
      rw [hleft, ← hrest]
      exact List.flatMap_cons

theorem KcpSession.finalized (hK : K.Receives queue)
    (h : session.pollSchedulerTick K nowMs = (session', none, notification)) :
    session'.socket.closed = true ∧
      queue session'.socket.kcp = queue session.socket.kcp := by
  have hmoves := session.driveUpdate_moves K nowMs
  rw [KcpSession.pollSchedulerTick] at h
  split at h
  · cases h
  · rename_i last he
    rw [he] at hmoves
    cases h
    exact ⟨rfl, hmoves.kcp.queue_eq hK⟩

/-- A session that is finalized gives up the messages in KCP's queue. Before it is told of the
end the reader gets, besides what it read while the socket was open, just the rest of the message
that its stream had begun; so it misses nothing exactly if the messages in the queue are empty. -/
theorem end_of_file {trace later : List (Locked κ × StreamEvent)} (hK : K.Receives queue)
    (hopen : s.closed = false)
    (hrun : Run (StreamStep K queue) (KcpStream.withSession, s) trace x)
    (hsession : session.socket = x.2)
    (htick : session.pollSchedulerTick K nowMs = (session', none, notification))
    (hlater : Run (StreamStep K queue) (x.1, session'.socket) later y)
    (hroom : ∀ e ∈ later, e.2.HasRoom) (hend : ∃ e ∈ later, e.2.isEnd = true) :
    let came := queue s.kcp ++ arrivals trace
    let read := returned trace ++ returned (untilEnd later)
    let lost := queue session'.socket.kcp
    returned (untilEnd later) = x.1.leftover ∧
    (∃ taken, came = taken ++ lost ∧ read = taken.flatten) ∧
    (read = came.flatten ↔ ∀ m ∈ lost, m = []) := by
  intro came read lost
  obtain ⟨hreading, _⟩ := (Reading.init hopen).run hK hrun
  obtain ⟨hclosed, hlost⟩ := KcpSession.finalized hK htick
  have hrest := returned_untilEnd hlater hreading.bounded hclosed hroom hend
  obtain ⟨taken, hcame, hread, _⟩ := hreading.faithful.taken
  rw [List.nil_append, ← hrest] at hread
  rw [← hsession, ← hlost] at hcame
  refine ⟨hrest, ⟨taken, hcame, hread⟩, ?_⟩
  rw [show read = taken.flatten from hread, show came = taken ++ lost from hcame,
    List.flatten_append, List.self_eq_append_right]
  exact List.flatten_eq_nil_iff

/-- A socket with two messages, and the socket after one byte was read from its stream. -/
def twoMessages : KcpSocket SmallKcp :=
  { smallSocket with
    kcp := { smallSocket.kcp with rcvNxt := 2, messages := [[65, 66], [67]] } }

def halfRead : KcpSocket SmallKcp :=
  { twoMessages with
    kcp := { twoMessages.kcp with messages := [[67]] }, lastUpdateMs := 1 }

def halfReadTrace : List (Locked SmallKcp × StreamEvent) :=
  [((.withSession, smallSocket), .call (.input (segment 1 81 0 [65, 66] ++ segment 1 81 1 [67])) 0
      [[65, 66], [67]]),
    ((.withSession, twoMessages), .recv 7 1 1 (.ready (.ok [65])))]

theorem halfRead_run : Run (StreamStep smallKcp SmallKcp.messages)
    (KcpStream.withSession, smallSocket) halfReadTrace (⟨[65, 66], 1, 2⟩, halfRead) := by
  refine .cons (t := (KcpStream.withSession, twoMessages)) ⟨rfl, rfl, rfl⟩ ?_
  exact .cons ⟨2, rfl⟩ .nil

/-- The session of a listener, with the socket of a stream, that is being removed. -/
def removed (socket : KcpSocket κ) : KcpSession κ :=
  (KcpSession.new socket none (some ⟨[10, 0, 0, 1], 4000⟩)).close

theorem end_of_file_small : ∃ trace x session' later y,
    Run (StreamStep smallKcp SmallKcp.messages) (KcpStream.withSession, smallSocket) trace x ∧
    (removed x.2).pollSchedulerTick smallKcp 2 =
      (session', none, some ⟨[10, 0, 0, 1], 4000⟩) ∧
    Run (StreamStep smallKcp SmallKcp.messages) (x.1, session'.socket) later y ∧
    arrivals trace = [[65, 66], [67]] ∧ returned trace = [65] ∧
    returned (untilEnd later) = x.1.leftover := by
  have hlater : Run (StreamStep smallKcp SmallKcp.messages)
      (⟨[65, 66], 1, 2⟩, halfRead.close)
      [((⟨[65, 66], 1, 2⟩, halfRead.close), .recv 7 8 3 (.ready (.ok [66]))),
        ((⟨[65, 66], 2, 2⟩, halfRead.close), .recv 7 8 4 (.ready (.ok [])))]
      (⟨[65, 66], 2, 2⟩, halfRead.close) := by
    refine .cons (t := (⟨[65, 66], 2, 2⟩, halfRead.close)) ⟨1, rfl⟩ ?_
    exact .cons ⟨1, rfl⟩ .nil
  refine ⟨_, _, _, _, _, halfRead_run, rfl, hlater, rfl, rfl, ?_⟩
  have hsession : (removed halfRead).socket = halfRead := rfl
  have htick : (removed halfRead).pollSchedulerTick smallKcp 2 =
      ({ removed halfRead with socket := halfRead.close, ioTask := false }, none,
        some ⟨[10, 0, 0, 1], 4000⟩) := rfl
  refine (end_of_file smallKcp_receives rfl halfRead_run hsession htick hlater ?_
    ⟨_, .tail _ (.head _), rfl⟩).1
  intro e he
  cases he with
  | head => exact Nat.succ_pos 7
  | tail _ he =>
    cases he with
    | head => exact Nat.succ_pos 7
    | tail _ he => cases he

/-- The byte of a message that came before the session was removed is not read. -/
theorem end_of_file_loses : smallKcp.Receives SmallKcp.messages ∧ ∃ trace x session' later y,
    KcpSocket.new smallKcp reedSolomon {} 1 false 0 = .ok (.ok smallSocket) ∧
    Run (StreamStep smallKcp SmallKcp.messages) (KcpStream.withSession, smallSocket) trace x ∧
    (removed x.2).pollSchedulerTick smallKcp 2 =
      (session', none, some ⟨[10, 0, 0, 1], 4000⟩) ∧
    Run (StreamStep smallKcp SmallKcp.messages) (x.1, session'.socket) later y ∧
    (∀ e ∈ later, e.2.HasRoom) ∧ (∃ e ∈ later, e.2.isEnd = true) ∧
    arrivals trace = [[65]] ∧ returned trace ++ returned (untilEnd later) = [] := by
  let s : KcpSocket SmallKcp :=
    { smallSocket with kcp := { smallSocket.kcp with rcvNxt := 1, messages := [[65]] } }
  have hrun : Run (StreamStep smallKcp SmallKcp.messages) (KcpStream.withSession, smallSocket)
      [((.withSession, smallSocket), .call (.input (segment 1 81 0 [65])) 0 [[65]])]
      (.withSession, s) := .cons (t := (KcpStream.withSession, s)) ⟨rfl, rfl, rfl⟩ .nil
  have hlater : Run (StreamStep smallKcp SmallKcp.messages) (KcpStream.withSession, s.close)
      [((.withSession, s.close), .recv 7 8 3 (.ready (.ok [])))]
      (KcpStream.withSession, s.close) := .cons ⟨1, rfl⟩ .nil
  refine ⟨smallKcp_receives, _, _, _, _, _, smallSocket_new, hrun, rfl, hlater, ?_,
    ⟨_, .head _, rfl⟩, rfl, rfl⟩
  intro e he
  cases he with
  | head => exact Nat.succ_pos 7
  | tail _ he => cases he

end TokioKcp
