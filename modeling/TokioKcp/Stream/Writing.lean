import TokioKcp.Stream
import TokioKcp.SmallSender

namespace TokioKcp
set_option autoImplicit true

open Checked Fec Transition

variable {κ : Type}

def KcpSocket.heldBytes (side : κ → SendSide) (s : KcpSocket κ) : Bytes :=
  (side s.kcp).segments.flatten

def KcpSocket.chunkLimit (K : KcpCrate κ) (s : KcpSocket κ) : Nat :=
  K.mss s.kcp * if s.sentFirst = false ∧ K.waitingConv s.kcp = true then 1 else maxSendSegments

/-- What happens while a stream sends a buffer: the stream polls, with the given result, and
bytes are added to those that KCP holds; or something else happens to the socket. -/
inductive SendEvent where
  | poll (waker : Waker) (now : Nat) (result : Poll (KcpResult Nat)) (bytes : Bytes)
  | other (op : SocketOp)

def SendStep (K : KcpCrate κ) (side : κ → SendSide) (buf : Bytes) (x : Sending × KcpSocket κ) :
    SendEvent → Sending × KcpSocket κ → Prop
  | .poll waker now result bytes, y =>
    y = KcpStream.sendPoll K buf waker now x.1 x.2 ∧
    (∃ sent, x.1 = .sending sent ∧ result = (x.2.pollSend K waker (buf.drop sent) now).2) ∧
    y.2.heldBytes side = x.2.heldBytes side ++ bytes
  | .other op, y => y.1 = x.1 ∧ x.2.Op K op y.2

def SendEvent.bytes : SendEvent → Bytes
  | .poll _ _ _ bytes => bytes
  | .other _ => []

def SendEvent.accepted : SendEvent → Bool
  | .poll _ _ (.ready (.ok _)) _ => true
  | _ => false

def added (trace : List ((Sending × KcpSocket κ) × SendEvent)) : Bytes :=
  trace.flatMap fun x => x.2.bytes

def chunks (trace : List ((Sending × KcpSocket κ) × SendEvent)) : Nat :=
  trace.countP fun x => x.2.accepted

/-- The progress with a buffer, as the bytes that were added tell it. -/
def Sending.Wrote (buf bytes : Bytes) : Sending → Prop
  | .sending sent => sent < buf.length ∧ bytes = buf.take sent
  | .done (.ok n) => n = buf.length ∧ bytes = buf
  | .done (.error _) => bytes <+: buf

variable {K : KcpCrate κ} {side : κ → SendSide} {s t : KcpSocket κ} {buf bytes : Bytes}
variable {rs : Nat → Nat → Except String ReedSolomon} {config : KcpConfig} {conv : UInt32}
variable {waker : Waker} {result : Poll (KcpResult Nat)} {x y : Sending × KcpSocket κ}
variable {sent now : Nat}

theorem KcpSocket.Sized.chunkLimit_eq (hK : K.Sends side) (h : s.Sized side) :
    s.maxSendLen K = s.chunkLimit K := by
  rw [h.maxSendLen_eq, KcpSocket.chunkLimit, hK.mss]

theorem KcpSocket.Sized.chunkLimit_pos (hK : K.Sends side) (h : s.Sized side) :
    0 < s.chunkLimit K := by
  rw [KcpSocket.chunkLimit, hK.mss]
  apply Nat.mul_pos
  · exact Nat.lt_of_lt_of_le (by decide) h.mss
  · split
    · exact Nat.one_pos
    · decide

/-- A call adds nothing, or the next chunk of the buffer; if it succeeds then the chunk. -/
theorem KcpSocket.PollsSend.adds (hK : K.Sends side) (hw : K.Waits) (hs : s.Sized side)
    (h : s.PollsSend K waker buf t result) :
    (t.heldBytes side = s.heldBytes side ∧ ∀ n, result ≠ .ready (.ok n)) ∨
    (t.heldBytes side = s.heldBytes side ++ buf.take (s.chunkLimit K) ∧
      (result = .ready (.ok (min (s.chunkLimit K) buf.length)) ∨
        ∃ err, result = .ready (.error err))) := by
  have hmss : 0 < (side s.kcp).mss := Nat.lt_of_lt_of_le (by decide) hs.mss
  rcases h.sends hK hw hs with ⟨hnothing, hresult⟩ | ⟨hchunk, hresult⟩
  · left
    rw [KcpSocket.heldBytes, hnothing.kcp]
    exact ⟨rfl, hresult⟩
  · right
    rw [s.length_chunk, hs.chunkLimit_eq hK] at hresult
    rw [KcpSocket.heldBytes, hchunk.holds.segments, SendSide.flatten_send _ hmss,
      KcpSocket.chunk, hs.chunkLimit_eq hK]
    exact ⟨rfl, hresult⟩

theorem KcpStream.sendPoll_wrote (hK : K.Sends side) (hw : K.Waits) (hs : s.Sized side)
    (hlt : sent < buf.length) (hy : y = KcpStream.sendPoll K buf waker now (.sending sent) s)
    (hbytes : y.2.heldBytes side = s.heldBytes side ++ bytes) :
    y.1.Wrote buf (buf.take sent ++ bytes) ∧
      ((∃ n, (s.pollSend K waker (buf.drop sent) now).2 = .ready (.ok n)) → bytes ≠ []) := by
  have hcases := s.pollSend_cases K waker (buf.drop sent) now
  rcases hp : s.pollSend K waker (buf.drop sent) now with ⟨t, result⟩
  rw [hp] at hcases
  rw [KcpStream.sendPoll, hp] at hy
  rcases hcases.adds hK hw hs with ⟨hheld, hresult⟩ | ⟨hheld, hresult⟩
  · have hnone (ht : y.2 = t) : bytes = [] := by
      rw [ht, hheld] at hbytes
      exact List.self_eq_append_right.mp hbytes
    cases result with
    | pending =>
      rw [hnone (congrArg Prod.snd hy), hy, List.append_nil]
      exact ⟨⟨hlt, rfl⟩, nofun⟩
    | ready result =>
      cases result with
      | error err =>
        rw [hnone (congrArg Prod.snd hy), hy, List.append_nil]
        exact ⟨List.take_prefix _ _, nofun⟩
      | ok n => exact absurd rfl (hresult n)
  · have hchunk (ht : y.2 = t) : bytes = (buf.drop sent).take (s.chunkLimit K) := by
      rw [ht, hheld] at hbytes
      exact (List.append_cancel_left hbytes).symm
    have hlimit := hs.chunkLimit_pos hK
    rcases hresult with rfl | ⟨err, rfl⟩
    · rw [hchunk (congrArg Prod.snd hy), hy, ← List.take_add]
      rw [List.length_drop]
      constructor
      · dsimp only
        split
        · rename_i hmore
          refine ⟨hmore, ?_⟩
          congr 1
          omega
        · rename_i hend
          refine ⟨by omega, List.take_of_length_le (by omega)⟩
      · intro _ hnil
        rcases List.take_eq_nil_iff.mp hnil with hzero | hdrop
        · omega
        · have hlen := congrArg List.length hdrop
          rw [List.length_drop, List.length_nil] at hlen
          omega
    · rw [hchunk (congrArg Prod.snd hy), hy, ← List.take_add]
      exact ⟨List.take_prefix _ _, nofun⟩

theorem SendStep.wrote {event : SendEvent} {written : Bytes} (hK : K.Sends side) (hw : K.Waits)
    (hs : x.2.Sized side) (h : SendStep K side buf x event y) (hx : x.1.Wrote buf written) :
    y.1.Wrote buf (written ++ event.bytes) ∧
      (event.accepted = true → event.bytes ≠ []) := by
  obtain ⟨progress, s⟩ := x
  cases event with
  | poll waker now result bytes =>
    obtain ⟨hy, ⟨sent, hsending, hresult⟩, hbytes⟩ := h
    cases hsending
    obtain ⟨hlt, rfl⟩ := hx
    obtain ⟨hwrote, hsome⟩ := KcpStream.sendPoll_wrote hK hw hs hlt hy hbytes
    refine ⟨hwrote, fun haccepted => hsome ?_⟩
    rw [← hresult]
    cases result with
    | pending => cases haccepted
    | ready result =>
      cases result with
      | error err => cases haccepted
      | ok n => exact ⟨n, rfl⟩
  | other op =>
    change y.1.Wrote buf (written ++ []) ∧ _
    rw [List.append_nil, h.1]
    exact ⟨hx, nofun⟩

theorem SendStep.sending {event : SendEvent} (hK : K.Sends side) (hw : K.Waits)
    (h : SendStep K side buf x event y) (hs : x.2.Sized side ∧ x.2.Unsent side) :
    y.2.Sized side ∧ y.2.Unsent side := by
  cases event with
  | poll waker now result bytes =>
    obtain ⟨hy, ⟨sent, hsending, _⟩, _⟩ := h
    have hop : x.2.Op K (.call (.pollSend waker (buf.drop sent)) now) y.2 := by
      change Except.ok _ = Except.ok _
      rw [hy, hsending, KcpStream.sendPoll]
      split
      · rename_i he
        rw [he]
      · rename_i he
        rw [he]
      · rename_i he
        rw [he]
    exact hop.sending hK hw hs
  | other op => exact KcpSocket.Op.sending hK hw h.2 hs

theorem Sending.Wrote.run {trace : List ((Sending × KcpSocket κ) × SendEvent)} {written : Bytes}
    (hK : K.Sends side) (hw : K.Waits) (h : Run (SendStep K side buf) x trace y)
    (hs : x.2.Sized side ∧ x.2.Unsent side) (hx : x.1.Wrote buf written) :
    y.1.Wrote buf (written ++ added trace) ∧ chunks trace ≤ (added trace).length := by
  induction h generalizing written with
  | nil =>
    rw [added, List.flatMap_nil, List.append_nil]
    exact ⟨hx, Nat.le_refl 0⟩
  | @cons x event z trace y hstep _ ih =>
    obtain ⟨hz, hsome⟩ := hstep.wrote hK hw hs.1 hx
    obtain ⟨hy, hcount⟩ := ih (hstep.sending hK hw hs) hz
    rw [added, List.flatMap_cons, ← List.append_assoc, List.length_append]
    refine ⟨hy, ?_⟩
    rw [chunks, List.countP_cons]
    change chunks trace + _ ≤ event.bytes.length + (added trace).length
    split
    · rename_i haccepted
      have hpos := List.length_pos_of_ne_nil (hsome haccepted)
      omega
    · omega

theorem Sending.Wrote.initial {progress : Sending} (h : progress.Wrote buf bytes) :
    bytes <+: buf := by
  cases progress with
  | sending sent =>
    rw [h.2]
    exact List.take_prefix _ _
  | done result =>
    cases result with
    | ok n => exact h.2 ▸ List.prefix_refl _
    | error err => exact h

/-- Sending splits a buffer without loss. KCP refuses no chunk, each call that succeeds adds
exactly the next chunk, and so what a stream adds while it sends a buffer is the front of that
buffer, in at most as many chunks as it has bytes, and all of it at the end. -/
theorem send_splits {ops : List (KcpSocket κ × SocketOp)} (hK : K.Sends side) (hw : K.Waits)
    (hnew : KcpSocket.new K rs config conv stream now = .ok (.ok s))
    (hops : Run (KcpSocket.Op K) s ops t) (hbuf : buf ≠ []) :
    let n := min (t.chunkLimit K) buf.length
    (1 ≤ n ∧ (K.send t.kcp (buf.take (t.maxSendLen K))).2 = .ok n ∧
      ∀ waker now u result, t.pollSend K waker buf now = (u, result) →
        (u.heldBytes side = t.heldBytes side ∨
          u.heldBytes side = t.heldBytes side ++ buf.take n) ∧
        ∀ m, result = .ready (.ok m) →
          m = n ∧ u.heldBytes side = t.heldBytes side ++ buf.take n) ∧
    ∀ trace x, Run (SendStep K side buf) (.start, t) trace x →
      added trace <+: buf ∧ chunks trace ≤ buf.length ∧
      ∀ m, x.1 = .done (.ok m) → m = buf.length ∧ added trace = buf := by
  intro n
  have hready := (KcpSocket.run_sending hK hw hnew hops).2
  have hlen := List.length_pos_of_ne_nil hbuf
  constructor
  · obtain ⟨_, _, hok⟩ := hready.1.accepts hK buf
    rw [t.length_chunk, hready.1.chunkLimit_eq hK] at hok
    refine ⟨Nat.le_min.mpr ⟨hready.1.chunkLimit_pos hK, hlen⟩, hok, ?_⟩
    intro waker now u result hpoll
    have htake : buf.take (t.chunkLimit K) = buf.take n := List.take_eq_take_min
    have hcases := t.pollSend_cases K waker buf now
    rw [hpoll] at hcases
    have hadds := hcases.adds hK hw hready.1
    rw [htake] at hadds
    rcases hadds with ⟨hheld, hresult⟩ | ⟨hheld, hresult⟩
    · exact ⟨.inl hheld, fun m hm => absurd hm (hresult m)⟩
    · refine ⟨.inr hheld, ?_⟩
      rintro m rfl
      rcases hresult with hm | ⟨err, he⟩
      · cases hm
        exact ⟨rfl, hheld⟩
      · cases he
  · intro trace x hrun
    have hstart : Sending.start.Wrote buf [] := ⟨hlen, rfl⟩
    obtain ⟨hwrote, hcount⟩ := hstart.run hK hw hrun hready
    rw [List.nil_append] at hwrote
    have hinitial := hwrote.initial
    refine ⟨hinitial, Nat.le_trans hcount hinitial.length_le, ?_⟩
    intro m hm
    rw [hm] at hwrote
    exact hwrote

/-- A client sends 30 bytes: 26 to ask for a conversation, and the others once it has one. -/
theorem send_splits_small : ∃ trace x,
    trace.map Prod.snd = [.poll 5 1 (.ready (.ok 26)) (List.replicate 26 65), .poll 5 2 .pending [],
      .other (.call (.input (segment 7 81 0 [66])) 3),
      .poll 5 4 (.ready (.ok 4)) (List.replicate 4 65)] ∧
    Run (SendStep smallSender SmallSender.side (List.replicate 30 65))
      (.start, smallClient false) trace x ∧
    x.1 = .done (.ok 30) ∧ added trace = List.replicate 30 65 ∧ chunks trace ≤ 30 := by
  let first : KcpSocket SmallSender :=
    { smallClient false with
      kcp := { (smallClient false).kcp with
        kcp := { (smallClient false).kcp.kcp with sndQueue := [List.replicate 26 65] } }
      sentFirst := true
      lastUpdateMs := 1 }
  let given : KcpSocket SmallSender :=
    { first with
      kcp := { first.kcp with
        kcp := { first.kcp.kcp with
          conv := 7, inputConv := false, rcvNxt := 1, messages := [[66]] } }
      lastUpdateMs := 3
      woken := [5] }
  let last : KcpSocket SmallSender :=
    { given with
      kcp := { given.kcp with
        kcp := { given.kcp.kcp with
          sndQueue := [List.replicate 26 65, List.replicate 4 65] } }
      lastUpdateMs := 4 }
  have hrun : Run (SendStep smallSender SmallSender.side (List.replicate 30 65))
      (.start, smallClient false)
      [((.start, smallClient false), .poll 5 1 (.ready (.ok 26)) (List.replicate 26 65)),
        ((.sending 26, first), .poll 5 2 .pending []),
        ((.sending 26, { first with pendingSender := some 5 }),
          .other (.call (.input (segment 7 81 0 [66])) 3)),
        ((.sending 26, given), .poll 5 4 (.ready (.ok 4)) (List.replicate 4 65))]
      (.done (.ok 30), last) := by
    refine .cons (t := (.sending 26, first)) ⟨rfl, ⟨0, rfl, rfl⟩, rfl⟩ ?_
    refine .cons (t := (.sending 26, { first with pendingSender := some 5 }))
      ⟨rfl, ⟨26, rfl, rfl⟩, rfl⟩ ?_
    refine .cons (t := (.sending 26, given)) ⟨rfl, rfl⟩ ?_
    exact .cons ⟨rfl, ⟨26, rfl, rfl⟩, rfl⟩ .nil
  obtain ⟨_, hsends⟩ := send_splits smallSender_sends smallSender_waits (smallClient_new false)
    .nil (List.cons_ne_nil 65 (List.replicate 29 65))
  obtain ⟨_, hcount, hdone⟩ := hsends _ _ hrun
  exact ⟨_, _, rfl, hrun, rfl, (hdone 30 rfl).2, hcount⟩

end TokioKcp
