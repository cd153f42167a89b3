import TokioKcp.Socket

namespace TokioKcp
set_option autoImplicit true

open Checked Fec

variable {κ : Type}

def KcpSocket.blocked (K : KcpCrate κ) (s : KcpSocket κ) : Bool :=
  s.sentFirst && (K.windowFull s.kcp || K.waitingConv s.kcp)

/-- A control block after any number of flushes. -/
inductive KcpCrate.Flushed (K : KcpCrate κ) : κ → κ → Prop where
  | refl : Flushed K k k
  | flush : Flushed K k l → Flushed K k (K.flush l).1

/-- All that `poll_send` can do. -/
inductive KcpSocket.PollsSend (K : KcpCrate κ) (s : KcpSocket κ) (waker : Waker) (buf : Bytes) :
    KcpSocket κ → Poll (KcpResult Nat) → Prop where
  | closed (hc : s.closed = true) :
    PollsSend K s waker buf s (.ready (.error (.ioError ⟨.brokenPipe, "broken pipe"⟩)))
  | waits (hc : s.closed = false) (hb : s.blocked K = true) :
    PollsSend K s waker buf (s.replaceSender waker) .pending
  | refused (hc : s.closed = false) (hb : s.blocked K = false)
      (hs : K.send s.kcp (buf.take (s.maxSendLen K)) = (k, .error err)) :
    PollsSend K s waker buf { s with kcp := k } (.ready (.error err))
  | taken (hc : s.closed = false) (hb : s.blocked K = false)
      (hs : K.send s.kcp (buf.take (s.maxSendLen K)) = (k, .ok n)) (hf : K.Flushed k l)
      (hr : result = .ok n ∨ ∃ err, result = .error err) :
    PollsSend K s waker buf { s with kcp := l, sentFirst := true, lastUpdateMs := last }
      (.ready result)

/-- Whether a first chunk was sent, and whether the socket is closed. -/
def KcpSocket.phase (self : KcpSocket κ) : Bool × Bool := (self.sentFirst, self.closed)

variable {K : KcpCrate κ} {s t : KcpSocket κ} {waker : Waker} {buf : Bytes} {now : Nat}

theorem KcpCrate.Flushed.keeps {f : κ → β} (h : K.Flushed k l)
    (hf : ∀ k, f (K.flush k).1 = f k) : f l = f k := by
  induction h with
  | refl => rfl
  | flush _ ih => exact (hf _).trans ih

theorem KcpSocket.sent_cases (K : KcpCrate κ) (s : KcpSocket κ) (n now : Nat) :
    ∃ l last result, K.Flushed s.kcp l ∧
      s.sent K n now =
        ({ s with kcp := l, sentFirst := true, lastUpdateMs := last }, result) ∧
      (result = .ok n ∨ ∃ err, result = .error err) := by
  have hflush (u : KcpSocket κ) (condition : Bool) (hu : K.Flushed s.kcp u.kcp) :
      ∃ l result, K.Flushed s.kcp l ∧ u.flushIf K condition = ({ u with kcp := l }, result) := by
    rw [KcpSocket.flushIf]
    split
    · exact ⟨(K.flush u.kcp).1, _, .flush hu, rfl⟩
    · exact ⟨u.kcp, _, hu, rfl⟩
  rw [KcpSocket.sent]
  dsimp only
  obtain ⟨k, result, hk, hfull⟩ :=
    hflush { s with sentFirst := true } (K.windowFull s.kcp) .refl
  rw [hfull]
  cases result with
  | error err => exact ⟨k, s.lastUpdateMs, .error err, hk, rfl, .inr ⟨err, rfl⟩⟩
  | ok _ =>
    dsimp only
    obtain ⟨l, result, hl, hwrite⟩ :=
      hflush { s with kcp := k, sentFirst := true, lastUpdateMs := now } s.flushWrite hk
    rw [hwrite]
    cases result with
    | error err => exact ⟨l, now, .error err, hl, rfl, .inr ⟨err, rfl⟩⟩
    | ok _ => exact ⟨l, now, .ok n, hl, rfl, .inl rfl⟩

theorem KcpSocket.pollSend_cases (K : KcpCrate κ) (s : KcpSocket κ) (waker : Waker) (buf : Bytes)
    (now : Nat) :
    s.PollsSend K waker buf (s.pollSend K waker buf now).1 (s.pollSend K waker buf now).2 := by
  rw [KcpSocket.pollSend]
  split
  · rename_i hc
    exact .closed hc
  · rename_i hc
    rw [Bool.not_eq_true] at hc
    split
    · rename_i hb
      exact .waits hc hb
    · rename_i hb
      have hb : s.blocked K = false := Bool.not_eq_true _ ▸ hb
      split
      · rename_i hs
        exact .refused hc hb hs
      · rename_i k n hs
        obtain ⟨l, last, result, hf, he, hr⟩ := { s with kcp := k }.sent_cases K n now
        rw [he]
        exact .taken hc hb hs hf hr

theorem KcpSocket.PollsSend.closed_eq (h : s.PollsSend K waker buf t result) :
    t.closed = s.closed := by
  cases h with
  | closed hc => rfl
  | waits hc hb => rfl
  | refused hc hb hs => rfl
  | taken hc hb hs hf hr => rfl

theorem KcpSocket.inputKcp_phase (K : KcpCrate κ) (s : KcpSocket κ) (buf : Bytes) (now : Nat) :
    (s.inputKcp K buf now).1.phase = s.phase := by
  obtain ⟨kcp, last, sender, receiver, woken, _, h⟩ := s.inputKcp_eq K buf now
  rw [h]
  rfl

theorem KcpSocket.inputEach_phase (K : KcpCrate κ) (s : KcpSocket κ) (waked : Bool) (now : Nat)
    (bufs : List Bytes) : (s.inputEach K waked now bufs).1.phase = s.phase := by
  induction bufs generalizing s waked with
  | nil => rfl
  | cons buf bufs ih =>
    have hone := s.inputKcp_phase K buf now
    rw [KcpSocket.inputEach]
    split
    · rename_i he
      rw [he] at hone
      exact hone
    · rename_i self woke he
      rw [he] at hone
      exact (ih self (waked || woke)).trans hone

theorem KcpSocket.input_phase (h : s.input K buf now = .ok (t, result)) : t.phase = s.phase := by
  rw [KcpSocket.input] at h
  split at h
  · have hu := s.inputEach_phase K false now (dataPayload buf).toList
    obtain ⟨u, rfl, ⟨rfl, _⟩ | ⟨waked, _, decoder, _, _, _, _, ⟨rfl, _⟩ | ⟨recovered, _, rfl⟩⟩⟩ :=
      inputFec_cases h
    · exact hu
    · exact hu
    · exact (inputEach_phase K _ waked now recovered).trans hu
  · have he : (s.inputKcp K buf now).1 = t := congrArg Prod.fst (Except.ok.inj h)
    rw [← he]
    exact s.inputKcp_phase K buf now

theorem KcpSocket.pollRecv_phase (K : KcpCrate κ) (s : KcpSocket κ) (waker : Waker)
    (len now : Nat) : (s.pollRecv K waker len now).1.phase = s.phase := by
  rw [KcpSocket.pollRecv]
  split
  · rfl
  · dsimp only
    split
    · rfl
    · rfl
    · rfl
    · split
      · rfl
      · rfl

theorem KcpSocket.updateAt_phase (K : KcpCrate κ) (s : KcpSocket κ) (nowMs : Nat) :
    (s.updateAt K nowMs).1.phase = s.phase := by
  rw [KcpSocket.updateAt]
  dsimp only
  split
  · rfl
  · rename_i kcp _
    obtain ⟨sender, woken, h⟩ := { s with kcp := kcp }.tryWakePendingSender_eq K
    rw [h]
    rfl

theorem KcpSocket.flush_phase (K : KcpCrate κ) (s : KcpSocket κ) (now : Nat) :
    (s.flush K now).1.phase = s.phase := by
  rw [KcpSocket.flush]
  split
  · rfl
  · rfl

theorem KcpSocket.pollRecv_kcp (K : KcpCrate κ) (s : KcpSocket κ) (waker : Waker)
    (len now : Nat) : (s.pollRecv K waker len now).1.kcp = s.kcp ∨
      (s.pollRecv K waker len now).1.kcp = (K.recv s.kcp len).1 := by
  rw [KcpSocket.pollRecv]
  split
  · exact .inl rfl
  · right
    dsimp only
    split
    · rfl
    · rfl
    · rfl
    · split
      · rfl
      · rfl

theorem KcpSocket.updateAt_kcp (K : KcpCrate κ) (s : KcpSocket κ) (nowMs : Nat) :
    (s.updateAt K nowMs).1.kcp = (K.update s.kcp (.ofNat nowMs)).1 := by
  rw [KcpSocket.updateAt]
  dsimp only
  split
  · rename_i he
    rw [he]
  · rename_i kcp he
    obtain ⟨sender, woken, h⟩ := { s with kcp := kcp }.tryWakePendingSender_eq K
    rw [h, he]

theorem KcpSocket.flush_kcp (K : KcpCrate κ) (s : KcpSocket κ) (now : Nat) :
    (s.flush K now).1.kcp = (K.flush s.kcp).1 := by
  rw [KcpSocket.flush]
  split
  · rename_i he
    rw [he]
  · rename_i he
    rw [he]

theorem KcpSocket.Step.closed_iff {call : SocketCall} (h : s.Step K (call, now) t) :
    t.closed = true ↔ s.closed = true ∨ call = .close := by
  have hsame (hp : t.closed = s.closed) (hne : call ≠ .close) :
      t.closed = true ↔ s.closed = true ∨ call = .close := by
    rw [hp, or_iff_left hne]
  cases call with
  | input buf =>
    obtain ⟨⟨u, result⟩, hu, he⟩ := bind_eq_ok.mp h
    cases he
    exact hsame (congrArg Prod.snd (input_phase hu)) nofun
  | pollSend waker buf =>
    cases h
    exact hsame (s.pollSend_cases K waker buf now).closed_eq nofun
  | pollRecv waker len =>
    cases h
    exact hsame (congrArg Prod.snd (s.pollRecv_phase K waker len now)) nofun
  | updateAt =>
    cases h
    exact hsame (congrArg Prod.snd (s.updateAt_phase K now)) nofun
  | flush =>
    cases h
    exact hsame (congrArg Prod.snd (s.flush_phase K now)) nofun
  | close =>
    cases h
    exact iff_of_true rfl (.inr rfl)

end TokioKcp
