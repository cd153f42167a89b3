import TokioKcp.SmallSender

namespace TokioKcp
set_option autoImplicit true

open Checked Fec Transition Fragments

variable {κ : Type}

/-- The segments that an operation adds to those KCP holds. -/
def KcpSocket.queues (K : KcpCrate κ) (side : κ → SendSide) (s : KcpSocket κ) :
    SocketOp → List Bytes
  | .call (.pollSend _ buf) _ =>
    if s.closed || s.blocked K then [] else (side s.kcp).further (s.chunk K buf)
  | _ => []

def queued (K : KcpCrate κ) (side : κ → SendSide) (trace : List (KcpSocket κ × SocketOp)) :
    List Bytes :=
  trace.flatMap fun x => x.1.queues K side x.2

/-- While a socket waits for a conversation it has added one segment at most. -/
structure KcpSocket.AsksOnce (side : κ → SendSide) (added : List Bytes) (s : KcpSocket κ) :
    Prop where
  length : added.length ≤ 1
  fits : ∀ segment ∈ added, segment.length ≤ (side s.kcp).mss
  held : (side s.kcp).segments.Sublist added

/-- What bounds the segments that a socket holds, with those that were added so far. -/
structure KcpSocket.Backlog (K : KcpCrate κ) (side : κ → SendSide) (added : List Bytes)
    (s : KcpSocket κ) : Prop where
  sized : s.Sized side
  unsent : s.Unsent side
  length : (side s.kcp).segments.length ≤ (side s.kcp).sndWnd - 1 + maxSendSegments
  first : s.sentFirst = false → added = []
  waiting : K.waitingConv s.kcp = true → s.AsksOnce side added

variable {K : KcpCrate κ} {side : κ → SendSide} {s t : KcpSocket κ} {op : SocketOp}
variable {rs : Nat → Nat → Except String ReedSolomon} {config : KcpConfig} {conv : UInt32}
variable {added : List Bytes}

theorem KcpSocket.queues_quiet (h : op.isQuiet = true) : s.queues K side op = [] := by
  cases op with
  | setConv conv => rfl
  | call call now =>
    cases call with
    | pollSend waker buf => cases h
    | _ => rfl

theorem KcpSocket.SendsChunk.free_cases (hK : K.Sends side) (h : s.SendsChunk K side buf t) :
    s.sentFirst = false ∨
      K.waitingConv s.kcp = false ∧ (side s.kcp).segments.length < (side s.kcp).sndWnd := by
  have hfree := h.free
  cases hsent : s.sentFirst with
  | false => exact .inl rfl
  | true =>
    right
    rw [KcpSocket.blocked, hsent, Bool.true_and, Bool.or_eq_false_iff] at hfree
    obtain ⟨hfull, hwaiting⟩ := hfree
    rw [KcpCrate.windowFull, Bool.or_eq_false_iff, hK.waitSnd, hK.sndWnd] at hfull
    exact ⟨hwaiting, Nat.lt_of_not_le (of_decide_eq_false hfull.1)⟩

theorem KcpSocket.SendsChunk.backlog (hK : K.Sends side) (h : s.SendsChunk K side buf t)
    (hsized : t.Sized side) (hunsent : t.Unsent side) (hs : s.Backlog K side added) :
    t.Backlog K side (added ++ (side s.kcp).further (s.chunk K buf)) := by
  have hneeds := (hs.sized.accepts hK buf).1
  have hsetup := h.holds.setup
  have hsent : t.sentFirst = true := congrArg Prod.fst h.phase
  refine ⟨hsized, hunsent, ?_, ?_, ?_⟩
  · rw [h.holds.segments, SendSide.length_send, SendSide.sndWnd_eq hsetup]
    change _ ≤ (side s.kcp).sndWnd - 1 + _
    rcases h.free_cases hK with hfirst | ⟨_, hlt⟩
    · rw [hs.unsent hfirst]
      change 0 + _ ≤ _
      omega
    · omega
  · intro hfirst
    exact absurd (hsent.symm.trans hfirst) (by decide)
  · intro hwaiting
    rw [h.waiting] at hwaiting
    rcases h.free_cases hK with hfirst | ⟨hgiven, _⟩
    · have hmss := SendSide.mss_eq hsetup
      have hempty := hs.unsent hfirst
      have hqueue : (side s.kcp).sndQueue = [] := (List.append_eq_nil_iff.mp hempty).2
      have hlen : (s.chunk K buf).length ≤ (side s.kcp).mss * 1 := by
        rw [s.length_chunk, hs.sized.maxSendLen_eq, if_pos ⟨hfirst, hwaiting⟩]
        exact Nat.min_le_left _ _
      rw [hs.first hfirst, List.nil_append]
      refine ⟨?_, ?_, ?_⟩
      · rw [SendSide.further, length_cut]
        exact (side s.kcp).needs_le Nat.one_pos hlen
      · intro segment hmem
        rw [hmss]
        exact length_le_of_mem_cut hmem
      · have hfill : ((side s.kcp).fill (s.chunk K buf)).1 = [] := by
          apply List.eq_nil_of_length_eq_zero
          rw [SendSide.length_fill, hqueue]
          rfl
        rw [h.holds.segments]
        change ((side s.kcp).sndBuf ++ (((side s.kcp).fill (s.chunk K buf)).1 ++ _)).Sublist _
        rw [(List.append_eq_nil_iff.mp hempty).1, hfill]
        exact List.Sublist.refl _
    · exact absurd (hgiven.symm.trans hwaiting) (by decide)

theorem KcpSocket.Backlog.acked (h : s.Backlog K side added)
    (hacked : (side s.kcp).Acked (side t.kcp)) (hsized : t.Sized side)
    (hunsent : t.Unsent side) (hsent : t.sentFirst = s.sentFirst)
    (hwaiting : K.waitingConv t.kcp = true → K.waitingConv s.kcp = true) :
    t.Backlog K side added := by
  refine ⟨hsized, hunsent, ?_, ?_, ?_⟩
  · rw [SendSide.sndWnd_eq hacked.setup]
    exact Nat.le_trans hacked.segments.length_le h.length
  · intro hfirst
    exact h.first (hsent.symm.trans hfirst)
  · intro hwait
    obtain ⟨hlength, hfits, hheld⟩ := h.waiting (hwaiting hwait)
    rw [← SendSide.mss_eq hacked.setup] at hfits
    exact ⟨hlength, hfits, hacked.segments.trans hheld⟩

theorem KcpSocket.Effect.backlog (hK : K.Sends side) (hw : K.Waits) (h : s.Effect K side op t)
    (hs : s.Backlog K side added) : t.Backlog K side (added ++ s.queues K side op) := by
  have hsized := h.sized hK hw hs.sized
  have hunsent := h.unsent hK hw hs.sized hs.unsent
  cases h with
  | @pollSend waker buf t result now h =>
    rw [KcpSocket.queues]
    rcases h.sends hK hw hs.sized with ⟨hnothing, _⟩ | ⟨hchunk, _⟩
    · rw [if_pos (Bool.or_eq_true_iff.mpr hnothing.kept), List.append_nil]
      apply hs.acked _ hsized hunsent (congrArg Prod.fst hnothing.phase)
      · rw [hnothing.kcp]
        exact id
      · rw [hnothing.kcp]
        exact (SendSide.Holds.refl _).acked
    · have hopen : ¬(s.closed || s.blocked K) = true := by
        rw [hchunk.isOpen, hchunk.free]
        exact Bool.false_ne_true
      rw [if_neg hopen]
      exact hchunk.backlog hK hsized hunsent hs
  | input hkcp hphase hsettings =>
    change t.Backlog K side (added ++ [])
    rw [List.append_nil]
    apply hs.acked _ hsized hunsent (congrArg Prod.fst hphase)
    · intro hwait
      cases hgiven : K.waitingConv s.kcp with
      | true => rfl
      | false =>
        rw [hkcp, hw.takes _ _ hgiven] at hwait
        exact hwait
    · rw [hkcp]
      exact hK.takes _ _ _
  | quiet hop h =>
    rw [s.queues_quiet hop, List.append_nil]
    apply hs.acked h.holds.acked hsized hunsent h.sentFirst
    rw [h.waiting]
    exact id

theorem KcpSocket.Backlog.run {trace : List (KcpSocket κ × SocketOp)} (hK : K.Sends side)
    (hw : K.Waits) (h : Run (KcpSocket.Op K) s trace t) (hs : s.Backlog K side added) :
    t.Backlog K side (added ++ queued K side trace) ∧
      (side t.kcp).setup = (side s.kcp).setup := by
  induction h generalizing added with
  | nil =>
    rw [queued, List.flatMap_nil, List.append_nil]
    exact ⟨hs, rfl⟩
  | cons hop _ ih =>
    have heffect := hop.effect hK hw
    obtain ⟨ht, hsetup⟩ := ih (heffect.backlog hK hw hs)
    rw [queued, List.flatMap_cons, ← List.append_assoc]
    exact ⟨ht, hsetup.trans (heffect.setup hK hw hs.sized).1⟩

/-- The segments that a socket holds are bounded: by the send window and one more chunk, and by
one segment while it waits for a conversation. -/
theorem backlog_bounded {trace : List (KcpSocket κ × SocketOp)} (hK : K.Sends side)
    (hw : K.Waits) (hnew : KcpSocket.new K rs config conv stream now = .ok (.ok s))
    (hrun : Run (KcpSocket.Op K) s trace t) :
    K.sndWnd t.kcp = K.sndWnd s.kcp ∧
    K.waitSnd t.kcp ≤ K.sndWnd t.kcp - 1 + maxSendSegments ∧
    (K.waitingConv t.kcp = true →
      (queued K side trace).length ≤ 1 ∧
      (∀ segment ∈ queued K side trace, segment.length ≤ K.mss t.kcp) ∧
      (side t.kcp).segments.Sublist (queued K side trace)) := by
  have hfresh := KcpSocket.new_fresh hnew
  obtain ⟨hsized, hunsent, _⟩ := hfresh.sending hK
  have hempty := hunsent hfresh.fields.2.1
  have hstart : s.Backlog K side [] := by
    refine ⟨hsized, hunsent, ?_, fun _ => rfl, fun _ => ⟨Nat.zero_le 1, nofun, ?_⟩⟩
    · rw [hempty]
      exact Nat.zero_le _
    · rw [hempty]
  obtain ⟨ht, hsetup⟩ := hstart.run hK hw hrun
  rw [List.nil_append] at ht
  rw [hK.waitSnd, hK.sndWnd, hK.sndWnd, hK.mss]
  refine ⟨SendSide.sndWnd_eq hsetup, ht.length, fun hwaiting => ?_⟩
  obtain ⟨hlength, hfits, hheld⟩ := ht.waiting hwaiting
  exact ⟨hlength, hfits, hheld⟩

/-- A client that asks for a conversation with the first 26 of 30 bytes, and then has to wait. -/
theorem backlog_bounded_small : ∃ trace t,
    trace.map Prod.snd = [.call (.pollSend 5 (List.replicate 30 65)) 1,
      .call (.pollSend 5 (List.replicate 4 65)) 2] ∧
    Run (KcpSocket.Op smallSender) (smallClient false) trace t ∧
    queued smallSender SmallSender.side trace = [List.replicate 26 65] ∧
    smallSender.waitSnd t.kcp ≤ 256 - 1 + 127 ∧
    (t.kcp.side).segments.Sublist [List.replicate 26 65] := by
  let s : KcpSocket SmallSender :=
    { smallClient false with
      kcp := { (smallClient false).kcp with
        kcp := { (smallClient false).kcp.kcp with sndQueue := [List.replicate 26 65] } }
      sentFirst := true
      lastUpdateMs := 1 }
  have hrun : Run (KcpSocket.Op smallSender) (smallClient false)
      [(smallClient false, .call (.pollSend 5 (List.replicate 30 65)) 1),
        (s, .call (.pollSend 5 (List.replicate 4 65)) 2)]
      { s with pendingSender := some 5 } := .cons (t := s) rfl (.cons rfl .nil)
  obtain ⟨_, hbound, hasks⟩ :=
    backlog_bounded smallSender_sends smallSender_waits (smallClient_new false) hrun
  obtain ⟨_, _, hheld⟩ := hasks rfl
  exact ⟨_, _, rfl, hrun, rfl, hbound, hheld⟩

end TokioKcp
