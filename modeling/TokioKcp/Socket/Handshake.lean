import TokioKcp.Socket.Backlog
import TokioKcp.Socket.Payloads
import TokioKcp.Socket.Wakers

namespace TokioKcp
set_option autoImplicit true

open Checked Fec Transition Fragments

variable {κ : Type}

/-- If a sender has to wait for a conversation, there is a segment that asks for one. -/
def KcpSocket.Asks (K : KcpCrate κ) (s : KcpSocket κ) : Prop :=
  s.SendPends K → K.waitingConv s.kcp = true → 0 < K.waitSnd s.kcp

/-- A datagram gives a conversation: among the payloads that it brings to KCP, one names another
than the socket's. -/
def KcpSocket.Named (K : KcpCrate κ) (s : KcpSocket κ) (buf : Bytes) : Prop :=
  ∃ payload ∈ K.reached s.flushAckInput s.kcp (s.offered buf),
    namesOther (K.conv s.kcp) payload = true

/-- The condition on an operation under which a segment goes on asking: the first chunk that is
sent is not empty in stream mode, and a datagram that names no other conversation does not
acknowledge all segments. -/
def KcpSocket.KeepsAsking (K : KcpCrate κ) (side : κ → SendSide) (s : KcpSocket κ) :
    SocketOp → Prop
  | .call (.pollSend _ buf) _ =>
    s.phase = (false, false) → K.waitingConv s.kcp = true → (side s.kcp).stream = true → buf ≠ []
  | .call (.input buf) _ =>
    s.phase = (true, false) → K.waitingConv s.kcp = true →
      s.Named K buf ∨ 0 < K.waitSnd (K.takes s.flushAckInput s.kcp (s.offered buf))
  | _ => True

variable {K : KcpCrate κ} {side : κ → SendSide} {s t : KcpSocket κ} {op : SocketOp}
variable {rs : Nat → Nat → Except String ReedSolomon} {config : KcpConfig} {conv : UInt32}
variable {buf : Bytes}

theorem KcpSocket.asks_iff : s.Asks K ↔
    (s.phase = (true, false) → K.waitingConv s.kcp = true → 0 < K.waitSnd s.kcp) := by
  have hpends (hwait : K.waitingConv s.kcp = true) :
      s.SendPends K ↔ s.phase = (true, false) := by
    rw [sendPends_iff, KcpSocket.blocked, hwait, Bool.or_true, Bool.and_true, KcpSocket.phase,
      Prod.mk.injEq, and_comm]
  constructor
  · intro h hphase hwait
    exact h ((hpends hwait).mpr hphase) hwait
  · intro h hpend hwait
    exact h ((hpends hwait).mp hpend) hwait

theorem KcpSocket.keepsAsking_quiet (h : op.isQuiet = true) : s.KeepsAsking K side op := by
  cases op with
  | setConv conv => trivial
  | call call now =>
    cases call with
    | pollSend waker buf => cases h
    | input buf => cases h
    | _ => trivial

/-- Of an empty send side, only the empty chunk in stream mode makes no segment. -/
theorem SendSide.needs_eq_zero {a : SendSide} (hmss : 0 < a.mss) (hempty : a.segments = []) :
    a.needs buf = 0 ↔ a.stream = true ∧ buf = [] := by
  have hqueue : a.sndQueue = [] := (List.append_eq_nil_iff.mp hempty).2
  have hfill : (a.fill buf).2 = buf := by
    rw [SendSide.fill, hqueue]
    split
    · rfl
    · rfl
  rw [SendSide.needs, hfill]
  split
  · rename_i h
    exact iff_of_true rfl h
  · rename_i h
    exact iff_of_false (Nat.ne_of_gt (count_pos hmss _)) h

theorem KcpSocket.chunk_eq_nil (hs : s.Sized side) (K : KcpCrate κ) :
    s.chunk K buf = [] ↔ buf = [] := by
  have hmss : 0 < (side s.kcp).mss := Nat.lt_of_lt_of_le (by decide) hs.mss
  have hpos : s.maxSendLen K ≠ 0 := by
    rw [hs.maxSendLen_eq]
    apply Nat.ne_of_gt
    apply Nat.mul_pos hmss
    split
    · exact Nat.one_pos
    · decide
  rw [KcpSocket.chunk, List.take_eq_nil_iff, or_iff_right hpos]

theorem KcpSocket.SendsChunk.asks_iff (hK : K.Sends side) (h : s.SendsChunk K side buf t)
    (hs : s.Sized side) (hu : s.Unsent side) :
    t.Asks K ↔ (s.phase = (false, false) → K.waitingConv s.kcp = true →
      (side s.kcp).stream = true → buf ≠ []) := by
  have hmss : 0 < (side s.kcp).mss := Nat.lt_of_lt_of_le (by decide) hs.mss
  rw [KcpSocket.asks_iff, h.waiting, hK.waitSnd, h.holds.segments, SendSide.length_send]
  rcases h.free_cases hK with hfirst | ⟨hgiven, _⟩
  · have hphase : s.phase = (false, false) := Prod.ext hfirst h.isOpen
    have hneeds : (side s.kcp).needs (s.chunk K buf) = 0 ↔ _ :=
      SendSide.needs_eq_zero hmss (hu hfirst)
    rw [KcpSocket.chunk_eq_nil hs] at hneeds
    rw [hu hfirst, List.length_nil, Nat.zero_add, Nat.pos_iff_ne_zero, ne_eq, hneeds, not_and]
    exact ⟨fun hasks _ => hasks h.phase, fun hkeeps _ => hkeeps hphase⟩
  · have hnot (p : Prop) : K.waitingConv s.kcp = true → p := by
      rw [hgiven]
      exact nofun
    exact iff_of_true (fun _ => hnot _) (fun _ => hnot _)

theorem KcpCrate.TakesNamed.judge_named (hn : K.TakesNamed) (hw : K.Waits) {k : κ}
    (hk : K.waitingConv k = true) (flushAck : Bool) (buf : Bytes)
    (h : namesOther (K.conv k) buf = true) : K.waitingConv (K.judge flushAck k buf).1 = false := by
  apply K.judge_leads (P := fun l => K.waitingConv l = false) (hn.named k buf hk h)
  intro l hl
  exact (hw.flushAck l).trans hl

theorem KcpCrate.TakesNamed.judge_unnamed (hn : K.TakesNamed) {k : κ}
    (hk : K.waitingConv k = true) (flushAck : Bool) (buf : Bytes)
    (h : namesOther (K.conv k) buf = false) : K.SameConv k (K.judge flushAck k buf).1 := by
  apply K.judge_leads (P := K.SameConv k) (hn.unnamed k buf hk h)
  intro l hl
  exact ⟨(hn.flushAck l).1.trans hl.1, (hn.flushAck l).2.trans hl.2⟩

/-- A control block waits on exactly if none of the payloads that it gets names another
conversation. -/
theorem KcpCrate.TakesNamed.takes_iff (hn : K.TakesNamed) (hw : K.Waits) {k : κ}
    (hk : K.waitingConv k = true) (flushAck : Bool) (bufs : List Bytes) :
    K.waitingConv (K.takes flushAck k bufs) = true ↔
      ¬∃ payload ∈ K.reached flushAck k bufs, namesOther (K.conv k) payload = true := by
  induction bufs generalizing k with
  | nil =>
    apply iff_of_true hk
    rintro ⟨_, hm, _⟩
    cases hm
  | cons buf bufs ih =>
    have hnamed := hn.judge_named hw hk flushAck buf
    have hunnamed := hn.judge_unnamed hk flushAck buf
    rw [KcpCrate.takes, KcpCrate.reached]
    rcases hj : K.judge flushAck k buf with ⟨l, verdict⟩
    rw [hj] at hnamed hunnamed
    cases hb : namesOther (K.conv k) buf with
    | true =>
      have hgiven := hnamed hb
      have hlost (rest : List Bytes) : ¬(K.waitingConv (K.takes flushAck l rest) = true) := by
        rw [hw.takes flushAck rest hgiven]
        decide
      have hname (rest : List Bytes) :
          ¬¬∃ payload ∈ buf :: rest, namesOther (K.conv k) payload = true :=
        not_not_intro ⟨buf, List.mem_cons_self, hb⟩
      cases verdict with
      | refused => exact iff_of_false (hlost []) (hname [])
      | ignored => exact iff_of_false (hlost bufs) (hname _)
      | accepted => exact iff_of_false (hlost bufs) (hname _)
    | false =>
      obtain ⟨hconv, hwait⟩ := hunnamed hb
      have hskip (rest : List Bytes) :
          (∃ payload ∈ buf :: rest, namesOther (K.conv k) payload = true) ↔
            ∃ payload ∈ rest, namesOther (K.conv k) payload = true := by
        rw [List.exists_mem_cons_iff, hb]
        exact or_iff_right Bool.false_ne_true
      have hrest := ih (hwait.trans hk)
      rw [hconv] at hrest
      cases verdict with
      | refused =>
        apply iff_of_true (hwait.trans hk)
        rw [hskip]
        rintro ⟨_, hm, _⟩
        cases hm
      | ignored =>
        rw [hskip]
        exact hrest
      | accepted =>
        rw [hskip]
        exact hrest

theorem KcpSocket.Effect.asks_iff (hK : K.Sends side) (hw : K.Waits) (hn : K.TakesNamed)
    (h : s.Effect K side op t) (hs : s.Sized side) (hu : s.Unsent side) (hasks : s.Asks K) :
    t.Asks K ↔ s.KeepsAsking K side op := by
  cases h with
  | @pollSend waker buf t result now h =>
    rcases h.sends hK hw hs with ⟨hnothing, _⟩ | ⟨hchunk, _⟩
    · have ht : t.Asks K := by
        rw [KcpSocket.asks_iff] at hasks ⊢
        rw [hnothing.phase, hnothing.kcp]
        exact hasks
      -- a socket that sends nothing is closed, or has sent its first chunk
      have hphase : s.phase ≠ (false, false) := by
        intro hphase
        have hfirst : s.sentFirst = false := congrArg Prod.fst hphase
        have hopen : s.closed = false := congrArg Prod.snd hphase
        rcases hnothing.kept with hclosed | hblocked
        · exact absurd (hopen.symm.trans hclosed) (by decide)
        · rw [KcpSocket.blocked, hfirst, Bool.false_and] at hblocked
          cases hblocked
      exact iff_of_true ht fun h => absurd h hphase
    · exact hchunk.asks_iff hK hs hu
  | input hkcp hphase hsettings =>
    rw [KcpSocket.asks_iff, hphase, hkcp, KcpSocket.KeepsAsking]
    apply imp_congr_right
    intro _
    cases hwait : K.waitingConv s.kcp with
    | false =>
      rw [hw.takes s.flushAckInput _ hwait]
      exact iff_of_true (fun h => absurd h Bool.false_ne_true)
        (fun h => absurd h Bool.false_ne_true)
    | true =>
      rw [hn.takes_iff hw hwait, imp_iff_right rfl, or_iff_not_imp_left, KcpSocket.Named]
  | quiet hop h =>
    apply iff_of_true _ (keepsAsking_quiet hop)
    rw [KcpSocket.asks_iff] at hasks ⊢
    intro hphase
    have hopen : s.closed = false := by
      apply Bool.eq_false_of_not_eq_true
      intro hclosed
      exact absurd ((congrArg Prod.snd hphase).symm.trans (h.closed hclosed)) (by decide)
    have hsame : s.phase = (true, false) :=
      Prod.ext (h.sentFirst.symm.trans (congrArg Prod.fst hphase)) hopen
    rw [h.waiting, hK.waitSnd, h.holds.segments, ← hK.waitSnd]
    exact hasks hsame

/-- In a run of operations on a new socket, a sender that has to wait for a conversation always
has a segment that asks for one, exactly if every operation meets the condition. -/
theorem asks_for_conv_iff {trace : List (KcpSocket κ × SocketOp)} (hK : K.Sends side)
    (hw : K.Waits) (hn : K.TakesNamed)
    (hnew : KcpSocket.new K rs config conv stream now = .ok (.ok s))
    (hrun : Run (KcpSocket.Op K) s trace t) :
    Always (KcpSocket.Asks K) trace t ↔ ∀ x ∈ trace, x.1.KeepsAsking K side x.2 := by
  have hfresh := KcpSocket.new_fresh hnew
  obtain ⟨hsized, hunsent, _⟩ := hfresh.sending hK
  have hstart : s.Asks K := by
    rw [KcpSocket.asks_iff]
    intro hphase
    exact absurd (hfresh.fields.2.1.symm.trans (congrArg Prod.fst hphase)) (by decide)
  have hexact (s : KcpSocket κ) (op : SocketOp) (t : KcpSocket κ)
      (hs : (s.Sized side ∧ s.Unsent side) ∧ s.Asks K) (h : s.Op K op t) :
      (t.Sized side ∧ t.Unsent side) ∧ t.Asks K ↔ s.KeepsAsking K side op := by
    rw [and_iff_right (h.sending hK hw hs.1)]
    exact (h.effect hK hw).asks_iff hK hw hn hs.1.1 hs.1.2 hs.2
  have hready := KcpSocket.run_sending hK hw hnew hrun
  rw [← hrun.guarded_iff hexact ⟨⟨hsized, hunsent⟩, hstart⟩]
  constructor
  · intro hasks
    exact ⟨fun x hx => ⟨hready.1 x hx, hasks.1 x hx⟩, hready.2, hasks.2⟩
  · intro hboth
    exact hboth.mono fun _ h => h.2

/-- The first chunk asks for a conversation, and its sender waits for one. -/
theorem asks_for_conv_iff_small : ∃ trace t,
    trace.map Prod.snd = [.call (.pollSend 5 [65]) 1, .call (.pollSend 5 [66]) 2] ∧
    Run (KcpSocket.Op smallSender) (smallClient true) trace t ∧
    (Always (KcpSocket.Asks smallSender) trace t ↔
      ∀ x ∈ trace, x.1.KeepsAsking smallSender SmallSender.side x.2) := by
  let s : KcpSocket SmallSender :=
    { smallClient true with
      kcp := { (smallClient true).kcp with
        kcp := { (smallClient true).kcp.kcp with sndQueue := [[65]] } }
      sentFirst := true
      lastUpdateMs := 1 }
  have hrun : Run (KcpSocket.Op smallSender) (smallClient true)
      [(smallClient true, .call (.pollSend 5 [65]) 1), (s, .call (.pollSend 5 [66]) 2)]
      { s with pendingSender := some 5 } := .cons (t := s) rfl (.cons rfl .nil)
  exact ⟨_, _, rfl, hrun,
    asks_for_conv_iff smallSender_sends smallSender_waits smallSender_takesNamed
      (smallClient_new true) hrun⟩

/-- In stream mode an empty first chunk makes every later sender wait, with nothing sent. -/
theorem asks_for_conv_empty : smallSender.Sends SmallSender.side ∧ smallSender.Waits ∧
    smallSender.TakesNamed ∧
    KcpSocket.new smallSender reedSolomon { mtu := 50 } 0 true 0 = .ok (.ok (smallClient true)) ∧
    ∃ trace t, trace.map Prod.snd = [.call (.pollSend 5 []) 1] ∧
      Run (KcpSocket.Op smallSender) (smallClient true) trace t ∧
      t.SendPends smallSender ∧ smallSender.waitSnd t.kcp = 0 ∧
      ¬Always (KcpSocket.Asks smallSender) trace t := by
  let s : KcpSocket SmallSender := { smallClient true with sentFirst := true, lastUpdateMs := 1 }
  have hrun : Run (KcpSocket.Op smallSender) (smallClient true)
      [(smallClient true, .call (.pollSend 5 []) 1)] s := .cons rfl .nil
  have hpends : s.SendPends smallSender := KcpSocket.sendPends_iff.mpr ⟨rfl, rfl⟩
  refine ⟨smallSender_sends, smallSender_waits, smallSender_takesNamed, smallClient_new true, _,
    s, rfl, hrun, hpends, rfl, ?_⟩
  intro h
  exact absurd (h.2 hpends rfl) (by decide)

end TokioKcp
