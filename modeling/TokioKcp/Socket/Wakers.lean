import TokioKcp.Socket.Calls
import TokioKcp.Socket.Readers

namespace TokioKcp
set_option autoImplicit true

open Checked Fec Transition

variable {κ : Type}

def Kept (old new : Option Waker) (called : List Waker) : Prop :=
  ∀ w, old = some w → new = some w ∨ w ∈ called

/-- Every waker that was stored is still stored in its slot, or was called since. -/
def KcpSocket.KeepsWakers (s t : KcpSocket κ) : Prop :=
  ∃ called, t.woken = s.woken ++ called ∧ Kept s.pendingSender t.pendingSender called ∧
    Kept s.pendingReceiver t.pendingReceiver called

/-- No waker is stored that was not there before. -/
structure KcpSocket.Empties (s t : KcpSocket κ) : Prop where
  sender : s.pendingSender = none → t.pendingSender = none
  receiver : s.pendingReceiver = none → t.pendingReceiver = none

/-- A closed socket holds no waker. -/
structure KcpSocket.AtRest (s : KcpSocket κ) : Prop where
  closed : s.closed = true
  sender : s.pendingSender = none
  receiver : s.pendingReceiver = none

/-- A sender waits only after a first chunk was sent, and never at a closed socket. -/
def KcpSocket.SenderWaits (s : KcpSocket κ) : Prop :=
  s.pendingSender ≠ none → s.phase = (true, false)

def KcpSocket.SendPends (K : KcpCrate κ) (s : KcpSocket κ) : Prop :=
  ∀ waker buf now, (s.pollSend K waker buf now).2 = .pending

/-- The states that a socket passes while it takes payloads. -/
inductive KcpSocket.Feeds (K : KcpCrate κ) (s : KcpSocket κ) : KcpSocket κ → Prop where
  | refl : Feeds K s s
  | inputKcp : Feeds K s t → Feeds K s (t.inputKcp K buf now).1
  | decoder : Feeds K s t → Feeds K s { t with fecDecoder := decoder }

variable {K : KcpCrate κ} {s t u : KcpSocket κ} {old mid new : Option Waker}
variable {called called' : List Waker} {buf : Bytes} {now : Nat}
variable {rs : Nat → Nat → Except String ReedSolomon} {c : KcpConfig} {conv : UInt32}

theorem Kept.refl (old : Option Waker) : Kept old old called := fun _ h => .inl h

theorem Kept.trans (h : Kept old mid called) (h' : Kept mid new called') :
    Kept old new (called ++ called') := by
  intro w hw
  rcases h w hw with hmid | hcalled
  · rcases h' w hmid with hnew | hcalled
    · exact .inl hnew
    · exact .inr (List.mem_append_right _ hcalled)
  · exact .inr (List.mem_append_left _ hcalled)

theorem kept_displaced (old : Option Waker) (waker : Waker) :
    Kept old (some waker) (displaced old waker) := by
  rintro w rfl
  by_cases h : w = waker
  · exact .inl (congrArg some h.symm)
  · exact .inr (List.mem_filter.mpr ⟨List.mem_singleton_self w, decide_eq_true h⟩)

theorem KcpSocket.KeepsWakers.refl (s : KcpSocket κ) : s.KeepsWakers s :=
  ⟨[], (List.append_nil _).symm, .refl _, .refl _⟩

theorem KcpSocket.KeepsWakers.trans (h : s.KeepsWakers t) (h' : t.KeepsWakers u) :
    s.KeepsWakers u := by
  obtain ⟨called, hwoken, hsender, hreceiver⟩ := h
  obtain ⟨called', hwoken', hsender', hreceiver'⟩ := h'
  refine ⟨called ++ called', ?_, hsender.trans hsender', hreceiver.trans hreceiver'⟩
  rw [hwoken', hwoken, List.append_assoc]

theorem KcpSocket.Empties.refl (s : KcpSocket κ) : s.Empties s := ⟨id, id⟩

theorem KcpSocket.Empties.trans (h : s.Empties t) (h' : t.Empties u) : s.Empties u :=
  ⟨fun hs => h'.sender (h.sender hs), fun hr => h'.receiver (h.receiver hr)⟩

theorem KcpSocket.tryWakePendingSender_wakers (K : KcpCrate κ) (s : KcpSocket κ) :
    s.KeepsWakers (s.tryWakePendingSender K).1 := by
  rw [KcpSocket.tryWakePendingSender]
  split
  · rename_i waker hs
    split
    · refine ⟨[waker], rfl, fun w hw => .inr ?_, .refl _⟩
      rw [hs] at hw
      cases hw
      exact List.mem_singleton_self _
    · exact .refl s
  · exact .refl s

theorem KcpSocket.tryWakePendingReceiver_wakers (K : KcpCrate κ) (s : KcpSocket κ) :
    s.KeepsWakers (s.tryWakePendingReceiver K).1 := by
  rw [KcpSocket.tryWakePendingReceiver]
  split
  · rename_i waker hs
    split
    · split
      · refine ⟨[waker], rfl, .refl _, fun w hw => .inr ?_⟩
        rw [hs] at hw
        cases hw
        exact List.mem_singleton_self _
      · exact .refl s
    · exact .refl s
  · exact .refl s

theorem KcpSocket.tryWakePendingWaker_wakers (K : KcpCrate κ) (s : KcpSocket κ) :
    s.KeepsWakers (s.tryWakePendingWaker K).1 :=
  (s.tryWakePendingSender_wakers K).trans (tryWakePendingReceiver_wakers K _)

/-- All that `input_kcp` can do to the wakers: KCP takes the payload, and then wakers are called
or nothing more happens. -/
theorem KcpSocket.inputKcp_wakes (K : KcpCrate κ) (s : KcpSocket κ) (buf : Bytes) (now : Nat) :
    ∃ kcp last, ((s.inputKcp K buf now).1 = { s with kcp := kcp, lastUpdateMs := last } ∧
        ((∃ err, (s.inputKcp K buf now).2 = .error err) ∨ ∃ err, (K.input s.kcp buf).2 = .error err)) ∨
      (s.inputKcp K buf now).1 =
        ({ s with kcp := kcp, lastUpdateMs := last }.tryWakePendingWaker K).1 := by
  rcases s.inputKcp_cases K buf now with ⟨k, ⟨_, herr, h⟩ | ⟨_, last, err, h⟩ | ⟨_, h⟩⟩
  · rw [h]
    exact ⟨k, s.lastUpdateMs, .inl ⟨rfl, .inr herr⟩⟩
  · rw [h]
    exact ⟨k, last, .inl ⟨rfl, .inl ⟨err, rfl⟩⟩⟩
  · rw [h]
    exact ⟨k, now, .inr rfl⟩

theorem KcpSocket.inputKcp_wakers (K : KcpCrate κ) (s : KcpSocket κ) (buf : Bytes) (now : Nat) :
    s.KeepsWakers (s.inputKcp K buf now).1 := by
  obtain ⟨kcp, last, ⟨h, _⟩ | h⟩ := s.inputKcp_wakes K buf now
  · rw [h]
    exact .refl s
  · rw [h]
    have hs : s.KeepsWakers { s with kcp := kcp, lastUpdateMs := last } := .refl s
    exact hs.trans (tryWakePendingWaker_wakers K _)

theorem KcpSocket.Feeds.wakers (h : s.Feeds K t) : s.KeepsWakers t := by
  induction h with
  | refl => exact .refl s
  | inputKcp _ ih => exact ih.trans (inputKcp_wakers K _ _ _)
  | decoder _ ih => exact ih

theorem KcpSocket.Feeds.inputEach (h : s.Feeds K t) (waked : Bool) (now : Nat)
    (bufs : List Bytes) : s.Feeds K (t.inputEach K waked now bufs).1 := by
  induction bufs generalizing t waked with
  | nil => exact h
  | cons buf bufs ih =>
    have hone : s.Feeds K (t.inputKcp K buf now).1 := .inputKcp h
    rw [KcpSocket.inputEach]
    split
    · rename_i he
      rw [he] at hone
      exact hone
    · rename_i self woke he
      rw [he] at hone
      exact ih hone (waked || woke)

theorem KcpSocket.input_feeds (h : s.input K buf now = .ok (t, result)) : s.Feeds K t := by
  rw [KcpSocket.input] at h
  split at h
  · have hu : s.Feeds K (s.inputEach K false now (dataPayload buf).toList).1 :=
      Feeds.refl.inputEach false now _
    obtain ⟨u, rfl, ⟨rfl, _⟩ | ⟨waked, _, decoder, _, _, _, _, ⟨rfl, _⟩ | ⟨recovered, _, rfl⟩⟩⟩ :=
      inputFec_cases h
    · exact hu
    · exact .decoder hu
    · exact hu.decoder.inputEach waked now recovered
  · have he : (s.inputKcp K buf now).1 = t := congrArg Prod.fst (Except.ok.inj h)
    rw [← he]
    exact .inputKcp .refl

theorem KcpSocket.PollsSend.wakers {waker : Waker} (h : s.PollsSend K waker buf t result) :
    s.KeepsWakers t := by
  cases h with
  | closed hc => exact .refl s
  | waits hc hb =>
    exact ⟨displaced s.pendingSender waker, rfl, kept_displaced _ waker, .refl _⟩
  | refused hc hb hs => exact .refl s
  | taken hc hb hs hf hr => exact .refl s

theorem KcpSocket.pollRecv_wakers (K : KcpCrate κ) (s : KcpSocket κ) (waker : Waker)
    (len now : Nat) : s.KeepsWakers (s.pollRecv K waker len now).1 := by
  have hwaits (k : κ) : s.KeepsWakers ({ s with kcp := k }.replaceReceiver waker) :=
    ⟨displaced s.pendingReceiver waker, rfl, .refl _, kept_displaced _ waker⟩
  rw [KcpSocket.pollRecv]
  split
  · exact .refl s
  · dsimp only
    split
    · exact hwaits _
    · exact hwaits _
    · exact .refl s
    · split
      · exact hwaits _
      · exact .refl s

theorem KcpSocket.pollSend_pending {waker : Waker}
    (h : s.pollSend K waker buf now = (t, .pending)) : t.pendingSender = some waker := by
  have hcase := s.pollSend_cases K waker buf now
  rw [h] at hcase
  cases hcase with
  | waits hc hb => rfl

theorem KcpSocket.pollRecv_pending {waker : Waker} {len : Nat}
    (h : s.pollRecv K waker len now = (t, .pending)) : t.pendingReceiver = some waker := by
  rw [KcpSocket.pollRecv] at h
  split at h
  · cases h
  · dsimp only at h
    split at h
    · cases h
      rfl
    · cases h
      rfl
    · cases h
    · split at h
      · cases h
        rfl
      · cases h

theorem KcpSocket.updateAt_wakers (K : KcpCrate κ) (s : KcpSocket κ) (nowMs : Nat) :
    s.KeepsWakers (s.updateAt K nowMs).1 := by
  rw [KcpSocket.updateAt]
  dsimp only
  split
  · exact .refl s
  · rename_i kcp _
    have hs : s.KeepsWakers { s with kcp := kcp } := .refl s
    exact hs.trans (tryWakePendingSender_wakers K _)

theorem KcpSocket.close_wakers (s : KcpSocket κ) : s.KeepsWakers s.close := by
  have hcalled {slot : Option Waker} (w : Waker) (hw : slot = some w) : w ∈ slot.toList := by
    rw [hw]
    exact List.mem_singleton_self w
  refine ⟨s.pendingSender.toList ++ s.pendingReceiver.toList, ?_, ?_, ?_⟩
  · exact List.append_assoc ..
  · exact fun w hw => .inr (List.mem_append_left _ (hcalled w hw))
  · exact fun w hw => .inr (List.mem_append_right _ (hcalled w hw))

theorem KcpSocket.Step.wakers {call : SocketCall} (h : s.Step K (call, now) t) :
    s.KeepsWakers t := by
  cases call with
  | input buf =>
    obtain ⟨⟨u, result⟩, hu, he⟩ := bind_eq_ok.mp h
    cases he
    exact (input_feeds hu).wakers
  | pollSend waker buf =>
    cases h
    exact (s.pollSend_cases K waker buf now).wakers
  | pollRecv waker len =>
    cases h
    exact s.pollRecv_wakers K waker len now
  | updateAt =>
    cases h
    exact s.updateAt_wakers K now
  | flush =>
    cases h
    rw [KcpSocket.flush]
    split
    · exact .refl s
    · exact .refl s
  | close =>
    cases h
    exact s.close_wakers

theorem KcpSocket.run_wakers {trace : List (KcpSocket κ × (SocketCall × Nat))}
    (h : Run (KcpSocket.Step K) s trace t) : s.KeepsWakers t := by
  induction h with
  | nil => exact .refl _
  | cons hstep _ ih => exact hstep.wakers.trans ih

theorem KcpSocket.tryWakePendingSender_empties (K : KcpCrate κ) (s : KcpSocket κ) :
    s.Empties (s.tryWakePendingSender K).1 := by
  rw [KcpSocket.tryWakePendingSender]
  split
  · split
    · exact ⟨fun _ => rfl, id⟩
    · exact .refl s
  · exact .refl s

theorem KcpSocket.tryWakePendingReceiver_empties (K : KcpCrate κ) (s : KcpSocket κ) :
    s.Empties (s.tryWakePendingReceiver K).1 := by
  rw [KcpSocket.tryWakePendingReceiver]
  split
  · split
    · split
      · exact ⟨id, fun _ => rfl⟩
      · exact .refl s
    · exact .refl s
  · exact .refl s

theorem KcpSocket.inputKcp_empties (K : KcpCrate κ) (s : KcpSocket κ) (buf : Bytes) (now : Nat) :
    s.Empties (s.inputKcp K buf now).1 := by
  obtain ⟨kcp, last, ⟨h, _⟩ | h⟩ := s.inputKcp_wakes K buf now
  · rw [h]
    exact ⟨id, id⟩
  · rw [h]
    have hs : s.Empties { s with kcp := kcp, lastUpdateMs := last } := ⟨id, id⟩
    exact (hs.trans (tryWakePendingSender_empties K _)).trans
      (tryWakePendingReceiver_empties K _)

theorem KcpSocket.Feeds.empties (h : s.Feeds K t) : s.Empties t := by
  induction h with
  | refl => exact .refl s
  | inputKcp _ ih => exact ih.trans (inputKcp_empties K _ _ _)
  | decoder _ ih => exact ⟨ih.sender, ih.receiver⟩

theorem KcpSocket.Feeds.phase (h : s.Feeds K t) : t.phase = s.phase := by
  induction h with
  | refl => rfl
  | inputKcp _ ih => exact (inputKcp_phase K _ _ _).trans ih
  | decoder _ ih => exact ih

theorem KcpSocket.updateAt_empties (K : KcpCrate κ) (s : KcpSocket κ) (nowMs : Nat) :
    s.Empties (s.updateAt K nowMs).1 := by
  rw [KcpSocket.updateAt]
  dsimp only
  split
  · exact ⟨id, id⟩
  · rename_i kcp _
    have hs : s.Empties { s with kcp := kcp } := ⟨id, id⟩
    exact hs.trans (tryWakePendingSender_empties K _)

theorem KcpSocket.flush_empties (K : KcpCrate κ) (s : KcpSocket κ) (now : Nat) :
    s.Empties (s.flush K now).1 := by
  rw [KcpSocket.flush]
  split
  · exact ⟨id, id⟩
  · exact ⟨id, id⟩

theorem KcpSocket.tryWakePendingSender_full
    (h : (s.tryWakePendingSender K).1.pendingSender ≠ none) :
    (K.windowFull s.kcp || K.waitingConv s.kcp) = true := by
  rw [KcpSocket.tryWakePendingSender] at h
  split at h
  · split at h
    · exact absurd rfl h
    · rename_i hfull
      rw [← Bool.not_or, Bool.not_eq_true, Bool.not_eq_false'] at hfull
      exact hfull
  · rename_i hs
    exact absurd hs h

theorem KcpSocket.tryWakePendingWaker_full
    (h : (s.tryWakePendingWaker K).1.pendingSender ≠ none) :
    (K.windowFull s.kcp || K.waitingConv s.kcp) = true := by
  apply tryWakePendingSender_full
  obtain ⟨receiver, woken, he⟩ := (s.tryWakePendingSender K).1.tryWakePendingReceiver_eq K
  have hsame : (s.tryWakePendingWaker K).1.pendingSender =
      (s.tryWakePendingSender K).1.pendingSender :=
    (congrArg KcpSocket.pendingSender he).trans rfl
  rw [← hsame]
  exact h

theorem KcpSocket.SenderWaits.keep (h : s.SenderWaits) (hphase : t.phase = s.phase)
    (he : s.Empties t) : t.SenderWaits :=
  fun hne => hphase.trans (h fun hnone => hne (he.sender hnone))

theorem KcpSocket.PollsSend.senderWaits {waker : Waker} (h : s.PollsSend K waker buf t result)
    (hs : s.SenderWaits) : t.SenderWaits := by
  cases h with
  | closed hc => exact hs
  | waits hc hb =>
    intro _
    exact Prod.ext (Bool.and_eq_true_iff.mp hb).1 hc
  | refused hc hb hsend => exact hs
  | taken hc hb hsend hf hr =>
    intro _
    exact Prod.ext rfl hc

theorem KcpSocket.pollRecv_sender (K : KcpCrate κ) (s : KcpSocket κ) (waker : Waker)
    (len now : Nat) : (s.pollRecv K waker len now).1.pendingSender = s.pendingSender := by
  rw [KcpSocket.pollRecv]
  split
  · rfl
  · dsimp only
    split
    · rfl
    · rfl
    · rfl
    · split
      · rfl
      · rfl

theorem KcpSocket.Step.senderWaits {call : SocketCall} (h : s.Step K (call, now) t)
    (hs : s.SenderWaits) : t.SenderWaits := by
  cases call with
  | input buf =>
    obtain ⟨⟨u, result⟩, hu, he⟩ := bind_eq_ok.mp h
    cases he
    exact hs.keep (input_feeds hu).phase (input_feeds hu).empties
  | pollSend waker buf =>
    cases h
    exact (s.pollSend_cases K waker buf now).senderWaits hs
  | pollRecv waker len =>
    cases h
    rw [KcpSocket.SenderWaits, s.pollRecv_sender K, s.pollRecv_phase K]
    exact hs
  | updateAt =>
    cases h
    exact hs.keep (s.updateAt_phase K now) (s.updateAt_empties K now)
  | flush =>
    cases h
    exact hs.keep (s.flush_phase K now) (s.flush_empties K now)
  | close =>
    cases h
    exact fun hne => absurd rfl hne

theorem KcpSocket.PollsSend.pends {waker : Waker} (h : s.PollsSend K waker buf t result)
    (hr : result = .pending) : s.closed = false ∧ s.blocked K = true := by
  cases h with
  | closed hc => cases hr
  | waits hc hb => exact ⟨hc, hb⟩
  | refused hc hb hs => cases hr
  | taken hc hb hs hf hr' => cases hr

theorem KcpSocket.sendPends_iff : s.SendPends K ↔ s.closed = false ∧ s.blocked K = true := by
  constructor
  · intro h
    exact (s.pollSend_cases K 0 [] 0).pends (h 0 [] 0)
  · rintro ⟨hc, hb⟩ waker buf now
    rw [KcpSocket.pollSend, if_neg (ne_true_of_eq_false hc)]
    exact congrArg Prod.snd (if_pos hb)

/-- A sender that waits while the window is full, or a conversation is waited for, is right to
wait. -/
theorem KcpSocket.SenderWaits.sendPends (h : s.SenderWaits) (hne : s.pendingSender ≠ none)
    (hfull : (K.windowFull s.kcp || K.waitingConv s.kcp) = true) : s.SendPends K := by
  have hphase := h hne
  apply sendPends_iff.mpr
  exact ⟨congrArg Prod.snd hphase, Bool.and_eq_true_iff.mpr ⟨congrArg Prod.fst hphase, hfull⟩⟩

theorem KcpSocket.SenderWaits.updateAt (h : s.SenderWaits)
    (hok : s.updateAt K now = (t, .ok delay)) (hne : t.pendingSender ≠ none) : t.SendPends K := by
  have ht : t.SenderWaits := by
    have hkeep := h.keep (s.updateAt_phase K now) (s.updateAt_empties K now)
    rw [hok] at hkeep
    exact hkeep
  apply ht.sendPends hne
  rw [KcpSocket.updateAt] at hok
  dsimp only at hok
  split at hok
  · cases hok
  · rename_i kcp _
    cases hok
    obtain ⟨sender, woken, he⟩ := { s with kcp := kcp }.tryWakePendingSender_eq K
    have hfull := tryWakePendingSender_full hne
    rw [he]
    exact hfull

theorem KcpSocket.SenderWaits.inputKcp (h : s.SenderWaits)
    (hin : (K.input s.kcp buf).2 = .ok n) (hok : s.inputKcp K buf now = (t, .ok woke))
    (hne : t.pendingSender ≠ none) : t.SendPends K := by
  have ht : t.SenderWaits := by
    have hkeep := h.keep (s.inputKcp_phase K buf now) (s.inputKcp_empties K buf now)
    rw [hok] at hkeep
    exact hkeep
  apply ht.sendPends hne
  obtain ⟨kcp, last, ⟨_, ⟨err, he⟩ | ⟨err, he⟩⟩ | he⟩ := s.inputKcp_wakes K buf now
  · rw [hok] at he
    cases he
  · rw [hin] at he
    cases he
  · rw [hok] at he
    change t = _ at he
    rw [he] at hne ⊢
    obtain ⟨sender, receiver, woken, hsame⟩ :=
      { s with kcp := kcp, lastUpdateMs := last }.tryWakePendingWaker_eq K
    have hfull := tryWakePendingWaker_full hne
    rw [hsame]
    exact hfull

theorem KcpSocket.Step.atRest {call : SocketCall} (h : s.Step K (call, now) t)
    (hs : s.AtRest) : t.AtRest := by
  have hkeep (hphase : t.phase = s.phase) (he : s.Empties t) : t.AtRest :=
    ⟨(congrArg Prod.snd hphase).trans hs.closed, he.sender hs.sender, he.receiver hs.receiver⟩
  cases call with
  | input buf =>
    obtain ⟨⟨u, result⟩, hu, he⟩ := bind_eq_ok.mp h
    cases he
    exact hkeep (input_feeds hu).phase (input_feeds hu).empties
  | pollSend waker buf =>
    cases h
    change (s.pollSend K waker buf now).1.AtRest
    rw [KcpSocket.pollSend, if_pos hs.closed]
    exact hs
  | pollRecv waker len =>
    cases h
    change (s.pollRecv K waker len now).1.AtRest
    rw [KcpSocket.pollRecv, if_pos hs.closed]
    exact hs
  | updateAt =>
    cases h
    exact hkeep (s.updateAt_phase K now) (s.updateAt_empties K now)
  | flush =>
    cases h
    exact hkeep (s.flush_phase K now) (s.flush_empties K now)
  | close =>
    cases h
    exact ⟨rfl, rfl, rfl⟩

theorem KcpSocket.new_senderWaits (h : KcpSocket.new K rs c conv stream now = .ok (.ok s)) :
    s.SenderWaits := by
  obtain ⟨_, _, hnone, _⟩ := (new_fresh h).fields
  exact fun hne => absurd hnone hne

/-- No waker is forgotten, and none waits in vain: in every run a waker leaves its slot only when
it is called, and a poll that makes a task wait leaves its waker there; a closed socket holds no
waker and makes nobody wait; and a sender that waits after an update, or after KCP took a
payload, has to. -/
theorem wakers_called {trace : List (KcpSocket κ × (SocketCall × Nat))}
    (hnew : KcpSocket.new K rs c conv stream now = .ok (.ok s))
    (hrun : Run (KcpSocket.Step K) s trace t) :
    (∀ later u, Run (KcpSocket.Step K) t later u → t.KeepsWakers u) ∧
    (∀ waker buf now u, t.pollSend K waker buf now = (u, .pending) →
      u.pendingSender = some waker) ∧
    (∀ waker len now u, t.pollRecv K waker len now = (u, .pending) →
      u.pendingReceiver = some waker) ∧
    (∀ later u, Run (KcpSocket.Step K) t.close later u →
      u.pendingSender = none ∧ u.pendingReceiver = none ∧ ∀ waker buf len now,
        (u.pollSend K waker buf now).2 ≠ .pending ∧ (u.pollRecv K waker len now).2 ≠ .pending) ∧
    (∀ now u delay, t.updateAt K now = (u, .ok delay) → u.pendingSender ≠ none →
      u.SendPends K) ∧
    ∀ mid, t.Feeds K mid → ∀ buf now n u woke, (K.input mid.kcp buf).2 = .ok n →
      mid.inputKcp K buf now = (u, .ok woke) → u.pendingSender ≠ none → u.SendPends K := by
  have hwaits : t.SenderWaits :=
    (hrun.invariant (P := KcpSocket.SenderWaits) (fun _ _ _ hs h => h.senderWaits hs)
      (KcpSocket.new_senderWaits hnew)).2
  refine ⟨?_, ?_, ?_, ?_, ?_, ?_⟩
  · intro later u hlater
    exact KcpSocket.run_wakers hlater
  · intro waker buf now u hpending
    exact KcpSocket.pollSend_pending hpending
  · intro waker len now u hpending
    exact KcpSocket.pollRecv_pending hpending
  · intro later u hlater
    have hclose : t.close.AtRest := ⟨rfl, rfl, rfl⟩
    obtain ⟨hclosed, hsender, hreceiver⟩ :=
      (hlater.invariant (P := KcpSocket.AtRest) (fun _ _ _ hs h => h.atRest hs) hclose).2
    refine ⟨hsender, hreceiver, fun waker buf len now => ?_⟩
    rw [KcpSocket.pollSend, if_pos hclosed, KcpSocket.pollRecv, if_pos hclosed]
    constructor
    · intro h
      cases h
    · intro h
      cases h
  · intro now u delay hok hne
    exact hwaits.updateAt hok hne
  · intro mid hmid buf now n u woke hin hok hne
    exact (hwaits.keep hmid.phase hmid.empties).inputKcp hin hok hne

/-- A task that reads waits for a datagram, and is called when it comes. -/
theorem wakers_called_small : ∃ trace t later u,
    trace.map Prod.snd = [(.pollRecv 7 1024, 0)] ∧
    Run (KcpSocket.Step smallKcp) smallSocket trace t ∧ t.pendingReceiver = some 7 ∧
    later.map Prod.snd = [(.input (segment 1 81 0 [65]), 1)] ∧
    Run (KcpSocket.Step smallKcp) t later u ∧ u.pendingReceiver = none ∧ t.KeepsWakers u := by
  let t : KcpSocket SmallKcp := { smallSocket with pendingReceiver := some 7 }
  have hrun : Run (KcpSocket.Step smallKcp) smallSocket
      [(smallSocket, (.pollRecv 7 1024, 0))] t := .cons rfl .nil
  have hlater : Run (KcpSocket.Step smallKcp) t [(t, (.input (segment 1 81 0 [65]), 1))]
      { t with
        kcp := { t.kcp with rcvNxt := 1, messages := [[65]] }, lastUpdateMs := 1
        pendingReceiver := none, woken := [7] } := .cons rfl .nil
  exact ⟨_, t, _, _, rfl, hrun, rfl, rfl, hlater, rfl,
    (wakers_called smallSocket_new hrun).1 _ _ hlater⟩

end TokioKcp
