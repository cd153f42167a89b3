import Mathlib.Data.List.Infix
import TokioKcp.Pair
import TokioKcp.SmallKcp

/-! The small control block keeps what it is given to send, and can send any of it again. -/

namespace TokioKcp
set_option autoImplicit true

open Checked Transition

/-- The segments of all that was given to send, as long as their numbers do not wrap. -/
def SmallKcp.Writes (k : SmallKcp) (buf : Bytes) : Prop :=
  k.sndQueue.length < 2 ^ 32 ∧ buf.length < 2 ^ 32 ∧
    buf ∈ k.sndQueue.mapIdx fun i data => segment k.conv 81 i data

instance (k : SmallKcp) (buf : Bytes) : Decidable (k.Writes buf) :=
  inferInstanceAs (Decidable (_ ∧ _ ∧ _))

/-- The segment of a message that a control block was given. -/
def SmallKcp.Segment (queue : List Bytes) (conv : UInt32) (buf : Bytes) : Prop :=
  ∃ i data, i + 1 < 2 ^ 32 ∧ data.length < 2 ^ 32 ∧ queue[i]? = some data ∧
    buf = segment conv 81 i data

/-- Of the messages in the other's queue, a control block has taken the first `n`. -/
structure SmallKcp.Took (k : SmallKcp) (queue : List Bytes) (received : Bytes) (n : Nat) :
    Prop where
  bound : n < 2 ^ 32
  next : k.rcvNxt = .ofNat n
  queued : n ≤ queue.length
  bytes : received ++ k.messages.flatten = (queue.take n).flatten

structure KcpPair.Ordered (conv : UInt32) (pair : KcpPair SmallKcp) : Prop where
  same : ∀ side, (pair side).kcp.conv = conv
  sent : ∀ side, (pair side).sent = (pair side).kcp.sndQueue.flatten
  wrote : ∀ side, ∀ buf ∈ (pair side).wrote,
    SmallKcp.Segment (pair side).kcp.sndQueue conv buf
  took : ∀ side, ∃ n, (pair side).kcp.Took (pair (!side)).kcp.sndQueue (pair side).received n

variable {k : SmallKcp} {conv : UInt32} {queue : List Bytes} {received data buf : Bytes} {n : Nat}
variable {pair pair' : KcpPair SmallKcp} {event : PairEvent}

theorem SmallKcp.Segment.append (h : SmallKcp.Segment queue conv buf) (data : Bytes) :
    SmallKcp.Segment (queue ++ [data]) conv buf := by
  obtain ⟨i, data', hi, hlen, hget, he⟩ := h
  have hlt := (List.getElem?_eq_some_iff.mp hget).1
  refine ⟨i, data', hi, hlen, ?_, he⟩
  rw [List.getElem?_append_left hlt]
  exact hget

theorem SmallKcp.Took.append (h : k.Took queue received n) (data : Bytes) :
    k.Took (queue ++ [data]) received n where
  bound := h.bound
  next := h.next
  queued := by
    rw [List.length_append]
    exact Nat.le_trans h.queued (Nat.le_add_right _ _)
  bytes := by
    rw [List.take_append_of_le_length h.queued]
    exact h.bytes

theorem SmallKcp.input_segment (hconv : k.conv = conv) (hlen : data.length < 2 ^ 32)
    {sn : Nat} (hsn : sn < 2 ^ 32) :
    (k.input (segment conv 81 sn data)).1 = k.take 81 (.ofNat sn) data := by
  have hc : convOf (segment conv 81 sn data) = conv := by
    change UInt32.ofNat (LittleEndian.decode (LittleEndian.encode 4 conv.toNat)) = conv
    rw [LittleEndian.decode_encode conv.toNat_lt]
    exact UInt32.ofNat_toNat
  have hn : snOf (segment conv 81 sn data) = .ofNat sn := by
    change UInt32.ofNat (LittleEndian.decode (LittleEndian.encode 4 sn)) = _
    rw [LittleEndian.decode_encode hsn]
  have hd : LittleEndian.decode (((segment conv 81 sn data).drop 20).take 4) = data.length := by
    change LittleEndian.decode (LittleEndian.encode 4 data.length) = _
    exact LittleEndian.decode_encode hlen
  have hwhole : ¬(segment conv 81 sn data).length < kcpOverhead := by
    change ¬data.length + 24 < 24
    omega
  have hcmd : (segment conv 81 sn data).getD 4 0 = 81 := rfl
  have hdata : (segment conv 81 sn data).drop kcpOverhead = data := rfl
  have hlength : (segment conv 81 sn data).length = data.length + 23 + 1 := rfl
  have hrest (l : SmallKcp) (fuel : Nat) : l.inputSegments fuel [] = (l, .ok ()) := by
    cases fuel with
    | zero => rfl
    | succ fuel => rfl
  have hadopt : k.adopt conv = k := if_neg fun h => h hconv.symm
  have hsegments : k.inputSegments (segment conv 81 sn data).length (segment conv 81 sn data) =
      (k.take 81 (.ofNat sn) data, .ok ()) := by
    rw [hlength, SmallKcp.inputSegments, if_neg hwhole, hc, hconv,
      if_neg (fun h => h.1 rfl)]
    dsimp only
    rw [hcmd, hdata, hd, hadopt, if_neg (Nat.lt_irrefl _), if_neg (by decide), hn,
      List.take_length, List.drop_length]
    exact hrest _ _
  rw [SmallKcp.input, if_neg hwhole, hsegments]

/-- A segment is taken if it is the next, and changes nothing otherwise. -/
theorem SmallKcp.Took.input (h : k.Took queue received n) (hconv : k.conv = conv)
    (hbuf : SmallKcp.Segment queue conv buf) : ∃ n', (k.input buf).1.Took queue received n' ∧
      (k.input buf).1.conv = conv ∧ (k.input buf).1.sndQueue = k.sndQueue := by
  obtain ⟨i, data, hi, hlen, hget, rfl⟩ := hbuf
  have hlt := Nat.lt_of_succ_lt hi
  rw [SmallKcp.input_segment hconv hlen hlt, SmallKcp.take]
  split
  · rename_i hnext
    have hsame : i = n := by
      have hnat := congrArg UInt32.toNat (hnext.2.trans h.next)
      rw [UInt32.toNat_ofNat_of_lt' hlt, UInt32.toNat_ofNat_of_lt' h.bound] at hnat
      exact hnat
    rw [hsame] at hi hget
    obtain ⟨hlt, hdata⟩ := List.getElem?_eq_some_iff.mp hget
    refine ⟨n + 1, ⟨hi, ?_, hlt, ?_⟩, hconv, rfl⟩
    · change k.rcvNxt + 1 = _
      rw [h.next]
      exact (UInt32.ofNat_add n 1).symm
    · change received ++ (k.messages ++ [data]).flatten = _
      rw [List.flatten_append, ← List.append_assoc, h.bytes, List.take_succ_eq_append_getElem hlt,
        List.flatten_append, hdata]
  · exact ⟨n, h, hconv, rfl⟩

theorem SmallKcp.Took.recv (h : k.Took queue received n) (len : Nat) :
    (k.recv len).1.Took queue (received ++ (k.recv len).2.toOption.getD []) n ∧
      (k.recv len).1.conv = k.conv ∧ (k.recv len).1.sndQueue = k.sndQueue := by
  rw [SmallKcp.recv]
  split
  · rw [Except.toOption, Option.getD_none, List.append_nil]
    exact ⟨h, rfl, rfl⟩
  · rename_i data rest hmessages
    split
    · rw [Except.toOption, Option.getD_none, List.append_nil]
      exact ⟨h, rfl, rfl⟩
    · refine ⟨⟨h.bound, h.next, h.queued, ?_⟩, rfl, rfl⟩
      have hbytes := h.bytes
      rw [hmessages, List.flatten_cons, ← List.append_assoc] at hbytes
      exact hbytes

/-- An operation of one side keeps the order for both. -/
theorem KcpPair.Ordered.update {side : Bool} {x : KcpEnd SmallKcp} (h : pair.Ordered conv)
    (hsame : x.kcp.conv = conv) (hsent : x.sent = x.kcp.sndQueue.flatten)
    (hwrote : ∀ buf ∈ x.wrote, SmallKcp.Segment x.kcp.sndQueue conv buf)
    (htook : ∃ n, x.kcp.Took (pair (!side)).kcp.sndQueue x.received n)
    (hother : ∃ n, (pair (!side)).kcp.Took x.kcp.sndQueue (pair (!side)).received n) :
    KcpPair.Ordered conv (Function.update pair side x) := by
  have hne := Bool.not_ne_self side
  have hcases {P : Bool → Prop} (hside : P side) (hnot : P (!side)) (side' : Bool) : P side' := by
    by_cases heq : side' = side
    · exact heq ▸ hside
    · exact (Bool.eq_not_of_ne heq) ▸ hnot
  constructor
  · apply hcases
    · rw [Function.update_self]
      exact hsame
    · rw [Function.update_of_ne hne]
      exact h.same _
  · apply hcases
    · rw [Function.update_self]
      exact hsent
    · rw [Function.update_of_ne hne]
      exact h.sent _
  · apply hcases
    · rw [Function.update_self]
      exact hwrote
    · rw [Function.update_of_ne hne]
      exact h.wrote _
  · apply hcases
    · rw [Function.update_self, Function.update_of_ne hne]
      exact htook
    · rw [Function.update_of_ne hne, Bool.not_not, Function.update_self]
      exact hother

theorem KcpPair.Ordered.step (h : pair.Ordered conv)
    (hstep : pair.Step smallKcp SmallKcp.Writes event pair') : pair'.Ordered conv := by
  cases hstep with
  | @write side buf hwrites =>
    have hother := h.took (!side)
    rw [Bool.not_not] at hother
    refine h.update (h.same side) (h.sent side) ?_ (h.took side) hother
    intro buf' hm
    rcases List.mem_append.mp hm with hold | hnew
    · exact h.wrote side buf' hold
    · obtain ⟨hcount, hlen, hbuf⟩ := hwrites
      rw [List.mem_singleton.mp hnew]
      obtain ⟨i, hi, rfl⟩ := List.mem_mapIdx.mp hbuf
      rw [h.same side] at hlen ⊢
      refine ⟨i, _, Nat.lt_of_le_of_lt hi hcount, ?_, List.getElem?_eq_getElem hi, rfl⟩
      exact Nat.lt_of_le_of_lt (Nat.le_add_right _ 24) hlen
  | @operate op side hinput =>
    have hother := h.took (!side)
    rw [Bool.not_not] at hother
    obtain ⟨n, htook⟩ := h.took side
    have hquiet (hop : smallKcp.operate (pair side).kcp op = (pair side).kcp)
        (hsent : smallKcp.accepts (pair side).kcp op = [])
        (hreceived : smallKcp.delivers (pair side).kcp op = []) :
        KcpPair.Ordered conv (Function.update pair side
          { pair side with
            kcp := smallKcp.operate (pair side).kcp op
            sent := (pair side).sent ++ smallKcp.accepts (pair side).kcp op
            received := (pair side).received ++ smallKcp.delivers (pair side).kcp op }) := by
      rw [hop, hsent, hreceived, List.append_nil, List.append_nil, Function.update_eq_self]
      exact h
    cases op with
    | update now => exact hquiet rfl rfl rfl
    | flush => exact hquiet rfl rfl rfl
    | flushAck => exact hquiet rfl rfl rfl
    | send data =>
      obtain ⟨m, hother⟩ := hother
      refine h.update (h.same side) ?_ ?_ ⟨n, ?_⟩ ⟨m, hother.append data⟩
      · change (pair side).sent ++ data = ((pair side).kcp.sndQueue ++ [data]).flatten
        rw [h.sent side, List.flatten_append, List.flatten_singleton]
      · exact fun buf hm => (h.wrote side buf hm).append data
      · change SmallKcp.Took _ _ ((pair side).received ++ []) n
        rw [List.append_nil]
        exact ⟨htook.bound, htook.next, htook.queued, htook.bytes⟩
    | recv len =>
      obtain ⟨hnext, hconv, hqueue⟩ := htook.recv len
      refine h.update (hconv.trans (h.same side)) ?_ ?_ ⟨n, hnext⟩ ?_
      · change (pair side).sent ++ [] = ((pair side).kcp.recv len).1.sndQueue.flatten
        rw [hqueue, List.append_nil]
        exact h.sent side
      · change ∀ buf ∈ _, SmallKcp.Segment ((pair side).kcp.recv len).1.sndQueue conv buf
        rw [hqueue]
        exact h.wrote side
      · change ∃ m, (pair (!side)).kcp.Took ((pair side).kcp.recv len).1.sndQueue _ m
        rw [hqueue]
        exact hother
    | input buf =>
      obtain ⟨n', hnext, hconv, hqueue⟩ :=
        htook.input (h.same side) (h.wrote (!side) buf (hinput buf rfl))
      refine h.update hconv ?_ ?_ ⟨n', ?_⟩ ?_
      · change (pair side).sent ++ [] = ((pair side).kcp.input buf).1.sndQueue.flatten
        rw [hqueue, List.append_nil]
        exact h.sent side
      · change ∀ buf' ∈ _, SmallKcp.Segment ((pair side).kcp.input buf).1.sndQueue conv buf'
        rw [hqueue]
        exact h.wrote side
      · change SmallKcp.Took ((pair side).kcp.input buf).1 _ ((pair side).received ++ []) n'
        rw [List.append_nil]
        exact hnext
      · change ∃ m, (pair (!side)).kcp.Took ((pair side).kcp.input buf).1.sndQueue _ m
        rw [hqueue]
        exact hother

theorem smallKcp_reliable (kcp : Bool → SmallKcp) (hconv : ∀ side, (kcp side).conv = conv)
    (hnext : ∀ side, (kcp side).rcvNxt = 0) (hmessages : ∀ side, (kcp side).messages = [])
    (hqueue : ∀ side, (kcp side).sndQueue = []) :
    smallKcp.Reliable SmallKcp.Writes kcp := by
  intro trace pair hrun side
  have hstart : KcpPair.Ordered conv (.new kcp) := by
    refine ⟨hconv, ?_, fun _ _ hm => absurd hm List.not_mem_nil, ?_⟩
    · intro side
      change [] = (kcp side).sndQueue.flatten
      rw [hqueue side]
      rfl
    · intro side
      refine ⟨0, by decide, hnext side, Nat.zero_le _, ?_⟩
      change [] ++ (kcp side).messages.flatten = _
      rw [hmessages side]
      rfl
  have hordered := (hrun.invariant (fun _ _ _ h hstep => h.step hstep) hstart).2
  obtain ⟨n, htook⟩ := hordered.took side
  rw [hordered.sent (!side)]
  have hhead := List.prefix_append (pair side).received (pair side).kcp.messages.flatten
  rw [htook.bytes] at hhead
  exact hhead.trans (List.IsPrefix.flatten (List.take_prefix n _))

end TokioKcp
