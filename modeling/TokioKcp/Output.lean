import TokioKcp.Session.Decoders
import TokioKcp.Fec.RoundTrip
import TokioKcp.Lib.Queue

namespace TokioKcp
set_option autoImplicit true

open Checked Fec ErasureCode Transition Queues

/-- The two ends of a socket's output: the one that KCP writes to, and the task. -/
structure OutputPipe where
  output : UdpOutput
  task : UdpOutputTask

inductive OutputEvent where
  | write (buf : Bytes)
  | runTask (now : Nat)
  /-- The runtime drops the task. -/
  | dropTask

/-- The state after an event, and the datagrams that the task sends in it. -/
def OutputPipe.next (self : OutputPipe) : OutputEvent → Exec (OutputPipe × List Bytes)
  | .write buf => .ok ({ self with output := (self.output.write buf).1 }, [])
  | .runTask now =>
    match self.output.taskClosed, self.output.postTx with
    | false, buf :: postTx => do
      let (task, packets) ← self.task.send buf now
      return ({ output := { self.output with postTx := postTx }, task := task }, packets)
    | _, _ => .ok (self, [])
  | .dropTask => .ok ({ self with output := { postTx := [], taskClosed := true } }, [])

def OutputPipe.Step (s : OutputPipe) (event : OutputEvent) (t : OutputPipe) : Prop :=
  ∃ packets, s.next event = .ok (t, packets)

def OutputPipe.puts : OutputPipe × OutputEvent → List Bytes
  | (s, .write buf) =>
    if s.output.taskClosed = false ∧ s.output.postTx.length < outputBacklog then [buf] else []
  | _ => []

def OutputPipe.takes : OutputPipe × OutputEvent → List (Bytes × Nat)
  | (s, .runTask now) =>
    if s.output.taskClosed = false then (s.output.postTx.take 1).map (·, now) else []
  | _ => []

def OutputPipe.sends (x : OutputPipe × OutputEvent) : List Bytes :=
  match x.1.next x.2 with
  | .ok (_, packets) => packets
  | .error _ => []

/-- The task's encoder has numbered the packets of the calls so far. -/
def UdpOutputTask.Numbers (c : ReedSolomon) (d p : Nat) (task : UdpOutputTask)
    (calls : List Call) : Prop :=
  ∀ encoder, task.fecEncoder = some encoder → Numbered c d p encoder calls

/-- All that a step can do. -/
inductive OutputPipe.Acts (s : OutputPipe) : OutputEvent → OutputPipe → List Bytes → Prop where
  | queued (hopen : s.output.taskClosed = false) (hroom : s.output.postTx.length < outputBacklog) :
      Acts s (.write buf) { s with output := ⟨s.output.postTx ++ [buf], false⟩ } []
  | dropped (h : ¬(s.output.taskClosed = false ∧ s.output.postTx.length < outputBacklog)) :
      Acts s (.write buf) s []
  | sent (hopen : s.output.taskClosed = false) (hq : s.output.postTx = buf :: postTx)
      (hsend : s.task.send buf now = .ok (task', packets)) :
      Acts s (.runTask now) ⟨⟨postTx, false⟩, task'⟩ packets
  | idle (h : s.output.taskClosed = true ∨ s.output.postTx = []) : Acts s (.runTask now) s []
  | ended : Acts s .dropTask ⟨⟨[], true⟩, s.task⟩ []

variable {config : KcpConfig} {rs : Nat → Nat → Except String ReedSolomon} {c : ReedSolomon}
variable {d p : Nat} {s t : OutputPipe} {event : OutputEvent} {task : UdpOutputTask}
variable {calls : List Call} {e : FecEncoder} {trace : List (OutputPipe × OutputEvent)}
variable {output : UdpOutput} {buf : Bytes} {now : Nat} {postTx : List Bytes}

theorem FecEncoder.encode_numbered (hn : Numbered c d p e calls) (hc : c.Systematic d p)
    (buf : Bytes) (now : Nat) : ∃ e' out, e.encode buf now = .ok (e', out) ∧
      Numbered c d p e' (calls ++ accepted [((buf, now), out)]) := by
  by_cases hf : buf.length + 2 ≤ 0xffff
  · obtain ⟨e', packets, he, hn'⟩ := hn.encode_ok hf hc now
    exact ⟨e', .ok packets, he, hn'⟩
  · refine ⟨e, _, FecEncoder.encode_refused e now (Nat.lt_of_not_le hf), ?_⟩
    rw [show accepted [((buf, now), .error _)] = [] from rfl, List.append_nil]
    exact hn

theorem UdpOutputTask.send_some (h : task.fecEncoder = some e)
    (he : e.encode buf now = .ok (e', out)) :
    task.send buf now = .ok (⟨some e'⟩, out.toOption.getD []) := by
  rw [UdpOutputTask.send, h]
  simp only [he, ok_bind]
  cases out with
  | ok packets => rfl
  | error err => rfl

theorem UdpOutputTask.send_none (h : task.fecEncoder = none) (buf : Bytes) (now : Nat) :
    task.send buf now = .ok (task, [buf]) := by
  rw [UdpOutputTask.send, h]

theorem UdpOutputTask.Numbers.send (h : task.Numbers c d p calls) (hc : c.Systematic d p)
    (buf : Bytes) (now : Nat) : ∃ task' packets, task.send buf now = .ok (task', packets) ∧
      ∃ more, task'.Numbers c d p (calls ++ more) := by
  cases hf : task.fecEncoder with
  | none =>
    refine ⟨task, [buf], UdpOutputTask.send_none hf buf now, [], ?_⟩
    rw [List.append_nil]
    exact h
  | some e =>
    obtain ⟨e', out, he, hn⟩ := FecEncoder.encode_numbered (h e hf) hc buf now
    refine ⟨⟨some e'⟩, _, UdpOutputTask.send_some hf he, accepted [((buf, now), out)], ?_⟩
    intro encoder hencoder
    cases hencoder
    exact hn

theorem OutputPipe.next_runTask (hopen : s.output.taskClosed = false)
    (hq : s.output.postTx = buf :: postTx) (hsend : s.task.send buf now = .ok (task, packets)) :
    s.next (.runTask now) =
      .ok (⟨{ s.output with postTx := postTx }, task⟩, packets) := by
  simp only [OutputPipe.next, hopen, hq, hsend, ok_bind]
  rfl

theorem OutputPipe.acts (h : s.next event = .ok (t, packets)) : s.Acts event t packets := by
  obtain ⟨⟨postTx, closed⟩, task⟩ := s
  cases event with
  | write buf =>
    cases h
    rw [UdpOutput.write]
    cases closed with
    | true => exact .dropped fun hc => Bool.noConfusion hc.1
    | false =>
      by_cases hroom : postTx.length < outputBacklog
      · rw [if_neg Bool.false_ne_true, if_pos hroom]
        exact .queued rfl hroom
      · rw [if_neg Bool.false_ne_true, if_neg hroom]
        exact .dropped fun hc => hroom hc.2
  | runTask now =>
    cases closed with
    | true =>
      cases h
      exact .idle (.inl rfl)
    | false =>
      cases postTx with
      | nil =>
        cases h
        exact .idle (.inr rfl)
      | cons buf postTx =>
        obtain ⟨⟨task', packets'⟩, hsend, he⟩ := bind_eq_ok.mp h
        cases he
        exact .sent rfl rfl hsend
  | dropTask =>
    cases h
    exact .ended

theorem OutputPipe.Acts.bounded (h : s.Acts event t packets)
    (hs : s.output.postTx.length ≤ outputBacklog) : t.output.postTx.length ≤ outputBacklog := by
  cases h with
  | queued hopen hroom =>
    rw [List.length_append]
    exact hroom
  | dropped h => exact hs
  | sent hopen hq hsend =>
    rw [hq, List.length_cons] at hs
    exact Nat.le_of_succ_le hs
  | idle h => exact hs
  | ended => exact Nat.zero_le _

theorem OutputPipe.takes_idle (h : s.output.taskClosed = true ∨ s.output.postTx = []) :
    OutputPipe.takes (s, .runTask now) = [] := by
  rw [OutputPipe.takes]
  split
  · rename_i hopen
    rcases h with hc | hq
    · rw [hopen] at hc
      cases hc
    · rw [hq]
      rfl
  · rfl

theorem OutputPipe.takes_subset (s : OutputPipe) (event : OutputEvent) :
    (OutputPipe.takes (s, event)).map Prod.fst ⊆ s.output.postTx := by
  cases event with
  | runTask now =>
    rw [OutputPipe.takes]
    split
    · rw [List.map_map]
      change (s.output.postTx.take 1).map id ⊆ _
      rw [List.map_id]
      exact List.take_subset 1 _
    · exact List.nil_subset _
  | _ => exact List.nil_subset _

theorem OutputPipe.Acts.inOrder {put taken : List Bytes} (h : s.Acts event t packets)
    (ho : InOrder put taken s.output.postTx (s.output.taskClosed = true)) :
    InOrder (put ++ OutputPipe.puts (s, event))
      (taken ++ (OutputPipe.takes (s, event)).map Prod.fst) t.output.postTx
      (t.output.taskClosed = true) := by
  cases h with
  | @queued buf hopen hroom =>
    have hputs : OutputPipe.puts (s, .write buf) = [buf] := if_pos ⟨hopen, hroom⟩
    have htakes : OutputPipe.takes (s, .write buf) = [] := rfl
    rw [hputs, htakes, List.map_nil, List.append_nil]
    have hsent := ho.send [buf]
    rw [hopen] at hsent
    exact hsent
  | @dropped buf h =>
    have hputs : OutputPipe.puts (s, .write buf) = [] := if_neg h
    have htakes : OutputPipe.takes (s, .write buf) = [] := rfl
    rw [hputs, htakes, List.map_nil, List.append_nil, List.append_nil]
    exact ho
  | @sent buf postTx now task packets hopen hq hsend =>
    have hputs : OutputPipe.puts (s, .runTask now) = [] := rfl
    have htakes : OutputPipe.takes (s, .runTask now) = [(buf, now)] := by
      rw [OutputPipe.takes, if_pos hopen, hq]
      rfl
    rw [hputs, htakes, List.append_nil]
    rw [hq] at ho
    have htook := ho.take (by rw [hopen]; exact Bool.false_ne_true)
    rw [hopen] at htook
    exact htook
  | @idle now h =>
    have hputs : OutputPipe.puts (s, .runTask now) = [] := rfl
    have htakes : OutputPipe.takes (s, .runTask now) = [] := OutputPipe.takes_idle h
    rw [hputs, htakes, List.map_nil, List.append_nil, List.append_nil]
    exact ho
  | ended =>
    have hputs : OutputPipe.puts (s, .dropTask) = [] := rfl
    have htakes : OutputPipe.takes (s, .dropTask) = [] := rfl
    rw [hputs, htakes, List.map_nil, List.append_nil, List.append_nil]
    exact ho.end rfl

theorem OutputPipe.sends_eq (h : s.next event = .ok (t, packets)) :
    OutputPipe.sends (s, event) = packets := by
  rw [OutputPipe.sends, h]

/-- With FEC, what a step sends are the packets of the buffer that it takes. -/
theorem OutputPipe.Acts.encodes (h : s.Acts event t packets) (hs : s.task.fecEncoder = some e) :
    ∃ e' outs, encodeAll e (OutputPipe.takes (s, event)) = .ok (e', outs) ∧
      t.task.fecEncoder = some e' ∧ packets = outs.flatMap fun out => out.toOption.getD [] := by
  cases h with
  | queued hopen hroom => exact ⟨e, [], rfl, hs, rfl⟩
  | dropped h => exact ⟨e, [], rfl, hs, rfl⟩
  | @sent buf postTx now task packets hopen hq hsend =>
    have htakes : OutputPipe.takes (s, .runTask now) = [(buf, now)] := by
      rw [OutputPipe.takes, if_pos hopen, hq]
      rfl
    rw [htakes]
    rw [UdpOutputTask.send, hs] at hsend
    obtain ⟨⟨e', out⟩, he, hout⟩ := bind_eq_ok.mp hsend
    refine ⟨e', [out], runAll_cons he rfl, ?_⟩
    cases out with
    | ok packets' =>
      cases hout
      exact ⟨rfl, (List.append_nil _).symm⟩
    | error err =>
      cases hout
      exact ⟨rfl, rfl⟩
  | @idle now h =>
    have htakes : OutputPipe.takes (s, .runTask now) = [] := OutputPipe.takes_idle h
    rw [htakes]
    exact ⟨e, [], rfl, hs, rfl⟩
  | ended => exact ⟨e, [], rfl, hs, rfl⟩

theorem OutputPipe.run_encodes (hrun : Run OutputPipe.Step s trace t)
    (hs : s.task.fecEncoder = some e) :
    ∃ e' outs, encodeAll e (trace.flatMap OutputPipe.takes) = .ok (e', outs) ∧
      t.task.fecEncoder = some e' ∧
      trace.flatMap OutputPipe.sends = outs.flatMap fun out => out.toOption.getD [] := by
  induction hrun generalizing e with
  | nil => exact ⟨e, [], rfl, hs, rfl⟩
  | cons hstep _ ih =>
    obtain ⟨packets, hnext⟩ := hstep
    obtain ⟨e₁, outs₁, hall₁, h₁, hsent₁⟩ := (OutputPipe.acts hnext).encodes hs
    obtain ⟨e₂, outs₂, hall₂, h₂, hsent₂⟩ := ih h₁
    refine ⟨e₂, outs₁ ++ outs₂, ?_, h₂, ?_⟩
    · rw [List.flatMap_cons]
      exact runAll_append hall₁ hall₂
    · rw [List.flatMap_cons, List.flatMap_append, OutputPipe.sends_eq hnext, hsent₁, hsent₂]

theorem OutputPipe.Acts.sendsPlain (h : s.Acts event t packets) (hs : s.task.fecEncoder = none) :
    t.task.fecEncoder = none ∧ packets = (OutputPipe.takes (s, event)).map Prod.fst := by
  cases h with
  | queued hopen hroom => exact ⟨hs, rfl⟩
  | dropped h => exact ⟨hs, rfl⟩
  | @sent buf postTx now task packets hopen hq hsend =>
    rw [UdpOutputTask.send_none hs] at hsend
    cases hsend
    refine ⟨hs, ?_⟩
    rw [OutputPipe.takes, if_pos hopen, hq]
    rfl
  | @idle now h =>
    have htakes : OutputPipe.takes (s, .runTask now) = [] := OutputPipe.takes_idle h
    rw [htakes]
    exact ⟨hs, rfl⟩
  | ended => exact ⟨hs, rfl⟩

theorem OutputPipe.run_sendsPlain (hrun : Run OutputPipe.Step s trace t)
    (hs : s.task.fecEncoder = none) :
    trace.flatMap OutputPipe.sends = (trace.flatMap OutputPipe.takes).map Prod.fst := by
  induction hrun with
  | nil => rfl
  | cons hstep _ ih =>
    obtain ⟨packets, hnext⟩ := hstep
    obtain ⟨h₁, hsent⟩ := (OutputPipe.acts hnext).sendsPlain hs
    rw [List.flatMap_cons, List.flatMap_cons, List.map_append, OutputPipe.sends_eq hnext, hsent,
      ih h₁]

theorem OutputPipe.next_returns (hs : s.task.Numbers c d p calls) (hc : c.Systematic d p)
    (event : OutputEvent) : ∃ t packets, s.next event = .ok (t, packets) := by
  obtain ⟨⟨postTx, closed⟩, task⟩ := s
  cases event with
  | write buf => exact ⟨_, _, rfl⟩
  | runTask now =>
    cases closed with
    | true => exact ⟨_, _, rfl⟩
    | false =>
      cases postTx with
      | nil => exact ⟨_, _, rfl⟩
      | cons buf postTx =>
        obtain ⟨task', packets, hsend, _⟩ := hs.send hc buf now
        exact ⟨_, _, OutputPipe.next_runTask rfl rfl hsend⟩
  | dropTask => exact ⟨_, _, rfl⟩

theorem OutputPipe.Acts.numbers (h : s.Acts event t packets) (hs : s.task.Numbers c d p calls)
    (hc : c.Systematic d p) : ∃ more, t.task.Numbers c d p (calls ++ more) := by
  cases h with
  | sent hopen hq hsend =>
    obtain ⟨task', packets', hsend', hmore⟩ := hs.send hc _ _
    rw [hsend'] at hsend
    cases hsend
    exact hmore
  | _ => exact ⟨[], by rw [List.append_nil]; exact hs⟩

theorem UdpOutput.new_numbers (hvalid : config.Valid) (hcodec : config.CodecIs rs c)
    (h : UdpOutput.new rs config = .ok (.ok (output, task))) :
    output = ⟨[], false⟩ ∧ (task.fecEncoder.isSome = config.fec.enabled) ∧
      task.Numbers c config.fec.dataShards config.fec.parityShards [] := by
  rw [UdpOutput.new] at h
  split at h
  · rename_i he
    obtain ⟨encoder, hnew, hn⟩ := FecEncoder.new_numbered
      (validateShards_ok_iff.mpr (hvalid.shards he)) (hcodec he)
    rw [hnew] at h
    cases h
    refine ⟨rfl, he.symm, ?_⟩
    intro e' he'
    cases he'
    exact hn
  · rename_i he
    cases h
    refine ⟨rfl, (Bool.not_eq_true _ ▸ he).symm, ?_⟩
    intro e' he'
    cases he'

theorem OutputPipe.run_inOrder (hrun : Run OutputPipe.Step ⟨⟨[], false⟩, task⟩ trace s) :
    InOrder (trace.flatMap OutputPipe.puts) ((trace.flatMap OutputPipe.takes).map Prod.fst)
      s.output.postTx (s.output.taskClosed = true) := by
  rw [List.map_flatMap]
  apply InOrder.run (P := fun _ => True) hrun True.intro rfl
  · exact fun _ _ _ _ _ => True.intro
  · rintro s event t put taken _ ⟨packets, hnext⟩ ho
    exact (OutputPipe.acts hnext).inOrder ho

/-- What KCP writes leaves as it came: the task takes the buffers in order and loses none that
found room in the channel, and what it sends are the packets that the encoder makes of them, or
the buffers themselves. It does not panic, and the channel stays within its capacity. -/
theorem output_in_order (hvalid : config.validate = .ok (.ok ())) (hcodec : config.CodecIs rs c)
    (hc : c.Systematic config.fec.dataShards config.fec.parityShards)
    (hn : UdpOutput.new rs config = .ok (.ok (output, task)))
    (hrun : Run OutputPipe.Step ⟨output, task⟩ trace s) :
    let written := trace.flatMap OutputPipe.puts
    let taken := trace.flatMap OutputPipe.takes
    let sent := trace.flatMap OutputPipe.sends
    s.output.postTx.length ≤ outputBacklog ∧ taken.map Prod.fst <+: written ∧
    (s.output.taskClosed = false → written = taken.map Prod.fst ++ s.output.postTx) ∧
    (∀ event, ∃ t packets, s.next event = .ok (t, packets)) ∧
    (task.fecEncoder = none → sent = taken.map Prod.fst) ∧
    ∀ encoder, task.fecEncoder = some encoder → ∃ encoder' outs,
      encodeAll encoder taken = .ok (encoder', outs) ∧
      sent = outs.flatMap fun out => out.toOption.getD [] := by
  obtain ⟨rfl, _, hnumbers⟩ :=
    UdpOutput.new_numbers (KcpConfig.valid_of_validate hvalid) hcodec hn
  have horder := OutputPipe.run_inOrder hrun
  have hbounded : s.output.postTx.length ≤ outputBacklog :=
    (hrun.invariant (P := fun s : OutputPipe => s.output.postTx.length ≤ outputBacklog)
      (fun _ _ _ hs ⟨_, hnext⟩ => (OutputPipe.acts hnext).bounded hs) (Nat.zero_le _)).2
  obtain ⟨calls, hlast⟩ :=
    (hrun.invariant (P := fun s : OutputPipe => ∃ calls,
        s.task.Numbers c config.fec.dataShards config.fec.parityShards calls)
      (fun _ _ _ ⟨_, hs⟩ ⟨_, hnext⟩ => ((OutputPipe.acts hnext).numbers hs hc).imp' _ fun _ h => h)
      ⟨[], hnumbers⟩).2
  refine ⟨hbounded, horder.isPrefix, fun hopen => horder.whole ?_, OutputPipe.next_returns hlast hc,
    OutputPipe.run_sendsPlain hrun, fun encoder he => ?_⟩
  · rw [hopen]
    exact Bool.false_ne_true
  · obtain ⟨encoder', outs, hall, _, hsent⟩ := OutputPipe.run_encodes hrun he
    exact ⟨encoder', outs, hall, hsent⟩

/-- Two buffers that make a group have left, and a third waits. -/
theorem output_in_order_small : ∃ output task trace s encoder,
    UdpOutput.new reedSolomon (KcpConfig.withFec {} 2 1) = .ok (.ok (output, task)) ∧
    task.fecEncoder = some encoder ∧ Run OutputPipe.Step ⟨output, task⟩ trace s ∧
    (trace.flatMap OutputPipe.takes).map Prod.fst = [[65], [66]] ∧
    (trace.flatMap OutputPipe.sends).length = 3 ∧ s.output.postTx = [[67]] ∧
    trace.flatMap OutputPipe.puts =
      (trace.flatMap OutputPipe.takes).map Prod.fst ++ s.output.postTx ∧
    ∃ encoder' outs, encodeAll encoder (trace.flatMap OutputPipe.takes) = .ok (encoder', outs) ∧
      trace.flatMap OutputPipe.sends = outs.flatMap fun out => out.toOption.getD [] := by
  have hreplay : ∃ output task encoder trace s,
      UdpOutput.new reedSolomon (KcpConfig.withFec {} 2 1) = .ok (.ok (output, task)) ∧
      task.fecEncoder = some encoder ∧
      replay (fun s event => (s.next event).toOption.map Prod.fst) (⟨output, task⟩ : OutputPipe)
        [.write [65], .write [66], .runTask 0, .runTask 1, .write [67]] = some (trace, s) ∧
      (trace.flatMap OutputPipe.takes).map Prod.fst = [[65], [66]] ∧
      (trace.flatMap OutputPipe.sends).length = 3 ∧ s.output.postTx = [[67]] ∧
      s.output.taskClosed = false := ⟨_, _, _, _, _, rfl, rfl, rfl, rfl, rfl, rfl, rfl⟩
  obtain ⟨output, task, encoder, trace, s, hn, he, hr, htaken, hsent, hq, hopen⟩ := hreplay
  have hrun : Run OutputPipe.Step ⟨output, task⟩ trace s := by
    apply run_of_replay _ hr
    intro s event t ht
    obtain ⟨⟨t', packets⟩, hnext, rfl⟩ := Option.map_eq_some_iff.mp ht
    exact ⟨packets, eq_ok_of_toOption hnext⟩
  obtain ⟨_, _, hwhole, _, _, henc⟩ :=
    output_in_order rfl (fun _ => rfl) reedSolomon21_lawful.systematic hn hrun
  exact ⟨output, task, trace, s, encoder, hn, he, hrun, htaken, hsent, hq, hwhole hopen,
    henc encoder he⟩

end TokioKcp
