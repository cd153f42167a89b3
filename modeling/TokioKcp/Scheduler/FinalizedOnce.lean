import TokioKcp.Scheduler
import TokioKcp.Socket.Readers

namespace TokioKcp
set_option autoImplicit true

open Checked Transition

variable {ω κ : Type}

/-- Polls are those of sessions, whatever state these are in at the time. -/
def PollsSessions (K : KcpCrate κ) (poll : SessionPoll ω) : Prop :=
  ∀ world id nowMs, ∃ session : KcpSession κ,
    (session.pollSchedulerTick K nowMs).2 = (poll world id nowMs).2

def ScheduledTask.isOf (id : Nat) (task : ScheduledTask) : Bool := decide (task.session = id)

/-- The tasks that a shard has, those still in the channel included. -/
def Shard.pending (s : Shard ω) : List ScheduledTask := (drainCommands s.rx s.tasks).1

def Shard.pollsOf (id : Nat) (s : Shard ω) : List TaskPoll :=
  s.polling.polls.filter fun p => p.task.isOf id

def ShardEvent.puts (id : Nat) : ShardEvent ω → Bool
  | .put session _ => decide (session = id)
  | _ => false

def puts (id : Nat) (trace : List (Shard ω × ShardEvent ω)) : Nat :=
  trace.countP fun x => x.2.puts id

/-- The answer of the poll is that which the session gave, at some time. -/
def TaskPoll.Given (poll : SessionPoll ω) (self : TaskPoll) : Prop :=
  ∃ world nowMs, (poll world self.task.session nowMs).2 = (self.next, self.notification)

/-- What is known of a session that was put so many times: it has a task for each time, up to
the poll that finalized it, and was not polled after that. -/
structure Shard.Tracks (id n : Nat) (s : Shard ω) : Prop where
  count : s.pending.countP (·.isOf id) + (s.pollsOf id).countP (·.next.isNone) = n
  last : (s.pollsOf id).Pairwise fun p _ => p.next ≠ none
  quiet : ∀ p ∈ s.polling.polls, p.next ≠ none → p.notification = none

variable {K : KcpCrate κ} {poll : SessionPoll ω} {s t : Shard ω} {id n nowMs : Nat}
variable {polls : List TaskPoll} {tasks left : List ScheduledTask}

theorem Shard.pending_put (s : Shard ω) (task : ScheduledTask) :
    ({ s with rx := { s.rx with queue := s.rx.queue ++ [.put task] } } : Shard ω).pending =
      s.pending ++ [task] := by
  change (s.rx.queue ++ [ShardCommand.put task]).foldl applyCommand s.tasks = _
  rw [List.foldl_append]
  rfl

theorem countP_again (id : Nat) (polls : List TaskPoll) :
    (polls.filterMap TaskPoll.again).countP (·.isOf id) +
      (polls.filter (·.task.isOf id)).countP (·.next.isNone) =
    (polls.map TaskPoll.task).countP (·.isOf id) := by
  induction polls with
  | nil => rfl
  | cons p polls ih =>
    obtain ⟨task, next, notification⟩ := p
    have hsame (deadlineMs : Nat) :
        ScheduledTask.isOf id { task with deadlineMs := deadlineMs } = task.isOf id := rfl
    rw [List.map_cons, List.countP_cons, ← ih]
    cases next with
    | none =>
      have hagain : TaskPoll.again ⟨task, none, notification⟩ = none := rfl
      rw [List.filterMap_cons_none hagain, List.filter_cons]
      dsimp only
      split
      · have hnone : (⟨task, none, notification⟩ : TaskPoll).next.isNone = true := rfl
        rw [List.countP_cons, if_pos hnone, Nat.add_assoc]
      · rfl
    | some deadlineMs =>
      have hagain : TaskPoll.again ⟨task, some deadlineMs, notification⟩ =
          some { task with deadlineMs := deadlineMs } := rfl
      rw [List.filterMap_cons_some hagain, List.countP_cons, hsame, List.filter_cons]
      dsimp only
      split
      · have hsome : ¬(⟨task, some deadlineMs, notification⟩ : TaskPoll).next.isNone = true :=
          Bool.false_ne_true
        rw [List.countP_cons, if_neg hsome]
        omega
      · omega

theorem countP_due (id nowMs : Nat) (tasks : List ScheduledTask) :
    (tasks.filter (·.due nowMs)).countP (·.isOf id) +
      (tasks.filter (!·.due nowMs)).countP (·.isOf id) = tasks.countP (·.isOf id) := by
  rw [← List.countP_append]
  exact (List.filter_append_perm _ tasks).countP_eq _

/-- The tasks of a session after a pass, and the polls that were its last in the pass. -/
theorem countP_left (id : Nat)
    (hdue : (polls.map TaskPoll.task).Perm (tasks.filter (·.due nowMs)))
    (hleft : left.Perm (tasks.filter (!·.due nowMs) ++ polls.filterMap TaskPoll.again)) :
    left.countP (·.isOf id) + (polls.filter (·.task.isOf id)).countP (·.next.isNone) =
      tasks.countP (·.isOf id) ∧
    (polls.filter (·.task.isOf id)).length ≤ tasks.countP (·.isOf id) := by
  have hagain := countP_again id polls
  have hsplit := countP_due id nowMs tasks
  rw [hdue.countP_eq] at hagain
  rw [hleft.countP_eq, List.countP_append]
  have hlength : (polls.filter (·.task.isOf id)).length =
      (tasks.filter (·.due nowMs)).countP (·.isOf id) := by
    rw [← hdue.countP_eq, List.countP_map, List.countP_eq_length_filter]
    rfl
  omega

theorem Shard.Step.pass (h : s.Step poll (.pass nowMs) t) : ∃ polls,
    t.polling.polls = s.polling.polls ++ polls ∧ t.pending = t.tasks ∧
    (polls.map TaskPoll.task).Perm (s.pending.filter (·.due nowMs)) ∧
    t.tasks.Perm (s.pending.filter (!·.due nowMs) ++ polls.filterMap TaskPoll.again) ∧
    Polled poll nowMs s.polling.world polls t.polling.world := by
  obtain ⟨_, ⟨rounds, hprocess⟩, hrx⟩ := h
  obtain ⟨world, polls, left, hloop, hdue, hleft, hpolled⟩ :=
    processTasks_polls poll nowMs s.polling s.pending
  have he := loop_unique (hloop _ (Nat.lt_succ_self _)) hprocess
  have htasks : t.tasks = left := congrArg Prod.snd he
  have hworld : t.polling.world = world := congrArg (·.1.world) he
  refine ⟨polls, congrArg (·.1.polls) he, ?_, hdue, htasks ▸ hleft, hworld ▸ hpolled⟩
  rw [Shard.pending, hrx]
  rfl

theorem pairwise_of_length_le_one {α : Type} {R : α → α → Prop} {xs : List α}
    (h : xs.length ≤ 1) : xs.Pairwise R := by
  match xs, h with
  | [], _ => exact .nil
  | [x], _ => exact List.pairwise_singleton R x

theorem pollSession_pollsSessions (K : KcpCrate κ) : PollsSessions K (pollSession K) :=
  fun sessions id _ => ⟨sessions id, rfl⟩

theorem PollsSessions.quiet (hK : PollsSessions K poll) {world : ω} {next : Option Nat}
    {notification : Option SocketAddr} (h : (poll world id nowMs).2 = (next, notification))
    (hsome : next ≠ none) : notification = none := by
  obtain ⟨session, hsession⟩ := hK world id nowMs
  rw [h] at hsession
  rcases htick : session.pollSchedulerTick K nowMs with ⟨session', next', notification'⟩
  rw [htick] at hsession
  cases hsession
  rw [KcpSession.pollSchedulerTick_notification htick]
  exact if_pos (Option.isSome_iff_ne_none.mpr hsome)

theorem Shard.Tracks.pass (hK : PollsSessions K poll) (h : s.Step poll (.pass nowMs) t)
    (hs : s.Tracks id n) (hn : n ≤ 1) : t.Tracks id n := by
  obtain ⟨polls, hpolls, hpending, hdue, hleft, hpolled⟩ := h.pass
  obtain ⟨hcount, hlength⟩ := countP_left id hdue hleft
  have hnew : t.pollsOf id = s.pollsOf id ++ polls.filter (·.task.isOf id) := by
    rw [Shard.pollsOf, hpolls, List.filter_append, Shard.pollsOf]
  have hbefore := hs.count
  refine ⟨?_, ?_, ?_⟩
  · rw [hnew, List.countP_append, hpending]
    omega
  · rw [hnew, List.pairwise_append]
    refine ⟨hs.last, ?_, ?_⟩
    · apply pairwise_of_length_le_one
      omega
    · intro p hp q hq hfinal
      -- a session that was finalized has no task left that could be polled
      have hpos : 0 < (s.pollsOf id).countP (·.next.isNone) :=
        List.countP_pos_iff.mpr ⟨p, hp, by rw [hfinal]; rfl⟩
      have hpos' := List.length_pos_of_mem hq
      omega
  · rw [hpolls]
    intro p hp hsome
    rcases List.mem_append.mp hp with hp | hp
    · exact hs.quiet p hp hsome
    · obtain ⟨world, hpoll⟩ := hpolled.given p hp
      exact hK.quiet hpoll hsome

theorem Shard.Tracks.put (session deadlineMs : Nat) (hs : s.Tracks id n) :
    Shard.Tracks id (n + if decide (session = id) = true then 1 else 0)
      { s with rx := { s.rx with queue := s.rx.queue ++ [.put ⟨session, deadlineMs⟩] } } := by
  refine ⟨?_, hs.last, hs.quiet⟩
  have hbefore := hs.count
  have hone : [(⟨session, deadlineMs⟩ : ScheduledTask)].countP (·.isOf id) =
      if decide (session = id) = true then 1 else 0 := List.countP_singleton
  rw [s.pending_put, List.countP_append, hone, ← hbefore]
  exact Nat.add_right_comm _ _ _

theorem Shard.Tracks.step {event : ShardEvent ω} (hK : PollsSessions K poll)
    (h : s.Step poll event t) (hs : s.Tracks id n)
    (hn : n + (if event.puts id = true then 1 else 0) ≤ 1) :
    t.Tracks id (n + if event.puts id = true then 1 else 0) := by
  cases event with
  | put session deadlineMs =>
    cases h
    exact hs.put session deadlineMs
  | disconnect =>
    cases h
    exact ⟨hs.count, hs.last, hs.quiet⟩
  | meanwhile world =>
    cases h
    exact ⟨hs.count, hs.last, hs.quiet⟩
  | pass nowMs => exact hs.pass hK h (Nat.le_trans (Nat.le_add_right _ _) hn)

/-- A run keeps track of a session that is put once at most in all. -/
theorem Shard.Tracks.run {trace : List (Shard ω × ShardEvent ω)} (hK : PollsSessions K poll)
    (h : Run (Shard.Step poll) s trace t) (hs : s.Tracks id n) (hn : n + puts id trace ≤ 1) :
    t.Tracks id (n + puts id trace) := by
  induction h generalizing n with
  | nil => exact hs
  | @cons s event t trace u hstep _ ih =>
    have hputs : puts id ((s, event) :: trace) =
        puts id trace + if event.puts id = true then 1 else 0 := List.countP_cons
    rw [hputs] at hn ⊢
    have hle : n + (if event.puts id = true then 1 else 0) ≤ 1 := by omega
    have ht := ih (hs.step hK hstep hle) (by omega)
    rw [Nat.add_assoc, Nat.add_comm (if event.puts id = true then 1 else 0)] at ht
    exact ht

theorem Shard.new_tracks (id : Nat) (world : ω) : (Shard.new world).Tracks id 0 :=
  ⟨rfl, .nil, nofun⟩

/-- Of the notifications of a session, one was sent for each of its last polls at most. -/
theorem length_notifications {polls : List TaskPoll}
    (h : ∀ p ∈ polls, p.next ≠ none → p.notification = none) :
    (polls.filterMap TaskPoll.notification).length ≤ polls.countP (·.next.isNone) := by
  induction polls with
  | nil => exact Nat.le_refl 0
  | cons p polls ih =>
    have hrest := ih fun q hq => h q (List.mem_cons_of_mem _ hq)
    rw [List.countP_cons]
    cases hnext : p.next with
    | none =>
      have hone := List.length_filterMap_le TaskPoll.notification [p]
      have happend : (p :: polls).filterMap TaskPoll.notification =
          [p].filterMap TaskPoll.notification ++ polls.filterMap TaskPoll.notification :=
        List.filterMap_append (l := [p])
      rw [happend, List.length_append, if_pos (by rfl)]
      exact Nat.le_trans (Nat.add_le_add hone hrest) (Nat.le_of_eq (Nat.add_comm _ _))
    | some deadlineMs =>
      have hquiet : p.notification = none := by
        apply h p List.mem_cons_self
        rw [hnext]
        exact nofun
      rw [List.filterMap_cons_none hquiet]
      exact Nat.le_trans hrest (Nat.le_add_right _ _)

theorem Shard.run_given {trace : List (Shard ω × ShardEvent ω)}
    (h : Run (Shard.Step poll) s trace t) (hs : ∀ p ∈ s.polling.polls, p.Given poll) :
    ∀ p ∈ t.polling.polls, p.Given poll := by
  refine (h.invariant (P := fun s => ∀ p ∈ s.polling.polls, p.Given poll) ?_ hs).2
  intro s event t hs hstep
  cases event with
  | put session deadlineMs =>
    cases hstep
    exact hs
  | disconnect =>
    cases hstep
    exact hs
  | meanwhile world =>
    cases hstep
    exact hs
  | pass nowMs =>
    obtain ⟨polls, hpolls, _, _, _, hpolled⟩ := hstep.pass
    rw [hpolls]
    intro p hp
    rcases List.mem_append.mp hp with hp | hp
    · exact hs p hp
    · obtain ⟨world, hpoll⟩ := hpolled.given p hp
      exact ⟨world, nowMs, hpoll⟩

/-- A pass ends. It calls `poll_scheduler_tick` once for each task that is due and for no other,
one call after the other, and keeps the tasks that were not due and, with the deadlines that the
calls gave, those that are to be polled again. A session that is put once is finalized once at
most and not polled after that, and sends one notification at most. -/
theorem scheduler_polls_once (K : KcpCrate κ) (poll : SessionPoll ω) :
    (∀ nowMs polling tasks, ∃ world polls left,
      (∀ rounds, tasks.length < rounds → processTasks poll rounds nowMs polling tasks =
        .ok (some (⟨world, polling.polls ++ polls⟩, left))) ∧
      (polls.map TaskPoll.task).Perm (tasks.filter (·.due nowMs)) ∧
      left.Perm (tasks.filter (!·.due nowMs) ++ polls.filterMap TaskPoll.again) ∧
      Polled poll nowMs polling.world polls world) ∧
    (PollsSessions K poll → ∀ world id trace t,
      Run (Shard.Step poll) (Shard.new world) trace t → puts id trace ≤ 1 →
      ((t.pollsOf id).filter (·.next.isNone)).length ≤ 1 ∧
      ((t.pollsOf id).filterMap TaskPoll.notification).length ≤ 1 ∧
      ((t.pollsOf id).Pairwise fun p _ => p.next ≠ none) ∧
      ∀ p ∈ t.pollsOf id, p.Given poll) := by
  refine ⟨fun nowMs polling tasks => processTasks_polls poll nowMs polling tasks, ?_⟩
  intro hK world id trace t hrun hputs
  rw [← Nat.zero_add (puts id trace)] at hputs
  have ht := (Shard.new_tracks id world).run hK hrun hputs
  have hfinal : (t.pollsOf id).countP (·.next.isNone) ≤ 1 :=
    Nat.le_trans (Nat.le_add_left _ _) (ht.count ▸ hputs)
  have hquiet : ∀ p ∈ t.pollsOf id, p.next ≠ none → p.notification = none :=
    fun p hp => ht.quiet p (List.mem_of_mem_filter hp)
  have hgiven := Shard.run_given hrun fun p hp => absurd hp List.not_mem_nil
  refine ⟨?_, Nat.le_trans (length_notifications hquiet) hfinal, ht.last,
    fun p hp => hgiven p (List.mem_of_mem_filter hp)⟩
  rw [← List.countP_eq_length_filter]
  exact hfinal

/-- Two sessions that were closed are finalized in one pass, and not polled in the next. -/
theorem scheduler_polls_once_small :
    let world := fun _ => (KcpSession.new smallSocket none (some ⟨[10, 0, 0, 1], 4000⟩)).close
    ∃ trace t, trace.map Prod.snd = [.put 0 5, .put 1 7, .pass 10, .pass 20] ∧
      Run (Shard.Step (pollSession smallKcp)) (Shard.new world) trace t ∧
      t.polling.polls.map (·.task.session) = [0, 1] ∧
      ((t.pollsOf 1).filter (·.next.isNone)).length ≤ 1 ∧
      ((t.pollsOf 1).filterMap TaskPoll.notification).length ≤ 1 := by
  intro world
  let s : Shard (Nat → KcpSession SmallKcp) :=
    { Shard.new world with rx := ⟨[.put ⟨0, 5⟩, .put ⟨1, 7⟩], false⟩ }
  have hnext : ∃ t u, s.Step (pollSession smallKcp) (.pass 10) t ∧
      t.Step (pollSession smallKcp) (.pass 20) u ∧
      u.polling.polls.map (·.task.session) = [0, 1] :=
    ⟨⟨_, _, _⟩, ⟨_, _, _⟩, ⟨nofun, ⟨3, rfl⟩, rfl⟩, ⟨nofun, ⟨1, rfl⟩, rfl⟩, rfl⟩
  obtain ⟨t, u, ht, hu, hpolls⟩ := hnext
  have hrun := Run.cons (s := Shard.new world) (a := .put 0 5) rfl
    (.cons (a := .put 1 7) (t := s) rfl (.cons ht (.cons hu .nil)))
  obtain ⟨_, hparts⟩ := scheduler_polls_once smallKcp (pollSession smallKcp)
  obtain ⟨hfinal, hsent, _⟩ :=
    hparts (pollSession_pollsSessions smallKcp) world 1 _ u hrun (Nat.le_refl 1)
  exact ⟨_, u, rfl, hrun, hpolls, hfinal, hsent⟩

end TokioKcp
