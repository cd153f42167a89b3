import TokioKcp.Listener
import TokioKcp.Lib.Sweep

namespace TokioKcp
set_option autoImplicit true

open Checked Transition

variable {ω κ : Type}

/-- One call of `poll_scheduler_tick` for a task, with the deadline and the notification that it
gave. -/
structure TaskPoll where
  task : ScheduledTask
  next : Option Nat
  notification : Option SocketAddr

/-- What `poll_scheduler_tick` does to all that the sessions share, for the session with the
given number and at the given time. -/
abbrev SessionPoll (ω : Type) := ω → Nat → Nat → ω × Option Nat × Option SocketAddr

def pollSession (K : KcpCrate κ) : SessionPoll (Nat → KcpSession κ) := fun sessions id nowMs =>
  let (session, next, notification) := (sessions id).pollSchedulerTick K nowMs
  (fun i => if i = id then session else sessions i, next, notification)

/-- `polls` lists the calls that were made, in order. -/
structure Polling (ω : Type) where
  world : ω
  polls : List TaskPoll

def Polling.pollSchedulerTick (poll : SessionPoll ω) (self : Polling ω) (task : ScheduledTask)
    (nowMs : Nat) : Polling ω × Option Nat :=
  let (world, next, notification) := poll self.world task.session nowMs
  (⟨world, self.polls ++ [⟨task, next, notification⟩]⟩, next)

inductive ShardCommand where
  | put (task : ScheduledTask)

/-- The channel that a shard takes its commands from. -/
structure CommandRx where
  queue : List ShardCommand
  disconnected : Bool

def applyCommand (tasks : List ScheduledTask) : ShardCommand → List ScheduledTask
  | .put task => tasks ++ [task]

def drainCommands (rx : CommandRx) (tasks : List ScheduledTask) : List ScheduledTask × Bool :=
  (rx.queue.foldl applyCommand tasks, rx.disconnected)

def processRound (poll : SessionPoll ω) (nowMs : Nat) :
    Polling ω × Nat × List ScheduledTask →
      Exec ((Polling ω × Nat × List ScheduledTask) ⊕ (Polling ω × List ScheduledTask))
  | (polling, idx, tasks) =>
    if idx < tasks.length then do
      let task ← index tasks idx
      if task.deadlineMs > nowMs then
        return .inl (polling, idx + 1, tasks)
      else
        match polling.pollSchedulerTick poll task nowMs with
        | (polling, some deadlineMs) =>
          return .inl (polling, idx + 1, tasks.set idx { task with deadlineMs := deadlineMs })
        | (polling, none) => do
          let tasks ← swapRemove tasks idx
          return .inl (polling, idx, tasks)
    else
      return .inr (polling, tasks)

def processTasks (poll : SessionPoll ω) (rounds nowMs : Nat) (polling : Polling ω)
    (tasks : List ScheduledTask) : Exec (Option (Polling ω × List ScheduledTask)) :=
  loop (processRound poll nowMs) rounds (polling, 0, tasks)

/-- A shard of the scheduler, with its thread's tasks. -/
structure Shard (ω : Type) where
  rx : CommandRx
  tasks : List ScheduledTask
  polling : Polling ω

def Shard.new (world : ω) : Shard ω where
  rx := ⟨[], false⟩
  tasks := []
  polling := ⟨world, []⟩

/-- A session is put with a deadline, its sender goes away, or the thread makes a pass; and in
between whatever others do to the sessions. -/
inductive ShardEvent (ω : Type) where
  | put (session deadlineMs : Nat)
  | disconnect
  | meanwhile (world : ω)
  | pass (nowMs : Nat)

/-- The thread leaves its loop once it has no tasks and can get none. -/
def Shard.Step (poll : SessionPoll ω) (s : Shard ω) : ShardEvent ω → Shard ω → Prop
  | .put session deadlineMs, t =>
    t = { s with rx := { s.rx with queue := s.rx.queue ++ [.put ⟨session, deadlineMs⟩] } }
  | .disconnect, t => t = { s with rx := { s.rx with disconnected := true } }
  | .meanwhile world, t => t = { s with polling := { s.polling with world := world } }
  | .pass nowMs, t =>
    let (tasks, disconnected) := drainCommands s.rx s.tasks
    ¬(disconnected = true ∧ tasks = []) ∧
    (∃ rounds, processTasks poll rounds nowMs s.polling tasks = .ok (some (t.polling, t.tasks))) ∧
    t.rx = { s.rx with queue := [] }

def ScheduledTask.due (nowMs : Nat) (task : ScheduledTask) : Bool :=
  decide (task.deadlineMs ≤ nowMs)

/-- The task that a poll puts back. -/
def TaskPoll.again (self : TaskPoll) : Option ScheduledTask :=
  self.next.map fun deadlineMs => { self.task with deadlineMs := deadlineMs }

/-- A task that is due is polled, and any other is kept as it is. -/
def visitTask (poll : SessionPoll ω) (nowMs : Nat) (polling : Polling ω) (task : ScheduledTask) :
    Polling ω × Option ScheduledTask :=
  if task.due nowMs then
    let (polling, next) := polling.pollSchedulerTick poll task nowMs
    (polling, next.map fun deadlineMs => { task with deadlineMs := deadlineMs })
  else
    (polling, some task)

variable {poll : SessionPoll ω} {nowMs : Nat} {tasks order : List ScheduledTask}

theorem processRound_eq (poll : SessionPoll ω) (nowMs : Nat) :
    processRound poll nowMs = sweepRound (visitTask poll nowMs) := by
  funext ⟨polling, idx, tasks⟩
  rw [processRound, sweepRound]
  by_cases hlt : idx < tasks.length
  · rw [if_pos hlt, if_pos hlt, index_of_lt hlt, ok_bind, ok_bind, visitTask]
    by_cases hdue : tasks[idx].due nowMs = true
    · have hle : ¬tasks[idx].deadlineMs > nowMs := Nat.not_lt_of_le (of_decide_eq_true hdue)
      rw [if_neg hle, if_pos hdue]
      rcases polling.pollSchedulerTick poll tasks[idx] nowMs with ⟨polling, _ | deadlineMs⟩
      · rfl
      · rfl
    · have hgt : tasks[idx].deadlineMs > nowMs := by
        apply Nat.lt_of_not_le
        intro hle
        exact hdue (decide_eq_true hle)
      rw [if_pos hgt, if_neg hdue]
      dsimp only
      rw [List.set_getElem_self]
  · rw [if_neg hlt, if_neg hlt]

/-- Calls of `poll_scheduler_tick` one after the other, each with what it gave. -/
inductive Polled (poll : SessionPoll ω) (nowMs : Nat) : ω → List TaskPoll → ω → Prop where
  | nil : Polled poll nowMs world [] world
  | cons (h : poll world task.session nowMs = (world', next, notification))
      (hrest : Polled poll nowMs world' polls world'') :
      Polled poll nowMs world (⟨task, next, notification⟩ :: polls) world''

theorem Polled.given {world world' : ω} {polls : List TaskPoll}
    (h : Polled poll nowMs world polls world') :
    ∀ p ∈ polls, ∃ world, (poll world p.task.session nowMs).2 = (p.next, p.notification) := by
  induction h with
  | nil => exact nofun
  | @cons world _ _ _ _ _ _ hp _ ih =>
    intro p hm
    cases hm with
    | head => exact ⟨world, congrArg Prod.snd hp⟩
    | tail _ hm => exact ih p hm

/-- What was polled in turn, and what is kept. -/
structure PolledAll (poll : SessionPoll ω) (nowMs : Nat) (world : ω)
    (order : List ScheduledTask) (polls : List TaskPoll) (world' : ω)
    (kept : List ScheduledTask) : Prop where
  due : polls.map TaskPoll.task = order.filter (·.due nowMs)
  kept : kept.Perm (order.filter (!·.due nowMs) ++ polls.filterMap TaskPoll.again)
  polled : Polled poll nowMs world polls world'

theorem visitAll_polls (poll : SessionPoll ω) (nowMs : Nat) (polling : Polling ω)
    (order : List ScheduledTask) : ∃ polls,
    (visitAll (visitTask poll nowMs) polling order).1.polls = polling.polls ++ polls ∧
    PolledAll poll nowMs polling.world order polls
      (visitAll (visitTask poll nowMs) polling order).1.world
      (visitAll (visitTask poll nowMs) polling order).2 := by
  induction order generalizing polling with
  | nil => exact ⟨[], (List.append_nil _).symm, rfl, .refl [], .nil⟩
  | cons task order ih =>
    rw [visitAll, visitTask]
    by_cases hdue : task.due nowMs = true
    · rw [if_pos hdue]
      rcases hp : poll polling.world task.session nowMs with ⟨world, next, notification⟩
      obtain ⟨polls, hpolls, hmap, hkept, hpolled⟩ :=
        ih ⟨world, polling.polls ++ [⟨task, next, notification⟩]⟩
      rw [Polling.pollSchedulerTick, hp]
      refine ⟨⟨task, next, notification⟩ :: polls, ?_, ?_, ?_, .cons hp hpolled⟩
      · rw [hpolls, List.append_assoc, List.singleton_append]
      · rw [List.map_cons, hmap, List.filter_cons_of_pos hdue]
      · have hfilter : (task :: order).filter (!·.due nowMs) = order.filter (!·.due nowMs) := by
          apply List.filter_cons_of_neg
          rw [hdue]
          exact Bool.false_ne_true
        rw [hfilter]
        cases next with
        | none => exact hkept
        | some deadlineMs =>
          have hcons := hkept.cons { task with deadlineMs := deadlineMs }
          exact hcons.trans List.perm_middle.symm
    · rw [if_neg hdue]
      obtain ⟨polls, hpolls, hmap, hkept, hpolled⟩ := ih polling
      refine ⟨polls, hpolls, ?_, ?_, hpolled⟩
      · rw [hmap, List.filter_cons_of_neg hdue]
      · have hfilter : (task :: order).filter (!·.due nowMs) =
            task :: order.filter (!·.due nowMs) := by
          apply List.filter_cons_of_pos
          rw [Bool.not_eq_true] at hdue
          rw [hdue]
          rfl
        rw [hfilter]
        exact hkept.cons task

/-- A pass ends, and polls just the tasks that are due, each once and with its own answer. -/
theorem processTasks_polls (poll : SessionPoll ω) (nowMs : Nat) (polling : Polling ω)
    (tasks : List ScheduledTask) : ∃ world polls left,
    (∀ rounds, tasks.length < rounds → processTasks poll rounds nowMs polling tasks =
      .ok (some (⟨world, polling.polls ++ polls⟩, left))) ∧
    (polls.map TaskPoll.task).Perm (tasks.filter (·.due nowMs)) ∧
    left.Perm (tasks.filter (!·.due nowMs) ++ polls.filterMap TaskPoll.again) ∧
    Polled poll nowMs polling.world polls world := by
  obtain ⟨order, left, horder, hloop, hleft⟩ :=
    sweep_visits (visitTask poll nowMs) polling tasks
  obtain ⟨polls, hpolls, hdue, hkept, hpolled⟩ := visitAll_polls poll nowMs polling order
  refine ⟨(visitAll (visitTask poll nowMs) polling order).1.world, polls, left, ?_, ?_, ?_,
    hpolled⟩
  · intro rounds hrounds
    rw [processTasks, processRound_eq, hloop rounds hrounds, ← hpolls]
  · rw [hdue]
    exact horder.filter _
  · exact (hleft.trans hkept).trans ((horder.filter _).append_right _)

end TokioKcp
