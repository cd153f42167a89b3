import TokioKcp.Lib.Simulation
import TokioKcp.Listener.Lifecycle
import TokioKcp.Scheduler

namespace TokioKcp
set_option autoImplicit true

open Checked Fec Transition

variable {κ : Type}

/-- A shard with its thread, which sleeps or makes a pass. A pass has its index and its clock
reading. -/
structure ShardThread where
  queue : List ShardCommand
  tasks : List ScheduledTask
  pass : Option (Nat × Nat)

structure FixedTickScheduler where
  shards : List ShardThread
  nextShard : Nat

def FixedTickScheduler.new (parallel : Nat) : FixedTickScheduler where
  shards := List.replicate (max parallel 1) ⟨[], [], none⟩
  nextShard := 0

/-- `available` is the parallelism of the machine, if that is known. -/
def defaultSchedulerParallel (available : Option Nat) : Nat := max 2 (min (available.getD 1) 4)

def ShardThread.send (self : ShardThread) (command : ShardCommand) : ShardThread :=
  { self with queue := self.queue ++ [command] }

/-- The counter wraps, and the shards take turns. -/
def FixedTickScheduler.put (self : FixedTickScheduler) (task : ScheduledTask) :
    Exec FixedTickScheduler := do
  let idx ← rem self.nextShard self.shards.length
  return {
    shards := self.shards.modify idx fun shard => shard.send (.put task)
    nextShard := (self.nextShard + 1) % 2 ^ 64 }

/-- What a poll of a session does to the system that it is in. -/
def pollSystem (K : KcpCrate κ) : SessionPoll (System κ) := fun system id nowMs =>
  match system.arena[id]? with
  | none => (system, none, none)
  | some session =>
    let (session, next, notification) := session.pollSchedulerTick K nowMs
    ({ system with
      arena := system.arena.set id session
      closeRx := system.closeRx ++ notification.toList.map fun peer => ⟨peer, id⟩ },
      next, notification)

/-- The system with the threads of the scheduler, which have all the tasks. -/
structure Threaded (κ : Type) where
  system : System κ
  scheduler : FixedTickScheduler

/-- Something happens in the system, a thread wakes up and takes what is in its channel, or it
goes through one more round of its pass. -/
inductive ThreadedEvent where
  | system (event : Event)
  | wake (shard nowMs : Nat)
  | round (shard : Nat)

def Threaded.new (parallel : Nat) : Threaded κ := ⟨.new, .new parallel⟩

def Threaded.event (K : KcpCrate κ) (rs : Nat → Nat → Except String ReedSolomon)
    (config : KcpConfig) (self : Threaded κ) (event : Event) : Exec (Option (Threaded κ)) := do
  match ← self.system.next K rs config event with
  | none => return none
  | some system =>
    let scheduler ← system.tasks.foldlM FixedTickScheduler.put self.scheduler
    return some ⟨{ system with tasks := [] }, scheduler⟩

def FixedTickScheduler.set (self : FixedTickScheduler) (i : Nat) (shard : ShardThread) :
    FixedTickScheduler :=
  { self with shards := self.shards.set i shard }

def Threaded.wake (self : Threaded κ) (i nowMs : Nat) : Option (Threaded κ) :=
  match self.scheduler.shards[i]? with
  | some ⟨queue, tasks, none⟩ =>
    let (tasks, _) := drainCommands ⟨queue, false⟩ tasks
    some { self with scheduler := self.scheduler.set i ⟨[], tasks, some (0, nowMs)⟩ }
  | _ => none

def Threaded.round (K : KcpCrate κ) (self : Threaded κ) (i : Nat) :
    Exec (Option (Threaded κ)) :=
  match self.scheduler.shards[i]? with
  | some ⟨queue, tasks, some (idx, nowMs)⟩ => do
    match ← processRound (pollSystem K) nowMs (⟨self.system, []⟩, idx, tasks) with
    | .inl (polling, idx, tasks) =>
      return some ⟨polling.world, self.scheduler.set i ⟨queue, tasks, some (idx, nowMs)⟩⟩
    | .inr (polling, tasks) =>
      return some ⟨polling.world, self.scheduler.set i ⟨queue, tasks, none⟩⟩
  | _ => .ok none

/-- The next state, or none when the event cannot happen now. Nobody but a thread polls. -/
def Threaded.next (K : KcpCrate κ) (rs : Nat → Nat → Except String ReedSolomon)
    (config : KcpConfig) (self : Threaded κ) : ThreadedEvent → Exec (Option (Threaded κ))
  | .system (.tick _ _) => .ok none
  | .system event => self.event K rs config event
  | .wake i nowMs => .ok (self.wake i nowMs)
  | .round i => self.round K i

def Threaded.Step (K : KcpCrate κ) (rs : Nat → Nat → Except String ReedSolomon)
    (config : KcpConfig) (s : Threaded κ) (event : ThreadedEvent) (t : Threaded κ) : Prop :=
  s.next K rs config event = .ok (some t)

def ShardThread.pending (self : ShardThread) : List ScheduledTask :=
  (drainCommands ⟨self.queue, false⟩ self.tasks).1

def FixedTickScheduler.pending (self : FixedTickScheduler) : List ScheduledTask :=
  self.shards.flatMap ShardThread.pending

def Event.seen : Event → List Event
  | .tick _ _ => []
  | event => [event]

def ThreadedEvent.seen : ThreadedEvent → List Event
  | .system event => event.seen
  | _ => []

/-- The threads have the tasks of the system between them. -/
structure Threaded.Refines (s : Threaded κ) (a : System κ) : Prop where
  system : a = { s.system with tasks := a.tasks }
  taskless : s.system.tasks = []
  tasks : a.tasks.Perm s.scheduler.pending
  accounted : a.Accounted
  shards : s.scheduler.shards ≠ []

/-- The system with the given tasks before its own. -/
def System.under (tasks : List ScheduledTask) (s : System κ) : System κ :=
  { s with tasks := tasks ++ s.tasks }

variable {K : KcpCrate κ} {rs : Nat → Nat → Except String ReedSolomon} {config : KcpConfig}
variable {s t : Threaded κ} {a b u : System κ} {tasks : List ScheduledTask} {event : Event}
variable {peer : SocketAddr} {i idx nowMs : Nat} {task : ScheduledTask} {shard : ShardThread}

section Under

theorem System.dropHandle_under (u : System κ) (handle : Option Nat) :
    (u.under tasks).dropHandle handle = (u.dropHandle handle).under tasks := by
  cases handle <;> rfl

theorem System.closePeer_under (u : System κ) (peer : SocketAddr) :
    (u.under tasks).closePeer peer = (u.closePeer peer).under tasks := by
  rw [System.closePeer, System.closePeer]
  change { (u.under tasks).dropHandle (u.sessions.lookup peer) with
    sessions := u.sessions.erase peer } = _
  rw [System.dropHandle_under]
  rfl

theorem System.newShared_under (u : System κ) (session : KcpSession κ) (now : Nat) :
    (u.under tasks).newShared session now = (u.newShared session now).under tasks := by
  rw [System.newShared, System.newShared, System.under, System.under, List.append_assoc]

theorem System.insert_under (u : System κ) (peer : SocketAddr) (id : Nat) :
    (u.under tasks).insert peer id = (u.insert peer id).under tasks := by
  rw [System.insert, System.insert]
  change { (u.under tasks).dropHandle (u.sessions.lookup peer) with
    sessions := u.sessions.insert peer id } = _
  rw [System.dropHandle_under]
  rfl

theorem System.create_under (u : System κ) (conv : UInt32) (peer : SocketAddr) (now : Nat) :
    (u.under tasks).create K rs config conv peer now =
      (u.create K rs config conv peer now).map fun r => (r.1.under tasks, r.2) := by
  rw [System.create, System.create]
  rcases KcpSocket.new K rs config conv config.stream now with err | (err | socket)
  · rfl
  · rfl
  · simp only [ok_bind, System.newShared_under, System.insert_under]
    rfl

theorem System.getOrCreate_under (u : System κ) (conv sn : UInt32) (peer : SocketAddr)
    (now : Nat) : (u.under tasks).getOrCreate K rs config conv sn peer now =
      (u.getOrCreate K rs config conv sn peer now).map fun r => (r.1.under tasks, r.2) := by
  have hget : (u.under tasks).get peer = u.get peer := rfl
  rw [System.getOrCreate, System.getOrCreate, hget, System.create_under]
  rcases u.create K rs config conv peer now with err | r
  · cases u.get peer with
    | none => rfl
    | some entry =>
      dsimp only
      split <;> rfl
  · cases u.get peer with
    | none => rfl
    | some entry =>
      dsimp only
      split <;> rfl

theorem System.handleDatagram_under (u : System κ) (packet : Bytes) (peer : SocketAddr)
    (draws : RandomDraws) (now : Nat) :
    (u.under tasks).handleDatagram K rs config packet peer draws now =
      (u.handleDatagram K rs config packet peer draws now).map
        fun r => (r.1.under tasks, r.2) := by
  have hget : (u.under tasks).get peer = u.get peer := rfl
  rw [System.handleDatagram, System.handleDatagram, hget]
  split
  · cases u.get peer <;> rfl
  · rcases readHeader K config packet draws with err | (_ | ⟨packet', conv, sn⟩)
    · rfl
    · rfl
    · simp only [ok_bind, System.getOrCreate_under]
      rcases u.getOrCreate K rs config conv sn peer now with
        err | ⟨v, err | ⟨⟨id, session⟩, created⟩⟩
      · rfl
      · rfl
      · cases created with
        | true =>
          have hroom : (v.under tasks).acceptRoom = v.acceptRoom := rfl
          simp only [Except.map, ok_bind, hroom]
          split
          · rfl
          · have hclosed : ((v.modify id KcpSession.close).under tasks).closePeer peer = _ :=
              System.closePeer_under _ peer
            exact congrArg (fun w => Except.ok (w, none)) hclosed
        | false =>
          simp only [Except.map, ok_bind]
          split <;> rfl

theorem System.closeAll_under (u : System κ) (ids : List Nat) :
    (u.under tasks).closeAll ids = (u.closeAll ids).under tasks := by
  induction ids generalizing u with
  | nil => rfl
  | cons id ids ih => exact ih (u.modify id KcpSession.close)

theorem System.forward_under (u : System κ) :
    (u.under tasks).forward = u.forward.map (System.under tasks) := by
  have hf : (u.under tasks).forwarding = u.forwarding := rfl
  have ha : (u.under tasks).arena = u.arena := rfl
  rw [System.forward, System.forward, hf, ha]
  rcases u.forwarding with _ | ⟨id, packet⟩
  · rfl
  · dsimp only
    cases u.arena[id]? with
    | none => rfl
    | some session =>
      dsimp only
      rcases session.input packet with (_ | session') | _ <;> rfl

theorem System.closeNotification_under (u : System κ) :
    (u.under tasks).closeNotification = u.closeNotification.map (System.under tasks) := by
  have hf : (u.under tasks).forwarding = u.forwarding := rfl
  have hc : (u.under tasks).closeRx = u.closeRx := rfl
  rw [System.closeNotification, System.closeNotification, hf, hc]
  cases u.forwarding with
  | some held => rfl
  | none =>
    cases u.closeRx with
    | nil => rfl
    | cons notification rest =>
      exact congrArg some (System.closePeer_under { u with closeRx := rest, forwarding := none }
        notification.peer)

theorem System.accept_under (u : System κ) :
    (u.under tasks).accept = u.accept.map (System.under tasks) := by
  have ha : (u.under tasks).acceptRx = u.acceptRx := rfl
  rw [System.accept, System.accept, ha]
  cases u.acceptRx <;> rfl

theorem System.stream_under (u : System κ) (id : Nat) (call : StreamCall) (now : Nat) :
    (u.under tasks).stream K id call now =
      (u.stream K id call now).map (Option.map (System.under tasks)) := by
  have ha : (u.under tasks).arena = u.arena := rfl
  have hm : (u.under tasks).streams = u.streams := rfl
  rw [System.stream, System.stream, ha, hm]
  cases u.arena[id]? with
  | none => rfl
  | some session =>
    dsimp only
    split
    · rcases session.socket.call K now call.toSocket with err | socket <;> rfl
    · rfl

theorem System.streamDrop_under (u : System κ) (id : Nat) :
    (u.under tasks).streamDrop id = (u.streamDrop id).map (System.under tasks) := by
  have hm : (u.under tasks).streams = u.streams := rfl
  rw [System.streamDrop, System.streamDrop, hm]
  split <;> rfl

theorem System.listenerDrop_under (u : System κ) :
    (u.under tasks).listenerDrop = u.listenerDrop.map (System.under tasks) := by
  have hc : (u.under tasks).acceptClosed = u.acceptClosed := rfl
  rw [System.listenerDrop, System.listenerDrop, hc]
  split
  · rfl
  · exact congrArg some (System.closeAll_under { u with acceptRx := [], acceptClosed := true }
      (u.acceptRx.map Prod.fst))

theorem System.ioTask_under (u : System κ) (id now : Nat) : (u.under tasks).ioTask K id now =
    (u.ioTask K id now).map (Option.map (System.under tasks)) := by
  have ha : (u.under tasks).arena = u.arena := rfl
  rw [System.ioTask, System.ioTask, ha]
  cases u.arena[id]? with
  | none => rfl
  | some session =>
    dsimp only
    rcases session.runIoTask K now with err | session' <;> rfl

/-- What happens in the system but for polls does not depend on the tasks. -/
theorem System.next_under (u : System κ) (he : event.seen ≠ []) :
    (u.under tasks).next K rs config event =
      (u.next K rs config event).map (Option.map (System.under tasks)) := by
  cases event with
  | datagram packet peer draws now =>
    have hf : (u.under tasks).forwarding = u.forwarding := rfl
    rw [System.next, System.next, hf]
    cases u.forwarding with
    | some held => rfl
    | none =>
      dsimp only
      rw [System.handleDatagram_under]
      rcases u.handleDatagram K rs config packet peer draws now with err | r <;> rfl
  | forward => exact congrArg Except.ok u.forward_under
  | closeNotification => exact congrArg Except.ok u.closeNotification_under
  | accept => exact congrArg Except.ok u.accept_under
  | stream id call now => exact u.stream_under id call now
  | streamDrop id => exact congrArg Except.ok (u.streamDrop_under id)
  | listenerDrop => exact congrArg Except.ok u.listenerDrop_under
  | tick task nowMs => exact absurd rfl he
  | ioTask id now => exact u.ioTask_under id now

end Under

theorem exists_flatMap_rest {α β : Type} {f : α → List β} {xs : List α} {x : α}
    (h : xs[i]? = some x) : ∃ rest, (xs.flatMap f).Perm (f x ++ rest) ∧
      ∀ y, ((xs.set i y).flatMap f).Perm (f y ++ rest) := by
  obtain ⟨hlt, rfl⟩ := List.getElem?_eq_some_iff.mp h
  refine ⟨(xs.eraseIdx i).flatMap f, ?_, fun y => ?_⟩
  · exact (List.getElem_cons_eraseIdx_perm hlt).symm.flatMap_right f
  · exact (List.set_perm_cons_eraseIdx hlt y).flatMap_right f

theorem FixedTickScheduler.set_pending {self : FixedTickScheduler}
    (h : self.shards[i]? = some shard) : ∃ rest, self.pending.Perm (shard.pending ++ rest) ∧
      ∀ next, (self.set i next).pending.Perm (next.pending ++ rest) :=
  exists_flatMap_rest h

theorem ShardThread.pending_eq (self : ShardThread) : ∃ queued,
    ∀ tasks pass, (⟨self.queue, tasks, pass⟩ : ShardThread).pending = tasks ++ queued := by
  have hfold (queue : List ShardCommand) : ∃ queued, ∀ tasks : List ScheduledTask,
      queue.foldl applyCommand tasks = tasks ++ queued := by
    induction queue with
    | nil => exact ⟨[], fun tasks => (List.append_nil tasks).symm⟩
    | cons command queue ih =>
      obtain ⟨queued, hq⟩ := ih
      obtain ⟨task⟩ := command
      refine ⟨task :: queued, fun tasks => ?_⟩
      rw [List.foldl_cons, hq, applyCommand, List.append_assoc, List.singleton_append]
  obtain ⟨queued, hq⟩ := hfold self.queue
  exact ⟨queued, fun tasks _ => hq tasks⟩

theorem ShardThread.pending_send (self : ShardThread) (task : ScheduledTask) :
    (self.send (.put task)).pending = self.pending ++ [task] := by
  change (self.queue ++ [ShardCommand.put task]).foldl applyCommand self.tasks = _
  rw [List.foldl_append]
  rfl

theorem FixedTickScheduler.put_pending {self next : FixedTickScheduler}
    (h : self.put task = .ok next) : next.pending.Perm (self.pending ++ [task]) := by
  obtain ⟨idx, hrem, h⟩ := bind_eq_ok.mp h
  cases h
  have hlt : idx < self.shards.length := by
    rw [rem] at hrem
    split at hrem
    · cases hrem
    · rename_i hpos
      cases hrem
      exact Nat.mod_lt _ (Nat.pos_of_ne_zero hpos)
  obtain ⟨rest, hpending, hset⟩ := exists_flatMap_rest (f := ShardThread.pending)
    (List.getElem?_eq_getElem hlt)
  rw [FixedTickScheduler.pending, List.modify_eq_set_getElem? , List.getElem?_eq_getElem hlt]
  have hsent := hset (self.shards[idx].send (.put task))
  rw [ShardThread.pending_send, List.append_assoc] at hsent
  have hmove : (self.shards[idx].pending ++ ([task] ++ rest)).Perm
      (self.shards[idx].pending ++ rest ++ [task]) := by
    rw [List.append_assoc]
    exact List.perm_append_comm.append_left _
  exact hsent.trans (hmove.trans (hpending.symm.append_right _))

theorem FixedTickScheduler.putAll_pending {self next : FixedTickScheduler}
    (h : tasks.foldlM FixedTickScheduler.put self = .ok next) :
    next.pending.Perm (self.pending ++ tasks) := by
  induction tasks generalizing self with
  | nil =>
    cases h
    rw [List.append_nil]
  | cons task tasks ih =>
    obtain ⟨first, hput, h⟩ := bind_eq_ok.mp h
    have hfirst := (FixedTickScheduler.put_pending hput).append_right tasks
    rw [List.append_assoc, List.singleton_append] at hfirst
    exact (ih h).trans hfirst

theorem FixedTickScheduler.put_returns {self : FixedTickScheduler} (h : self.shards ≠ [])
    (task : ScheduledTask) : ∃ next, self.put task = .ok next ∧ next.shards ≠ [] := by
  rw [FixedTickScheduler.put, rem_of_pos (List.length_pos_of_ne_nil h), ok_bind]
  refine ⟨_, rfl, ?_⟩
  apply List.ne_nil_of_length_pos
  rw [List.length_modify]
  exact List.length_pos_of_ne_nil h

theorem FixedTickScheduler.putAll_returns {self : FixedTickScheduler} (h : self.shards ≠ [])
    (tasks : List ScheduledTask) :
    ∃ next, tasks.foldlM FixedTickScheduler.put self = .ok next ∧ next.shards ≠ [] := by
  induction tasks generalizing self with
  | nil => exact ⟨self, rfl, h⟩
  | cons task tasks ih =>
    obtain ⟨first, hput, hfirst⟩ := FixedTickScheduler.put_returns h task
    rw [List.foldlM_cons, hput, ok_bind]
    exact ih hfirst

theorem FixedTickScheduler.set_shards {self : FixedTickScheduler} (h : self.shards ≠ [])
    (i : Nat) (shard : ShardThread) : (self.set i shard).shards ≠ [] := by
  apply List.ne_nil_of_length_pos
  rw [FixedTickScheduler.set, List.length_set]
  exact List.length_pos_of_ne_nil h

/-- What a poll leaves of a task. -/
def ScheduledTask.after (task : ScheduledTask) (next : Option Nat) : List ScheduledTask :=
  (next.map fun deadlineMs => { task with deadlineMs := deadlineMs }).toList

/-- A round does nothing, or polls a task that is due. -/
theorem processRound_cases {ω : Type} (poll : SessionPoll ω) (nowMs : Nat) (world : ω) (idx : Nat)
    (tasks : List ScheduledTask) :
    processRound poll nowMs (⟨world, []⟩, idx, tasks) = .ok (.inr (⟨world, []⟩, tasks)) ∨
    processRound poll nowMs (⟨world, []⟩, idx, tasks) = .ok (.inl (⟨world, []⟩, idx + 1, tasks)) ∨
    ∃ task rest polls idx' tasks', tasks.Perm (task :: rest) ∧ task.deadlineMs ≤ nowMs ∧
      tasks'.Perm (task.after (poll world task.session nowMs).2.1 ++ rest) ∧
      processRound poll nowMs (⟨world, []⟩, idx, tasks) =
        .ok (.inl (⟨(poll world task.session nowMs).1, polls⟩, idx', tasks')) := by
  rw [processRound]
  by_cases hlt : idx < tasks.length
  · rw [if_pos hlt, index_of_lt hlt, ok_bind]
    right
    by_cases hdue : tasks[idx].deadlineMs > nowMs
    · rw [if_pos hdue]
      exact .inl rfl
    · right
      have hpolled := List.getElem_cons_eraseIdx_perm hlt
      rw [if_neg hdue]
      rcases hp : poll world tasks[idx].session nowMs with ⟨world', next, notification⟩
      refine ⟨tasks[idx], tasks.eraseIdx idx, [⟨tasks[idx], next, notification⟩], ?_⟩
      rw [Polling.pollSchedulerTick, hp]
      cases next with
      | some deadlineMs =>
        refine ⟨idx + 1, tasks.set idx { tasks[idx] with deadlineMs := deadlineMs }, hpolled.symm,
          Nat.le_of_not_lt hdue, ?_, rfl⟩
        exact List.set_perm_cons_eraseIdx hlt _
      | none =>
        have hsplit : tasks.take idx ++ tasks[idx] :: tasks.drop (idx + 1) = tasks := by
          rw [← List.drop_eq_getElem_cons hlt, List.take_append_drop]
        have hlen : (tasks.take idx).length = idx := List.length_take_of_le (Nat.le_of_lt hlt)
        obtain ⟨moved, hswap, hmoved⟩ :=
          swapRemove_append (tasks.take idx) tasks[idx] (tasks.drop (idx + 1))
        rw [hsplit, hlen] at hswap
        refine ⟨idx, tasks.take idx ++ moved, hpolled.symm, Nat.le_of_not_lt hdue, ?_, ?_⟩
        · rw [List.eraseIdx_eq_take_drop_succ]
          exact hmoved.append_left _
        · dsimp only
          rw [hswap]
          rfl
  · rw [if_neg hlt]
    exact .inl rfl

theorem System.tick_polls (rs : Nat → Nat → Except String ReedSolomon) (config : KcpConfig)
    (hm : task ∈ tasks) (hdue : task.deadlineMs ≤ nowMs)
    (hs : task.session < u.arena.length) :
    ∃ p rest tasks', tasks.Perm (task :: rest) ∧
      tasks'.Perm (task.after (pollSystem K u task.session nowMs).2.1 ++ rest) ∧
      System.Step K rs config { u with tasks := tasks } (.tick p nowMs)
        { (pollSystem K u task.session nowMs).1 with tasks := tasks' } := by
  obtain ⟨p, hp⟩ := List.getElem?_of_mem hm
  obtain ⟨hlt, htask⟩ := List.getElem?_eq_some_iff.mp hp
  have hsession := List.getElem?_eq_getElem hs
  have hperm := List.getElem_cons_eraseIdx_perm hlt
  rw [htask] at hperm
  rcases hpoll : u.arena[task.session].pollSchedulerTick K nowMs with
    ⟨session, next, notification⟩
  have hnote := KcpSession.pollSchedulerTick_notification hpoll
  have hpolled : pollSystem K u task.session nowMs = ({ u with
      arena := u.arena.set task.session session
      closeRx := u.closeRx ++ notification.toList.map fun peer => ⟨peer, task.session⟩ },
      next, notification) := by
    simp only [pollSystem, hsession, hpoll]
  rw [hpolled]
  cases next with
  | some deadlineMs =>
    have hquiet : notification = none := hnote
    refine ⟨p, tasks.eraseIdx p, tasks.set p ⟨task.session, deadlineMs⟩, hperm.symm,
      List.set_perm_cons_eraseIdx hlt _, ?_⟩
    rw [System.Step, System.next, System.tick]
    simp only [hp, hsession, hpoll]
    rw [if_neg (Nat.not_lt_of_le hdue), hquiet, Option.toList_none, List.map_nil, List.append_nil]
  | none =>
    refine ⟨p, tasks.eraseIdx p, tasks.eraseIdx p, hperm.symm, .refl _, ?_⟩
    rw [System.Step, System.next, System.tick]
    simp only [hp, hsession, hpoll]
    rw [if_neg (Nat.not_lt_of_le hdue)]

theorem Threaded.Refines.happens (hW : K.wire.Laws) (h : s.Refines a) (he : event.seen ≠ [])
    (hstep : s.event K rs config event = .ok (some t)) :
    ∃ b, a.Step K rs config event b ∧ t.Refines b := by
  obtain ⟨out, hnext, hstep⟩ := bind_eq_ok.mp hstep
  cases out with
  | none => cases hstep
  | some system =>
    obtain ⟨scheduler, hput, hstep⟩ := bind_eq_ok.mp hstep
    cases hstep
    have hunder : a = s.system.under a.tasks := by
      rw [System.under, h.taskless, List.append_nil]
      exact h.system
    have hb : a.Step K rs config event (system.under a.tasks) := by
      rw [System.Step]
      conv => lhs; rw [hunder]
      rw [System.next_under _ he, hnext]
      rfl
    obtain ⟨next, hput', hshards⟩ := FixedTickScheduler.putAll_returns h.shards system.tasks
    rw [hput] at hput'
    cases hput'
    have hall := FixedTickScheduler.putAll_pending hput
    exact ⟨_, hb, rfl, rfl, (h.tasks.append_right system.tasks).trans hall.symm,
      (System.Step.effect hW hb).accounted h.accounted, hshards⟩

theorem Threaded.Refines.wake (h : s.Refines a) (hstep : s.wake i nowMs = some t) :
    t.Refines a := by
  rw [Threaded.wake] at hstep
  split at hstep
  · rename_i queue tasks hshard
    cases hstep
    refine ⟨h.system, h.taskless, h.tasks.trans ?_, h.accounted,
      FixedTickScheduler.set_shards h.shards _ _⟩
    obtain ⟨rest, hpending, hset⟩ := FixedTickScheduler.set_pending hshard
    exact hpending.trans (hset ⟨[], _, some (0, nowMs)⟩).symm
  · cases hstep

theorem Threaded.Refines.lt (h : s.Refines a) (hm : task ∈ s.scheduler.pending) :
    task.session < s.system.arena.length := by
  have harena : a.arena = s.system.arena := by rw [h.system]
  rw [← harena]
  exact h.accounted.tasks _ (List.mem_map_of_mem (h.tasks.mem_iff.mpr hm))

theorem Threaded.Refines.round (hW : K.wire.Laws) (h : s.Refines a)
    (hstep : s.round K i = .ok (some t)) :
    t.Refines a ∨ ∃ p nowMs b, a.Step K rs config (.tick p nowMs) b ∧ t.Refines b := by
  rw [Threaded.round] at hstep
  split at hstep
  · rename_i queue tasks idx nowMs hshard
    obtain ⟨rest, hpending, hset⟩ := FixedTickScheduler.set_pending hshard
    obtain ⟨queued, hq⟩ := ShardThread.pending_eq ⟨queue, tasks, some (idx, nowMs)⟩
    have hkept (pass : Option (Nat × Nat)) :
        s.scheduler.pending.Perm (s.scheduler.set i ⟨queue, tasks, pass⟩).pending := by
      have hsame := hset ⟨queue, tasks, pass⟩
      rw [hq] at hpending hsame
      exact hpending.trans hsame.symm
    rcases processRound_cases (pollSystem K) nowMs s.system idx tasks with
      hround | hround | ⟨task, others, polls, idx', tasks', hperm, hdue, hleft, hround⟩
    · rw [hround] at hstep
      cases hstep
      exact .inl ⟨h.system, h.taskless, h.tasks.trans (hkept _), h.accounted,
        FixedTickScheduler.set_shards h.shards _ _⟩
    · rw [hround] at hstep
      cases hstep
      exact .inl ⟨h.system, h.taskless, h.tasks.trans (hkept _), h.accounted,
        FixedTickScheduler.set_shards h.shards _ _⟩
    · rw [hround] at hstep
      cases hstep
      right
      rw [hq] at hpending
      have hbefore : s.scheduler.pending.Perm (task :: (others ++ queued ++ rest)) :=
        hpending.trans ((hperm.append_right queued).append_right rest)
      have hmem : task ∈ s.scheduler.pending := hbefore.mem_iff.mpr List.mem_cons_self
      obtain ⟨p, remaining, tasks'', hsplit, hafter, htick⟩ :=
        System.tick_polls (K := K) rs config (h.tasks.mem_iff.mpr hmem) hdue (h.lt hmem)
      rw [← h.system] at htick
      have hsame : remaining.Perm (others ++ queued ++ rest) :=
        (hsplit.symm.trans (h.tasks.trans hbefore)).cons_inv
      have htasks : (pollSystem K s.system task.session nowMs).1.tasks = [] := by
        rw [pollSystem]
        split
        · exact h.taskless
        · exact h.taskless
      refine ⟨p, nowMs, _, htick, rfl, htasks, ?_,
        (System.Step.effect hW htick).accounted h.accounted,
        FixedTickScheduler.set_shards h.shards _ _⟩
      have hnow := hset ⟨queue, tasks', some (idx', nowMs)⟩
      rw [hq] at hnow
      have hthread := (hleft.append_right queued).append_right rest
      have hassoc (xs : List ScheduledTask) :
          xs ++ others ++ queued ++ rest = xs ++ (others ++ queued ++ rest) := by
        rw [List.append_assoc xs, List.append_assoc xs]
      rw [hassoc] at hthread
      exact (hafter.trans (hsame.append_left _)).trans (hnow.trans hthread).symm
  · cases hstep

theorem Threaded.new_refines (parallel : Nat) :
    (Threaded.new parallel : Threaded κ).Refines .new where
  system := rfl
  taskless := rfl
  tasks := by
    have hnone : (FixedTickScheduler.new parallel).pending = [] :=
      List.flatMap_eq_nil_iff.mpr fun shard hm => by
        rw [List.eq_of_mem_replicate hm]
        rfl
    exact hnone ▸ .refl []
  accounted := System.new_accounted
  shards := by
    apply List.ne_nil_of_length_pos
    change 0 < (List.replicate (max parallel 1) _).length
    rw [List.length_replicate]
    exact Nat.lt_of_lt_of_le Nat.one_pos (Nat.le_max_right _ _)

/-- A step with the threads is a step of the system, or one that nothing is seen of. -/
theorem Threaded.Refines.step {event : ThreadedEvent} (hW : K.wire.Laws) (h : s.Refines a)
    (hstep : s.Step K rs config event t) : ∃ trace b, Run (System.Step K rs config) a trace b ∧
      t.Refines b ∧ trace.flatMap (fun x => x.2.seen) = event.seen := by
  cases event with
  | system event =>
    by_cases htick : event.seen = []
    · cases event with
      | tick task nowMs => cases hstep
      | _ => cases htick
    · have hstep : s.event K rs config event = .ok (some t) := by
        cases event with
        | tick task nowMs => exact absurd rfl htick
        | _ => exact hstep
      obtain ⟨b, hb, ht⟩ := h.happens hW htick hstep
      exact ⟨_, b, .cons hb .nil, ht, List.append_nil _⟩
  | wake i nowMs => exact ⟨[], a, .nil, h.wake (Except.ok.inj hstep), rfl⟩
  | round i =>
    rcases h.round hW hstep with ht | ⟨p, nowMs, b, hb, ht⟩
    · exact ⟨[], a, .nil, ht, rfl⟩
    · exact ⟨_, b, .cons hb .nil, ht, rfl⟩

/-- The system with the threads of the scheduler, however these interleave with one another and
with all else, is the system in which any task that is due can be polled at any time: what it
reaches, that system reaches, by the same events other than polls. The threads have the tasks
between them, one for each session that is not finalized, and do not panic. -/
theorem threads_refine {parallel : Nat} {trace : List (Threaded κ × ThreadedEvent)}
    (hW : K.wire.Laws) (hrun : Run (Threaded.Step K rs config) (.new parallel) trace s) :
    (∃ trace' a, Run (System.Step K rs config) .new trace' a ∧
      a = { s.system with tasks := a.tasks } ∧ a.tasks.Perm s.scheduler.pending ∧
      trace'.flatMap (fun x => x.2.seen) = trace.flatMap fun x => x.2.seen) ∧
    (s.scheduler.pending.map ScheduledTask.session).Nodup ∧
    (∀ (id : Nat) session, s.system.arena[id]? = some session →
      (id ∉ s.scheduler.pending.map ScheduledTask.session ↔ session.Finalized)) ∧
    (∀ event out, s.system.next K rs config event = .ok out →
      ∃ r, s.event K rs config event = .ok r) ∧
    ∀ i, ∃ r, s.round K i = .ok r := by
  obtain ⟨trace', a, ha, hs, hseen⟩ :=
    hrun.simulated (R := Threaded.Refines) (fun x => ThreadedEvent.seen x.2)
      (fun x => Event.seen x.2) (fun _ _ _ _ h hstep => h.step hW hstep)
      (Threaded.new_refines parallel)
  have hattended := System.run_attended hW System.new_attended ha
  have hsessions := hs.tasks.map ScheduledTask.session
  refine ⟨⟨trace', a, ha, hs.system, hs.tasks, hseen⟩, ?_, ?_, ?_, ?_⟩
  · exact hsessions.nodup_iff.mp hattended.placed.nodup
  · intro id session hget
    have harena : a.arena = s.system.arena := by rw [hs.system]
    rw [← harena] at hget
    rw [← hsessions.mem_iff]
    exact (hattended.life (System.run_descends hW ha) hget).1
  · intro event out hnext
    rw [Threaded.event, hnext, ok_bind]
    cases out with
    | none => exact ⟨_, rfl⟩
    | some system =>
      obtain ⟨scheduler, hput, _⟩ := FixedTickScheduler.putAll_returns hs.shards system.tasks
      dsimp only
      rw [hput]
      exact ⟨_, rfl⟩
  · intro i
    rw [Threaded.round]
    split
    · rename_i queue tasks idx nowMs hshard
      rcases processRound_cases (pollSystem K) nowMs s.system idx tasks with
        hround | hround | ⟨_, _, _, _, _, _, _, _, hround⟩
      · rw [hround]
        exact ⟨_, rfl⟩
      · rw [hround]
        exact ⟨_, rfl⟩
      · rw [hround]
        exact ⟨_, rfl⟩
    · exact ⟨_, rfl⟩

/-- Two sessions, one a thread. The stream of the first is dropped in the middle of a pass, and
the next pass finalizes the session. -/
theorem threads_refine_small : ∃ trace s,
    trace.flatMap (fun x => x.2.seen) = [
      .datagram (segment 7 81 0 [65]) ⟨[10, 0, 0, 1], 4000⟩ ⟨[9], rfl⟩ 0, .forward,
      .datagram (segment 8 81 0 [65]) ⟨[10, 0, 0, 2], 4000⟩ ⟨[9], rfl⟩ 0, .accept,
      .streamDrop 0] ∧
    Run (Threaded.Step smallKcp reedSolomon {}) (.new (defaultSchedulerParallel none)) trace s ∧
    s.scheduler.shards.map (fun shard => shard.pending.map ScheduledTask.session) = [[], [1]] ∧
    (∃ trace' a, Run (System.Step smallKcp reedSolomon {}) .new trace' a ∧
      a = { s.system with tasks := a.tasks } ∧ a.tasks.Perm s.scheduler.pending ∧
      trace'.flatMap (fun x => x.2.seen) = trace.flatMap fun x => x.2.seen) ∧
    ∀ (id : Nat) session, s.system.arena[id]? = some session →
      (id ∉ s.scheduler.pending.map ScheduledTask.session ↔ session.Finalized) := by
  have hreplay : ∃ trace s,
      replay (fun s event => (Threaded.next smallKcp reedSolomon {} s event).toOption.join)
        (.new (defaultSchedulerParallel none))
        [.system (.datagram (segment 7 81 0 [65]) ⟨[10, 0, 0, 1], 4000⟩ ⟨[9], rfl⟩ 0),
          .system .forward, .wake 0 10,
          .system (.datagram (segment 8 81 0 [65]) ⟨[10, 0, 0, 2], 4000⟩ ⟨[9], rfl⟩ 0),
          .round 0, .system .accept, .round 0, .system (.streamDrop 0), .wake 0 60, .round 0,
          .round 0] = some (trace, s) ∧
      trace.flatMap (fun x => x.2.seen) = [
        .datagram (segment 7 81 0 [65]) ⟨[10, 0, 0, 1], 4000⟩ ⟨[9], rfl⟩ 0, .forward,
        .datagram (segment 8 81 0 [65]) ⟨[10, 0, 0, 2], 4000⟩ ⟨[9], rfl⟩ 0, .accept,
        .streamDrop 0] ∧
      s.scheduler.shards.map (fun shard => shard.pending.map ScheduledTask.session) =
        [[], [1]] := ⟨_, _, rfl, rfl, rfl⟩
  obtain ⟨trace, s, hr, hseen, hpending⟩ := hreplay
  have hrun : Run (Threaded.Step smallKcp reedSolomon {}) (.new (defaultSchedulerParallel none))
      trace s := by
    apply run_of_replay _ hr
    intro s event t ht
    exact eq_ok_of_toOption (Option.join_eq_some_iff.mp ht)
  obtain ⟨hrefines, _, hfinal, _⟩ := threads_refine smallWire_laws hrun
  exact ⟨trace, s, hseen, hrun, hpending, hrefines, hfinal⟩

end TokioKcp
