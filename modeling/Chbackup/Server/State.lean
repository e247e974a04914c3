import Chbackup.Locks.Acquire

/-!
# Operations of the server

`ActionLog` (`src/server/actions.rs`), the operation registry of `AppState` with `try_start_op`,
`queue_start_op`, `finish_op`, `fail_op` and `kill_op`, and the tasks that call them
(`src/server/state.rs`, `src/server/routes.rs`).  The log and the registry are guarded by two
mutexes; a critical section is one call.  Dropping a future between two sections is a thread that
takes no further step.

An operation takes a PID lock (`src/lock.rs`) before its body.  Taking it is one call here, which is
refused while a live lock is in the way, that of another task of the server or of another process.
-/

namespace Chbackup

open CallTree Prog

/-! ## The action log -/

/-- `ActionStatus`. -/
inductive ActionStatus where
  | running
  | completed
  | failed (error : Str)
  | killed
  deriving DecidableEq

/-- `ActionEntry`. -/
structure ActionEntry where
  id : Nat
  command : Str
  start : Nat
  finish : Option Nat
  status : ActionStatus
  deriving DecidableEq

/-- `ActionLog`: a ring buffer of recent actions. -/
structure ActionLog where
  entries : List ActionEntry
  capacity : Nat
  nextId : Nat

namespace ActionLog

/-- `ActionLog::start`. -/
def start (log : ActionLog) (command : Str) (now : Nat) : ActionLog :=
  let kept := if log.capacity ≤ log.entries.length then log.entries.drop 1 else log.entries
  ⟨kept ++ [⟨log.nextId, command, now, none, .running⟩], log.capacity, log.nextId + 1⟩

/-- Rewrite the entry of an action. -/
def update (log : ActionLog) (id : Nat) (f : ActionEntry → ActionEntry) : ActionLog :=
  { log with entries := log.entries.map fun e => if e.id = id then f e else e }

/-- Close an entry, unless it was killed. -/
def close (log : ActionLog) (id : Nat) (status : ActionStatus) (now : Nat) : ActionLog :=
  log.update id fun e =>
    if e.status = .killed then e else { e with finish := some now, status := status }

/-- `ActionLog::finish`. -/
def finish (log : ActionLog) (id now : Nat) : ActionLog := log.close id .completed now

/-- `ActionLog::fail`. -/
def fail (log : ActionLog) (id : Nat) (error : Str) (now : Nat) : ActionLog :=
  log.close id (.failed error) now

/-- `ActionLog::kill`, which does not look at the status. -/
def kill (log : ActionLog) (id now : Nat) : ActionLog :=
  log.update id fun e => { e with finish := some now, status := .killed }

end ActionLog

/-! ## The registry -/

/-- `RunningOp`: an operation that runs or waits for its permit. -/
structure RunningOp where
  id : Nat
  command : Str
  backupName : Option Str
  hasPermit : Bool
  deriving DecidableEq

/-- Whether an operation asks for its permit or waits for it. -/
inductive StartKind where
  | try
  | queue
  deriving DecidableEq

/-- What happened to operations. -/
inductive OpEvent where
  /-- Logged by a task. -/
  | started (task : Nat) (kind : StartKind) (id : Nat) (command : Str)
  /-- Its block runs, and is about to take its PID lock. -/
  | dispatched (id : Nat)
  /-- Its body has begun. -/
  | begun (id : Nat)
  | finished (id : Nat)
  | failed (id : Nat) (error : Str)
  /-- Taken out of the registry by `kill_op`. -/
  | killed (id : Nat)
  deriving DecidableEq

/-- The shared state of the server. -/
structure AppState where
  log : ActionLog
  /-- `running_ops`. -/
  ops : List RunningOp
  /-- The free permits; `none` stands for as many as are asked for. -/
  permits : Option Nat
  /-- The operations whose token is cancelled. -/
  cancelled : List Nat
  /-- The tasks that wait for a permit, each with its operation. -/
  waiting : List (Nat × Nat)
  /-- The operations whose body, or a task spawned by it, is running. -/
  active : List (Nat × Option Str)
  /-- The PID locks that operations of the server hold. -/
  locks : List (Nat × LockScope)
  /-- The live locks of other processes. -/
  others : List LockScope
  now : Nat
  /-- Everything that happened, oldest first. -/
  history : List OpEvent

/-- `semaphore_permits`. -/
def semaphorePermits (allowParallel : Bool) : Option Nat := if allowParallel then none else some 1

/-- `AppState::new`. -/
def AppState.new (allowParallel : Bool) : AppState :=
  ⟨⟨[], 100, 1⟩, [], semaphorePermits allowParallel, [], [], [], [], [], 0, []⟩

/-! ## Critical sections -/

/-- How the second section of `queue_start_op` ends. -/
inductive StoreReply where
  | stored
  | killed
  | conflict
  deriving DecidableEq

/-- A critical section, an operation on the semaphore or a token, or a part of the body of an
operation. -/
inductive ServerCall where
  | tryAcquire
  /-- `log.start`.  The caller goes on with the kind and the backup name. -/
  | logStart (kind : StartKind) (command : Str) (backupName : Option Str)
  | logFinish (id : Nat)
  | logFail (id : Nat) (error : Str)
  | logKill (ids : List Nat)
  /-- Check for a conflict and insert, with a permit. -/
  | insertOp (id : Nat) (command : Str) (backupName : Option Str)
  /-- Insert without a permit. -/
  | insertQueued (id : Nat) (command : Str) (backupName : Option Str)
  /-- Wait for a permit or for the token; `cancelFirst` if both are there. -/
  | acquire (id : Nat) (cancelFirst : Bool)
  /-- Check and store the permit. -/
  | storePermit (id : Nat) (backupName : Option Str)
  | removeOp (id : Nat)
  | dropPermits (n : Nat)
  | takeOps (target : Option Nat)
  | cancelTokens (ids : List Nat)
  /-- Take the PID lock of an operation. -/
  | acquireScoped (id : Nat) (scope : LockScope)
  /-- Drop it. -/
  | dropLock (id : Nat)
  | beginBody (id : Nat) (backupName : Option Str)
  /-- The body ends, or the task sees the token; `heeds` if both. -/
  | awaitBody (id : Nat) (heeds : Bool)
  /-- The task may see the token here. -/
  | poll (id : Nat) (heeds : Bool)

/-- What a section tells its caller. -/
def ServerCall.Reply : ServerCall → Type
  | tryAcquire => Bool
  | logStart _ _ _ => Nat
  | logFinish _ => Unit
  | logFail _ _ => Unit
  | logKill _ => Unit
  | insertOp _ _ _ => Bool
  | insertQueued _ _ _ => Unit
  | acquire _ _ => Bool
  | storePermit _ _ => StoreReply
  | removeOp _ => Unit
  | dropPermits _ => Unit
  | takeOps _ => List RunningOp
  | cancelTokens _ => Unit
  | acquireScoped _ _ => Bool
  | dropLock _ => Unit
  | beginBody _ _ => Unit
  | awaitBody _ _ => Bool
  | poll _ _ => Bool

/-- A section with its reply. -/
abbrev ServerEvent : Type := Event ServerCall ServerCall.Reply

/-- A task of the server. -/
abbrev ServerProg (α : Type) : Type := Prog ServerCall ServerCall.Reply Str α

namespace AppState

/-- Another operation with the same backup name. -/
def hasConflict (ops : List RunningOp) (id : Nat) (backupName : Option Str) : Bool :=
  backupName.isSome && ops.any fun op => op.id ≠ id && op.backupName = backupName

/-- Give permits back. -/
def release (s : AppState) (n : Nat) : AppState := { s with permits := s.permits.map (· + n) }

/-- Take a permit. -/
def takePermit (s : AppState) : AppState := { s with permits := s.permits.map (· - 1) }

/-- The operations left without one of them, whose permit is given back. -/
def remove (s : AppState) (id : Nat) : AppState :=
  let gone := s.ops.filter fun op => op.id = id
  let s := { s with ops := s.ops.filter fun op => op.id ≠ id }
  s.release (gone.countP RunningOp.hasPermit)

/-- A live lock is in the way of another one. -/
def lockedOut (s : AppState) (scope : LockScope) : Bool :=
  (s.locks.any fun x => x.2.blocks scope) || s.others.any fun held => held.blocks scope

/-- What a section does, by the number of the task that enters it. -/
def serve (i : Nat) : (c : ServerCall) → AppState → c.Reply × AppState
  | .tryAcquire, s => if s.permits = some 0 then (false, s) else (true, s.takePermit)
  | .logStart kind command _, s =>
    let history := s.history ++ [.started i kind s.log.nextId command]
    (s.log.nextId, { s with log := s.log.start command s.now, history := history })
  | .logFinish id, s =>
    ((), { s with log := s.log.finish id s.now, history := s.history ++ [.finished id] })
  | .logFail id error, s =>
    ((), { s with log := s.log.fail id error s.now, history := s.history ++ [.failed id error] })
  | .logKill ids, s =>
    ((), { s with log := ids.foldl (fun log id => log.kill id s.now) s.log })
  | .insertOp id command backupName, s =>
    let conflict := backupName.isSome && s.ops.any fun op => op.backupName = backupName
    if conflict then (true, s)
    else (false, { s with ops := s.ops ++ [⟨id, command, backupName, true⟩] })
  | .insertQueued id command backupName, s =>
    let ops := s.ops ++ [⟨id, command, backupName, false⟩]
    ((), { s with ops := ops, waiting := s.waiting ++ [(i, id)] })
  | .acquire id cancelFirst, s =>
    let s := { s with waiting := s.waiting.filter fun w => w.1 ≠ i }
    if id ∈ s.cancelled ∧ (cancelFirst = true ∨ s.permits = some 0) then (false, s)
    else (true, s.takePermit)
  | .storePermit id backupName, s =>
    if !s.ops.any fun op => op.id = id then (.killed, s)
    else if id ∈ s.cancelled then (.killed, { s with ops := s.ops.filter fun op => op.id ≠ id })
    else if hasConflict s.ops id backupName then
      (.conflict, { s with ops := s.ops.filter fun op => op.id ≠ id })
    else
      let ops := s.ops.map fun op => if op.id = id then { op with hasPermit := true } else op
      (.stored, { s with ops := ops })
  | .removeOp id, s => ((), s.remove id)
  | .dropPermits n, s => ((), s.release n)
  | .takeOps target, s =>
    let hit := fun op : RunningOp => target.all fun id => op.id = id
    let taken := s.ops.filter hit
    let history := s.history ++ taken.map fun op => .killed op.id
    (taken, { s with ops := s.ops.filter fun op => !hit op, history := history })
  | .cancelTokens ids, s => ((), { s with cancelled := s.cancelled ++ ids })
  | .acquireScoped id scope, s =>
    let s := { s with history := s.history ++ [.dispatched id] }
    if s.lockedOut scope then (false, s) else (true, { s with locks := s.locks ++ [(id, scope)] })
  | .dropLock id, s => ((), { s with locks := s.locks.filter fun x => x.1 ≠ id })
  | .beginBody id backupName, s =>
    let active := s.active ++ [(id, backupName)]
    ((), { s with active := active, history := s.history ++ [.begun id] })
  | .awaitBody id heeds, s =>
    if id ∈ s.cancelled ∧ heeds = true then (true, s)
    else (false, { s with active := s.active.filter fun b => b.1 ≠ id })
  | .poll id heeds, s => (decide (id ∈ s.cancelled) && heeds, s)

end AppState

/-! ## The functions of `AppState` -/

/-- `AppState::try_start_op`.  The permit is dropped when the function returns. -/
def tryStartOp (command : Str) (backupName : Option Str) : ServerProg Nat :=
  (perform .tryAcquire).bind fun (permit : Bool) =>
    if permit then
      (perform (.logStart .try command backupName)).bind fun (id : Nat) =>
        (perform (.insertOp id command backupName)).bind fun (conflict : Bool) =>
          if conflict then
            (perform (.logFail id "operation already in progress for this backup")).bind fun _ =>
              (perform (.dropPermits 1)).bind fun _ =>
                .fail "operation already in progress for this backup"
          else .ret id
    else .fail "operation already in progress"

/-- `AppState::queue_start_op`.  The semaphore is never closed. -/
def queueStartOp (command : Str) (backupName : Option Str) (cancelFirst : Bool) : ServerProg Nat :=
  (perform (.logStart .queue command backupName)).bind fun (id : Nat) =>
    (perform (.insertQueued id command backupName)).bind fun _ =>
      (perform (.acquire id cancelFirst)).bind fun (permit : Bool) =>
        if permit then
          (perform (.storePermit id backupName)).bind fun (reply : StoreReply) =>
            match reply with
            | .stored => .ret id
            | .killed =>
              (perform (.dropPermits 1)).bind fun _ => .fail "killed while queued"
            | .conflict =>
              (perform (.logFail id "operation already in progress for this backup")).bind fun _ =>
                (perform (.dropPermits 1)).bind fun _ =>
                  .fail "operation already in progress for this backup"
        else (perform (.removeOp id)).bind fun _ => .fail "killed while queued"

/-- `AppState::finish_op`.  Its caller is dropped at the second lock if it sees the token there. -/
def finishOp (id : Nat) (heeds : Bool) : ServerProg Unit :=
  (perform (.logFinish id)).bind fun _ =>
    (perform (.poll id heeds)).bind fun (dropped : Bool) =>
      if dropped then .ret () else (perform (.removeOp id)).bind fun _ => .ret ()

/-- `AppState::fail_op`. -/
def failOp (id : Nat) (error : Str) (heeds : Bool) : ServerProg Unit :=
  (perform (.logFail id error)).bind fun _ =>
    (perform (.poll id heeds)).bind fun (dropped : Bool) =>
      if dropped then .ret () else (perform (.removeOp id)).bind fun _ => .ret ()

/-- `AppState::kill_op`.  The operations, with their permits, are dropped when it returns. -/
def killOp (target : Option Nat) : ServerProg Bool :=
  (perform (.takeOps target)).bind fun (killedOps : List RunningOp) =>
    if killedOps = [] then .ret false
    else
      (perform (.cancelTokens (killedOps.map RunningOp.id))).bind fun _ =>
        (perform (.logKill (killedOps.map RunningOp.id))).bind fun _ =>
          (perform (.dropPermits (killedOps.countP RunningOp.hasPermit))).bind fun _ => .ret true

/-! ## Tasks -/

/-- What will happen to the body of an operation: its outcome, the text of the error if its PID lock is
refused, which names the holder, and whether a cancelled token is seen before the lock, when the body
ends, and between the two sections that end the operation. -/
structure BodyChoice where
  outcome : Except Str Unit
  lockError : Str
  heedsFirst : Bool
  heeds : Bool
  heedsLast : Bool

/-- The body of an operation, and what follows it. -/
def runBody (id : Nat) (backupName : Option Str) (body : BodyChoice) : ServerProg Unit :=
  (perform (.beginBody id backupName)).bind fun _ =>
    (perform (.awaitBody id body.heeds)).bind fun (killed : Bool) =>
      if killed then .ret ()
      else
        match body.outcome with
        | .ok _ => finishOp id body.heedsLast
        | .error e => failOp id e body.heedsLast

/-- The task of a started operation: a `select!` of the token and of a block, which takes the PID lock
first.  The lock is dropped with the block. -/
def operate (id : Nat) (backupName : Option Str) (scope : LockScope) (body : BodyChoice) :
    ServerProg Unit :=
  (perform (.poll id body.heedsFirst)).bind fun (dropped : Bool) =>
    if dropped then .ret ()
    else
      (perform (.acquireScoped id scope)).bind fun (locked : Bool) =>
        (if locked then runBody id backupName body else failOp id body.lockError body.heedsLast).bind
          fun _ => (perform (.dropLock id)).bind fun _ => .ret ()

/-- `run_operation`, and one task of `auto_resume`. -/
def runOperation (command : Str) (backupName : Option Str) (body : BodyChoice) : ServerProg Unit :=
  (tryStartOp command backupName).attempt.bind fun (started : Except Str Nat) =>
    match started with
    | .ok id => operate id backupName (lockForCommand command backupName) body
    | .error _ => .ret ()

/-- A command of a batch: its text, its first word, and the name that its lock is for, which is made up if
the command has none. -/
structure QueuedCommand where
  command : Str
  op : Str
  backupName : Str
  conflictBackupName : Option Str
  cancelFirst : Bool
  body : BodyChoice

/-- One command in the loop of `go_post_actions`. -/
def runQueued (c : QueuedCommand) : ServerProg Unit :=
  (queueStartOp c.command c.conflictBackupName c.cancelFirst).attempt.bind
    fun (started : Except Str Nat) =>
      match started with
      | .ok id => operate id c.conflictBackupName (lockForCommand c.op (some c.backupName)) c.body
      | .error _ => .ret ()

/-- What a client of the server asks for. -/
inductive Request where
  | operation (command : Str) (backupName : Option Str) (body : BodyChoice)
  | batch (commands : List QueuedCommand)
  | kill (target : Option Nat)

/-- The task that serves a request. -/
def Request.task : Request → ServerProg Unit
  | operation command backupName body => runOperation command backupName body
  | batch commands => (forEach commands runQueued).bind fun _ => .ret ()
  | kill target => (killOp target).bind fun _ => .ret ()

end Chbackup
