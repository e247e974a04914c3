import Chbackup.Server.State

/-!
# Where a task of the server is

A task is followed by its stage: what it has learnt from the sections it went through.  The stage
says which section comes next, so an invariant of the server can speak of stages and need not look
at programs.
-/

namespace Chbackup

open CallTree Prog

/-- The stage of a task. -/
inductive Stage where
  | idle
  /-- `try_start_op` has its permit. -/
  | permitted
  /-- The action is logged, and not yet in the registry. -/
  | begun (kind : StartKind) (id : Nat) (name : Option Str)
  /-- In the registry without a permit. -/
  | queued (id : Nat) (name : Option Str)
  /-- In the registry with a permit in hand. -/
  | granted (id : Nat) (name : Option Str)
  /-- Rejected with a permit in hand; the rejection is not yet logged. -/
  | refused (id : Nat)
  /-- Killed while it waited; not yet removed. -/
  | unlisted (id : Nat)
  /-- A permit in hand that will be given back. -/
  | spare
  | admitted (id : Nat) (name : Option Str)
  /-- The token was not seen; the PID lock is about to be taken. -/
  | entering (id : Nat) (name : Option Str)
  /-- The lock is taken; the body is about to begin. -/
  | locked (id : Nat) (name : Option Str) (scope : LockScope)
  | working (id : Nat) (name : Option Str)
  /-- The body is over, or the lock was refused. -/
  | ended (id : Nat)
  /-- The outcome is logged. -/
  | logged (id : Nat)
  /-- The token was not seen; the operation is about to be removed. -/
  | leaving (id : Nat)
  /-- The block is over, and what it held is about to be dropped. -/
  | unlocking (id : Nat)
  /-- `kill_op` has taken operations out of the registry. -/
  | taken (ops : List RunningOp)
  /-- `kill_op` has cancelled their tokens, and not yet marked them in the log. -/
  | marking (ops : List RunningOp)
  | dropping (n : Nat)
  deriving DecidableEq

namespace Stage

/-- What a task learns from a section. -/
def learn (l : Stage) : ServerEvent → Stage
  | ⟨.tryAcquire, (permit : Bool)⟩ => if permit then permitted else idle
  | ⟨.logStart kind _ name, (id : Nat)⟩ => begun kind id name
  | ⟨.insertOp id _ name, (conflict : Bool)⟩ => if conflict then refused id else admitted id name
  | ⟨.insertQueued id _ name, _⟩ => queued id name
  | ⟨.acquire id _, (permit : Bool)⟩ =>
    match permit, l with
    | true, queued _ name => granted id name
    | _, _ => unlisted id
  | ⟨.storePermit id name, (reply : StoreReply)⟩ =>
    match reply with
    | .stored => admitted id name
    | .killed => spare
    | .conflict => refused id
  | ⟨.logFail id _, _⟩ =>
    match l with
    | refused _ => spare
    | _ => logged id
  | ⟨.logFinish id, _⟩ => logged id
  | ⟨.removeOp id, _⟩ =>
    match l with
    | leaving _ => unlocking id
    | _ => idle
  | ⟨.dropPermits _, _⟩ => idle
  | ⟨.takeOps _, (ops : List RunningOp)⟩ => if ops = [] then idle else taken ops
  | ⟨.cancelTokens _, _⟩ =>
    match l with
    | taken ops => marking ops
    | _ => l
  | ⟨.logKill _, _⟩ =>
    match l with
    | marking ops => dropping (ops.countP RunningOp.hasPermit)
    | _ => l
  | ⟨.acquireScoped id scope, (free : Bool)⟩ =>
    match free, l with
    | true, entering _ name => locked id name scope
    | _, _ => ended id
  | ⟨.dropLock _, _⟩ => idle
  | ⟨.beginBody id name, _⟩ => working id name
  | ⟨.awaitBody id _, (killed : Bool)⟩ => if killed then unlocking id else ended id
  | ⟨.poll _ _, (dropped : Bool)⟩ =>
    match dropped, l with
    | false, admitted id name => entering id name
    | false, logged id => leaving id
    | true, logged id => unlocking id
    | _, _ => idle

/-- The sections that may come next. -/
def Permits : Stage → ServerCall → Prop
  | idle, c => c = .tryAcquire ∨ (∃ command name, c = .logStart .queue command name) ∨
      ∃ target, c = .takeOps target
  | permitted, c => ∃ command name, c = .logStart .try command name
  | begun .try id name, c => ∃ command, c = .insertOp id command name
  | begun .queue id name, c => ∃ command, c = .insertQueued id command name
  | queued id _, c => ∃ cancelFirst, c = .acquire id cancelFirst
  | granted id name, c => c = .storePermit id name
  | refused id, c => ∃ error, c = .logFail id error
  | unlisted id, c => c = .removeOp id
  | spare, c => c = .dropPermits 1
  | admitted id _, c => ∃ heeds, c = .poll id heeds
  | entering id _, c => ∃ scope, c = .acquireScoped id scope
  | locked id name _, c => c = .beginBody id name
  | working id _, c => ∃ heeds, c = .awaitBody id heeds
  | ended id, c => c = .logFinish id ∨ ∃ error, c = .logFail id error
  | logged id, c => ∃ heeds, c = .poll id heeds
  | leaving id, c => c = .removeOp id
  | unlocking id, c => c = .dropLock id
  | taken ops, c => c = .cancelTokens (ops.map RunningOp.id)
  | marking ops, c => c = .logKill (ops.map RunningOp.id)
  | dropping n, c => c = .dropPermits n

/-- The operation that a task has started and not finished with. -/
def own : Stage → Option Nat
  | begun _ id _ => some id
  | queued id _ => some id
  | granted id _ => some id
  | refused id => some id
  | unlisted id => some id
  | admitted id _ => some id
  | entering id _ => some id
  | locked id _ _ => some id
  | working id _ => some id
  | ended id => some id
  | logged id => some id
  | leaving id => some id
  | _ => none

/-- The operation whose PID lock the task may hold. -/
def holds : Stage → Option Nat
  | locked id _ _ => some id
  | working id _ => some id
  | ended id => some id
  | logged id => some id
  | leaving id => some id
  | unlocking id => some id
  | _ => none

/-- The operations that a kill has taken and not yet marked. -/
def unmarked : Stage → List RunningOp
  | taken ops => ops
  | marking ops => ops
  | _ => []

end Stage

/-! ## The programs follow the stages -/

section Obeys

variable {name : Option Str} {command : Str} {id : Nat}

/-- The task is between two operations. -/
def AtRest {α : Type} (l : Stage) (_ : Except Str α) : Prop := l = .idle

/-- The operation was admitted, or the task has nothing in hand. -/
def Started (name : Option Str) (l : Stage) : Except Str Nat → Prop
  | .ok id => l = .admitted id name
  | .error _ => l = .idle

theorem obeys_tryStartOp :
    Obeys Stage.learn Stage.Permits (Started name) .idle (tryStartOp command name) := by
  refine obeys_perform (Or.inl rfl) fun (permit : Bool) => ?_
  cases permit with
  | false => exact rfl
  | true =>
    refine obeys_perform ⟨command, name, rfl⟩ fun (id : Nat) => ?_
    refine obeys_perform ⟨command, rfl⟩ fun (conflict : Bool) => ?_
    cases conflict with
    | false => exact rfl
    | true => exact obeys_perform ⟨_, rfl⟩ fun _ => obeys_perform rfl fun _ => rfl

theorem obeys_queueStartOp {cancelFirst : Bool} :
    Obeys Stage.learn Stage.Permits (Started name) .idle (queueStartOp command name cancelFirst) := by
  refine obeys_perform (Or.inr (Or.inl ⟨command, name, rfl⟩)) fun (id : Nat) => ?_
  refine obeys_perform ⟨command, rfl⟩ fun _ => ?_
  refine obeys_perform ⟨cancelFirst, rfl⟩ fun (permit : Bool) => ?_
  cases permit with
  | false => exact obeys_perform rfl fun _ => rfl
  | true =>
    refine obeys_perform rfl fun (reply : StoreReply) => ?_
    cases reply with
    | stored => exact rfl
    | killed => exact obeys_perform rfl fun _ => rfl
    | conflict => exact obeys_perform ⟨_, rfl⟩ fun _ => obeys_perform rfl fun _ => rfl

/-- The block of an operation is over. -/
def BlockOver (id : Nat) (l : Stage) (r : Except Str Unit) : Prop := l = .unlocking id ∧ r = .ok ()

/-- The end of `finish_op` and of `fail_op`. -/
theorem obeys_removeOp {heeds : Bool} :
    Obeys Stage.learn Stage.Permits (BlockOver id) (.logged id)
      ((perform (.poll id heeds)).bind fun (dropped : Bool) =>
        if dropped then .ret () else (perform (.removeOp id)).bind fun _ => .ret ()) := by
  refine obeys_perform ⟨heeds, rfl⟩ fun (dropped : Bool) => ?_
  cases dropped with
  | true => exact ⟨rfl, rfl⟩
  | false => exact obeys_perform rfl fun _ => ⟨rfl, rfl⟩

theorem obeys_finishOp {heeds : Bool} :
    Obeys Stage.learn Stage.Permits (BlockOver id) (.ended id) (finishOp id heeds) :=
  obeys_perform (Or.inl rfl) fun _ => obeys_removeOp

theorem obeys_failOp {error : Str} {heeds : Bool} :
    Obeys Stage.learn Stage.Permits (BlockOver id) (.ended id) (failOp id error heeds) :=
  obeys_perform (Or.inr ⟨error, rfl⟩) fun _ => obeys_removeOp

theorem obeys_runBody {scope : LockScope} {body : BodyChoice} :
    Obeys Stage.learn Stage.Permits (BlockOver id) (.locked id name scope) (runBody id name body) := by
  refine obeys_perform rfl fun _ => ?_
  refine obeys_perform ⟨body.heeds, rfl⟩ fun (killed : Bool) => ?_
  cases killed with
  | true => exact ⟨rfl, rfl⟩
  | false =>
    cases body.outcome with
    | ok _ => exact obeys_finishOp
    | error e => exact obeys_failOp

/-- What a block held is dropped with it. -/
theorem obeys_dropLock {l : Stage} {p : ServerProg Unit}
    (hp : Obeys Stage.learn Stage.Permits (BlockOver id) l p) :
    Obeys Stage.learn Stage.Permits AtRest l
      (p.bind fun _ => (perform (.dropLock id)).bind fun _ => .ret ()) := by
  refine hp.bind (fun l r hr => ?_) fun l e he => ?_
  · obtain ⟨rfl, -⟩ := hr
    exact obeys_perform rfl fun _ => rfl
  · cases he.2

theorem obeys_operate {scope : LockScope} {body : BodyChoice} :
    Obeys Stage.learn Stage.Permits AtRest (.admitted id name) (operate id name scope body) := by
  refine obeys_perform ⟨body.heedsFirst, rfl⟩ fun (dropped : Bool) => ?_
  cases dropped with
  | true => exact rfl
  | false =>
    refine obeys_perform ⟨scope, rfl⟩ fun (free : Bool) => ?_
    cases free with
    | true => exact obeys_dropLock obeys_runBody
    | false => exact obeys_dropLock obeys_failOp

theorem obeys_start {scope : LockScope} {body : BodyChoice} {start : ServerProg Nat}
    (hstart : Obeys Stage.learn Stage.Permits (Started name) .idle start) :
    Obeys Stage.learn Stage.Permits AtRest .idle
      (start.attempt.bind fun (started : Except Str Nat) =>
        match started with
        | .ok id => operate id name scope body
        | .error _ => .ret ()) := by
  refine hstart.attempt.bind (fun l r hr => ?_) fun l e he => ?_
  · obtain ⟨x, hx, hl⟩ := hr
    cases hx
    cases r with
    | ok id =>
      obtain rfl : l = .admitted id name := hl
      exact obeys_operate
    | error e => exact hl
  · obtain ⟨x, hx, -⟩ := he
    cases hx

theorem obeys_killOp {target : Option Nat} :
    Obeys Stage.learn Stage.Permits AtRest .idle (killOp target) := by
  refine obeys_perform (Or.inr (Or.inr ⟨target, rfl⟩)) fun (ops : List RunningOp) => ?_
  by_cases hops : ops = []
  · rw [if_pos hops]
    change Stage.learn _ _ = _
    rw [Stage.learn, if_pos hops]
  · rw [if_neg hops]
    have hlearn : Stage.learn .idle ⟨.takeOps target, ops⟩ = .taken ops := by
      rw [Stage.learn, if_neg hops]
    rw [hlearn]
    exact obeys_perform rfl fun _ => obeys_perform rfl fun _ => obeys_perform rfl fun _ => rfl

/-- **Every task follows the stages.** -/
theorem obeys_task (r : Request) :
    Obeys Stage.learn Stage.Permits AtRest .idle r.task := by
  cases r with
  | operation command name body => exact obeys_start obeys_tryStartOp
  | batch commands =>
    have hloop : Obeys Stage.learn Stage.Permits (fun l (_ : Except Str (List Unit)) => l = .idle)
        .idle (forEach commands runQueued) :=
      obeys_forEach (fun c _ l hl => by
        subst hl
        exact obeys_start obeys_queueStartOp) rfl
    exact hloop.bind (fun _ _ h => h) fun _ _ h => h
  | kill target => exact obeys_killOp.bind (fun _ _ h => h) fun _ _ h => h

end Obeys

/-! ## The server as a machine -/

/-- What happens besides the tasks: the clock is read anew, the tasks that a killed operation has spawned
stop, and other processes take and drop their PID locks. -/
inductive ServerMove where
  | tick (now : Nat)
  | stopTasks (id : Nat)
  | othersTake (scope : LockScope)
  | othersDrop (scope : LockScope)

/-- The server.  A task that waits for a permit goes on when there is one or when its token is
cancelled. -/
def serverMachine : Machine ServerCall ServerCall.Reply AppState Stage ServerMove where
  serve := AppState.serve
  learn := Stage.learn
  enabled i s := s.waiting.all fun w => w.1 ≠ i || s.permits ≠ some 0 || s.cancelled.contains w.2
  move e s _ :=
    match e with
    | .tick now => some { s with now := now }
    | .stopTasks id =>
      if id ∈ s.cancelled then some { s with active := s.active.filter fun b => b.1 ≠ id } else none
    | .othersTake scope => if s.lockedOut scope then none else some { s with others := scope :: s.others }
    | .othersDrop scope => some { s with others := s.others.erase scope }

/-- The tasks of the server. -/
abbrev ServerThreads : Type := Threads ServerCall ServerCall.Reply AppState Stage Str Unit

/-- A server that will be asked for these things. -/
def serverStart (allowParallel : Bool) (requests : List Request) : ServerThreads where
  shared := AppState.new allowParallel
  threads := requests.map fun r => ⟨.idle, r.task⟩

theorem serverStart_obeys (allowParallel : Bool) (requests : List Request) :
    ∀ t ∈ (serverStart allowParallel requests).threads,
      Obeys Stage.learn Stage.Permits AtRest t.mind t.rest := by
  intro t ht
  obtain ⟨r, -, rfl⟩ := List.mem_map.mp ht
  exact obeys_task r

/-- At the start every task is idle. -/
theorem serverStart_idle {allowParallel : Bool} {requests : List Request} {i : Nat} {l : Stage}
    (h : (serverStart allowParallel requests).minds[i]? = some l) : l = .idle := by
  have hmem := List.mem_of_getElem? h
  obtain ⟨t, ht, rfl⟩ := List.mem_map.mp hmem
  obtain ⟨r, -, rfl⟩ := List.mem_map.mp ht
  rfl

/-- A body that succeeds, in a task that sees its token as soon as it is cancelled. -/
def undisturbed : BodyChoice := ⟨.ok (), "lock held", true, true, true⟩

end Chbackup
