import Chbackup.Deferred.Programs

/-!
# Threads that work on deferred freezes

The threads of any number of processes share the directories of the backups, the frozen tables, the
locks, the process table and the clock.  Their calls are interleaved in any order.  Between them a call
may be made to fail, the clock may be set, a process may end or start, an operation may be dropped
together with its lock, and an upload may lose its lock and go on, as its task does when the command
that waits for it is killed.

Two things are kept beside the state for the sake of its properties: which tables a record was
published for and have not been released since (`held`), and the terms of that publication (`terms`).
-/

namespace Chbackup

open CallTree Prog

/-- How the next call that may fail does so. -/
inductive Fault where
  | none
  /-- Nothing happens. -/
  | refused
  /-- What was asked for happens, and an error is reported. -/
  | lost
  deriving DecidableEq

/-- What the threads share. -/
structure DeferredWorld where
  /-- The directories of the backups, with the record in each. -/
  backups : SortedMap Str (StateFile DeferredFreezeRecord)
  /-- The locks, with the threads that hold them. -/
  locks : List (LockScope × Nat)
  clock : Nat
  /-- The start-time token, if it can be read, of each process that runs. -/
  procs : Nat → Option (Option Str)
  /-- The processes that have ended. -/
  gone : List (Nat × Option Str)
  /-- The threads that were stopped. -/
  stopped : List Nat
  fault : Fault
  /-- The tables that a record was published for, and that were not released since. -/
  held : List (Str × FreezeInfo)
  /-- When the freeze of a backup was published, and how long it may last. -/
  terms : SortedMap Str (Nat × Nat)

/-- One scope covers a backup: its own, or the whole tool. -/
def LockScope.covers (scope : LockScope) (b : Str) : Bool := scope = .backup b || scope = .global

/-- Two scopes that cover one backup. -/
def LockScope.overlaps : LockScope → LockScope → Bool
  | .none, _ => false
  | _, .none => false
  | .backup a, .backup b => a = b
  | _, _ => true

namespace DeferredWorld

variable (w : DeferredWorld)

/-- The record of a backup as it lies on disk. -/
def file (b : Str) : StateFile DeferredFreezeRecord := (w.backups.get? b).getD .absent

/-- A record is written, and the tables of a new freeze are held from then on. -/
def write (first : Bool) (b : Str) (r : DeferredFreezeRecord) : DeferredWorld where
  backups := w.backups.insert b (.holds r)
  locks := w.locks
  clock := w.clock
  procs := w.procs
  gone := w.gone
  stopped := w.stopped
  fault := w.fault
  held := if first then w.held.filter (·.1 ≠ b) ++ r.retained.map (b, ·) else w.held
  terms := if first then w.terms.insert b r.terms else w.terms

/-- A table is released. -/
def released (info : FreezeInfo) : DeferredWorld := { w with held := w.held.filter (·.2 ≠ info) }

/-- What a call of a thread does.  Taking a lock is one step here, and excludes the locks that it finds; of the
steps of `acquire_scoped` this is shown only outside the races of a takeover (`scopes_exclude_each_other`). -/
def serve (thread : Nat) : (c : DeferredCall) → DeferredWorld → c.Reply × DeferredWorld
  | .recordExists b, w => (w.file b ≠ .absent, w)
  | .loadRecord b, w => (if w.fault = .none then loadStateFile (w.file b) else .error "I/O error", w)
  | .publish first b r, w => if w.fault = .none then (true, w.write first b r) else (false, w)
  | .removeRecord b, w =>
    if w.fault = .none ∧ w.file b ≠ .absent then (true, { w with backups := w.backups.insert b .absent })
    else (false, w)
  | .unfreeze _ info, w =>
    match w.fault with
    | .none => (true, w.released info)
    | .refused => (false, w)
    | .lost => (false, w.released info)
  | .createDir b, w =>
    if w.fault = .none ∧ w.backups.get? b = none then
      (true, { w with backups := w.backups.insert b .absent })
    else (false, w)
  | .dirExists b, w => ((w.backups.get? b).isSome, w)
  | .removeDir b, w =>
    if w.backups.get? b = none then (false, w)
    else
      match w.fault with
      | .none => (true, { w with backups := w.backups.erase b })
      | .refused => (false, w)
      -- some of the files are left, but not the record
      | .lost => (false, { w with backups := w.backups.insert b .absent })
  | .pidAlive pid, w => (pid ≠ 0 && (w.procs pid).isSome, w)
  | .startToken pid, w => ((w.procs pid).join, w)
  | .now, w => (w.clock, w)
  | .lockActive b, w => (w.locks.any fun x => x.1.file = (LockScope.backup b).file, w)
  | .acquire _ scope, w =>
    if w.fault = .none ∧ (w.locks.any fun x => x.1.blocks scope) = false ∧ scope ≠ .none then
      (true, { w with locks := (scope, thread) :: w.locks })
    else (false, w)
  | .release scope, w => ((), { w with locks := w.locks.filter (· ≠ (scope, thread)) })
  | .startWork _, w => ((), w)
  | .awaitWork _, w => (w.fault = .none, w)
  | .freezeTables _, w => (w.fault = .none, w)
  | .tail _, w => (w.fault = .none, w)

end DeferredWorld

/-! ## What a thread knows -/

/-- What a thread knows of the backup whose record it has read or written last: the tables that may
still be held, and the terms, unless there was no record. -/
structure Custody where
  backup : Str
  remaining : List FreezeInfo
  terms : Option (Nat × Nat)
  deriving DecidableEq

/-- What a thread knows. -/
structure DeferredMind where
  me : Process
  /-- The thread may go on without its lock. -/
  isUpload : Bool
  /-- The command, its lock, and whether the thread has asked for it. -/
  command : Str
  scope : LockScope
  started : Bool
  /-- The locks it has taken, with the command they were taken for. -/
  locked : List (Str × LockScope)
  custody : Option Custody
  /-- The backup whose directory it has made, until the record is published. -/
  creating : Option Str
  /-- The backup whose directory it is about to remove. -/
  deleting : Option Str
  /-- The record that it is judging, and whether the process of the owner runs. -/
  judging : Option (Str × DeferredFreezeRecord)
  alive : Bool
  /-- The backup whose record it has seen to be without a running owner. -/
  cleared : Option Str
  /-- The copying has been started. -/
  worked : Bool
  /-- The backup whose record it owns for its copying, until that has come to its end. -/
  claimed : Option Str

namespace DeferredMind

variable (l : DeferredMind)

/-- The record of the backup is that of the upload that is about to copy its objects. -/
def owns (b : Str) (r : DeferredFreezeRecord) : Bool :=
  l.isUpload && !l.worked && decide (r.backupName = b) && r.ownedBy l.me

/-- The thread goes by what it has read of a backup. -/
def relies (b : Str) : Bool := l.isUpload || l.locked.any (·.2.covers b)

/-- What a thread learns from there being no record. -/
def learnAbsent (b : Str) : Option Custody :=
  if l.relies b || l.deleting = some b then some ⟨b, [], none⟩ else none

/-- What a thread learns from a call. -/
def learn : DeferredEvent → DeferredMind
  | ⟨.recordExists b, (present : Bool)⟩ =>
    if present then l else { l with custody := l.learnAbsent b }
  | ⟨.loadRecord b, (loaded : Except Str (Option DeferredFreezeRecord))⟩ =>
    match loaded with
    | .error _ => { l with custody := none, judging := none }
    | .ok none => { l with custody := l.learnAbsent b, judging := none }
    | .ok (some r) =>
      { l with
        custody := if l.relies b then some ⟨b, r.retained, some r.terms⟩ else none
        judging := some (b, r)
        alive := true
        claimed := if l.owns b r then some b else l.claimed }
  | ⟨.publish first b r, (published : Bool)⟩ =>
    if published then
      { l with
        custody := if first then some ⟨b, r.retained, some r.terms⟩ else l.custody
        creating := none
        claimed := if l.owns b r then some b else none }
    else { l with custody := if first then none else l.custody, creating := none }
  | ⟨.unfreeze _ info, (released : Bool)⟩ =>
    if released then
      { l with
        custody := l.custody.map fun c => { c with remaining := c.remaining.filter (· ≠ info) } }
    else l
  | ⟨.createDir b, (created : Bool)⟩ =>
    { l with
      custody := if created then some ⟨b, [], none⟩ else none
      creating := if created then some b else none }
  | ⟨.dirExists b, _⟩ => { l with custody := none, deleting := some b }
  | ⟨.removeDir _, _⟩ => { l with custody := none, creating := none, deleting := none }
  | ⟨.pidAlive _, (alive : Bool)⟩ => { l with alive := alive }
  | ⟨.startToken pid, (token : Option Str)⟩ =>
    match l.judging with
    | some (b, r) =>
      if r.ownerPid = pid ∧ r.livenessFrom l.alive token = false then { l with cleared := some b } else l
    | none => l
  | ⟨.lockActive _, _⟩ => { l with custody := none }
  | ⟨.acquire command scope, (acquired : Bool)⟩ =>
    { l with
      started := true
      locked := if acquired then (command, scope) :: l.locked else l.locked
      custody := none
      judging := none
      cleared := none }
  | ⟨.release scope, _⟩ =>
    { l with
      locked := l.locked.filter (·.2 ≠ scope)
      custody := none
      creating := none
      judging := none
      cleared := none
      claimed := none }
  | ⟨.startWork _, _⟩ => { l with worked := true }
  | ⟨.awaitWork _, _⟩ => { l with claimed := none }
  | ⟨.tail _, _⟩ => { l with creating := none }
  | _ => l

end DeferredMind

/-- The work is an upload. -/
def DeferredWork.isUpload : DeferredWork → Bool
  | .upload _ _ => true
  | _ => false

/-- The mind that a thread starts with. -/
def DeferredThread.mind (t : DeferredThread) : DeferredMind where
  me := t.process
  isUpload := t.work.isUpload
  command := t.work.command
  scope := t.work.scope
  started := false
  locked := []
  custody := none
  creating := none
  deleting := none
  judging := none
  alive := true
  cleared := none
  worked := false
  claimed := none

/-! ## The machine -/

/-- What happens beside the calls. -/
inductive DeferredMove where
  | fault (f : Fault)
  | setClock (now : Nat)
  /-- An upload loses its lock and goes on. -/
  | detach (thread : Nat)
  /-- An operation is dropped, and its lock with it. -/
  | stop (thread : Nat)
  | exit (pid : Nat)
  | spawn (pid : Nat) (token : Option Str)
  deriving DecidableEq

/-- The thread was stopped, or its process has ended. -/
def DeferredWorld.isOver (w : DeferredWorld) (thread : Nat) (me : Process) : Bool :=
  thread ∈ w.stopped || (me.pid, me.token) ∈ w.gone

/-- The locks of the threads that are not over. -/
def DeferredWorld.dropLocks (w : DeferredWorld) (minds : List DeferredMind) : DeferredWorld :=
  { w with locks := w.locks.filter fun x => minds[x.2]?.all fun l => !w.isOver x.2 l.me }

/-- What a move does. -/
def DeferredWorld.move (w : DeferredWorld) (minds : List DeferredMind) : DeferredMove → Option DeferredWorld
  | .fault f => some { w with fault := f }
  | .setClock now => some { w with clock := now }
  | .detach thread =>
    match minds[thread]? with
    | some l => if l.isUpload then some { w with locks := w.locks.filter (·.2 ≠ thread) } else none
    | none => none
  | .stop thread => some ({ w with stopped := thread :: w.stopped }.dropLocks minds)
  | .exit pid =>
    match w.procs pid with
    | some token =>
      some ({ w with procs := Function.update w.procs pid none, gone := (pid, token) :: w.gone }.dropLocks minds)
    | none => none
  | .spawn pid token =>
    if w.procs pid = none ∧ (pid, token) ∉ w.gone then
      some { w with procs := Function.update w.procs pid (some token) }
    else none

/-- Threads that work on deferred freezes. -/
def deferredMachine (ts : List DeferredThread) :
    Machine DeferredCall DeferredCall.Reply DeferredWorld DeferredMind DeferredMove where
  serve := DeferredWorld.serve
  learn := DeferredMind.learn
  enabled i w :=
    match ts[i]? with
    | some t => !w.isOver i t.process && w.procs t.process.pid = some t.process.token
    | none => false
  move e w minds := w.move minds e

/-- The threads before their first calls. -/
abbrev DeferredThreads : Type :=
  Threads DeferredCall DeferredCall.Reply DeferredWorld DeferredMind DeferredError Unit

/-- The threads before their first calls. -/
def deferredStart (ts : List DeferredThread) (w : DeferredWorld) : DeferredThreads where
  shared := w
  threads := ts.map fun t => ⟨t.mind, t.work.program t.process⟩

end Chbackup
