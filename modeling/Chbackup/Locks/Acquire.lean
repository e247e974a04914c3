import Chbackup.Lib.Threads
import Chbackup.Lib.SortedMap
import Chbackup.Lock

/-!
# Taking a lock

`PidLock::acquire` and `acquire_scoped` of `src/lock.rs`, as programs whose calls are single
operations on the lock directory: linking a finished file into place, reading a file, asking
whether its holder is alive, removing a file by its name, listing the directory.  The temporary
file that is linked has a name of its own and is not modelled, and neither are the pauses.

A lock file is named relative to the lock directory.  Of its contents only the identity of the
holder counts, which is a process id together with a start-time token.
-/

namespace Chbackup

open CallTree Prog

/-- What a lock file holds: the process that published it, or text that does not parse. -/
inductive LockContent where
  | held (holder : Nat)
  | corrupt
  deriving DecidableEq

/-- `GATE_LOCK_FILE`. -/
def gateFile : Str := "chbackup.acquire.lock"

/-- The file name of a scope; the scope without a lock has none. -/
def LockScope.file : LockScope → Str
  | .backup name => "chbackup." ++ name ++ ".pid"
  | .global => "chbackup." ++ "global" ++ ".pid"
  | .none => []

/-- A lock that is held is in the way of another one in `acquire_scoped`, which goes by their files: that of the
global lock and its own for a backup, and those of all locks for the global one.  A backup that is named
`global` has the file of the global lock. -/
def LockScope.blocks (held : LockScope) : LockScope → Bool
  | .none => false
  | .global => held ≠ .none
  | .backup b => held.file = LockScope.global.file || held.file = (LockScope.backup b).file

/-- `lock_for_command`. -/
def lockForCommand (command : Str) (backupName : Option Str) : LockScope :=
  if command ∈ (["create", "upload", "download", "restore", "create_remote", "restore_remote",
      "release-deferred"] : List Str) then
    match backupName with
    | some name => if name ≠ [] then .backup name else .global
    | none => .global
  else if command ∈ (["clean", "clean_broken", "clean_broken_remote", "clean_broken_local",
      "delete"] : List Str) then .global
  else .none

/-- What a lock is taken for. -/
inductive LockTarget where
  | gate
  | scope (s : LockScope)
  deriving DecidableEq

/-- The file of a lock. -/
def LockTarget.file : LockTarget → Str
  | .gate => gateFile
  | .scope s => s.file

/-- Single operations on the lock directory. -/
inductive LockCall where
  | link (target : LockTarget)
  | read (file : Str)
  | holderIsLive (holder : Nat)
  | unlink (file : Str)
  | readDir
  deriving DecidableEq

/-- How a link ends. -/
inductive LinkReply where
  | created
  | alreadyExists
  | failed (e : Str)
  deriving DecidableEq

/-- The replies. -/
abbrev LockCall.Reply : LockCall → Type
  | .link _ => LinkReply
  | .read _ => Option LockContent
  | .holderIsLive _ => Bool
  | .unlink _ => Unit
  | .readDir => Except Str (List Str)

/-- `ChBackupError::LockError`, by what its text says. -/
inductive LockError where
  | heldBy (holder : Nat)
  | createFailed (e : Str)
  | keepsReappearing (file : Str)
  | gateGaveUp (e : LockError)
  | scanFailed (e : Str)
  | blockedByBackup (backup : Str) (holder : Nat)
  | blockedByGlobal (backup : Str) (holder : Nat)
  | noLockFile
  deriving DecidableEq

/-- A program over the lock directory. -/
abbrev LockProg (α : Type) : Type := Prog LockCall LockCall.Reply LockError α

/-- An operation with its reply. -/
abbrev LockEvent : Type := Event LockCall LockCall.Reply

/-! ## One lock -/

/-- `ExistingLock`. -/
inductive ExistingLock where
  | live (holder : Nat)
  | stale
  | gone
  | unreadable
  deriving DecidableEq

/-- `inspect_lock_file`. -/
def inspectLockFile (file : Str) : LockProg ExistingLock :=
  (perform (LockCall.read file)).bind fun (content : Option LockContent) =>
    match content with
    | none => .ret .gone
    | some .corrupt => .ret .unreadable
    | some (.held holder) =>
      (perform (LockCall.holderIsLive holder)).bind fun (live : Bool) =>
        .ret (if live then .live holder else .stale)

/-- `CORRUPT_LOCK_MAX_READS`. -/
def corruptLockMaxReads : Nat := 3

/-- `ACQUIRE_MAX_ATTEMPTS`. -/
def acquireMaxAttempts : Nat := 6

/-- What the loop of `PidLock::acquire` does with a file in its place: give up, try again, or
remove the file by its name and try again. -/
def onExisting (target : LockTarget) (corruptReads : Nat) (again : Nat → LockProg Unit) :
    ExistingLock → LockProg Unit
  | .live holder => .fail (.heldBy holder)
  | .stale => (perform (LockCall.unlink target.file)).bind fun _ => again corruptReads
  | .gone => again corruptReads
  | .unreadable =>
    if corruptReads < corruptLockMaxReads then again (corruptReads + 1)
    else (perform (LockCall.unlink target.file)).bind fun _ => again corruptReads

/-- The loop of `PidLock::acquire`, with the attempts left and the unreadable reads so far. -/
def acquireLoop (target : LockTarget) : Nat → Nat → LockProg Unit
  | 0, _ => .fail (.keepsReappearing target.file)
  | attempts + 1, corruptReads =>
    (perform (LockCall.link target)).bind fun (reply : LinkReply) =>
      match reply with
      | .created => .ret ()
      | .failed e => .fail (.createFailed e)
      | .alreadyExists =>
        (inspectLockFile target.file).bind
          (onExisting target corruptReads fun reads => acquireLoop target attempts reads)

/-- `PidLock::acquire`. -/
def acquire (target : LockTarget) : LockProg Unit := acquireLoop target acquireMaxAttempts 0

/-- `Drop for PidLock`. -/
def release (target : LockTarget) : LockProg Unit :=
  (perform (LockCall.unlink target.file)).bind fun _ => .ret ()

/-! ## Scopes -/

/-- `GATE_MAX_ATTEMPTS`. -/
def gateMaxAttempts : Nat := 40

/-- The loop of `acquire_gate`, with the retries left after the next attempt. -/
def gateLoop : Nat → LockProg Unit
  | 0 => (acquire .gate).attempt.bind fun (taken : Except LockError Unit) =>
    match taken with
    | .ok _ => .ret ()
    | .error e => .fail (.gateGaveUp e)
  | retries + 1 => (acquire .gate).attempt.bind fun (taken : Except LockError Unit) =>
    match taken with
    | .ok _ => .ret ()
    | .error _ => gateLoop retries

/-- `acquire_gate`. -/
def acquireGate : LockProg Unit := gateLoop (gateMaxAttempts - 1)

/-- `backup_name_from_lock_file`. -/
def backupNameFromLockFile (fileName : Str) : Option Str :=
  ((Str.stripPrefix? "chbackup." fileName).bind (Str.stripSuffix? ".pid")).bind fun stem =>
    if stem ≠ [] ∧ stem ≠ "global".toList then some stem else none

/-- `live_lock_holder`. -/
def liveLockHolder (file : Str) : LockProg (Option Nat) :=
  (perform (LockCall.read file)).bind fun (content : Option LockContent) =>
    match content with
    | some (.held holder) =>
      (perform (LockCall.holderIsLive holder)).bind fun (live : Bool) =>
        .ret (if live then some holder else none)
    | _ => .ret none

/-- The scan of `check_cross_tier_exclusion`. -/
def checkEntries : List Str → LockProg Unit
  | [] => .ret ()
  | entry :: entries =>
    match backupNameFromLockFile entry with
    | none => checkEntries entries
    | some backup =>
      (liveLockHolder entry).bind fun holder =>
        match holder with
        | some holder => .fail (.blockedByBackup backup holder)
        | none => checkEntries entries

/-- `check_cross_tier_exclusion`. -/
def checkCrossTierExclusion : LockScope → LockProg Unit
  | .global =>
    (perform LockCall.readDir).bind fun (entries : Except Str (List Str)) =>
      match entries with
      | .ok entries => checkEntries entries
      | .error e => .fail (.scanFailed e)
  | .backup name =>
    (liveLockHolder LockScope.global.file).bind fun holder =>
      match holder with
      | some holder => .fail (.blockedByGlobal name holder)
      | none => .ret ()
  | .none => .ret ()

/-- `acquire_scoped`: the check and the lock are taken under the gate, which is released in every
case. -/
def acquireScoped (scope : LockScope) : LockProg Unit :=
  if scope = .none then .fail .noLockFile
  else
    acquireGate.bind fun _ =>
      ((checkCrossTierExclusion scope).bind fun _ => acquire (.scope scope)).attempt.bind
        fun (taken : Except LockError Unit) => (release .gate).bind fun _ => ofExcept taken

/-! ## The lock directory -/

/-- The lock directory and the processes that have ended. -/
structure LockDir where
  files : SortedMap Str LockContent
  dead : List Nat

/-- What an operation of a process does.  A listing shows what lies directly in the directory. -/
def LockDir.serve (process : Nat) : (c : LockCall) → LockDir → c.Reply × LockDir
  | .link target, dir =>
    match dir.files.get? target.file with
    | some _ => (.alreadyExists, dir)
    | none => (.created, { dir with files := dir.files.insert target.file (.held process) })
  | .read file, dir => (dir.files.get? file, dir)
  | .holderIsLive holder, dir => (holder ∉ dir.dead, dir)
  | .unlink file, dir => ((), { dir with files := dir.files.erase file })
  | .readDir, dir => (.ok (dir.files.keys.filter fun file => '/' ∉ file), dir)

end Chbackup
