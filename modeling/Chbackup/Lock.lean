import Chbackup.Lib.Text

/-!
# Lock files

The part of `src/lock.rs` that other commands consult: where the lock of a backup lies, and
whether its recorded holder is still running.  A lock file is what the JSON reader makes of it;
a file that cannot be read or parsed is absent.  The process table is an input.
-/

namespace Chbackup

/-- `LockScope`: one backup, the whole tool, or no lock. -/
inductive LockScope where
  | backup (name : Str)
  | global
  | none
  deriving DecidableEq

/-- The fields of a lock file that the liveness check reads. -/
structure LockFile where
  /-- The recorded process id, if the file has an unsigned one. -/
  pid : Option Nat
  /-- The start-time token of the recorded process. -/
  token : Option Str
  deriving DecidableEq

/-- What a command sees of the machine it runs on. -/
structure Host where
  lockFile : Str → Option LockFile
  /-- Whether `kill(pid, 0)` succeeds or is refused for want of permission. -/
  signalReaches : Nat → Bool
  startToken : Nat → Option Str

/-- `default_lock_dir`. -/
def defaultLockDir : Str := "/tmp"

/-- `lock_path_for_scope`. -/
def lockPathForScope (lockDir : Str) : LockScope → Option Str
  | .backup name => some (lockDir ++ "/chbackup." ++ name ++ ".pid")
  | .global => some (lockDir ++ "/chbackup." ++ "global" ++ ".pid")
  | .none => none

namespace Host

/-- `is_pid_alive`: process 0 would stand for the whole process group. -/
def isPidAlive (host : Host) (pid : Nat) : Bool :=
  if pid = 0 then false else host.signalReaches pid

/-- `holder_is_live`: every doubt counts as held. -/
def holderIsLive (host : Host) (pid : Nat) (token : Option Str) : Bool :=
  if !host.isPidAlive pid then false
  else
    match token with
    | none => true
    | some recorded =>
      match host.startToken pid with
      | some current => current = recorded
      | none => true

/-- `is_lock_file_active`.  The process id is cut to 32 bits. -/
def isLockFileActive (host : Host) (path : Str) : Bool :=
  match host.lockFile path with
  | none => false
  | some info =>
    match info.pid with
    | none => false
    | some pid => host.holderIsLive (pid % 2 ^ 32) info.token

/-- Whether a live process holds the lock of a backup. -/
def backupLockIsLive (host : Host) (name : Str) : Bool :=
  ((lockPathForScope defaultLockDir (.backup name)).map host.isLockFileActive).getD false

end Host

end Chbackup
