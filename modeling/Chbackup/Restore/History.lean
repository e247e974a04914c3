import Chbackup.Restore.Reach

/-!
# Attempts at one restore

A restore that was interrupted is tried again, usually with `--resume`, until an attempt succeeds.
Attempts share the backup and the arguments; what the server and the disks answer, which files are
staged and how the tasks interleave is new each time.
-/

namespace Chbackup

open CallTree Prog

/-- The same restore with or without `--resume`. -/
def RestoreEnv.withResume (env : RestoreEnv) (resume : Bool) : RestoreEnv :=
  { env with args := { env.args with resume := resume } }

/-- An attempt at a restore: interrupted, failed or completed. -/
structure RestoreAttempt (env : RestoreEnv) where
  resume : Bool
  fate : RestoreFate
  trace : List RestoreEvent
  outcome : End RestoreError Unit
  runs : Runs (restore (env.withResume resume) fate) trace outcome

/-- Attempts at one restore, the last of which succeeds. -/
structure RestoreHistory (env : RestoreEnv) where
  earlier : List (RestoreAttempt env)
  last : RestoreAttempt env
  ok : last.outcome = .returned ()

end Chbackup
