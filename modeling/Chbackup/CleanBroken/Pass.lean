import Chbackup.Lock
import Chbackup.Retention.Pass

/-!
# Cleaning broken remote backups

`clean_broken_remote` (`src/list.rs`): a backup that the listing calls broken is deleted, except
for the keys that a healthy manifest still refers to, unless a live process holds its lock or
something under it was written too recently.

The healthy manifests are read a second time to collect what they refer to; one that cannot be
read then ends the run before anything is deleted.
-/

namespace Chbackup

open CallTree

/-- What the cleanup does with one broken backup. -/
inductive CleanBrokenPlan where
  | skip (reason : Str)
  | delete (keys : List Str)
  deriving DecidableEq

/-- Subtraction of signed 64-bit numbers that stops at the ends of the range. -/
def saturatingSub (a b : Int) : Int := max (-2 ^ 63) (min (2 ^ 63 - 1) (a - b))

/-- The age that the cleanup gives the newest object; a time in the future counts as no age. -/
def ageSecs (nowSecs newest : Int) : Nat := (max (saturatingSub nowSecs newest) 0).toNat

/-- `plan_clean_broken_deletion`. -/
def planCleanBrokenDeletion (candidateKeys : List Str) (newestLastModified : Option Int)
    (nowSecs : Int) (minAgeSecs : Nat) (lockIsLive : Bool) (protectedKeys : List Str) :
    CleanBrokenPlan :=
  if lockIsLive then
    .skip "its PID lock is held by a live process, an operation is still writing it"
  else
    match newestLastModified with
    | none =>
      .skip ("its age is unknown (no object under the prefix carries a last_modified " ++
        "timestamp)")
    | some newest =>
      if ageSecs nowSecs newest < minAgeSecs then
        .skip ("its newest object is ".toList ++ (Nat.repr (ageSecs nowSecs newest)).toList ++
          "s old, younger than clean_broken_min_age_secs (" ++ (Nat.repr minAgeSecs).toList ++
          "s), so an upload may still be in flight")
      else
        match candidateKeys.filter fun key => !isKeyProtected key protectedKeys with
        | [] => .skip "every key under its prefix is still referenced by a surviving backup"
        | k :: ks => .delete (k :: ks)

/-- The newest time under a backup; unknown as soon as one object has none. -/
def newestLastModified (objects : List StoredObject) : Option Int :=
  (objects.mapM StoredObject.lastModified).bind List.max?

/-- `apply_clean_broken_plan`: whether the backup was deleted. -/
def applyCleanBrokenPlan (plan : CleanBrokenPlan) (deleteKeys : List Str → S3Prog Unit) :
    S3Prog Bool :=
  match plan with
  | .skip _ => .ret false
  | .delete keys =>
    (deleteKeys keys).attempt.bind fun
    | .ok () => .ret true
    | .error _ => .ret false

/-- The error that ends a cleanup whose healthy manifest cannot be read again. -/
def cleanBrokenAborted (name cause : Str) : Str :=
  "clean_broken aborted before deleting anything: cannot read the manifest of valid backup '" ++
    name ++ "', so its keys cannot be protected: " ++ cause

section

variable (host : Host) (nowSecs : Int) (minAgeSecs : Nat)

/-- The body of the cleanup loop: one broken backup. -/
def cleanBrokenBackup (protectedKeys : List Str) (name : Str) : S3Prog Bool :=
  (listObjects (backupDir name)).attempt.bind fun
  | .error _ => .ret false
  | .ok objects =>
    applyCleanBrokenPlan
      (planCleanBrokenDeletion (objects.map StoredObject.key) (newestLastModified objects)
        nowSecs minAgeSecs (host.backupLockIsLive name) protectedKeys)
      deleteKeys

/-- `clean_broken_remote`: the number of deleted backups.  The clock is read once, the lock of
each broken backup once. -/
def cleanBrokenRemote : S3Prog Nat :=
  listRemote.bind fun backups =>
    let broken := backups.filter fun s => s.isBroken
    if broken = [] then .ret 0
    else
      (Prog.forEach (backups.filter fun s => !s.isBroken) fun valid =>
          (fetchManifest valid.name).mapError (cleanBrokenAborted valid.name)).bind
        fun manifests =>
      (Prog.forEach broken fun s =>
          cleanBrokenBackup host nowSecs minAgeSecs
            (manifests.flatMap collectKeyPrefixesFromManifest) s.name).bind fun deleted =>
        .ret (deleted.filter id).length

end

end Chbackup
