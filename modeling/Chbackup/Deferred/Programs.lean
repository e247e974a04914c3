import Chbackup.Lib.Threads
import Chbackup.Lib.SortedMap
import Chbackup.Deferred.Record
import Chbackup.Locks.Acquire
import Chbackup.Resume

/-!
# The operations on deferred freezes

The operations that publish, read, rewrite and remove the record of a deferred freeze, as programs whose
calls are single operations: on the directory of a backup and the record in it, on a frozen table, on a
lock, on the process table and on the clock.  Every call may find things as another process has left
them.

* `create` publishes the record (`src/backup/mod.rs`), and releases the freeze itself if it fails later.
* `upload` claims the record, copies the objects of the tables, and finalises the freeze
  (`src/upload/mod.rs`).
* `reapExpired`, `releaseNow` and `demoteOnOperationEnd` are from `src/backup/deferred.rs`.
* `deleteLocal`, `retentionLocal` and `cleanBrokenLocal` remove directories (`src/list.rs`).

The freezing of the tables and the rest of the work of `create` and `upload` count by their outcome only.
-/

namespace Chbackup

open CallTree Prog

/-- Single operations. -/
inductive DeferredCall where
  /-- `path.exists()` for the record of a backup. -/
  | recordExists (b : Str)
  /-- `load_state_file`. -/
  | loadRecord (b : Str)
  /-- `save_state_file`; the record of a new freeze is the `first` of its backup. -/
  | publish (first : Bool) (b : Str) (r : DeferredFreezeRecord)
  /-- `remove_file`. -/
  | removeRecord (b : Str)
  /-- `UNFREEZE` of a table that was frozen for a backup. -/
  | unfreeze (b : Str) (info : FreezeInfo)
  /-- `create_dir` for the directory of a backup. -/
  | createDir (b : Str)
  /-- `path.exists()` for the directory of a backup. -/
  | dirExists (b : Str)
  /-- `remove_dir_all` for the directory of a backup. -/
  | removeDir (b : Str)
  | pidAlive (pid : Nat)
  | startToken (pid : Nat)
  | now
  /-- `backup_lock_is_active`. -/
  | lockActive (b : Str)
  /-- `acquire_scoped`, for a command. -/
  | acquire (command : Str) (scope : LockScope)
  | release (scope : LockScope)
  /-- The copying of the objects starts. -/
  | startWork (b : Str)
  /-- The copying of the objects has come to its end. -/
  | awaitWork (b : Str)
  /-- The freezing of the tables. -/
  | freezeTables (b : Str)
  /-- What `create` does once the tables are released. -/
  | tail (b : Str)
  deriving DecidableEq

/-- The replies. -/
abbrev DeferredCall.Reply : DeferredCall → Type
  | .recordExists _ => Bool
  | .loadRecord _ => Except Str (Option DeferredFreezeRecord)
  | .publish _ _ _ => Bool
  | .removeRecord _ => Bool
  | .unfreeze _ _ => Bool
  | .createDir _ => Bool
  | .dirExists _ => Bool
  | .removeDir _ => Bool
  | .pidAlive _ => Bool
  | .startToken _ => Option Str
  | .now => Nat
  | .lockActive _ => Bool
  | .acquire _ _ => Bool
  | .release _ => Unit
  | .startWork _ => Unit
  | .awaitWork _ => Bool
  | .freezeTables _ => Bool
  | .tail _ => Bool

/-- The errors, by what their texts say. -/
inductive DeferredError where
  | namesOtherBackup (found : Str)
  | unreadable (e : Str)
  | stillFrozen (released total : Nat)
  | removeFailed
  | backupNotFound
  | freezeHeld
  | lockNotAcquired
  | notCreated
  | freezeFailed
  | tailFailed
  | uploadFailed
  deriving DecidableEq

/-- A program over deferred freezes. -/
abbrev DeferredProg (α : Type) : Type := Prog DeferredCall DeferredCall.Reply DeferredError α

/-- An operation with its reply. -/
abbrev DeferredEvent : Type := Event DeferredCall DeferredCall.Reply

/-! ## Records -/

/-- `FreezeGuard::unfreeze_all_checked`: the entries that are still frozen. -/
def unfreezeAllChecked (b : Str) : List FreezeInfo → DeferredProg (List FreezeInfo)
  | [] => .ret []
  | info :: rest =>
    (perform (DeferredCall.unfreeze b info)).bind fun (released : Bool) =>
      (unfreezeAllChecked b rest).bind fun failed =>
        .ret (if released then failed else info :: failed)

/-- `load`: a record without a running owner is adopted, and used even if that cannot be written. -/
def load (me : Process) (b : Str) : DeferredProg LoadOutcome :=
  (perform (DeferredCall.recordExists b)).bind fun (present : Bool) =>
    if !present then .ret .none
    else
      (perform (DeferredCall.loadRecord b)).bind
        fun (loaded : Except Str (Option DeferredFreezeRecord)) =>
          match loaded with
          | .error _ => .ret .corrupt
          | .ok none => .ret .none
          | .ok (some r) =>
            if r.backupName ≠ b then .ret .corrupt
            else if r.ownedBy me then .ret (.usable r)
            else
              (perform (DeferredCall.pidAlive r.ownerPid)).bind fun (alive : Bool) =>
                (perform (DeferredCall.startToken r.ownerPid)).bind fun (token : Option Str) =>
                  if r.livenessFrom alive token then .ret (.foreignLive r)
                  else
                    (perform (DeferredCall.publish false b (r.adopt me))).bind fun _ =>
                      .ret (.usable (r.adopt me))

/-- `delete`. -/
def deleteRecord (b : Str) : DeferredProg Bool :=
  (perform (DeferredCall.recordExists b)).bind fun (present : Bool) =>
    if !present then .ret true
    else (perform (DeferredCall.removeRecord b)).bind fun (removed : Bool) => .ret removed

/-- `retain_failed`. -/
def retainFailed (b : Str) (failed : List FreezeInfo) (prior : DeferredFreezeRecord) : DeferredProg Unit :=
  (perform (DeferredCall.publish false b (prior.retainFailed b failed))).bind fun _ => .ret ()

/-- The end of every release: the record goes if nothing is frozen any more, and else keeps what is.
The value says which. -/
def releaseRetained (b : Str) (r : DeferredFreezeRecord) : DeferredProg (List FreezeInfo × Bool) :=
  (unfreezeAllChecked b r.retained).bind fun failed =>
    if failed = [] then (deleteRecord b).bind fun removed => .ret ([], removed)
    else (retainFailed b failed r).bind fun _ => .ret (failed, true)

/-- `release_now`. -/
def releaseNow (b : Str) : DeferredProg Nat :=
  (perform (DeferredCall.recordExists b)).bind fun (present : Bool) =>
    if !present then .ret 0
    else
      (perform (DeferredCall.loadRecord b)).bind
        fun (loaded : Except Str (Option DeferredFreezeRecord)) =>
          match loaded with
          | .error e => .fail (.unreadable e)
          | .ok none => .ret 0
          | .ok (some r) =>
            if r.backupName ≠ b then .fail (.namesOtherBackup r.backupName)
            else
              (releaseRetained b r).bind fun (failed, removed) =>
                if failed ≠ [] then
                  .fail (.stillFrozen (r.retained.length - failed.length) r.retained.length)
                else if !removed then .fail .removeFailed
                else .ret r.retained.length

/-- `demote_on_operation_end`. -/
def demoteOnOperationEnd (b : Str) : DeferredProg Unit :=
  (perform (DeferredCall.recordExists b)).bind fun (present : Bool) =>
    if !present then .ret ()
    else
      (perform (DeferredCall.loadRecord b)).bind
        fun (loaded : Except Str (Option DeferredFreezeRecord)) =>
          match loaded with
          | .error _ => .ret ()
          | .ok none => .ret ()
          | .ok (some r) =>
            if r.backupName ≠ b then .ret ()
            else if r.ownerPid = 0 ∧ r.ownerBootToken = none then .ret ()
            else (perform (DeferredCall.publish false b r.demote)).bind fun _ => .ret ()

/-! ## Protection -/

/-- The end of `status_inner`, for a record that was read. -/
def judgeRecord (r : DeferredFreezeRecord) : DeferredProg ProtectionStatus :=
  (perform (DeferredCall.pidAlive r.ownerPid)).bind fun (alive : Bool) =>
    (perform (DeferredCall.startToken r.ownerPid)).bind fun (token : Option Str) =>
      if r.livenessFrom alive token then
        .ret (.isProtected "the recorded owner process is still alive" r.ownerPid)
      else
        (perform DeferredCall.now).bind fun (now : Nat) =>
          if !r.isExpired now then
            .ret (.isProtected "the deferred freeze is orphaned but has not yet expired" r.ownerPid)
          else .ret (.reapable r)

/-- `status_inner`. -/
def statusInner (b : Str) (consultLock : Bool) : DeferredProg ProtectionStatus :=
  (perform (DeferredCall.recordExists b)).bind fun (present : Bool) =>
    if !present then .ret .notProtected
    else
      (perform (DeferredCall.loadRecord b)).bind
        fun (loaded : Except Str (Option DeferredFreezeRecord)) =>
          match loaded with
          | .error _ => .ret (.isProtected "deferred-freeze record is unreadable" 0)
          | .ok none => .ret .notProtected
          | .ok (some r) =>
            if consultLock then
              (perform (DeferredCall.lockActive b)).bind fun (active : Bool) =>
                if active then .ret (.isProtected "an operation holds the per-backup lock" r.ownerPid)
                else judgeRecord r
            else judgeRecord r

/-- `protection_status`. -/
def protectionStatus (b : Str) : DeferredProg ProtectionStatus := statusInner b true

/-- `status_under_lock`. -/
def statusUnderLock (b : Str) : DeferredProg ProtectionStatus := statusInner b false

/-- `blocks_destructive_op`. -/
def blocksDestructiveOp (b : Str) : DeferredProg Bool :=
  (protectionStatus b).bind fun status => .ret (status ≠ .notProtected)

/-! ## Locks -/

/-- An operation under a lock, which is dropped however the operation ends. -/
def underLock {α : Type} (command : Str) (scope : LockScope) (p : DeferredProg α) : DeferredProg α :=
  (perform (DeferredCall.acquire command scope)).bind fun (acquired : Bool) =>
    if !acquired then .fail .lockNotAcquired
    else
      p.attempt.bind fun (result : Except DeferredError α) =>
        (perform (DeferredCall.release scope)).bind fun _ => ofExcept result

/-- The command that the reaper takes its locks for. -/
def reapCommand : Str := "reap_deferred_freeze"

/-- The part of the loop of `reap_expired` that is under the lock of the candidate. -/
def reapUnderLock (b : Str) : DeferredProg Bool :=
  (statusUnderLock b).bind fun status =>
    match status with
    | .reapable r => (releaseRetained b r).bind fun (failed, _) => .ret (failed = [])
    | _ => .ret false

/-- One candidate of `reap_expired`: whether it was reaped. -/
def reapOne (ownLock : Option Str) (b : Str) : DeferredProg Bool :=
  (perform (DeferredCall.recordExists b)).bind fun (present : Bool) =>
    if !present then .ret false
    else
      (if ownLock = some b then statusUnderLock b else protectionStatus b).bind fun status =>
        match status with
        | .reapable _ =>
          if ownLock = some b then reapUnderLock b
          else
            (underLock reapCommand (.backup b) (reapUnderLock b)).attempt.bind
              fun (reaped : Except DeferredError Bool) =>
                match reaped with
                | .ok reaped => .ret reaped
                | .error _ => .ret false
        | _ => .ret false

/-- `reap_expired`, for the directories that a listing shows. -/
def reapExpired (listing : List Str) (ownLock : Option Str) : DeferredProg Nat :=
  (forEach listing (reapOne ownLock)).bind fun reaped => .ret (reaped.countP (· = true))

/-! ## Directories -/

/-- `delete_local`. -/
def deleteLocal (b : Str) : DeferredProg Unit :=
  (perform (DeferredCall.dirExists b)).bind fun (present : Bool) =>
    if !present then .fail .backupNotFound
    else
      (blocksDestructiveOp b).bind fun blocked =>
        if blocked then .fail .freezeHeld
        else
          (perform (DeferredCall.removeDir b)).bind fun (removed : Bool) =>
            if removed then .ret () else .fail .removeFailed

/-- `retention_local`, for the backups that it chooses: what cannot be deleted is passed over. -/
def retentionLocal (chosen : List Str) : DeferredProg Unit :=
  (forEach chosen fun b =>
    (deleteLocal b).attempt.bind fun (_ : Except DeferredError Unit) => .ret ()).bind fun _ => .ret ()

/-- `clean_broken_local`, for the broken backups of a listing. -/
def cleanBrokenLocal (broken : List Str) : DeferredProg Unit :=
  (forEach broken fun b =>
    (perform (DeferredCall.recordExists b)).bind fun (present : Bool) =>
      (if present then (releaseNow b).attempt else .ret (.ok 0)).bind
        fun (released : Except DeferredError Nat) =>
          match released with
          | .error _ => .ret ()
          | .ok _ => (deleteLocal b).attempt.bind fun (_ : Except DeferredError Unit) => .ret ()).bind
    fun _ => .ret ()

/-! ## Creating and uploading a backup -/

/-- What a backup is created from: the tables on object disks, the other tables, and the time that a
freeze may last. -/
structure FreezePlan where
  retained : List FreezeInfo
  unfrozen : List FreezeInfo
  ttlSecs : Nat

/-- `create`, from the split of the frozen tables on. -/
def createTail (me : Process) (b : Str) (plan : FreezePlan) : DeferredProg Unit :=
  (perform DeferredCall.now).bind fun (now : Nat) =>
    let record := DeferredFreezeRecord.new me b plan.retained plan.ttlSecs now
    (if plan.retained = [] then .ret false
      else (perform (DeferredCall.publish true b record)).bind fun (published : Bool) => .ret published).bind
      fun published =>
        -- the tables of a record that was not written are released with the others
        (unfreezeAllChecked b (if published then plan.unfrozen else plan.unfrozen ++ plan.retained)).bind
          fun _ =>
            (perform (DeferredCall.tail b)).bind fun (succeeded : Bool) =>
              if succeeded then
                if published then demoteOnOperationEnd b else .ret ()
              else if published then (releaseRetained b record).bind fun _ => .fail .tailFailed
              else .fail .tailFailed

/-- `create`. -/
def create (me : Process) (b : Str) (listing : List Str) (plan : FreezePlan) : DeferredProg Unit :=
  (reapExpired listing (some b)).bind fun _ =>
    (perform (DeferredCall.createDir b)).bind fun (created : Bool) =>
      if !created then .fail .notCreated
      else
        (perform (DeferredCall.freezeTables b)).bind fun (frozen : Bool) =>
          if frozen then createTail me b plan
          else
            (unfreezeAllChecked b (plan.unfrozen ++ plan.retained)).bind fun _ =>
              (perform (DeferredCall.removeDir b)).bind fun (_ : Bool) =>
                (reapExpired listing (some b)).bind fun _ => .fail .freezeFailed

/-- `finalize_deferred_freeze`. -/
def finalizeDeferredFreeze (me : Process) (b : Str) (uploadSucceeded : Bool) : DeferredProg Unit :=
  if !uploadSucceeded then
    (perform (DeferredCall.recordExists b)).bind fun (present : Bool) =>
      if present then demoteOnOperationEnd b else .ret ()
  else
    (load me b).bind fun outcome =>
      match outcome with
      | .usable r =>
        if r.retained = [] then (deleteRecord b).bind fun _ => .ret ()
        else (releaseRetained b r).bind fun _ => .ret ()
      | _ => .ret ()

/-- The task that `upload` spawns. -/
def uploadTask (me : Process) (b : Str) (deleteAfter : Bool) : DeferredProg Unit :=
  (load me b).bind fun _ =>
    (perform (DeferredCall.startWork b)).bind fun _ =>
      (perform (DeferredCall.awaitWork b)).bind fun (succeeded : Bool) =>
        (finalizeDeferredFreeze me b succeeded).bind fun _ =>
          if !succeeded then .fail .uploadFailed
          else if deleteAfter then deleteLocal b
          else .ret ()

/-! ## Commands -/

/-- What a thread does. -/
inductive DeferredWork where
  | create (b : Str) (listing : List Str) (plan : FreezePlan)
  | upload (b : Str) (deleteAfter : Bool)
  | releaseDeferred (b : Str)
  | delete (b : Str)
  /-- `apply_retention_after_upload` takes no lock of the backups that it deletes. -/
  | retention (chosen : List Str)
  | cleanBroken (broken : List Str)
  | clean (listing : List Str)

/-- The name of the command. -/
def DeferredWork.command : DeferredWork → Str
  | .create _ _ _ => "create"
  | .upload _ _ => "upload"
  | .releaseDeferred _ => "release-deferred"
  | .delete _ => "delete"
  | .retention _ => "retention"
  | .cleanBroken _ => "clean_broken"
  | .clean _ => "clean"

/-- The backup that the command names. -/
def DeferredWork.backupName : DeferredWork → Option Str
  | .create b _ _ | .upload b _ | .releaseDeferred b | .delete b => some b
  | .retention _ | .cleanBroken _ | .clean _ => none

/-- The lock of the command. -/
def DeferredWork.scope (work : DeferredWork) : LockScope := lockForCommand work.command work.backupName

/-- What the command does under its lock. -/
def DeferredWork.body (me : Process) : DeferredWork → DeferredProg Unit
  | .create b listing plan => Chbackup.create me b listing plan
  | .upload b deleteAfter => uploadTask me b deleteAfter
  | .releaseDeferred b => (releaseNow b).bind fun _ => .ret ()
  | .delete b => deleteLocal b
  | .retention chosen => retentionLocal chosen
  | .cleanBroken broken => cleanBrokenLocal broken
  | .clean listing => (reapExpired listing none).bind fun _ => .ret ()

/-- The program of a thread. -/
def DeferredWork.program (me : Process) (work : DeferredWork) : DeferredProg Unit :=
  if work.scope = .none then work.body me else underLock work.command work.scope (work.body me)

/-- A thread of some process. -/
structure DeferredThread where
  process : Process
  work : DeferredWork

end Chbackup
