import Chbackup.Lock

/-!
# The record of a deferred freeze

`create` leaves tables frozen until `upload` has copied their objects.  Which ones, and who answers for
them, is written in `deferred_freeze.json` in the directory of the backup (`src/backup/deferred.rs`).

The owner of a record is a process, named by its id and its start-time token.  A record is `adopt`ed by
a process that goes on with the backup, and `demote`d by one that ends without having released the
tables; neither touches the time at which the tables were frozen, nor how long they may stay so.
-/

namespace Chbackup

/-- `FreezeInfo`. -/
structure FreezeInfo where
  database : Str
  table : Str
  freezeName : Str
  deriving DecidableEq

/-- A process: its id, and its start-time token if that can be read. -/
structure Process where
  pid : Nat
  token : Option Str
  isProcess : 0 < pid
  deriving DecidableEq

/-- `DeferredFreezeRecord`. -/
structure DeferredFreezeRecord where
  backupName : Str
  retained : List FreezeInfo
  /-- 0 stands for no owner. -/
  ownerPid : Nat
  ownerBootToken : Option Str
  createdAtSecs : Nat
  ttlSecs : Nat
  deriving DecidableEq

namespace DeferredFreezeRecord

variable (r : DeferredFreezeRecord) (me : Process)

/-- `liveness_from`. -/
def livenessFrom (pidAlive : Bool) (currentToken : Option Str) : Bool :=
  if !pidAlive then false
  else
    match r.ownerBootToken with
    | none => false
    | some recorded =>
      match currentToken with
      | some current => current = recorded
      -- without a token to compare, the process counts as the owner
      | none => true

/-- `ownership_from`. -/
def ownershipFrom (currentPid : Nat) (currentToken : Option Str) : Bool :=
  if r.ownerPid ≠ currentPid then false
  else
    match r.ownerBootToken, currentToken with
    | some recorded, some current => recorded = current
    | _, _ => false

/-- `owned_by_current_process`. -/
def ownedBy : Bool := r.ownershipFrom me.pid me.token

/-- `is_expired`, at a time of the clock. -/
def isExpired (now : Nat) : Bool := r.ttlSecs < now - r.createdAtSecs

/-- `adopt`. -/
def adopt : DeferredFreezeRecord := { r with ownerPid := me.pid, ownerBootToken := me.token }

/-- `demote`. -/
def demote : DeferredFreezeRecord := { r with ownerPid := 0, ownerBootToken := none }

/-- What `retain_failed` writes in the place of a record. -/
def retainFailed (backupName : Str) (failed : List FreezeInfo) : DeferredFreezeRecord where
  backupName := backupName
  retained := failed
  ownerPid := 0
  ownerBootToken := none
  createdAtSecs := r.createdAtSecs
  ttlSecs := r.ttlSecs

/-- `DeferredFreezeRecord::new`. -/
def new (backupName : Str) (retained : List FreezeInfo) (ttlSecs now : Nat) : DeferredFreezeRecord where
  backupName := backupName
  retained := retained
  ownerPid := me.pid
  ownerBootToken := me.token
  createdAtSecs := now
  ttlSecs := ttlSecs

/-- When the tables were frozen, and how long they may stay so. -/
def terms : Nat × Nat := (r.createdAtSecs, r.ttlSecs)

variable {r me}

theorem ownedBy_iff :
    r.ownedBy me = true ↔ r.ownerPid = me.pid ∧ ∃ t, r.ownerBootToken = some t ∧ me.token = some t := by
  unfold ownedBy ownershipFrom
  by_cases hpid : r.ownerPid = me.pid
  · rw [if_neg (not_not.mpr hpid)]
    split
    · rename_i recorded current hr hme
      simp [hpid, hr, hme, eq_comm]
    · rename_i hnone
      constructor
      · intro h
        cases h
      · rintro ⟨-, t, hr, hme⟩
        exact absurd hme (hnone t t hr)
  · rw [if_pos hpid]
    simp [hpid]

/-- A running process is seen to be the owner of the records that it owns. -/
theorem livenessFrom_of_ownedBy (h : r.ownedBy me = true) : r.livenessFrom true me.token = true := by
  obtain ⟨-, t, hr, hme⟩ := ownedBy_iff.mp h
  rw [livenessFrom, hr, hme]
  simp

end DeferredFreezeRecord

/-- `ProtectionStatus`. -/
inductive ProtectionStatus where
  | notProtected
  | isProtected (reason : Str) (ownerPid : Nat)
  | reapable (record : DeferredFreezeRecord)
  deriving DecidableEq

/-- `LoadOutcome`, without the text that says what is wrong with a record. -/
inductive LoadOutcome where
  | none
  | usable (record : DeferredFreezeRecord)
  | corrupt
  | foreignLive (record : DeferredFreezeRecord)
  deriving DecidableEq

end Chbackup
