import Chbackup.Lock
import Chbackup.Server.StateFiles
import Chbackup.Watch.Decision

/-!
# The watch loop and its lock

`run_watch_loop` (`src/watch/mod.rs`) as a state machine.  A state is a place in the body of the loop
where it waits: for a call to return, or in `interruptible_sleep`.  The guard `_pid_lock` is taken in the
middle of the body and lives to its end, so it is still there while the cycle that took it sleeps.

The step takes the outcome of what the loop waits for, which is any; the signals of the server arrive
between the steps.
-/

namespace Chbackup

/-- `WatchState`. -/
inductive WatchState where
  | idle
  | creatingFull
  | creatingIncr
  | uploading
  | cleaning
  | sleeping
  | error
  deriving DecidableEq

/-- `WatchLoopExit`. -/
inductive WatchLoopExit where
  | shutdown
  | maxErrors
  | stopped
  deriving DecidableEq

/-- The settings that the loop reads.  The two retention counts are those of
`effective_retention_local` and `effective_retention_remote`. -/
structure WatchConfig where
  watchInterval : Str
  fullInterval : Str
  retryInterval : Str
  nameTemplate : Str
  maxConsecutiveErrors : Nat
  deleteLocalAfterUpload : Bool
  keepLocal : Int
  keepRemote : Int
  deriving DecidableEq

/-- A receiver of a watch channel: the last value sent, and whether it is new to the receiver. -/
structure Receiver where
  value : Bool
  unseen : Bool
  deriving DecidableEq

/-- `parse_duration_secs`. -/
def parseDurationSecs (text : Str) : Option Nat :=
  let s := text.trim
  let scaled (digits : Str) (multiplier : Nat) : Option Nat :=
    (Str.parseUnsigned 64 digits).map fun n => min (n * multiplier) (2 ^ 64 - 1)
  if s.isEmpty then none
  else
    match Str.stripSuffix? "h" s, Str.stripSuffix? "m" s, Str.stripSuffix? "s" s with
    | some n, _, _ => scaled n 3600
    | none, some n, _ => scaled n 60
    | none, none, some n => scaled n 1
    | none, none, none => scaled s 1

/-- A duration of the configuration in nanoseconds, with the default of the loop in seconds. -/
def durationOr (defaultSecs : Nat) (text : Str) : Nat :=
  (parseDurationSecs text).getD defaultSecs * 10 ^ 9

/-- What a cycle is about to make. -/
structure WatchCycle where
  backupName : Str
  backupType : BackupType
  diffFrom : Option Str
  deriving DecidableEq

/-- The calls of a cycle, in their order. -/
inductive WatchStage where
  | locking
  | creating
  | uploading
  | deletingLocal
  | cleaningLocal
  | cleaningRemote
  deriving DecidableEq

/-- Where the loop waits. -/
inductive WatchPoint where
  | top
  | listing
  | working (stage : WatchStage) (cycle : WatchCycle)
  /-- In `interruptible_sleep`. -/
  | asleep (duration : Nat)
  | returned (reason : WatchLoopExit)
  deriving DecidableEq

/-- The fields of `WatchContext` that the loop reads and changes, where it is, and the guard of the
backup lock as long as it lives. -/
structure WatchLoop where
  config : WatchConfig
  state : WatchState
  consecutiveErrors : Nat
  forceNextFull : Bool
  lastBackupName : Option Str
  shutdownRx : Receiver
  reloadRx : Receiver
  macros : SortedMap Str Str
  point : WatchPoint
  pidLock : Option LockScope

/-- What happens to the loop. -/
inductive WatchEvent where
  | shutdownSent (value : Bool)
  | reloadSent (value : Bool)
  | topChecked
  /-- `list_remote` returns; the clock is read for the decision and for the name. -/
  | listed (backups : Option (List BackupSummary)) (decided named : Int)
  /-- The call of the stage returns. -/
  | finished (ok : Bool)
  /-- The stage is not configured. -/
  | skipped
  | timerElapsed
  | shutdownChanged
  /-- The reload is seen, with the new configuration and macros if they can be used. -/
  | reloadChanged (reloaded : Option (WatchConfig × SortedMap Str Str))

namespace WatchLoop

variable (strftime : Str → Int → Str) (globPattern : Str → Option (Str → Bool))

/-- The start of the loop: no lock yet. -/
def start (ctx : WatchLoop) : WatchLoop :=
  { ctx with state := .idle, point := .top, pidLock := none }

/-- `handle_error`, up to its sleep.  The count is a `u32`. -/
def handleError (s : WatchLoop) : WatchLoop :=
  { s with
    consecutiveErrors := (s.consecutiveErrors + 1) % 2 ^ 32
    forceNextFull := true
    state := .error
    point := .asleep (durationOr 300 s.config.retryInterval) }

/-- The end of the loop: the locals of the body are dropped. -/
def leave (s : WatchLoop) (reason : WatchLoopExit) : WatchLoop :=
  { s with point := .returned reason, pidLock := none }

/-- The next turn of the loop: the locals of the body are dropped. -/
def nextTurn (s : WatchLoop) : WatchLoop :=
  { s with point := .top, pidLock := none }

/-- The checks at the top of the body. -/
def checkTop (s : WatchLoop) : WatchLoop :=
  if s.config.maxConsecutiveErrors ≤ s.consecutiveErrors ∧ 0 < s.config.maxConsecutiveErrors then
    s.leave .maxErrors
  else if s.shutdownRx.value then { s with state := .idle }.leave .shutdown
  else { s with state := .idle, point := .listing }

/-- The sleep of a backup that is still fresh, and of a cycle that is over. -/
def sleepFor (s : WatchLoop) (duration : Nat) : WatchLoop :=
  { s with state := .sleeping, point := .asleep duration }

/-- The type of the next backup, and its base. -/
def nextType (s : WatchLoop) : ResumeDecision → BackupType × Option Str
  | .incrNow diffFrom => if s.forceNextFull then (.full, none) else (.incr, some diffFrom)
  | _ => (.full, none)

/-- From the listing of the remote backups to the lock. -/
def act (s : WatchLoop) (backups : List BackupSummary) (decided named : Int) : WatchLoop :=
  let watchInterval := durationOr 3600 s.config.watchInterval
  let fullInterval := durationOr 86400 s.config.fullInterval
  let decision :=
    resumeState globPattern s.config.nameTemplate watchInterval fullInterval decided backups
  match decision with
  | .sleepThen remaining _ => s.sleepFor remaining
  | decision =>
    let (backupType, diffFrom) := s.nextType decision
    let name := resolveNameTemplate strftime s.config.nameTemplate backupType named s.macros
    if validateBackupName name then { s with point := .working .locking ⟨name, backupType, diffFrom⟩ }
    else s.handleError

/-- The end of a cycle that succeeded. -/
def finishCycle (s : WatchLoop) (c : WatchCycle) : WatchLoop :=
  { s with
    consecutiveErrors := 0
    forceNextFull := s.forceNextFull && decide (c.backupType ≠ BackupType.full)
    lastBackupName := some c.backupName }.sleepFor (durationOr 3600 s.config.watchInterval)

/-- A best-effort stage is made where it is configured, and how it ends does not matter. -/
def configured (s : WatchLoop) : WatchStage → Bool
  | .deletingLocal => s.config.deleteLocalAfterUpload
  | .cleaningLocal => 0 < s.config.keepLocal
  | .cleaningRemote => 0 < s.config.keepRemote
  | _ => true

/-- What follows a stage that is over. -/
def advance (s : WatchLoop) (c : WatchCycle) : WatchStage → WatchLoop
  | .locking =>
    { s with
      pidLock := some (.backup c.backupName)
      state := if c.backupType = .full then .creatingFull else .creatingIncr
      point := .working .creating c }
  | .creating => { s with state := .uploading, point := .working .uploading c }
  | .uploading => { s with point := .working .deletingLocal c }
  | .deletingLocal => { s with state := .cleaning, point := .working .cleaningLocal c }
  | .cleaningLocal => { s with point := .working .cleaningRemote c }
  | .cleaningRemote => s.finishCycle c

/-- A failure of the stage ends the cycle. -/
def fatal : WatchStage → Bool
  | .locking | .creating | .uploading => true
  | .deletingLocal | .cleaningLocal | .cleaningRemote => false

/-- One step of the loop. -/
def step (s : WatchLoop) : WatchEvent → Option WatchLoop
  | .shutdownSent value => some { s with shutdownRx := ⟨value, true⟩ }
  | .reloadSent value => some { s with reloadRx := ⟨value, true⟩ }
  | .topChecked => if s.point = .top then some s.checkTop else none
  | .listed backups decided named =>
    if s.point = .listing then
      match backups with
      | some backups => some (s.act strftime globPattern backups decided named)
      | none => some s.handleError
    else none
  | .finished ok =>
    match s.point with
    | .working stage c =>
      if s.configured stage = false then none
      else if ok || !fatal stage then some (s.advance c stage)
      else some s.handleError
    | _ => none
  | .skipped =>
    match s.point with
    | .working stage c => if s.configured stage then none else some (s.advance c stage)
    | _ => none
  | .timerElapsed =>
    match s.point with
    | .asleep _ => some s.nextTurn
    | _ => none
  | .shutdownChanged =>
    match s.point with
    | .asleep _ =>
      if s.shutdownRx.unseen = false then none
      else
        let s := { s with shutdownRx := ⟨s.shutdownRx.value, false⟩ }
        some (if s.shutdownRx.value then s.leave .shutdown else s)
    | _ => none
  | .reloadChanged reloaded =>
    match s.point with
    | .asleep _ =>
      if s.reloadRx.unseen = false then none
      else
        let s := { s with reloadRx := ⟨s.reloadRx.value, false⟩ }
        match s.reloadRx.value, reloaded with
        | true, some (config, macros) => some { s with config := config, macros := macros }
        | _, _ => some s
    | _ => none

/-! ## The lock along a run -/

/-- The loop is in `interruptible_sleep`. -/
def Asleep (s : WatchLoop) : Prop := ∃ duration, s.point = .asleep duration

/-- **The loop holds no lock while it sleeps, and none when it has returned.** -/
def WaitsUnlocked (s : WatchLoop) : Prop :=
  (s.Asleep ∨ ∃ reason, s.point = .returned reason) → s.pidLock = none

/-- The step ends a cycle that has its lock: the backup cannot be created or uploaded, or the last
stage is over. -/
def endsLockedCycle (s : WatchLoop) : WatchEvent → Bool
  | .finished ok =>
    match s.point with
    | .working .creating _ | .working .uploading _ => !ok
    | .working .cleaningRemote _ => true
    | _ => false
  | .skipped =>
    match s.point with
    | .working .cleaningRemote _ => true
    | _ => false
  | _ => false

/-- The body of the loop before its lock, or after the end of the loop. -/
def BeforeLock (s : WatchLoop) : Prop :=
  s.point = .top ∨ s.point = .listing ∨ (∃ c, s.point = .working .locking c) ∨
    ∃ reason, s.point = .returned reason

/-- The stages between the lock and the end of the cycle. -/
def AfterLock (s : WatchLoop) : Prop := ∃ stage c, stage ≠ .locking ∧ s.point = .working stage c

/-- A run of the loop: its steps, each with the state before it, and the state that is reached. -/
inductive Run (ctx : WatchLoop) : List (WatchLoop × WatchEvent) → WatchLoop → Prop where
  | start : Run ctx [] ctx.start
  | step {steps : List (WatchLoop × WatchEvent)} {s s' : WatchLoop} {e : WatchEvent} :
    Run ctx steps s → s.step strftime globPattern e = some s' → Run ctx (steps ++ [(s, e)]) s'

section Proofs

variable {strftime globPattern} {s s' : WatchLoop} {e : WatchEvent}

/-- What a step does to the lock. -/
inductive LockStep (s s' : WatchLoop) : Bool → Prop where
  /-- A signal arrives, or is seen in the sleep. -/
  | stays (hpoint : s'.point = s.point) (hlock : s'.pidLock = s.pidLock) : LockStep s s' false
  /-- The body is left, and its locals are dropped. -/
  | drops (hbefore : s'.BeforeLock) (hlock : s'.pidLock = none) : LockStep s s' false
  /-- The body goes on before its lock, or sleeps without it. -/
  | early (hbefore : s.BeforeLock) (hnext : s'.BeforeLock ∨ s'.Asleep) (hlock : s'.pidLock = s.pidLock) :
    LockStep s s' false
  | locks (hafter : s'.AfterLock) (hlock : s'.pidLock ≠ none) : LockStep s s' false
  | works (hbefore : s.AfterLock) (hafter : s'.AfterLock) (hlock : s'.pidLock = s.pidLock) :
    LockStep s s' false
  /-- The cycle goes to sleep with its lock. -/
  | sleeps (hbefore : s.AfterLock) (hasleep : s'.Asleep) (hlock : s'.pidLock = s.pidLock) :
    LockStep s s' true

theorem asleep_handleError : s.handleError.Asleep := ⟨_, rfl⟩

theorem asleep_sleepFor {duration : Nat} : (s.sleepFor duration).Asleep := ⟨_, rfl⟩

theorem lockStep_checkTop (h : s.point = .top) : LockStep s s.checkTop false := by
  have hbefore : s.BeforeLock := Or.inl h
  rw [checkTop]
  split_ifs
  · exact .drops (Or.inr (Or.inr (Or.inr ⟨_, rfl⟩))) rfl
  · exact .drops (Or.inr (Or.inr (Or.inr ⟨_, rfl⟩))) rfl
  · exact .early hbefore (Or.inl (Or.inr (Or.inl rfl))) rfl

theorem lockStep_act (h : s.BeforeLock) {backups : List BackupSummary} {decided named : Int} :
    LockStep s (s.act strftime globPattern backups decided named) false := by
  rw [act]
  dsimp only
  split
  · exact .early h (Or.inr asleep_sleepFor) rfl
  · split_ifs
    · exact .early h (Or.inl (Or.inr (Or.inr (Or.inl ⟨_, rfl⟩)))) rfl
    · exact .early h (Or.inr asleep_handleError) rfl

theorem lockStep_advance {stage : WatchStage} {c : WatchCycle} (h : s.point = .working stage c) :
    LockStep s (s.advance c stage) (decide (stage = .cleaningRemote)) := by
  cases stage with
  | locking => exact .locks ⟨.creating, c, by decide, rfl⟩ (Option.some_ne_none _)
  | creating => exact .works ⟨.creating, c, by decide, h⟩ ⟨.uploading, c, by decide, rfl⟩ rfl
  | uploading => exact .works ⟨.uploading, c, by decide, h⟩ ⟨.deletingLocal, c, by decide, rfl⟩ rfl
  | deletingLocal =>
    exact .works ⟨.deletingLocal, c, by decide, h⟩ ⟨.cleaningLocal, c, by decide, rfl⟩ rfl
  | cleaningLocal =>
    exact .works ⟨.cleaningLocal, c, by decide, h⟩ ⟨.cleaningRemote, c, by decide, rfl⟩ rfl
  | cleaningRemote => exact .sleeps ⟨.cleaningRemote, c, by decide, h⟩ asleep_sleepFor rfl

theorem lockStep_handleError {stage : WatchStage} {c : WatchCycle} (h : s.point = .working stage c) :
    LockStep s s.handleError (decide (stage ≠ .locking)) := by
  by_cases hstage : stage = .locking
  · subst hstage
    exact .early (Or.inr (Or.inr (Or.inl ⟨c, h⟩))) (Or.inr asleep_handleError) rfl
  · rw [decide_eq_true hstage]
    exact .sleeps ⟨stage, c, hstage, h⟩ asleep_handleError rfl

/-- **What one step does to the lock.** -/
theorem lockStep_of_step (h : s.step strftime globPattern e = some s') :
    LockStep s s' (s.endsLockedCycle e) := by
  cases e with
  | shutdownSent value =>
    cases h
    exact .stays rfl rfl
  | reloadSent value =>
    cases h
    exact .stays rfl rfl
  | topChecked =>
    rw [step] at h
    split_ifs at h with hpoint
    cases h
    exact lockStep_checkTop hpoint
  | listed backups decided named =>
    cases backups with
    | some backups =>
      rw [step] at h
      split_ifs at h with hpoint
      cases h
      exact lockStep_act (Or.inr (Or.inl hpoint))
    | none =>
      rw [step] at h
      split_ifs at h with hpoint
      cases h
      exact .early (Or.inr (Or.inl hpoint)) (Or.inr asleep_handleError) rfl
  | finished ok =>
    rw [step] at h
    split at h
    · rename_i stage c hpoint
      split_ifs at h with hconf hok
      · cases h
        have hends : s.endsLockedCycle (.finished ok) = decide (stage = .cleaningRemote) := by
          rw [endsLockedCycle, hpoint]
          cases stage <;> simp_all [fatal]
        rw [hends]
        exact lockStep_advance hpoint
      · cases h
        have hends : s.endsLockedCycle (.finished ok) = decide (stage ≠ .locking) := by
          rw [endsLockedCycle, hpoint]
          cases stage <;> simp_all [fatal]
        rw [hends]
        exact lockStep_handleError hpoint
    · cases h
  | skipped =>
    rw [step] at h
    split at h
    · rename_i stage c hpoint
      split_ifs at h with hconf
      cases h
      have hends : s.endsLockedCycle .skipped = decide (stage = .cleaningRemote) := by
        rw [endsLockedCycle, hpoint]
        cases stage <;> rfl
      rw [hends]
      exact lockStep_advance hpoint
    · cases h
  | timerElapsed =>
    rw [step] at h
    split at h
    · cases h
      exact .drops (Or.inl rfl) rfl
    · cases h
  | shutdownChanged =>
    rw [step] at h
    split at h
    · split_ifs at h with hunseen
      dsimp only at h
      split_ifs at h
      · cases h
        exact .drops (Or.inr (Or.inr (Or.inr ⟨_, rfl⟩))) rfl
      · cases h
        exact .stays rfl rfl
    · cases h
  | reloadChanged reloaded =>
    rw [step] at h
    split at h
    · split_ifs at h with hunseen
      dsimp only at h
      split at h
      · cases h
        exact .stays rfl rfl
      · cases h
        exact .stays rfl rfl
    · cases h

/-- The lock is there exactly between its acquisition and the end of the cycle, the sleep apart. -/
structure LockTaken (s : WatchLoop) : Prop where
  free : s.BeforeLock → s.pidLock = none
  held : s.AfterLock → s.pidLock ≠ none

theorem not_afterLock_of_beforeLock (h : s.BeforeLock) : ¬s.AfterLock := by
  rintro ⟨stage, c, hstage, hpoint⟩
  rcases h with h | h | ⟨c', h⟩ | ⟨reason, h⟩
  · rw [h] at hpoint
    cases hpoint
  · rw [h] at hpoint
    cases hpoint
  · rw [h] at hpoint
    cases hpoint
    exact hstage rfl
  · rw [h] at hpoint
    cases hpoint

theorem not_afterLock_of_asleep (h : s.Asleep) : ¬s.AfterLock := by
  rintro ⟨stage, c, -, hpoint⟩
  obtain ⟨duration, h⟩ := h
  rw [h] at hpoint
  cases hpoint

theorem not_beforeLock_of_asleep (h : s.Asleep) : ¬s.BeforeLock := by
  obtain ⟨duration, h⟩ := h
  simp [BeforeLock, h]

theorem lockTaken_start (ctx : WatchLoop) : LockTaken ctx.start :=
  ⟨fun _ => rfl, fun h => absurd h (not_afterLock_of_beforeLock (Or.inl rfl))⟩

/-- A step keeps the lock where it belongs. -/
theorem LockTaken.step (hs : LockTaken s) (h : s.step strftime globPattern e = some s') :
    LockTaken s' := by
  have hstep := lockStep_of_step h
  generalize s.endsLockedCycle e = ends at hstep
  cases hstep with
  | stays hpoint hlock =>
    have hbefore : s'.BeforeLock → s.BeforeLock := by simp only [BeforeLock, hpoint, imp_self]
    have hafter : s'.AfterLock → s.AfterLock := by simp only [AfterLock, hpoint, imp_self]
    exact ⟨fun h => hlock.trans (hs.free (hbefore h)), fun h => hlock ▸ hs.held (hafter h)⟩
  | drops hbefore hlock => exact ⟨fun _ => hlock, fun h => absurd h (not_afterLock_of_beforeLock hbefore)⟩
  | early hbefore hnext hlock =>
    refine ⟨fun _ => hlock.trans (hs.free hbefore), fun hafter => ?_⟩
    rcases hnext with hnext | hnext
    · exact absurd hafter (not_afterLock_of_beforeLock hnext)
    · exact absurd hafter (not_afterLock_of_asleep hnext)
  | locks hafter hlock => exact ⟨fun h => absurd hafter (not_afterLock_of_beforeLock h), fun _ => hlock⟩
  | works hbefore hafter hlock =>
    exact ⟨fun h => absurd hafter (not_afterLock_of_beforeLock h), fun _ => hlock ▸ hs.held hbefore⟩
  | sleeps hbefore hasleep hlock =>
    exact ⟨fun h => absurd h (not_beforeLock_of_asleep hasleep),
      fun h => absurd h (not_afterLock_of_asleep hasleep)⟩

theorem beforeLock_of_returned {reason : WatchLoopExit} (h : s.point = .returned reason) :
    s.BeforeLock := Or.inr (Or.inr (Or.inr ⟨reason, h⟩))

/-- **One step waits without the lock exactly if it does not end a cycle that has it.** -/
theorem WaitsUnlocked.step_iff (hs : LockTaken s) (hunlocked : s.WaitsUnlocked)
    (h : s.step strftime globPattern e = some s') :
    s'.WaitsUnlocked ↔ s.endsLockedCycle e = false := by
  have hstep := lockStep_of_step h
  have hs' := hs.step h
  -- the loop has returned without its lock in any case
  have hreturned : ∀ reason, s'.point = .returned reason → s'.pidLock = none := fun reason hpoint =>
    hs'.free (beforeLock_of_returned hpoint)
  generalize s.endsLockedCycle e = ends at hstep
  cases hstep with
  | stays hpoint hlock =>
    refine iff_of_true (fun hwaits => ?_) rfl
    simp only [Asleep, hpoint] at hwaits
    exact hlock.trans (hunlocked hwaits)
  | drops hbefore hlock => exact iff_of_true (fun _ => hlock) rfl
  | early hbefore hnext hlock => exact iff_of_true (fun _ => hlock.trans (hs.free hbefore)) rfl
  | locks hafter hlock =>
    refine iff_of_true (fun hwaits => ?_) rfl
    rcases hwaits with hasleep | ⟨reason, hpoint⟩
    · exact absurd hafter (not_afterLock_of_asleep hasleep)
    · exact hreturned reason hpoint
  | works hbefore hafter hlock =>
    refine iff_of_true (fun hwaits => ?_) rfl
    rcases hwaits with hasleep | ⟨reason, hpoint⟩
    · exact absurd hafter (not_afterLock_of_asleep hasleep)
    · exact hreturned reason hpoint
  | sleeps hbefore hasleep hlock =>
    refine iff_of_false (fun hunlocked' => ?_) Bool.noConfusion
    exact hs.held hbefore (hlock.symm.trans (hunlocked' (Or.inl hasleep)))

theorem Run.lockTaken {ctx : WatchLoop} {steps : List (WatchLoop × WatchEvent)}
    (h : Run strftime globPattern ctx steps s) : LockTaken s := by
  induction h with
  | start => exact lockTaken_start ctx
  | step _ hstep ih => exact ih.step hstep

end Proofs

end WatchLoop

open WatchLoop in
/-- In a run of the watch loop no state waits with the lock, exactly if no step ends a cycle that has
acquired its lock. -/
theorem watch_waits_unlocked (strftime : Str → Int → Str) (globPattern : Str → Option (Str → Bool))
    (ctx : WatchLoop) {steps : List (WatchLoop × WatchEvent)} {s : WatchLoop}
    (h : Run strftime globPattern ctx steps s) :
    ((∀ x ∈ steps, x.1.WaitsUnlocked) ∧ s.WaitsUnlocked) ↔
      ∀ x ∈ steps, x.1.endsLockedCycle x.2 = false := by
  induction h with
  | start =>
    refine iff_of_true ⟨fun x hx => absurd hx List.not_mem_nil, fun _ => rfl⟩ ?_
    exact fun x hx => absurd hx List.not_mem_nil
  | step hrun hstep ih =>
    simp only [List.forall_mem_append, List.forall_mem_singleton]
    rw [← ih]
    constructor
    · rintro ⟨hbefore, hafter⟩
      exact ⟨hbefore, (WaitsUnlocked.step_iff hrun.lockTaken hbefore.2 hstep).mp hafter⟩
    · rintro ⟨hbefore, hends⟩
      exact ⟨hbefore, (WaitsUnlocked.step_iff hrun.lockTaken hbefore.2 hstep).mpr hends⟩

/-! ## Two runs -/

namespace WatchLoop

/-- A context with the shipped intervals. -/
def shipped : WatchLoop where
  config := ⟨"1h", "24h", "5m", "watch-{type}", 5, false, 0, 0⟩
  state := .idle
  consecutiveErrors := 0
  forceNextFull := false
  lastBackupName := none
  shutdownRx := ⟨false, false⟩
  reloadRx := ⟨false, false⟩
  macros := SortedMap.empty
  point := .top
  pidLock := none

end WatchLoop

open WatchLoop in
/-- The lock of a backup is refused, and the loop sleeps without it; after the sleep it has the lock, and the
backup is created. -/
theorem watch_waits_unlocked_lock_refused :
    ∃ steps s, Run (fun _ _ => []) (fun _ => none) shipped steps s ∧ (∃ x ∈ steps, x.1.Asleep) ∧
      s.point = .working .uploading ⟨"watch-full", .full, none⟩ ∧ s.pidLock = some (.backup "watch-full") ∧
      (∀ x ∈ steps, x.1.WaitsUnlocked) ∧ s.WaitsUnlocked := by
  have hrun : ∃ steps s, Run (fun _ _ => []) (fun _ => none) shipped steps s ∧ (∃ x ∈ steps, x.1.Asleep) ∧
      s.point = .working .uploading ⟨"watch-full", .full, none⟩ ∧ s.pidLock = some (.backup "watch-full") ∧
      ∀ x ∈ steps, x.1.endsLockedCycle x.2 = false := by
    have hrefused : ∃ steps s, Run (fun _ _ => []) (fun _ => none) shipped steps s ∧ s = shipped.start.handleError ∧
        ∀ x ∈ steps, x.1.endsLockedCycle x.2 = false :=
      ⟨_, _, .step (e := .finished false) (.step (e := .listed (some []) 0 0) (.step (e := .topChecked) .start rfl)
        rfl) rfl, rfl, by decide⟩
    obtain ⟨steps, s, hrun, rfl, hends⟩ := hrefused
    refine ⟨_, _, .step (e := .finished true) (.step (e := .finished true) (.step (e := .listed (some []) 0 0)
      (.step (e := .topChecked) (.step (e := .timerElapsed) hrun rfl) rfl) rfl) rfl) rfl,
        ⟨(shipped.start.handleError, .timerElapsed), by simp, _, rfl⟩, rfl, rfl, ?_⟩
    simp only [List.forall_mem_append, List.forall_mem_singleton]
    exact ⟨⟨⟨⟨⟨hends, rfl⟩, rfl⟩, rfl⟩, rfl⟩, rfl⟩
  obtain ⟨steps, s, hrun, hasleep, hpoint, hlock, hends⟩ := hrun
  exact ⟨steps, s, hrun, hasleep, hpoint, hlock, (watch_waits_unlocked _ _ _ hrun).mpr hends⟩

open WatchLoop in
/-- A backup that cannot be created: the loop keeps its lock for the whole retry interval. -/
theorem failed_create_sleeps_locked :
    ¬∀ (strftime : Str → Int → Str) (globPattern : Str → Option (Str → Bool)) (ctx : WatchLoop)
      (steps : List (WatchLoop × WatchEvent)) (s : WatchLoop), Run strftime globPattern ctx steps s →
      (∀ x ∈ steps, x.1.WaitsUnlocked) ∧ s.WaitsUnlocked := by
  intro h
  have hrun : ∃ steps s, Run (fun _ _ => []) (fun _ => none) shipped steps s ∧ s.Asleep ∧
      s.pidLock = some (.backup "watch-full") :=
    ⟨_, _, .step (e := .finished false) (.step (e := .finished true)
      (.step (e := .listed (some []) 0 0) (.step (e := .topChecked) .start rfl) rfl) rfl) rfl, ⟨_, rfl⟩, rfl⟩
  obtain ⟨steps, s, hrun, hasleep, hlock⟩ := hrun
  have hnone := (h _ _ _ _ _ hrun).2 (Or.inl hasleep)
  rw [hlock] at hnone
  cases hnone

end Chbackup
