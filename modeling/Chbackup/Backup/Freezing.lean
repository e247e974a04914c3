import Chbackup.Deferred.Record
import Chbackup.Keys.FreezeNames
import Chbackup.Lib.Tasks
import Chbackup.Lib.World
import Chbackup.Manifest
import Chbackup.Restore.Partitions

/-!
# What `create` leaves frozen

`create` freezes its tables in tasks that run side by side (`src/backup/mod.rs`).  Each enters its table
into a shared list as soon as a freeze of it has succeeded.  When all tasks have come to their ends the
list is taken, and every table on it is either unfrozen, or held for the upload under a record that is
written first.

* However the tasks are interleaved, and whatever fails, nothing stays frozen of which nobody knows
  (`create_tracks_freezes`): a table that is still frozen in the end is in the record, or its unfreeze was
  reported to have failed.
* A backup of chosen partitions has staged a part of each of them (`explicit_partitions_staged`).

A create that is cancelled, or one of whose tasks panics, does not wait for the other tasks, and is left
out here.
-/

namespace Chbackup

open CallTree Prog

/-! ## The calls -/

/-- What `create` asks for, from the freeze of the tables on. -/
inductive FreezeCall where
  | queryDistinctPartitions (database table : Str)
  /-- Freeze the table, or one partition of it. -/
  | freeze (info : FreezeInfo) (partitionId : Option Str)
  | recordFreeze (info : FreezeInfo)
  /-- Which of the partitions have a part in the shadow directories. -/
  | scanShadow (info : FreezeInfo) (requested : List Str)
  | addStaged (ids : List Str)
  | collectTable (info : FreezeInfo)
  | drainFrozen
  | readStaged
  | unfreeze (info : FreezeInfo)
  /-- Remove the directories of the backup, and clean the shadow directories. -/
  | cleanUp
  | publish (retained : List FreezeInfo)
  /-- The rest of `create`, up to the saved manifest. -/
  | tail
  | demote
  | deleteRecord
  | retainFailed (failed : List FreezeInfo)
  deriving DecidableEq

/-- The replies. -/
abbrev FreezeCall.Reply : FreezeCall → Type
  | .queryDistinctPartitions _ _ => Except Str (List Str)
  | .freeze _ _ => Except Str Unit
  | .recordFreeze _ => Unit
  | .scanShadow _ _ => Except Str (List Str)
  | .addStaged _ => Unit
  | .collectTable _ => Except Str TableManifest
  | .drainFrozen => List FreezeInfo
  | .readStaged => List Str
  | .unfreeze _ => Bool
  | .cleanUp => Unit
  | .publish _ => Bool
  | .tail => Except Str Unit
  | .demote => Unit
  | .deleteRecord => Bool
  | .retainFailed _ => Bool

/-- Why a create fails. -/
inductive CreateError where
  | task (e : Str)
  | nothingStaged (unmatched requested : List Str)
  | tail (e : Str)
  deriving DecidableEq

/-- A program over freezes. -/
abbrev FreezeProg (α : Type) : Type := Prog FreezeCall FreezeCall.Reply CreateError α

/-- A call with its reply. -/
abbrev FreezeEvent : Type := Event FreezeCall FreezeCall.Reply

/-! ## The tasks -/

/-- What `create` is asked for. -/
structure FreezeEnv where
  backupName : Str
  partitionSpec : PartitionSpec
  freezeByPart : Bool
  ignoreNotExists : Bool
  allowEmptyBackups : Bool
  deferUnfreezeS3 : Bool

/-- `is_ignorable_freeze_error`. -/
def isIgnorableFreezeError (errMsg : Str) : Bool :=
  Str.contains "UNKNOWN_TABLE" errMsg || Str.contains "UNKNOWN_DATABASE" errMsg || Str.contains "Code: 60" errMsg ||
    Str.contains "Code: 81" errMsg || Str.contains "CANNOT_FREEZE_PARTITION" errMsg || Str.contains "Code: 218" errMsg

/-- `verify_partitions_staged`. -/
def verifyPartitionsStaged (withEvidence requested : List Str) : List Str := requested.filter (· ∈ withEvidence)

/-- `unmatched_explicit_partitions`. -/
def unmatchedExplicitPartitions (requested stagedAnywhere : List Str) : List Str :=
  requested.filter (· ∉ stagedAnywhere)

/-- `tables_with_s3_parts`. -/
def tablesWithS3Parts (tables : SortedMap Str TableManifest) : List Str :=
  (tables.entries.filter fun e => e.2.parts.values.flatten.any fun p => p.s3Objects.any (· ≠ [])).map Prod.fst

section Programs

variable (env : FreezeEnv)

/-- The entry of a table in the list of what is frozen. -/
def FreezeEnv.info (row : Str × Str) : FreezeInfo := ⟨row.1, row.2, freezeName env.backupName row.1 row.2⟩

/-- One freeze, which is entered at once; whether it succeeded, unless its error is not to be ignored. -/
def freezeAndRecord (info : FreezeInfo) (partitionId : Option Str) : FreezeProg Bool :=
  (perform (FreezeCall.freeze info partitionId)).bind fun (result : Except Str Unit) =>
    match result with
    | .ok () => (perform (FreezeCall.recordFreeze info)).bind fun _ => .ret true
    | .error e => if env.ignoreNotExists && isIgnorableFreezeError e then .ret false else .fail (.task e)

/-- The partitions to freeze one by one, none for the whole table. -/
def effectivePartitions (row : Str × Str) : FreezeProg (List Str) :=
  match env.partitionSpec with
  | .ids requested => .ret requested
  | .wholeTable => .ret []
  | .unspecified =>
    if env.freezeByPart then
      (perform (FreezeCall.queryDistinctPartitions row.1 row.2)).bind fun (discovered : Except Str (List Str)) =>
        match discovered with
        | .ok ids => .ret ids
        | .error _ => .ret []
    else .ret []

/-- The loop over the partitions: those whose freeze succeeded. -/
def freezePartitions (info : FreezeInfo) : List Str → FreezeProg (List Str)
  | [] => .ret []
  | id :: ids =>
    (freezeAndRecord env info (some id)).bind fun frozen =>
      (freezePartitions info ids).bind fun attempted => .ret (if frozen then id :: attempted else attempted)

/-- Whether anything of the table was frozen. -/
def freezeTable (row : Str × Str) : FreezeProg Bool :=
  (effectivePartitions env row).bind fun ids =>
    if ids = [] then freezeAndRecord env (env.info row) none
    else
      (freezePartitions env (env.info row) ids).bind fun attempted =>
        if attempted = [] then .ret false
        else
          (perform (FreezeCall.scanShadow (env.info row) attempted)).bind fun (evidence : Except Str (List Str)) =>
            match evidence with
            | .error e => .fail (.task e)
            | .ok found =>
              (perform (FreezeCall.addStaged (verifyPartitionsStaged found attempted))).bind fun _ =>
                .ret (verifyPartitionsStaged found attempted ≠ [])

/-- The task of a table: its record under its full name, unless it was skipped. -/
def freezeTask (row : Str × Str) : FreezeProg (Option (Str × TableManifest)) :=
  (freezeTable env row).bind fun frozen =>
    if !frozen then .ret none
    else
      (perform (FreezeCall.collectTable (env.info row))).bind fun (collected : Except Str TableManifest) =>
        match collected with
        | .error e => .fail (.task e)
        | .ok table => .ret (some (row.1 ++ '.' :: row.2, table))

/-! ## After the tasks -/

/-- `FreezeGuard::unfreeze_all_checked`. -/
def unfreezeAll : List FreezeInfo → FreezeProg (List FreezeInfo)
  | [] => .ret []
  | info :: rest =>
    (perform (FreezeCall.unfreeze info)).bind fun (released : Bool) =>
      (unfreezeAll rest).bind fun failed => .ret (if released then failed else info :: failed)

/-- The end of a create with an error. -/
def abandon (infos : List FreezeInfo) (e : CreateError) : FreezeProg Unit :=
  (unfreezeAll infos).bind fun _ => (perform FreezeCall.cleanUp).bind fun _ => .fail e

/-- The first error of the tasks. -/
def firstError (results : List (Except CreateError (Option (Str × TableManifest)))) : Option CreateError :=
  results.findSome? fun
    | .error e => some e
    | .ok _ => none

/-- The tables of the manifest: what the tasks have collected is added to the others. -/
def addTables (results : List (Except CreateError (Option (Str × TableManifest)))) (tables : SortedMap Str TableManifest) :
    SortedMap Str TableManifest :=
  results.foldl
    (fun tables result =>
      match result with
      | .ok (some (fullName, table)) => tables.insert fullName table
      | _ => tables)
    tables

/-- What stays frozen for the upload. -/
def retainedInfos (tables : SortedMap Str TableManifest) (infos : List FreezeInfo) : List FreezeInfo :=
  if env.deferUnfreezeS3 then
    infos.filter fun info => info.database ++ '.' :: info.table ∈ tablesWithS3Parts tables
  else []

/-- What does not. -/
def releasedInfos (tables : SortedMap Str TableManifest) (infos : List FreezeInfo) : List FreezeInfo :=
  if env.deferUnfreezeS3 then
    infos.filter fun info => info.database ++ '.' :: info.table ∉ tablesWithS3Parts tables
  else infos

/-- The record of what is retained, if anything is. -/
def publishRetained (retained : List FreezeInfo) : FreezeProg Bool :=
  if retained = [] then .ret false
  else (perform (FreezeCall.publish retained)).bind fun (published : Bool) => .ret published

/-- The end of `create`, which may still fail. -/
def finishCreate (retained : List FreezeInfo) (published : Bool) : FreezeProg Unit :=
  (perform FreezeCall.tail).bind fun (result : Except Str Unit) =>
    match result with
    | .ok () => if published then (perform FreezeCall.demote).bind fun _ => .ret () else .ret ()
    | .error e =>
      if published then
        (unfreezeAll retained).bind fun failed =>
          if failed = [] then (perform FreezeCall.deleteRecord).bind fun _ => .fail (.tail e)
          else (perform (FreezeCall.retainFailed failed)).bind fun _ => .fail (.tail e)
      else .fail (.tail e)

/-- The split of the frozen tables.  If the record cannot be written, nothing is retained. -/
def holdAndRelease (tables : SortedMap Str TableManifest) (infos : List FreezeInfo) : FreezeProg Unit :=
  (publishRetained (retainedInfos env tables infos)).bind fun published =>
    (unfreezeAll (if published then releasedInfos env tables infos
      else releasedInfos env tables infos ++ retainedInfos env tables infos)).bind fun _ =>
        finishCreate (retainedInfos env tables infos) published

/-- The check of the partitions that were asked for. -/
def checkPartitions : FreezeProg (Option CreateError) :=
  match env.partitionSpec with
  | .ids requested =>
    (perform FreezeCall.readStaged).bind fun (staged : List Str) =>
      .ret (if unmatchedExplicitPartitions requested staged = [] ∨ env.allowEmptyBackups then none
        else some (.nothingStaged (unmatchedExplicitPartitions requested staged) requested))
  | _ => .ret none

/-- What follows when all tasks have come to their ends. -/
def afterTasks (tables : SortedMap Str TableManifest)
    (results : List (Except CreateError (Option (Str × TableManifest)))) : FreezeProg Unit :=
  (perform FreezeCall.drainFrozen).bind fun (infos : List FreezeInfo) =>
    match firstError results with
    | some e => abandon infos e
    | none =>
      (checkPartitions env).bind fun unmatched =>
        match unmatched with
        | some e => abandon infos e
        | none => holdAndRelease env (addTables results tables) infos

/-- `create`, from the freeze of the tables on. -/
def createFrozen (schedule : List Nat) (tables : SortedMap Str TableManifest) (rows : List (Str × Str)) :
    FreezeProg Unit :=
  (par schedule (rows.map fun row => (freezeTask env row).attempt)).bind fun results =>
    afterTasks env tables results

end Programs

/-! ## What the calls do -/

/-- The shared lists, the tables of which a freeze has succeeded and that were not unfrozen since, and the
tables in the record. -/
structure FreezeState where
  frozenSoFar : List FreezeInfo
  stagedIds : List Str
  frozen : List FreezeInfo
  record : Option (List FreezeInfo)

/-- Nothing is frozen. -/
def FreezeState.start : FreezeState := ⟨[], [], [], none⟩

/-- `record_freeze`. -/
def addInfo (info : FreezeInfo) (infos : List FreezeInfo) : List FreezeInfo :=
  if info ∈ infos then infos else infos ++ [info]

/-- What a call that was answered does. -/
def FreezeState.next (s : FreezeState) : FreezeEvent → FreezeState
  | ⟨.freeze info _, (.ok () : Except Str Unit)⟩ => { s with frozen := addInfo info s.frozen }
  | ⟨.recordFreeze info, _⟩ => { s with frozenSoFar := addInfo info s.frozenSoFar }
  | ⟨.addStaged ids, _⟩ => { s with stagedIds := s.stagedIds ++ ids }
  | ⟨.drainFrozen, _⟩ => { s with frozenSoFar := [] }
  | ⟨.unfreeze info, true⟩ => { s with frozen := s.frozen.filter (· ≠ info) }
  | ⟨.publish retained, true⟩ => { s with record := some retained }
  | ⟨.deleteRecord, true⟩ => { s with record := none }
  | ⟨.retainFailed failed, true⟩ => { s with record := some failed }
  | _ => s

/-- The lists are read as they are; every other reply is possible. -/
def FreezeState.allows (s : FreezeState) : FreezeEvent → Prop
  | ⟨.drainFrozen, (infos : List FreezeInfo)⟩ => infos = s.frozenSoFar
  | ⟨.readStaged, (ids : List Str)⟩ => ids = s.stagedIds
  | _ => True

/-- ClickHouse, the disks, and the shared lists. -/
def freezeWorld : World FreezeCall FreezeCall.Reply FreezeState where
  allows := FreezeState.allows
  next := FreezeState.next

/-! ## What the tasks leave behind -/

section Tasks

variable {env : FreezeEnv} {row : Str × Str} {rows : List (Str × Str)}

/-- Every table that was frozen has been entered. -/
def RecordsFreezes (t : List FreezeEvent) : Prop :=
  ∀ info partitionId, ⟨.freeze info partitionId, .ok ()⟩ ∈ t → ⟨.recordFreeze info, ()⟩ ∈ t

/-- The freeze of a partition succeeded in some table, and a part of it was found there. -/
def StagedIn (env : FreezeEnv) (rows : List (Str × Str)) (t : List FreezeEvent) (id : Str) : Prop :=
  ∃ row ∈ rows, ⟨.freeze (env.info row) (some id), .ok ()⟩ ∈ t ∧
    ∃ attempted found, ⟨.scanShadow (env.info row) attempted, .ok found⟩ ∈ t ∧ id ∈ attempted ∧ id ∈ found

/-- Every partition that was entered was staged. -/
def StagesEntered (env : FreezeEnv) (rows : List (Str × Str)) (t : List FreezeEvent) : Prop :=
  ∀ ids, ⟨.addStaged ids, ()⟩ ∈ t → ∀ id ∈ ids, StagedIn env rows t id

theorem StagedIn.mono {t u : List FreezeEvent} {id : Str} (h : StagedIn env rows t id) (htu : t ⊆ u) :
    StagedIn env rows u id := by
  obtain ⟨row, hrow, hfreeze, attempted, found, hscan, hid⟩ := h
  exact ⟨row, hrow, htu hfreeze, attempted, found, htu hscan, hid⟩

theorem gathers_recordsFreezes : Gathers RecordsFreezes where
  nil _ _ h := by cases h
  append t u ht hu info partitionId h := by
    rcases List.mem_append.mp h with h | h
    · exact List.mem_append_left _ (ht info partitionId h)
    · exact List.mem_append_right _ (hu info partitionId h)
  perm t u hperm ht info partitionId h := hperm.mem_iff.mp (ht info partitionId (hperm.mem_iff.mpr h))

theorem gathers_stagesEntered : Gathers (StagesEntered env rows) where
  nil _ h := by cases h
  append t u ht hu ids h id hid := by
    rcases List.mem_append.mp h with h | h
    · exact (ht ids h id hid).mono (List.subset_append_left _ _)
    · exact (hu ids h id hid).mono (List.subset_append_right _ _)
  perm t u hperm ht ids h id hid := (ht ids (hperm.mem_iff.mpr h) id hid).mono hperm.subset

/-- One freeze: what it leaves behind, and what its value says. -/
theorem runs_freezeAndRecord {info : FreezeInfo} {partitionId : Option Str} {t : List FreezeEvent}
    {e : End CreateError Bool} (h : Runs (freezeAndRecord env info partitionId) t e) (hend : e ≠ .cut) :
    RecordsFreezes t ∧ (∀ ids, ⟨.addStaged ids, ()⟩ ∉ t) ∧
      (e = .returned true → ⟨.freeze info partitionId, .ok ()⟩ ∈ t) := by
  obtain ⟨result, t', rfl, h₁⟩ := h.replied hend
  cases result with
  | ok u =>
    obtain ⟨-, t'', rfl, h₂⟩ := Runs.replied h₁ hend
    cases h₂ with
    | cut => exact absurd rfl hend
    | ret => exact ⟨by simp [RecordsFreezes], by simp, by simp⟩
  | error x =>
    dsimp only at h₁
    split_ifs at h₁
    · cases h₁ with
      | cut => exact absurd rfl hend
      | ret => exact ⟨by simp [RecordsFreezes], by simp, by simp⟩
    · cases h₁ with
      | cut => exact absurd rfl hend
      | fail => exact ⟨by simp [RecordsFreezes], by simp, by simp⟩

theorem leaves_freezeAndRecord (info : FreezeInfo) (partitionId : Option Str) :
    Leaves (fun t => RecordsFreezes t ∧ StagesEntered env rows t) (freezeAndRecord env info partitionId) := by
  intro t e ht hne
  obtain ⟨hrecords, hnone, -⟩ := runs_freezeAndRecord ht hne
  exact ⟨hrecords, fun ids h => absurd h (hnone ids)⟩

/-- The loop over the partitions enters every table, and returns partitions that it froze. -/
theorem runs_freezePartitions {info : FreezeInfo} {ids : List Str} {t : List FreezeEvent}
    {e : End CreateError (List Str)} (h : Runs (freezePartitions env info ids) t e) (hend : e ≠ .cut) :
    RecordsFreezes t ∧ (∀ ids', ⟨.addStaged ids', ()⟩ ∉ t) ∧
      ∀ attempted, e = .returned attempted → ∀ id ∈ attempted, ⟨.freeze info (some id), .ok ()⟩ ∈ t := by
  induction ids generalizing t e with
  | nil =>
    cases h with
    | cut => exact absurd rfl hend
    | ret => exact ⟨by simp [RecordsFreezes], by simp, by rintro attempted ⟨⟩ id ⟨⟩⟩
  | cons id ids ih =>
    rcases Runs.parted h hend with ⟨frozen, t₁, t', rfl, h₁, h'⟩ | ⟨x, rfl, h₁⟩
    · obtain ⟨hrecords, hnone, hfrozen⟩ := runs_freezeAndRecord h₁ (by simp)
      rcases Runs.parted h' hend with ⟨rest, t₂, t₃, rfl, h₂, h₃⟩ | ⟨x, rfl, h₂⟩
      · obtain ⟨hrecords', hnone', hrest⟩ := ih h₂ (by simp)
        cases h₃ with
        | cut => exact absurd rfl hend
        | ret =>
          refine ⟨?_, by simp [hnone, hnone'], ?_⟩
          · rw [List.append_nil]
            exact gathers_recordsFreezes.append _ _ hrecords hrecords'
          · rintro attempted ⟨⟩ id' hid'
            rw [List.append_nil]
            split_ifs at hid' with hf
            · rcases List.mem_cons.mp hid' with rfl | hid'
              · exact List.mem_append_left _ (hfrozen (by rw [hf]))
              · exact List.mem_append_right _ (hrest rest rfl id' hid')
            · exact List.mem_append_right _ (hrest rest rfl id' hid')
      · obtain ⟨hrecords', hnone', -⟩ := ih h₂ (by simp)
        exact ⟨gathers_recordsFreezes.append _ _ hrecords hrecords', by simp [hnone, hnone'], by simp⟩
    · obtain ⟨hrecords, hnone, -⟩ := runs_freezeAndRecord h₁ (by simp)
      exact ⟨hrecords, hnone, by simp⟩

theorem leaves_freezePartitions (info : FreezeInfo) (ids : List Str) :
    Leaves (fun t => RecordsFreezes t ∧ StagesEntered env rows t) (freezePartitions env info ids) := by
  intro t e ht hne
  obtain ⟨hrecords, hnone, -⟩ := runs_freezePartitions ht hne
  exact ⟨hrecords, fun ids' h => absurd h (hnone ids')⟩

theorem leaves_effectivePartitions (row : Str × Str) :
    Leaves (fun t => RecordsFreezes t ∧ StagesEntered env rows t) (effectivePartitions env row) := by
  have hS := gathers_recordsFreezes.and (@gathers_stagesEntered env rows)
  rw [effectivePartitions]
  split
  · exact leaves_ret hS _
  · exact leaves_ret hS _
  · split_ifs
    · refine leaves_perform hS (fun r => ⟨by simp [RecordsFreezes], by simp [StagesEntered]⟩) fun r => ?_
      cases r with
      | ok ids => exact leaves_ret hS _
      | error e => exact leaves_ret hS _
    · exact leaves_ret hS _

/-- What is entered as staged was frozen and found. -/
theorem leaves_freezeTable (hrow : row ∈ rows) :
    Leaves (fun t => RecordsFreezes t ∧ StagesEntered env rows t) (freezeTable env row) := by
  have hS := gathers_recordsFreezes.and (@gathers_stagesEntered env rows)
  refine (leaves_effectivePartitions row).bind hS fun ids => ?_
  split_ifs with hids
  · exact leaves_freezeAndRecord _ _
  · intro t e ht hne
    rcases Runs.parted ht hne with ⟨attempted, t₁, t', rfl, h₁, h'⟩ | ⟨x, rfl, h₁⟩
    · obtain ⟨hrecords, hnone, hfrozen⟩ := runs_freezePartitions h₁ (by simp)
      have hleft : RecordsFreezes t₁ ∧ StagesEntered env rows t₁ := ⟨hrecords, fun ids h => absurd h (hnone ids)⟩
      split_ifs at h' with hattempted
      · exact hS.append _ _ hleft (leaves_ret hS _ t' e h' hne)
      · obtain ⟨evidence, t₂, rfl, h₂⟩ := h'.replied hne
        cases evidence with
        | error x =>
          have hscan : RecordsFreezes [⟨.scanShadow (env.info row) attempted, .error x⟩] ∧
              StagesEntered env rows [⟨.scanShadow (env.info row) attempted, .error x⟩] :=
            ⟨by simp [RecordsFreezes], by simp [StagesEntered]⟩
          exact hS.append _ _ hleft (hS.append [_] _ hscan (leaves_fail hS _ t₂ e h₂ hne))
        | ok found =>
          obtain ⟨-, t₃, rfl, h₃⟩ := Runs.replied h₂ hne
          obtain rfl : t₃ = [] := by
            cases h₃ with
            | cut => exact absurd rfl hne
            | ret => rfl
          refine ⟨gathers_recordsFreezes.append _ _ hrecords (by simp [RecordsFreezes]), ?_⟩
          intro ids' hids' id hid
          have heq : ids' = verifyPartitionsStaged found attempted := by
            rcases List.mem_append.mp hids' with h | h
            · exact absurd h (hnone ids')
            · simpa using h
          rw [heq, verifyPartitionsStaged, List.mem_filter, decide_eq_true_eq] at hid
          exact ⟨row, hrow, List.mem_append_left _ (hfrozen attempted rfl id hid.1), attempted, found,
            List.mem_append_right _ List.mem_cons_self, hid⟩
    · exact leaves_freezePartitions _ _ t _ h₁ (by simp)

theorem leaves_freezeTask (hrow : row ∈ rows) :
    Leaves (fun t => RecordsFreezes t ∧ StagesEntered env rows t) (freezeTask env row) := by
  have hS := gathers_recordsFreezes.and (@gathers_stagesEntered env rows)
  refine (leaves_freezeTable hrow).bind hS fun frozen => ?_
  split_ifs
  · exact leaves_ret hS _
  · refine leaves_perform hS (fun r => ⟨by simp [RecordsFreezes], by simp [StagesEntered]⟩) fun r => ?_
    cases r with
    | ok table => exact leaves_ret hS _
    | error e => exact leaves_fail hS _

/-- What the tasks leave behind, however they are interleaved. -/
theorem leaves_tasks (schedule : List Nat) (rows : List (Str × Str)) :
    Leaves (fun t => RecordsFreezes t ∧ StagesEntered env rows t)
      (par schedule (rows.map fun row => (freezeTask env row).attempt) :
        FreezeProg (List (Except CreateError (Option (Str × TableManifest))))) := by
  refine Leaves.par (gathers_recordsFreezes.and gathers_stagesEntered) fun p hp => ?_
  obtain ⟨row, hrow, rfl⟩ := List.mem_map.mp hp
  exact (leaves_freezeTask hrow).attempt

end Tasks

/-! ## What the world keeps -/

section Worlds

variable {s : FreezeState} {t : List FreezeEvent} {info : FreezeInfo} {id : Str}

/-- The calls of the tasks. -/
def FreezeCall.isTask : FreezeCall → Bool
  | .queryDistinctPartitions _ _ | .freeze _ _ | .recordFreeze _ | .scanShadow _ _ | .addStaged _ | .collectTable _ => true
  | _ => false

/-- The calls that change the record. -/
def FreezeCall.writesRecord : FreezeCall → Bool
  | .publish _ | .deleteRecord | .retainFailed _ => true
  | _ => false

theorem mem_addInfo {x : FreezeInfo} {infos : List FreezeInfo} : x ∈ addInfo info infos ↔ x = info ∨ x ∈ infos := by
  rw [addInfo]
  split_ifs with h
  · refine ⟨.inr, ?_⟩
    rintro (rfl | hx)
    · exact h
    · exact hx
  · simp [or_comm]

/-- What one call of a task adds. -/
theorem next_task (s : FreezeState) (info : FreezeInfo) (id : Str) {c : FreezeCall} (r : c.Reply)
    (hc : c.isTask = true) :
    (info ∈ (s.next ⟨c, r⟩).frozen →
      info ∈ s.frozen ∨ ∃ partitionId, (⟨c, r⟩ : FreezeEvent) = ⟨.freeze info partitionId, .ok ()⟩) ∧
    (info ∈ s.frozenSoFar ∨ (⟨c, r⟩ : FreezeEvent) = ⟨.recordFreeze info, ()⟩ → info ∈ (s.next ⟨c, r⟩).frozenSoFar) ∧
    (id ∈ (s.next ⟨c, r⟩).stagedIds →
      id ∈ s.stagedIds ∨ ∃ ids, (⟨c, r⟩ : FreezeEvent) = ⟨.addStaged ids, ()⟩ ∧ id ∈ ids) ∧
    (s.next ⟨c, r⟩).record = s.record := by
  cases c with
  | queryDistinctPartitions d t => exact ⟨.inl, by simp [FreezeState.next], .inl, rfl⟩
  | freeze info' partitionId =>
    cases r with
    | ok u =>
      refine ⟨fun h => ?_, by simp [FreezeState.next], .inl, rfl⟩
      rcases mem_addInfo.mp h with rfl | h
      · exact .inr ⟨partitionId, rfl⟩
      · exact .inl h
    | error e => exact ⟨.inl, by simp [FreezeState.next], .inl, rfl⟩
  | recordFreeze info' =>
    refine ⟨.inl, fun h => mem_addInfo.mpr ?_, .inl, rfl⟩
    rcases h with h | h
    · exact .inr h
    · cases h
      exact .inl rfl
  | scanShadow info' requested => exact ⟨.inl, by simp [FreezeState.next], .inl, rfl⟩
  | addStaged ids =>
    refine ⟨.inl, by simp [FreezeState.next], fun h => ?_, rfl⟩
    rcases List.mem_append.mp h with h | h
    · exact .inl h
    · exact .inr ⟨ids, rfl, h⟩
  | collectTable info' => exact ⟨.inl, by simp [FreezeState.next], .inl, rfl⟩
  | _ => cases hc

/-- What the calls of the tasks add. -/
theorem after_tasks (s : FreezeState) (info : FreezeInfo) (id : Str) (ht : ∀ ev ∈ t, ev.1.isTask = true) :
    (info ∈ (freezeWorld.after s t).frozen →
      info ∈ s.frozen ∨ ∃ partitionId, ⟨.freeze info partitionId, .ok ()⟩ ∈ t) ∧
    (info ∈ s.frozenSoFar ∨ ⟨.recordFreeze info, ()⟩ ∈ t → info ∈ (freezeWorld.after s t).frozenSoFar) ∧
    (id ∈ (freezeWorld.after s t).stagedIds →
      id ∈ s.stagedIds ∨ ∃ ids, ⟨.addStaged ids, ()⟩ ∈ t ∧ id ∈ ids) ∧
    (freezeWorld.after s t).record = s.record := by
  induction t generalizing s with
  | nil => simp
  | cons ev t ih =>
    obtain ⟨c, r⟩ := ev
    obtain ⟨hfrozen, hsofar, hstaged, hrecord⟩ := next_task s info id r (ht _ List.mem_cons_self)
    obtain ⟨ihfrozen, ihsofar, ihstaged, ihrecord⟩ := ih (s.next ⟨c, r⟩) fun ev hev =>
      ht ev (List.mem_cons_of_mem _ hev)
    refine ⟨fun h => ?_, fun h => ?_, fun h => ?_, ihrecord.trans hrecord⟩
    · rcases ihfrozen h with h | ⟨partitionId, h⟩
      · rcases hfrozen h with h | ⟨partitionId, h⟩
        · exact .inl h
        · exact .inr ⟨partitionId, h ▸ List.mem_cons_self⟩
      · exact .inr ⟨partitionId, List.mem_cons_of_mem _ h⟩
    · rcases h with h | h
      · exact ihsofar (.inl (hsofar (.inl h)))
      · rcases List.mem_cons.mp h with h | h
        · exact ihsofar (.inl (hsofar (.inr h.symm)))
        · exact ihsofar (.inr h)
    · rcases ihstaged h with h | ⟨ids, h, hid⟩
      · rcases hstaged h with h | ⟨ids, h, hid⟩
        · exact .inl h
        · exact .inr ⟨ids, h ▸ List.mem_cons_self, hid⟩
      · exact .inr ⟨ids, List.mem_cons_of_mem _ h, hid⟩

/-- Once the tasks are over nothing more is frozen, and what is unfrozen stays so. -/
theorem frozen_after_release (ht : ∀ ev ∈ t, ev.1.isTask = false) (hinfo : info ∈ (freezeWorld.after s t).frozen) :
    info ∈ s.frozen ∧ ⟨.unfreeze info, true⟩ ∉ t := by
  induction t generalizing s with
  | nil => exact ⟨hinfo, List.not_mem_nil⟩
  | cons ev t ih =>
    obtain ⟨c, r⟩ := ev
    obtain ⟨hnext, hnot⟩ := ih (s := s.next ⟨c, r⟩) (fun ev hev => ht ev (List.mem_cons_of_mem _ hev)) hinfo
    have hc := ht _ List.mem_cons_self
    have hstep : info ∈ s.frozen ∧ (⟨.unfreeze info, true⟩ : FreezeEvent) ≠ ⟨c, r⟩ := by
      cases c with
      | unfreeze info' =>
        cases r with
        | true =>
          obtain ⟨hmem, hne⟩ := List.mem_filter.mp hnext
          refine ⟨hmem, fun h => ?_⟩
          cases h
          simp at hne
        | false => exact ⟨hnext, fun h => by cases h⟩
      | publish retained => cases r <;> exact ⟨hnext, fun h => by cases h⟩
      | deleteRecord => cases r <;> exact ⟨hnext, fun h => by cases h⟩
      | retainFailed failed => cases r <;> exact ⟨hnext, fun h => by cases h⟩
      | drainFrozen => exact ⟨hnext, fun h => by cases h⟩
      | readStaged => exact ⟨hnext, fun h => by cases h⟩
      | cleanUp => exact ⟨hnext, fun h => by cases h⟩
      | tail => exact ⟨hnext, fun h => by cases h⟩
      | demote => exact ⟨hnext, fun h => by cases h⟩
      | _ => cases hc
    exact ⟨hstep.1, fun h => (List.mem_cons.mp h).elim hstep.2 hnot⟩

/-- The record stays as it is until it is written. -/
theorem record_after (ht : ∀ ev ∈ t, ev.1.writesRecord = false) : (freezeWorld.after s t).record = s.record := by
  induction t generalizing s with
  | nil => rfl
  | cons ev t ih =>
    obtain ⟨c, r⟩ := ev
    have hc := ht _ List.mem_cons_self
    refine (ih (s := s.next ⟨c, r⟩) fun ev hev => ht ev (List.mem_cons_of_mem _ hev)).trans ?_
    cases c with
    | freeze info' partitionId => cases r <;> rfl
    | unfreeze info' => cases r <;> rfl
    | publish retained => cases hc
    | deleteRecord => cases hc
    | retainFailed failed => cases hc
    | _ => rfl

end Worlds

/-! ## After the tasks -/

section AfterTasks

variable {env : FreezeEnv} {tables : SortedMap Str TableManifest} {infos retained : List FreezeInfo}
variable {info : FreezeInfo} {t : List FreezeEvent} {e : End CreateError Unit}
variable {results : List (Except CreateError (Option (Str × TableManifest)))}

/-- Somebody has tried to unfreeze the table, or it is in the record that a create leaves. -/
def SettledIn (info : FreezeInfo) (t : List FreezeEvent) (e : End CreateError Unit) : Prop :=
  (∃ released, ⟨.unfreeze info, released⟩ ∈ t) ∨
    e = .returned () ∧ ∃ retained t₁ t₂, t = t₁ ++ ⟨.publish retained, true⟩ :: t₂ ∧ info ∈ retained ∧
      ∀ ev ∈ t₂, ev.1.writesRecord = false

theorem SettledIn.append_left (h : SettledIn info t e) (u : List FreezeEvent) : SettledIn info (u ++ t) e := by
  rcases h with ⟨released, h⟩ | ⟨rfl, retained, t₁, t₂, rfl, hmem, hlast⟩
  · exact .inl ⟨released, List.mem_append_right _ h⟩
  · exact .inr ⟨rfl, retained, u ++ t₁, t₂, by simp, hmem, hlast⟩

theorem within_unfreezeAll (infos : List FreezeInfo) :
    Within (fun c => ∃ info, c = FreezeCall.unfreeze info) (fun _ => True) (unfreezeAll infos) := by
  induction infos with
  | nil => exact within_ret trivial
  | cons info infos ih => exact within_perform ⟨info, rfl⟩ fun r => ih.bind fun _ _ => within_ret trivial

/-- Every table is unfrozen, or that was tried. -/
theorem runs_unfreezeAll {e : End CreateError (List FreezeInfo)} (h : Runs (unfreezeAll infos) t e) (hend : e ≠ .cut) :
    (∃ failed, e = .returned failed) ∧ ∀ info ∈ infos, ∃ released, ⟨.unfreeze info, released⟩ ∈ t := by
  induction infos generalizing t e with
  | nil =>
    cases h with
    | cut => exact absurd rfl hend
    | ret => exact ⟨⟨[], rfl⟩, by simp⟩
  | cons info infos ih =>
    obtain ⟨released, t', rfl, h'⟩ := h.replied hend
    rcases Runs.parted h' hend with ⟨failed, t₁, t₂, rfl, h₁, h₂⟩ | ⟨x, rfl, h₁⟩
    · obtain ⟨-, hrest⟩ := ih h₁ (by simp)
      have hreturned : ∃ failed, e = .returned failed := by
        cases h₂ with
        | cut => exact absurd rfl hend
        | ret => exact ⟨_, rfl⟩
      refine ⟨hreturned, fun x hx => ?_⟩
      rcases List.mem_cons.mp hx with rfl | hx
      · exact ⟨released, List.mem_cons_self⟩
      · obtain ⟨released', h⟩ := hrest x hx
        exact ⟨released', List.mem_cons_of_mem _ (List.mem_append_left _ h)⟩
    · obtain ⟨⟨failed, hfailed⟩, -⟩ := ih h₁ (by simp)
      cases hfailed

/-- A create that ends with an error has tried to unfreeze every table. -/
theorem runs_abandon {x : CreateError} (h : Runs (abandon infos x) t e) (hend : e ≠ .cut) (hinfo : info ∈ infos) :
    SettledIn info t e := by
  rcases Runs.parted h hend with ⟨failed, t₁, t₂, rfl, h₁, -⟩ | ⟨y, rfl, h₁⟩
  · obtain ⟨released, hmem⟩ := (runs_unfreezeAll h₁ (by simp)).2 info hinfo
    exact .inl ⟨released, List.mem_append_left _ hmem⟩
  · obtain ⟨⟨failed, hfailed⟩, -⟩ := runs_unfreezeAll h₁ (by simp)
    cases hfailed

/-- The end of `create` keeps the record, or tries to unfreeze what is in it. -/
theorem runs_finishCreate (h : Runs (finishCreate retained true) t e) (hend : e ≠ .cut) :
    (∀ info ∈ retained, ∃ released, ⟨.unfreeze info, released⟩ ∈ t) ∨
      e = .returned () ∧ ∀ ev ∈ t, ev.1.writesRecord = false := by
  obtain ⟨result, t', rfl, h₁⟩ := h.replied hend
  cases result with
  | ok u =>
    obtain ⟨-, t'', rfl, h₂⟩ := Runs.replied h₁ hend
    cases h₂ with
    | cut => exact absurd rfl hend
    | ret => exact .inr ⟨rfl, by simp [FreezeCall.writesRecord]⟩
  | error x =>
    refine .inl fun info hinfo => ?_
    rcases Runs.parted (h₁ : Runs ((unfreezeAll retained).bind _) t' e) hend with ⟨failed, t₁, t₂, rfl, h₂, -⟩ | ⟨y, rfl, h₂⟩
    · obtain ⟨released, hmem⟩ := (runs_unfreezeAll h₂ (by simp)).2 info hinfo
      exact ⟨released, List.mem_cons_of_mem _ (List.mem_append_left _ hmem)⟩
    · obtain ⟨⟨failed, hfailed⟩, -⟩ := runs_unfreezeAll h₂ (by simp)
      cases hfailed

theorem mem_retained_or_released (env : FreezeEnv) (tables : SortedMap Str TableManifest) (hinfo : info ∈ infos) :
    info ∈ retainedInfos env tables infos ∨ info ∈ releasedInfos env tables infos := by
  rw [retainedInfos, releasedInfos]
  split_ifs
  · by_cases h : info.database ++ '.' :: info.table ∈ tablesWithS3Parts tables
    · exact .inl (by simp [hinfo, h])
    · exact .inr (by simp [hinfo, h])
  · exact .inr hinfo

theorem runs_holdAndRelease (h : Runs (holdAndRelease env tables infos) t e) (hend : e ≠ .cut) (hinfo : info ∈ infos) :
    SettledIn info t e := by
  have hsplit := mem_retained_or_released env tables hinfo
  rcases Runs.parted h hend with ⟨published, t₁, t', rfl, h₁, h'⟩ | ⟨x, rfl, h₁⟩
  · rcases Runs.parted h' hend with ⟨failed, t₂, t₃, rfl, h₂, h₃⟩ | ⟨x, rfl, h₂⟩
    · have hreleased := (runs_unfreezeAll h₂ (by simp)).2 info
      cases published with
      | false =>
        obtain ⟨released, hmem⟩ := hreleased (by
          rw [if_neg Bool.false_ne_true, List.mem_append]
          exact hsplit.symm)
        exact .inl ⟨released, by simp [hmem]⟩
      | true =>
        rcases hsplit with hretained | hin
        · -- only a reply of `publish` says that the record is written
          obtain rfl : t₁ = [⟨.publish (retainedInfos env tables infos), true⟩] := by
            rw [publishRetained] at h₁
            split_ifs at h₁
            · cases h₁
            · obtain ⟨r, t', rfl, h₄⟩ := h₁.replied (by simp)
              cases h₄
              rfl
          rcases runs_finishCreate h₃ hend with htried | ⟨rfl, hkept⟩
          · obtain ⟨released, hmem⟩ := htried info hretained
            exact .inl ⟨released, by simp [hmem]⟩
          · refine .inr ⟨rfl, _, [], t₂ ++ t₃, rfl, hretained, fun ev hev => ?_⟩
            rcases List.mem_append.mp hev with hev | hev
            · obtain ⟨info', heq⟩ := ((within_unfreezeAll _).runs h₂).1 ev hev
              rw [heq]
              rfl
            · exact hkept ev hev
        · obtain ⟨released, hmem⟩ := hreleased (by rwa [if_pos rfl])
          exact .inl ⟨released, by simp [hmem]⟩
    · obtain ⟨⟨failed, hfailed⟩, -⟩ := runs_unfreezeAll h₂ (by simp)
      cases hfailed
  · rw [publishRetained] at h₁
    split_ifs at h₁
    · cases h₁
    · obtain ⟨r, t', rfl, h₂⟩ := h₁.replied (by simp)
      cases h₂

theorem runs_afterTasks (h : Runs (afterTasks env tables results) t e) (hend : e ≠ .cut) :
    ∃ infos t', t = ⟨.drainFrozen, infos⟩ :: t' ∧ ∀ info ∈ infos, SettledIn info t e := by
  obtain ⟨infos, t', rfl, h₁⟩ := h.replied hend
  refine ⟨infos, t', rfl, fun info hinfo => ?_⟩
  suffices SettledIn info t' e from this.append_left [_]
  cases hfirst : firstError results with
  | some x =>
    simp only [hfirst] at h₁
    exact runs_abandon h₁ hend hinfo
  | none =>
    simp only [hfirst] at h₁
    rcases Runs.parted h₁ hend with ⟨unmatched, t₁, t₂, rfl, -, h₂⟩ | ⟨x, rfl, h₂⟩
    · cases unmatched with
      | some x => exact (runs_abandon h₂ hend hinfo).append_left t₁
      | none => exact (runs_holdAndRelease h₂ hend hinfo).append_left t₁
    · rw [checkPartitions] at h₂
      split at h₂
      · obtain ⟨r, t'', rfl, h₃⟩ := h₂.replied (by simp)
        cases h₃
      · cases h₂

end AfterTasks

/-! ## Which calls are made -/

section Calls

variable {env : FreezeEnv} {tables : SortedMap Str TableManifest}

theorem within_freezeAndRecord (info : FreezeInfo) (partitionId : Option Str) :
    Within (fun c => c.isTask = true) (fun _ => True) (freezeAndRecord env info partitionId) := by
  refine within_perform rfl fun r => ?_
  cases r with
  | ok u => exact within_perform rfl fun _ => within_ret trivial
  | error e =>
    dsimp only
    split_ifs
    · exact within_ret trivial
    · exact within_fail _

theorem within_freezePartitions (info : FreezeInfo) (ids : List Str) :
    Within (fun c => c.isTask = true) (fun _ => True) (freezePartitions env info ids) := by
  induction ids with
  | nil => exact within_ret trivial
  | cons id ids ih => exact (within_freezeAndRecord _ _).bind fun _ _ => ih.bind fun _ _ => within_ret trivial

theorem within_effectivePartitions (row : Str × Str) :
    Within (fun c => c.isTask = true) (fun _ => True) (effectivePartitions env row) := by
  rw [effectivePartitions]
  split
  · exact within_ret trivial
  · exact within_ret trivial
  · split_ifs
    · refine within_perform rfl fun r => ?_
      cases r with
      | ok ids => exact within_ret trivial
      | error e => exact within_ret trivial
    · exact within_ret trivial

theorem within_freezeTask (row : Str × Str) :
    Within (fun c => c.isTask = true) (fun _ => True) (freezeTask env row) := by
  have htable : Within (fun c => c.isTask = true) (fun _ => True) (freezeTable env row) := by
    refine (within_effectivePartitions row).bind fun ids _ => ?_
    split_ifs
    · exact within_freezeAndRecord _ _
    · refine (within_freezePartitions _ _).bind fun attempted _ => ?_
      split_ifs
      · exact within_ret trivial
      · refine within_perform rfl fun r => ?_
        cases r with
        | ok found => exact within_perform rfl fun _ => within_ret trivial
        | error e => exact within_fail _
  refine htable.bind fun frozen _ => ?_
  split_ifs
  · exact within_ret trivial
  · refine within_perform rfl fun r => ?_
    cases r with
    | ok table => exact within_ret trivial
    | error e => exact within_fail _

theorem within_tasks (schedule : List Nat) (rows : List (Str × Str)) :
    Within (fun c => c.isTask = true) (fun _ => True)
      (par schedule (rows.map fun row => (freezeTask env row).attempt) :
        FreezeProg (List (Except CreateError (Option (Str × TableManifest))))) := by
  have htasks : List.Forall₂ (fun _ p => Within (fun c => FreezeCall.isTask c = true) (fun _ => True) p) rows
      (rows.map fun row => ((freezeTask env row).attempt :
        Prog FreezeCall FreezeCall.Reply Empty (Except CreateError (Option (Str × TableManifest))))) :=
    List.forall₂_map_right_iff.mpr (List.forall₂_same.mpr fun row _ =>
      (within_freezeTask row).attempt.imp fun _ _ => trivial)
  exact (within_par htasks).imp fun _ _ => trivial

theorem within_unfreezeAll_released (infos : List FreezeInfo) :
    Within (fun c => c.isTask = false) (fun _ => True) (unfreezeAll infos) := by
  refine (within_unfreezeAll infos).weaken ?_
  rintro c ⟨info, rfl⟩
  rfl

theorem within_abandon (infos : List FreezeInfo) (e : CreateError) :
    Within (fun c => c.isTask = false) (fun _ => True) (abandon infos e) :=
  (within_unfreezeAll_released infos).bind fun _ _ => within_perform rfl fun _ => within_fail _

theorem within_holdAndRelease (infos : List FreezeInfo) :
    Within (fun c => c.isTask = false) (fun _ => True) (holdAndRelease env tables infos) := by
  have hpublish : Within (fun c => c.isTask = false) (fun _ => True)
      (publishRetained (retainedInfos env tables infos)) := by
    rw [publishRetained]
    split_ifs
    · exact within_ret trivial
    · exact within_perform rfl fun _ => within_ret trivial
  refine hpublish.bind fun published _ => (within_unfreezeAll_released _).bind fun _ _ => ?_
  refine within_perform rfl fun r => ?_
  cases r with
  | ok u =>
    dsimp only
    split_ifs
    · exact within_perform rfl fun _ => within_ret trivial
    · exact within_ret trivial
  | error e =>
    dsimp only
    split_ifs
    · refine (within_unfreezeAll_released _).bind fun failed _ => ?_
      split_ifs
      · exact within_perform rfl fun _ => within_fail _
      · exact within_perform rfl fun _ => within_fail _
    · exact within_fail _

theorem within_afterTasks (results : List (Except CreateError (Option (Str × TableManifest)))) :
    Within (fun c => c.isTask = false) (fun _ => True) (afterTasks env tables results) := by
  refine within_perform rfl fun infos => ?_
  cases hfirst : firstError results with
  | some e =>
    dsimp only
    exact within_abandon _ _
  | none =>
    dsimp only
    have hcheck : Within (fun c => c.isTask = false) (fun _ => True) (checkPartitions env) := by
      rw [checkPartitions]
      split
      · exact within_perform rfl fun _ => within_ret trivial
      · exact within_ret trivial
    refine hcheck.bind fun unmatched _ => ?_
    cases unmatched with
    | some e => exact within_abandon _ _
    | none => exact within_holdAndRelease _

end Calls

/-! ## Results -/

/-- **A create knows of every table that it leaves frozen.**  However the tasks are interleaved and
whatever fails: a table that is still frozen when `create` has come to its end either could not be
unfrozen, or `create` has succeeded and the table is in the record. -/
theorem create_tracks_freezes {env : FreezeEnv} {schedule : List Nat} {tables : SortedMap Str TableManifest}
    {rows : List (Str × Str)} {t : List FreezeEvent} {e : End CreateError Unit} {info : FreezeInfo}
    (hrun : Runs (createFrozen env schedule tables rows) t e) (hlegal : freezeWorld.Legal .start t) (hend : e ≠ .cut)
    (hfrozen : info ∈ (freezeWorld.after .start t).frozen) :
    ⟨.unfreeze info, false⟩ ∈ t ∨
      e = .returned () ∧ ∃ retained, (freezeWorld.after .start t).record = some retained ∧ info ∈ retained := by
  rcases Runs.parted hrun hend with ⟨results, t₁, t₂, rfl, h₁, h₂⟩ | ⟨x, rfl, h₁⟩
  · obtain ⟨infos, t₃, rfl, hsettled⟩ := runs_afterTasks h₂ hend
    obtain ⟨-, hdrain, -⟩ := World.legal_append.mp hlegal
    have htasks := ((within_tasks schedule rows).runs h₁).1
    have hrest := ((within_afterTasks results).runs h₂).1
    rw [World.after_append] at hfrozen ⊢
    obtain ⟨hmid, hnot⟩ := frozen_after_release hrest hfrozen
    -- what the tasks froze they entered, and the list has been taken as it was
    obtain ⟨hadded, -⟩ := after_tasks .start info [] htasks
    obtain ⟨partitionId, hfreeze⟩ := (hadded hmid).resolve_left List.not_mem_nil
    have hrecorded := (leaves_tasks schedule rows t₁ _ h₁ (by simp)).1 info partitionId hfreeze
    have hinfo : info ∈ infos := by
      obtain ⟨-, hentered, -⟩ := after_tasks .start info [] htasks
      rw [show infos = (freezeWorld.after .start t₁).frozenSoFar from hdrain]
      exact hentered (.inr hrecorded)
    rcases hsettled info hinfo with ⟨released, hmem⟩ | ⟨rfl, retained, u₁, u₂, heq, hmem, hlast⟩
    · cases released with
      | false => exact .inl (List.mem_append_right _ hmem)
      | true => exact absurd hmem hnot
    · refine .inr ⟨rfl, retained, ?_, hmem⟩
      rw [heq, World.after_append, World.after_cons]
      exact record_after hlast
  · exact absurd h₁ not_failed_par

/-- A partition of two tables is backed up, of which the first lies on an object disk. -/
def twoTables : FreezeEnv := ⟨"a", .ids ["p"], false, true, false, true⟩

/-- The table on the object disk. -/
def objectTable : TableManifest where
  ddl := []
  uuid := none
  engine := []
  totalBytes := 1
  parts := SortedMap.empty.insert "s3" [⟨"p_1_1_0", 1, [], "uploaded", 0, some [⟨"k", 1, "k"⟩], 0⟩]
  pendingMutations := []
  metadataOnly := false
  dependencies := []

/-- Everything succeeds. -/
def twoTablesReply : (c : FreezeCall) → c.Reply
  | .queryDistinctPartitions _ _ => .ok []
  | .freeze _ _ => .ok ()
  | .recordFreeze _ => ()
  | .scanShadow _ requested => .ok requested
  | .addStaged _ => ()
  | .collectTable info => .ok (if info.table = ("t" : Str) then objectTable else { objectTable with parts := .empty })
  | .drainFrozen => [twoTables.info ("db", "t"), twoTables.info ("db", "u")]
  | .readStaged => ["p", "p"]
  | .unfreeze _ => true
  | .cleanUp => ()
  | .publish _ => true
  | .tail => .ok ()
  | .demote => ()
  | .deleteRecord => true
  | .retainFailed _ => true

/-- Both tasks freeze before either goes on. -/
def createTwoTables : FreezeProg Unit := createFrozen twoTables [0, 1] .empty [("db", "t"), ("db", "u")]

instance (s : FreezeState) (ev : FreezeEvent) : Decidable (freezeWorld.allows s ev) :=
  match ev with
  | ⟨.drainFrozen, (infos : List FreezeInfo)⟩ => inferInstanceAs (Decidable (infos = s.frozenSoFar))
  | ⟨.readStaged, (ids : List Str)⟩ => inferInstanceAs (Decidable (ids = s.stagedIds))
  | ⟨.queryDistinctPartitions _ _, _⟩ | ⟨.freeze _ _, _⟩ | ⟨.recordFreeze _, _⟩ | ⟨.scanShadow _ _, _⟩
  | ⟨.addStaged _, _⟩ | ⟨.collectTable _, _⟩ | ⟨.unfreeze _, _⟩ | ⟨.cleanUp, _⟩ | ⟨.publish _, _⟩ | ⟨.tail, _⟩
  | ⟨.demote, _⟩ | ⟨.deleteRecord, _⟩ | ⟨.retainFailed _, _⟩ => inferInstanceAs (Decidable True)

theorem legal_twoTables : freezeWorld.Legal .start (traceOn twoTablesReply createTwoTables) := by decide +kernel

/-- The one table stays frozen, and is in the record. -/
theorem twoTables_tracked :
    ⟨.unfreeze (twoTables.info ("db", "t")), false⟩ ∈ traceOn twoTablesReply createTwoTables ∨
      endOn twoTablesReply createTwoTables = .returned () ∧
        ∃ retained, (freezeWorld.after .start (traceOn twoTablesReply createTwoTables)).record = some retained ∧
          twoTables.info ("db", "t") ∈ retained :=
  create_tracks_freezes (runs_on twoTablesReply createTwoTables) legal_twoTables (by decide +kernel) (by decide +kernel)

/-- **A backup of chosen partitions has a part of each.**  If `create` succeeds and empty backups are not
allowed, then each partition that was asked for was frozen in some table, in whose shadow directory a part
was found that bears its name. -/
theorem explicit_partitions_staged {env : FreezeEnv} {schedule : List Nat} {tables : SortedMap Str TableManifest}
    {rows : List (Str × Str)} {t : List FreezeEvent} {requested : List Str} {id : Str}
    (hspec : env.partitionSpec = .ids requested) (hstrict : env.allowEmptyBackups = false)
    (hrun : Runs (createFrozen env schedule tables rows) t (.returned ())) (hlegal : freezeWorld.Legal .start t)
    (hid : id ∈ requested) : StagedIn env rows t id := by
  obtain ⟨results, t₁, t₂, rfl, h₁, h₂⟩ := hrun.returned_of_bind
  obtain ⟨infos, t₃, rfl, h₃⟩ := h₂.replied (by simp)
  cases hfirst : firstError results with
  | some x =>
    simp only [hfirst] at h₃
    obtain ⟨failed, u₁, u₂, rfl, -, h₄⟩ := h₃.returned_of_bind
    obtain ⟨-, u₃, rfl, h₅⟩ := h₄.replied (by simp)
    cases h₅
  | none =>
    simp only [hfirst] at h₃
    obtain ⟨unmatched, u₁, u₂, rfl, h₄, h₅⟩ := h₃.returned_of_bind
    rw [checkPartitions, hspec] at h₄
    obtain ⟨staged, u₃, rfl, h₆⟩ := h₄.replied (by simp)
    cases h₆
    obtain ⟨-, -, hread, -⟩ := World.legal_append.mp hlegal
    have hstaged : staged = (freezeWorld.after .start t₁).stagedIds := hread
    have hmem : id ∈ staged := by
      by_contra hnot
      have hunmatched : unmatchedExplicitPartitions requested staged ≠ [] :=
        List.ne_nil_of_mem (List.mem_filter.mpr ⟨hid, by simpa using hnot⟩)
      rw [if_neg (by simp [hunmatched, hstrict])] at h₅
      obtain ⟨failed, u₁, u₂, -, -, h₇⟩ := Runs.returned_of_bind h₅
      obtain ⟨-, u₃, -, h₈⟩ := h₇.replied (by simp)
      cases h₈
    rw [hstaged] at hmem
    obtain ⟨-, -, hentered, -⟩ := after_tasks .start ⟨[], [], []⟩ id ((within_tasks schedule rows).runs h₁).1
    obtain ⟨ids, hadd, hin⟩ := (hentered hmem).resolve_left List.not_mem_nil
    have hevidence := (leaves_tasks schedule rows t₁ _ h₁ (by simp)).2 ids hadd id hin
    exact hevidence.mono (List.subset_append_left _ _)

/-- The partition was staged. -/
theorem twoTables_staged :
    StagedIn twoTables [("db", "t"), ("db", "u")] (traceOn twoTablesReply createTwoTables) "p" :=
  have hrun : Runs (createFrozen twoTables [0, 1] .empty [("db", "t"), ("db", "u")])
      (traceOn twoTablesReply createTwoTables) (.returned ()) := runs_on twoTablesReply createTwoTables
  explicit_partitions_staged rfl rfl hrun legal_twoTables List.mem_cons_self

end Chbackup
