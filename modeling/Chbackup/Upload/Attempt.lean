import Chbackup.Upload.Plan

/-!
# One upload attempt

`upload_inner` (`src/upload/mod.rs`) as a step on what an attempt leaves behind: the local
manifest, the resume state file, the stored archives and objects, and the published manifest.

An attempt is at the mercy of its surroundings.  Its fate says in which order its tasks end and
how, which writes of the state file succeed, and which later step fails; a process that dies has
the effects of an attempt whose next step fails, so every interruption is a fate.
-/

namespace Chbackup

/-- How one upload task ends.  A task that has completed records its key in the resume state,
and `saved` says whether the state file could be written. -/
inductive TaskEnd where
  | done (saved : Bool)
  | failed (e : Str)
  | cancelled
  deriving DecidableEq

/-- What the surroundings do to one attempt. -/
structure UploadFate where
  /-- Saving the manifest after the diff fails. -/
  saveDiff : Option Str
  /-- The tasks, by position in the plan, in the order in which they end.  A task that is not
  listed never ended. -/
  schedule : List (Nat × TaskEnd)
  nodup : (schedule.map Prod.fst).Nodup
  /-- The cancellation token has fired by the time the tasks are joined. -/
  cancelled : Bool
  /-- Uploading the `access/` and `configs/` directories fails. -/
  directories : Option Str
  /-- Writing the manifest to its temporary key, or copying it to its final one, fails. -/
  publish : Option Str
  /-- Saving the manifest locally fails. -/
  saveManifest : Option Str
  /-- The state file could be removed. -/
  stateRemoved : Bool
  /-- The attempt still fails, or the process dies, after the manifest was saved locally. -/
  afterwards : Option Str

/-- What the attempts of one upload leave behind. -/
structure UploadWorld where
  localManifest : Option BackupManifest
  stateFile : StateFile UploadState
  /-- The keys written so far, each with the size recorded for it. -/
  stored : List (Str × Nat)
  published : Option BackupManifest

/-- `UploadStats`, without the time. -/
structure UploadStats where
  uploadedCount : Nat
  carriedCount : Nat
  uploadedBytes : Nat
  deriving DecidableEq

/-- The world after `create`. -/
def UploadWorld.created (m : BackupManifest) : UploadWorld := ⟨some m, .absent, [], none⟩

section

variable (env : UploadEnv)

/-! ## The manifest before the upload -/

/-- Live disk paths override those of the manifest, if it has an S3 disk at all. -/
def liveRemotePaths (diskTypes diskRemotePaths : SortedMap Str Str) : SortedMap Str Str :=
  if diskTypes.values.any isS3Disk then
    match env.liveDiskPaths with
    | some paths =>
      (paths.filter fun p => p.2 ≠ []).foldl (fun acc p => acc.insert p.1 p.2) diskRemotePaths
    | none => diskRemotePaths
  else diskRemotePaths

/-- The manifest with the live disk paths. -/
def overrideDiskPaths (m : BackupManifest) : BackupManifest :=
  { m with diskRemotePaths := liveRemotePaths env m.diskTypes m.diskRemotePaths }

/-- The manifest an attempt works on: live disk paths, then the diff against the base. -/
def prepareManifest (m : BackupManifest) : Except Str BackupManifest :=
  match env.diffFromRemote with
  | none => .ok (overrideDiskPaths env m)
  | some _ => env.baseManifest.map (diffParts (overrideDiskPaths env m))

/-- The hash that the state file of this upload carries. -/
def uploadParamsHash : Str := computeParamsHash [env.backupName, env.diffFromRemote.getD []]

/-- The keys that an attempt takes as completed: those of a readable state file of the same
backup and parameters. -/
def acceptedKeys (file : StateFile UploadState) : List Str :=
  if env.useResume then
    match loadStateFile file with
    | .ok (some state) =>
      if state.paramsHash ≠ uploadParamsHash env then []
      else if state.backupName ≠ env.backupName then []
      else state.completedKeys
    | .ok none => []
    | .error _ => []
  else []

/-! ## The tasks -/

/-- The copy of one object of an S3-disk part; an empty object has nothing to copy. -/
def copyObject (o : S3ObjectInfo) : S3ObjectInfo :=
  if o.size = 0 then ⟨o.path, 0, []⟩
  else ⟨o.path, o.size, env.backupName ++ "/objects/" ++ o.path⟩

namespace WorkItem

/-- The key under which the resume state records the item. -/
def key : WorkItem → Str
  | .archive _ _ _ _ s3Key => s3Key
  | .s3Disk tableKey diskName part _ _ _ _ => env.metadataKey tableKey diskName part.name

/-- The part as a completed task returns it. -/
def updatedPart : WorkItem → PartInfo
  | .archive _ _ part partDir s3Key =>
    { part with backupKey := s3Key, source := "uploaded", backupSize := env.archiveSize partDir }
  | .s3Disk tableKey diskName part s3Objects _ _ _ =>
    { part with
      s3Objects := some (s3Objects.map (copyObject env))
      backupKey := env.metadataKey tableKey diskName part.name
      source := "uploaded"
      backupSize := part.size }

/-- What a completed task has written: the archive, or the objects and, if the directory is
there, the metadata files below their key. -/
def writes : WorkItem → List (Str × Nat)
  | .archive _ _ _ partDir s3Key => [(s3Key, env.archiveSize partDir)]
  | .s3Disk tableKey diskName part s3Objects _ _ partDir =>
    ((s3Objects.map (copyObject env)).filter fun o => o.size ≠ 0).map
        (fun o => (o.backupKey, o.size)) ++
      if env.pathExists partDir then
        [(env.metadataKey tableKey diskName part.name, part.size)] else []

end WorkItem

/-- One task ends.  A completed one has written its keys, and records its own key in the shared
state, which is then saved if it can be. -/
def endTask (items : List WorkItem) (st : Option UploadState × UploadWorld)
    (ended : Nat × TaskEnd) : Option UploadState × UploadWorld :=
  match ended.2, items[ended.1]? with
  | .done saved, some item =>
    let w := { st.2 with stored := st.2.stored ++ item.writes env }
    match st.1 with
    | none => (none, w)
    | some state =>
      let state := { state with completedKeys := item.key env :: state.completedKeys }
      (some state, if saved then { w with stateFile := .holds state } else w)
  | _, _ => st

/-- All tasks, in the order in which they end. -/
def runTasks (items : List WorkItem) (schedule : List (Nat × TaskEnd)) (completedKeys : List Str)
    (w : UploadWorld) : UploadWorld :=
  let state : Option UploadState :=
    if env.useResume then some ⟨completedKeys, env.backupName, uploadParamsHash env⟩ else none
  (schedule.foldl (endTask env items) (state, w)).2

/-- How the task at a position ended. -/
def UploadFate.taskEnd (fate : UploadFate) (i : Nat) : TaskEnd :=
  ((fate.schedule.find? fun e => e.1 = i).map Prod.snd).getD .cancelled

/-- Why the joined tasks stop the attempt: the first failure in plan order, or a cancellation. -/
def tasksError (items : List WorkItem) (fate : UploadFate) : Option Str :=
  let ends := (List.range items.length).map fate.taskEnd
  match ends.findSome? fun | .failed e => some e | _ => none with
  | some e => some e
  | none => if fate.cancelled || ends.any (· = .cancelled) then some "upload cancelled" else none

/-! ## The published manifest -/

/-- The parts of one disk after the merge: those not uploaded in this attempt, then the
uploaded ones. -/
def mergeUploaded (uploaded parts : List PartInfo) : List PartInfo :=
  parts.filter (fun p => p.name ∉ uploaded.map PartInfo.name) ++ uploaded

/-- The uploaded parts of one disk of one table. -/
def uploadedOn (items : List WorkItem) (tableKey diskName : Str) : List PartInfo :=
  (items.filter fun i => i.tableKey = tableKey ∧ i.diskName = diskName).map
    (WorkItem.updatedPart env)

/-- The merge of the results into the manifest.  Disks without results keep their parts. -/
def mergeResults (items : List WorkItem) (m : BackupManifest) : BackupManifest :=
  { m with
    tables := m.tables.mapValues fun tableKey table =>
      { table with
        parts := table.parts.mapValues fun diskName parts =>
          mergeUploaded (uploadedOn env items tableKey diskName) parts } }

/-- The total size of the parts that this backup holds itself. -/
def totalCompressedSize (m : BackupManifest) : Nat :=
  ((m.allParts.filter fun p => !p.isCarried).map PartInfo.backupSize).sum

/-- The manifest to publish: merged parts, total size, data format. -/
def sealManifest (m : BackupManifest) : BackupManifest :=
  { m with compressedSize := totalCompressedSize m, dataFormat := env.dataFormat }

/-! ## The attempt -/

/-- The end of an attempt, once its tasks have succeeded: directories, manifest last, local
manifest, state file. -/
def finishUpload (fate : UploadFate) (items : List WorkItem) (m : BackupManifest)
    (w : UploadWorld) : Except Str UploadStats × UploadWorld :=
  let published := sealManifest env (mergeResults env items m)
  match fate.directories, fate.publish, fate.saveManifest, fate.afterwards with
  | some e, _, _, _ => (.error e, w)
  | none, some e, _, _ => (.error e, w)
  | none, none, some e, _ => (.error e, { w with published := some published })
  | none, none, none, afterwards =>
    let w := { w with published := some published, localManifest := some published }
    let w := if env.useResume && fate.stateRemoved then { w with stateFile := .absent } else w
    match afterwards with
    | some e => (.error e, w)
    | none => (.ok ⟨items.length, carriedCount m, published.compressedSize⟩, w)

/-- `upload_inner`, from the local manifest to the end. -/
def uploadAttempt (fate : UploadFate) (w : UploadWorld) : Except Str UploadStats × UploadWorld :=
  match w.localManifest with
  | none =>
    (.error ("backup '".toList ++ env.backupName ++ "' not found (no metadata.json at " ++
      env.backupDir.pathJoin "metadata.json" ++ "). Run 'create' before 'upload'."), w)
  | some loaded =>
    match prepareManifest env loaded with
    | .error e => (.error e, w)
    | .ok m =>
      match env.diffFromRemote.bind fun _ => fate.saveDiff with
      | some e => (.error e, w)
      | none =>
        let w := if env.diffFromRemote.isSome then { w with localManifest := some m } else w
        let completedKeys := acceptedKeys env w.stateFile
        match planUpload env m completedKeys with
        | .error e => (.error e, w)
        | .ok items =>
          let w := runTasks env items fate.schedule completedKeys w
          match tasksError items fate with
          | some e => (.error e, w)
          | none => finishUpload env fate items m w

/-- The world after a sequence of attempts. -/
def runAttempts (fates : List UploadFate) (w : UploadWorld) : UploadWorld :=
  fates.foldl (fun w fate => (uploadAttempt env fate w).2) w

end

end Chbackup
