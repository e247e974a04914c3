import Chbackup.Restore.Attach

/-!
# The restore

`restore` of `src/restore/mod.rs`, phase by phase: the gate on stripped projections, the
selection, the pre-flight of ATTACH TABLE mode, the DROP phase of `--rm`, databases and tables,
the data with its resume state, the mutations that were pending, the objects without data, and
the verdict.
-/

namespace Chbackup

open CallTree Prog

/-! ## Before anything is touched -/

/-- `parse_major_minor`. -/
def parseMajorMinor (version : Str) : Option (Nat × Nat) :=
  match (version.trim).splitOn '.' with
  | major :: minor :: _ => do
    let major ← Str.parseUnsigned 32 major
    let minor ← Str.parseUnsigned 32 minor
    return (major, minor)
  | _ => none

/-- `projection_gate_error`: the refusal of a backup without projections on a server that does
not tolerate their absence, which servers do from 24.3 on. -/
def projectionGateError (strippedProjections : List Str) (serverVersion : Str) (strict : Bool) :
    Option Str :=
  if !strict || strippedProjections.isEmpty then none
  else match parseMajorMinor serverVersion with
    | none => none
    | some (major, minor) =>
      if 24 < major ∨ (major = 24 ∧ 3 ≤ minor) then none
      else some ("backup was created with --skip-projections (stripped: ".toList ++
        (", ".toList).intercalate strippedProjections ++
        ") but its parts' checksums.txt still reference those projections, which ClickHouse " ++
        serverVersion ++ " rejects with FILE_DOESNT_EXIST during ATTACH; 24.3 or newer is required. Set backup.strict_projection_gate=false to attempt the restore anyway.")

namespace RestoreEnv

variable (env : RestoreEnv)

/-- The gate on stripped projections; a server whose version cannot be read passes it. -/
def projectionGate (manifest : BackupManifest) : RestoreProg Unit :=
  (perform Call.getVersion).bind fun (reply : Except Str Str) =>
    match reply with
    | .ok version =>
      match projectionGateError manifest.strippedProjections version
          env.config.strictProjectionGate with
      | some message => .fail message
      | none => .ret ()
    | .error _ => .ret ()

/-- A pattern that selects nothing. -/
def emptySelection : RestoreProg Unit :=
  match env.args.tablePattern with
  | some pattern =>
    if env.config.allowEmptyBackups then .ret ()
    else .fail ("Table filter '".toList ++ pattern ++ "' matched no tables in backup manifest")
  | none => .ret ()

/-- The hash of the parameters that decide which parts are attached. -/
def paramsHash : Str :=
  computeParamsHash [env.args.backupName, env.args.tablePattern.getD [],
    if env.args.schemaOnly then "schema" else [], if env.args.dataOnly then "data" else [],
    env.args.renameAs.getD [],
    (env.args.databaseMapping.map fun pairs =>
      [','].intercalate ((pairs.map fun pair => pair.1 ++ ':' :: pair.2).mergeSort (· ≤ ·))).getD [],
    env.args.partitions.getD [], if env.args.skipEmptyTables then "skip-empty" else []]

/-- The parts a state file records, unless it belongs to another backup or to other parameters.
A file that records no parameters is accepted. -/
def recordedParts : Except Str (Option RestoreState) → SortedMap Str (List Str)
  | .ok (some state) =>
    if state.backupName = env.args.backupName ∧
        (state.paramsHash = [] ∨ state.paramsHash = env.paramsHash) then state.attachedParts
    else SortedMap.empty
  | _ => SortedMap.empty

end RestoreEnv

namespace RestoreContext

variable (ctx : RestoreContext)

/-- The selected table keys. -/
def tableKeys : List Str := ctx.env.selectedKeys ctx.manifest

/-- The phases of the selected tables. -/
def phases : RestorePhases := classifyRestoreTables ctx.env.toUppercase ctx.manifest ctx.tableKeys

/-- The data tables the pre-flight allows. -/
def dataTables : List Str := ctx.phases.dataTables.filter fun key => !ctx.isRefused key

/-- The parts of the tables the pre-flight refuses. -/
def refusedParts : Nat := (ctx.phases.dataTables.map ctx.refusedPartsOf).sum

/-- Phase 0. -/
def dropPhase : RestoreProg Unit :=
  onlyIf (ctx.env.args.rm && !ctx.env.args.dataOnly)
    ((ctx.dropTables ctx.tableKeys).bind fun _ => ctx.dropDatabases)

/-- Phases 1 and 2. -/
def createPhase : RestoreProg Unit :=
  (onlyIf (!ctx.env.args.dataOnly) ctx.createDatabases).bind fun _ => ctx.createTables ctx.dataTables

/-- The objects without data. -/
def ddlOnlyPhase : RestoreProg Unit :=
  onlyIf (!ctx.env.args.dataOnly)
    (ctx.createDdlObjects (topologicalSort ctx.manifest.tables ctx.phases.ddlOnlyTables))

/-- One of the steps that follow the tables. -/
def extraStep (b : Bool) (what : Extra) : RestoreProg Unit :=
  onlyIf b ((perform (Call.extra what)).bind fun (reply : Except Str Unit) => orRaise reply)

/-- Functions, access rights, configuration files and the restart they need. -/
def extrasPhase : RestoreProg Unit :=
  let args := ctx.env.args
  let config := ctx.env.config
  let rbac := args.rbacRestore || config.rbacBackupAlways
  let configs := args.configsRestore || config.configBackupAlways
  let staged (dir : Str) := ctx.fate.pathExists (ctx.env.backupDir.pathJoin dir)
  (onlyIf (!args.dataOnly && args.tablePattern.isNone) ctx.createFunctions).bind fun _ =>
    (extraStep (!args.dataOnly &&
      (args.namedCollectionsRestore || config.namedCollectionsBackupAlways)) .namedCollections).bind
      fun _ => (extraStep rbac .rbac).bind fun _ => (extraStep configs .configs).bind fun _ =>
        extraStep (rbac && staged "access" || configs && staged "configs") .restart

/-! ## What is attached already -/

/-- More parts of a table. -/
def addParts (attached : SortedMap Str (List Str)) (key : Str) (parts : List Str) :
    SortedMap Str (List Str) :=
  attached.insert key ((attached.get? key).getD [] ∪ parts)

/-- The parts of a table with those the server reports of it. -/
def addReported (attached : SortedMap Str (List Str)) (r : Str × Except Str (List Str)) :
    SortedMap Str (List Str) :=
  match r.2 with
  | .ok parts => if parts = [] then attached else addParts attached r.1 parts
  | .error _ => attached

/-- Whether a table may have parts: it reports some, or it cannot be asked. -/
def mayHaveParts (r : Str × Except Str (List Str)) : Bool :=
  match r.2 with
  | .ok parts => parts ≠ []
  | .error _ => true

/-- The recorded parts with those the server reports.  A table that reports none loses what was
recorded of it; a table that cannot be asked keeps it. -/
def mergeReported (recorded : SortedMap Str (List Str))
    (reported : List (Str × Except Str (List Str))) : SortedMap Str (List Str) :=
  (reported.foldl addReported recorded).filter fun key parts =>
    key ∈ (reported.filter mayHaveParts).map Prod.fst || parts.isEmpty

/-- The parts of each table that the attempt takes for attached. -/
def loadAttached : RestoreProg (SortedMap Str (List Str)) :=
  if ctx.env.args.resume then
    (perform Call.loadState).bind fun (loaded : Except Str (Option RestoreState)) =>
      (forEach ctx.dataTables fun key =>
        let db := (destination ctx.remap key).1
        let table := (destination ctx.remap key).2
        (perform (Call.querySystemParts key db table)).bind fun (reply : Except Str (List Str)) =>
          .ret (key, reply)).bind fun reported =>
        .ret (mergeReported (ctx.env.recordedParts loaded) reported)
  else .ret SortedMap.empty

/-! ## The tables with data -/

/-- `get_table_data_path`. -/
def getTableDataPath (dataPaths : List Str) (config db table : Str) : Str :=
  match dataPaths with
  | first :: _ => if first ≠ [] then first else ((config.pathJoin "data").pathJoin db).pathJoin table
  | [] => ((config.pathJoin "data").pathJoin db).pathJoin table

/-- `find_table_data_path`. -/
def findTableDataPath (liveTables : List TableRow) (db table config : Str) : Str :=
  match liveTables.find? fun row => row.database = db && row.name = table with
  | some row => getTableDataPath row.dataPaths config db table
  | none => getTableDataPath [] config db table

/-- `find_table_uuid`. -/
def findTableUuid (liveTables : List TableRow) (db table : Str) : Option Str :=
  (liveTables.find? fun row =>
    row.database = db && row.name = table && row.uuid ≠ []).map TableRow.uuid

/-- The tables with parts to attach. -/
def restoreItems (attached : SortedMap Str (List Str)) (liveTables : List TableRow)
    (hasS3Client : Bool) : List AttachParams :=
  ctx.dataTables.filterMap fun key =>
    match ctx.manifest.tables.get? key with
    | none => none
    | some tm =>
      if ctx.env.selectedParts tm = [] then none
      else
        let db := (destination ctx.remap key).1
        let table := (destination ctx.remap key).2
        some {
          tableKey := key
          db := db
          table := table
          parts := ctx.env.selectedParts tm
          tableDataPath := findTableDataPath liveTables db table ctx.env.config.dataPath
          tableUuid := (findTableUuid liveTables db table).or tm.uuid
          engine := tm.engine
          partsByDisk := tm.parts
          alreadyAttached := (attached.get? key).getD []
          hasS3Client := hasS3Client }

/-- `decide_replica_sync`: only a completed check that finds the replica behind skips a table. -/
def decideReplicaSync (synced : Except Str Bool) (strict : Bool) : Bool :=
  match synced with
  | .ok false => strict
  | _ => false

/-- Whether the replica of a table is behind. -/
def isUnsynced (item : AttachParams) : RestoreProg Bool :=
  if isReplicatedEngine item.engine then
    (perform (Call.checkReplicaSync item.db item.table)).bind fun (synced : Except Str Bool) =>
      .ret (decideReplicaSync synced ctx.env.config.strictReplicaSync)
  else .ret false

/-- Set the tables apart whose replicas are behind. -/
def checkReplicas (items : List AttachParams) : RestoreProg (List AttachParams × Nat) :=
  if ctx.env.config.checkReplicasBeforeAttach then
    (forEach items fun item => (ctx.isUnsynced item).bind fun b => .ret (item, b)).bind fun checked =>
      .ret ((checked.filter fun c => !c.2).map Prod.fst,
        ((checked.filter Prod.snd).map fun c => c.1.parts.length).sum)
  else .ret (items, 0)

/-- Attached and skipped parts of a table. -/
abbrev TableResult : Type := Str × Nat × Nat

/-- ATTACH TABLE mode for a table with a plan.  A table on which it fails, and a table without a
plan, is left for attaching part by part. -/
def attachOrLeave (item : AttachParams) : RestoreProg (AttachParams ⊕ TableResult) :=
  match ctx.attachPlan? item.tableKey with
  | none => .ret (.inl item)
  | some (plan, missing) =>
    let ddl := ((ctx.manifest.tables.get? item.tableKey).map TableManifest.ddl).getD []
    ((ctx.tryAttachTableMode item.tableKey item.db item.table ddl plan
      item.tableDataPath).attempt).bind fun (outcome : Except Str Nat) =>
        match outcome with
        | .ok attached => .ret (.inr (item.tableKey, attached, missing))
        | .error _ => .ret (.inl item)

/-- ATTACH TABLE mode for all tables. -/
def attachTables (items : List AttachParams) : RestoreProg (List (AttachParams ⊕ TableResult)) :=
  forEach items ctx.attachOrLeave

/-- The task of one table. -/
def tableTask (item : AttachParams) : RestoreProg TableResult :=
  (perform Call.isCancelled).bind fun (cancelled : Bool) =>
    if cancelled then .ret (item.tableKey, 0, 0)
    else ((ctx.attachPartsOwned item).mapError fun e =>
      "Failed to attach parts for table ".toList ++ item.tableKey ++ ": " ++ e).bind
        fun result => .ret (item.tableKey, result.1, result.2)

/-- The tables in parallel.  All of them run to their ends before a failure is reported. -/
def attachItems (items : List AttachParams) : RestoreProg (List TableResult) :=
  (par ctx.fate.tableSchedule (items.map fun item => (ctx.tableTask item).attempt)).bind collect

/-! ## Pending mutations -/

/-- `quote_identifier`. -/
def quoteIdentifier (name : Str) : Str :=
  backquote :: Str.replaceAll [backquote] [backquote, backquote] name ++ [backquote]

/-- `execute_mutation_sql`: empty for a command that is not executed. -/
def executeMutationSql (toUppercase : Str → Str) (db table command : Str) : Str :=
  let trimmed := command.trim
  let upper := toUppercase trimmed
  if ';' ∈ trimmed then []
  else if !("DELETE" : Str).isPrefixOf upper && !("UPDATE" : Str).isPrefixOf upper &&
      !("MATERIALIZE" : Str).isPrefixOf upper then []
  else "ALTER TABLE ".toList ++ quoteIdentifier db ++ '.' :: quoteIdentifier table ++ ' ' :: trimmed ++
    " SETTINGS mutations_sync=2"

/-- `ChClient::execute_mutation`. -/
def executeMutation (db table command : Str) : RestoreProg (Except Str Unit) :=
  let sql := executeMutationSql ctx.env.toUppercase db table command
  if sql = [] then .ret (.ok ())
  else (perform (Call.executeMutation sql)).bind fun (reply : Except Str Unit) => .ret reply

/-- Re-apply the mutations of one table. -/
def reapplyTable (key : Str) : RestoreProg Unit :=
  match ctx.manifest.tables.get? key with
  | none => .ret ()
  | some tm =>
    let db := (destination ctx.remap key).1
    let table := (destination ctx.remap key).2
    (forEach tm.pendingMutations fun mutation =>
      (ctx.executeMutation db table mutation.command).bind fun reply =>
        (perform (Call.reportMutation key mutation.mutationId reply.isOk)).bind fun _ =>
          .ret ()).bind fun _ => .ret ()

/-- `reapply_pending_mutations`. -/
def reapplyPendingMutations (results : List TableResult) : RestoreProg Unit :=
  (forEach results fun result => ctx.reapplyTable result.1).bind fun _ => .ret ()

/-! ## The data phase and the verdict -/

/-- The state that a completed restore leaves behind: every part of every data table. -/
def completionState : RestoreState where
  attachedParts := (ctx.dataTables.filterMap fun key =>
    (ctx.manifest.tables.get? key).map fun tm => (key, tm.allParts.map PartInfo.name)).foldl
      (fun m e => m.insert e.1 e.2) SortedMap.empty
  backupName := ctx.env.args.backupName
  paramsHash := ctx.env.paramsHash

/-- What follows the attaching of the parts.  The value is the number of parts attached and the
number of parts skipped; the parts of refused tables, and of tables whose replicas are behind,
count as skipped. -/
def finish (results : List TableResult) (unsyncedParts : Nat) : RestoreProg (Nat × Nat) :=
  (ctx.reapplyPendingMutations results).bind fun _ =>
    (ctx.createTables ctx.phases.postponedTables).bind fun _ =>
      ctx.ddlOnlyPhase.bind fun _ =>
        ctx.extrasPhase.bind fun _ =>
          .ret ((results.map fun r => r.2.1).sum,
            ctx.refusedParts + unsyncedParts + (results.map fun r => r.2.2).sum)

/-- The tracker of the parts attached in this attempt. -/
def startTracker (attached : SortedMap Str (List Str)) : RestoreProg Unit :=
  onlyIf ctx.env.args.resume
    ((perform (Call.startTracker ⟨attached, ctx.env.args.backupName, ctx.env.paramsHash⟩)).bind
      fun _ => .ret ())

/-- Whether an S3 client is there; one is made only for a backup with object disks. -/
def s3Client : RestoreProg Bool :=
  if ctx.manifest.diskTypes.values.any isS3Disk then
    (perform Call.newS3Client).bind fun (reply : Except Str Unit) => .ret reply.isOk
  else .ret false

/-- The items of an attempt. -/
def gatherItems : RestoreProg (List AttachParams) :=
  ctx.loadAttached.bind fun attached =>
    (perform Call.listTables).bind fun (live : Except Str (List TableRow)) =>
      ctx.s3Client.bind fun hasS3Client =>
        (ctx.startTracker attached).bind fun _ =>
          .ret (ctx.restoreItems attached (live.toOption.getD []) hasS3Client)

/-- Attach the parts of all tables: the results of the tables and the parts left out because a
replica is behind. -/
def attachPhase : RestoreProg (List TableResult × Nat) :=
  ctx.gatherItems.bind fun items =>
    (ctx.checkReplicas items).bind fun checked =>
      (ctx.attachTables checked.1).bind fun attached =>
        (ctx.attachItems (attached.filterMap Sum.getLeft?)).bind fun results =>
          (perform Call.isCancelled).bind fun (cancelled : Bool) =>
            if cancelled then .fail "Restore cancelled"
            else .ret (results ++ attached.filterMap Sum.getRight?, checked.2)

/-- What a restore does with its selection.  A restore of the schema alone counts no parts. -/
def restoreSelected : RestoreProg (Option (Nat × Nat)) :=
  ctx.dropPhase.bind fun _ =>
    ctx.createPhase.bind fun _ =>
      if ctx.env.args.schemaOnly then
        -- the objects without data come first: streaming tables may write to them
        ctx.ddlOnlyPhase.bind fun _ =>
          (ctx.createTables ctx.phases.postponedTables).bind fun _ =>
            ctx.extrasPhase.bind fun _ => .ret none
      else ctx.attachPhase.bind fun r => (ctx.finish r.1 r.2).bind fun tally => .ret (some tally)

/-- The verdict: skipped parts make the restore partial; otherwise its completion is recorded. -/
def verdict : Option (Nat × Nat) → Prog Call Call.Reply RestoreError Unit
  | none => .ret ()
  | some (attached, skipped) =>
    if 0 < skipped then .fail (.partialRestore attached skipped (attached + skipped))
    else (perform (Call.saveState ctx.completionState)).bind fun _ => .ret ()

end RestoreContext

/-- What precedes the first change: the gate, the selection, the renames, and what the server
says of itself.  There is no context when nothing is selected. -/
def prepare (env : RestoreEnv) (fate : RestoreFate) (manifest : BackupManifest) :
    RestoreProg (Option RestoreContext) :=
  (env.projectionGate manifest).bind fun _ =>
    if env.selectedKeys manifest = [] then env.emptySelection.bind fun _ => .ret none
    else (ofExcept env.remapConfig).bind fun remap =>
      (if env.onCluster.isSome then detectReplicatedDatabases manifest remap
        else .ret []).bind fun replicatedDatabases =>
          (perform Call.getMacros).bind fun (macros : SortedMap Str Str) =>
            .ret (some ⟨env, fate, manifest, remap, replicatedDatabases, macros⟩)

/-- **The restore of a backup.** -/
def restore (env : RestoreEnv) (fate : RestoreFate) : Prog Call Call.Reply RestoreError Unit :=
  let path := env.backupDir.pathJoin "metadata.json"
  match env.manifestFile with
  | none => .fail (.backupNotFound ("backup '".toList ++ env.args.backupName ++
      "' not found (no metadata.json at " ++ path ++ ")"))
  | some (.error e) => .fail (.message ("Failed to load manifest for backup '".toList ++
      env.args.backupName ++ "' at " ++ path ++ ": " ++ e))
  | some (.ok manifest) =>
    ((prepare env fate manifest).mapError .message).bind fun prepared =>
      match prepared with
      | none => .ret ()
      | some ctx => (ctx.restoreSelected.mapError .message).bind ctx.verdict

end Chbackup
