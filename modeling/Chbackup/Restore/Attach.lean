import Chbackup.Restore.Schema

/-!
# Bringing parts live

There are two ways (`src/restore/mod.rs`, `src/restore/attach.rs`).  In ATTACH TABLE mode a
replicated table is detached, its parts are linked into its data directory, and it is attached
again as a whole; a pre-flight decides before anything is created which tables may go this way.
Otherwise each part is linked into the `detached` directory and attached by itself, one after the
other for engines that depend on the order and in parallel for the rest.
-/

namespace Chbackup

open CallTree Prog

/-! ## The pre-flight of ATTACH TABLE mode -/

/-- `CompleteAttachPlan`: part names with their staged directories. -/
structure CompleteAttachPlan where
  sources : List (Str × Str)
  deriving DecidableEq

/-- `AttachTableDecision`. -/
inductive AttachTableDecision where
  | attach (plan : CompleteAttachPlan)
  | refuse (missing : List Str) (total : Nat)
  | attachIncomplete (plan : CompleteAttachPlan) (missing : List Str) (total : Nat)
  deriving DecidableEq

/-- The parts that resolved, with their directories. -/
def resolvedSources (resolved : List (Str × Option Str)) : List (Str × Str) :=
  resolved.filterMap fun r => r.2.map fun dir => (r.1, dir)

/-- The names of the parts that did not resolve. -/
def missingSources (resolved : List (Str × Option Str)) : List Str :=
  (resolved.filter fun r => r.2 = none).map Prod.fst

/-- `decide_attach_table`. -/
def decideAttachTable (resolved : List (Str × Option Str)) (requireComplete : Bool) :
    AttachTableDecision :=
  if missingSources resolved = [] then .attach ⟨resolvedSources resolved⟩
  else if requireComplete then .refuse (missingSources resolved) resolved.length
  else .attachIncomplete ⟨resolvedSources resolved⟩ (missingSources resolved) resolved.length

/-- The disks of a table with parts on an object disk. -/
def hasS3DiskParts (diskTypes : SortedMap Str Str) (parts : SortedMap Str (List PartInfo)) : Bool :=
  parts.entries.any fun e =>
    isS3Disk ((diskTypes.get? e.1).getD []) && e.2.any fun p => p.s3Objects.isSome

namespace RestoreContext

variable (ctx : RestoreContext)

/-- The staged directory of a part of a table. -/
def stagedDir (tableKey diskName partName : Str) : Option Str :=
  let db := (splitTableKey tableKey).1
  let table := (splitTableKey tableKey).2
  resolveShadowPartPath ctx.fate.pathExists ctx.env.backupDir ctx.env.args.backupName
    ctx.manifest.disks diskName (encodePathComponent ctx.env.isAlphanumeric db)
    (encodePathComponent ctx.env.isAlphanumeric table) db table partName

/-- The selected parts of a table with their staged directories. -/
def resolvedParts (tableKey : Str) (tm : TableManifest) : List (Str × Option Str) :=
  ((tm.parts.entries.flatMap fun e => e.2.map fun part => (e.1, part)).filter fun dp =>
    partMatchesPartitions dp.2.name ctx.env.partitionFilter).map fun dp =>
      (dp.2.name, ctx.stagedDir tableKey dp.1 dp.2.name)

/-- What `plan_attach_completeness` decides for a table; nothing for a table that ATTACH TABLE
mode does not apply to. -/
def attachDecision (tableKey : Str) : Option AttachTableDecision :=
  match ctx.manifest.tables.get? tableKey with
  | none => none
  | some tm =>
    if ctx.env.config.restoreAsAttach && !ctx.env.args.schemaOnly && isReplicatedEngine tm.engine &&
        !hasS3DiskParts ctx.manifest.diskTypes tm.parts then
      some (decideAttachTable (ctx.resolvedParts tableKey tm)
        ctx.env.config.attachTableRequireComplete)
    else none

/-- Whether the pre-flight refuses a table. -/
def isRefused (tableKey : Str) : Bool :=
  match ctx.attachDecision tableKey with
  | some (.refuse _ _) => true
  | _ => false

/-- The number of parts of a refused table. -/
def refusedPartsOf (tableKey : Str) : Nat :=
  match ctx.attachDecision tableKey with
  | some (.refuse _ total) => total
  | _ => 0

/-- The plan of a table and the number of parts it lacks. -/
def attachPlan? (tableKey : Str) : Option (CompleteAttachPlan × Nat) :=
  match ctx.attachDecision tableKey with
  | some (.attach plan) => some (plan, 0)
  | some (.attachIncomplete plan missing _) => some (plan, missing.length)
  | _ => none

/-! ## ATTACH TABLE mode -/

/-- Link the planned parts into the data directory, except those that are there. -/
def linkParts (tableKey dataPath : Str) : List (Str × Str) → RestoreProg Unit
  | [] => .ret ()
  | (part, source) :: sources =>
    (perform (Call.dirExists tableKey part (dataPath.pathJoin part))).bind fun (found : Bool) =>
      (if found then .ret ()
        else (perform (Call.linkPart tableKey part source (dataPath.pathJoin part))).bind
          fun (reply : Except Str Unit) => orRaise reply).bind fun _ =>
        linkParts tableKey dataPath sources

/-- The replica that ATTACH TABLE mode drops before it links the parts; failing is not fatal. -/
def dropOldReplica (tableKey ddl : Str) : RestoreProg Unit :=
  match parseReplicatedParams ddl with
  | some (pathTemplate, replicaTemplate) =>
    (perform (Call.dropReplicaFromZkpath tableKey (ctx.resolve replicaTemplate ctx.macros)
      (ctx.resolve pathTemplate ctx.macros))).bind fun _ => .ret ()
  | none => .ret ()

/-- `try_attach_table_mode`: the number of parts of the plan. -/
def tryAttachTableMode (tableKey db table ddl : Str) (plan : CompleteAttachPlan)
    (tableDataPath : Str) : RestoreProg Nat :=
  let dstKey := plainName db table
  (perform (Call.detachTableSync tableKey db table)).bind fun (detached : Except Str Unit) =>
    (orFail ("ATTACH TABLE mode: failed to DETACH TABLE ".toList ++ dstKey) detached).bind fun _ =>
      (ctx.dropOldReplica tableKey ddl).bind fun _ =>
        (linkParts tableKey tableDataPath plan.sources).bind fun _ =>
          (perform (Call.attachTable tableKey db table)).bind fun (attached : Except Str Unit) =>
            (orFail ("ATTACH TABLE mode: failed to ATTACH TABLE ".toList ++ dstKey) attached).bind
              fun _ => (perform (Call.systemRestoreReplica tableKey db table)).bind
                fun (restored : Except Str Unit) =>
                  (orFail ("ATTACH TABLE mode: failed to SYSTEM RESTORE REPLICA ".toList ++ dstKey)
                    restored).bind fun _ => .ret plan.sources.length

end RestoreContext

/-! ## Attaching part by part -/

/-- `AttachErrorClass`. -/
inductive AttachErrorClass where
  | missingPart
  | duplicatePart
  | temporarilyLocked
  | unknown
  deriving DecidableEq

/-- `AttachErrorClass::counts_as_missing_data`. -/
def AttachErrorClass.countsAsMissingData (c : AttachErrorClass) : Bool := c = .missingPart

/-- `classify_attach_error`: missing parts are recognised first. -/
def classifyAttachError (err : Str) : AttachErrorClass :=
  if Str.contains "NO_SUCH_DATA_PART" err || Str.contains "Code: 232" err ||
      Str.contains "BAD_DATA_PART_NAME" err || Str.contains "Code: 233" err then .missingPart
  else if Str.contains "DUPLICATE_DATA_PART" err || Str.contains "Code: 235" err then .duplicatePart
  else if Str.contains "PART_IS_TEMPORARILY_LOCKED" err || Str.contains "Code: 384" err then
    .temporarilyLocked
  else .unknown

/-- `OwnedAttachParams`: what attaching the parts of one table needs. -/
structure AttachParams where
  tableKey : Str
  db : Str
  table : Str
  parts : List PartInfo
  tableDataPath : Str
  tableUuid : Option Str
  engine : Str
  partsByDisk : SortedMap Str (List PartInfo)
  alreadyAttached : List Str
  hasS3Client : Bool
  deriving DecidableEq

namespace RestoreContext

variable (ctx : RestoreContext) (params : AttachParams)

/-- Whether the parts of a table are to be restored on an object disk first. -/
def restoresS3 : Bool :=
  params.hasS3Client && params.tableUuid.isSome &&
    hasS3DiskParts ctx.manifest.diskTypes params.partsByDisk

/-- Whether every part on an object disk is known to be attached. -/
def allS3Attached : Bool :=
  params.partsByDisk.entries.all fun e =>
    !isS3Disk ((ctx.manifest.diskTypes.get? e.1).getD []) ||
      e.2.all fun p => !p.s3Objects.isSome || p.name ∈ params.alreadyAttached

/-- The disk of a part; of two parts with one name the later counts. -/
def partDisk (name : Str) : Str :=
  (((params.partsByDisk.entries.flatMap fun e => e.2.map fun p => (p.name, e.1)).reverse.find?
    fun b => b.1 = name).map Prod.snd).getD "default"

/-- The parts that resuming does not skip, in the order in which they are attached. -/
def workParts : List PartInfo :=
  (sortPartsByMinBlock params.parts).filter fun part => part.name ∉ params.alreadyAttached

/-- Whether a part is staged: a part of an object disk is staged with its objects. -/
def isStaged (part : PartInfo) : Bool :=
  part.s3Objects.isSome ||
    (ctx.stagedDir params.tableKey (partDisk params part.name) part.name).isSome

/-- Put a part into the `detached` directory of its table. -/
def preparePart (part : PartInfo) : RestoreProg Unit :=
  if part.s3Objects.isSome then .ret ()
  else match ctx.stagedDir params.tableKey (partDisk params part.name) part.name with
    | none => .ret ()
    | some dir =>
      let path := (params.tableDataPath.pathJoin "detached").pathJoin part.name
      (perform (Call.stagePart params.tableKey part.name dir path)).bind fun reply =>
        orFail ("Failed to hardlink/copy part ".toList ++ part.name ++ " from " ++ dir ++ " to " ++
          path) reply

/-- The parts whose staged directory is missing. -/
def missingSourceParts : List Str :=
  ((workParts params).filter fun part => !ctx.isStaged params part).map PartInfo.name

/-- The parts to attach.  A part is left out when one of its name has no staged directory. -/
def partsToAttach : List PartInfo :=
  (workParts params).filter fun part => part.name ∉ ctx.missingSourceParts params

/-- The key under which the attached parts of a table are recorded. -/
def resumeKey (tableKey : Str) : Str := plainName (splitTableKey tableKey).1 (splitTableKey tableKey).2

/-- Attach one part and record it.  The value is the class of an error that is not fatal. -/
def attachPart (part : Str) : RestoreProg (Option AttachErrorClass) :=
  (perform (Call.attachPart params.tableKey params.db params.table part)).bind
    fun (reply : Except Str Unit) =>
      match reply with
      | .ok _ =>
        (onlyIf ctx.env.args.resume
          ((perform (Call.recordAttached (resumeKey params.tableKey) part)).bind
            fun _ => .ret ())).bind fun _ => .ret none
      | .error e =>
        match classifyAttachError e with
        | .unknown => .fail ("Failed to ATTACH PART '".toList ++ part ++ "' to " ++
            plainName params.db params.table ++ ": " ++ e)
        | c => .ret (some c)

/-- The values of tasks that did not fail, or the first failure. -/
def collect {α : Type} : List (Except Str α) → RestoreProg (List α)
  | [] => .ret []
  | .ok a :: rest => (collect rest).bind fun as => .ret (a :: as)
  | .error e :: _ => .fail e

/-- Attach parts one after the other, or in parallel. -/
def attachAll (parts : List PartInfo) : RestoreProg (List (Option AttachErrorClass)) :=
  if needsSequentialAttach params.engine || params.engine.isEmpty then
    forEach parts fun part => ctx.attachPart params part.name
  else
    (par (ctx.fate.partSchedule params.tableKey)
      (parts.map fun part => (ctx.attachPart params part.name).attempt)).bind collect

/-- `attach_parts_inner`: the number of parts attached and the number of parts skipped. -/
def attachPartsInner : RestoreProg (Nat × Nat) :=
  if params.parts = [] then .ret (0, 0)
  else
    let detachedDir := params.tableDataPath.pathJoin "detached"
    (perform (Call.createDetachedDir detachedDir)).bind fun reply =>
    (orFail ("Failed to create detached directory: ".toList ++ detachedDir) reply).bind fun _ =>
    (forEach (workParts params) (ctx.preparePart params)).bind fun _ =>
    (ctx.attachAll params (ctx.partsToAttach params)).bind fun outcomes =>
    .ret (outcomes.count none,
      (ctx.missingSourceParts params).dedup.length +
        (outcomes.filter fun o => (o.map AttachErrorClass.countsAsMissingData).getD false).length)

/-- `attach_parts_owned`. -/
def attachPartsOwned : RestoreProg (Nat × Nat) :=
  (if ctx.restoresS3 params &&
      !(ctx.allS3Attached params && !params.alreadyAttached.isEmpty) then
    (perform (Call.restoreS3DiskParts params.tableKey)).bind fun (reply : Except Str Nat) => orRaise reply
  else .ret 0).bind fun s3Skipped =>
    (ctx.attachPartsInner params).bind fun result => .ret (result.1, result.2 + s3Skipped)

end RestoreContext

end Chbackup
