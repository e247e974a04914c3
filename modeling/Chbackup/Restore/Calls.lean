import Chbackup.Lib.Program
import Chbackup.Manifest
import Chbackup.Resume
import Chbackup.Restore.Remap
import Chbackup.Restore.Order
import Chbackup.Restore.Ddl

/-!
# What a restore is given and what it asks for

A restore (`src/restore/mod.rs`) talks to the ClickHouse server, to the disks of the server and
to its own state file.  Each of these conversations is a call whose reply the restore cannot
predict, so a property of every run of the program is a property under every failure pattern.

Calls made on behalf of one table of the backup carry its key; in the source the key is only
written to the log.  What cannot fail the restore and what nothing in it reads back (the
parameters saved for the server's automatic resume, the ownership of the files, the progress
bars) is left out.  Restoring the parts of a table that lie on an object disk is one call.
-/

namespace Chbackup

open CallTree

/-- What a DDL statement creates. -/
inductive DdlTarget where
  | database (db : Str)
  | table (db table : Str)
  | function
  deriving DecidableEq

/-- `ZkReplicaCheck`. -/
inductive ZkReplicaCheck where
  | present
  | absent
  | indeterminate
  deriving DecidableEq

/-- A row of the server's table list. -/
structure TableRow where
  database : Str
  name : Str
  uuid : Str
  dataPaths : List Str
  deriving DecidableEq

/-- What follows the tables: access rights, configuration files, and the restart they need. -/
inductive Extra where
  | namedCollections
  | rbac
  | configs
  | restart
  deriving DecidableEq

/-- The calls of a restore. -/
inductive Call where
  | getVersion
  | queryDatabaseEngine (db : Str)
  | getMacros
  | dropTable (db table : Str) (onCluster : Option Str)
  | dropDatabase (db : Str) (onCluster : Option Str)
  | databaseExists (db : Str)
  | tableExists (db table : Str)
  | executeDdl (target : DdlTarget) (ddl : Str)
  | checkZkReplicaExists (zkPath replica : Str)
  | dropReplicaFromZkpath (tableKey replica zkPath : Str)
  | loadState
  | querySystemParts (tableKey db table : Str)
  | listTables
  | newS3Client
  | startTracker (state : RestoreState)
  | checkReplicaSync (db table : Str)
  | detachTableSync (tableKey db table : Str)
  | dirExists (tableKey part path : Str)
  | linkPart (tableKey part source path : Str)
  | attachTable (tableKey db table : Str)
  | systemRestoreReplica (tableKey db table : Str)
  | isCancelled
  | restoreS3DiskParts (tableKey : Str)
  | createDetachedDir (path : Str)
  | stagePart (tableKey part source path : Str)
  | attachPart (tableKey db table part : Str)
  | recordAttached (tableKey part : Str)
  | executeMutation (sql : Str)
  | reportMutation (tableKey mutationId : Str) (reapplied : Bool)
  | extra (what : Extra)
  | saveState (state : RestoreState)
  deriving DecidableEq

/-- The replies to the calls. -/
abbrev Call.Reply : Call → Type
  | .getVersion => Except Str Str
  | .queryDatabaseEngine _ => Except Str Str
  | .getMacros => SortedMap Str Str
  | .dropTable .. => Except Str Unit
  | .dropDatabase .. => Except Str Unit
  | .databaseExists _ => Except Str Bool
  | .tableExists .. => Except Str Bool
  | .executeDdl .. => Except Str Unit
  | .checkZkReplicaExists .. => ZkReplicaCheck
  | .dropReplicaFromZkpath .. => Except Str Unit
  | .loadState => Except Str (Option RestoreState)
  | .querySystemParts .. => Except Str (List Str)
  | .listTables => Except Str (List TableRow)
  | .newS3Client => Except Str Unit
  | .startTracker _ => Unit
  | .checkReplicaSync .. => Except Str Bool
  | .detachTableSync .. => Except Str Unit
  | .dirExists .. => Bool
  | .linkPart .. => Except Str Unit
  | .attachTable .. => Except Str Unit
  | .systemRestoreReplica .. => Except Str Unit
  | .isCancelled => Bool
  | .restoreS3DiskParts _ => Except Str Nat
  | .createDetachedDir _ => Except Str Unit
  | .stagePart .. => Except Str Unit
  | .attachPart .. => Except Str Unit
  | .recordAttached .. => Bool
  | .executeMutation _ => Except Str Unit
  | .reportMutation .. => Unit
  | .extra _ => Except Str Unit
  | .saveState _ => Except Str Unit

/-- How a restore fails. -/
inductive RestoreError where
  | message (text : Str)
  | backupNotFound (text : Str)
  | partialRestore (attached skipped total : Nat)
  deriving DecidableEq

/-- A phase of the restore; it fails with a message. -/
abbrev RestoreProg (α : Type) : Type := Prog Call Call.Reply Str α

/-- A call with its reply. -/
abbrev RestoreEvent : Type := Event Call Call.Reply

/-- The value of a reply, or a failure that says what was being done. -/
def orFail {α : Type} (context : Str) : Except Str α → RestoreProg α
  | .ok a => .ret a
  | .error e => .fail (context ++ ": " ++ e)

/-- The value of a reply, or a failure with its error. -/
def orRaise {α : Type} : Except Str α → RestoreProg α
  | .ok a => .ret a
  | .error e => .fail e

/-- A program that runs under a condition. -/
def onlyIf (b : Bool) (p : RestoreProg Unit) : RestoreProg Unit := if b then p else .ret ()

section Within

variable {α : Type} {P : Call → Prop} {Q : α → Prop}

theorem within_orFail {context : Str} {x : Except Str α} (h : ∀ a, x = .ok a → Q a) :
    Within P Q (orFail context x) := by
  cases x with
  | ok a => exact within_ret (h a rfl)
  | error e => exact within_fail _

theorem within_orRaise {x : Except Str α} (h : ∀ a, x = .ok a → Q a) :
    Within P Q (orRaise x) := by
  cases x with
  | ok a => exact within_ret (h a rfl)
  | error e => exact within_fail _

theorem within_onlyIf {Q : Unit → Prop} {b : Bool} {p : RestoreProg Unit}
    (h : b = true → Within P Q p) (hQ : Q ()) : Within P Q (onlyIf b p) := by
  unfold onlyIf
  split
  · exact h ‹_›
  · exact within_ret hQ

end Within

/-- The settings a restore reads. -/
structure RestoreConfig where
  dataPath : Str
  allowEmptyBackups : Bool
  strictProjectionGate : Bool
  defaultReplicaPath : Str
  restoreSchemaOnCluster : Str
  restoreDistributedCluster : Str
  restoreAsAttach : Bool
  attachTableRequireComplete : Bool
  zkCheckStrict : Bool
  replaceUuidMacro : Bool
  checkReplicasBeforeAttach : Bool
  strictReplicaSync : Bool
  namedCollectionsBackupAlways : Bool
  rbacBackupAlways : Bool
  configBackupAlways : Bool
  deriving DecidableEq, Inhabited

/-- The arguments of a restore. -/
structure RestoreArgs where
  backupName : Str
  tablePattern : Option Str
  schemaOnly : Bool
  dataOnly : Bool
  rm : Bool
  resume : Bool
  renameAs : Option Str
  /-- The pairs of the database mapping, in the order in which the hash map yields them. -/
  databaseMapping : Option (List (Str × Str))
  rbacRestore : Bool
  configsRestore : Bool
  namedCollectionsRestore : Bool
  partitions : Option Str
  skipEmptyTables : Bool
  deriving DecidableEq, Inhabited

/-- What all attempts to restore one backup with the same arguments have in common. -/
structure RestoreEnv where
  config : RestoreConfig
  args : RestoreArgs
  /-- The manifest file: absent, or what reading and parsing it gives. -/
  manifestFile : Option (Except Str BackupManifest)
  /-- A compiled glob pattern; a pattern that does not compile is ignored. -/
  globPattern : Str → Option (Str → Bool)
  /-- The Unicode upper case of a text. -/
  toUppercase : Str → Str
  /-- The alphabetic and numeric characters. -/
  isAlphanumeric : Char → Bool
  /-- The characters that a debug format prints as they are. -/
  isPrintable : Char → Bool

/-- What an attempt finds besides the replies to its calls. -/
structure RestoreFate where
  /-- Which files of the backup are staged. -/
  pathExists : Str → Bool
  /-- The order in which a hash map of macros yields its entries. -/
  macroOrder : List (Str × Str) → List (Str × Str)
  /-- The interleaving of the tables. -/
  tableSchedule : List Nat
  /-- The interleaving of the parts of a table. -/
  partSchedule : Str → List Nat

namespace RestoreEnv

variable (env : RestoreEnv)

/-- The directory of the backup. -/
def backupDir : Str := (env.config.dataPath.pathJoin "backup").pathJoin env.args.backupName

/-- The cluster of the schema statements, if one is configured. -/
def onCluster : Option Str :=
  if env.config.restoreSchemaOnCluster = [] then none else some env.config.restoreSchemaOnCluster

/-- The database mapping as one text. -/
def dbMappingText : Option Str :=
  env.args.databaseMapping.map fun pairs =>
    [','].intercalate (pairs.map fun pair => pair.1 ++ ':' :: pair.2)

/-- The renames the arguments ask for. -/
def remapConfig : Except Str (Option RemapConfig) :=
  RemapConfig.new env.args.renameAs env.args.tablePattern env.dbMappingText
    env.config.defaultReplicaPath

/-- The partitions of the `--partitions` flag. -/
def partitionFilter : List Str :=
  match env.args.partitions with
  | some s => if s = [] then [] else (s.splitOn ',').map Str.trim
  | none => []

end RestoreEnv

/-! ## The selection -/

/-- Databases of the server itself. -/
def systemDatabases : List Str := ["system", "information_schema", "INFORMATION_SCHEMA"]

/-- `TableFilter::new` followed by `TableFilter::matches`. -/
def tableFilterMatches (globPattern : Str → Option (Str → Bool)) (pattern db table : Str) : Bool :=
  db ∉ systemDatabases &&
    ((commaPieces pattern).filterMap globPattern).any fun glob => glob (plainName db table)

/-- The keys of the manifest that the table pattern selects. -/
def RestoreEnv.selectedKeys (env : RestoreEnv) (manifest : BackupManifest) : List Str :=
  manifest.tables.keys.filter fun key =>
    tableFilterMatches env.globPattern (env.args.tablePattern.getD "*.*")
      (splitTableKey key).1 (splitTableKey key).2

/-- The parts of a table that the partition filter selects, disk by disk. -/
def RestoreEnv.selectedParts (env : RestoreEnv) (tm : TableManifest) : List PartInfo :=
  tm.allParts.filter fun part => partMatchesPartitions part.name env.partitionFilter

end Chbackup
