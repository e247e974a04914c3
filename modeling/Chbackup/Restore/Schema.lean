import Chbackup.Restore.Calls

/-!
# The schema phases

Dropping and creating databases and tables (`src/restore/schema.rs`).  `dropTables` and
`createDdlObjects` share a retry loop: the items that failed in one round are tried again in the
next, for at most ten rounds, and a round after the first that makes no progress gives up.
-/

namespace Chbackup

open CallTree Prog

/-! ## The retry loop -/

/-- What one try of an item came to. -/
inductive Tried where
  | done
  | skipped
  | failed (e : Str)
  deriving DecidableEq

/-- The items of a round that failed, with their errors. -/
def failures (results : List (Str × Tried)) : List (Str × Str) :=
  results.filterMap fun r => match r.2 with
    | .failed e => some (r.1, e)
    | _ => none

/-- A character in the debug format of a text. -/
def debugChar (isPrintable : Char → Bool) (c : Char) : Str :=
  if c.toNat = 0 then [backslash, '0']
  else if c = '\t' then [backslash, 't']
  else if c = '\r' then [backslash, 'r']
  else if c = '\n' then [backslash, 'n']
  else if c = backslash ∨ c = '"' then [backslash, c]
  else if isPrintable c then [c]
  else [backslash, 'u', '\x7b'] ++ Nat.toDigits 16 c.toNat ++ ['\x7d']

/-- The debug format of a text. -/
def debugText (isPrintable : Char → Bool) (s : Str) : Str := '"' :: s.flatMap (debugChar isPrintable) ++ ['"']

section Retry

variable (isPrintable : Char → Bool)

/-- The message of a round without progress (`RetryLoopState::finish_round`). -/
def stuckMessage (opName : Str) (failed : List (Str × Str)) (round : Nat) : Str :=
  "Failed to ".toList ++ opName ++ " " ++ (toString failed.length).toList ++ " items after " ++
    (toString (round + 1)).toList ++ " retry rounds: [" ++
    (", ".toList).intercalate (failed.map fun f => debugText isPrintable f.1) ++ "]. Last errors: " ++
    ("; ".toList).intercalate (failed.map fun f => f.1 ++ ": " ++ f.2)

/-- The message of a loop that ran out of rounds (`RetryLoopState::check_exhausted`). -/
def exhaustedMessage (pending : List Str) (maxRounds : Nat) : Str :=
  "Failed to process ".toList ++ (toString pending.length).toList ++ " items after " ++
    (toString maxRounds).toList ++ " rounds: [" ++
    (", ".toList).intercalate ((pending.take 5).map (debugText isPrintable)) ++ "]"

/-- The number of rounds. -/
def maxRounds : Nat := 10

/-- The retry loop from a given round on, with `rounds` rounds left. -/
def retryLoop (opName : Str) (tryOne : Str → RestoreProg Tried) :
    (rounds : Nat) → List Str → RestoreProg Unit
  | 0, pending =>
    if pending = [] then .ret () else .fail (exhaustedMessage isPrintable pending maxRounds)
  | rounds + 1, pending =>
    (forEach pending fun key => (tryOne key).bind fun r => .ret (key, r)).bind fun results =>
      let failed := failures results
      let progress := results.any fun r => r.2 = .done
      let round := maxRounds - (rounds + 1)
      if failed = [] then .ret ()
      else if !progress ∧ 0 < round then .fail (stuckMessage isPrintable opName failed round)
      else retryLoop opName tryOne rounds (failed.map Prod.fst)

end Retry

/-! ## ZooKeeper -/

/-- `ZkAction`. -/
inductive ZkAction where
  | dropReplica
  | proceed
  | failTable
  deriving DecidableEq

/-- `zk_check_action`. -/
def zkCheckAction : ZkReplicaCheck → (strict : Bool) → ZkAction
  | .present, _ => .dropReplica
  | .absent, _ => .proceed
  | .indeterminate, strict => if strict then .failTable else .proceed

/-! ## Dropping -/

/-- What the phases of one attempt have in common. -/
structure RestoreContext where
  env : RestoreEnv
  fate : RestoreFate
  manifest : BackupManifest
  remap : Option RemapConfig
  replicatedDatabases : List Str
  macros : SortedMap Str Str

namespace RestoreContext

variable (ctx : RestoreContext)

/-- The cluster of a statement about a database: one with the Replicated engine replicates
statements itself. -/
def clusterFor (db : Str) : Option Str := if db ∈ ctx.replicatedDatabases then none
  else ctx.env.onCluster

/-- One DROP TABLE. -/
def dropTable (tableKey : Str) : RestoreProg Tried :=
  let db := (destination ctx.remap tableKey).1
  let table := (destination ctx.remap tableKey).2
  (perform (Call.dropTable db table (ctx.clusterFor db))).bind fun (reply : Except Str Unit) =>
    match reply with
    | .ok _ => .ret .done
    | .error e => .ret (.failed e)

/-- `drop_tables`. -/
def dropTables (tableKeys : List Str) : RestoreProg Unit :=
  if tableKeys = [] then .ret ()
  else retryLoop ctx.env.isPrintable "drop" ctx.dropTable maxRounds (sortTablesForDrop ctx.manifest tableKeys)

/-- The loop of `drop_databases`; `dropped` holds the databases that are gone. -/
def dropDatabasesLoop : List DatabaseInfo → (dropped : List Str) → RestoreProg Unit
  | [], _ => .ret ()
  | db :: dbs, dropped =>
    let dstDb := destinationDatabase ctx.remap db.name
    if dstDb ∈ systemDatabases ∨ dstDb ∈ dropped then dropDatabasesLoop dbs dropped
    else (perform (Call.dropDatabase dstDb (ctx.clusterFor dstDb))).bind fun (reply : Except Str Unit) =>
      match reply with
      | .ok _ => dropDatabasesLoop dbs (dstDb :: dropped)
      | .error _ => dropDatabasesLoop dbs dropped

/-- `drop_databases`. -/
def dropDatabases : RestoreProg Unit := ctx.dropDatabasesLoop ctx.manifest.databases []

/-! ## Creating databases -/

/-- `create_database_with_cluster`. -/
def createDatabaseWithCluster (db : DatabaseInfo) : RestoreProg Unit :=
  (perform (Call.databaseExists db.name)).bind fun reply =>
    (orFail ("Failed to check if database '".toList ++ db.name ++ "' exists") reply).bind
      fun found =>
        if found then .ret ()
        else
          let ddl := ensureIfNotExistsDatabase db.ddl
          let ddl := match ctx.clusterFor db.name with
            | some cluster => addOnClusterClause ddl cluster
            | none => ddl
          (perform (Call.executeDdl (.database db.name) ddl)).bind fun reply =>
            orFail ("Failed to create database '".toList ++ db.name ++ "' with DDL: " ++ ddl) reply

/-- The loop of `create_databases` under a rename; `created` holds the databases made so far. -/
def createDatabasesLoop : List DatabaseInfo → (created : List Str) → RestoreProg Unit
  | [], _ => .ret ()
  | db :: dbs, created =>
    let dstDb := destinationDatabase ctx.remap db.name
    if dstDb ∈ created then createDatabasesLoop dbs created
    else
      (ctx.createDatabaseWithCluster
        (if dstDb ≠ db.name then ⟨dstDb, rewriteCreateDatabaseDdl db.ddl db.name dstDb⟩ else db)).bind
        fun _ => createDatabasesLoop dbs (dstDb :: created)

/-- `create_databases`. -/
def createDatabases : RestoreProg Unit :=
  if (ctx.remap.map RemapConfig.isActive).getD false then
    ctx.createDatabasesLoop ctx.manifest.databases []
  else (forEach ctx.manifest.databases ctx.createDatabaseWithCluster).bind fun _ => .ret ()

/-! ## The statements that are executed -/

/-- The statement of a table under its new name, if it has one. -/
def renamedDdl (tableKey : Str) (tm : TableManifest) : Str :=
  let srcDb := (splitTableKey tableKey).1
  let srcTable := (splitTableKey tableKey).2
  let dstDb := (destination ctx.remap tableKey).1
  let dstTable := (destination ctx.remap tableKey).2
  match renamed? ctx.remap tableKey with
  | some rc => ensureIfNotExistsTable
      (rewriteCreateTableDdl tm.ddl srcDb srcTable dstDb dstTable rc.defaultReplicaPath)
  | none => ensureIfNotExistsTable tm.ddl

/-- A statement with the cluster it runs on. -/
def onClusterDdl (db ddl : Str) : Str :=
  match ctx.clusterFor db with
  | some cluster => addOnClusterClause ddl cluster
  | none => ddl

/-- The statement `create_tables` executes for a table. -/
def tableDdl (tableKey : Str) (tm : TableManifest) : Str :=
  let ddl := ctx.renamedDdl tableKey tm
  let ddl := if ctx.env.config.restoreDistributedCluster = [] then ddl
    else rewriteDistributedCluster ddl ctx.env.config.restoreDistributedCluster
  let ddl := ctx.onClusterDdl (destination ctx.remap tableKey).1 ddl
  if ctx.env.config.replaceUuidMacro then replaceUuidMacro ctx.env.isAlphanumeric ddl tm.uuid
  else ddl

/-- The statement `create_ddl_objects` executes for an object. -/
def objectDdl (tableKey : Str) (tm : TableManifest) : Str :=
  ctx.onClusterDdl (destination ctx.remap tableKey).1 (ctx.renamedDdl tableKey tm)

/-! ## Creating tables -/

/-- The macros of the server with one more, unless the server defines it itself. -/
def withMacro (macros : SortedMap Str Str) (name : Str) (value : Option Str) : SortedMap Str Str :=
  match value, macros.get? name with
  | some value, none => macros.insert name value
  | _, _ => macros

/-- A template with its macros resolved. -/
def resolve (template : Str) (macros : SortedMap Str Str) : Str :=
  resolveZkMacros template (ctx.fate.macroOrder macros.entries)

/-- `resolve_zk_conflict`. -/
def resolveZkConflict (tableKey ddl : Str) (macros : SortedMap Str Str) (tableUuid : Option Str)
    (dstKey : Str) : RestoreProg Unit :=
  match parseReplicatedParams ddl with
  | none => .ret ()
  | some (pathTemplate, replicaTemplate) =>
    let macros := withMacro macros "uuid" tableUuid
    let path := ctx.resolve pathTemplate macros
    let replica := ctx.resolve replicaTemplate macros
    (perform (Call.checkZkReplicaExists path replica)).bind fun (check : ZkReplicaCheck) =>
      match zkCheckAction check ctx.env.config.zkCheckStrict with
      | .dropReplica =>
        -- a failed drop is only logged: the CREATE that follows reports the conflict itself
        (perform (Call.dropReplicaFromZkpath tableKey replica path)).bind fun _ => .ret ()
      | .proceed => .ret ()
      | .failTable => .fail ("cannot verify ZooKeeper state for ".toList ++ dstKey ++
          ": system.zookeeper could not be queried for replica '" ++ replica ++ "' at ZK path '" ++
          path ++ "', so a stale replica there would go undropped. Refusing to create the table against unverified ZK state -- set clickhouse.zk_check_strict to false to create it anyway, skipping conflict resolution")

/-- One table of `create_tables`. -/
def createTable (tableKey : Str) : RestoreProg Unit :=
  match ctx.manifest.tables.get? tableKey with
  | none => .ret ()
  | some tm =>
    let db := (destination ctx.remap tableKey).1
    let table := (destination ctx.remap tableKey).2
    (perform (Call.tableExists db table)).bind fun reply =>
      (orFail ("Failed to check if table ".toList ++ plainName db table ++ " exists") reply).bind
        fun found =>
          if found ∨ tm.ddl = [] then .ret ()
          else
            let ddl := ctx.tableDdl tableKey tm
            let macros := withMacro (withMacro ctx.macros "database" (some db)) "table" (some table)
            (onlyIf (isReplicatedEngine tm.engine)
              (ctx.resolveZkConflict tableKey ddl macros tm.uuid (plainName db table))).bind fun _ =>
                (perform (Call.executeDdl (.table db table) ddl)).bind fun reply =>
                  orFail ("Failed to create table ".toList ++ plainName db table ++ " with DDL: " ++ ddl)
                    reply

/-- `create_tables`. -/
def createTables (tableKeys : List Str) : RestoreProg Unit :=
  onlyIf (!ctx.env.args.dataOnly) ((forEach tableKeys ctx.createTable).bind fun _ => .ret ())

/-- One object of one round of `create_ddl_objects`. -/
def createDdlObject (tableKey : Str) : RestoreProg Tried :=
  match ctx.manifest.tables.get? tableKey with
  | none => .ret .skipped
  | some tm =>
    let db := (destination ctx.remap tableKey).1
    let table := (destination ctx.remap tableKey).2
    (perform (Call.tableExists db table)).bind fun (found : Except Str Bool) =>
      if found.toOption.getD false then .ret .done
      else if tm.ddl = [] then .ret .skipped
      else
        (perform (Call.executeDdl (.table db table) (ctx.objectDdl tableKey tm))).bind
          fun (reply : Except Str Unit) =>
            match reply with
            | .ok _ => .ret .done
            | .error e => .ret (.failed e)

/-- `create_ddl_objects`. -/
def createDdlObjects (ddlKeys : List Str) : RestoreProg Unit :=
  if ddlKeys = [] then .ret () else retryLoop ctx.env.isPrintable "create" ctx.createDdlObject maxRounds ddlKeys

/-- `create_functions`: a function that cannot be created is only reported. -/
def createFunctions : RestoreProg Unit :=
  (forEach ctx.manifest.functions fun ddl =>
    (perform (Call.executeDdl .function (match ctx.env.onCluster with
      | some cluster => addOnClusterClause ddl cluster
      | none => ddl))).bind fun _ => .ret ()).bind fun _ => .ret ()

end RestoreContext

/-- `detect_replicated_databases`. -/
def detectReplicatedDatabases (manifest : BackupManifest) (remap : Option RemapConfig) :
    RestoreProg (List Str) :=
  let dbs := (manifest.databases.map fun db => destinationDatabase remap db.name).dedup
  (forEach dbs fun db =>
    (perform (Call.queryDatabaseEngine db)).bind fun (reply : Except Str Str) =>
      .ret (db, reply.toOption == some ("Replicated" : Str))).bind fun found =>
        .ret ((found.filter Prod.snd).map Prod.fst)

end Chbackup
