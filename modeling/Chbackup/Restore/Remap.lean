import Chbackup.Layout

/-!
# Where a restored object goes

The `--as` and `-m` flags of a restore (`src/restore/remap.rs`).  `--as` renames single tables,
`-m` renames databases; a table that `--as` names is not looked up in the database mapping.
-/

namespace Chbackup

/-- A table rename: source database and table, destination database and table. -/
structure TableRename where
  srcDb : Str
  srcTable : Str
  dstDb : Str
  dstTable : Str
  deriving DecidableEq

/-- `RemapConfig`. -/
structure RemapConfig where
  renameAs : List TableRename
  databaseMapping : SortedMap Str Str
  /-- The ZooKeeper path of the configuration for replicated tables that are renamed. -/
  defaultReplicaPath : Str
  deriving DecidableEq

/-- `parse_table_mapping`, one pair of it. -/
def parseTablePair (pair : Str) : Except Str TableRename :=
  match Str.splitOnce ':' pair with
  | none => .error ("Invalid table mapping '".toList ++ pair ++
      "': expected format 'src_db.src_table:dst_db.dst_table'")
  | some (s, d) =>
    match Str.splitOnce '.' s.trim with
    | none => .error ("Invalid table mapping source '".toList ++ s.trim ++
        "': expected db.table format")
    | some (srcDb, srcTable) =>
      match Str.splitOnce '.' d.trim with
      | none => .error ("Invalid table mapping destination '".toList ++ d.trim ++
          "': expected db.table format")
      | some (dstDb, dstTable) => .ok ⟨srcDb, srcTable, dstDb, dstTable⟩

/-- The pieces of a comma-separated list that are not blank. -/
def commaPieces (s : Str) : List Str :=
  ((s.splitOn ',').map Str.trim).filter fun piece => piece ≠ []

/-- `parse_table_mapping`. -/
def parseTableMapping (s : Str) : Except Str (List TableRename) := do
  let mappings ← (commaPieces s).mapM parseTablePair
  if mappings = [] then .error "--as value is empty or contains no valid mappings"
  else .ok mappings

/-- `parse_database_mapping`, one pair of it. -/
def parseDatabasePair (pair : Str) : Except Str (Str × Str) :=
  match Str.splitOnce ':' pair with
  | none => .error ("Invalid database mapping '".toList ++ pair ++
      "': expected format 'src:dst', e.g. 'prod:staging'")
  | some (s, d) =>
    if s.trim = [] ∨ d.trim = [] then
      .error ("Invalid database mapping '".toList ++ pair ++
        "': source and destination must not be empty")
    else .ok (s.trim, d.trim)

/-- `parse_database_mapping`: a later pair of one source replaces an earlier one. -/
def parseDatabaseMapping (s : Str) : Except Str (SortedMap Str Str) := do
  if s.trim = [] then return SortedMap.empty
  let pairs ← (commaPieces s.trim).mapM parseDatabasePair
  return pairs.foldl (fun m pair => m.insert pair.1 pair.2) SortedMap.empty

namespace RemapConfig

/-- The renames of the `--as` flag. -/
def parseRenameAs (renameAs tablePattern : Option Str) : Except Str (List TableRename) :=
  match renameAs with
  | none => .ok []
  | some as =>
    if ':' ∈ as then parseTableMapping as
    else match tablePattern with
      | none => .error "--as flag requires -t flag to specify the source table (e.g. -t src_db.src_table --as dst_db.dst_table), or use multi-table format: --as 'src_db.src:dst_db.dst'"
      | some pattern =>
        match Str.splitOnce '.' pattern with
        | none => .error ("--as flag requires -t pattern in db.table format, got '".toList ++
            pattern ++ "'")
        | some (srcDb, srcTable) =>
          if '*' ∈ srcTable ∨ '?' ∈ srcTable ∨ '*' ∈ srcDb ∨ '?' ∈ srcDb then
            .error ("--as flag requires -t to specify a single table (no wildcards), got '".toList ++
              pattern ++ "'")
          else match Str.splitOnce '.' as with
            | none => .error ("--as value must be in db.table format, got '".toList ++ as ++ "'")
            | some (dstDb, dstTable) => .ok [⟨srcDb, srcTable, dstDb, dstTable⟩]

/-- `RemapConfig::new`. -/
def new (renameAs tablePattern dbMapping : Option Str) (defaultReplicaPath : Str) :
    Except Str (Option RemapConfig) := do
  let renames ← parseRenameAs renameAs tablePattern
  let mapping ← match dbMapping with
    | some s => if s = [] then .ok SortedMap.empty else parseDatabaseMapping s
    | none => .ok SortedMap.empty
  if renames = [] ∧ mapping.entries = [] then return none
  return some ⟨renames, mapping, defaultReplicaPath⟩

/-- `RemapConfig::is_active`. -/
def isActive (rc : RemapConfig) : Bool :=
  !rc.renameAs.isEmpty || !rc.databaseMapping.entries.isEmpty

/-- `RemapConfig::remap_table_key`. -/
def remapTableKey (rc : RemapConfig) (originalKey : Str) : Str × Str :=
  let origDb := (splitTableKey originalKey).1
  let origTable := (splitTableKey originalKey).2
  match rc.renameAs.find? fun r => origDb = r.srcDb && origTable = r.srcTable with
  | some r => (r.dstDb, r.dstTable)
  | none =>
    match rc.databaseMapping.get? origDb with
    | some dstDb => (dstDb, origTable)
    | none => (origDb, origTable)

end RemapConfig

/-- The destination of a table key, which every phase of the restore works out the same way. -/
def destination (remap : Option RemapConfig) (tableKey : Str) : Str × Str :=
  match remap with
  | some rc => if rc.isActive then rc.remapTableKey tableKey else splitTableKey tableKey
  | none => splitTableKey tableKey

/-- The destination of a database of the manifest. -/
def destinationDatabase (remap : Option RemapConfig) (db : Str) : Str :=
  match remap with
  | some rc => if rc.isActive then (rc.remapTableKey (db ++ ".dummy")).1 else db
  | none => db

/-- The rename that applies to a table, when the restore has to rewrite its statement. -/
def renamed? (remap : Option RemapConfig) (tableKey : Str) : Option RemapConfig :=
  remap.filter fun rc => rc.isActive && rc.remapTableKey tableKey ≠ splitTableKey tableKey

end Chbackup
