import Chbackup.Backup.Stage
import Chbackup.Restore.Calls
import Chbackup.Upload.Plan

/-!
# Collecting a frozen table

`build_uuid_map`, `collect_parts` and `process_shadow_part` (`src/backup/collect.rs`), and the
`TableManifest` that `create` makes of what they return (`src/backup/mod.rs`).  The shadow
directories of one freeze name are a function from the directory of a disk to a tree; failures of
the file system are left out.
-/

namespace Chbackup

/-- A row of the server's table list with the further columns that `create` reads. -/
structure SystemTable extends TableRow where
  engine : Str
  createTableQuery : Str
  deriving DecidableEq

/-- `{db}.{table}`. -/
def fullTableName (db table : Str) : Str := db ++ '.' :: table

/-- The nil UUID, which stands for no UUID. -/
def nilUuid : Str := "00000000-0000-0000-0000-000000000000"

/-- `normalize_uuid`. -/
def normalizeUuid (uuid : Str) : Option Str := if uuid = [] ∨ uuid = nilUuid then none else some uuid

/-- `is_data_engine`, which `build_uuid_map` spells out. -/
def isDataEngine (engine : Str) : Bool :=
  "MergeTree".toList.isSuffixOf engine || engine = "MaterializedMySQL" ||
    engine = "MaterializedPostgreSQL"

/-! ## `build_uuid_map` -/

/-- An entry of the UUID map: a table and whether its engine holds data. -/
structure UuidEntry where
  database : Str
  table : Str
  isData : Bool
  deriving DecidableEq

/-- `insert_with_priority`. -/
def insertWithPriority (map : SortedMap Str UuidEntry) (key : Str) (entry : UuidEntry) :
    SortedMap Str UuidEntry :=
  match map.get? key with
  | none => map.insert key entry
  | some existing => if entry.isData && !existing.isData then map.insert key entry else map

/-- The last component of a data path. -/
def uuidDir (dataPath : Str) : Str := (Str.rsplitN 1 '/' (dataPath.trimEnd '/')).headD []

/-- The names under which a table is found: the directories of its data, and its UUID. -/
def uuidKeys (table : SystemTable) : List Str :=
  table.dataPaths.map uuidDir ++ (normalizeUuid table.uuid).toList

/-- The entry of a table. -/
def SystemTable.uuidEntry (table : SystemTable) : UuidEntry :=
  ⟨table.database, table.name, isDataEngine table.engine⟩

/-- `build_uuid_map`. -/
def buildUuidMap (tables : List SystemTable) : SortedMap Str UuidEntry :=
  tables.foldl
    (fun map table =>
      (uuidKeys table).foldl (fun map key => insertWithPriority map key table.uuidEntry) map)
    .empty

/-! ## `collect_parts` -/

/-- `is_disk_excluded`. -/
def isDiskExcluded (diskName diskType : Str) (skipDisks skipDiskTypes : List Str) : Bool :=
  skipDisks.contains diskName || skipDiskTypes.contains diskType

/-- What `collect_parts` is given besides the shadow directories. -/
structure CollectEnv where
  dataPath : Str
  tables : List SystemTable
  diskTypeMap : SortedMap Str Str
  diskPaths : SortedMap Str Str
  diskRemotePaths : SortedMap Str Str
  skipDisks : List Str
  skipDiskTypes : List Str
  skipProjections : List Str
  /-- The parts of a remote base: checksum and size by table, disk and part. -/
  baseParts : Str → Str → Str → Option (Nat × Nat)
  cacheDiskNames : List Str
  /-- The patterns of the glob library. -/
  glob : Str → Option (Str → Bool)
  /-- How the bytes of a name that is no text are displayed. -/
  lossy : List UInt8 → Str

/-- The shadow directories of a freeze name: the entries of each by the directory of its disk. -/
structure ShadowDirs where
  freezeName : Str
  entries : Str → Option (List PartTree)

/-- A table directory in a shadow directory, with the table that it is taken for. -/
structure ShadowTable where
  database : Str
  table : Str
  path : Str
  entries : List PartTree

/-- A part found in a shadow directory. -/
structure CollectedPart where
  database : Str
  table : Str
  partInfo : PartInfo
  diskName : Str

/-- The key of the result map under which a part is collected. -/
def CollectedPart.tableKey (p : CollectedPart) : Str := fullTableName p.database p.table

/-- What a shadow walk has found.  The vectors of the result map are kept in one list: the vector
of a table consists of the parts with its key. -/
structure CollectedShadow where
  parts : List CollectedPart
  strippedProjections : List Str

namespace CollectEnv

variable (env : CollectEnv)

/-- The type of a disk. -/
def diskType (diskName : Str) : Str := (env.diskTypeMap.get? diskName).getD []

/-- Whether a disk is left out. -/
def excluded (diskName : Str) : Bool :=
  isDiskExcluded diskName (env.diskType diskName) env.skipDisks env.skipDiskTypes

/-- One disk on the way to the map from paths to disks: a disk that is not a cache replaces a
cache disk with the same path. -/
def addDiskPath (map : SortedMap Str (Str × Bool)) (disk : Str × Str) : SortedMap Str (Str × Bool) :=
  let normalized := disk.2.trimEnd '/'
  let isCache := env.cacheDiskNames.contains disk.1
  match map.get? normalized with
  | none => map.insert normalized (disk.1, isCache)
  | some existing => if existing.2 && !isCache then map.insert normalized (disk.1, isCache) else map

/-- The map from paths to disks. -/
def pathToDisk : SortedMap Str (Str × Bool) := env.diskPaths.entries.foldl env.addDiskPath .empty

/-- The disks to walk, by name and path.  The data path is walked as `default` if it is not among
them. -/
def pathsToWalk : List (Str × Str) :=
  let paths := env.pathToDisk.entries.map fun b => (b.2.1, b.1)
  if paths.any fun p => p.2.trimEnd '/' = env.dataPath.trimEnd '/' then paths
  else paths ++ [("default".toList, env.dataPath)]

/-- `dir_size`, added up in 64 bits. -/
def dirSize (entries : List PartTree) : Nat :=
  (((DirTree.walkAll [] entries).filter (·.data.regular)).map (·.data.len)).sum % 2 ^ 64

/-- The entry of a directory with a given name. -/
def entry? (name : Str) (entries : List PartTree) : Option PartTree :=
  entries.find? fun
    | .file n _ => n = .utf8 name
    | .dir n _ => n = .utf8 name

/-- `process_shadow_part`: the record of a part with the given checksum. -/
def partRecord (isS3 : Bool) (sourceKeyPrefix partDir db table diskName partName : Str) (crc64 : Nat)
    (entries : List PartTree) : Except Str PartInfo :=
  let base := (env.baseParts (fullTableName db table) diskName partName).filter (·.1 = crc64)
  match base with
  | some (_, baseSize) =>
    let partInfo := PartInfo.new partName baseSize crc64
    if isS3 then do
      let (s3Objects, _) ← collectS3PartMetadata partDir sourceKeyPrefix entries
      return partInfo.withS3Objects s3Objects
    else .ok partInfo
  | none =>
    if isS3 then do
      let part ← stageS3Part env.glob env.skipProjections sourceKeyPrefix partDir partName crc64 entries
      return part.info
    else .ok (PartInfo.new partName (dirSize entries) crc64)

/-- `process_shadow_part`: the projections stripped while a part is staged.  A part that the base
holds is not staged. -/
def partStripped (db table diskName partName : Str) (crc64 : Nat) (entries : List PartTree) : List Str :=
  match (env.baseParts (fullTableName db table) diskName partName).filter (·.1 = crc64) with
  | some _ => []
  | none => strippedBy env.glob env.skipProjections (.utf8 partName) entries

/-- `process_shadow_part`. -/
def processShadowPart (isS3 : Bool) (sourceKeyPrefix diskName tableDir db table : Str)
    (result : CollectedShadow) (part : OsName × List PartTree) : Except Str CollectedShadow :=
  match part.1.toStr with
  | none => .ok result
  | some partName =>
    match entry? "checksums.txt" part.2 with
    | none => .ok result
    | some checksums =>
      let isDuplicate := result.parts.any fun p =>
        p.tableKey = fullTableName db table && p.diskName = diskName && p.partInfo.name = partName
      if isDuplicate then .ok result
      else
        match checksums with
        | .dir _ _ => .error ("Failed to compute CRC64 for ".toList ++ fullTableName db table ++
            '/' :: partName)
        | .file _ file => do
          let info ← env.partRecord isS3 sourceKeyPrefix (tableDir.pathJoin partName) db table diskName partName
            file.crc64 part.2
          let stripped := env.partStripped db table diskName partName file.crc64 part.2
          return ⟨result.parts ++ [⟨db, table, info, diskName⟩], result.strippedProjections ++ stripped⟩

/-- The directories among the entries of a directory. -/
def subdirs (entries : List PartTree) : List (OsName × List PartTree) :=
  entries.filterMap fun
    | .file _ _ => none
    | .dir n es => some (n, es)

/-- The subdirectory of a shadow directory for one layout, if it is there. -/
def layoutDir (name dir : Str) (shadow : List PartTree) : Except Str (List PartTree) :=
  match entry? name shadow with
  | none => .ok []
  | some (.dir _ entries) => .ok entries
  | some (.file _ _) => .error ("Failed to read shadow ".toList ++ name ++ " dir: " ++ dir.pathJoin name)

/-- The table directories of the Atomic layout, `store/{prefix}/{uuid}`. -/
def storeTables (storeDir : Str) (store : List PartTree) : List ShadowTable :=
  (subdirs store).flatMap fun prefixDir =>
    (subdirs prefixDir.2).filterMap fun uuidDir =>
      (uuidDir.1.toStr.bind (buildUuidMap env.tables).get?).map fun entry =>
        { database := entry.database
          table := entry.table
          path := (storeDir.pathJoin (prefixDir.1.display env.lossy)).pathJoin (uuidDir.1.display env.lossy)
          entries := uuidDir.2 }

/-- The table directories of the Ordinary layout, `data/{database}/{table}`. -/
def dataTables (dataDir : Str) (data : List PartTree) : List ShadowTable :=
  (subdirs data).flatMap fun dbDir =>
    match dbDir.1.toStr with
    | none => []
    | some db => (subdirs dbDir.2).filterMap fun tableDir =>
        tableDir.1.toStr.map fun table => ⟨db, table, (dataDir.pathJoin db).pathJoin table, tableDir.2⟩

/-- The parts of some table directories. -/
def collectTables (isS3 : Bool) (sourceKeyPrefix diskName : Str)
    (tables : List ShadowTable) (result : CollectedShadow) : Except Str CollectedShadow :=
  tables.foldlM
    (fun result t =>
      (subdirs t.entries).foldlM (env.processShadowPart isS3 sourceKeyPrefix diskName t.path t.database t.table)
        result)
    result

/-- The walk of one shadow directory. -/
def walkShadow (diskName dir : Str) (shadow : List PartTree) (result : CollectedShadow) :
    Except Str CollectedShadow := do
  let isS3 := isS3Disk (env.diskType diskName)
  let sourceKeyPrefix := (parseS3Uri ((env.diskRemotePaths.get? diskName).getD [])).2
  let store ← layoutDir "store" dir shadow
  let result ← env.collectTables isS3 sourceKeyPrefix diskName (env.storeTables (dir.pathJoin "store") store) result
  let data ← layoutDir "data" dir shadow
  env.collectTables isS3 sourceKeyPrefix diskName (dataTables (dir.pathJoin "data") data) result

/-- The directory a path names: slashes at its end do not count, except for the root, and an empty
path is the working directory. -/
def location (path : Str) : Str :=
  if path.trimEnd '/' = [] ∧ path ≠ [] then ['/'] else path.trimEnd '/'

/-- `collect_parts`. -/
def collectParts (shadow : ShadowDirs) : Except Str CollectedShadow :=
  env.pathsToWalk.foldlM
    (fun result disk =>
      if env.excluded disk.1 then .ok result
      else
        match shadow.entries (location disk.2) with
        | none => .ok result
        | some entries =>
          env.walkShadow disk.1 ((disk.2.pathJoin "shadow").pathJoin shadow.freezeName) entries result)
    ⟨[], []⟩

end CollectEnv

/-! ## The table's record -/

/-- The parts of a table grouped by disk. -/
def partsByDisk (collected : List CollectedPart) : SortedMap Str (List PartInfo) :=
  collected.foldl
    (fun map p => map.insert p.diskName ((map.get? p.diskName).getD [] ++ [p.partInfo])) .empty

/-- The end of a freeze task: the `TableManifest` of a frozen table. -/
def frozenTableManifest (env : CollectEnv) (shadow : ShadowDirs) (row : SystemTable)
    (pendingMutations : List MutationInfo) (dependencies : List Str) :
    Except Str TableManifest := do
  let found ← env.collectParts shadow
  let collected := found.parts.filter fun p => p.tableKey = fullTableName row.database row.name
  let totalBytes := (collected.map (·.partInfo.size)).sum % 2 ^ 64
  return ⟨row.createTableQuery, normalizeUuid row.uuid, row.engine, totalBytes,
    partsByDisk collected, pendingMutations, false, dependencies⟩

end Chbackup
