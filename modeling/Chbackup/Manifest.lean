import Chbackup.Lib.SortedMap
import Chbackup.Lib.Text

/-!
# The backup manifest

`metadata.json`, the record that flows between every command (`src/manifest.rs`).  Numbers are
natural numbers; the maps are the source's ordered maps.  Fields that no modelled function
reads or writes (the schema and server versions, the RBAC pointer) are left out.
-/

namespace Chbackup

/-- A reference to an S3 object inside a part on an S3 object disk. -/
structure S3ObjectInfo where
  /-- Object path relative to the disk root. -/
  path : Str
  size : Nat
  /-- Key of the copy in the backup bucket; empty until uploaded. -/
  backupKey : Str
  deriving DecidableEq, Inhabited

/-- One data part. -/
structure PartInfo where
  name : Str
  size : Nat
  /-- Key of the archive, or of the metadata directory of an S3-disk part (ending in `/`). -/
  backupKey : Str
  /-- `uploaded`, or `carried:` followed by the name of the base backup. -/
  source : Str
  checksumCrc64 : Nat
  s3Objects : Option (List S3ObjectInfo)
  backupSize : Nat
  deriving DecidableEq, Inhabited

/-- `PartInfo::new`: a freshly collected part, not uploaded yet. -/
def PartInfo.new (name : Str) (size crc64 : Nat) : PartInfo where
  name := name
  size := size
  backupKey := []
  source := "uploaded"
  checksumCrc64 := crc64
  s3Objects := none
  backupSize := 0

/-- `PartInfo::with_s3_objects`. -/
def PartInfo.withS3Objects (p : PartInfo) (objects : List S3ObjectInfo) : PartInfo :=
  { p with s3Objects := some objects }

/-- The prefix of the `source` of a part whose data another backup holds. -/
def carriedPrefix : Str := "carried:"

/-- Whether a part's data is held by another backup. -/
def PartInfo.isCarried (p : PartInfo) : Bool := carriedPrefix.isPrefixOf p.source

/-- A mutation that was pending when the backup was made. -/
structure MutationInfo where
  mutationId : Str
  command : Str
  partsToDo : List Str
  deriving DecidableEq, Inhabited

/-- What the backup records about one table. -/
structure TableManifest where
  ddl : Str
  uuid : Option Str
  engine : Str
  totalBytes : Nat
  /-- Parts by disk name. -/
  parts : SortedMap Str (List PartInfo)
  pendingMutations : List MutationInfo
  metadataOnly : Bool
  dependencies : List Str
  deriving DecidableEq, Inhabited

/-- A database and its CREATE statement. -/
structure DatabaseInfo where
  name : Str
  ddl : Str
  deriving DecidableEq, Inhabited

/-- The top-level manifest. -/
structure BackupManifest where
  name : Str
  /-- Creation time, as a count of time units since the epoch. -/
  timestamp : Int
  dataFormat : Str
  compressedSize : Nat
  metadataSize : Nat
  /-- Disk name to disk path. -/
  disks : SortedMap Str Str
  /-- Disk name to disk type. -/
  diskTypes : SortedMap Str Str
  /-- Disk name to the remote path of an S3 disk. -/
  diskRemotePaths : SortedMap Str Str
  /-- Tables by `db.table`. -/
  tables : SortedMap Str TableManifest
  databases : List DatabaseInfo
  functions : List Str
  namedCollections : List Str
  rbacSize : Nat
  configSize : Nat
  strippedProjections : List Str
  deriving DecidableEq, Inhabited

/-- Every part of a table, disk by disk. -/
def TableManifest.allParts (t : TableManifest) : List PartInfo := t.parts.values.flatten

/-- Every part of a manifest, table by table and disk by disk. -/
def BackupManifest.allParts (m : BackupManifest) : List PartInfo :=
  m.tables.values.flatMap TableManifest.allParts

theorem BackupManifest.mem_allParts {m : BackupManifest} {p : PartInfo} :
    p ∈ m.allParts ↔
      ∃ key table disk parts, (key, table) ∈ m.tables ∧ (disk, parts) ∈ table.parts ∧
        p ∈ parts := by
  simp only [allParts, TableManifest.allParts, SortedMap.values, List.mem_flatMap,
    List.mem_flatten, List.mem_map, Prod.exists, exists_eq_right, SortedMap.mem_iff]
  constructor
  · rintro ⟨table, ⟨key, hkey⟩, parts, ⟨disk, hdisk⟩, hp⟩
    exact ⟨key, table, disk, parts, hkey, hdisk, hp⟩
  · rintro ⟨key, table, disk, parts, hkey, hdisk, hp⟩
    exact ⟨table, ⟨key, hkey⟩, parts, ⟨disk, hdisk⟩, hp⟩

end Chbackup
