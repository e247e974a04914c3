import Chbackup.Backup.Diff
import Chbackup.Layout
import Chbackup.Resume

/-!
# Planning an upload

The keys an upload writes to, and the work items it makes of a manifest (`src/upload/mod.rs`).
A part on an S3 object disk is copied object by object; every other part is packed into one
archive.  Carried parts, and parts whose key the resume state lists as completed, make no item.
-/

namespace Chbackup

/-- What an upload of one backup depends on besides the state it leaves behind: its arguments,
the configuration, and the files, the server and the base backup as it finds them. -/
structure UploadEnv where
  backupName : Str
  backupDir : Str
  /-- The compression of the configuration. -/
  dataFormat : Str
  /-- Resuming is asked for and enabled. -/
  useResume : Bool
  diffFromRemote : Option Str
  /-- What reading and parsing the manifest of the base gives. -/
  baseManifest : Except Str BackupManifest
  /-- The remote paths of the server's disks; absent when the server cannot be asked. -/
  liveDiskPaths : Option (List (Str × Str))
  backupBucket : Str
  pathExists : Str → Bool
  /-- The alphabetic and numeric characters. -/
  isAlphanumeric : Char → Bool
  /-- The size of the archive made of a directory. -/
  archiveSize : Str → Nat

/-- `archive_extension`. -/
def archiveExtension (dataFormat : Str) : Str :=
  if dataFormat = "lz4" then ".tar.lz4"
  else if dataFormat = "zstd" then ".tar.zstd"
  else if dataFormat = "gzip" then ".tar.gz"
  else if dataFormat = "none" then ".tar"
  else ".tar.lz4"

/-- `parse_s3_uri`: bucket and prefix. -/
def parseS3Uri (uri : Str) : Str × Str :=
  match (Str.stripPrefix? "s3://" uri).or (Str.stripPrefix? "S3://" uri) with
  | some rest => (Str.splitOnce '/' (rest.trimEnd '/')).getD (rest.trimEnd '/', [])
  | none => ([], uri.trimEnd '/')

namespace UploadEnv

variable (env : UploadEnv)

/-- The directory of a table below the backup, with encoded names. -/
def tableDataKey (tableKey : Str) : Str :=
  env.backupName ++ "/data/" ++ encodePathComponent env.isAlphanumeric (splitTableKey tableKey).1 ++
    "/" ++ encodePathComponent env.isAlphanumeric (splitTableKey tableKey).2 ++ "/"

/-- `s3_key_for_part`. -/
def s3KeyForPart (tableKey partName : Str) : Str :=
  env.tableDataKey tableKey ++ partName ++ archiveExtension env.dataFormat

/-- The key of the metadata directory of a part on an S3 disk. -/
def metadataKey (tableKey diskName partName : Str) : Str :=
  env.tableDataKey tableKey ++ diskName ++ "/" ++ partName ++ "/"

/-- `resolve_shadow_part_path`, for the backup that is uploaded. -/
def resolveShadowPartPath : SortedMap Str Str → Str → Str → Str → Str → Str → Str → Option Str :=
  Chbackup.resolveShadowPartPath env.pathExists env.backupDir env.backupName

/-- `find_part_dir`. -/
def findPartDir (disks : SortedMap Str Str) (tableKey diskName partName : Str) : Except Str Str :=
  let db := (splitTableKey tableKey).1
  let table := (splitTableKey tableKey).2
  match env.resolveShadowPartPath disks diskName (encodePathComponent env.isAlphanumeric db)
      (encodePathComponent env.isAlphanumeric table) db table partName with
  | some dir => .ok dir
  | none => .error ("Part directory not found for ".toList ++ db ++ "." ++ table ++ "/" ++ partName ++
      " (checked per-disk, legacy encoded, and legacy plain paths)")

end UploadEnv

/-- A part to upload: an archive to make, or the objects of an S3-disk part to copy. -/
inductive WorkItem where
  | archive (tableKey diskName : Str) (part : PartInfo) (partDir s3Key : Str)
  | s3Disk (tableKey diskName : Str) (part : PartInfo) (s3Objects : List S3ObjectInfo)
      (sourceBucket sourcePrefix partDir : Str)
  deriving DecidableEq

namespace WorkItem

/-- The table of the part. -/
def tableKey : WorkItem → Str
  | .archive tableKey _ _ _ _ => tableKey
  | .s3Disk tableKey _ _ _ _ _ _ => tableKey

/-- The disk of the part. -/
def diskName : WorkItem → Str
  | .archive _ diskName _ _ _ => diskName
  | .s3Disk _ diskName _ _ _ _ _ => diskName

/-- The part as the manifest has it. -/
def part : WorkItem → PartInfo
  | .archive _ _ part _ _ => part
  | .s3Disk _ _ part _ _ _ _ => part

/-- Whether the part goes through the archive queue. -/
def isArchive : WorkItem → Bool
  | .archive .. => true
  | .s3Disk .. => false

end WorkItem

/-- Whether a disk of the manifest is an S3 object disk. -/
def BackupManifest.diskIsS3 (m : BackupManifest) (diskName : Str) : Bool :=
  ((m.diskTypes.get? diskName).map isS3Disk).getD false

section

variable (env : UploadEnv) (m : BackupManifest)

/-- Where the objects of an S3 disk are copied from. -/
def copySource (diskName : Str) : Str × Str :=
  let remotePath := (m.diskRemotePaths.get? diskName).getD []
  let source := if remotePath = [] then (env.backupBucket, []) else parseS3Uri remotePath
  (if source.1 = [] then env.backupBucket else source.1, source.2)

/-- The body of the planning loop: the item of one part, if it needs one.  The directory of an
archived part is looked up before the resume state is consulted, that of an S3-disk part after. -/
def planPart (completedKeys : List Str) (tableKey diskName : Str) (part : PartInfo) :
    Except Str (Option WorkItem) :=
  if part.isCarried then .ok none
  else if m.diskIsS3 diskName && part.s3Objects.isSome then
    if env.metadataKey tableKey diskName part.name ∈ completedKeys then .ok none
    else
      (env.findPartDir m.disks tableKey diskName part.name).map fun partDir =>
        some (.s3Disk tableKey diskName part (part.s3Objects.getD []) (copySource env m diskName).1
          (copySource env m diskName).2 partDir)
  else
    (env.findPartDir m.disks tableKey diskName part.name).bind fun partDir =>
      if !env.pathExists partDir then
        .error ("Part directory not found: ".toList ++ part.name ++ " (expected at " ++ partDir ++
          ")")
      else if env.s3KeyForPart tableKey part.name ∈ completedKeys then .ok none
      else .ok (some (.archive tableKey diskName part partDir
        (env.s3KeyForPart tableKey part.name)))

/-- The parts that the planning loop visits, with their table and disk.  Metadata-only tables
are left out. -/
def plannedParts : List (Str × Str × PartInfo) :=
  m.tables.entries.flatMap fun t =>
    if t.2.metadataOnly then []
    else t.2.parts.entries.flatMap fun d => d.2.map fun p => (t.1, d.1, p)

/-- The planning loop over a list of parts, stopping at the first error. -/
def planParts (completedKeys : List Str) :
    List (Str × Str × PartInfo) → Except Str (List WorkItem)
  | [] => .ok []
  | x :: xs =>
    (planPart env m completedKeys x.1 x.2.1 x.2.2).bind fun item =>
      (planParts completedKeys xs).map fun items => item.toList ++ items

/-- The two queues of an upload, archives first. -/
def planUpload (completedKeys : List Str) : Except Str (List WorkItem) :=
  (planParts env m completedKeys (plannedParts m)).map fun items =>
    items.filter WorkItem.isArchive ++ items.filter fun i => !i.isArchive

/-- How many parts the planning loop leaves to the base backup. -/
def carriedCount : Nat := ((plannedParts m).filter fun x => x.2.2.isCarried).length

end

end Chbackup
