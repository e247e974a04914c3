import Chbackup.Chain.Format
import Chbackup.Download.Paths
import Chbackup.Lib.World
import Chbackup.Resume

/-!
# The download command

`download` (`src/download/mod.rs`) as a program over its calls to the bucket and to the local disk.
The parts are downloaded by parallel tasks; a schedule of calls gives their interleaving.  A task that
is cancelled stops before its next call and reports no error, and the command fails afterwards.

Reads that only look at the host or at other local backups are parameters of the program.  The texts
that the source puts in front of the error of a call are left out.
-/

namespace Chbackup

open CallTree

/-- `DownloadState`. -/
structure DownloadState where
  completedKeys : List Str
  backupName : Str
  paramsHash : Str
  diskMap : SortedMap Str Str
  deriving DecidableEq

/-- A part directory: the CRC64 of its `checksums.txt`, if the file is there. -/
structure PartDir where
  checksums : Option Nat
  deriving DecidableEq

/-- The options of the command and the host it runs on. -/
structure DownloadEnv where
  dataPath : Str
  backupName : Str
  resume : Bool
  useResumableState : Bool
  hardlinkExistsFiles : Bool
  retriesOnFailure : Nat
  /-- The prefix of the bucket client. -/
  s3Prefix : Str
  isAlphanumeric : Char → Bool
  host : PathHost
  /-- The names in a directory of backups. -/
  readDir : Str → List Str
  /-- The CRC64 of the `checksums.txt` of a part directory of another backup. -/
  crcAt : Str → Option Nat
  /-- Which task makes the next call. -/
  schedule : List Nat

/-- The calls of a download. -/
inductive DownloadCall where
  | fetchManifest (key : Str)
  /-- `create_dir_all` of the directory and the check of its free space. -/
  | preflight (dir : Str) (required : Nat)
  | createDirs (path : Str)
  | loadState (path : Str)
  | saveState (path : Str) (state : DownloadState)
  /-- The state that the tasks share. -/
  | shareState (state : DownloadState)
  /-- The key is added to the shared state, and the state is saved. -/
  | recordKey (path key : Str)
  | isCancelled
  | listObjects (dir : Str)
  | fetchObject (key : Str)
  /-- The file is written, and the directories on the way to it. -/
  | writeFile (path : Str)
  | createPartDir (place : Place)
  | writeMetadata (place : Place) (file : Str)
  /-- `hardlink_existing_part`. -/
  | hardlink (existing : Str) (place : Place)
  /-- The archive is streamed into the temporary file. -/
  | fetchArchive (key : Str) (place : Place)
  /-- `decompress_part_file` into the shadow directory of the table. -/
  | unpack (place : Place) (key format : Str)
  | removeTmp (place : Place)
  | readChecksums (place : Place)
  | removePart (place : Place)
  | saveManifest (path : Str) (m : BackupManifest)
  | deleteState (path : Str)

/-- The replies.  A call that changes a part directory also says what it leaves there. -/
abbrev DownloadCall.Reply : DownloadCall → Type
  | .fetchManifest _ => Except Str (BackupManifest × Bool)
  | .preflight _ _ | .createDirs _ | .fetchObject _ | .writeFile _ | .createPartDir _
  | .saveManifest _ _ => Except Str Unit
  | .loadState _ => Except Str (Option DownloadState)
  | .saveState _ _ | .recordKey _ _ | .isCancelled | .deleteState _ => Bool
  | .shareState _ | .removeTmp _ => Unit
  | .listObjects _ => Except Str (List Str)
  | .writeMetadata _ _ | .hardlink _ _ | .unpack _ _ _ => Except Str Unit × Option PartDir
  | .fetchArchive _ _ => Except Str Nat
  | .readChecksums _ => Except Str (Option Nat)
  | .removePart _ => Option PartDir

/-- A program over these calls. -/
abbrev DownloadProg (ε α : Type) : Type := Prog DownloadCall DownloadCall.Reply ε α

/-- A call with its reply. -/
abbrev DownloadEvent : Type := Event DownloadCall DownloadCall.Reply

namespace DownloadEnv

variable (env : DownloadEnv) (m : BackupManifest)

def backupDir : Str := (env.dataPath.pathJoin "backup").pathJoin env.backupName

def statePath : Str := env.backupDir.pathJoin "download.state.json"

/-- The hash that the state file of this download carries. -/
def paramsHash : Str := computeParamsHash [env.backupName]

def useResume : Bool := env.resume && env.useResumableState

/-- The keys that are taken as downloaded: those of a readable state file of the same backup. -/
def completedKeys : Except Str (Option DownloadState) → List Str
  | .ok (some state) =>
    if state.paramsHash ≠ env.paramsHash then []
    else if state.backupName ≠ env.backupName then []
    else state.completedKeys
  | .ok none => []
  | .error _ => []

/-- The state of this download with some completed keys. -/
def stateWith (completedKeys : List Str) : DownloadState :=
  ⟨completedKeys, env.backupName, env.paramsHash, m.disks⟩

/-- The place of a part of a table on a disk. -/
def placeOf (tableKey diskName partName : Str) : Place where
  targetDir := resolveDownloadTargetDir env.host m.disks diskName env.backupName env.backupDir
  urlDb := encodePathComponent env.isAlphanumeric (splitTableKey tableKey).1
  urlTable := encodePathComponent env.isAlphanumeric (splitTableKey tableKey).2
  partName := partName

/-! ## Parts of other local backups -/

/-- The directories of backups that are searched for a part. -/
def searchBases (diskName : Str) : List Str :=
  let canonical (dir : Str) := (env.host.canonicalize dir).getD dir
  let default := env.dataPath.pathJoin "backup"
  match m.disks.get? diskName with
  | some diskPath =>
    let base := Str.pathJoin (diskPath.trimEnd '/') "backup"
    if validateDiskPath env.host (diskPath.trimEnd '/') && env.host.pathExists base &&
        canonical base ≠ canonical default then
      [default, base]
    else [default]
  | none => [default]

/-- `find_existing_part`. -/
def findExistingPart (tableKey partName : Str) (expectedCrc : Nat) (diskName : Str) : Option Str :=
  let place := env.placeOf m tableKey diskName partName
  if expectedCrc = 0 then none
  else
    ((env.searchBases m diskName).flatMap fun base =>
      ((env.readDir base).filter (· ≠ env.backupName)).map fun name =>
        { place with targetDir := base.pathJoin name }.partDir).find? fun candidate =>
          env.crcAt candidate = some expectedCrc

/-! ## The space that is needed -/

/-- The size of the parts on each disk that is not an S3 disk. -/
def spaceByDisk : SortedMap Str Nat :=
  m.tables.entries.foldl (fun acc t =>
    t.2.parts.entries.foldl (fun acc d =>
      if m.diskIsS3 d.1 then acc
      else acc.insert d.1 ((acc.get? d.1).getD 0 + (d.2.map PartInfo.size).sum)) acc) SortedMap.empty

/-- The size of the parts on a disk that other local backups have. -/
def savedOn (diskName : Str) : Nat :=
  (m.tables.entries.map fun t =>
    ((((t.2.parts.get? diskName).getD []).filter fun p =>
      (env.findExistingPart m t.1 p.name p.checksumCrc64 diskName).isSome).map PartInfo.size).sum).sum

/-- The space that a disk must have. -/
def requiredOn (diskName : Str) (total : Nat) : Nat :=
  if env.hardlinkExistsFiles then total - env.savedOn m diskName else total

/-- The directory whose space is checked for a disk. -/
def checkDir (diskName : Str) : Str :=
  match m.disks.get? diskName with
  | some diskPath =>
    let normalized := diskPath.trimEnd '/'
    if validateDiskPath env.host normalized && env.host.pathExists normalized then
      normalized.pathJoin "backup"
    else env.dataPath.pathJoin "backup"
  | none => env.dataPath.pathJoin "backup"

/-- A call whose failure ends the command. -/
def callOrFail (c : DownloadCall) {α : Type} (f : c.Reply → Except Str α) : DownloadProg Str α :=
  (Prog.perform c).bind fun r => Prog.ofExcept (f r)

def checkSpace : DownloadProg Str Unit :=
  (Prog.forEach (spaceByDisk m).entries fun d =>
    if env.requiredOn m d.1 d.2 = 0 then .ret ()
    else callOrFail (.preflight (env.checkDir m d.1) (env.requiredOn m d.1 d.2)) id).bind fun _ => .ret ()

/-! ## One part -/

/-- A part that is complete is recorded, if the download can be resumed. -/
def record (part : PartInfo) : DownloadProg Str Unit :=
  if env.useResume then (Prog.perform (.recordKey env.statePath part.backupKey)).bind fun _ => .ret ()
  else .ret ()

/-- The name of a metadata file below the key of its part. -/
def relativeName (metadataKey objectKey : Str) : Str :=
  let withoutPrefix :=
    ((Str.stripPrefix? env.s3Prefix objectKey).getD objectKey).dropWhile (· = '/')
  ((Str.stripPrefix? metadataKey withoutPrefix).getD objectKey).dropWhile (· = '/')

/-- One metadata file of an S3-disk part. -/
def downloadMetadata (place : Place) (part : PartInfo) (objectKey : Str) : DownloadProg Str Unit :=
  let name := env.relativeName part.backupKey objectKey
  if name = [] then .ret ()
  else
    (callOrFail (.fetchObject (part.backupKey.trimEnd '/' ++ "/" ++ name)) id).bind fun _ =>
      let safe := sanitizeRelativePath name
      if safe = [] then .ret () else callOrFail (.writeMetadata place safe) Prod.fst

/-- A part on an S3 disk: its metadata files. -/
def downloadS3Part (item : DownloadWorkItem) : DownloadProg Str Unit :=
  let place := env.placeOf m item.tableKey item.diskName item.part.name
  (callOrFail (.listObjects item.part.backupKey) id).bind fun objects =>
  (callOrFail (.createPartDir place) id).bind fun _ =>
  (Prog.forEach objects (env.downloadMetadata place item.part)).bind fun _ => env.record item.part

/-- The text of a checksum that is not the expected one. -/
def mismatchText (part : PartInfo) (actual : Nat) : Str :=
  "CRC64 mismatch for part " ++ part.name ++ ": expected " ++ Nat.toDigits 10 part.checksumCrc64 ++
    " got " ++ Nat.toDigits 10 actual

/-- The text of a part without `checksums.txt`. -/
def missingText (part : PartInfo) : Str :=
  "checksums.txt missing for part " ++ part.name ++ " but expected CRC " ++
    Nat.toDigits 10 part.checksumCrc64

/-- The attempts to download an archive, until its checksum is the expected one. -/
def downloadTries (place : Place) (part : PartInfo) (format : Str) :
    Nat → Option Str → DownloadProg Str Unit
  | 0, lastError =>
    .fail (lastError.getD ("Download failed for part " ++ part.name ++ " after retries"))
  | attempts + 1, _ =>
    (callOrFail (.fetchArchive part.backupKey place) id).bind fun _ =>
    (Prog.perform (.unpack place part.backupKey format)).bind fun (unpacked : Except Str Unit × Option PartDir) =>
    (Prog.perform (.removeTmp place)).bind fun _ =>
    (Prog.ofExcept unpacked.1).bind fun _ =>
      if part.checksumCrc64 = 0 then env.record part
      else
        (callOrFail (.readChecksums place) id).bind fun
          | some actual =>
            if actual = part.checksumCrc64 then env.record part
            else
              (Prog.perform (.removePart place)).bind fun _ =>
                downloadTries place part format attempts (some (mismatchText part actual))
          | none =>
            (Prog.perform (.removePart place)).bind fun _ =>
              downloadTries place part format attempts (some (missingText part))

/-- The part of another local backup, if there is one that can be used. -/
def dedupPart (item : DownloadWorkItem) (place : Place) : DownloadProg Str Bool :=
  if env.hardlinkExistsFiles then
    match env.findExistingPart m item.tableKey item.part.name item.part.checksumCrc64 item.diskName with
    | some existing => (Prog.perform (.hardlink existing place)).bind fun (r : Except Str Unit × Option PartDir) =>
        .ret r.1.toBool
    | none => .ret false
  else .ret false

/-- A part on a local disk: a part of another local backup, or the archive. -/
def downloadLocalPart (item : DownloadWorkItem) : DownloadProg Str Unit :=
  let place := env.placeOf m item.tableKey item.diskName item.part.name
  (callOrFail (.createDirs place.shadowDir) id).bind fun _ =>
  (env.dedupPart m item place).bind fun linked =>
    if linked then env.record item.part
    else
      env.downloadTries place item.part m.dataFormat
        (if item.part.checksumCrc64 ≠ 0 then env.retriesOnFailure + 1 else 1) none

/-- A task stops before its next call once the command is cancelled, without an error. -/
def cancellable : DownloadProg Empty (Except Str Unit) → DownloadProg Empty (Except Str Unit)
  | .ret a => .ret a
  | .fail e => .fail e
  | .call c k =>
    .call .isCancelled fun cancelled =>
      if cancelled then .ret (.ok ()) else .call c fun r => cancellable (k r)

/-- The task of a part. -/
def partTask (item : DownloadWorkItem) : DownloadProg Empty (Except Str Unit) :=
  cancellable
    (if item.isS3DiskPart then env.downloadS3Part m item else env.downloadLocalPart m item).attempt

/-! ## The other files -/

/-- A file of a directory, read again as long as that fails. -/
def downloadSimpleFile (path key : Str) : Nat → DownloadProg Str Unit
  | 0 => .fail "no attempt"
  | attempts + 1 =>
    (Prog.perform (.fetchObject key)).bind fun (fetched : Except Str Unit) =>
      match fetched with
      | .ok _ => callOrFail (.writeFile path) id
      | .error e => if attempts = 0 then .fail e else downloadSimpleFile path key attempts

/-- The prefix of the client, with its slash. -/
def clientPrefixSlash : Str :=
  if env.s3Prefix = [] then []
  else if ['/'].isSuffixOf env.s3Prefix then env.s3Prefix
  else env.s3Prefix ++ ['/']

/-- Where a file of a directory is written. -/
def simplePath (dir objectKey : Str) : Str :=
  let full := env.clientPrefixSlash ++ env.backupName ++ "/" ++ dir ++ "/"
  (env.backupDir.pathJoin dir).pathJoin
    (sanitizeRelativePath ((Str.stripPrefix? full objectKey).getD objectKey))

/-- `download_simple_directory`. -/
def downloadSimpleDirectory (dir : Str) : DownloadProg Str Unit :=
  (callOrFail (.listObjects (env.backupName ++ "/" ++ dir ++ "/")) id).bind fun objects =>
    if objects = [] then .ret ()
    else
      (callOrFail (.createDirs (env.backupDir.pathJoin dir)) id).bind fun _ =>
      (Prog.forEach objects fun objectKey =>
        downloadSimpleFile (env.simplePath dir objectKey)
          ((Str.stripPrefix? env.clientPrefixSlash objectKey).getD objectKey)
          (env.retriesOnFailure + 1)).bind fun _ => .ret ()

/-- The directory of the table metadata of a database. -/
def metadataDir (tableKey : Str) : Str :=
  (env.backupDir.pathJoin "metadata").pathJoin
    (encodePathComponent env.isAlphanumeric (splitTableKey tableKey).1)

/-- The metadata of one table. -/
def saveTableMetadata (tableKey : Str) : DownloadProg Str Unit :=
  (callOrFail (.createDirs (env.metadataDir tableKey)) id).bind fun _ =>
    callOrFail (.writeFile ((env.metadataDir tableKey).pathJoin
      (encodePathComponent env.isAlphanumeric (splitTableKey tableKey).2 ++ ".json"))) id

/-! ## The command -/

/-- The completed keys of the state file, if the download is resumed. -/
def loadCompletedKeys : DownloadProg Str (List Str) :=
  if env.useResume then
    (Prog.perform (.loadState env.statePath)).bind fun loaded => .ret (env.completedKeys loaded)
  else .ret []

/-- The disks are saved for a later deletion. -/
def saveDiskMap : DownloadProg Str Unit :=
  if m.disks.entries = [] then .ret ()
  else (Prog.perform (.saveState env.statePath (env.stateWith m []))).bind fun _ => .ret ()

/-- The first error of the joined tasks. -/
def joinResults : List (Except Str Unit) → Except Str Unit
  | [] => .ok ()
  | .ok _ :: results => joinResults results
  | .error e :: _ => .error e

/-- The parts, in parallel. -/
def downloadParts (completedKeys : List Str) : DownloadProg Str Unit :=
  (if env.useResume then Prog.perform (.shareState (env.stateWith m completedKeys)) else .ret ()).bind
    fun _ =>
  (Prog.par env.schedule ((downloadWorkItems m completedKeys).map (env.partTask m))).bind fun results =>
  (Prog.ofExcept (joinResults results)).bind fun _ =>
  (Prog.perform .isCancelled).bind fun cancelled =>
    if cancelled then .fail "download cancelled" else .ret ()

/-- The files besides the parts, and the manifest. -/
def finishDownload (rbac : Bool) : DownloadProg Str Unit :=
  (if rbac then env.downloadSimpleDirectory "access" else .ret ()).bind fun _ =>
  (env.downloadSimpleDirectory "configs").bind fun _ =>
  (Prog.forEach m.tables.entries fun t => env.saveTableMetadata t.1).bind fun _ =>
  (callOrFail (.saveManifest (env.backupDir.pathJoin "metadata.json") m) id).bind fun _ =>
    if env.useResume then (Prog.perform (.deleteState env.statePath)).bind fun _ => .ret () else .ret ()

/-- The download of a backup whose manifest has been read. -/
def downloadBackup (rbac : Bool) : DownloadProg Str Str :=
  (env.checkSpace m).bind fun _ =>
  (callOrFail (.createDirs env.backupDir) id).bind fun _ =>
  env.loadCompletedKeys.bind fun completedKeys =>
  (env.saveDiskMap m).bind fun _ =>
  (env.downloadParts m completedKeys).bind fun _ =>
  (env.finishDownload m rbac).bind fun _ => .ret env.backupDir

/-- `download`. -/
def download : DownloadProg Str Str :=
  (callOrFail (.fetchManifest (env.backupName ++ "/metadata.json")) id).bind fun fetched =>
    env.downloadBackup fetched.1 fetched.2

end DownloadEnv

end Chbackup
