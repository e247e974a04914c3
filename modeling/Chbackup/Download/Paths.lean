import Chbackup.Layout
import Chbackup.Lib.Path

/-!
# The directories of a download

Where a download puts the parts of a backup (`src/download/mod.rs`, `src/path_encoding.rs`): on the
disk of the part, if its path is on this host and passes the validation, else in the directory of the
backup.  What the host says about its paths is a parameter.
-/

namespace Chbackup

/-- What the host says about paths. -/
structure PathHost where
  pathExists : Str → Bool
  /-- `std::fs::canonicalize`. -/
  canonicalize : Str → Option Str

/-- `FORBIDDEN_PREFIXES`. -/
def forbiddenPrefixes : List Str :=
  ["/etc", "/root", "/sys", "/proc", "/dev", "/boot", "/bin", "/sbin", "/usr", "/lib", "/lib64", "/run"]

/-- An absolute path is another one, or under it. -/
def isUnder (dir path : Str) : Bool := dir.components.isPrefixOf path.components

section Host

variable (host : PathHost)

/-- `check_forbidden`. -/
def checkForbidden (path : Str) : Bool :=
  forbiddenPrefixes.any fun dir =>
    isUnder dir path || ((host.canonicalize dir).map fun canonical => isUnder canonical path).getD false

/-- `validate_disk_path`. -/
def validateDiskPath (path : Str) : Bool :=
  let normalized := path.trimEnd '/'
  ['/'].isPrefixOf path && normalized ≠ [] && ("..".toList ∉ normalized.segments) &&
    !checkForbidden host normalized &&
    ((host.canonicalize normalized).map fun canonical => !checkForbidden host canonical).getD true

/-- `sanitize_relative_path`. -/
def sanitizeRelativePath (input : Str) : Str :=
  List.intercalate ['/'] (input.segments.filter Str.isNormal)

/-- `per_disk_backup_dir`. -/
def perDiskBackupDir (diskPath backupName : Str) : Str :=
  (diskPath.pathJoin "backup").pathJoin backupName

/-- `resolve_download_target_dir`. -/
def resolveDownloadTargetDir (disks : SortedMap Str Str) (diskName backupName backupDir : Str) : Str :=
  match disks.get? diskName with
  | some dp =>
    if host.pathExists (dp.trimEnd '/') then
      if validateDiskPath host dp then perDiskBackupDir (dp.trimEnd '/') backupName else backupDir
    else backupDir
  | none => backupDir

end Host

/-- The place of a downloaded part: the directory of the backup on its disk, the encoded names of the
database and of the table, and the name of the part. -/
structure Place where
  targetDir : Str
  urlDb : Str
  urlTable : Str
  partName : Str
  deriving DecidableEq

namespace Place

/-- The shadow directory of the table. -/
def shadowDir (p : Place) : Str :=
  ((p.targetDir.pathJoin "shadow").pathJoin p.urlDb).pathJoin p.urlTable

/-- The directory of the part. -/
def partDir (p : Place) : Str := p.shadowDir.pathJoin p.partName

end Place

end Chbackup
