import Chbackup.Lib.SortedMap
import Chbackup.Lib.Text

/-!
# Where the files of a backup are

Table keys, encoded path components and the staged directory of a part
(`src/path_encoding.rs`, `src/object_disk.rs`, `src/backup/collect.rs`).  Upload, download and
restore all look for a staged part in the same three places.
-/

namespace Chbackup

/-- The database and table of a table key. -/
def splitTableKey (tableKey : Str) : Str × Str :=
  (Str.splitOnce '.' tableKey).getD ("default", tableKey)

/-- `encode_path_component`. -/
def encodePathComponent (isAlphanumeric : Char → Bool) (s : Str) : Str :=
  s.flatMap fun c =>
    if isAlphanumeric c || c = '-' || c = '_' || c = '.' then [c]
    else (String.utf8EncodeChar c).flatMap fun byte => '%' :: Str.hex true 2 byte.toNat

/-- `is_s3_disk`. -/
def isS3Disk (diskType : Str) : Bool :=
  let lower := diskType.map Char.toLower
  lower = "s3" || lower = "object_storage" || lower = "objectstorage"

/-- `resolve_shadow_part_path`: the first of the places of a staged part that exists.  They are
the directory of the backup on the disk of the part, the backup directory, and the backup
directory with the names not encoded. -/
def resolveShadowPartPath (pathExists : Str → Bool) (backupDir backupName : Str)
    (disks : SortedMap Str Str)
    (diskName encodedDb encodedTable plainDb plainTable partName : Str) : Option Str :=
  let encodedSuffix := (Str.pathJoin (Str.pathJoin "shadow" encodedDb) encodedTable).pathJoin partName
  let perDisk := (disks.get? diskName).map fun diskPath =>
    (((diskPath.trimEnd '/').pathJoin "backup").pathJoin backupName).pathJoin encodedSuffix
  let legacyEncoded := backupDir.pathJoin encodedSuffix
  let plainSuffix := (Str.pathJoin (Str.pathJoin "shadow" plainDb) plainTable).pathJoin partName
  let legacyPlain :=
    if plainDb ≠ encodedDb ∨ plainTable ≠ encodedTable then some (backupDir.pathJoin plainSuffix)
    else none
  (perDisk.toList ++ [legacyEncoded] ++ legacyPlain.toList).find? pathExists

end Chbackup
