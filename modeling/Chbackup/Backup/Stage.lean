import Chbackup.Lib.DirTree
import Chbackup.ObjectDisk

/-!
# Staging one part

What `create` takes from the directory of one part on an S3 object disk
(`src/backup/collect.rs`): `collect_s3_part_metadata` lists the objects that the files among its
entries name, and `hardlink_dir` stages the whole tree below it except skipped projections.
Failures of the file system are left out.
-/

namespace Chbackup

/-- A name in a directory. -/
inductive OsName where
  | utf8 (s : Str)
  | raw (bytes : List UInt8)
  deriving DecidableEq

/-- `to_str`. -/
def OsName.toStr : OsName → Option Str
  | utf8 s => some s
  | raw _ => none

/-- `display`, with what stands for the bytes of a name that is no text. -/
def OsName.display (lossy : List UInt8 → Str) : OsName → Str
  | utf8 s => s
  | raw bytes => lossy bytes

/-- An entry that is not a directory. -/
structure FileData where
  /-- A regular file, not a symbolic link. -/
  regular : Bool
  /-- What reading it as a text gives, if it can be read as a text. -/
  content : Option Str
  /-- Its length in bytes. -/
  len : Nat
  /-- The CRC-64/XZ checksum of its bytes. -/
  crc64 : Nat

/-- A directory tree on a disk. -/
abbrev PartTree : Type := DirTree OsName FileData

/-! ## `collect_s3_part_metadata` -/

/-- The objects of a metadata file as the manifest records them. -/
def recordedObjects (sourceKeyPrefix : Str) (metadata : ObjectDiskMetadata) : List S3ObjectInfo :=
  metadata.objects.map fun obj => ⟨diskRelativeKey obj.relativePath sourceKeyPrefix, obj.size, []⟩

/-- `collect_s3_part_metadata` for one entry that is not a directory. -/
def collectEntry (partDir sourceKeyPrefix : Str) (entry : OsName × FileData) :
    Except Str (List S3ObjectInfo) :=
  if !entry.2.regular then .ok []
  else
    match entry.1.toStr with
    | none => .ok []
    | some fileName =>
      match entry.2.content with
      | none => .error ("Failed to read metadata file: ".toList ++ partDir.pathJoin fileName)
      | some content =>
        match parseMetadata content with
        | .ok metadata => .ok (recordedObjects sourceKeyPrefix metadata)
        | .error _ => .ok []

/-- `collect_s3_part_metadata`: the objects, and their sizes added up in 64 bits. -/
def collectS3PartMetadata (partDir sourceKeyPrefix : Str) (entries : List PartTree) :
    Except Str (List S3ObjectInfo × Nat) := do
  let perEntry ← (DirTree.topFiles entries).mapM (collectEntry partDir sourceKeyPrefix)
  let objects := perEntry.flatten
  return (objects, (objects.map (·.size)).sum % 2 ^ 64)

/-! ## `hardlink_dir` -/

section Hardlink

-- The patterns of the glob library: what a pattern matches, if it is one.
variable (glob : Str → Option (Str → Bool))

/-- `should_skip_projection`. -/
def shouldSkipProjection (stem : Str) (patterns : List Str) : Bool :=
  patterns.any fun pattern =>
    pattern = "*" || (match glob pattern with
      | some globPat => globPat stem
      | none => false)

/-- The projection of a directory. -/
def projectionStem (dirName : OsName) : Option Str :=
  dirName.toStr.bind (Str.stripSuffix? ".proj")

/-- Whether the walk of `hardlink_dir` turns back at a directory. -/
def skipsDir (skipProjections : List Str) (dirName : OsName) : Bool :=
  !skipProjections.isEmpty &&
    (projectionStem dirName).any fun stem => shouldSkipProjection glob stem skipProjections

/-- `hardlink_dir`: what it stages of a directory with the given name. -/
def hardlinkDir (skipProjections : List Str) (dirName : OsName) (entries : List PartTree) :
    List PartTree :=
  if skipsDir glob skipProjections dirName then []
  else DirTree.pruneAll (skipsDir glob skipProjections) entries

/-- `hardlink_dir`: the projections it adds to the stripped ones. -/
def strippedBy (skipProjections : List Str) (dirName : OsName) (entries : List PartTree) :
    List Str :=
  (DirTree.pruned (skipsDir glob skipProjections) (.dir dirName entries)).filterMap projectionStem

/-- A staged part: its record and the files in its staging directory. -/
structure StagedPart where
  info : PartInfo
  staged : List PartTree

/-- The part of `process_shadow_part` for a part on an S3 disk that the base does not hold. -/
def stageS3Part (skipProjections : List Str) (sourceKeyPrefix partDir partName : Str)
    (crc64 : Nat) (entries : List PartTree) : Except Str StagedPart := do
  let (s3Objects, partSize) ← collectS3PartMetadata partDir sourceKeyPrefix entries
  let staged := hardlinkDir glob skipProjections (.utf8 partName) entries
  return ⟨(PartInfo.new partName partSize crc64).withS3Objects s3Objects, staged⟩

end Hardlink

/-- The files that lie below no skipped directory. -/
def unskippedFiles (glob : Str → Option (Str → Bool)) (patterns : List Str) (dirName : OsName)
    (entries : List PartTree) : List (WalkedFile OsName FileData) :=
  (DirTree.walkAll [] entries).filter fun f =>
    (dirName :: f.dirs).all fun d => !skipsDir glob patterns d

/-- What is staged is what lies below no skipped directory. -/
theorem walkAll_hardlinkDir (glob : Str → Option (Str → Bool)) (patterns : List Str)
    (dirName : OsName) (entries : List PartTree) :
    DirTree.walkAll [] (hardlinkDir glob patterns dirName entries) =
      unskippedFiles glob patterns dirName entries := by
  rw [hardlinkDir, unskippedFiles]
  by_cases h : skipsDir glob patterns dirName = true
  · rw [if_pos h, DirTree.walkAll, eq_comm, List.filter_eq_nil_iff]
    intro f _ hall
    rw [List.all_cons, h] at hall
    exact Bool.false_ne_true hall
  · rw [if_neg h, DirTree.walkAll_pruneAll (fun d hd => absurd hd List.not_mem_nil)]
    refine List.filter_congr fun f _ => ?_
    rw [List.all_cons, Bool.eq_false_iff.mpr h]
    rfl

end Chbackup
