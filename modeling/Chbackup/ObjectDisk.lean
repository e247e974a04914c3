import Chbackup.Manifest

/-!
# Object disk metadata files

The parser of the metadata files of S3 object disks and the keys derived from them
(`src/object_disk.rs`).  A file names its objects by a key that is relative to the key prefix of
the disk up to version 4, and complete in version 5.  The parser reserves room for the announced
number of objects before it reads them; that allocation is left out.
-/

namespace Chbackup

/-- A number in decimal digits. -/
def decimal (n : Nat) : Str := Nat.toDigits 10 n

/-- A reference to one S3 object. -/
structure ObjectRef where
  /-- The key as it stands in the file. -/
  relativePath : Str
  size : Nat
  deriving DecidableEq, Inhabited

/-- A parsed metadata file. -/
structure ObjectDiskMetadata where
  version : Nat
  objects : List ObjectRef
  totalSize : Nat
  refCount : Nat
  readOnly : Bool
  inlineData : Option Str
  deriving DecidableEq, Inhabited

/-! ## `parse_metadata` -/

/-- A number of a field, with the white space around it ignored. -/
def parseField (bits : Nat) (field context : Str) : Except Str Nat :=
  match Str.parseUnsigned bits field.trim with
  | some n => .ok n
  | none => .error context

/-- The two fields of a line that are read; further ones are ignored. -/
def parseTwoFields (line : Str) : Option (Str × Str) :=
  match line.splitOn '\t' with
  | a :: b :: _ => some (a, b)
  | _ => none

/-- One object line. -/
def parseObjectLine (line : Str) : Except Str ObjectRef := do
  let some (size, path) := parseTwoFields line
    | .error ("Invalid object line: '".toList ++ line ++ "'".toList)
  let size ← parseField 64 size "Failed to parse object size"
  return ⟨path.trim, size⟩

/-- The object lines from `i` on; `left` of `count` are left. -/
def parseObjectLines (lines : List Str) (count : Nat) : Nat → Nat → Except Str (List ObjectRef)
  | 0, _ => .ok []
  | left + 1, i => do
    let some line := lines[2 + i]?
      | .error ("Metadata file truncated: expected ".toList ++ decimal count ++
          " objects, got ".toList ++ decimal i)
    let object ← parseObjectLine line
    let rest ← parseObjectLines lines count left (i + 1)
    return object :: rest

/-- The reference count, if the file goes on after the objects. -/
def parseRefCount (lines : List Str) (count : Nat) : Except Str Nat :=
  match lines[2 + count]? with
  | some line => parseField 32 line "Failed to parse ref_count"
  | none => .ok 0

/-- The read-only flag, from version 3 on. -/
def parseReadOnly (lines : List Str) (version count : Nat) : Bool :=
  3 ≤ version && (lines[3 + count]?.map Str.trim = some ['1'])

/-- The inline data, from version 4 on. -/
def parseInlineData (lines : List Str) (version count : Nat) : Option Str :=
  if 4 ≤ version then lines[4 + count]?.filter (· ≠ []) else none

/-- `parse_metadata`. -/
def parseMetadata (content : Str) : Except Str ObjectDiskMetadata := do
  let lines := Str.lines content
  let some line0 := lines[0]?
    | .error "Empty metadata file"
  let version ← parseField 32 line0 "Failed to parse metadata version"
  if version < 1 ∨ 5 < version then
    .error ("Unsupported metadata version: ".toList ++ decimal version)
  if lines.length < 3 then
    .error ("Metadata file too short: expected at least 3 lines, got ".toList ++ decimal lines.length)
  let header := lines[1]?.getD []
  let some (count, total) := parseTwoFields header
    | .error ("Invalid metadata header line: '".toList ++ header ++ "'".toList)
  let objectCount ← parseField 64 count "Failed to parse object count"
  let totalSize ← parseField 64 total "Failed to parse total size"
  let objects ← parseObjectLines lines objectCount objectCount 0
  let refCount ← parseRefCount lines objectCount
  let readOnly := parseReadOnly lines version objectCount
  let inlineData := parseInlineData lines version objectCount
  return ⟨version, objects, totalSize, refCount, readOnly, inlineData⟩

/-! ## Keys -/

/-- `join_disk_key`. -/
def joinDiskKey (diskKeyPrefix diskRelative : Str) : Str :=
  let root := Str.trimMatches '/' diskKeyPrefix
  if root = [] then diskRelative else root ++ '/' :: diskRelative

/-- `disk_relative_key`: a stored key relative to the key prefix of the disk. -/
def diskRelativeKey (storedKey diskKeyPrefix : Str) : Str :=
  let root := Str.trimMatches '/' diskKeyPrefix
  if root = [] then storedKey else (Str.stripPrefix? (root ++ ['/']) storedKey).getD storedKey

/-- `RestoreObjectKeys`. -/
structure RestoreObjectKeys where
  copyDestRelativeKey : Str
  metadataKey : Str
  deriving DecidableEq

/-- `restore_object_keys`: where an object is copied to, and how the metadata file spells it. -/
def restoreObjectKeys (version : Nat) (diskRelative uuidPrefix destDiskKeyPrefix : Str) :
    RestoreObjectKeys :=
  let copyDestRelativeKey := uuidPrefix.trimEnd '/' ++ '/' :: diskRelative
  let metadataKey :=
    if 5 ≤ version then joinDiskKey destDiskKeyPrefix copyDestRelativeKey else copyDestRelativeKey
  ⟨copyDestRelativeKey, metadataKey⟩

/-- `rewrite_metadata`: the file with the keys of the restored objects. -/
def rewriteMetadata (metadata : ObjectDiskMetadata) (uuidPrefix destDiskKeyPrefix : Str) : Str :=
  let objectLine := fun obj : ObjectRef =>
    let keys := restoreObjectKeys metadata.version obj.relativePath uuidPrefix destDiskKeyPrefix
    decimal obj.size ++ '\t' :: keys.metadataKey ++ ['\n']
  decimal metadata.version ++ ['\n'] ++
    decimal metadata.objects.length ++ '\t' :: decimal metadata.totalSize ++ ['\n'] ++
    metadata.objects.flatMap objectLine ++ ['0', '\n'] ++
    (if 3 ≤ metadata.version then ['0', '\n'] else []) ++
    (if 4 ≤ metadata.version then metadata.inlineData.getD [] ++ ['\n'] else [])

/-- `serialize_metadata`: the file with its keys as they are. -/
def serializeMetadata (metadata : ObjectDiskMetadata) : Str :=
  let objectLine := fun obj : ObjectRef => decimal obj.size ++ '\t' :: obj.relativePath ++ ['\n']
  decimal metadata.version ++ ['\n'] ++
    decimal metadata.objects.length ++ '\t' :: decimal metadata.totalSize ++ ['\n'] ++
    metadata.objects.flatMap objectLine ++ decimal metadata.refCount ++ ['\n'] ++
    (if 3 ≤ metadata.version then (if metadata.readOnly then ['1', '\n'] else ['0', '\n']) else []) ++
    (if 4 ≤ metadata.version then metadata.inlineData.getD [] ++ ['\n'] else [])

/-- `to_disk_relative_keys` for one key: the recorded object it stands for. -/
def toDiskRelativeKey (manifestObjects : List S3ObjectInfo) (obj : ObjectRef) :
    Except Str ObjectRef :=
  let endsWith := fun m : S3ObjectInfo =>
    obj.relativePath = m.path ||
      ((Str.stripSuffix? m.path obj.relativePath).any fun root => ['/'].isSuffixOf root)
  let matching := manifestObjects.filter endsWith
  let candidates := if 1 < matching.length then matching.filter (·.size = obj.size) else matching
  match candidates with
  | [only] => .ok { obj with relativePath := only.path }
  | [] => .error ("v5 object key ".toList ++ obj.relativePath ++
      " matches no object recorded for this part in the manifest, so the key it was copied to is unknown".toList)
  | ambiguous => .error ("v5 object key ".toList ++ obj.relativePath ++ " matches ".toList ++
      decimal ambiguous.length ++ " manifest keys of size ".toList ++ decimal obj.size ++
      " (".toList ++ ", ".toList.intercalate (ambiguous.map (·.path)) ++
      "), so the key it was copied to is ambiguous".toList)

/-- `to_disk_relative_keys`. -/
def toDiskRelativeKeys (metadata : ObjectDiskMetadata) (manifestObjects : List S3ObjectInfo) :
    Except Str ObjectDiskMetadata :=
  if metadata.version < 5 then .ok metadata
  else do
    let objects ← metadata.objects.mapM (toDiskRelativeKey manifestObjects)
    return { metadata with objects }

/-- A file of version 3 with one object. -/
example : parseMetadata "3\n1\t10\n10\tabc/def\n1\n0\n" =
    .ok ⟨3, [⟨"abc/def", 10⟩], 10, 1, false, none⟩ := by
  decide

example : diskRelativeKey "disks/tier1/abc/def" "/disks/tier1/" = "abc/def".toList := by
  decide

end Chbackup
