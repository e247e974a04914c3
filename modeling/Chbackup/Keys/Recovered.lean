import Chbackup.Backup.Captured
import Chbackup.Keys.Objects

/-!
# Recovering the relative keys of a part

A restore does not know the key prefix of the disk a part was taken from.  `to_disk_relative_keys`
(`src/restore/attach.rs`) looks for the recorded object whose key ends a complete key, and tells
several of them apart by their sizes.  The objects were recorded file by file by
`collect_s3_part_metadata` (`src/backup/collect.rs`), once for every mention.
-/

namespace Chbackup

/-- The complete key of an object on a disk with a key prefix. -/
def storedKey (diskPrefix relative : Str) : Str :=
  if diskPrefix = [] then relative else diskPrefix ++ '/' :: relative

/-- A key ends with the key of a recorded object, on a path-component boundary. -/
def endsWithKey (key path : Str) : Bool :=
  key = path || ((Str.stripSuffix? path key).any fun root => ['/'].isSuffixOf root)

/-- The metadata files of a part directory that `collect_s3_part_metadata` reads. -/
def partMetadata (entries : List PartTree) : List ObjectDiskMetadata :=
  (DirTree.topFiles entries).filterMap fun e =>
    if e.2.regular = true ∧ e.1.toStr.isSome = true then
      e.2.content.bind fun text => (parseMetadata text).toOption
    else none

/-- The objects that the files of a part name, one for every mention. -/
def partObjects (entries : List PartTree) : List ObjectRef :=
  (partMetadata entries).flatMap ObjectDiskMetadata.objects

/-- Every key of every file of the part is replaced by its relative key. -/
def RecoversKeys (diskPrefix : Str) (entries : List PartTree) (recorded : List S3ObjectInfo) : Prop :=
  ∀ metadata ∈ partMetadata entries, ∃ relative, toDiskRelativeKeys metadata recorded = .ok relative ∧
    relative = { metadata with objects := relative.objects } ∧
    List.Forall₂ (fun o o' : ObjectRef => o'.size = o.size ∧ o.relativePath = storedKey diskPrefix o'.relativePath)
      metadata.objects relative.objects

/-- No other mention of an object in the part has the same size and a relative key that the key of
this one ends with. -/
def MentionsTellApart (diskPrefix : Str) (objects : List ObjectRef) : Prop :=
  ∀ before x after, objects = before ++ x :: after → ∀ y ∈ before ++ after, y.size = x.size →
    endsWithKey x.relativePath (diskRelativeKey y.relativePath diskPrefix) = false

/-! ## One key -/

section Key

variable {p r : Str} {obj : ObjectRef}

theorem diskRelativeKey_storedKey_iff : diskRelativeKey (storedKey p r) p = r ↔ Str.trimMatches '/' p = p := by
  by_cases hp : p = []
  · subst hp
    exact ⟨fun _ => rfl, fun _ => diskRelativeKey_of_nil rfl⟩
  · rw [storedKey, if_neg hp]
    constructor
    · intro h
      rcases diskRelativeKey_cases (p ++ '/' :: r) p with hkey | ⟨-, -, hkey⟩
      · rw [h] at hkey
        have hlength := congrArg List.length hkey
        rw [List.length_append, List.length_cons] at hlength
        omega
      · rw [h] at hkey
        exact List.append_cancel_right hkey
    · intro hroot
      have hne : Str.trimMatches '/' p ≠ [] := by rwa [hroot]
      have hunder : Str.trimMatches '/' p ++ ['/'] <+: p ++ '/' :: r := by
        rw [hroot]
        exact ⟨r, by simp⟩
      have hbelow := append_diskRelativeKey hne hunder
      rw [hroot] at hbelow
      exact (List.cons.inj (List.append_cancel_left hbelow)).2

/-- The recorded objects that a key can stand for. -/
def candidatesFor (recorded : List S3ObjectInfo) (obj : ObjectRef) : List S3ObjectInfo :=
  let matching := recorded.filter fun m => endsWithKey obj.relativePath m.path
  if 1 < matching.length then matching.filter (·.size = obj.size) else matching

theorem toDiskRelativeKey_eq_ok_iff {recorded : List S3ObjectInfo} {o : ObjectRef} :
    toDiskRelativeKey recorded obj = .ok o ↔
      ∃ only, candidatesFor recorded obj = [only] ∧ o = { obj with relativePath := only.path } := by
  unfold toDiskRelativeKey
  dsimp only
  split
  · rename_i only hcandidates
    have hc : candidatesFor recorded obj = [only] := hcandidates
    rw [hc]
    simp [eq_comm]
  · rename_i hcandidates
    have hc : candidatesFor recorded obj = [] := hcandidates
    rw [hc]
    simp
  · rename_i hmany _
    refine ⟨fun h => (by cases h), fun ⟨x, hx, _⟩ => ?_⟩
    exact absurd hx (hmany x)

/-- The recorded objects of the right size that a key ends with. -/
def sameSizeMatches (recorded : List S3ObjectInfo) (obj : ObjectRef) : List S3ObjectInfo :=
  recorded.filter fun m => endsWithKey obj.relativePath m.path && m.size = obj.size

/-- The size decides, once one of the matches has it. -/
theorem candidatesFor_eq_singleton_iff {recorded : List S3ObjectInfo} {own x : S3ObjectInfo}
    (hmem : own ∈ recorded) (hown : endsWithKey obj.relativePath own.path = true)
    (hsize : own.size = obj.size) :
    candidatesFor recorded obj = [x] ↔ sameSizeMatches recorded obj = [x] := by
  have hfilter : (recorded.filter fun m => endsWithKey obj.relativePath m.path).filter
      (·.size = obj.size) = sameSizeMatches recorded obj := by
    rw [List.filter_filter, sameSizeMatches]
    congr 1
    funext m
    exact Bool.and_comm _ _
  rw [candidatesFor]
  split_ifs with hlength
  · rw [hfilter]
  · have hmatch : own ∈ recorded.filter fun m => endsWithKey obj.relativePath m.path :=
      List.mem_filter.mpr ⟨hmem, hown⟩
    rw [← hfilter]
    generalize (recorded.filter fun m => endsWithKey obj.relativePath m.path) = matching at hlength hmatch
    match matching with
    | [] => exact absurd hmatch List.not_mem_nil
    | [only] =>
      rw [List.mem_singleton.mp hmatch] at hsize
      simp [hsize]
    | _ :: _ :: rest => exact absurd (by simp) hlength

/-- **A key is resolved to its own record iff no other record of its size ends it.** -/
theorem toDiskRelativeKey_split_iff {before after : List S3ObjectInfo} {own : S3ObjectInfo} {o : ObjectRef}
    (hown : endsWithKey obj.relativePath own.path = true) (hsize : own.size = obj.size) :
    toDiskRelativeKey (before ++ own :: after) obj = .ok o ↔
      (∀ m ∈ before ++ after, m.size = obj.size → endsWithKey obj.relativePath m.path = false) ∧
        o = { obj with relativePath := own.path } := by
  have hothers : ∀ l : List S3ObjectInfo, sameSizeMatches l obj = [] ↔
      ∀ m ∈ l, m.size = obj.size → endsWithKey obj.relativePath m.path = false := by
    intro l
    rw [sameSizeMatches, List.filter_eq_nil_iff]
    refine forall₂_congr fun m _ => ?_
    cases endsWithKey obj.relativePath m.path with
    | false => simp
    | true => simp
  have hsplit : sameSizeMatches (before ++ own :: after) obj =
      sameSizeMatches before obj ++ own :: sameSizeMatches after obj := by
    rw [sameSizeMatches, List.filter_append, List.filter_cons_of_pos (by simp [hown, hsize])]
    rfl
  have hsole : ∀ x, candidatesFor (before ++ own :: after) obj = [x] ↔
      (∀ m ∈ before ++ after, m.size = obj.size → endsWithKey obj.relativePath m.path = false) ∧ own = x := by
    intro x
    rw [candidatesFor_eq_singleton_iff (by simp) hown hsize, hsplit, List.append_eq_singleton_iff]
    simp only [List.cons_ne_nil, and_false, or_false, List.cons.injEq, hothers, List.forall_mem_append]
    constructor
    · rintro ⟨hbefore, rfl, hafter⟩
      exact ⟨⟨hbefore, hafter⟩, rfl⟩
    · rintro ⟨⟨hbefore, hafter⟩, rfl⟩
      exact ⟨hbefore, rfl, hafter⟩
  rw [toDiskRelativeKey_eq_ok_iff]
  simp only [hsole]
  constructor
  · rintro ⟨x, ⟨hall, rfl⟩, ho⟩
    exact ⟨hall, ho⟩
  · rintro ⟨hall, ho⟩
    exact ⟨own, ⟨hall, rfl⟩, ho⟩

end Key

/-! ## A part -/

section Part

variable {p : Str} {entries : List PartTree} {recorded : List S3ObjectInfo}

theorem entriesObjects_eq (p : Str) (entries : List PartTree) :
    entriesObjects p entries = (partMetadata entries).flatMap (recordedObjects p) := by
  rw [entriesObjects, partMetadata]
  induction DirTree.topFiles entries with
  | nil => rfl
  | cons e es ih =>
    rw [List.flatMap_cons, ih, List.filterMap_cons, entryObjects]
    split_ifs with hread
    · cases e.2.content with
      | none => rfl
      | some text =>
        simp only [Option.bind_some]
        cases parseMetadata text with
        | ok m => rfl
        | error err => rfl
    · rfl

/-- What is recorded of a part: path and size of every mention. -/
theorem map_entriesObjects (p : Str) (entries : List PartTree) :
    (entriesObjects p entries).map (fun o => (o.path, o.size)) =
      (partObjects entries).map fun o => (diskRelativeKey o.relativePath p, o.size) := by
  rw [entriesObjects_eq, partObjects, List.map_flatMap, List.map_flatMap]
  congr 1
  funext m
  rw [recordedObjects, List.map_map]
  rfl

/-- The record of one mention among those of the others. -/
theorem exists_split_recorded
    (hrecorded : recorded.map (fun o => (o.path, o.size)) =
      (partObjects entries).map fun o => (diskRelativeKey o.relativePath p, o.size))
    {before after : List ObjectRef} {x : ObjectRef} (hsplit : partObjects entries = before ++ x :: after) :
    ∃ recordedBefore own recordedAfter, recorded = recordedBefore ++ own :: recordedAfter ∧
      own.path = diskRelativeKey x.relativePath p ∧ own.size = x.size ∧
      (recordedBefore ++ recordedAfter).map (fun o => (o.path, o.size)) =
        (before ++ after).map fun o => (diskRelativeKey o.relativePath p, o.size) := by
  rw [hsplit, List.map_append, List.map_cons, List.map_eq_append_iff] at hrecorded
  obtain ⟨recordedBefore, rest, rfl, hbefore, hrest⟩ := hrecorded
  obtain ⟨own, recordedAfter, rfl, hown, hafter⟩ := List.map_eq_cons_iff.mp hrest
  rw [Prod.mk.injEq] at hown
  refine ⟨recordedBefore, own, recordedAfter, rfl, hown.1, hown.2, ?_⟩
  rw [List.map_append, List.map_append, hbefore, hafter]

/-- **A mention is resolved iff no other mention of its size ends its key**, and then to its own
relative key. -/
theorem toDiskRelativeKey_mention_iff
    (hrecorded : recorded.map (fun o => (o.path, o.size)) =
      (partObjects entries).map fun o => (diskRelativeKey o.relativePath p, o.size))
    {before after : List ObjectRef} {x o : ObjectRef} (hsplit : partObjects entries = before ++ x :: after) :
    toDiskRelativeKey recorded x = .ok o ↔
      (∀ y ∈ before ++ after, y.size = x.size →
        endsWithKey x.relativePath (diskRelativeKey y.relativePath p) = false) ∧
        o = { x with relativePath := diskRelativeKey x.relativePath p } := by
  obtain ⟨recordedBefore, own, recordedAfter, rfl, hpath, hsize, hothers⟩ :=
    exists_split_recorded hrecorded hsplit
  have hown : endsWithKey x.relativePath own.path = true := by
    rw [hpath]
    exact endsWith_diskRelativeKey x.relativePath p
  have hmentions : (∀ m ∈ recordedBefore ++ recordedAfter, m.size = x.size →
      endsWithKey x.relativePath m.path = false) ↔
      ∀ y ∈ before ++ after, y.size = x.size →
        endsWithKey x.relativePath (diskRelativeKey y.relativePath p) = false := by
    have hpairs : ∀ Q : Str × Nat → Prop,
        (∀ m ∈ recordedBefore ++ recordedAfter, Q (m.path, m.size)) ↔
          ∀ y ∈ before ++ after, Q (diskRelativeKey y.relativePath p, y.size) := by
      intro Q
      rw [← @List.forall_mem_map _ _ (fun m : S3ObjectInfo => (m.path, m.size)), hothers, List.forall_mem_map]
    exact hpairs fun q => q.2 = x.size → endsWithKey x.relativePath q.1 = false
  rw [toDiskRelativeKey_split_iff hown hsize, hmentions, hpath]

theorem exists_split_of_mem {metadata : ObjectDiskMetadata} (hm : metadata ∈ partMetadata entries)
    {x : ObjectRef} (hx : x ∈ metadata.objects) :
    ∃ before after, partObjects entries = before ++ x :: after :=
  List.append_of_mem (List.mem_flatMap.mpr ⟨metadata, hm, hx⟩)

theorem toDiskRelativeKeys_v5 {metadata relative : ObjectDiskMetadata} (hv : metadata.version = 5) :
    toDiskRelativeKeys metadata recorded = .ok relative ↔
      ∃ objects, metadata.objects.mapM (toDiskRelativeKey recorded) = .ok objects ∧
        relative = { metadata with objects := objects } := by
  rw [toDiskRelativeKeys, if_neg (by omega)]
  cases hm : metadata.objects.mapM (toDiskRelativeKey recorded) with
  | error e =>
    constructor
    · intro h
      cases h
    · rintro ⟨objects, h, -⟩
      cases h
  | ok objects =>
    constructor
    · intro h
      cases h
      exact ⟨objects, rfl, rfl⟩
    · rintro ⟨objects', h, rfl⟩
      cases h
      rfl

/-- The keys of a file of the part are resolved iff each of them is, and then to the relative keys. -/
theorem mapM_toDiskRelativeKey_iff
    (hrecorded : recorded.map (fun o => (o.path, o.size)) =
      (partObjects entries).map fun o => (diskRelativeKey o.relativePath p, o.size))
    {metadata : ObjectDiskMetadata} (hm : metadata ∈ partMetadata entries) {objects : List ObjectRef} :
    metadata.objects.mapM (toDiskRelativeKey recorded) = .ok objects ↔
      (∀ x ∈ metadata.objects, (toDiskRelativeKey recorded x).isOk = true) ∧
        objects = metadata.objects.map fun o =>
          { o with relativePath := diskRelativeKey o.relativePath p } := by
  have hone : ∀ x ∈ metadata.objects, (toDiskRelativeKey recorded x).isOk = true →
      toDiskRelativeKey recorded x = .ok { x with relativePath := diskRelativeKey x.relativePath p } := by
    intro x hx hok
    obtain ⟨before, after, hsplit⟩ := exists_split_of_mem hm hx
    cases hg : toDiskRelativeKey recorded x with
    | error e =>
      rw [hg] at hok
      cases hok
    | ok o => rw [((toDiskRelativeKey_mention_iff hrecorded hsplit).mp hg).2]
  constructor
  · intro h
    have hok := isOk_of_mapM h
    rw [mapM_eq_ok fun x hx => hone x hx (hok x hx)] at h
    cases h
    exact ⟨hok, rfl⟩
  · rintro ⟨hok, rfl⟩
    exact mapM_eq_ok fun x hx => hone x hx (hok x hx)

/-- Every key is resolved iff the mentions can be told apart. -/
theorem forall_isOk_iff
    (hrecorded : recorded.map (fun o => (o.path, o.size)) =
      (partObjects entries).map fun o => (diskRelativeKey o.relativePath p, o.size)) :
    (∀ x ∈ partObjects entries, (toDiskRelativeKey recorded x).isOk = true) ↔
      MentionsTellApart p (partObjects entries) := by
  constructor
  · intro h before x after hsplit
    have hx : x ∈ partObjects entries := by
      rw [hsplit]
      simp
    cases hg : toDiskRelativeKey recorded x with
    | error e =>
      have hok := h x hx
      rw [hg] at hok
      cases hok
    | ok o => exact ((toDiskRelativeKey_mention_iff hrecorded hsplit).mp hg).1
  · intro h x hx
    obtain ⟨before, after, hsplit⟩ := List.append_of_mem hx
    rw [(toDiskRelativeKey_mention_iff hrecorded hsplit).mpr ⟨h before x after hsplit, rfl⟩]
    rfl

theorem storedKey_injective (p : Str) : Function.Injective (storedKey p) := by
  intro r r' h
  rw [storedKey, storedKey] at h
  split_ifs at h
  · exact h
  · exact (List.cons.inj (List.append_cancel_left h)).2

end Part

/-- **The keys of a part are recovered iff its mentions can be told apart**, on a disk whose prefix
has no slash at an end. -/
theorem recovers_keys_iff (partDir p : Str) (entries : List PartTree) (collected recorded : List S3ObjectInfo)
    (total : Nat) (hcollect : collectS3PartMetadata partDir p entries = .ok (collected, total))
    (hrecorded : recorded.map (fun o => (o.path, o.size)) = collected.map fun o => (o.path, o.size))
    (hstored : ∀ metadata ∈ partMetadata entries, metadata.version = 5 ∧
      ∀ o ∈ metadata.objects, ∃ r, o.relativePath = storedKey p r) :
    RecoversKeys p entries recorded ↔
      partObjects entries = [] ∨
        (Str.trimMatches '/' p = p ∧ MentionsTellApart p (partObjects entries)) := by
  have hpairs : recorded.map (fun o => (o.path, o.size)) =
      (partObjects entries).map fun o => (diskRelativeKey o.relativePath p, o.size) := by
    have hread := readable_of_collectS3PartMetadata hcollect
    rw [collectS3PartMetadata_eq_ok hread] at hcollect
    cases hcollect
    rw [hrecorded, map_entriesObjects]
  have hrelative : ∀ x ∈ partObjects entries,
      x.relativePath = storedKey p (diskRelativeKey x.relativePath p) ↔ Str.trimMatches '/' p = p := by
    intro x hx
    obtain ⟨metadata, hm, hxm⟩ := List.mem_flatMap.mp hx
    obtain ⟨r, hr⟩ := (hstored metadata hm).2 x hxm
    rw [hr, (storedKey_injective p).eq_iff, eq_comm]
    exact diskRelativeKey_storedKey_iff
  constructor
  · intro hrecovers
    rcases List.eq_nil_or_concat (partObjects entries) with hnil | ⟨rest, last, hlast⟩
    · exact Or.inl hnil
    · have hfile : ∀ x ∈ partObjects entries, (toDiskRelativeKey recorded x).isOk = true ∧
          x.relativePath = storedKey p (diskRelativeKey x.relativePath p) := by
        intro x hx
        obtain ⟨metadata, hm, hxm⟩ := List.mem_flatMap.mp hx
        obtain ⟨relative, hok, -, hkeys⟩ := hrecovers metadata hm
        obtain ⟨objects, hmap, rfl⟩ := (toDiskRelativeKeys_v5 (hstored metadata hm).1).mp hok
        obtain ⟨hall, rfl⟩ := (mapM_toDiskRelativeKey_iff hpairs hm).mp hmap
        rw [List.forall₂_map_right_iff, List.forall₂_same] at hkeys
        exact ⟨hall x hxm, (hkeys x hxm).2⟩
      have hmem : last ∈ partObjects entries := by
        rw [hlast]
        simp
      exact Or.inr ⟨(hrelative last hmem).mp (hfile last hmem).2,
        (forall_isOk_iff hpairs).mp fun x hx => (hfile x hx).1⟩
  · intro hcond metadata hm
    have hok : ∀ x ∈ metadata.objects, (toDiskRelativeKey recorded x).isOk = true ∧
        x.relativePath = storedKey p (diskRelativeKey x.relativePath p) := by
      intro x hxm
      have hx : x ∈ partObjects entries := List.mem_flatMap.mpr ⟨metadata, hm, hxm⟩
      rcases hcond with hnil | ⟨hroot', happart⟩
      · rw [hnil] at hx
        exact absurd hx List.not_mem_nil
      · exact ⟨(forall_isOk_iff hpairs).mpr happart x hx, (hrelative x hx).mpr hroot'⟩
    have hmap := (mapM_toDiskRelativeKey_iff hpairs hm).mpr ⟨fun x hx => (hok x hx).1, rfl⟩
    refine ⟨_, (toDiskRelativeKeys_v5 (hstored metadata hm).1).mpr ⟨_, hmap, rfl⟩, rfl, ?_⟩
    rw [List.forall₂_map_right_iff, List.forall₂_same]
    exact fun x hx => ⟨rfl, (hok x hx).2⟩

/-! ## Two files with one object -/

/-- A metadata file of version 5 with one object. -/
def sharedObject : FileData := ⟨true, some "5\n1\t10\n10\tdisks/abc/def\n1\n0\n\n", 31, 1⟩

/-- What is parsed of it. -/
def sharedMetadata : ObjectDiskMetadata := ⟨5, [⟨"disks/abc/def", 10⟩], 10, 1, false, none⟩

/-- A part with the given files, all of them with the same object. -/
def sharingPart (files : List Str) : List PartTree := files.map fun f => .file (.utf8 f) sharedObject

theorem partMetadata_sharingPart (files : List Str) :
    partMetadata (sharingPart files) = files.map fun _ => sharedMetadata := by
  have htop : DirTree.topFiles (sharingPart files) = files.map fun f => (.utf8 f, sharedObject) := by
    induction files with
    | nil => rfl
    | cons f files ih => exact congrArg _ ih
  rw [partMetadata, htop, List.filterMap_map, ← List.filterMap_eq_map]
  congr 1

theorem sharingPart_stored (files : List Str) : ∀ metadata ∈ partMetadata (sharingPart files),
    metadata.version = 5 ∧ ∀ o ∈ metadata.objects, ∃ r, o.relativePath = storedKey "disks" r := by
  intro metadata hm
  rw [partMetadata_sharingPart, List.mem_map] at hm
  obtain ⟨f, -, rfl⟩ := hm
  refine ⟨rfl, fun o ho => ⟨"abc/def", ?_⟩⟩
  rw [List.mem_singleton.mp ho]
  decide

/-- The key of an object that one file names is recovered. -/
theorem recovers_keys_one_file :
    collectS3PartMetadata "all_1_1_0" "disks" (sharingPart ["data.bin"]) = .ok ([⟨"abc/def", 10, []⟩], 10) ∧
      RecoversKeys "disks" (sharingPart ["data.bin"]) [⟨"abc/def", 10, "backup/abc/def"⟩] := by
  have hcollect : collectS3PartMetadata "all_1_1_0" "disks" (sharingPart ["data.bin"]) =
      .ok ([⟨"abc/def", 10, []⟩], 10) := by decide
  have hrecorded : [(⟨"abc/def", 10, "backup/abc/def"⟩ : S3ObjectInfo)].map (fun o => (o.path, o.size)) =
      [(⟨"abc/def", 10, []⟩ : S3ObjectInfo)].map fun o => (o.path, o.size) := rfl
  refine ⟨hcollect, (recovers_keys_iff _ _ _ _ _ _ hcollect hrecorded (sharingPart_stored _)).mpr
    (Or.inr ⟨by decide, ?_⟩)⟩
  intro before x after hsplit y hy
  rw [partObjects, partMetadata_sharingPart] at hsplit
  have hlength := congrArg List.length hsplit
  have hothers : before ++ after = [] := by
    rw [← List.length_eq_zero_iff, List.length_append]
    rw [List.length_append, List.length_cons] at hlength
    change 1 = _ at hlength
    omega
  rw [hothers] at hy
  exact absurd hy List.not_mem_nil

/-- **An object that two files name cannot be recovered**: it is recorded twice. -/
theorem shared_object_ambiguous :
    ∃ collected total,
      collectS3PartMetadata "all_1_1_0" "disks" (sharingPart ["data.bin", "data.mrk"]) =
          .ok (collected, total) ∧
        (∀ metadata ∈ partMetadata (sharingPart ["data.bin", "data.mrk"]), metadata.version = 5 ∧
          ∀ o ∈ metadata.objects, ∃ r, o.relativePath = storedKey "disks" r) ∧
        ¬RecoversKeys "disks" (sharingPart ["data.bin", "data.mrk"]) collected := by
  refine ⟨[⟨"abc/def", 10, []⟩, ⟨"abc/def", 10, []⟩], 20, by decide, sharingPart_stored _, ?_⟩
  intro hrecovers
  obtain ⟨relative, hok, -⟩ := hrecovers sharedMetadata (by
    rw [partMetadata_sharingPart]
    exact List.mem_cons_self)
  cases hok

end Chbackup
