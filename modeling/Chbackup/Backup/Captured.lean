import Chbackup.Restore.Rewrite

/-!
# The objects a restored part needs

A part on an S3 object disk is recorded with the objects that the files among the entries of its
directory name.  The restore rewrites every staged metadata file, also those in the directories of
projections.  Nothing needed is missing exactly when the files in subdirectories name only objects
that a file among the entries names too.
-/

namespace Chbackup

/-- `collect_s3_part_metadata` looks into the file: it is a regular file among the entries of the
part directory, with a name that is a text. -/
def ReadByCollect (dirs : List OsName) (name : OsName) (data : FileData) : Prop :=
  dirs = [] ∧ data.regular = true ∧ name.toStr.isSome = true

instance (dirs : List OsName) (name : OsName) (data : FileData) :
    Decidable (ReadByCollect dirs name data) :=
  inferInstanceAs (Decidable (_ ∧ _))

/-- The metadata of a file. -/
def FileData.HoldsMetadata (data : FileData) (m : ObjectDiskMetadata) : Prop :=
  ∃ text, data.content = some text ∧ parseMetadata text = .ok m

/-- A metadata file among the entries of the part directory names the object. -/
def NamedByEntry (sourceKeyPrefix : Str) (entries : List PartTree) (key : Str) (size : Nat) : Prop :=
  ∃ name data m, (name, data) ∈ DirTree.topFiles entries ∧ ReadByCollect [] name data ∧
    data.HoldsMetadata m ∧
    ∃ o ∈ m.objects, diskRelativeKey o.relativePath sourceKeyPrefix = key ∧ o.size = size

/-- Every object that a rewritten metadata file of the staged part names is recorded for the part,
relative to the disk and with its size. -/
def Captured (part : StagedPart) (sourceKeyPrefix uuidPrefix dataPrefix : Str) : Prop :=
  ∀ r ∈ (restoreS3DiskPart uuidPrefix dataPrefix part.info part.staged).1, ∀ o ∈ r.metadata.objects,
    ∃ i ∈ part.info.s3Objects.getD [],
      i.path = diskRelativeKey o.relativePath sourceKeyPrefix ∧ i.size = o.size

instance (part : StagedPart) (sourceKeyPrefix uuidPrefix dataPrefix : Str) :
    Decidable (Captured part sourceKeyPrefix uuidPrefix dataPrefix) :=
  inferInstanceAs (Decidable (∀ r ∈ _, ∀ o ∈ _, ∃ i ∈ _, _))

/-! ## What is recorded -/

/-- What one entry contributes. -/
def entryObjects (sourceKeyPrefix : Str) (entry : OsName × FileData) : List S3ObjectInfo :=
  if entry.2.regular = true ∧ entry.1.toStr.isSome = true then
    match entry.2.content with
    | some text =>
      match parseMetadata text with
      | .ok m => recordedObjects sourceKeyPrefix m
      | .error _ => []
    | none => []
  else []

/-- The objects that the files among the entries name. -/
def entriesObjects (sourceKeyPrefix : Str) (entries : List PartTree) : List S3ObjectInfo :=
  (DirTree.topFiles entries).flatMap (entryObjects sourceKeyPrefix)

/-- Every file that `collect_s3_part_metadata` looks into is a text. -/
def EntriesReadable (entries : List PartTree) : Prop :=
  ∀ e ∈ DirTree.topFiles entries, ReadByCollect [] e.1 e.2 → e.2.content.isSome = true

theorem collectEntry_eq (partDir sourceKeyPrefix : Str) (e : OsName × FileData)
    (h : ReadByCollect [] e.1 e.2 → e.2.content.isSome = true) :
    collectEntry partDir sourceKeyPrefix e = .ok (entryObjects sourceKeyPrefix e) := by
  obtain ⟨name, ⟨regular, content, len, crc⟩⟩ := e
  rw [collectEntry, entryObjects]
  cases regular with
  | false => rfl
  | true =>
    cases name with
    | raw bytes => rfl
    | utf8 s =>
      cases content with
      | none => exact absurd (h ⟨rfl, rfl, rfl⟩) Bool.false_ne_true
      | some text =>
        dsimp only [OsName.toStr]
        cases parseMetadata text with
        | ok m => rfl
        | error e => rfl

theorem collectEntry_isOk_iff (partDir sourceKeyPrefix : Str) (e : OsName × FileData) :
    (collectEntry partDir sourceKeyPrefix e).isOk = true ↔
      (ReadByCollect [] e.1 e.2 → e.2.content.isSome = true) := by
  refine ⟨fun hok hread => ?_, fun h => by rw [collectEntry_eq _ _ _ h]; rfl⟩
  obtain ⟨name, ⟨regular, content, len, crc⟩⟩ := e
  cases content with
  | some text => rfl
  | none =>
    obtain ⟨-, hreg, hname⟩ := hread
    obtain ⟨s, hs⟩ := Option.isSome_iff_exists.mp hname
    rw [collectEntry] at hok
    dsimp only at hs hreg hok
    rw [hreg, hs] at hok
    exact hok

theorem mapM_eq_ok {α β : Type} {g : α → Except Str β} {h : α → β} {xs : List α}
    (hg : ∀ x ∈ xs, g x = .ok (h x)) : xs.mapM g = .ok (xs.map h) := by
  induction xs with
  | nil => rfl
  | cons x xs ih =>
    rw [List.mapM_cons, hg x List.mem_cons_self, ih fun y hy => hg y (List.mem_cons_of_mem _ hy)]
    rfl

theorem isOk_of_mapM {α β : Type} {g : α → Except Str β} {xs : List α} {ys : List β}
    (h : xs.mapM g = .ok ys) : ∀ x ∈ xs, (g x).isOk = true := by
  induction xs generalizing ys with
  | nil => exact fun x hx => absurd hx List.not_mem_nil
  | cons x xs ih =>
    rw [List.mapM_cons] at h
    cases hx : g x with
    | error e =>
      rw [hx] at h
      cases h
    | ok y =>
      cases hxs : xs.mapM g with
      | error e =>
        rw [hx, hxs] at h
        cases h
      | ok zs =>
        intro z hz
        rcases List.mem_cons.mp hz with rfl | hz
        · rw [hx]
          rfl
        · exact ih hxs z hz

/-- What `collect_s3_part_metadata` lists, if it can read what it looks into. -/
theorem collectS3PartMetadata_eq_ok {entries : List PartTree} (h : EntriesReadable entries)
    (partDir sourceKeyPrefix : Str) :
    collectS3PartMetadata partDir sourceKeyPrefix entries =
      .ok (entriesObjects sourceKeyPrefix entries,
        ((entriesObjects sourceKeyPrefix entries).map (·.size)).sum % 2 ^ 64) := by
  rw [collectS3PartMetadata, mapM_eq_ok fun e he => collectEntry_eq partDir sourceKeyPrefix e (h e he)]
  rfl

theorem readable_of_collectS3PartMetadata {partDir sourceKeyPrefix : Str} {entries : List PartTree}
    {r : List S3ObjectInfo × Nat}
    (h : collectS3PartMetadata partDir sourceKeyPrefix entries = .ok r) : EntriesReadable entries := by
  rw [collectS3PartMetadata] at h
  cases hm : (DirTree.topFiles entries).mapM (collectEntry partDir sourceKeyPrefix) with
  | error e =>
    rw [hm] at h
    cases h
  | ok per => exact fun e he => (collectEntry_isOk_iff partDir sourceKeyPrefix e).mp (isOk_of_mapM hm e he)

theorem mem_entryObjects_iff {sourceKeyPrefix : Str} {e : OsName × FileData} {i : S3ObjectInfo} :
    i ∈ entryObjects sourceKeyPrefix e ↔
      ReadByCollect [] e.1 e.2 ∧ ∃ m, e.2.HoldsMetadata m ∧ i ∈ recordedObjects sourceKeyPrefix m := by
  obtain ⟨name, ⟨regular, content, len, crc⟩⟩ := e
  rw [entryObjects]
  by_cases hr : regular = true ∧ name.toStr.isSome = true
  · rw [if_pos hr]
    cases content with
    | none => simp [FileData.HoldsMetadata]
    | some text =>
      dsimp only
      cases hp : parseMetadata text with
      | error e => simp [FileData.HoldsMetadata, hp]
      | ok m => simp [FileData.HoldsMetadata, hp, ReadByCollect, hr]
  · rw [if_neg hr]
    simp only [List.not_mem_nil, false_iff, not_and]
    exact fun hread => absurd hread.2 hr

/-- **An object is recorded iff a metadata file among the entries names it.** -/
theorem exists_mem_entriesObjects_iff {sourceKeyPrefix : Str} {entries : List PartTree} {key : Str}
    {size : Nat} :
    (∃ i ∈ entriesObjects sourceKeyPrefix entries, i.path = key ∧ i.size = size) ↔
      NamedByEntry sourceKeyPrefix entries key size := by
  constructor
  · rintro ⟨i, hi, hpath, hsize⟩
    obtain ⟨⟨name, data⟩, he, hie⟩ := List.mem_flatMap.mp hi
    obtain ⟨hread, m, hm, him⟩ := mem_entryObjects_iff.mp hie
    obtain ⟨o, ho, rfl⟩ := List.mem_map.mp him
    exact ⟨name, data, m, he, hread, hm, o, ho, hpath, hsize⟩
  · rintro ⟨name, data, m, he, hread, hm, o, ho, hpath, hsize⟩
    refine ⟨⟨diskRelativeKey o.relativePath sourceKeyPrefix, o.size, []⟩, ?_, hpath, hsize⟩
    exact List.mem_flatMap.mpr ⟨(name, data), he, mem_entryObjects_iff.mpr
      ⟨hread, m, hm, List.mem_map.mpr ⟨o, ho, rfl⟩⟩⟩

/-! ## What the restore rewrites -/

/-- The restore gets past a file: every key in it can be resolved. -/
def KeysResolve (objs : List S3ObjectInfo) (f : WalkedFile OsName FileData) : Prop :=
  f.name = .utf8 "frozen_metadata.txt" ∨
    ∀ m, f.data.HoldsMetadata m → (toDiskRelativeKeys m objs).isOk = true

theorem rewriteFile_isOk_iff {objs : List S3ObjectInfo} {uuidPrefix dataPrefix : Str}
    {f : WalkedFile OsName FileData} :
    (rewriteFile objs uuidPrefix dataPrefix f).isOk = true ↔ KeysResolve objs f := by
  rw [rewriteFile, KeysResolve]
  by_cases hn : f.name = .utf8 "frozen_metadata.txt"
  · rw [if_pos hn]
    exact ⟨fun _ => Or.inl hn, fun _ => rfl⟩
  rw [if_neg hn, or_iff_right hn]
  obtain ⟨dirs, name, ⟨regular, content, len, crc⟩⟩ := f
  cases content with
  | none => simp [FileData.HoldsMetadata, Except.isOk, Except.toBool]
  | some text =>
    dsimp only
    cases hp : parseMetadata text with
    | error e => simp [FileData.HoldsMetadata, hp, Except.isOk, Except.toBool]
    | ok m =>
      dsimp only
      cases hk : toDiskRelativeKeys m objs with
      | error e => simp [FileData.HoldsMetadata, hp, hk, Except.isOk, Except.toBool]
      | ok rel => simp [FileData.HoldsMetadata, hp, hk, Except.isOk, Except.toBool]

/-- What a part with recorded objects has rewritten. -/
theorem exists_mem_restoreS3DiskPart_iff {uuidPrefix dataPrefix : Str} {part : PartInfo}
    {staged : List PartTree} {objs : List S3ObjectInfo} (hobjs : part.s3Objects = some objs)
    (hne : objs ≠ []) {m : ObjectDiskMetadata} :
    (∃ text, ⟨m, text⟩ ∈ (restoreS3DiskPart uuidPrefix dataPrefix part staged).1) ↔
      ∃ before f after, DirTree.walkAll [] staged = before ++ f :: after ∧
        (∀ g ∈ before, KeysResolve objs g) ∧ f.name ≠ .utf8 "frozen_metadata.txt" ∧
        f.data.HoldsMetadata m ∧ (toDiskRelativeKeys m objs).isOk = true := by
  have hrun : restoreS3DiskPart uuidPrefix dataPrefix part staged =
      rewriteFiles objs uuidPrefix dataPrefix (DirTree.walkAll [] staged) := by
    rw [restoreS3DiskPart, hobjs]
    cases objs with
    | nil => exact absurd rfl hne
    | cons i is => rfl
  rw [hrun]
  constructor
  · rintro ⟨text, hmem⟩
    obtain ⟨before, f, after, hfs, hok, hf⟩ := mem_rewriteFiles_iff.mp hmem
    obtain ⟨hn, hm, hk⟩ := rewriteFile_eq_some_iff.mp ⟨text, hf⟩
    exact ⟨before, f, after, hfs, fun g hg => rewriteFile_isOk_iff.mp (hok g hg), hn, hm, hk⟩
  · rintro ⟨before, f, after, hfs, hok, hn, hm, hk⟩
    obtain ⟨text, hf⟩ := rewriteFile_eq_some_iff.mpr ⟨hn, hm, hk⟩
    exact ⟨text, mem_rewriteFiles_iff.mpr
      ⟨before, f, after, hfs, fun g hg => rewriteFile_isOk_iff.mpr (hok g hg), hf⟩⟩

/-! ## The exact condition -/

/-- A staged metadata file that `collect_s3_part_metadata` does not look into, and that the restore
reaches and can resolve, names only objects that a file among the entries names too. -/
def NothingHidden (glob : Str → Option (Str → Bool)) (skipProjections : List Str)
    (sourceKeyPrefix partName : Str) (entries : List PartTree) : Prop :=
  ∀ before f after,
    unskippedFiles glob skipProjections (.utf8 partName) entries = before ++ f :: after →
    (∀ g ∈ before, KeysResolve (entriesObjects sourceKeyPrefix entries) g) →
    f.name ≠ .utf8 "frozen_metadata.txt" → ¬ ReadByCollect f.dirs f.name f.data →
    ∀ m, f.data.HoldsMetadata m →
      (toDiskRelativeKeys m (entriesObjects sourceKeyPrefix entries)).isOk = true →
    ∀ o ∈ m.objects,
      NamedByEntry sourceKeyPrefix entries (diskRelativeKey o.relativePath sourceKeyPrefix) o.size

/-- A file that `collect_s3_part_metadata` looks into has its objects recorded. -/
theorem namedByEntry_of_readByCollect {sourceKeyPrefix : Str} {entries : List PartTree}
    {f : WalkedFile OsName FileData} {m : ObjectDiskMetadata} {o : ObjectRef}
    (hf : f ∈ DirTree.walkAll [] entries) (hread : ReadByCollect f.dirs f.name f.data)
    (hm : f.data.HoldsMetadata m) (ho : o ∈ m.objects) :
    NamedByEntry sourceKeyPrefix entries (diskRelativeKey o.relativePath sourceKeyPrefix) o.size := by
  obtain ⟨dirs, name, data⟩ := f
  obtain ⟨rfl, hreg, hname⟩ := hread
  exact ⟨name, data, m, DirTree.mem_walkAll_nil_iff.mp hf, ⟨rfl, hreg, hname⟩, hm, o, ho, rfl, rfl⟩

/-- **Exactly the parts that need no object from a subdirectory are captured.**  Whatever a part
directory holds, staging it records every object its restore will name iff staging fails, or no
object is recorded and the restore passes the part over, or no staged file in a subdirectory names
an object that no file among the entries names. -/
theorem captured_iff_nothing_hidden (glob : Str → Option (Str → Bool)) (skipProjections : List Str)
    (sourceKeyPrefix partDir partName : Str) (crc64 : Nat) (entries : List PartTree)
    (uuidPrefix dataPrefix : Str) :
    (∀ part, stageS3Part glob skipProjections sourceKeyPrefix partDir partName crc64 entries =
        .ok part → Captured part sourceKeyPrefix uuidPrefix dataPrefix) ↔
      ¬ EntriesReadable entries ∨ entriesObjects sourceKeyPrefix entries = [] ∨
        NothingHidden glob skipProjections sourceKeyPrefix partName entries := by
  by_cases hread : EntriesReadable entries
  swap
  · refine ⟨fun _ => Or.inl hread, fun _ part hpart => ?_⟩
    cases hc : collectS3PartMetadata partDir sourceKeyPrefix entries with
    | ok r => exact absurd (readable_of_collectS3PartMetadata hc) hread
    | error e =>
      rw [stageS3Part, hc] at hpart
      cases hpart
  obtain ⟨size, hstage⟩ : ∃ size,
      stageS3Part glob skipProjections sourceKeyPrefix partDir partName crc64 entries =
        .ok ⟨(PartInfo.new partName size crc64).withS3Objects (entriesObjects sourceKeyPrefix entries),
          hardlinkDir glob skipProjections (.utf8 partName) entries⟩ := by
    rw [stageS3Part, collectS3PartMetadata_eq_ok hread]
    exact ⟨_, rfl⟩
  rw [hstage, or_iff_right (not_not.mpr hread)]
  by_cases hobjs : entriesObjects sourceKeyPrefix entries = []
  · refine ⟨fun _ => Or.inl hobjs, fun _ part hpart r hr => ?_⟩
    cases hpart
    rw [hobjs] at hr
    exact absurd hr List.not_mem_nil
  rw [or_iff_right hobjs]
  have hrewritten := @exists_mem_restoreS3DiskPart_iff uuidPrefix dataPrefix
    ((PartInfo.new partName size crc64).withS3Objects (entriesObjects sourceKeyPrefix entries))
    (hardlinkDir glob skipProjections (.utf8 partName) entries) _ rfl hobjs
  constructor
  · intro hcap before f after hfs hbefore hn _ m hm hk o ho
    obtain ⟨text, hr⟩ := hrewritten.mpr
      ⟨before, f, after, (walkAll_hardlinkDir ..).trans hfs, hbefore, hn, hm, hk⟩
    exact exists_mem_entriesObjects_iff.mp (hcap _ rfl _ hr o ho)
  · rintro hhidden part hpart ⟨m, text⟩ hr o ho
    cases hpart
    obtain ⟨before, f, after, hfs, hbefore, hn, hm, hk⟩ := hrewritten.mp ⟨text, hr⟩
    rw [walkAll_hardlinkDir] at hfs
    refine exists_mem_entriesObjects_iff.mpr ?_
    by_cases hf : ReadByCollect f.dirs f.name f.data
    · have hmem : f ∈ unskippedFiles glob skipProjections (.utf8 partName) entries := by
        rw [hfs]
        exact List.mem_append_right _ List.mem_cons_self
      exact namedByEntry_of_readByCollect (List.mem_of_mem_filter hmem) hf hm ho
    · exact hhidden before f after hfs hbefore hn hf m hm hk o ho

/-- A part with a projection, both with a metadata file of version 3. -/
def partWithProjection : List PartTree :=
  [.file (.utf8 "data.bin") ⟨true, some "3\n1\t10\n10\tabc/data\n1\n0\n", 24, 1⟩,
    .dir (.utf8 "p.proj")
      [.file (.utf8 "data.bin") ⟨true, some "3\n1\t7\n7\tabc/proj\n1\n0\n", 22, 2⟩]]

/-- The object of the projection is named by the restored part and not recorded. -/
theorem projection_object_not_captured :
    ¬ ∀ part, stageS3Part (fun _ => none) [] [] "/shadow/all_1_1_0" "all_1_1_0" 7
        partWithProjection = .ok part → Captured part [] "store/abc/uuid" [] := by
  intro h
  have hcaptured := h _ rfl
  revert hcaptured
  decide

end Chbackup
