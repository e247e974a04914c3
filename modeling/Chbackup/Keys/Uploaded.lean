import Chbackup.Keys.Encoding
import Chbackup.Lib.Ends
import Chbackup.Upload.Resumed

/-!
# The keys of an upload

Everything that `upload_inner` writes below the name of a backup (`src/upload/mod.rs`): the archive of
a local part, the metadata files of a part on an S3 disk below the directory of the part, and the
copies of its objects.  The names of databases and tables are encoded; those of disks, parts and
objects are not, and the copy of an object is named by its path alone, whichever bucket and prefix it
comes from.
-/

namespace Chbackup

/-- What is written under a key. -/
inductive KeySource where
  | archive (tableKey diskName partName : Str)
  | metadataFile (tableKey diskName partName file : Str)
  | object (bucket diskPrefix path : Str)
  deriving DecidableEq

/-- A part of a manifest with its table and its disk. -/
abbrev ManifestPart : Type := Str × Str × PartInfo

/-- The parts that are uploaded. -/
def uploadedParts (m : BackupManifest) : List ManifestPart :=
  (plannedParts m).filter fun x => !x.2.2.isCarried

/-- The part is on an S3 disk and its objects are known. -/
def BackupManifest.isS3Part (m : BackupManifest) (x : ManifestPart) : Bool :=
  m.diskIsS3 x.2.1 && x.2.2.s3Objects.isSome

section Keys

variable (env : UploadEnv) (m : BackupManifest)

/-- The key of a part below the directory of its table: an archive, or a directory. -/
def partRoot (x : ManifestPart) : Str :=
  if m.isS3Part x then x.2.1 ++ "/" ++ x.2.2.name ++ "/"
  else x.2.2.name ++ archiveExtension env.dataFormat

/-- The keys that the upload of a part writes, and what it writes there.  The files of the directory
of an S3-disk part are given by their paths below it. -/
def keysWritten (files : Str → Str → Str → List Str) (x : ManifestPart) : List (Str × KeySource) :=
  if m.isS3Part x then
    (((x.2.2.s3Objects.getD []).filter fun o => o.size ≠ 0).map fun o =>
      ((copyObject env o).backupKey,
        .object (copySource env m x.2.1).1 (copySource env m x.2.1).2 o.path)) ++
    (files x.1 x.2.1 x.2.2.name).map fun file =>
      (env.metadataKey x.1 x.2.1 x.2.2.name ++ file, .metadataFile x.1 x.2.1 x.2.2.name file)
  else [(env.s3KeyForPart x.1 x.2.2.name, .archive x.1 x.2.1 x.2.2.name)]

/-- **Keys never collide**: what is written under one key comes from one source, whatever files the
directories of the parts have; no archive lies in the directory of a part; and the key that is recorded
for a part is recorded for no other. -/
structure KeysNeverCollide : Prop where
  written : ∀ files, ∀ x ∈ uploadedParts m, ∀ y ∈ uploadedParts m, ∀ k s s',
    (k, s) ∈ keysWritten env m files x → (k, s') ∈ keysWritten env m files y → s = s'
  outside : ∀ x ∈ uploadedParts m, ∀ y ∈ uploadedParts m, m.isS3Part x = false →
    m.isS3Part y = true → ¬env.metadataKey y.1 y.2.1 y.2.2.name <+: env.s3KeyForPart x.1 x.2.2.name
  recorded : ∀ x ∈ uploadedParts m, ∀ y ∈ uploadedParts m,
    partKey env m x.1 x.2.1 x.2.2 = partKey env m y.1 y.2.1 y.2.2 → x = y

/-- The key of the second part is in the way of the first: it lies in its directory, or is the key of
its archive. -/
def Covers (x y : ManifestPart) : Prop :=
  if m.isS3Part x then partRoot env m x <+: partRoot env m y
  else m.isS3Part y = false ∧ partRoot env m x = partRoot env m y

/-- The names keep the parts apart, and objects of one path are in one place. -/
structure NamesApart : Prop where
  parts : ∀ x ∈ uploadedParts m, ∀ y ∈ uploadedParts m, x ≠ y →
    splitTableKey x.1 = splitTableKey y.1 → ¬Covers env m x y
  objects : ∀ x ∈ uploadedParts m, ∀ y ∈ uploadedParts m, m.isS3Part x = true → m.isS3Part y = true →
    ∀ o ∈ x.2.2.s3Objects.getD [], ∀ o' ∈ y.2.2.s3Objects.getD [], o.size ≠ 0 → o'.size ≠ 0 →
      o.path = o'.path → copySource env m x.2.1 = copySource env m y.2.1

/-- The names of the parts of a table are unique. -/
def PartNamesUnique : Prop :=
  ∀ t ∈ m.tables.entries, ((t.2.parts.entries.flatMap Prod.snd).map PartInfo.name).Nodup

end Keys

/-! ## The directory of a table -/

section Directory

variable {env : UploadEnv} {m : BackupManifest} {x y : ManifestPart}

/-- **The directories of tables are apart**, also below each other. -/
theorem tableDataKey_append_inj (halnum : Alphanumeric env.isAlphanumeric) {t t' a b : Str}
    (h : env.tableDataKey t ++ a = env.tableDataKey t' ++ b) :
    splitTableKey t = splitTableKey t' ∧ a = b := by
  simp only [UploadEnv.tableDataKey, List.append_assoc, List.append_cancel_left_eq] at h
  obtain ⟨hdb, hrest⟩ := Str.append_cons_inj (slash_notMem_encode halnum _) (slash_notMem_encode halnum _) h
  obtain ⟨htable, hrest⟩ :=
    Str.append_cons_inj (slash_notMem_encode halnum _) (slash_notMem_encode halnum _) hrest
  exact ⟨Prod.ext (encodePathComponent_injective halnum hdb)
    (encodePathComponent_injective halnum htable), hrest⟩

theorem tableDataKey_congr {t t' : Str} (h : splitTableKey t = splitTableKey t') :
    env.tableDataKey t = env.tableDataKey t' := by
  rw [UploadEnv.tableDataKey, UploadEnv.tableDataKey, h]

/-- The key of a part is its root below the directory of its table. -/
theorem partKey_eq (x : ManifestPart) :
    partKey env m x.1 x.2.1 x.2.2 = env.tableDataKey x.1 ++ partRoot env m x := by
  rw [partKey, partRoot, BackupManifest.isS3Part]
  split_ifs
  · rw [UploadEnv.metadataKey]
    simp
  · rw [UploadEnv.s3KeyForPart]
    simp

theorem metadataKey_eq (hx : m.isS3Part x = true) :
    env.metadataKey x.1 x.2.1 x.2.2.name = env.tableDataKey x.1 ++ partRoot env m x := by
  rw [← partKey_eq, partKey]
  exact (if_pos hx).symm

theorem s3KeyForPart_eq (hx : m.isS3Part x = false) :
    env.s3KeyForPart x.1 x.2.2.name = env.tableDataKey x.1 ++ partRoot env m x := by
  rw [← partKey_eq, partKey]
  exact (if_neg (by rw [BackupManifest.isS3Part] at hx; rw [hx]; exact Bool.false_ne_true)).symm

/-- The copies of objects are not below the directory of a table. -/
theorem copyObject_ne_data {o : S3ObjectInfo} (ho : o.size ≠ 0) (t rest : Str) :
    (copyObject env o).backupKey ≠ env.tableDataKey t ++ rest := by
  rw [copyObject, if_neg ho]
  simp only [UploadEnv.tableDataKey, List.append_assoc, ne_eq, List.append_cancel_left_eq]
  intro h
  have hcut : ('/' :: 'o' :: _ : Str) = '/' :: 'd' :: _ := h
  cases hcut

theorem copyObject_inj {o o' : S3ObjectInfo} (ho : o.size ≠ 0) (ho' : o'.size ≠ 0)
    (h : (copyObject env o).backupKey = (copyObject env o').backupKey) : o.path = o'.path := by
  rw [copyObject, copyObject, if_neg ho, if_neg ho'] at h
  exact List.append_cancel_left h

/-- Unique names tell the parts of a table apart. -/
theorem PartNamesUnique.eq_of_name_eq (hunique : PartNamesUnique m) {t d d' : Str} {tm : TableManifest}
    {parts parts' : List PartInfo} {p p' : PartInfo} (htm : (t, tm) ∈ m.tables)
    (hd : (d, parts) ∈ tm.parts) (hp : p ∈ parts) (hd' : (d', parts') ∈ tm.parts) (hp' : p' ∈ parts')
    (hname : p.name = p'.name) : d = d' ∧ p = p' := by
  have hnodup := hunique _ (SortedMap.mem_iff.mp htm)
  rw [List.map_flatMap, List.nodup_flatMap] at hnodup
  have hpe : p.name ∈ parts.map PartInfo.name := List.mem_map_of_mem hp
  have hpe' : p.name ∈ parts'.map PartInfo.name := by
    rw [hname]
    exact List.mem_map_of_mem hp'
  have hsymm : Std.Symm (Function.onFun List.Disjoint fun e : Str × List PartInfo =>
      e.2.map PartInfo.name) := ⟨fun _ _ h => h.symm⟩
  have hentry : (d, parts) = (d', parts') := by
    by_contra hne
    exact hnodup.2.forall hd hd' hne hpe hpe'
  cases hentry
  exact ⟨rfl, List.inj_on_of_nodup_map (hnodup.1 _ (SortedMap.mem_iff.mp hd)) hp hp' hname⟩

theorem eq_of_name_eq (hunique : PartNamesUnique m) (hx : x ∈ uploadedParts m)
    (hy : y ∈ uploadedParts m) (ht : x.1 = y.1) (hname : x.2.2.name = y.2.2.name) : x = y := by
  obtain ⟨t, d, p⟩ := x
  obtain ⟨t', d', p'⟩ := y
  dsimp only at ht hname
  subst ht
  obtain ⟨parts, ⟨tm, htm, -, hd⟩, hp⟩ := mem_plannedParts.mp (List.mem_of_mem_filter hx)
  obtain ⟨parts', ⟨tm', htm', -, hd'⟩, hp'⟩ := mem_plannedParts.mp (List.mem_of_mem_filter hy)
  obtain rfl : tm = tm' := SortedMap.eq_of_mem htm htm'
  obtain ⟨rfl, rfl⟩ := hunique.eq_of_name_eq htm hd hp hd' hp' hname
  rfl

end Directory

/-! ## Keys and names -/

section Written

variable {env : UploadEnv} {m : BackupManifest} {x y : ManifestPart}
  {files : Str → Str → Str → List Str} {k : Str} {s s' : KeySource}

/-- What is written below the key of a part. -/
def dataSource (m : BackupManifest) (x : ManifestPart) (rest : Str) : KeySource :=
  if m.isS3Part x then .metadataFile x.1 x.2.1 x.2.2.name rest else .archive x.1 x.2.1 x.2.2.name

/-- **What the upload of a part writes**: a copy of one of its objects, or its archive or a file below
its directory. -/
theorem mem_keysWritten (h : (k, s) ∈ keysWritten env m files x) :
    (m.isS3Part x = true ∧ ∃ o ∈ x.2.2.s3Objects.getD [], o.size ≠ 0 ∧
      k = (copyObject env o).backupKey ∧
        s = .object (copySource env m x.2.1).1 (copySource env m x.2.1).2 o.path) ∨
    ∃ rest, k = env.tableDataKey x.1 ++ (partRoot env m x ++ rest) ∧
      (m.isS3Part x = false → rest = []) ∧ s = dataSource m x rest := by
  rw [keysWritten] at h
  split_ifs at h with hx
  · rcases List.mem_append.mp h with hobject | hfile
    · obtain ⟨o, ho, heq⟩ := List.mem_map.mp hobject
      obtain ⟨ho, hsize⟩ := List.mem_filter.mp ho
      cases heq
      exact Or.inl ⟨hx, o, ho, of_decide_eq_true hsize, rfl, rfl⟩
    · obtain ⟨file, -, heq⟩ := List.mem_map.mp hfile
      cases heq
      refine Or.inr ⟨file, ?_, fun hfalse => absurd hx (by rw [hfalse]; exact Bool.false_ne_true), ?_⟩
      · rw [metadataKey_eq hx, List.append_assoc]
      · rw [dataSource, if_pos hx]
  · rw [List.mem_singleton, Prod.mk.injEq] at h
    obtain ⟨rfl, rfl⟩ := h
    refine Or.inr ⟨[], ?_, fun _ => rfl, ?_⟩
    · rw [s3KeyForPart_eq (Bool.not_eq_true _ ▸ hx), List.append_nil]
    · rw [dataSource, if_neg hx]

/-- **Names that are apart keep the parts apart**: no key is below two of them. -/
theorem NamesApart.eq_of_below (h : NamesApart env m) (halnum : Alphanumeric env.isAlphanumeric)
    (hx : x ∈ uploadedParts m) (hy : y ∈ uploadedParts m) {a b : Str}
    (ha : m.isS3Part x = false → a = []) (hb : m.isS3Part y = false → b = [])
    (heq : env.tableDataKey x.1 ++ (partRoot env m x ++ a) =
      env.tableDataKey y.1 ++ (partRoot env m y ++ b)) : x = y := by
  obtain ⟨ht, hroot⟩ := tableDataKey_append_inj halnum heq
  by_contra hxy
  have hxy' := h.parts x hx y hy hxy ht
  have hyx' := h.parts y hy x hx (Ne.symm hxy) ht.symm
  rw [Covers] at hxy' hyx'
  cases hx3 : m.isS3Part x with
  | true =>
    rw [if_pos hx3] at hxy'
    cases hy3 : m.isS3Part y with
    | true =>
      rw [if_pos hy3] at hyx'
      exact (List.prefix_or_prefix_of_prefix ⟨a, hroot⟩ ⟨b, rfl⟩).elim hxy' hyx'
    | false =>
      rw [hb hy3, List.append_nil] at hroot
      exact hxy' ⟨a, hroot⟩
  | false =>
    rw [ha hx3, List.append_nil] at hroot
    cases hy3 : m.isS3Part y with
    | true =>
      rw [if_pos hy3] at hyx'
      exact hyx' ⟨b, hroot.symm⟩
    | false =>
      rw [hb hy3, List.append_nil] at hroot
      rw [hx3, if_neg Bool.false_ne_true] at hxy'
      exact hxy' ⟨hy3, hroot⟩

/-- One key has one source. -/
theorem NamesApart.same_source (h : NamesApart env m) (halnum : Alphanumeric env.isAlphanumeric)
    (hx : x ∈ uploadedParts m) (hy : y ∈ uploadedParts m)
    (hk : (k, s) ∈ keysWritten env m files x) (hk' : (k, s') ∈ keysWritten env m files y) : s = s' := by
  rcases mem_keysWritten hk with ⟨hx3, o, ho, hsize, rfl, rfl⟩ | ⟨a, rfl, ha, rfl⟩
  · rcases mem_keysWritten hk' with ⟨hy3, o', ho', hsize', heq, rfl⟩ | ⟨b, heq, -, -⟩
    · have hpath := copyObject_inj hsize hsize' heq
      rw [h.objects x hx y hy hx3 hy3 o ho o' ho' hsize hsize' hpath, hpath]
    · exact absurd heq (copyObject_ne_data hsize _ _)
  · rcases mem_keysWritten hk' with ⟨-, o', -, hsize', heq, -⟩ | ⟨b, heq, hb, rfl⟩
    · exact absurd heq.symm (copyObject_ne_data hsize' _ _)
    · obtain rfl := h.eq_of_below halnum hx hy ha hb heq
      rw [List.append_cancel_left (List.append_cancel_left heq)]

theorem NamesApart.keysNeverCollide (h : NamesApart env m) (halnum : Alphanumeric env.isAlphanumeric) :
    KeysNeverCollide env m where
  written files x hx y hy k s s' hk hk' := h.same_source halnum hx hy hk hk'
  outside x hx y hy hx3 hy3 := by
    rintro ⟨rest, hrest⟩
    rw [metadataKey_eq hy3, s3KeyForPart_eq hx3, List.append_assoc] at hrest
    have heq : x = y := by
      refine h.eq_of_below halnum hx hy (a := []) (b := rest) (fun _ => rfl) (fun hfalse => ?_) ?_
      · rw [hy3] at hfalse
        cases hfalse
      · rw [List.append_nil, hrest]
    rw [heq, hy3] at hx3
    cases hx3
  recorded x hx y hy heq := by
    refine h.eq_of_below halnum hx hy (fun _ => rfl) (fun _ => rfl) ?_
    rw [List.append_nil, List.append_nil, ← partKey_eq, ← partKey_eq, heq]

/-! ## Keys that collide -/

/-- The files of an S3-disk part are written below its directory. -/
theorem file_mem_keysWritten (hx : m.isS3Part x = true) {file : Str}
    (hfile : file ∈ files x.1 x.2.1 x.2.2.name) :
    (env.tableDataKey x.1 ++ (partRoot env m x ++ file),
      KeySource.metadataFile x.1 x.2.1 x.2.2.name file) ∈ keysWritten env m files x := by
  rw [keysWritten, if_pos hx, metadataKey_eq hx, ← List.append_assoc]
  exact List.mem_append_right _ (List.mem_map.mpr ⟨file, hfile, rfl⟩)

theorem archive_mem_keysWritten (hx : m.isS3Part x = false) :
    (env.tableDataKey x.1 ++ partRoot env m x, KeySource.archive x.1 x.2.1 x.2.2.name) ∈
      keysWritten env m files x := by
  rw [keysWritten, hx, if_neg Bool.false_ne_true, s3KeyForPart_eq hx]
  exact List.mem_singleton_self _

/-- Keys that never collide belong to parts that are not in each other's way. -/
theorem KeysNeverCollide.not_covers (h : KeysNeverCollide env m) (hunique : PartNamesUnique m)
    (hx : x ∈ uploadedParts m) (hy : y ∈ uploadedParts m) (hxy : x ≠ y)
    (ht : splitTableKey x.1 = splitTableKey y.1) : ¬Covers env m x y := by
  intro hcovers
  rw [Covers] at hcovers
  cases hx3 : m.isS3Part x with
  | true =>
    rw [if_pos hx3] at hcovers
    obtain ⟨gap, hgap⟩ := hcovers
    cases hy3 : m.isS3Part y with
    | true =>
      have hlong : gap ++ ("f" : Str) ∈ [gap ++ ("f" : Str), "f"] := List.mem_cons_self
      have hshort : ("f" : Str) ∈ [gap ++ ("f" : Str), "f"] := List.mem_cons_of_mem _ List.mem_cons_self
      have hsame := h.written (fun _ _ _ => [gap ++ ("f" : Str), "f"]) x hx y hy _ _ _
        (file_mem_keysWritten hx3 hlong)
        (by
          rw [tableDataKey_congr ht, ← List.append_assoc (partRoot env m x), hgap]
          exact file_mem_keysWritten hy3 hshort)
      injection hsame with ht' _ hname
      exact hxy (eq_of_name_eq hunique hx hy ht' hname)
    | false =>
      refine h.outside y hy x hx hy3 hx3 ?_
      rw [metadataKey_eq hx3, s3KeyForPart_eq hy3, tableDataKey_congr ht, ← hgap, ← List.append_assoc]
      exact List.prefix_append _ _
  | false =>
    rw [hx3, if_neg Bool.false_ne_true] at hcovers
    have hsame := h.written (fun _ _ _ => []) x hx y hy _ _ _ (archive_mem_keysWritten hx3)
      (by
        rw [tableDataKey_congr ht, hcovers.2]
        exact archive_mem_keysWritten hcovers.1)
    injection hsame with ht' _ hname
    exact hxy (eq_of_name_eq hunique hx hy ht' hname)

theorem KeysNeverCollide.namesApart (h : KeysNeverCollide env m) (hunique : PartNamesUnique m) :
    NamesApart env m where
  parts x hx y hy hxy ht := h.not_covers hunique hx hy hxy ht
  objects x hx y hy hx3 hy3 o ho o' ho' hsize hsize' hpath := by
    have hmem : ∀ z ∈ uploadedParts m, m.isS3Part z = true → ∀ q ∈ z.2.2.s3Objects.getD [], q.size ≠ 0 →
        ((copyObject env q).backupKey,
          KeySource.object (copySource env m z.2.1).1 (copySource env m z.2.1).2 q.path) ∈
        keysWritten env m (fun _ _ _ => []) z := by
      intro z _ hz3 q hq hq0
      rw [keysWritten, if_pos hz3]
      refine List.mem_append_left _ (List.mem_map.mpr ⟨q, List.mem_filter.mpr ⟨hq, ?_⟩, rfl⟩)
      exact decide_eq_true hq0
    have hkey : (copyObject env o).backupKey = (copyObject env o').backupKey := by
      rw [copyObject, copyObject, if_neg hsize, if_neg hsize', hpath]
    have hsame := h.written _ x hx y hy _ _ _ (hmem x hx hx3 o ho hsize)
      (hkey ▸ hmem y hy hy3 o' ho' hsize')
    injection hsame with hbucket hpre
    exact Prod.ext hbucket hpre

end Written

/-- **Upload keys never collide** if and only if the names keep the parts apart and objects of one path
are in one place. -/
theorem upload_keys_never_collide (env : UploadEnv) (m : BackupManifest)
    (halnum : Alphanumeric env.isAlphanumeric) (hunique : PartNamesUnique m) :
    KeysNeverCollide env m ↔ NamesApart env m :=
  ⟨fun h => h.namesApart hunique, fun h => h.keysNeverCollide halnum⟩

/-- A part with one object. -/
def objectPart (name path : Str) : PartInfo := (PartInfo.new name 5 1).withS3Objects [⟨path, 5, []⟩]

/-- A table with parts on disks in two buckets. -/
def twoBucketManifest (path : Str) : BackupManifest :=
  { (default : BackupManifest) with
    name := "b"
    diskTypes := ((SortedMap.empty : SortedMap Str Str).insert "s3a" "s3").insert "s3b" "s3"
    diskRemotePaths := ((SortedMap.empty : SortedMap Str Str).insert "s3a" "s3://bucket-a/data").insert
      "s3b" "s3://bucket-b/data"
    tables := SortedMap.empty.insert "d.t"
      { (default : TableManifest) with
        parts := ((SortedMap.empty : SortedMap Str (List PartInfo)).insert "s3a"
          [objectPart "all_1_1_0" "abc"]).insert "s3b" [objectPart "all_2_2_0" path] } }

theorem uploadedParts_twoBucketManifest (path : Str) : uploadedParts (twoBucketManifest path) =
    [(("d.t" : Str), ("s3a" : Str), objectPart "all_1_1_0" "abc"),
      (("d.t" : Str), ("s3b" : Str), objectPart "all_2_2_0" path)] := by
  rfl

/-- Objects with different paths have different keys. -/
theorem different_paths_do_not_collide :
    Alphanumeric plainUpload.isAlphanumeric ∧ PartNamesUnique (twoBucketManifest "def") ∧
      KeysNeverCollide plainUpload (twoBucketManifest "def") := by
  have halnum : Alphanumeric plainUpload.isAlphanumeric := ⟨rfl, rfl⟩
  have hunique : PartNamesUnique (twoBucketManifest "def") := by
    unfold PartNamesUnique
    decide +kernel
  refine ⟨halnum, hunique, (upload_keys_never_collide _ _ halnum hunique).mpr ⟨?_, ?_⟩⟩
  · unfold Covers
    rw [uploadedParts_twoBucketManifest]
    decide +kernel
  · rw [uploadedParts_twoBucketManifest]
    decide +kernel

/-- Objects of one path in two buckets are copied to one key. -/
theorem two_buckets_collide :
    ¬∀ (env : UploadEnv) (m : BackupManifest), Alphanumeric env.isAlphanumeric → PartNamesUnique m →
      KeysNeverCollide env m := by
  intro h
  have hunique : PartNamesUnique (twoBucketManifest "abc") := by
    unfold PartNamesUnique
    decide +kernel
  have hwritten := (h plainUpload (twoBucketManifest "abc") ⟨rfl, rfl⟩ hunique).written (fun _ _ _ => [])
    (("d.t" : Str), ("s3a" : Str), objectPart "all_1_1_0" "abc") (by rw [uploadedParts_twoBucketManifest]; simp)
    (("d.t" : Str), ("s3b" : Str), objectPart "all_2_2_0" "abc") (by rw [uploadedParts_twoBucketManifest]; simp)
    "b/objects/abc" (.object "bucket-a" "data" "abc") (.object "bucket-b" "data" "abc")
    (by decide +kernel) (by decide +kernel)
  exact absurd hwritten (by decide)

end Chbackup
