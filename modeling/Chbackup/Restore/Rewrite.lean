import Chbackup.Backup.Stage

/-!
# Rewriting the metadata files of a part

The walk of `restore_s3_disk_parts` over the staged files of one part (`src/restore/attach.rs`),
after the objects that the part records were copied.  A file that parses as object disk metadata is
rewritten to name the copies; every other file is taken over as it is.  A key that cannot be
resolved ends the walk with an error.
-/

namespace Chbackup

/-- A metadata file that was rewritten. -/
structure RewrittenFile where
  /-- What the staged file said. -/
  metadata : ObjectDiskMetadata
  /-- What was written to the detached directory. -/
  text : Str

section Rewrite

variable (s3Objects : List S3ObjectInfo) (uuidPrefix dataPrefix : Str)

/-- What the walk does with one file. -/
def rewriteFile (f : WalkedFile OsName FileData) : Except Str (Option RewrittenFile) :=
  if f.name = .utf8 "frozen_metadata.txt" then .ok none
  else
    match f.data.content with
    | none => .ok none
    | some text =>
      match parseMetadata text with
      | .error _ => .ok none
      | .ok metadata => do
        let relative ← toDiskRelativeKeys metadata s3Objects
        return some ⟨metadata, rewriteMetadata relative uuidPrefix dataPrefix⟩

/-- The walk: the files it has rewritten when it ends, and the error that ended it. -/
def rewriteFiles : List (WalkedFile OsName FileData) → List RewrittenFile × Option Str
  | [] => ([], none)
  | f :: fs =>
    match rewriteFile s3Objects uuidPrefix dataPrefix f with
    | .error e => ([], some e)
    | .ok written =>
      let rest := rewriteFiles fs
      (written.toList ++ rest.1, rest.2)

end Rewrite

/-- `restore_s3_disk_parts` for one part: a part without recorded objects is passed over. -/
def restoreS3DiskPart (uuidPrefix dataPrefix : Str) (part : PartInfo) (staged : List PartTree) :
    List RewrittenFile × Option Str :=
  match part.s3Objects with
  | none => ([], none)
  | some [] => ([], none)
  | some objs => rewriteFiles objs uuidPrefix dataPrefix (DirTree.walkAll [] staged)

/-- **A file is rewritten iff the walk reaches it and it is a metadata file.** -/
theorem mem_rewriteFiles_iff {objs : List S3ObjectInfo} {uuidPrefix dataPrefix : Str}
    {fs : List (WalkedFile OsName FileData)} {r : RewrittenFile} :
    r ∈ (rewriteFiles objs uuidPrefix dataPrefix fs).1 ↔
      ∃ before f after, fs = before ++ f :: after ∧
        (∀ g ∈ before, (rewriteFile objs uuidPrefix dataPrefix g).isOk = true) ∧
        rewriteFile objs uuidPrefix dataPrefix f = .ok (some r) := by
  induction fs with
  | nil => simp [rewriteFiles]
  | cons g fs ih =>
    rw [rewriteFiles]
    cases hg : rewriteFile objs uuidPrefix dataPrefix g with
    | error e =>
      refine ⟨fun h => absurd h List.not_mem_nil, fun ⟨before, f, after, hfs, hok, hf⟩ => ?_⟩
      cases before with
      | nil =>
        obtain ⟨rfl, rfl⟩ := List.cons.inj hfs
        rw [hg] at hf
        cases hf
      | cons b bs =>
        obtain ⟨rfl, rfl⟩ := List.cons.inj hfs
        have hb := hok g List.mem_cons_self
        rw [hg] at hb
        cases hb
    | ok written =>
      dsimp only
      rw [List.mem_append, Option.mem_toList, ih]
      constructor
      · rintro (hw | ⟨before, f, after, rfl, hok, hf⟩)
        · subst hw
          exact ⟨[], g, fs, rfl, fun b hb => absurd hb List.not_mem_nil, hg⟩
        · refine ⟨g :: before, f, after, rfl, fun b hb => ?_, hf⟩
          rcases List.mem_cons.mp hb with rfl | hb
          · rw [hg]
            rfl
          · exact hok b hb
      · rintro ⟨before, f, after, hfs, hok, hf⟩
        cases before with
        | nil =>
          obtain ⟨rfl, rfl⟩ := List.cons.inj hfs
          rw [hg] at hf
          exact Or.inl (Except.ok.inj hf)
        | cons b bs =>
          obtain ⟨rfl, rfl⟩ := List.cons.inj hfs
          exact Or.inr ⟨bs, f, after, rfl, fun c hc => hok c (List.mem_cons_of_mem _ hc), hf⟩

/-- A rewritten file is a metadata file whose keys can be resolved. -/
theorem rewriteFile_eq_some_iff {objs : List S3ObjectInfo} {uuidPrefix dataPrefix : Str}
    {f : WalkedFile OsName FileData} {m : ObjectDiskMetadata} :
    (∃ text, rewriteFile objs uuidPrefix dataPrefix f = .ok (some ⟨m, text⟩)) ↔
      f.name ≠ .utf8 "frozen_metadata.txt" ∧
        (∃ text, f.data.content = some text ∧ parseMetadata text = .ok m) ∧
        (toDiskRelativeKeys m objs).isOk = true := by
  rw [rewriteFile]
  by_cases hn : f.name = .utf8 "frozen_metadata.txt"
  · simp [hn]
  rw [if_neg hn]
  cases hc : f.data.content with
  | none => simp
  | some content =>
    dsimp only
    cases hp : parseMetadata content with
    | error e => simp [hp]
    | ok m' =>
      dsimp only
      cases hk : toDiskRelativeKeys m' objs with
      | error e =>
        refine ⟨fun ⟨t, ht⟩ => (by cases ht), fun ⟨_, ⟨t, ht, hm⟩, hok⟩ => ?_⟩
        cases ht
        rw [hp] at hm
        cases hm
        rw [hk] at hok
        cases hok
      | ok rel =>
        constructor
        · rintro ⟨t, ht⟩
          cases ht
          exact ⟨hn, ⟨content, rfl, hp⟩, by rw [hk]; rfl⟩
        · rintro ⟨_, ⟨t, ht, hm⟩, _⟩
          cases ht
          rw [hp] at hm
          cases hm
          exact ⟨_, rfl⟩

end Chbackup
