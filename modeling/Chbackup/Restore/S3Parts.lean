import Chbackup.Keys.Objects
import Chbackup.Restore.Attach
import Chbackup.Restore.Rewrite

/-!
# Restoring the parts on object disks

`restore_s3_disk_parts` (`src/restore/attach.rs`) in full: disk by disk and part by part, the
objects of a part are copied in parallel to where the new table looks for them, and the metadata
files of the part are rewritten into its detached directory.  The value is a number of skipped
parts.  Two things make it grow:

* a disk with no usable remote path counts all its parts;
* a part with an object that the backup has not counts once.

A copy that is not made again (an object of that size is there) makes no call.  A directory of a
staged part is created with the files below it.
-/

namespace Chbackup

open CallTree Prog

/-- The calls of the stage.  The disk and the part of a copy are only written to the log. -/
inductive StageCall where
  | listObjects (bucket pre : Str)
  | copyObject (disk part sourceBucket sourceKey destBucket destKey : Str)
  | createDir (path : Str)
  | writeFile (dir : Str) (dirs : List OsName) (name : OsName) (content : Option Str)
  | chown (path : Str)
  deriving DecidableEq

/-- The replies to the calls: a listing gives keys with their sizes. -/
abbrev StageCall.Reply : StageCall → Type
  | .listObjects .. => Except Str (List (Str × Int))
  | .copyObject .. => Except Str Unit
  | .createDir _ => Except Str Unit
  | .writeFile .. => Except Str Unit
  | .chown _ => Except Str Unit

/-- A program of the stage. -/
abbrev StageProg (α : Type) : Type := Prog StageCall StageCall.Reply Str α

/-- A call of the stage with its reply. -/
abbrev StageEvent : Type := Event StageCall StageCall.Reply

/-- `is_s3_not_found`. -/
def isS3NotFound (err : Str) : Bool :=
  Str.contains "NoSuchKey" err || Str.contains "404" err || Str.contains "not found" err

/-- `uuid_s3_prefix`. -/
def uuidS3Prefix (uuid : Str) : Str :=
  "store/".toList ++ (uuid.filter fun c => c ≠ '-').take 3 ++ '/' :: uuid

/-- `S3RestoreParams`, without what the restore of the table has already. -/
structure S3RestoreParams where
  tableUuid : Str
  /-- Disk name to the remote path of an S3 disk. -/
  diskRemotePaths : SortedMap Str Str
  /-- Disk name to the local path of an S3 disk. -/
  diskLocalPaths : SortedMap Str Str
  backupBucket : Str
  backupPrefix : Str
  /-- The files below a staged directory. -/
  stagedFiles : Str → List PartTree
  /-- The interleaving of the copies of a part of a disk. -/
  copySchedule : Str → Str → List Nat

namespace S3RestoreParams

variable (p : S3RestoreParams)

/-- The prefix of the objects of the new table. -/
def uuidPrefix : Str := uuidS3Prefix p.tableUuid

/-- Bucket and key prefix of a disk, if its remote path has a bucket. -/
def dataTarget? (disk : Str) : Option (Str × Str) :=
  match p.diskRemotePaths.get? disk with
  | none => none
  | some path => if (parseS3Uri path).1 = [] then none else some (parseS3Uri path)

/-- The detached directory of a disk. -/
def detachedDir (tableDataPath disk : Str) : Str :=
  match p.diskLocalPaths.get? disk with
  | some path => (path.pathJoin p.uuidPrefix).pathJoin "detached"
  | none => tableDataPath.pathJoin "detached"

/-- Where an object comes from. -/
def sourceKey (obj : S3ObjectInfo) : Str :=
  if obj.backupKey = [] then obj.path else fullKey p.backupPrefix obj.backupKey

/-- Where an object goes to, relative to the key prefix of the disk. -/
def destKey (target : Str × Str) (obj : S3ObjectInfo) : Str :=
  (restoreObjectKeys 1 obj.path p.uuidPrefix target.2).copyDestRelativeKey

/-- The size of an object of the listing; of two with one key the later counts. -/
def existingSize? (existing : List (Str × Int)) (key : Str) : Option Int :=
  (existing.reverse.find? fun e => e.1 = key).map Prod.snd

/-- Whether an object is there with its size. -/
def isThere (existing : List (Str × Int)) (target : Str × Str) (obj : S3ObjectInfo) : Bool :=
  match existingSize? existing (fullKey target.2 (p.destKey target obj)) with
  | some size => (size % 2 ^ 64).toNat = obj.size
  | none => false

/-- The task that copies an object; none for data inside the metadata and for an object that is
there.  The value says whether the backup has the object. -/
def copyTask? (disk part : Str) (target : Str × Str) (existing : List (Str × Int))
    (obj : S3ObjectInfo) : Option (Prog StageCall StageCall.Reply Empty (Except Str Bool)) :=
  if obj.size = 0 && obj.backupKey.isEmpty then none
  else if p.isThere existing target obj then none
  else some <|
    (perform (.copyObject disk part p.backupBucket (p.sourceKey obj) target.1
      (fullKey target.2 (p.destKey target obj)))).bind fun (reply : Except Str Unit) =>
        match reply with
        | .ok _ => .ret (.ok true)
        | .error e =>
          if isS3NotFound e then .ret (.ok false)
          else .ret (.error ("Failed to copy S3 object: ".toList ++ p.sourceKey obj ++ " -> " ++
            p.destKey target obj ++ ": " ++ e))

end S3RestoreParams

/-- The values of the copies of a part, or the first failure. -/
def copyResults : List (Except Str Bool) → StageProg (List Bool)
  | [] => .ret []
  | .ok b :: rest => (copyResults rest).bind fun bs => .ret (b :: bs)
  | .error e :: _ => .fail ("Fatal S3 CopyObject error: ".toList ++ e)

/-- The value of a reply, or a failure that says what was being done. -/
def stageOrFail (context : Str) : Except Str Unit → StageProg Unit
  | .ok _ => .ret ()
  | .error e => .fail (context ++ e)

/-- One file of a staged part: rewritten if it is a metadata file, else taken over. -/
def restoreFile (objs : List S3ObjectInfo) (uuidPrefix dataPrefix partDir : Str)
    (f : WalkedFile OsName FileData) : StageProg Unit :=
  if f.name = .utf8 "frozen_metadata.txt" then .ret ()
  else
    match rewriteFile objs uuidPrefix dataPrefix f with
    | .error e => .fail e
    | .ok rewritten =>
      let content := (rewritten.map RewrittenFile.text).or f.data.content
      (perform (.writeFile partDir f.dirs f.name content)).bind fun (reply : Except Str Unit) =>
        stageOrFail [] reply

namespace RestoreContext

variable (ctx : RestoreContext) (params : AttachParams) (p : S3RestoreParams)

/-- The staged directory of a part, or else where a backup of one disk would have it. -/
def s3SourceDir (disk partName : Str) : Str :=
  (ctx.stagedDir params.tableKey disk partName).getD
    ((((ctx.env.backupDir.pathJoin "shadow").pathJoin
      (encodePathComponent ctx.env.isAlphanumeric (splitTableKey params.tableKey).1)).pathJoin
        (encodePathComponent ctx.env.isAlphanumeric (splitTableKey params.tableKey).2)).pathJoin
          partName)

/-- Write the metadata files of a part whose objects are copied. -/
def restorePartFiles (disk : Str) (target : Str × Str) (objs : List S3ObjectInfo) (partName : Str) :
    StageProg Unit :=
  let partDir := (p.detachedDir params.tableDataPath disk).pathJoin partName
  let sourceDir := ctx.s3SourceDir params disk partName
  (perform (.createDir partDir)).bind fun (created : Except Str Unit) =>
    (stageOrFail ("Failed to create detached dir: ".toList ++ partDir ++ ": ") created).bind fun _ =>
      (forEach (if ctx.fate.pathExists sourceDir then DirTree.walkAll [] (p.stagedFiles sourceDir)
          else []) (restoreFile objs p.uuidPrefix target.2 partDir)).bind fun _ =>
        (perform (.chown partDir)).bind fun (reply : Except Str Unit) => stageOrFail [] reply

/-- One part of an S3 disk: 1 if it is skipped. -/
def restoreS3Part (disk : Str) (target : Str × Str) (existing : List (Str × Int)) (part : PartInfo) :
    StageProg Nat :=
  match part.s3Objects with
  | none => .ret 0
  | some [] => .ret 0
  | some (obj :: objs) =>
    (par (p.copySchedule disk part.name)
      ((obj :: objs).filterMap (p.copyTask? disk part.name target existing))).bind fun results =>
        (copyResults results).bind fun found =>
          if false ∈ found then .ret 1
          else (ctx.restorePartFiles params p disk target (obj :: objs) part.name).bind fun _ => .ret 0

/-- Whether a disk of the manifest is an S3 disk. -/
def isS3DiskName (disk : Str) : Bool := isS3Disk ((ctx.manifest.diskTypes.get? disk).getD [])

/-- The parts of one disk: the number of skipped parts. -/
def restoreS3Disk (disk : Str) (parts : List PartInfo) : StageProg Nat :=
  if !ctx.isS3DiskName disk then .ret 0
  else
    match p.dataTarget? disk with
    | none => .ret parts.length
    | some target =>
      (perform (.listObjects target.1 (fullKey target.2 p.uuidPrefix))).bind
        fun (reply : Except Str (List (Str × Int))) =>
          let existing := match reply with
            | .ok objects => objects
            | .error _ => []
          (forEach parts (ctx.restoreS3Part params p disk target existing)).bind fun skipped =>
            .ret skipped.sum

/-- `restore_s3_disk_parts`. -/
def restoreS3DiskParts : StageProg Nat :=
  (forEach params.partsByDisk.entries fun e => ctx.restoreS3Disk params p e.1 e.2).bind fun skipped =>
    .ret skipped.sum

end RestoreContext

/-! ## What the stage skips -/

/-- A copy of an object that the backup has not. -/
def notFoundCopy : StageEvent → Bool
  | ⟨.copyObject .., .error e⟩ => isS3NotFound e
  | _ => false

/-- The backup had every object that was asked for. -/
def AllFound (u : List StageEvent) : Prop := ∀ ev ∈ u, notFoundCopy ev = false

section Skips

variable {u v : List StageEvent}

@[simp] theorem allFound_nil : AllFound [] := fun _ h => absurd h List.not_mem_nil

@[simp] theorem allFound_append : AllFound (u ++ v) ↔ AllFound u ∧ AllFound v := by
  simp only [AllFound, List.mem_append, or_imp, forall_and]

theorem allFound_flatten {us : List (List StageEvent)} :
    AllFound us.flatten ↔ ∀ u ∈ us, AllFound u := by
  simp only [AllFound, List.mem_flatten, forall_exists_index, and_imp]
  exact ⟨fun h u hu ev hev => h ev u hu hev, fun h ev u hu hev => h u hu ev hev⟩

theorem AllFound.perm (h : u.Perm v) : AllFound u ↔ AllFound v := by
  simp only [AllFound, h.mem_iff]

theorem allFound_of_within {α : Type} {q : StageProg α} {e : End Str α}
    (hq : Within (fun c => ∀ r, notFoundCopy ⟨c, r⟩ = false) (fun _ => True) q)
    (h : Runs q u e) : AllFound u := fun ev hev => (hq.runs h).1 ev hev ev.2

/-- A number per element is zero in all when it is zero for each. -/
theorem sum_eq_zero_of_forEach {α : Type} {P : α → Prop} {xs : List α} {f : α → StageProg Nat}
    {ns : List Nat} (hf : ∀ x ∈ xs, ∀ v n, Runs (f x) v (.returned n) → (n = 0 ↔ P x ∧ AllFound v))
    (h : Runs (forEach xs f) u (.returned ns)) :
    ns.sum = 0 ↔ (∀ x ∈ xs, P x) ∧ AllFound u := by
  obtain ⟨us, rfl, rfl, hus⟩ := h.values_of_forEach
  clear h
  induction hus with
  | nil => simp
  | @cons x w xs us hrun hus ih =>
    have hx := hf x List.mem_cons_self w.1 w.2 hrun
    have hxs := ih fun y hy => hf y (List.mem_cons_of_mem _ hy)
    simp only [List.map_cons, List.sum_cons, List.flatten_cons, List.forall_mem_cons,
      allFound_append, Nat.add_eq_zero_iff, hx, hxs]
    exact and_and_and_comm

variable {p : S3RestoreParams} {disk partName : Str} {target : Str × Str}
  {existing : List (Str × Int)} {obj : S3ObjectInfo}

/-- A copy reports what its reply says. -/
theorem copyTask_found {task : Prog StageCall StageCall.Reply Empty (Except Str Bool)}
    (htask : p.copyTask? disk partName target existing obj = some task) {b : Bool}
    (h : Runs task u (.returned (.ok b))) : b = true ↔ AllFound u := by
  unfold S3RestoreParams.copyTask? at htask
  split at htask
  · cases htask
  split at htask
  · cases htask
  rw [← Option.some.inj htask] at h
  cases h with
  | call r h =>
    cases r with
    | ok =>
      cases h
      simp [AllFound, notFoundCopy]
    | error e =>
      dsimp only [ret_bind] at h
      split at h
      · rename_i he
        cases h
        simp [AllFound, notFoundCopy, he]
      · cases h

theorem runs_copyResults {rs : List (Except Str Bool)} {found : List Bool}
    (h : Runs (copyResults rs) u (.returned found)) : rs = found.map .ok ∧ u = [] := by
  induction rs generalizing u found with
  | nil =>
    cases h
    exact ⟨rfl, rfl⟩
  | cons r rs ih =>
    cases r with
    | error e => cases h
    | ok b =>
      obtain ⟨bs, u₁, u₂, rfl, h₁, h₂⟩ := h.returned_of_bind
      cases h₂
      obtain ⟨rfl, rfl⟩ := ih h₁
      exact ⟨rfl, rfl⟩

/-- The copies of a part report a missing object when there was one. -/
theorem copies_found {schedule : List Nat} {objs : List S3ObjectInfo} {found : List Bool}
    (h : Runs (par schedule (objs.filterMap (p.copyTask? disk partName target existing)) :
      StageProg (List (Except Str Bool))) u (.returned (found.map .ok))) :
    false ∉ found ↔ AllFound u := by
  obtain ⟨us, hperm, hvals, hus⟩ := h.values_of_par
  have hstep : ∀ w ∈ us, ∀ b, w.2 = .ok b → (b = true ↔ AllFound w.1) := by
    intro w hw b hb
    obtain ⟨task, htask, hrun⟩ := exists_of_forall₂ hus hw
    obtain ⟨obj, -, hobj⟩ := List.mem_filterMap.mp htask
    rw [hb] at hrun
    exact copyTask_found hobj hrun
  rw [AllFound.perm hperm, allFound_flatten, List.forall_mem_map]
  constructor
  · intro hfound w hw
    have hmem : w.2 ∈ found.map .ok := hvals ▸ List.mem_map.mpr ⟨w, hw, rfl⟩
    obtain ⟨b, hb, hwb⟩ := List.mem_map.mp hmem
    refine (hstep w hw b hwb.symm).mp ?_
    cases b with
    | true => rfl
    | false => exact absurd hb hfound
  · intro hall hfalse
    have hmem : .ok false ∈ us.map Prod.snd := hvals ▸ List.mem_map.mpr ⟨false, hfalse, rfl⟩
    obtain ⟨w, hw, hwb⟩ := List.mem_map.mp hmem
    exact Bool.false_ne_true ((hstep w hw false hwb).mpr (hall w hw))

namespace RestoreContext

variable {ctx : RestoreContext} {params : AttachParams}

theorem restorePartFiles_quiet (disk : Str) (target : Str × Str) (objs : List S3ObjectInfo)
    (partName : Str) :
    Within (fun c => ∀ r, notFoundCopy ⟨c, r⟩ = false) (fun _ => True)
      (ctx.restorePartFiles params p disk target objs partName) := by
  have hreply : ∀ (context : Str) (r : Except Str Unit),
      Within (fun c => ∀ r, notFoundCopy ⟨c, r⟩ = false) (fun _ => True) (stageOrFail context r) := by
    intro context r
    cases r with
    | ok => exact within_ret trivial
    | error e => exact within_fail _
  refine within_perform (fun _ => rfl) fun created => ?_
  refine (hreply _ created).bind fun _ _ => ?_
  refine Within.bind (Q := fun _ => True) ?_ fun _ _ => ?_
  · refine (within_forEach (Q := fun _ _ => True) fun f _ => ?_).imp fun _ _ => trivial
    unfold restoreFile
    split
    · exact within_ret trivial
    · split
      · exact within_fail _
      · exact within_perform (fun _ => rfl) fun r => hreply _ r
  · exact within_perform (fun _ => rfl) fun r => hreply _ r

/-- **A part is skipped when an object of it is missing.** -/
theorem restoreS3Part_skips {part : PartInfo} {n : Nat}
    (h : Runs (ctx.restoreS3Part params p disk target existing part) u (.returned n)) :
    n = 0 ↔ AllFound u := by
  unfold restoreS3Part at h
  split at h
  · cases h
    simp
  · cases h
    simp
  · obtain ⟨results, u₁, u₂, rfl, h₁, h₂⟩ := h.returned_of_bind
    obtain ⟨found, u₃, u₄, rfl, h₃, h₄⟩ := h₂.returned_of_bind
    obtain ⟨rfl, rfl⟩ := runs_copyResults h₃
    have hfound := copies_found h₁
    split at h₄
    · rename_i hmissing
      cases h₄
      simp [← hfound, hmissing]
    · rename_i hmissing
      obtain ⟨_, u₅, u₆, rfl, h₅, h₆⟩ := h₄.returned_of_bind
      cases h₆
      have hquiet := allFound_of_within (restorePartFiles_quiet disk target _ _) h₅
      simp [← hfound, hmissing, hquiet]

theorem restoreS3Disk_skips {parts : List PartInfo} {n : Nat}
    (h : Runs (ctx.restoreS3Disk params p disk parts) u (.returned n)) :
    n = 0 ↔ (ctx.isS3DiskName disk = true → parts ≠ [] → (p.dataTarget? disk).isSome = true) ∧
      AllFound u := by
  unfold restoreS3Disk at h
  split at h
  · rename_i hdisk
    cases h
    simp only [Bool.not_eq_true'] at hdisk
    simp [hdisk]
  rename_i hdisk
  simp only [Bool.not_eq_true', Bool.not_eq_false] at hdisk
  split at h
  · rename_i htarget
    cases h
    simp [hdisk, htarget]
  · rename_i target htarget
    cases h with
    | call r h =>
      dsimp only [ret_bind] at h
      obtain ⟨ns, u₁, u₂, rfl, h₁, h₂⟩ := h.returned_of_bind
      cases h₂
      have hsum := sum_eq_zero_of_forEach (P := fun _ => True)
        (fun part _ v n hrun => by rw [restoreS3Part_skips hrun, true_and]) h₁
      simp [htarget, hsum, AllFound, notFoundCopy]

/-- **The stage skips nothing exactly when every S3 disk with parts has a target and no copied
object is missing.** -/
theorem restoreS3DiskParts_skips {n : Nat}
    (h : Runs (ctx.restoreS3DiskParts params p) u (.returned n)) :
    n = 0 ↔ (∀ e ∈ params.partsByDisk.entries, ctx.isS3DiskName e.1 = true → e.2 ≠ [] →
      (p.dataTarget? e.1).isSome = true) ∧ AllFound u := by
  obtain ⟨ns, u₁, u₂, rfl, h₁, h₂⟩ := h.returned_of_bind
  cases h₂
  rw [List.append_nil]
  exact sum_eq_zero_of_forEach (fun e _ v n hrun => restoreS3Disk_skips hrun) h₁

end RestoreContext

end Skips

end Chbackup
