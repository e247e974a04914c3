import Chbackup.Upload.Resumed

/-!
# Chains of backups

One host and one bucket over many commands: `create`, in full or against a local or a remote base,
and `upload`, with or without a base.  Nothing is deleted.  Besides the manifests the bucket is
known by what was written to it: under which key, made of which part, and with which compression.
-/

namespace Chbackup

/-! ## The site -/

/-- What a stored object was made of. -/
structure PartOrigin where
  tableKey : Str
  diskName : Str
  partName : Str
  checksumCrc64 : Nat
  deriving DecidableEq

/-- The origin of a part of a manifest. -/
def PartInfo.origin (p : PartInfo) (tableKey diskName : Str) : PartOrigin :=
  ⟨tableKey, diskName, p.name, p.checksumCrc64⟩

/-- An archive, with its compression, or the metadata directory of an S3-disk part. -/
structure StoredPart where
  key : Str
  origin : PartOrigin
  format : Option Str
  deriving DecidableEq

/-- A host with its bucket. -/
structure Site where
  /-- The backup directories, with the manifest if there is one. -/
  directories : SortedMap Str (Option BackupManifest)
  stateFiles : SortedMap Str (StateFile UploadState)
  published : SortedMap Str BackupManifest
  /-- Everything that was written, oldest first. -/
  written : List StoredPart

namespace Site

/-- Nothing was backed up yet. -/
def fresh : Site := ⟨.empty, .empty, .empty, []⟩

/-- The manifest of a local backup. -/
def localManifest (s : Site) (name : Str) : Option BackupManifest := (s.directories.get? name).join

/-- What lies under a key: what was written there last. -/
def object? (s : Site) (key : Str) : Option StoredPart :=
  s.written.reverse.find? fun o => o.key = key

/-- The upload of a backup sees its own part of the site. -/
def world (s : Site) (name : Str) : UploadWorld :=
  ⟨s.localManifest name, (s.stateFiles.get? name).getD .absent, [], s.published.get? name⟩

end Site

/-! ## `create` -/

/-- What `create` has collected when it applies the diff.  Its parts are new, and a metadata-only
table has none. -/
structure CollectedBackup where
  manifest : BackupManifest
  new : ∀ p ∈ manifest.allParts, p.backupKey = [] ∧ p.isCarried = false
  metadataOnly : ∀ t d parts, manifest.OnDisk t true d parts → parts = []

/-- A `create` command, with what happens to it. -/
structure CreateCommand where
  name : Str
  /-- Names are validated by the callers. -/
  name_valid : '/' ∉ name
  collected : CollectedBackup
  diffFrom : Option Str
  diffFromRemote : Option Str
  /-- The remote base can be read. -/
  remoteReadable : Bool
  /-- The command fails for another reason; whether it leaves a directory behind. -/
  failure : Option Bool

namespace CreateCommand

/-- The remote base, if it is asked for and can be read. -/
def remoteBase (c : CreateCommand) (s : Site) : Option BackupManifest :=
  c.diffFromRemote.bind fun name => if c.remoteReadable then s.published.get? name else none

/-- `effective_base`: the remote base before the local one.  A remote base that cannot be read is
ignored, a local one must be there. -/
def effectiveBase (c : CreateCommand) (s : Site) : Except Str (Option BackupManifest) :=
  match c.remoteBase s with
  | some base => .ok (some base)
  | none =>
    match c.diffFrom with
    | none => .ok none
    | some name =>
      match s.localManifest name with
      | some base => .ok (some base)
      | none => .error ("Failed to load base backup '".toList ++ name ++ "' for --diff-from")

/-- The manifest of the new backup before the diff. -/
def manifest (c : CreateCommand) : BackupManifest := { c.collected.manifest with name := c.name }

/-- `create`. -/
def run (c : CreateCommand) (s : Site) : Site :=
  if (s.directories.get? c.name).isSome then s
  else
    match c.failure with
    | some true => { s with directories := s.directories.insert c.name none }
    | some false => s
    | none =>
      match c.effectiveBase s with
      | .error _ => { s with directories := s.directories.insert c.name none }
      | .ok base =>
        let manifest := (base.map (diffParts c.manifest)).getD c.manifest
        { s with directories := s.directories.insert c.name (some manifest) }

end CreateCommand

/-! ## `upload` -/

/-- The settings of `backup.compression` that the validation of the configuration accepts. -/
def compressionFormats : List Str := ["lz4", "zstd", "gzip", "none"]

/-- An `upload` command, with what happens to it.  The base is not part of the environment here: it
is read from the bucket. -/
structure UploadCommand where
  env : UploadEnv
  format_valid : env.dataFormat ∈ compressionFormats
  /-- The base cannot be read. -/
  baseError : Option Str
  fate : UploadFate

/-- The items whose tasks an attempt starts. -/
def startedItems (env : UploadEnv) (fate : UploadFate) (w : UploadWorld) : List WorkItem :=
  match w.localManifest with
  | none => []
  | some loaded =>
    match prepareManifest env loaded with
    | .error _ => []
    | .ok m =>
      match env.diffFromRemote.bind fun _ => fate.saveDiff with
      | some _ => []
      | none => (planUpload env m (acceptedKeys env w.stateFile)).toOption.getD []

/-- The items whose tasks complete, in the order in which they do. -/
def completedItems (env : UploadEnv) (fate : UploadFate) (w : UploadWorld) : List WorkItem :=
  fate.schedule.filterMap fun e =>
    match e.2 with
    | .done _ => (startedItems env fate w)[e.1]?
    | _ => none

/-- What a completed task has put under the key of its part. -/
def WorkItem.stored (env : UploadEnv) (i : WorkItem) : StoredPart where
  key := i.key env
  origin := i.part.origin i.tableKey i.diskName
  format := if i.isArchive then some env.dataFormat else none

namespace UploadCommand

variable (isAlphanumeric : Char → Bool)

/-- The environment of an attempt at a site. -/
def envAt (u : UploadCommand) (s : Site) : UploadEnv :=
  { u.env with
    isAlphanumeric := isAlphanumeric
    baseManifest :=
      match u.baseError, u.env.diffFromRemote.bind s.published.get? with
      | none, some base => .ok base
      | none, none => .error "NoSuchKey"
      | some e, _ => .error e }

/-- `upload`. -/
def run (u : UploadCommand) (s : Site) : Site :=
  let env := u.envAt isAlphanumeric s
  let name := env.backupName
  let w := (uploadAttempt env u.fate (s.world name)).2
  { directories :=
      match w.localManifest with
      | some m => s.directories.insert name (some m)
      | none => s.directories
    stateFiles := s.stateFiles.insert name w.stateFile
    published :=
      match w.published with
      | some m => s.published.insert name m
      | none => s.published
    written := s.written ++ (completedItems env u.fate (s.world name)).map (WorkItem.stored env) }

section Run

variable {isAlphanumeric} {u : UploadCommand} {s : Site} {n : Str} {m : BackupManifest}

theorem directories_run (h : (u.run isAlphanumeric s).directories.get? n = none) :
    s.directories.get? n = none := by
  unfold run at h
  dsimp only at h
  split at h
  · rw [SortedMap.get?_insert] at h
    split at h
    · cases h
    · exact h
  · exact h

/-- A local manifest is that of the attempt, or was there before. -/
theorem localManifest_run (h : (u.run isAlphanumeric s).localManifest n = some m) :
    (n = u.env.backupName ∧ (uploadAttempt (u.envAt isAlphanumeric s) u.fate
        (s.world u.env.backupName)).2.localManifest = some m) ∨ s.localManifest n = some m := by
  unfold Site.localManifest run at h
  dsimp only at h
  split at h
  · rename_i m' hm'
    rw [SortedMap.get?_insert] at h
    split at h
    · cases h
      exact Or.inl ⟨‹_›, hm'⟩
    · exact Or.inr h
  · exact Or.inr h

/-- A published manifest is that of the attempt, or was there before. -/
theorem published_run (h : (u.run isAlphanumeric s).published.get? n = some m) :
    (n = u.env.backupName ∧ (uploadAttempt (u.envAt isAlphanumeric s) u.fate
        (s.world u.env.backupName)).2.published = some m) ∨ s.published.get? n = some m := by
  unfold run at h
  dsimp only at h
  split at h
  · rename_i m' hm'
    rw [SortedMap.get?_insert] at h
    split at h
    · cases h
      exact Or.inl ⟨‹_›, hm'⟩
    · exact Or.inr h
  · exact Or.inr h

end Run

end UploadCommand

/-! ## Runs -/

/-- The commands of a chain. -/
inductive SiteCommand where
  | create (c : CreateCommand)
  | upload (u : UploadCommand)

/-- One command. -/
def SiteCommand.run (isAlphanumeric : Char → Bool) : SiteCommand → Site → Site
  | .create c, s => c.run s
  | .upload u, s => u.run isAlphanumeric s

/-- The sites that commands lead to from a fresh one, each command meeting a condition on the site
before it. -/
inductive SiteReached (isAlphanumeric : Char → Bool) (ok : Site → SiteCommand → Prop) :
    Site → Prop where
  | fresh : SiteReached isAlphanumeric ok Site.fresh
  | step {s : Site} (c : SiteCommand) (hs : SiteReached isAlphanumeric ok s) (hok : ok s c) :
      SiteReached isAlphanumeric ok (c.run isAlphanumeric s)

/-! ## What an attempt leaves behind -/

section Attempt

variable {env : UploadEnv}

/-- The item of a part. -/
theorem planPart_item {m : BackupManifest} {completedKeys : List Str} {t d : Str} {p : PartInfo}
    {i : WorkItem} (h : planPart env m completedKeys t d p = .ok (some i)) :
    (i.tableKey = t ∧ i.diskName = d ∧ i.part = p) ∧ i.key env = partKey env m t d p ∧
      i.isArchive = !(m.diskIsS3 d && p.s3Objects.isSome) := by
  unfold planPart at h
  split at h
  · cases h
  split at h
  · rename_i hs3
    split at h
    · cases h
    · cases hdir : env.findPartDir m.disks t d p.name with
      | error e =>
        rw [hdir] at h
        cases h
      | ok dir =>
        rw [hdir] at h
        cases h
        exact ⟨⟨rfl, rfl, rfl⟩, (if_pos hs3).symm, by rw [hs3]; rfl⟩
  · rename_i hs3
    cases hdir : env.findPartDir m.disks t d p.name with
    | error e =>
      rw [hdir] at h
      cases h
    | ok dir =>
      rw [hdir] at h
      simp only [Except.bind] at h
      split at h
      · cases h
      split at h
      · cases h
      · cases h
        refine ⟨⟨rfl, rfl, rfl⟩, (if_neg hs3).symm, ?_⟩
        rw [Bool.not_eq_true] at hs3
        rw [hs3]
        rfl

/-- The items of a plan are those of the parts that need an upload. -/
theorem mem_planParts {m : BackupManifest} {completedKeys : List Str}
    {xs : List (Str × Str × PartInfo)} {items : List WorkItem}
    (h : planParts env m completedKeys xs = .ok items) :
    (∀ i ∈ items, ∃ x ∈ xs, planPart env m completedKeys x.1 x.2.1 x.2.2 = .ok (some i)) ∧
      ∀ x ∈ xs, needsUpload env m completedKeys x.1 x.2.1 x.2.2 = true →
        ∃ i ∈ items, planPart env m completedKeys x.1 x.2.1 x.2.2 = .ok (some i) := by
  induction xs generalizing items with
  | nil =>
    cases h
    exact ⟨fun i hi => absurd hi List.not_mem_nil, fun x hx => absurd hx List.not_mem_nil⟩
  | cons x xs ih =>
    unfold planParts at h
    cases hp : planPart env m completedKeys x.1 x.2.1 x.2.2 with
    | error e =>
      rw [hp] at h
      cases h
    | ok r =>
      cases hps : planParts env m completedKeys xs with
      | error e =>
        rw [hp, hps] at h
        cases h
      | ok rest =>
        rw [hp, hps] at h
        obtain rfl : r.toList ++ rest = items := Except.ok.inj h
        obtain ⟨hitems, hparts⟩ := ih hps
        constructor
        · intro i hi
          rcases List.mem_append.mp hi with hi | hi
          · refine ⟨x, List.mem_cons_self, ?_⟩
            rw [Option.mem_toList] at hi
            rw [hp, hi]
          · obtain ⟨y, hy, hplan⟩ := hitems i hi
            exact ⟨y, List.mem_cons_of_mem _ hy, hplan⟩
        · refine List.forall_mem_cons.mpr ⟨fun hneed => ?_, fun y hy hneed => ?_⟩
          · cases planPart_planned hp with
            | skipped hskip =>
              rw [needsUpload, Bool.and_eq_true, Bool.not_eq_true', decide_eq_true_iff] at hneed
              rcases hskip with hskip | hskip
              · rw [hneed.1] at hskip
                cases hskip
              · exact absurd hskip hneed.2
            | item i =>
              refine ⟨i, List.mem_append_left _ (by simp), ?_⟩
              rw [hp]
          · obtain ⟨i, hi, hplan⟩ := hparts y hy hneed
            exact ⟨i, List.mem_append_right _ hi, hplan⟩

/-- The same for the two queues. -/
theorem mem_planUpload {m : BackupManifest} {completedKeys : List Str} {items : List WorkItem}
    (h : planUpload env m completedKeys = .ok items) :
    (∀ i ∈ items, ∃ x ∈ plannedParts m,
        planPart env m completedKeys x.1 x.2.1 x.2.2 = .ok (some i)) ∧
      ∀ x ∈ plannedParts m, needsUpload env m completedKeys x.1 x.2.1 x.2.2 = true →
        ∃ i ∈ items, planPart env m completedKeys x.1 x.2.1 x.2.2 = .ok (some i) := by
  unfold planUpload at h
  cases hp : planParts env m completedKeys (plannedParts m) with
  | error e =>
    rw [hp] at h
    cases h
  | ok planned =>
    rw [hp] at h
    obtain rfl : planned.filter WorkItem.isArchive ++ (planned.filter fun i => !i.isArchive) =
      items := Except.ok.inj h
    obtain ⟨hitems, hparts⟩ := mem_planParts hp
    have hmem : ∀ i, i ∈ planned.filter WorkItem.isArchive ++ (planned.filter fun i => !i.isArchive) ↔
        i ∈ planned := fun i => (List.filter_append_perm WorkItem.isArchive planned).mem_iff
    refine ⟨fun i hi => hitems i ((hmem i).mp hi), fun x hx hneed => ?_⟩
    obtain ⟨i, hi, hplan⟩ := hparts x hx hneed
    exact ⟨i, (hmem i).mpr hi, hplan⟩

/-- **A part of a merged manifest** is a merged part; the parts of metadata-only tables stay. -/
theorem onDisk_merged {m : BackupManifest} {completedKeys : List Str} {items : List WorkItem}
    (h : planUpload env m completedKeys = .ok items) {t d : Str} {mo : Bool} {parts : List PartInfo}
    (hd : (sealManifest env (mergeResults env items m)).OnDisk t mo d parts) {p : PartInfo}
    (hp : p ∈ parts) :
    ∃ parts' p', m.OnDisk t mo d parts' ∧ p' ∈ parts' ∧
      p = if mo then p' else mergedPart env m completedKeys t d p' := by
  obtain ⟨parts', hd', rfl⟩ := (BackupManifest.onDisk_mapParts (m := m)
    (f := fun t _ d parts => mergeUploaded (uploadedOn env items t d) parts)).mp hd
  rcases List.mem_append.mp hp with hp | hp
  · obtain ⟨hp, hname⟩ := List.mem_filter.mp hp
    refine ⟨parts', p, hd', hp, ?_⟩
    cases mo with
    | true => rfl
    | false =>
      -- a part that needs an upload has an item, and so its name is among the uploaded ones
      have hneed : ¬needsUpload env m completedKeys t d p = true := by
        intro hneed
        obtain ⟨i, hi, hplanned⟩ := (mem_planUpload h).2 (t, d, p)
          (mem_plannedParts.mpr ⟨parts', hd', hp⟩) hneed
        obtain ⟨⟨ht, hdisk, -⟩, -⟩ := planPart_item hplanned
        have hup : i.updatedPart env ∈ uploadedOn env items t d :=
          List.mem_map_of_mem (List.mem_filter.mpr ⟨hi, decide_eq_true ⟨ht, hdisk⟩⟩)
        have hsame : (i.updatedPart env).name = p.name := by
          cases planPart_planned hplanned with
          | item _ _ _ _ _ hup => rw [hup, uploadedPart_name]
        refine absurd (List.mem_map_of_mem (f := PartInfo.name) hup) ?_
        rw [hsame]
        simpa using hname
      exact (if_neg hneed).symm
  · obtain ⟨i, hi, rfl⟩ := List.mem_map.mp hp
    obtain ⟨hi, hat⟩ := List.mem_filter.mp hi
    obtain ⟨⟨t', d', p'⟩, hx, hplanned⟩ := (mem_planUpload h).1 i hi
    obtain ⟨⟨ht, hdisk, -⟩, -⟩ := planPart_item hplanned
    obtain ⟨rfl, rfl⟩ : t' = t ∧ d' = d := by
      have hat : i.tableKey = t ∧ i.diskName = d := of_decide_eq_true hat
      exact ⟨ht.symm.trans hat.1, hdisk.symm.trans hat.2⟩
    obtain ⟨parts'', ⟨table, htable, hmo, hparts⟩, hp'⟩ := mem_plannedParts.mp hx
    obtain ⟨table', htable', hmo', hparts'⟩ := hd'
    obtain rfl : table = table' := SortedMap.eq_of_mem htable htable'
    obtain rfl : false = mo := hmo.symm.trans hmo'
    refine ⟨parts'', p', ⟨table, htable, hmo, hparts⟩, hp', ?_⟩
    cases planPart_planned hplanned with
    | item _ hcarried hkey _ _ hup =>
      have hneed : needsUpload env m completedKeys t' d' p' = true := by
        rw [needsUpload, hcarried, decide_eq_true hkey]
        rfl
      rw [hup, mergedPart, if_pos hneed]
      rfl

/-- An attempt that got as far as its manifest: every planned item is completed. -/
def Completed (env : UploadEnv) (fate : UploadFate) (w : UploadWorld) (m m' : BackupManifest) :
    Prop :=
  ∃ prepared items, prepareManifest env m = .ok prepared ∧
    planUpload env prepared (acceptedKeys env w.stateFile) = .ok items ∧
    (∀ i ∈ items, i ∈ completedItems env fate w) ∧
    m' = sealManifest env (mergeResults env items prepared)

/-- The completed tasks come from the plan of the prepared manifest. -/
theorem mem_completedItems {fate : UploadFate} {w : UploadWorld} {i : WorkItem}
    (h : i ∈ completedItems env fate w) :
    ∃ m prepared items, w.localManifest = some m ∧ prepareManifest env m = .ok prepared ∧
      planUpload env prepared (acceptedKeys env w.stateFile) = .ok items ∧ i ∈ items := by
  obtain ⟨e, -, he⟩ := List.mem_filterMap.mp h
  have hmem : i ∈ startedItems env fate w := by
    split at he
    · exact List.mem_of_getElem? he
    · cases he
  unfold startedItems at hmem
  split at hmem
  · cases hmem
  rename_i m hm
  split at hmem
  · cases hmem
  rename_i prepared hprepared
  split at hmem
  · cases hmem
  cases hplan : planUpload env prepared (acceptedKeys env w.stateFile) with
  | error e =>
    rw [hplan] at hmem
    cases hmem
  | ok items =>
    rw [hplan] at hmem
    exact ⟨m, prepared, items, hm, hprepared, hplan, hmem⟩

/-- What the end of an attempt publishes and saves. -/
theorem finishUpload_manifests (fate : UploadFate) (items : List WorkItem) (m : BackupManifest)
    (w : UploadWorld) :
    ((finishUpload env fate items m w).2.published = w.published ∨
        (finishUpload env fate items m w).2.published =
          some (sealManifest env (mergeResults env items m))) ∧
      ((finishUpload env fate items m w).2.localManifest = w.localManifest ∨
        (finishUpload env fate items m w).2.localManifest =
          some (sealManifest env (mergeResults env items m))) := by
  unfold finishUpload
  cases fate.directories with
  | some e => exact ⟨Or.inl rfl, Or.inl rfl⟩
  | none =>
    cases fate.publish with
    | some e => exact ⟨Or.inl rfl, Or.inl rfl⟩
    | none =>
      cases fate.saveManifest with
      | some e => exact ⟨Or.inr rfl, Or.inl rfl⟩
      | none =>
        by_cases hrm : (env.useResume && fate.stateRemoved) = true
        · cases fate.afterwards <;> simp [hrm]
        · cases fate.afterwards <;> simp [hrm]

/-- **What an attempt publishes and saves**: what was there, the prepared manifest (locally), or
the merge of completed tasks. -/
theorem uploadAttempt_manifests (fate : UploadFate) {w : UploadWorld} {m : BackupManifest}
    (hm : w.localManifest = some m) :
    ((uploadAttempt env fate w).2.published = w.published ∨
        ∃ m', (uploadAttempt env fate w).2.published = some m' ∧ Completed env fate w m m') ∧
      ((uploadAttempt env fate w).2.localManifest = some m ∨
        ∃ m', (uploadAttempt env fate w).2.localManifest = some m' ∧
          (prepareManifest env m = .ok m' ∨ Completed env fate w m m')) := by
  unfold uploadAttempt
  rw [hm]
  dsimp only
  cases hp : prepareManifest env m with
  | error e => exact ⟨Or.inl rfl, Or.inl hm⟩
  | ok m' =>
    dsimp only
    cases hsave : env.diffFromRemote.bind fun _ => fate.saveDiff with
    | some e => exact ⟨Or.inl rfl, Or.inl hm⟩
    | none =>
      dsimp only
      -- the world after the diff is saved
      set w₁ : UploadWorld :=
        if env.diffFromRemote.isSome then { w with localManifest := some m' } else w with hw₁
      have hpub : w₁.published = w.published := by rw [hw₁]; split_ifs <;> rfl
      have hstate : w₁.stateFile = w.stateFile := by rw [hw₁]; split_ifs <;> rfl
      have hlocal : w₁.localManifest = some m ∨ w₁.localManifest = some m' := by
        rw [hw₁]
        split_ifs
        · exact Or.inr rfl
        · exact Or.inl hm
      have hstop : ∀ w' : UploadWorld, w'.published = w₁.published → w'.localManifest = w₁.localManifest →
          (w'.published = w.published ∨
              ∃ m₁, w'.published = some m₁ ∧ Completed env fate w m m₁) ∧
            (w'.localManifest = some m ∨ ∃ m₁, w'.localManifest = some m₁ ∧
              (Except.ok (ε := Str) m' = .ok m₁ ∨ Completed env fate w m m₁)) := by
        intro w' hp' hl'
        refine ⟨Or.inl (hp'.trans hpub), ?_⟩
        rw [hl']
        exact hlocal.imp_right fun h => ⟨m', h, Or.inl rfl⟩
      rw [hstate]
      cases hplan : planUpload env m' (acceptedKeys env w.stateFile) with
      | error e => exact hstop _ rfl rfl
      | ok items =>
        dsimp only
        obtain ⟨⟨-, hl, hpub₂⟩, -⟩ := @foldl_endTask env items fate.schedule
          (if env.useResume then
            some ⟨acceptedKeys env w.stateFile, env.backupName, uploadParamsHash env⟩ else none, w₁)
        set w₂ := runTasks env items fate.schedule (acceptedKeys env w.stateFile) w₁ with hw₂
        have hl₂ : w₂.localManifest = w₁.localManifest := hl
        have hp₂ : w₂.published = w₁.published := hpub₂
        cases htasks : tasksError items fate with
        | some e => exact hstop _ hp₂ hl₂
        | none =>
          dsimp only
          have hstarted : startedItems env fate w = items := by
            unfold startedItems
            rw [hm]
            dsimp only
            rw [hp]
            dsimp only
            rw [hsave]
            dsimp only
            rw [hplan]
            rfl
          have hcompleted : Completed env fate w m (sealManifest env (mergeResults env items m')) := by
            refine ⟨m', items, hp, hplan, fun i hi => ?_, rfl⟩
            obtain ⟨k, hk, rfl⟩ := List.mem_iff_getElem.mp hi
            obtain ⟨saved, hsaved⟩ := done_of_tasksError htasks hk
            refine List.mem_filterMap.mpr ⟨_, hsaved, ?_⟩
            rw [hstarted]
            exact List.getElem?_eq_getElem hk
          obtain ⟨hpub₃, hlocal₃⟩ := @finishUpload_manifests env fate items m' w₂
          constructor
          · rcases hpub₃ with h | h
            · exact Or.inl (h.trans (hp₂.trans hpub))
            · exact Or.inr ⟨_, h, hcompleted⟩
          · rcases hlocal₃ with h | h
            · exact (hstop _ rfl rfl).2.imp (fun h' => (h.trans hl₂).trans h') fun h' => by
                obtain ⟨m₁, hm₁, h''⟩ := h'
                exact ⟨m₁, (h.trans hl₂).trans hm₁, h''⟩
            · exact Or.inr ⟨_, h, Or.inr hcompleted⟩

/-- Without a local manifest an attempt does nothing. -/
theorem uploadAttempt_none (fate : UploadFate) {w : UploadWorld} (hm : w.localManifest = none) :
    (uploadAttempt env fate w).2 = w ∧ completedItems env fate w = [] := by
  constructor
  · unfold uploadAttempt
    rw [hm]
  · unfold completedItems startedItems
    rw [hm]
    refine List.filterMap_eq_nil_iff.mpr fun e _ => ?_
    split <;> rfl

end Attempt

end Chbackup
