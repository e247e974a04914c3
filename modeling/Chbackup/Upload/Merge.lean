import Chbackup.Upload.Attempt

/-!
# What an attempt merges

The plan and the merge, read part by part.  `uploadedPart` says what a completed task makes of a
part, without its work item; a merge then replaces the planned parts by their uploaded form and
leaves the others, in another order (`mergeUploaded_perm`).
-/

namespace Chbackup

variable (env : UploadEnv)

/-- The key that the resume state records for a part. -/
def partKey (m : BackupManifest) (tableKey diskName : Str) (part : PartInfo) : Str :=
  if m.diskIsS3 diskName && part.s3Objects.isSome then env.metadataKey tableKey diskName part.name
  else env.s3KeyForPart tableKey part.name

/-- A part as it stands in the manifest once it is uploaded. -/
def uploadedPart (m : BackupManifest) (tableKey diskName : Str) (part : PartInfo) : PartInfo :=
  if m.diskIsS3 diskName && part.s3Objects.isSome then
    { part with
      s3Objects := some ((part.s3Objects.getD []).map (copyObject env))
      backupKey := env.metadataKey tableKey diskName part.name
      source := "uploaded"
      backupSize := part.size }
  else
    { part with
      backupKey := env.s3KeyForPart tableKey part.name
      source := "uploaded"
      backupSize := env.archiveSize
        ((env.findPartDir m.disks tableKey diskName part.name).toOption.getD []) }

/-- The keys that a part refers to are written, with the sizes recorded for them. -/
def PartStored (m : BackupManifest) (stored : List (Str × Nat)) (diskName : Str)
    (part : PartInfo) : Prop :=
  (part.backupKey, part.backupSize) ∈ stored ∧
    (m.diskIsS3 diskName = true →
      ∀ o ∈ part.s3Objects.getD [], o.size ≠ 0 → (o.backupKey, o.size) ∈ stored)

variable {env}

theorem uploadedPart_of_s3 {m : BackupManifest} {t d : Str} {p : PartInfo}
    (h : (m.diskIsS3 d && p.s3Objects.isSome) = true) :
    uploadedPart env m t d p =
      { p with
        s3Objects := some ((p.s3Objects.getD []).map (copyObject env))
        backupKey := env.metadataKey t d p.name
        source := "uploaded"
        backupSize := p.size } := if_pos h

theorem uploadedPart_of_archive {m : BackupManifest} {t d : Str} {p : PartInfo}
    (h : ¬(m.diskIsS3 d && p.s3Objects.isSome) = true) :
    uploadedPart env m t d p =
      { p with
        backupKey := env.s3KeyForPart t p.name
        source := "uploaded"
        backupSize := env.archiveSize
          ((env.findPartDir m.disks t d p.name).toOption.getD []) } := if_neg h

@[simp] theorem uploadedPart_name (m : BackupManifest) (t d : Str) (p : PartInfo) :
    (uploadedPart env m t d p).name = p.name := by
  rw [uploadedPart]
  split_ifs <;> rfl

@[simp] theorem uploadedPart_checksumCrc64 (m : BackupManifest) (t d : Str) (p : PartInfo) :
    (uploadedPart env m t d p).checksumCrc64 = p.checksumCrc64 := by
  rw [uploadedPart]
  split_ifs <;> rfl

@[simp] theorem uploadedPart_isCarried (m : BackupManifest) (t d : Str) (p : PartInfo) :
    (uploadedPart env m t d p).isCarried = false := by
  rw [uploadedPart]
  split_ifs <;> exact (by decide : carriedPrefix.isPrefixOf "uploaded".toList = false)

theorem uploadedPart_backupKey (m : BackupManifest) (t d : Str) (p : PartInfo) :
    (uploadedPart env m t d p).backupKey = partKey env m t d p := by
  rw [uploadedPart, partKey]
  split_ifs <;> rfl

theorem tableDataKey_ne_nil (t : Str) : env.tableDataKey t ≠ [] := by
  rw [UploadEnv.tableDataKey]
  exact List.append_ne_nil_of_right_ne_nil _ (by decide)

/-- A key of a part is never empty: it names its table's directory. -/
theorem partKey_ne_nil (m : BackupManifest) (t d : Str) (p : PartInfo) :
    partKey env m t d p ≠ [] := by
  rw [partKey]
  split_ifs
  · exact List.append_ne_nil_of_right_ne_nil _ (by decide)
  · rw [UploadEnv.s3KeyForPart, List.append_assoc]
    exact List.append_ne_nil_of_left_ne_nil (tableDataKey_ne_nil t) _

theorem copyObject_copyObject (o : S3ObjectInfo) :
    copyObject env (copyObject env o) = copyObject env o := by
  unfold copyObject
  by_cases h : o.size = 0
  · rw [if_pos h, if_pos rfl]
  · rw [if_neg h, if_neg h]

/-- Uploading an uploaded part again changes nothing in the manifest. -/
theorem uploadedPart_uploadedPart (m : BackupManifest) (t d : Str) (p : PartInfo) :
    uploadedPart env m t d (uploadedPart env m t d p) = uploadedPart env m t d p := by
  by_cases h : (m.diskIsS3 d && p.s3Objects.isSome) = true
  · have hs3 : m.diskIsS3 d = true := (Bool.and_eq_true _ _ ▸ h).1
    have hcopy : ((p.s3Objects.getD []).map (copyObject env)).map (copyObject env) =
        (p.s3Objects.getD []).map (copyObject env) := by
      rw [List.map_map]
      exact List.map_congr_left fun o _ => copyObject_copyObject o
    rw [uploadedPart_of_s3 h, uploadedPart_of_s3 (by rw [hs3]; rfl)]
    dsimp only [Option.getD_some]
    rw [hcopy]
  · rw [uploadedPart_of_archive h]
    exact if_neg h

theorem diskIsS3_congr {m m' : BackupManifest} (ht : m.diskTypes = m'.diskTypes) :
    m.diskIsS3 = m'.diskIsS3 := by
  funext d
  rw [BackupManifest.diskIsS3, BackupManifest.diskIsS3, ht]

/-- The uploaded form depends on the manifest through its disks only. -/
theorem uploadedPart_congr {m m' : BackupManifest} (ht : m.diskTypes = m'.diskTypes)
    (hd : m.disks = m'.disks) : uploadedPart env m = uploadedPart env m' := by
  unfold uploadedPart
  rw [diskIsS3_congr ht, hd]

/-! ## The plan -/

theorem findPartDir_exists {disks : SortedMap Str Str} {t d n dir : Str}
    (h : env.findPartDir disks t d n = .ok dir) : env.pathExists dir = true := by
  simp only [UploadEnv.findPartDir] at h
  split at h
  · rename_i found hfound
    cases h
    exact List.find?_some hfound
  · cases h

/-- What the planning of one part decides. -/
inductive Planned (m : BackupManifest) (completedKeys : List Str) (t d : Str) (p : PartInfo) :
    Option WorkItem → Prop where
  | skipped (h : p.isCarried = true ∨ partKey env m t d p ∈ completedKeys) :
      Planned m completedKeys t d p none
  | item (i : WorkItem) (hcarried : p.isCarried = false)
      (hkey : partKey env m t d p ∉ completedKeys) (htable : i.tableKey = t)
      (hdisk : i.diskName = d) (hup : i.updatedPart env = uploadedPart env m t d p)
      (hstored : ∀ stored, i.writes env ⊆ stored →
        PartStored m stored d (uploadedPart env m t d p)) :
      Planned m completedKeys t d p (some i)

theorem planPart_planned {m : BackupManifest} {completedKeys : List Str} {t d : Str}
    {p : PartInfo} {r : Option WorkItem} (h : planPart env m completedKeys t d p = .ok r) :
    @Planned env m completedKeys t d p r := by
  unfold planPart at h
  by_cases hc : p.isCarried = true
  · rw [if_pos hc] at h
    cases h
    exact .skipped (Or.inl hc)
  rw [if_neg hc] at h
  by_cases hs3 : (m.diskIsS3 d && p.s3Objects.isSome) = true
  · have hkey : partKey env m t d p = env.metadataKey t d p.name := if_pos hs3
    have hup := @uploadedPart_of_s3 env m t d p hs3
    rw [if_pos hs3] at h
    by_cases hk : env.metadataKey t d p.name ∈ completedKeys
    · rw [if_pos hk] at h
      cases h
      exact .skipped (Or.inr (hkey ▸ hk))
    rw [if_neg hk] at h
    cases hdir : env.findPartDir m.disks t d p.name with
    | error e =>
      rw [hdir] at h
      cases h
    | ok dir =>
      rw [hdir] at h
      cases h
      refine .item _ (Bool.not_eq_true _ ▸ hc) (hkey ▸ hk) rfl rfl hup.symm ?_
      intro stored hsub
      rw [hup]
      refine ⟨hsub ?_, fun _ o ho hsize => hsub ?_⟩
      · refine List.mem_append_right _ ?_
        rw [if_pos (findPartDir_exists hdir)]
        exact List.mem_singleton_self _
      · refine List.mem_append_left _ (List.mem_map.mpr ⟨o, List.mem_filter.mpr ⟨ho, ?_⟩, rfl⟩)
        exact decide_eq_true hsize
  · have hkey : partKey env m t d p = env.s3KeyForPart t p.name := if_neg hs3
    have hup := @uploadedPart_of_archive env m t d p hs3
    rw [if_neg hs3] at h
    cases hdir : env.findPartDir m.disks t d p.name with
    | error e =>
      rw [hdir] at h
      cases h
    | ok dir =>
      rw [hdir] at h hup
      dsimp only [Except.bind] at h
      rw [findPartDir_exists hdir, Bool.not_true, if_neg Bool.false_ne_true] at h
      by_cases hk : env.s3KeyForPart t p.name ∈ completedKeys
      · rw [if_pos hk] at h
        cases h
        exact .skipped (Or.inr (hkey ▸ hk))
      rw [if_neg hk] at h
      cases h
      refine .item _ (Bool.not_eq_true _ ▸ hc) (hkey ▸ hk) rfl rfl hup.symm ?_
      intro stored hsub
      rw [hup]
      refine ⟨hsub (List.mem_singleton_self _), fun hd o ho _ => ?_⟩
      -- on an object disk, a part without objects has nothing to copy
      have hnone : p.s3Objects = none := by
        rw [hd, Bool.true_and, Option.not_isSome_iff_eq_none] at hs3
        exact hs3
      dsimp only at ho
      rw [hnone] at ho
      exact absurd ho List.not_mem_nil

/-- Whether a part makes a work item. -/
def needsUpload (env : UploadEnv) (m : BackupManifest) (completedKeys : List Str) (t d : Str)
    (p : PartInfo) : Bool :=
  !p.isCarried && decide (partKey env m t d p ∉ completedKeys)

/-- The items of one disk of one table are its parts that need an upload, in order. -/
theorem planParts_uploaded {m : BackupManifest} {completedKeys : List Str}
    {xs : List (Str × Str × PartInfo)} {items : List WorkItem}
    (h : planParts env m completedKeys xs = .ok items) (t d : Str) :
    uploadedOn env items t d =
      ((xs.filter fun x => x.1 = t ∧ x.2.1 = d).filter fun x =>
        needsUpload env m completedKeys t d x.2.2).map fun x => uploadedPart env m t d x.2.2 := by
  induction xs generalizing items with
  | nil =>
    cases h
    rfl
  | cons x xs ih =>
    unfold planParts at h
    cases hp : planPart env m completedKeys x.1 x.2.1 x.2.2 with
    | error e =>
      rw [hp] at h
      cases h
    | ok r =>
      cases hps : planParts env m completedKeys xs with
      | error e =>
        rw [hp, hps] at h
        cases h
      | ok rest =>
        rw [hp, hps] at h
        obtain rfl : r.toList ++ rest = items := Except.ok.inj h
        have ih := ih hps
        rw [uploadedOn] at ih ⊢
        rw [List.filter_append, List.map_append, ih, List.filter_cons]
        by_cases hx : x.1 = t ∧ x.2.1 = d
        · obtain ⟨rfl, rfl⟩ := hx
          rw [if_pos (decide_eq_true ⟨rfl, rfl⟩), List.filter_cons]
          cases planPart_planned hp with
          | skipped hskip =>
            have hneed : needsUpload env m completedKeys x.1 x.2.1 x.2.2 = false := by
              rcases hskip with h | h <;> simp [needsUpload, h]
            rw [hneed, if_neg Bool.false_ne_true]
            rfl
          | item i hc hk htable hdisk hup _ =>
            have hneed : needsUpload env m completedKeys x.1 x.2.1 x.2.2 = true := by
              simp [needsUpload, hc, hk]
            rw [hneed, if_pos rfl, List.map_cons, Option.toList_some, List.filter_cons,
              if_pos (decide_eq_true ⟨htable, hdisk⟩), List.filter_nil, List.map_cons, hup]
            rfl
        · rw [if_neg (by simpa using hx)]
          cases planPart_planned hp with
          | skipped hskip => rfl
          | item i hc hk htable hdisk hup _ =>
            rw [Option.toList_some, List.filter_cons, htable, hdisk, if_neg (by simpa using hx)]
            rfl

/-- Once the items have written, every part that needed an upload is stored. -/
theorem planParts_stored {m : BackupManifest} {completedKeys : List Str}
    {xs : List (Str × Str × PartInfo)} {items : List WorkItem}
    (h : planParts env m completedKeys xs = .ok items) {stored : List (Str × Nat)}
    (hw : ∀ i ∈ items, i.writes env ⊆ stored) :
    ∀ x ∈ xs, needsUpload env m completedKeys x.1 x.2.1 x.2.2 = true →
      PartStored m stored x.2.1 (uploadedPart env m x.1 x.2.1 x.2.2) := by
  induction xs generalizing items with
  | nil => exact fun x hx => absurd hx List.not_mem_nil
  | cons y xs ih =>
    unfold planParts at h
    cases hp : planPart env m completedKeys y.1 y.2.1 y.2.2 with
    | error e =>
      rw [hp] at h
      cases h
    | ok r =>
      cases hps : planParts env m completedKeys xs with
      | error e =>
        rw [hp, hps] at h
        cases h
      | ok rest =>
        rw [hp, hps] at h
        obtain rfl : r.toList ++ rest = items := Except.ok.inj h
        intro x hx hneed
        rcases List.mem_cons.mp hx with rfl | hx
        · cases planPart_planned hp with
          | skipped hskip =>
            have hneed' : needsUpload env m completedKeys x.1 x.2.1 x.2.2 = false := by
              rcases hskip with h | h <;> simp [needsUpload, h]
            rw [hneed'] at hneed
            exact absurd hneed Bool.false_ne_true
          | item i _ _ _ _ _ hstored =>
            exact hstored stored (hw i (List.mem_append_left _ (List.mem_singleton_self i)))
        · exact ih hps (fun i hi => hw i (List.mem_append_right _ hi)) x hx hneed

/-! ## The merge -/

/-- **The merge, up to order**: the parts with results are replaced, the others stay. -/
theorem mergeUploaded_perm {parts uploaded : List PartInfo} {q : PartInfo → Bool}
    {f : PartInfo → PartInfo} (hn : (parts.map PartInfo.name).Nodup)
    (hf : ∀ p, (f p).name = p.name) (hup : uploaded.Perm ((parts.filter q).map f)) :
    (mergeUploaded uploaded parts).Perm (parts.map fun p => if q p then f p else p) := by
  have hnames : ∀ p ∈ parts, p.name ∈ uploaded.map PartInfo.name ↔ q p = true := by
    intro p hp
    rw [(hup.map PartInfo.name).mem_iff, List.map_map]
    constructor
    · intro h
      obtain ⟨p', hp', hname⟩ := List.mem_map.mp h
      obtain ⟨hp'mem, hq⟩ := List.mem_filter.mp hp'
      have heq : p' = p := List.inj_on_of_nodup_map hn hp'mem hp ((hf p').symm.trans hname)
      exact heq ▸ hq
    · exact fun hq => List.mem_map.mpr ⟨p, List.mem_filter.mpr ⟨hp, hq⟩, hf p⟩
  have hkept : parts.filter (fun p => p.name ∉ uploaded.map PartInfo.name) =
      parts.filter fun p => !q p := by
    refine List.filter_congr fun p hp => ?_
    rw [Bool.eq_iff_iff, decide_eq_true_eq, hnames p hp, Bool.not_eq_true']
    simp
  have hsplit : parts.map (fun p => if q p then f p else p) |>.Perm
      ((parts.filter q).map f ++ parts.filter fun p => !q p) := by
    refine ((List.filter_append_perm q parts).symm.map _).trans ?_
    rw [List.map_append]
    have h₁ : (parts.filter q).map (fun p => if q p then f p else p) = (parts.filter q).map f :=
      List.map_congr_left fun p hp => if_pos (List.mem_filter.mp hp).2
    have h₂ : (parts.filter fun p => !q p).map (fun p => if q p then f p else p) =
        parts.filter fun p => !q p := by
      conv_rhs => rw [← List.map_id (parts.filter fun p => !q p)]
      refine List.map_congr_left fun p hp => if_neg ?_
      simpa using (List.mem_filter.mp hp).2
    rw [h₁, h₂]
  rw [mergeUploaded, hkept]
  exact (List.perm_append_comm.trans (hup.append_right _)).trans hsplit.symm

/-- The part that the merge leaves in place of a part. -/
def mergedPart (env : UploadEnv) (m : BackupManifest) (completedKeys : List Str) (t d : Str)
    (p : PartInfo) : PartInfo :=
  if needsUpload env m completedKeys t d p then uploadedPart env m t d p else p

/-- The planning loop visits exactly the parts of the data tables. -/
theorem filter_plannedParts {m : BackupManifest} {t d : Str} {table : TableManifest}
    {parts : List PartInfo} (ht : (t, table) ∈ m.tables) (hd : (d, parts) ∈ table.parts) :
    (plannedParts m).filter (fun x => x.1 = t ∧ x.2.1 = d) =
      if table.metadataOnly then [] else parts.map fun p => (t, d, p) := by
  have hall : ∀ p ∈ parts.map fun p => (t, d, p), decide (p.1 = t ∧ p.2.1 = d) = true := by
    intro x hx
    obtain ⟨p, -, rfl⟩ := List.mem_map.mp hx
    simp
  rw [plannedParts, SortedMap.filter_flatMap_eq ht]
  · dsimp only
    split_ifs with hm
    · rfl
    · rw [SortedMap.filter_flatMap_eq hd, List.filter_eq_self.mpr hall]
      intro b _ hne x hx
      obtain ⟨p, -, rfl⟩ := List.mem_map.mp hx
      simp [hne]
  · intro b _ hne x hx
    split_ifs at hx with hm
    · exact absurd hx List.not_mem_nil
    · obtain ⟨e, -, he⟩ := List.mem_flatMap.mp hx
      obtain ⟨p, -, rfl⟩ := List.mem_map.mp he
      simp [hne]

/-- **What a plan merges on one disk.** -/
theorem planUpload_merge {m : BackupManifest} {completedKeys : List Str}
    {items : List WorkItem} (h : planUpload env m completedKeys = .ok items) {t d : Str}
    {table : TableManifest} {parts : List PartInfo} (ht : (t, table) ∈ m.tables)
    (hd : (d, parts) ∈ table.parts) (hn : (parts.map PartInfo.name).Nodup) :
    (mergeUploaded (uploadedOn env items t d) parts).Perm
      (if table.metadataOnly then parts else parts.map (mergedPart env m completedKeys t d)) := by
  unfold planUpload at h
  cases hp : planParts env m completedKeys (plannedParts m) with
  | error e =>
    rw [hp] at h
    cases h
  | ok planned =>
    rw [hp] at h
    obtain rfl : planned.filter WorkItem.isArchive ++ (planned.filter fun i => !i.isArchive) =
      items := Except.ok.inj h
    have hperm : (uploadedOn env (planned.filter WorkItem.isArchive ++
        planned.filter fun i => !i.isArchive) t d).Perm (uploadedOn env planned t d) :=
      ((List.filter_append_perm _ planned).filter _).map _
    rw [planParts_uploaded hp, filter_plannedParts ht hd] at hperm
    split_ifs at hperm ⊢ with hm
    · rw [List.perm_nil.mp hperm]
      simp [mergeUploaded]
    · refine mergeUploaded_perm hn (uploadedPart_name m t d) (hperm.trans ?_)
      rw [List.filter_map, List.map_map]
      exact List.Perm.refl _

end Chbackup
