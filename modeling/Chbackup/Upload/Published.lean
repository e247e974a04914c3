import Chbackup.Upload.Merge

/-!
# The published manifest

What an attempt publishes, up to the order of parts, and what one uninterrupted upload would
publish.  Preparing a manifest (live disk paths, diff against the base) is idempotent, and an
uploaded part survives being prepared again, so neither depends on how often it was done.

* `prepareManifest_prepared`, `prepareManifest_mapParts`: preparing again.
* `mergeResults_same`: the merge of an attempt, in the old order of the parts.
* `merged_same_iff`: when it is the merge of an uninterrupted upload.
-/

namespace Chbackup

/-! ## Manifests up to the order of parts -/

/-- Two tables that differ in the order of their parts only. -/
def TableManifest.SameUpToPartOrder (a b : TableManifest) : Prop :=
  { a with parts := .empty } = { b with parts := .empty } ∧
    SortedMap.Rel (fun _ ps qs => ps.Perm qs) a.parts b.parts

/-- Two manifests that differ in the order of parts only. -/
def BackupManifest.SameUpToPartOrder (a b : BackupManifest) : Prop :=
  { a with tables := .empty } = { b with tables := .empty } ∧
    SortedMap.Rel (fun _ => TableManifest.SameUpToPartOrder) a.tables b.tables

theorem TableManifest.SameUpToPartOrder.symm {a b : TableManifest} (h : a.SameUpToPartOrder b) :
    b.SameUpToPartOrder a :=
  ⟨h.1.symm, h.2.symm fun _ _ _ => List.Perm.symm⟩

theorem TableManifest.SameUpToPartOrder.trans {a b c : TableManifest}
    (h : a.SameUpToPartOrder b) (h' : b.SameUpToPartOrder c) : a.SameUpToPartOrder c :=
  ⟨h.1.trans h'.1, h.2.trans h'.2 fun _ _ _ _ => List.Perm.trans⟩

theorem BackupManifest.SameUpToPartOrder.symm {a b : BackupManifest}
    (h : a.SameUpToPartOrder b) : b.SameUpToPartOrder a :=
  ⟨h.1.symm, h.2.symm fun _ _ _ => TableManifest.SameUpToPartOrder.symm⟩

theorem BackupManifest.SameUpToPartOrder.trans {a b c : BackupManifest}
    (h : a.SameUpToPartOrder b) (h' : b.SameUpToPartOrder c) : a.SameUpToPartOrder c :=
  ⟨h.1.trans h'.1, h.2.trans h'.2 fun _ _ _ _ => TableManifest.SameUpToPartOrder.trans⟩

theorem BackupManifest.SameUpToPartOrder.allParts {a b : BackupManifest}
    (h : a.SameUpToPartOrder b) : a.allParts.Perm b.allParts := by
  refine h.2.flatMap_perm fun _ x y hxy => ?_
  have hid := hxy.2.flatMap_perm (F := id) (G := id) fun _ _ _ h => h
  rwa [List.flatMap_id, List.flatMap_id] at hid

/-- Sealing respects the order of parts. -/
theorem sealManifest_same {env : UploadEnv} {a b : BackupManifest} (h : a.SameUpToPartOrder b) :
    (sealManifest env a).SameUpToPartOrder (sealManifest env b) := by
  have hsize : totalCompressedSize a = totalCompressedSize b :=
    ((h.allParts.filter _).map _).sum_nat
  refine ⟨?_, h.2⟩
  have hhead := congrArg (fun m : BackupManifest =>
    { m with compressedSize := totalCompressedSize a, dataFormat := env.dataFormat }) h.1
  refine hhead.trans ?_
  dsimp only
  rw [hsize]
  rfl

variable {env : UploadEnv}

/-! ## Rewriting the parts of a manifest -/

namespace BackupManifest

/-- The parts of one disk of one table, with the table's metadata-only flag. -/
def OnDisk (m : BackupManifest) (t : Str) (metadataOnly : Bool) (d : Str)
    (parts : List PartInfo) : Prop :=
  ∃ table, (t, table) ∈ m.tables ∧ table.metadataOnly = metadataOnly ∧ (d, parts) ∈ table.parts

/-- Rewrite the parts of a manifest disk by disk. -/
def mapParts (m : BackupManifest) (f : Str → Bool → Str → List PartInfo → List PartInfo) :
    BackupManifest :=
  { m with
    tables := m.tables.mapValues fun t table =>
      { table with parts := table.parts.mapValues fun d parts => f t table.metadataOnly d parts } }

variable {m : BackupManifest} {f g : Str → Bool → Str → List PartInfo → List PartInfo}

theorem onDisk_mapParts {t d : Str} {mo : Bool} {parts : List PartInfo} :
    (m.mapParts f).OnDisk t mo d parts ↔
      ∃ parts', m.OnDisk t mo d parts' ∧ f t mo d parts' = parts := by
  constructor
  · rintro ⟨table, ht, hmo, hd⟩
    obtain ⟨table', ht', rfl⟩ := SortedMap.mem_mapValues.mp ht
    obtain ⟨parts', hd', rfl⟩ := SortedMap.mem_mapValues.mp hd
    exact ⟨parts', ⟨table', ht', hmo, hd'⟩, by rw [← hmo]⟩
  · rintro ⟨parts', ⟨table, ht, rfl, hd⟩, rfl⟩
    exact ⟨_, SortedMap.mem_mapValues.mpr ⟨table, ht, rfl⟩, rfl,
      SortedMap.mem_mapValues.mpr ⟨parts', hd, rfl⟩⟩

theorem mapParts_same_iff :
    (m.mapParts f).SameUpToPartOrder (m.mapParts g) ↔
      ∀ t mo d parts, m.OnDisk t mo d parts → (f t mo d parts).Perm (g t mo d parts) := by
  simp only [SameUpToPartOrder, mapParts, SortedMap.rel_mapValues,
    TableManifest.SameUpToPartOrder, true_and]
  constructor
  · rintro h t mo d parts ⟨table, ht, rfl, hd⟩
    exact h t table ht d parts hd
  · exact fun h t table ht d parts hd => h t _ d parts ⟨table, ht, rfl, hd⟩

theorem mapParts_mapParts :
    (m.mapParts f).mapParts g = m.mapParts fun t mo d parts => g t mo d (f t mo d parts) := by
  simp only [mapParts, SortedMap.mapValues, List.map_map, Function.comp_def]

end BackupManifest

theorem mem_plannedParts {m : BackupManifest} {t d : Str} {p : PartInfo} :
    (t, d, p) ∈ plannedParts m ↔ ∃ parts, m.OnDisk t false d parts ∧ p ∈ parts := by
  simp only [plannedParts, List.mem_flatMap, Prod.exists]
  constructor
  · rintro ⟨t', table, ht, h⟩
    split_ifs at h with hmo
    · exact absurd h List.not_mem_nil
    · obtain ⟨d', parts, hd, h⟩ := by simpa only [List.mem_flatMap, Prod.exists] using h
      obtain ⟨p', hp, heq⟩ := List.mem_map.mp h
      cases heq
      exact ⟨parts, ⟨table, ht, by simpa using hmo, hd⟩, hp⟩
  · rintro ⟨parts, ⟨table, ht, hmo, hd⟩, hp⟩
    refine ⟨t, table, ht, ?_⟩
    rw [hmo, if_neg Bool.false_ne_true]
    exact List.mem_flatMap.mpr ⟨(d, parts), hd, List.mem_map.mpr ⟨p, hp, rfl⟩⟩

/-- Sealing overwrites what an earlier sealing wrote. -/
theorem sealManifest_mapParts (m : BackupManifest)
    (f : Str → Bool → Str → List PartInfo → List PartInfo) :
    sealManifest env ((sealManifest env m).mapParts f) = sealManifest env (m.mapParts f) := rfl

/-! ## Preparing a prepared manifest -/

/-- What the diff of this upload does to a part. -/
def rediff (env : UploadEnv) (t d : Str) (p : PartInfo) : PartInfo :=
  match env.diffFromRemote, env.baseManifest with
  | some _, .ok base => diffPart base t d p
  | _, _ => p

/-- The diff leaves every part that is like this one alone, or it carries this one, once and
for all. -/
theorem rediff_cases (t d : Str) (p : PartInfo) :
    (∀ q : PartInfo, q.name = p.name → q.checksumCrc64 = p.checksumCrc64 →
      rediff env t d q = q) ∨
    (rediff env t d p).isCarried = true ∧ (rediff env t d p).name = p.name ∧
      rediff env t d (rediff env t d p) = rediff env t d p := by
  have hdiff : (∃ base, ∀ q, rediff env t d q = diffPart base t d q) ∨
      ∀ q, rediff env t d q = q := by
    unfold rediff
    split
    · rename_i base _ _
      exact Or.inl ⟨base, fun _ => rfl⟩
    · exact Or.inr fun _ => rfl
  rcases hdiff with ⟨base, hbase⟩ | hid
  · simp only [hbase]
    rcases diffPart_cases base t d p with h | ⟨bp, h⟩
    · exact Or.inl h
    · refine Or.inr ?_
      rw [h p rfl rfl]
      refine ⟨?_, rfl, h _ rfl rfl⟩
      exact List.isPrefixOf_iff_prefix.mpr (List.prefix_append carriedPrefix base.name)
  · exact Or.inl fun q _ _ => hid q

@[simp] theorem rediff_name (t d : Str) (p : PartInfo) : (rediff env t d p).name = p.name := by
  rcases @rediff_cases env t d p with h | h
  · rw [h p rfl rfl]
  · exact h.2.1

theorem rediff_rediff (t d : Str) (p : PartInfo) :
    rediff env t d (rediff env t d p) = rediff env t d p := by
  rcases @rediff_cases env t d p with h | h
  · rw [h p rfl rfl, h p rfl rfl]
  · exact h.2.2

/-- A part that the diff leaves uncarried is left alone. -/
theorem rediff_eq_of_not_carried {t d : Str} {p : PartInfo}
    (h : (rediff env t d p).isCarried = false) : rediff env t d p = p := by
  rcases @rediff_cases env t d p with h' | h'
  · exact h' p rfl rfl
  · rw [h] at h'
    exact absurd h'.1 Bool.false_ne_true

/-- Uploading a part does not make the diff carry it. -/
theorem rediff_uploadedPart {m : BackupManifest} {t d : Str} {p : PartInfo}
    (h : rediff env t d p = p) (hc : p.isCarried = false) :
    rediff env t d (uploadedPart env m t d p) = uploadedPart env m t d p := by
  rcases @rediff_cases env t d p with h' | h'
  · exact h' _ (uploadedPart_name ..) (uploadedPart_checksumCrc64 ..)
  · rw [h, hc] at h'
    exact absurd h'.1 Bool.false_ne_true

theorem liveRemotePaths_idem (types paths : SortedMap Str Str) :
    liveRemotePaths env types (liveRemotePaths env types paths) =
      liveRemotePaths env types paths := by
  unfold liveRemotePaths
  split_ifs
  · split
    · exact SortedMap.foldl_insert_idem _ _
    · rfl
  · rfl

/-- A manifest that is prepared is the original with live paths and the diff applied to every
part. -/
theorem prepareManifest_eq {m m' : BackupManifest} (h : prepareManifest env m = .ok m') :
    m' = (overrideDiskPaths env m).mapParts fun t _ d parts => parts.map (rediff env t d) := by
  unfold prepareManifest at h
  split at h
  · rename_i hnone
    have hid : ∀ t d, rediff env t d = id := by
      intro t d
      funext p
      rw [rediff, hnone]
      rfl
    cases h
    simp only [BackupManifest.mapParts, hid, List.map_id]
    have hmap {α : Type} (s : SortedMap Str α) (f : Str → α → α) (hf : ∀ k a, f k a = a) :
        s.mapValues f = s := by
      obtain ⟨es, hs⟩ := s
      simp only [SortedMap.mapValues, hf, Prod.eta, List.map_id']
    rw [hmap _ _ fun t table => by rw [hmap _ _ fun _ _ => rfl]]
  · rename_i base hsome
    cases hb : env.baseManifest with
    | error e =>
      rw [hb] at h
      cases h
    | ok b =>
      rw [hb] at h
      obtain rfl : diffParts (overrideDiskPaths env m) b = m' := Except.ok.inj h
      have hdiff : ∀ t d, rediff env t d = diffPart b t d := by
        intro t d
        funext p
        rw [rediff, hsome, hb]
      simp only [hdiff]
      rfl

/-- Preparing keeps what the uploaded form of a part depends on. -/
theorem prepareManifest_disks {m m' : BackupManifest} (h : prepareManifest env m = .ok m') :
    m'.diskTypes = m.diskTypes ∧ m'.disks = m.disks := by
  rw [prepareManifest_eq h]
  exact ⟨rfl, rfl⟩

/-- The diff changes nothing more in a prepared manifest. -/
theorem rediff_of_prepared {m m' : BackupManifest} (h : prepareManifest env m = .ok m')
    {t d : Str} {mo : Bool} {parts : List PartInfo} (hp : m'.OnDisk t mo d parts) :
    ∀ p ∈ parts, rediff env t d p = p := by
  rw [prepareManifest_eq h] at hp
  obtain ⟨parts', -, rfl⟩ := BackupManifest.onDisk_mapParts.mp hp
  intro p hp
  obtain ⟨q, -, rfl⟩ := List.mem_map.mp hp
  exact rediff_rediff t d q

/-- A part of a prepared manifest that is not carried stands in the original. -/
theorem onDisk_of_prepared {m m' : BackupManifest} (h : prepareManifest env m = .ok m')
    {t d : Str} {mo : Bool} {parts : List PartInfo} (hp : m'.OnDisk t mo d parts) :
    ∃ parts', m.OnDisk t mo d parts' ∧ parts'.map PartInfo.name = parts.map PartInfo.name ∧
      ∀ p ∈ parts, p.isCarried = false → p ∈ parts' := by
  rw [prepareManifest_eq h] at hp
  obtain ⟨parts', hp', rfl⟩ := BackupManifest.onDisk_mapParts.mp hp
  refine ⟨parts', hp', ?_, fun p hp hc => ?_⟩
  · rw [List.map_map]
    exact List.map_congr_left fun p _ => (rediff_name t d p).symm
  · obtain ⟨q, hq, rfl⟩ := List.mem_map.mp hp
    rw [rediff_eq_of_not_carried hc]
    exact hq

theorem liveRemotePaths_prepared {m m' : BackupManifest} (h : prepareManifest env m = .ok m') :
    liveRemotePaths env m'.diskTypes m'.diskRemotePaths = m'.diskRemotePaths := by
  rw [prepareManifest_eq h]
  exact liveRemotePaths_idem _ _

/-- Preparing again what was rewritten after being prepared only repeats the diff. -/
theorem prepareManifest_mapParts {m m' m'' : BackupManifest}
    {f : Str → Bool → Str → List PartInfo → List PartInfo} (h : prepareManifest env m = .ok m')
    (h' : prepareManifest env (sealManifest env (m'.mapParts f)) = .ok m'') :
    m'' = (sealManifest env (m'.mapParts f)).mapParts fun t _ d parts =>
      parts.map (rediff env t d) := by
  have hlive : overrideDiskPaths env (sealManifest env (m'.mapParts f)) =
      sealManifest env (m'.mapParts f) := by
    unfold overrideDiskPaths
    exact congrArg (fun x => { sealManifest env (m'.mapParts f) with diskRemotePaths := x })
      (liveRemotePaths_prepared h)
  rw [prepareManifest_eq h', hlive]

/-- Preparing is idempotent. -/
theorem prepareManifest_prepared {m m' m'' : BackupManifest} (h : prepareManifest env m = .ok m')
    (h' : prepareManifest env m' = .ok m'') : m'' = m' := by
  have hlive : overrideDiskPaths env m' = m' := by
    unfold overrideDiskPaths
    rw [liveRemotePaths_prepared h]
  have hidem : ∀ t d, rediff env t d ∘ rediff env t d = rediff env t d :=
    fun t d => funext fun p => rediff_rediff t d p
  rw [prepareManifest_eq h', hlive, prepareManifest_eq h, BackupManifest.mapParts_mapParts]
  simp only [List.map_map, hidem]

/-! ## What is published -/

/-- The parts of one disk after a merge, in their old order. -/
def mergedParts (env : UploadEnv) (m : BackupManifest) (completedKeys : List Str) (t : Str)
    (metadataOnly : Bool) (d : Str) (parts : List PartInfo) : List PartInfo :=
  if metadataOnly then parts else parts.map (mergedPart env m completedKeys t d)

/-- The manifest that one uninterrupted upload publishes, its parts in their old order. -/
def uninterruptedManifest (env : UploadEnv) (m : BackupManifest) :
    Except Str BackupManifest :=
  (prepareManifest env m).map fun m' => sealManifest env (m'.mapParts (mergedParts env m' []))

/-- The names of the parts of each disk are distinct. -/
def NamesDistinct (m : BackupManifest) : Prop :=
  ∀ t mo d parts, m.OnDisk t mo d parts → (parts.map PartInfo.name).Nodup

theorem mergeResults_same {m : BackupManifest} {completedKeys : List Str}
    {items : List WorkItem} (h : planUpload env m completedKeys = .ok items)
    (hn : NamesDistinct m) :
    (mergeResults env items m).SameUpToPartOrder
      (m.mapParts (mergedParts env m completedKeys)) := by
  refine BackupManifest.mapParts_same_iff (f := fun t _ d parts =>
    mergeUploaded (uploadedOn env items t d) parts).mpr ?_
  rintro t mo d parts ⟨table, ht, rfl, hd⟩
  exact planUpload_merge h ht hd (hn t _ d parts ⟨table, ht, rfl, hd⟩)

@[simp] theorem mergedPart_name (m : BackupManifest) (completedKeys : List Str) (t d : Str)
    (p : PartInfo) : (mergedPart env m completedKeys t d p).name = p.name := by
  unfold mergedPart
  split_ifs
  · exact uploadedPart_name m t d p
  · rfl

/-- Two rewritings that keep distinct names agree up to order only if they agree. -/
theorem perm_map_iff {parts : List PartInfo} {f g : PartInfo → PartInfo}
    (hn : (parts.map PartInfo.name).Nodup) (hf : ∀ p, (f p).name = p.name)
    (hg : ∀ p, (g p).name = p.name) :
    (parts.map f).Perm (parts.map g) ↔ ∀ p ∈ parts, f p = g p := by
  constructor
  · intro h p hp
    obtain ⟨q, hq, hqp⟩ := List.mem_map.mp (h.mem_iff.mp (List.mem_map_of_mem hp))
    have heq : q = p := by
      refine List.inj_on_of_nodup_map hn hq hp ?_
      rw [← hg q, hqp, hf p]
    rw [← hqp, heq]
  · exact fun h => (List.map_congr_left h).symm ▸ List.Perm.refl _

/-- **When the merged manifest is the uninterrupted one**: when every part that the attempt took
as completed already stands in its uploaded form. -/
theorem merged_same_iff {m : BackupManifest} {completedKeys : List Str} (hn : NamesDistinct m) :
    (sealManifest env (m.mapParts (mergedParts env m completedKeys))).SameUpToPartOrder
        (sealManifest env (m.mapParts (mergedParts env m []))) ↔
      ∀ x ∈ plannedParts m, x.2.2.isCarried = false →
        partKey env m x.1 x.2.1 x.2.2 ∈ completedKeys →
          uploadedPart env m x.1 x.2.1 x.2.2 = x.2.2 := by
  have hpart : ∀ t d p, mergedPart env m completedKeys t d p = mergedPart env m [] t d p ↔
      (p.isCarried = false → partKey env m t d p ∈ completedKeys →
        uploadedPart env m t d p = p) := by
    intro t d p
    by_cases hc : p.isCarried = true
    · simp [mergedPart, needsUpload, hc]
    · by_cases hk : partKey env m t d p ∈ completedKeys
      · simp [mergedPart, needsUpload, hc, hk, eq_comm]
      · simp [mergedPart, needsUpload, hc, hk]
  have htables : (m.mapParts (mergedParts env m completedKeys)).SameUpToPartOrder
      (m.mapParts (mergedParts env m [])) ↔ _ := BackupManifest.mapParts_same_iff
  constructor
  · rintro h ⟨t, d, p⟩ hx
    obtain ⟨parts, hd, hp⟩ := mem_plannedParts.mp hx
    have hperm := htables.mp ⟨rfl, h.2⟩ t false d parts hd
    exact (hpart t d p).mp ((perm_map_iff (hn t false d parts hd) (mergedPart_name m _ t d)
      (mergedPart_name m _ t d)).mp hperm p hp)
  · intro h
    refine sealManifest_same (htables.mpr fun t mo d parts hd => ?_)
    cases mo with
    | true => exact List.Perm.refl _
    | false =>
      refine (perm_map_iff (hn t false d parts hd) (mergedPart_name m _ t d)
        (mergedPart_name m _ t d)).mpr fun p hp => (hpart t d p).mpr ?_
      exact h (t, d, p) (mem_plannedParts.mpr ⟨parts, hd, hp⟩)

end Chbackup
