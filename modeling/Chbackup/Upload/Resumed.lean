import Chbackup.Upload.Published

/-!
# Sequences of upload attempts

What the last of a sequence of attempts publishes, compared with what one uninterrupted upload
publishes.  The merge keeps the manifest entry of a part that the attempt did not upload; for a
part that an earlier attempt uploaded, that entry has no key yet, because the local manifest is
only rewritten after publication.

* `uploadAttempt_cases`: what an attempt can leave behind.
* `Progress`: what holds of the world after any attempts (`progress_runAttempts`).
* `resumed_upload_complete_iff`: the published manifest is the uninterrupted one, up to the
  order of parts, exactly when the last attempt resumes no part without a recorded key.
* `resumed_upload_loses_key`: one part, one failed attempt, one resumed attempt.
-/

namespace Chbackup

variable {env : UploadEnv}

/-! ## The tasks of an attempt -/

theorem stored_endTask (items : List WorkItem) (st : Option UploadState × UploadWorld)
    (e : Nat × TaskEnd) :
    st.2.stored ⊆ (endTask env items st e).2.stored ∧
      (endTask env items st e).2.localManifest = st.2.localManifest ∧
        (endTask env items st e).2.published = st.2.published := by
  unfold endTask
  split
  · rename_i saved item _ _
    obtain ⟨state, w⟩ := st
    cases state with
    | none => exact ⟨List.subset_append_left _ _, rfl, rfl⟩
    | some state => cases saved <;> exact ⟨List.subset_append_left _ _, rfl, rfl⟩
  · exact ⟨fun _ h => h, rfl, rfl⟩

/-- A completed task has written. -/
theorem writes_endTask {items : List WorkItem} {st : Option UploadState × UploadWorld} {i : Nat}
    {saved : Bool} {item : WorkItem} (hi : items[i]? = some item) :
    item.writes env ⊆ (endTask env items st (i, .done saved)).2.stored := by
  unfold endTask
  rw [hi]
  obtain ⟨state, w⟩ := st
  cases state with
  | none => exact List.subset_append_right _ _
  | some state => cases saved <;> exact List.subset_append_right _ _

theorem foldl_endTask (items : List WorkItem) (schedule : List (Nat × TaskEnd))
    (st : Option UploadState × UploadWorld) :
    (st.2.stored ⊆ (schedule.foldl (endTask env items) st).2.stored ∧
      (schedule.foldl (endTask env items) st).2.localManifest = st.2.localManifest ∧
        (schedule.foldl (endTask env items) st).2.published = st.2.published) ∧
    ∀ i saved item, (i, .done saved) ∈ schedule → items[i]? = some item →
      item.writes env ⊆ (schedule.foldl (endTask env items) st).2.stored := by
  induction schedule generalizing st with
  | nil => exact ⟨⟨fun _ h => h, rfl, rfl⟩, fun i saved item h => absurd h List.not_mem_nil⟩
  | cons e schedule ih =>
    obtain ⟨⟨hs, hl, hp⟩, hw⟩ := ih (endTask env items st e)
    obtain ⟨hs', hl', hp'⟩ := @stored_endTask env items st e
    refine ⟨⟨List.Subset.trans hs' hs, hl.trans hl', hp.trans hp'⟩, fun i saved item hmem hi => ?_⟩
    rcases List.mem_cons.mp hmem with rfl | hmem
    · exact List.Subset.trans (writes_endTask hi) hs
    · exact hw i saved item hmem hi

/-- If the joined tasks do not stop the attempt, every task has completed. -/
theorem done_of_tasksError {items : List WorkItem} {fate : UploadFate}
    (h : tasksError items fate = none) {i : Nat} (hi : i < items.length) :
    ∃ saved, (i, .done saved) ∈ fate.schedule := by
  have hend : fate.taskEnd i ∈ (List.range items.length).map fate.taskEnd :=
    List.mem_map.mpr ⟨i, List.mem_range.mpr hi, rfl⟩
  unfold tasksError at h
  dsimp only at h
  split at h
  · cases h
  · rename_i hfailed
    split_ifs at h with hcancel
    rw [Bool.or_eq_true, not_or, List.any_eq_true] at hcancel
    cases he : fate.taskEnd i with
    | failed e =>
      rw [he] at hend
      have hnone := List.findSome?_eq_none_iff.mp hfailed _ hend
      cases hnone
    | cancelled =>
      rw [he] at hend
      exact absurd ⟨_, hend, by simp⟩ hcancel.2
    | done saved =>
      unfold UploadFate.taskEnd at he
      cases hf : fate.schedule.find? fun e => e.1 = i with
      | none =>
        rw [hf] at he
        cases he
      | some e =>
        rw [hf] at he
        have hkey : e.1 = i := by simpa using List.find?_some hf
        refine ⟨saved, ?_⟩
        have heq : e = (i, .done saved) := Prod.ext hkey he
        exact heq ▸ List.mem_of_find?_eq_some hf

/-- The tasks leave the manifests alone and only add to what is stored; if they do not stop the
attempt, all of them have written. -/
theorem runTasks_spec (items : List WorkItem) (fate : UploadFate) (completedKeys : List Str)
    (w : UploadWorld) :
    w.stored ⊆ (runTasks env items fate.schedule completedKeys w).stored ∧
      (runTasks env items fate.schedule completedKeys w).localManifest = w.localManifest ∧
      (tasksError items fate = none → ∀ i ∈ items,
        i.writes env ⊆ (runTasks env items fate.schedule completedKeys w).stored) := by
  unfold runTasks
  obtain ⟨⟨hs, hl, -⟩, hw⟩ := @foldl_endTask env items fate.schedule
    (if env.useResume then some ⟨completedKeys, env.backupName, uploadParamsHash env⟩ else none, w)
  refine ⟨hs, hl, fun hnone item hitem => ?_⟩
  obtain ⟨i, hi, rfl⟩ := List.mem_iff_getElem.mp hitem
  obtain ⟨saved, hsaved⟩ := done_of_tasksError hnone hi
  exact hw i saved _ hsaved (List.getElem?_eq_getElem hi)

/-! ## What an attempt can leave behind -/

/-- The end of an attempt publishes and saves one manifest, or fails and saves none. -/
theorem finishUpload_cases (fate : UploadFate) (items : List WorkItem) (m : BackupManifest)
    (w : UploadWorld) :
    (finishUpload env fate items m w).2.stored = w.stored ∧
      (((finishUpload env fate items m w).2.localManifest =
            some (sealManifest env (mergeResults env items m)) ∧
          (finishUpload env fate items m w).2.published =
            some (sealManifest env (mergeResults env items m))) ∨
        (∃ e, (finishUpload env fate items m w).1 = .error e) ∧
          (finishUpload env fate items m w).2.localManifest = w.localManifest) := by
  unfold finishUpload
  cases fate.directories with
  | some e => exact ⟨rfl, Or.inr ⟨⟨e, rfl⟩, rfl⟩⟩
  | none =>
    cases fate.publish with
    | some e => exact ⟨rfl, Or.inr ⟨⟨e, rfl⟩, rfl⟩⟩
    | none =>
      cases fate.saveManifest with
      | some e => exact ⟨rfl, Or.inr ⟨⟨e, rfl⟩, rfl⟩⟩
      | none =>
        by_cases hrm : (env.useResume && fate.stateRemoved) = true
        · cases fate.afterwards <;> simp [hrm]
        · cases fate.afterwards <;> simp [hrm]

/-- An attempt that got as far as publishing and saving the manifest. -/
def Finished (env : UploadEnv) (m : BackupManifest) (w w' : UploadWorld) : Prop :=
  ∃ m' items, prepareManifest env m = .ok m' ∧
    planUpload env m' (acceptedKeys env w.stateFile) = .ok items ∧
    (∀ i ∈ items, i.writes env ⊆ w'.stored) ∧
    w'.localManifest = some (sealManifest env (mergeResults env items m')) ∧
    w'.published = some (sealManifest env (mergeResults env items m'))

/-- **What an attempt can leave behind.**  Stored keys stay.  Either the attempt finishes, or it
fails and the local manifest is the old one or the prepared one. -/
theorem uploadAttempt_cases (fate : UploadFate) {w : UploadWorld} {m : BackupManifest}
    (hm : w.localManifest = some m) :
    w.stored ⊆ (uploadAttempt env fate w).2.stored ∧
      (Finished env m w (uploadAttempt env fate w).2 ∨
        (∃ e, (uploadAttempt env fate w).1 = .error e) ∧
          ((uploadAttempt env fate w).2.localManifest = some m ∨
            ∃ m', prepareManifest env m = .ok m' ∧
              (uploadAttempt env fate w).2.localManifest = some m')) := by
  unfold uploadAttempt
  rw [hm]
  dsimp only
  cases hp : prepareManifest env m with
  | error e => exact ⟨fun _ h => h, Or.inr ⟨⟨e, rfl⟩, Or.inl hm⟩⟩
  | ok m' =>
    dsimp only
    cases hsave : env.diffFromRemote.bind fun _ => fate.saveDiff with
    | some e => exact ⟨fun _ h => h, Or.inr ⟨⟨e, rfl⟩, Or.inl hm⟩⟩
    | none =>
      dsimp only
      -- the world after the diff is saved
      set w₁ : UploadWorld :=
        if env.diffFromRemote.isSome then { w with localManifest := some m' } else w with hw₁
      have hstored : w₁.stored = w.stored := by rw [hw₁]; split_ifs <;> rfl
      have hstate : w₁.stateFile = w.stateFile := by rw [hw₁]; split_ifs <;> rfl
      have hlocal : w₁.localManifest = some m ∨
          ∃ m'', Except.ok (ε := Str) m' = .ok m'' ∧ w₁.localManifest = some m'' := by
        rw [hw₁]
        split_ifs
        · exact Or.inr ⟨m', rfl, rfl⟩
        · exact Or.inl hm
      rw [hstate]
      cases hplan : planUpload env m' (acceptedKeys env w.stateFile) with
      | error e =>
        dsimp only
        exact ⟨hstored ▸ fun _ h => h, Or.inr ⟨⟨e, rfl⟩, hlocal⟩⟩
      | ok items =>
        dsimp only
        obtain ⟨hs, hl, hw⟩ := @runTasks_spec env items fate
          (acceptedKeys env w.stateFile) w₁
        set w₂ := runTasks env items fate.schedule (acceptedKeys env w.stateFile) w₁ with hw₂
        rw [hstored] at hs
        rw [← hl] at hlocal
        cases htasks : tasksError items fate with
        | some e => exact ⟨hs, Or.inr ⟨⟨e, rfl⟩, hlocal⟩⟩
        | none =>
          have hwrites := hw htasks
          dsimp only
          obtain ⟨hst, hend⟩ := @finishUpload_cases env fate items m' w₂
          rw [← hst] at hs hwrites
          refine ⟨hs, ?_⟩
          rcases hend with ⟨hlm, hpub⟩ | ⟨herr, hlm⟩
          · exact Or.inl ⟨m', items, hp, hplan, hwrites, hlm, hpub⟩
          · rw [← hlm] at hlocal
            exact Or.inr ⟨herr, hlocal⟩

/-! ## What holds after any attempts -/

/-- A manifest as `create` leaves it: part names are distinct on each disk, and no part that is
not carried has a key. -/
structure Created (m : BackupManifest) : Prop where
  names : NamesDistinct m
  keys : ∀ x ∈ plannedParts m, x.2.2.isCarried = false → x.2.2.backupKey = []

/-- A part that is not carried has no key yet, or stands in its uploaded form and is stored. -/
def Recorded (env : UploadEnv) (m : BackupManifest) (stored : List (Str × Nat)) : Prop :=
  ∀ t d p, (t, d, p) ∈ plannedParts m → p.isCarried = false →
    p.backupKey = [] ∨ uploadedPart env m t d p = p ∧ PartStored m stored d p

/-- The local manifest is still on its way to the manifest of an uninterrupted upload. -/
structure Progress (env : UploadEnv) (m₀ m : BackupManifest) (stored : List (Str × Nat)) :
    Prop where
  names : NamesDistinct m
  recorded : Recorded env m stored
  same : ∀ m' final, prepareManifest env m = .ok m' → uninterruptedManifest env m₀ = .ok final →
    (sealManifest env (m'.mapParts (mergedParts env m' []))).SameUpToPartOrder final

theorem PartStored.mono {m : BackupManifest} {stored stored' : List (Str × Nat)} {d : Str}
    {p : PartInfo} (h : PartStored m stored d p) (hs : stored ⊆ stored') :
    PartStored m stored' d p :=
  ⟨hs h.1, fun hd o ho hz => hs (h.2 hd o ho hz)⟩

theorem PartStored.congr {m m' : BackupManifest} {stored : List (Str × Nat)} {d : Str}
    {p : PartInfo} (h : PartStored m stored d p) (ht : m.diskTypes = m'.diskTypes) :
    PartStored m' stored d p := by
  rw [PartStored, ← diskIsS3_congr ht]
  exact h

theorem Progress.mono {m₀ m : BackupManifest} {stored stored' : List (Str × Nat)}
    (h : Progress env m₀ m stored) (hs : stored ⊆ stored') : Progress env m₀ m stored' where
  names := h.names
  recorded t d p hx hc := (h.recorded t d p hx hc).imp_right fun h' => ⟨h'.1, h'.2.mono hs⟩
  same := h.same

theorem progress_created {m₀ : BackupManifest} (h : Created m₀) : Progress env m₀ m₀ [] where
  names := h.names
  recorded _ _ _ hx hc := Or.inl (h.keys _ hx hc)
  same m' final hm' hfinal := by
    rw [uninterruptedManifest, hm'] at hfinal
    cases hfinal
    exact ⟨rfl, SortedMap.rel_refl _ fun _ _ _ =>
      ⟨rfl, SortedMap.rel_refl _ fun _ _ _ => List.Perm.refl _⟩⟩

/-- Saving the prepared manifest is progress. -/
theorem Progress.prepared {m₀ m m' : BackupManifest} {stored : List (Str × Nat)}
    (h : Progress env m₀ m stored) (hp : prepareManifest env m = .ok m') :
    Progress env m₀ m' stored where
  names t mo d parts hd := by
    obtain ⟨parts', hd', hnames, -⟩ := onDisk_of_prepared hp hd
    rw [← hnames]
    exact h.names t mo d parts' hd'
  recorded t d p hx hc := by
    obtain ⟨parts, hd, hmem⟩ := mem_plannedParts.mp hx
    obtain ⟨parts', hd', -, hold⟩ := onDisk_of_prepared hp hd
    obtain ⟨htypes, hdisks⟩ := prepareManifest_disks hp
    rw [uploadedPart_congr htypes hdisks]
    refine (h.recorded t d p (mem_plannedParts.mpr ⟨parts', hd', hold p hmem hc⟩) hc).imp_right ?_
    exact fun h' => ⟨h'.1, h'.2.congr htypes.symm⟩
  same m'' final hm'' hfinal := by
    rw [prepareManifest_prepared hp hm'']
    exact h.same m' final hp hfinal

/-- A part after the merge: uploaded now, or as it was. -/
theorem mergedPart_cases (m : BackupManifest) (completedKeys : List Str) (t d : Str)
    (p : PartInfo) :
    (needsUpload env m completedKeys t d p = true ∧ p.isCarried = false ∧
        mergedPart env m completedKeys t d p = uploadedPart env m t d p) ∨
      mergedPart env m completedKeys t d p = p := by
  by_cases h : needsUpload env m completedKeys t d p = true
  · refine Or.inl ⟨h, ?_, if_pos h⟩
    rw [needsUpload, Bool.and_eq_true, Bool.not_eq_true'] at h
    exact h.1
  · exact Or.inr (if_neg h)

/-- Preparing and uploading what an attempt has merged gives what an uninterrupted upload of the
same manifest gives. -/
theorem mergedPart_settles (m : BackupManifest) (completedKeys : List Str) {t d : Str}
    {p : PartInfo} (hp : rediff env t d p = p) :
    mergedPart env m [] t d (rediff env t d (mergedPart env m completedKeys t d p)) =
      mergedPart env m [] t d p := by
  rcases @mergedPart_cases env m completedKeys t d p with ⟨-, hc, h⟩ | h
  · have hup : mergedPart env m [] t d (uploadedPart env m t d p) =
        uploadedPart env m t d (uploadedPart env m t d p) := by
      refine if_pos ?_
      rw [needsUpload, uploadedPart_isCarried]
      simp
    have hnow : mergedPart env m [] t d p = uploadedPart env m t d p := by
      refine if_pos ?_
      rw [needsUpload, hc]
      simp
    rw [h, rediff_uploadedPart hp hc, hup, hnow, uploadedPart_uploadedPart]
  · rw [h, hp]

theorem planUpload_stored {m : BackupManifest} {completedKeys : List Str}
    {items : List WorkItem} (h : planUpload env m completedKeys = .ok items)
    {stored : List (Str × Nat)} (hw : ∀ i ∈ items, i.writes env ⊆ stored) {t d : Str}
    {p : PartInfo} (hx : (t, d, p) ∈ plannedParts m)
    (hneed : needsUpload env m completedKeys t d p = true) :
    PartStored m stored d (uploadedPart env m t d p) := by
  unfold planUpload at h
  cases hp : planParts env m completedKeys (plannedParts m) with
  | error e =>
    rw [hp] at h
    cases h
  | ok planned =>
    rw [hp] at h
    obtain rfl : planned.filter WorkItem.isArchive ++ (planned.filter fun i => !i.isArchive) =
      items := Except.ok.inj h
    refine planParts_stored hp (fun i hi => hw i ?_) (t, d, p) hx hneed
    exact (List.filter_append_perm WorkItem.isArchive planned).mem_iff.mpr hi

/-- The disks of a published manifest are the merged disks, in some order. -/
theorem onDisk_published {m : BackupManifest} {completedKeys : List Str} {items : List WorkItem}
    (h : planUpload env m completedKeys = .ok items) (hn : NamesDistinct m) {t d : Str}
    {mo : Bool} {parts : List PartInfo}
    (hd : (sealManifest env (mergeResults env items m)).OnDisk t mo d parts) :
    ∃ parts', m.OnDisk t mo d parts' ∧
      parts.Perm (mergedParts env m completedKeys t mo d parts') := by
  obtain ⟨parts', ⟨table, ht, rfl, hd'⟩, rfl⟩ := (BackupManifest.onDisk_mapParts (m := m)
    (f := fun t _ d parts => mergeUploaded (uploadedOn env items t d) parts)).mp hd
  exact ⟨parts', ⟨table, ht, rfl, hd'⟩, planUpload_merge h ht hd' (hn t _ d parts' ⟨table, ht, rfl, hd'⟩)⟩

theorem mergedParts_congr {m m' : BackupManifest} (ht : m.diskTypes = m'.diskTypes)
    (hd : m.disks = m'.disks) : mergedParts env m [] = mergedParts env m' [] := by
  unfold mergedParts mergedPart needsUpload
  simp only [uploadedPart_congr ht hd, List.not_mem_nil]

/-- Publishing and saving the merged manifest is progress. -/
theorem Progress.published {m₀ m m' : BackupManifest} {completedKeys : List Str}
    {items : List WorkItem} {stored : List (Str × Nat)} (h : Progress env m₀ m stored)
    (hp : prepareManifest env m = .ok m') (hplan : planUpload env m' completedKeys = .ok items)
    (hw : ∀ i ∈ items, i.writes env ⊆ stored) :
    Progress env m₀ (sealManifest env (mergeResults env items m')) stored := by
  have h' := h.prepared hp
  refine ⟨fun t mo d parts hd => ?_, fun t d p hx hc => ?_, fun m'' final hm'' hfinal => ?_⟩
  · obtain ⟨parts', hd', hperm⟩ := onDisk_published hplan h'.names hd
    have hnames : (mergedParts env m' completedKeys t mo d parts').map PartInfo.name =
        parts'.map PartInfo.name := by
      unfold mergedParts
      split_ifs
      · rfl
      · rw [List.map_map]
        exact List.map_congr_left fun p _ => mergedPart_name m' completedKeys t d p
    rw [(hperm.map PartInfo.name).nodup_iff, hnames]
    exact h'.names t mo d parts' hd'
  · obtain ⟨parts, hd, hmem⟩ := mem_plannedParts.mp hx
    obtain ⟨parts', hd', hperm⟩ := onDisk_published hplan h'.names hd
    obtain ⟨q, hq, rfl⟩ := List.mem_map.mp (hperm.mem_iff.mp hmem)
    have hqx : (t, d, q) ∈ plannedParts m' := mem_plannedParts.mpr ⟨parts', hd', hq⟩
    have hup : uploadedPart env (sealManifest env (mergeResults env items m')) =
        uploadedPart env m' := uploadedPart_congr rfl rfl
    rw [hup]
    rcases @mergedPart_cases env m' completedKeys t d q with ⟨hneed, -, heq⟩ | heq
    · rw [heq]
      exact Or.inr ⟨uploadedPart_uploadedPart m' t d q,
        (planUpload_stored hplan hw hqx hneed).congr rfl⟩
    · rw [heq] at hc ⊢
      exact (h'.recorded t d q hqx hc).imp_right fun hr => ⟨hr.1, hr.2.congr rfl⟩
  · set merge : Str → Bool → Str → List PartInfo → List PartInfo :=
      fun t _ d parts => mergeUploaded (uploadedOn env items t d) parts with hmerge
    have heq := prepareManifest_mapParts (f := merge) hp hm''
    have hcongr : mergedParts env m'' [] = mergedParts env m' [] := by
      rw [heq]
      exact mergedParts_congr rfl rfl
    rw [hcongr, heq, BackupManifest.mapParts_mapParts, sealManifest_mapParts,
      BackupManifest.mapParts_mapParts]
    refine BackupManifest.SameUpToPartOrder.trans (sealManifest_same
      (BackupManifest.mapParts_same_iff.mpr ?_)) (h.same m' final hp hfinal)
    rintro t mo d parts hd
    have hperm : (merge t mo d parts).Perm (mergedParts env m' completedKeys t mo d parts) := by
      obtain ⟨table, ht, rfl, hd'⟩ := hd
      exact planUpload_merge hplan ht hd' (h'.names t _ d parts ⟨table, ht, rfl, hd'⟩)
    have hrediff := rediff_of_prepared hp hd
    cases mo with
    | true =>
      refine (hperm.map _).trans (List.Perm.of_eq ?_)
      exact (List.map_congr_left hrediff).trans (List.map_id _)
    | false =>
      refine ((hperm.map _).map _).trans (List.Perm.of_eq ?_)
      change ((parts.map _).map _).map _ = parts.map _
      rw [List.map_map, List.map_map]
      exact List.map_congr_left fun p hp => mergedPart_settles m' completedKeys (hrediff p hp)

/-- **One attempt is progress**, however it ends. -/
theorem Progress.attempt {m₀ m : BackupManifest} {w : UploadWorld} (fate : UploadFate)
    (hm : w.localManifest = some m) (h : Progress env m₀ m w.stored) :
    ∃ m', (uploadAttempt env fate w).2.localManifest = some m' ∧
      Progress env m₀ m' (uploadAttempt env fate w).2.stored := by
  obtain ⟨hs, hcases⟩ := @uploadAttempt_cases env fate _ _ hm
  have h' := h.mono hs
  rcases hcases with ⟨m', items, hp, hplan, hw, hlocal, -⟩ | ⟨-, hlocal | ⟨m', hp, hlocal⟩⟩
  · exact ⟨_, hlocal, h'.published hp hplan hw⟩
  · exact ⟨m, hlocal, h'⟩
  · exact ⟨m', hlocal, h'.prepared hp⟩

/-- **Any sequence of attempts is progress.** -/
theorem progress_runAttempts {m₀ m : BackupManifest} (fates : List UploadFate) {w : UploadWorld}
    (hm : w.localManifest = some m) (h : Progress env m₀ m w.stored) :
    ∃ m', (runAttempts env fates w).localManifest = some m' ∧
      Progress env m₀ m' (runAttempts env fates w).stored := by
  induction fates generalizing w m with
  | nil => exact ⟨m, hm, h⟩
  | cons fate fates ih =>
    obtain ⟨m', hm', h'⟩ := h.attempt fate hm
    exact ih hm' h'

/-! ## The last attempt -/

/-- The manifest that an attempt works on. -/
def UploadWorld.prepared (env : UploadEnv) (w : UploadWorld) : Option BackupManifest :=
  w.localManifest.bind fun m => (prepareManifest env m).toOption

/-- Every part that the attempt takes as completed has its key recorded in the local manifest. -/
def ResumesRecorded (env : UploadEnv) (w : UploadWorld) : Prop :=
  ∀ m ∈ w.prepared env, ∀ x ∈ plannedParts m, x.2.2.isCarried = false →
    partKey env m x.1 x.2.1 x.2.2 ∈ acceptedKeys env w.stateFile → x.2.2.backupKey ≠ []

/-- The published manifest is complete: it is the one of an uninterrupted upload, and the keys
of its own parts are written with the sizes it records. -/
def PublishedComplete (env : UploadEnv) (m₀ : BackupManifest) (w : UploadWorld) : Prop :=
  ∃ published final, w.published = some published ∧
    uninterruptedManifest env m₀ = .ok final ∧ published.SameUpToPartOrder final ∧
      ∀ t d p, (t, d, p) ∈ plannedParts published → p.isCarried = false →
        p.backupKey ≠ [] ∧ PartStored published w.stored d p

theorem uninterruptedManifest_ok {m m' : BackupManifest} (h : prepareManifest env m = .ok m')
    (m₀ : BackupManifest) : ∃ final, uninterruptedManifest env m₀ = .ok final := by
  unfold uninterruptedManifest
  unfold prepareManifest at h ⊢
  cases hdiff : env.diffFromRemote with
  | none => exact ⟨_, rfl⟩
  | some base =>
    cases hb : env.baseManifest with
    | error e =>
      rw [hdiff, hb] at h
      cases h
    | ok b => exact ⟨_, rfl⟩

theorem publishedComplete_iff {m₀ m : BackupManifest} {w w' : UploadWorld}
    (hm : w.localManifest = some m) (h : Progress env m₀ m w.stored)
    (hs : w.stored ⊆ w'.stored) (hf : Finished env m w w') :
    PublishedComplete env m₀ w' ↔ ResumesRecorded env w := by
  obtain ⟨m', items, hp, hplan, hw, -, hpub⟩ := hf
  have h' := h.prepared hp
  obtain ⟨final, hfinal⟩ := uninterruptedManifest_ok hp m₀
  have hprep : w.prepared env = some m' := by
    rw [UploadWorld.prepared, hm, Option.bind_some, hp]
    rfl
  have hsame := @sealManifest_same env _ _ (mergeResults_same hplan h'.names)
  -- among the parts that are not carried, the uploaded forms are those with a key
  have hkey : ∀ x ∈ plannedParts m', x.2.2.isCarried = false →
      (uploadedPart env m' x.1 x.2.1 x.2.2 = x.2.2 ↔ x.2.2.backupKey ≠ []) := by
    rintro ⟨t, d, p⟩ hx hc
    constructor
    · intro hup
      rw [← hup, uploadedPart_backupKey]
      exact partKey_ne_nil m' t d p
    · exact fun hne => ((h'.recorded t d p hx hc).resolve_left hne).1
  have hcond : ResumesRecorded env w ↔ ∀ x ∈ plannedParts m', x.2.2.isCarried = false →
      partKey env m' x.1 x.2.1 x.2.2 ∈ acceptedKeys env w.stateFile →
        uploadedPart env m' x.1 x.2.1 x.2.2 = x.2.2 := by
    unfold ResumesRecorded
    rw [hprep]
    constructor
    · exact fun hr x hx hc hk => (hkey x hx hc).mpr (hr m' rfl x hx hc hk)
    · rintro hr m'' hm'' x hx hc hk
      obtain rfl : m' = m'' := Option.some.inj hm''
      exact (hkey x hx hc).mp (hr x hx hc hk)
  rw [hcond, ← merged_same_iff h'.names]
  constructor
  · rintro ⟨published, final', hpub', hfinal', hsame', -⟩
    rw [hpub, Option.some.injEq] at hpub'
    rw [hfinal, Except.ok.injEq] at hfinal'
    subst hpub' hfinal'
    exact (hsame.symm.trans hsame').trans (h.same m' final hp hfinal).symm
  · intro hmerged
    refine ⟨_, final, hpub, hfinal, (hsame.trans hmerged).trans (h.same m' final hp hfinal), ?_⟩
    intro t d p hx hc
    have hrec := ((h.mono hs).published hp hplan hw).recorded t d p hx hc
    obtain ⟨parts, hd, hmem⟩ := mem_plannedParts.mp hx
    obtain ⟨parts', hd', hperm⟩ := onDisk_published hplan h'.names hd
    obtain ⟨q, hq, rfl⟩ := List.mem_map.mp (hperm.mem_iff.mp hmem)
    have hqx : (t, d, q) ∈ plannedParts m' := mem_plannedParts.mpr ⟨parts', hd', hq⟩
    have hne : (mergedPart env m' (acceptedKeys env w.stateFile) t d q).backupKey ≠ [] := by
      by_cases hneed : needsUpload env m' (acceptedKeys env w.stateFile) t d q = true
      · rw [mergedPart, if_pos hneed, uploadedPart_backupKey]
        exact partKey_ne_nil m' t d q
      · rw [mergedPart, if_neg hneed] at hc ⊢
        refine (hkey (t, d, q) hqx hc).mp ((merged_same_iff h'.names).mp hmerged (t, d, q) hqx hc ?_)
        rw [needsUpload, hc] at hneed
        simpa using hneed
    exact ⟨hne, (hrec.resolve_left hne).2⟩

/-- **Exactly when a resumed upload publishes a complete manifest.**  After any attempts on a
manifest that `create` made, an attempt that succeeds publishes the manifest of an uninterrupted
upload, up to the order of parts, with every key of its own parts written, if and only if the
local manifest records a key for every part that the attempt took as completed. -/
theorem resumed_upload_complete_iff (env : UploadEnv) (m₀ : BackupManifest) (hm₀ : Created m₀)
    (fates : List UploadFate) (last : UploadFate) (stats : UploadStats)
    (hok : (uploadAttempt env last (runAttempts env fates (.created m₀))).1 = .ok stats) :
    PublishedComplete env m₀
        (uploadAttempt env last (runAttempts env fates (.created m₀))).2 ↔
      ResumesRecorded env (runAttempts env fates (.created m₀)) := by
  obtain ⟨m, hm, h⟩ := @progress_runAttempts env m₀ m₀ fates (.created m₀) rfl
    (progress_created hm₀)
  obtain ⟨hs, hcases⟩ := @uploadAttempt_cases env last _ _ hm
  rcases hcases with hf | ⟨⟨e, he⟩, -⟩
  · exact publishedComplete_iff hm h hs hf
  · rw [he] at hok
    cases hok

/-- An upload that succeeds at once publishes a complete manifest: there is nothing to resume. -/
theorem uninterrupted_upload_publishes {m₀ : BackupManifest} (hm₀ : Created m₀)
    {fate : UploadFate} {stats : UploadStats}
    (hok : (uploadAttempt env fate (.created m₀)).1 = .ok stats) :
    PublishedComplete env m₀ (uploadAttempt env fate (.created m₀)).2 := by
  obtain ⟨hs, hcases⟩ := @uploadAttempt_cases env fate (.created m₀) _ rfl
  rcases hcases with hf | ⟨⟨e, he⟩, -⟩
  · refine (publishedComplete_iff rfl (progress_created hm₀) hs hf).mpr ?_
    intro m _ x _ _ hk
    have hnone : acceptedKeys env (UploadWorld.created m₀).stateFile = [] := by
      unfold acceptedKeys
      split_ifs <;> rfl
    rw [hnone] at hk
    exact absurd hk List.not_mem_nil
  · rw [he] at hok
    cases hok

/-! ## A part that is resumed -/

theorem namesDistinct_iff {m : BackupManifest} :
    NamesDistinct m ↔ ∀ t ∈ m.tables.entries, ∀ d ∈ t.2.parts.entries,
      (d.2.map PartInfo.name).Nodup := by
  constructor
  · exact fun h t ht d hd => h t.1 _ d.1 d.2 ⟨t.2, ht, rfl, hd⟩
  · rintro h t mo d parts ⟨table, ht, -, hd⟩
    exact h (t, table) ht (d, parts) hd

instance (env : UploadEnv) (w : UploadWorld) : Decidable (ResumesRecorded env w) :=
  inferInstanceAs (Decidable (∀ m ∈ w.prepared env, _))

/-- Two parts of one table, as `create` leaves them. -/
def twoPartManifest : BackupManifest :=
  { (default : BackupManifest) with
    name := "b"
    tables := ⟨[("d.t".toList,
      { (default : TableManifest) with
        engine := "MergeTree"
        parts := ⟨[("default".toList, [PartInfo.new "all_1_1_0" 10 1,
          PartInfo.new "all_2_2_0" 20 2])], by simp⟩ })], by simp⟩ }

/-- A plain upload with resuming enabled: every directory exists, every archive has size 5. -/
def plainUpload : UploadEnv where
  backupName := "b"
  backupDir := "/var/lib/clickhouse/backup/b"
  dataFormat := "lz4"
  useResume := true
  diffFromRemote := none
  baseManifest := .error []
  liveDiskPaths := none
  backupBucket := "backups"
  pathExists := fun _ => true
  isAlphanumeric := Char.isAlphanum
  archiveSize := fun _ => 5

/-- An attempt in which nothing but its tasks can go wrong. -/
def taskFate (schedule : List (Nat × TaskEnd)) (h : (schedule.map Prod.fst).Nodup) :
    UploadFate where
  saveDiff := none
  schedule := schedule
  nodup := h
  cancelled := false
  directories := none
  publish := none
  saveManifest := none
  stateRemoved := true
  afterwards := none

/-- The first part is uploaded, and recorded if the state file can be written; the second
fails. -/
def firstAttempt (saved : Bool) : UploadFate :=
  taskFate [(0, .done saved), (1, .failed "timeout")] (by simp)

theorem created_twoPartManifest : Created twoPartManifest :=
  ⟨namesDistinct_iff.mpr (by decide +kernel), by decide +kernel⟩

/-- Nothing was recorded, so both parts are uploaded again, and the manifest is complete. -/
theorem unrecorded_attempt_is_repeated :
    PublishedComplete plainUpload twoPartManifest (uploadAttempt plainUpload
      (taskFate [(1, .done true), (0, .done true)] (by decide))
      (runAttempts plainUpload [firstAttempt false] (.created twoPartManifest))).2 :=
  (resumed_upload_complete_iff plainUpload twoPartManifest created_twoPartManifest
    [firstAttempt false] (taskFate [(1, .done true), (0, .done true)] (by decide)) ⟨2, 0, 10⟩
    (by decide +kernel)).mpr (by decide +kernel)

/-- **A resumed part loses its key.**  The first attempt uploads one of two parts and records it;
the second uploads the other, succeeds, and publishes the first part with an empty key. -/
theorem resumed_upload_loses_key :
    Created twoPartManifest ∧
      (uploadAttempt plainUpload (taskFate [(0, .done true)] (by decide))
        (runAttempts plainUpload [firstAttempt true] (.created twoPartManifest))).1 =
          .ok ⟨1, 0, 5⟩ ∧
      ¬PublishedComplete plainUpload twoPartManifest
        (uploadAttempt plainUpload (taskFate [(0, .done true)] (by decide))
          (runAttempts plainUpload [firstAttempt true] (.created twoPartManifest))).2 := by
  refine ⟨created_twoPartManifest, by decide +kernel, ?_⟩
  rintro ⟨published, final, hpub, -, -, hkeys⟩
  have hempty : ∃ x ∈ ((uploadAttempt plainUpload (taskFate [(0, .done true)] (by decide))
      (runAttempts plainUpload [firstAttempt true] (.created twoPartManifest))).2.published.map
        plannedParts).getD [], x.2.2.isCarried = false ∧ x.2.2.backupKey = [] := by
    decide +kernel
  rw [hpub] at hempty
  obtain ⟨x, hx, hc, hk⟩ := hempty
  exact (hkeys x.1 x.2.1 x.2.2 hx hc).1 hk

end Chbackup
