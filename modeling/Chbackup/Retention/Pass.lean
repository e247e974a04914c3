import Chbackup.Listing.Remote

/-!
# The retention pass

Deletion of the oldest remote backups (`src/list.rs`).  `retentionRemoteInner` is the pass with
its three store operations injected; `retentionRemote` hands it the real ones.

A candidate for deletion is kept in two cases: a survivor names it as an incremental base, or
some key under it is still protected by a survivor's manifest.  Otherwise all its keys go, the
manifest last.
-/

namespace Chbackup

open CallTree

/-- `collect_key_prefixes_from_manifest`: everything a manifest refers to.  An entry that ends
in `/` stands for every key below it. -/
def collectKeyPrefixesFromManifest (m : BackupManifest) : List Str :=
  (m.allParts.flatMap fun p =>
    p.backupKey :: (p.s3Objects.getD []).map S3ObjectInfo.backupKey).filter (· ≠ [])

/-- `is_key_protected`. -/
def isKeyProtected (relativeKey : Str) (protectedKeys : List Str) : Bool :=
  relativeKey ∈ protectedKeys ||
    protectedKeys.any fun entry => ['/'].isSuffixOf entry && entry.isPrefixOf relativeKey

/-- Which backups a retention pass should delete, and which it keeps, oldest first. -/
structure RetentionPlan where
  toDelete : List Str
  surviving : List Str
  deriving DecidableEq

/-- `plan_retention_deletions`. -/
def planRetentionDeletions (summaries : List BackupSummary) (keep : Nat) : RetentionPlan :=
  let valid := (summaries.filter fun s => !s.isBroken).insertionSort
    fun a b => a.timestamp ≤ b.timestamp
  { toDelete := (valid.take (valid.length - keep)).map BackupSummary.name
    surviving := (valid.drop (valid.length - keep)).map BackupSummary.name }

/-- `collect_incremental_bases`: the backups a manifest names directly as its base. -/
def collectIncrementalBases (m : BackupManifest) : List Str :=
  m.allParts.filterMap PartInfo.carriedBase?

/-- What a retention pass did to the backups it was asked to delete. -/
structure RetentionOutcome where
  deleted : List Str
  skipped : List Str
  deriving DecidableEq

/-- What becomes of one candidate: deleted, deliberately kept, or left by a failed request. -/
inductive CandidateFate where
  | deleted
  | skipped
  | failed
  deriving DecidableEq

section Inner

variable {C : Type} {R : C → Type} (fetchManifest : Str → Prog C R Str BackupManifest)
  (listPrefix : Str → Prog C R Str (List Str)) (deleteKeys : List Str → Prog C R Str Unit)

/-- The body of the deletion loop of `retention_remote_inner`. -/
def retireCandidate (protectedKeys incrementalBases : List Str) (name : Str) :
    Prog C R Str CandidateFate :=
  if name ∈ incrementalBases then .ret .skipped
  else
    (listPrefix (backupDir name)).attempt.bind fun
    | .error _ => .ret .failed
    | .ok [] => .ret .failed
    | .ok (k :: ks) =>
      let others := (k :: ks).filter fun key => key ≠ manifestKey name
      let dataKeys := others.filter fun key => !isKeyProtected key protectedKeys
      let protectedCount := (others.filter fun key => isKeyProtected key protectedKeys).length
      if protectedCount > 0 then .ret .skipped
      else
        (deleteKeys dataKeys).attempt.bind fun
        | .error _ => .ret .failed
        | .ok () =>
          -- manifest last
          (deleteKeys [manifestKey name]).attempt.bind fun
          | .error _ => .ret .failed
          | .ok () => .ret .deleted

/-- The error that ends a pass whose survivor cannot be read. -/
def retentionAborted (name cause : Str) : Str :=
  "retention aborted before deleting anything: cannot read the manifest of surviving backup '" ++
    name ++ "', so its keys cannot be protected: " ++ cause

/-- `retention_remote_inner`: protect what the survivors refer to, then take the candidates one
by one.  An unreadable survivor ends the pass before anything is deleted. -/
def retentionRemoteInner (plan : RetentionPlan) : Prog C R Str RetentionOutcome :=
  (Prog.forEach plan.surviving fun name =>
      (fetchManifest name).mapError (retentionAborted name)).bind fun manifests =>
    let protectedKeys := manifests.flatMap collectKeyPrefixesFromManifest
    let incrementalBases := manifests.flatMap collectIncrementalBases
    (Prog.forEach plan.toDelete fun name =>
        (retireCandidate listPrefix deleteKeys protectedKeys incrementalBases name).bind
          fun fate => .ret (name, fate)).bind fun fates =>
      .ret
        { deleted := (fates.filter fun f => f.2 = .deleted).map Prod.fst
          skipped := (fates.filter fun f => f.2 = .skipped).map Prod.fst }

end Inner

/-- The `fetch_manifest` operation of `retention_remote`. -/
def fetchManifest (name : Str) : S3Prog BackupManifest :=
  (getObject (manifestKey name)).bind fun data => .ofExcept (fromJsonBytes data)

/-- The `list_prefix` operation of `retention_remote`. -/
def listPrefix (pre : Str) : S3Prog (List Str) :=
  (listObjects pre).bind fun objects => .ret (objects.map StoredObject.key)

/-- The `delete_keys` operation of `retention_remote`: keys that failed inside a batch are left
for the next pass. -/
def deleteKeys (keys : List Str) : S3Prog Unit := (deleteObjects keys).bind fun _ => .ret ()

/-- `retention_remote`: the number of deleted backups. -/
def retentionRemote (keep : Int) : S3Prog Nat :=
  if keep ≤ 0 then .ret 0
  else
    listRemote.bind fun backups =>
      let plan := planRetentionDeletions backups keep.toNat
      if plan.toDelete = [] then .ret 0
      else
        (retentionRemoteInner fetchManifest listPrefix deleteKeys plan).bind fun outcome =>
          .ret outcome.deleted.length

/-! ## References and keys -/

/-- The keys an entry of a manifest stands for: itself, and everything below it if it is a
directory. -/
def Denotes (entry key : Str) : Prop := key = entry ∨ ['/'] <:+ entry ∧ entry <+: key

instance (entry key : Str) : Decidable (Denotes entry key) :=
  inferInstanceAs (Decidable (_ ∨ _))

/-- **Protection is denotation.** -/
theorem isKeyProtected_iff {key : Str} {protectedKeys : List Str} :
    isKeyProtected key protectedKeys = true ↔ ∃ e ∈ protectedKeys, Denotes e key := by
  simp only [isKeyProtected, Bool.or_eq_true, decide_eq_true_eq, List.any_eq_true,
    Bool.and_eq_true, List.isSuffixOf_iff_suffix, List.isPrefixOf_iff_prefix, Denotes]
  constructor
  · rintro (h | ⟨e, he, h⟩)
    · exact ⟨key, h, Or.inl rfl⟩
    · exact ⟨e, he, Or.inr h⟩
  · rintro ⟨e, he, rfl | h⟩
    · exact Or.inl he
    · exact Or.inr ⟨e, he, h⟩

/-! ## The plan -/

/-- The plan divides the healthy backups. -/
theorem mem_plan_iff {summaries : List BackupSummary} {keep : Nat} {n : Str} :
    n ∈ (planRetentionDeletions summaries keep).toDelete ∨
        n ∈ (planRetentionDeletions summaries keep).surviving ↔
      ∃ s ∈ summaries, s.isBroken = false ∧ s.name = n := by
  simp only [planRetentionDeletions]
  rw [← List.mem_append, ← List.map_append, List.take_append_drop, List.mem_map]
  simp only [List.mem_insertionSort, List.mem_filter, Bool.not_eq_true', and_assoc]

/-- The plan names a backup once. -/
theorem plan_nodup {summaries : List BackupSummary} (keep : Nat)
    (h : (summaries.map BackupSummary.name).Nodup) :
    ((planRetentionDeletions summaries keep).toDelete ++
      (planRetentionDeletions summaries keep).surviving).Nodup := by
  simp only [planRetentionDeletions]
  rw [← List.map_append, List.take_append_drop]
  have hp := List.perm_insertionSort (fun a b : BackupSummary => a.timestamp ≤ b.timestamp)
    (summaries.filter fun s => !s.isBroken)
  exact ((hp.map _).nodup_iff).mpr (h.sublist (List.filter_sublist.map _))

/-- No backup is both planned for deletion and kept. -/
theorem plan_disjoint {summaries : List BackupSummary} (keep : Nat)
    (h : (summaries.map BackupSummary.name).Nodup) {n : Str}
    (hd : n ∈ (planRetentionDeletions summaries keep).toDelete) :
    n ∉ (planRetentionDeletions summaries keep).surviving :=
  fun hs => (List.nodup_append.mp (plan_nodup keep h)).2.2 n hd n hs rfl

end Chbackup
