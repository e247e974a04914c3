import Chbackup.Download.Complete
import Chbackup.Lib.Contracts
import Chbackup.Lib.Guarantee

/-!
# The progress of a download

What happens to the completed keys in the state file over the attempts to download one backup.  The
workers of an attempt only add keys.  But before they start, the attempt saves the map of the disks in
the same file, with no completed keys; an attempt that dies before its first part is complete leaves
a state file from which the next one learns nothing.

* `progress_kept`: over attempts that save the map of the disks only when no key is recorded, and that
  return once they have deleted the state, no key is lost, and no attempt asks again for a part whose key
  was recorded.
* `progress_lost`: a backup with a disk loses the progress of an attempt in the next one.
-/

namespace Chbackup

open CallTree

/-! ## The calls of the workers -/

/-- The calls of a download besides those that load, save, share or delete its state. -/
def isWork : DownloadCall → Bool
  | .loadState _ | .saveState _ _ | .shareState _ | .deleteState _ => false
  | _ => true

/-- The directories that are downloaded beside the parts. -/
def DownloadEnv.simpleDirs (env : DownloadEnv) : List Str :=
  ["access", "configs"].map fun dir : Str => env.backupName ++ "/" ++ dir ++ "/"

/-- The call is not for a part with one of the keys: it lists, fetches and unpacks something else, and what it
links or makes is the directory of a part with another key. -/
def Avoids (env : DownloadEnv) (m : BackupManifest) (keys : List Str) : DownloadCall → Prop
  | .listObjects dir => dir ∈ env.simpleDirs ∨ dir ∉ keys
  | .fetchArchive key _ | .unpack _ key _ => key ∉ keys
  | .hardlink _ place | .createPartDir place | .writeMetadata place _ =>
    ∃ x ∈ listedParts m, env.partPlace m x = place ∧ x.2.2.backupKey ∉ keys
  | _ => True

theorem Avoids.of_subset {env : DownloadEnv} {m : BackupManifest} {keys keys' : List Str} {c : DownloadCall}
    (h : Avoids env m keys c) (hsub : keys' ⊆ keys) : Avoids env m keys' c := by
  have hnot : ∀ key, key ∉ keys → key ∉ keys' := fun key hkey hmem => hkey (hsub hmem)
  have hplace : ∀ place, (∃ x ∈ listedParts m, env.partPlace m x = place ∧ x.2.2.backupKey ∉ keys) →
      ∃ x ∈ listedParts m, env.partPlace m x = place ∧ x.2.2.backupKey ∉ keys' := by
    rintro place ⟨x, hx, hat, hkey⟩
    exact ⟨x, hx, hat, hnot _ hkey⟩
  cases c with
  | listObjects dir => exact h.imp_right (hnot dir)
  | fetchArchive key place => exact hnot key h
  | unpack place key format => exact hnot key h
  | hardlink existing place => exact hplace place h
  | createPartDir place => exact hplace place h
  | writeMetadata place file => exact hplace place h
  | _ => trivial

/-- A program that leaves the state to the command. -/
abbrev Works {ε α : Type} (p : DownloadProg ε α) : Prop := Within (fun c => isWork c = true) (fun _ => True) p

/-- A program that also leaves the parts with some keys alone. -/
abbrev Spares (env : DownloadEnv) (m : BackupManifest) (keys : List Str) {ε α : Type} (p : DownloadProg ε α) : Prop :=
  Within (fun c => isWork c = true ∧ Avoids env m keys c) (fun _ => True) p

section Works

variable {env : DownloadEnv} {m : BackupManifest} {keys : List Str} {x : ManifestPart} {xs : List ManifestPart}

open DownloadEnv

theorem works_of_spares (env : DownloadEnv) (m : BackupManifest) (keys : List Str) {ε α : Type} {p : DownloadProg ε α}
    (h : Spares env m keys p) : Works p := h.weaken fun _ hc => hc.1

theorem within_callOrFail {K : DownloadCall → Prop} {c : DownloadCall} {α : Type} {f : c.Reply → Except Str α}
    (h : K c) : Within K (fun _ => True) (callOrFail c f) := by
  refine within_perform h fun r => ?_
  cases f r with
  | ok a => exact within_ret trivial
  | error e => exact within_fail e

theorem spares_forEach {α β : Type} {xs : List α} {f : α → DownloadProg Str β}
    (h : ∀ x ∈ xs, Spares env m keys (f x)) : Spares env m keys (Prog.forEach xs f) :=
  (within_forEach (Q := fun _ _ => True) h).imp fun _ _ => trivial

theorem spares_checkSpace : Spares env m keys (env.checkSpace m) := by
  rw [checkSpace]
  refine Within.bind (spares_forEach fun d _ => ?_) fun _ _ => within_ret trivial
  split_ifs
  · exact within_ret trivial
  · exact within_callOrFail ⟨rfl, trivial⟩

theorem spares_record {part : PartInfo} : Spares env m keys (env.record part) := by
  rw [record]
  split_ifs
  · exact within_perform ⟨rfl, trivial⟩ fun _ => within_ret trivial
  · exact within_ret trivial

theorem spares_downloadS3Part (hx : x ∈ listedParts m) (hkey : x.2.2.backupKey ∉ keys) :
    Spares env m keys (env.downloadS3Part m (downloadItem m x)) := by
  rw [downloadS3Part]
  refine Within.bind (within_callOrFail ⟨rfl, .inr hkey⟩) fun objects _ => ?_
  refine Within.bind (within_callOrFail ⟨rfl, x, hx, rfl, hkey⟩) fun _ _ => ?_
  refine (spares_forEach fun object _ => ?_).bind fun _ _ => spares_record
  rw [downloadMetadata]
  dsimp only
  split_ifs
  · exact within_ret trivial
  · exact Within.bind (within_callOrFail ⟨rfl, trivial⟩) fun _ _ => within_ret trivial
  · exact Within.bind (within_callOrFail ⟨rfl, trivial⟩) fun _ _ => within_callOrFail ⟨rfl, x, hx, rfl, hkey⟩

theorem spares_downloadTries {place : Place} {part : PartInfo} {format : Str} (hkey : part.backupKey ∉ keys)
    (attempts : Nat) (lastError : Option Str) :
    Spares env m keys (env.downloadTries place part format attempts lastError) := by
  induction attempts generalizing lastError with
  | zero => exact within_fail _
  | succ attempts ih =>
    rw [downloadTries]
    refine Within.bind (within_callOrFail ⟨rfl, hkey⟩) fun _ _ => ?_
    refine within_perform ⟨rfl, hkey⟩ fun unpacked => within_perform ⟨rfl, trivial⟩ fun _ => ?_
    cases unpacked.1 with
    | error e => exact within_fail e
    | ok _ =>
      change Spares env m keys (if part.checksumCrc64 = 0 then env.record part else _)
      split_ifs
      · exact spares_record
      · refine Within.bind (within_callOrFail ⟨rfl, trivial⟩) fun found _ => ?_
        cases found with
        | none => exact within_perform ⟨rfl, trivial⟩ fun _ => ih _
        | some actual =>
          dsimp only
          split_ifs
          · exact spares_record
          · exact within_perform ⟨rfl, trivial⟩ fun _ => ih _

theorem spares_downloadLocalPart (hx : x ∈ listedParts m) (hkey : x.2.2.backupKey ∉ keys) :
    Spares env m keys (env.downloadLocalPart m (downloadItem m x)) := by
  rw [downloadLocalPart]
  refine Within.bind (within_callOrFail ⟨rfl, trivial⟩) fun _ _ => ?_
  have hdedup : Spares env m keys (env.dedupPart m (downloadItem m x) (env.partPlace m x)) := by
    rw [dedupPart]
    split_ifs
    · split
      · exact within_perform ⟨rfl, x, hx, rfl, hkey⟩ fun _ => within_ret trivial
      · exact within_ret trivial
    · exact within_ret trivial
  refine hdedup.bind fun linked _ => ?_
  split
  · exact spares_record
  · exact spares_downloadTries hkey _ _

theorem spares_cancellable {p : DownloadProg Empty (Except Str Unit)} (h : Spares env m keys p) :
    Spares env m keys (cancellable p) := by
  induction p with
  | ret a => exact within_ret trivial
  | fail e => exact within_fail e
  | call c k ih =>
    refine within_call ⟨rfl, trivial⟩ fun cancelled => ?_
    split
    · exact within_ret trivial
    · exact within_call h.of_call.1 fun r => ih r (h.of_call.2 r)

theorem spares_partTask (hx : x ∈ listedParts m) (hkey : x.2.2.backupKey ∉ keys) :
    Spares env m keys (env.partTask m (downloadItem m x)) := by
  have hprogram : Spares env m keys (if (downloadItem m x).isS3DiskPart = true
      then env.downloadS3Part m (downloadItem m x) else env.downloadLocalPart m (downloadItem m x)) := by
    split
    · exact spares_downloadS3Part hx hkey
    · exact spares_downloadLocalPart hx hkey
  exact spares_cancellable (hprogram.attempt.imp fun _ _ => trivial)

theorem spares_downloadSimpleDirectory {dir : Str} (hdir : env.backupName ++ "/" ++ dir ++ "/" ∈ env.simpleDirs) :
    Spares env m keys (env.downloadSimpleDirectory dir) := by
  rw [downloadSimpleDirectory]
  refine Within.bind (within_callOrFail ⟨rfl, .inl hdir⟩) fun objects _ => ?_
  split_ifs
  · exact within_ret trivial
  refine Within.bind (within_callOrFail ⟨rfl, trivial⟩) fun _ _ => ?_
  refine (spares_forEach fun object _ => ?_).bind fun _ _ => within_ret trivial
  generalize env.retriesOnFailure + 1 = attempts
  induction attempts with
  | zero => exact within_fail _
  | succ attempts ih =>
    rw [downloadSimpleFile]
    refine within_perform ⟨rfl, trivial⟩ fun fetched => ?_
    cases fetched with
    | ok _ => exact within_callOrFail ⟨rfl, trivial⟩
    | error e =>
      dsimp only
      split_ifs
      · exact within_fail e
      · exact ih

/-- The parts that an attempt fetches, once their state is shared. -/
theorem spares_par {schedule : List Nat} : Spares env m keys
    (Prog.par schedule ((downloadWorkItems m keys).map (env.partTask m)) : DownloadProg Str _) := by
  rw [downloadWorkItems_eq, List.map_map]
  have htasks : List.Forall₂ (fun (_ : ManifestPart) => Within
      (fun c => isWork c = true ∧ Avoids env m keys c) fun (_ : Except Str Unit) => True)
      (fetchedParts m keys) ((fetchedParts m keys).map (env.partTask m ∘ downloadItem m)) := by
    refine List.forall₂_map_right_iff.mpr (List.forall₂_same.mpr fun x hx => ?_)
    have hfetched := List.of_mem_filter hx
    rw [Bool.and_eq_true, decide_eq_true_eq, decide_eq_true_eq] at hfetched
    exact spares_partTask (mem_listedParts_of_mem_fetchedParts hx) hfetched.2
  exact (within_par htasks).imp fun _ _ => trivial

theorem spares_joined {results : List (Except Str Unit)} :
    Spares env m keys ((Prog.ofExcept (joinResults results)).bind fun _ =>
      (Prog.perform .isCancelled).bind fun cancelled =>
        if cancelled then .fail "download cancelled" else .ret () : DownloadProg Str Unit) := by
  refine Within.bind (Q := fun _ => True) ?_ fun _ _ => within_perform ⟨rfl, trivial⟩ fun cancelled => ?_
  · cases joinResults results with
    | ok _ => exact within_ret trivial
    | error e => exact within_fail e
  · split
    · exact within_fail _
    · exact within_ret trivial

theorem spares_saveTableMetadata {tableKey : Str} : Spares env m keys (env.saveTableMetadata tableKey) := by
  rw [saveTableMetadata]
  exact Within.bind (within_callOrFail ⟨rfl, trivial⟩) fun _ _ => within_callOrFail ⟨rfl, trivial⟩

theorem spares_rbac {rbac : Bool} :
    Spares env m keys (if rbac = true then env.downloadSimpleDirectory "access" else .ret ()) := by
  split_ifs
  · exact spares_downloadSimpleDirectory List.mem_cons_self
  · exact within_ret trivial

theorem spares_configs : Spares env m keys (env.downloadSimpleDirectory "configs") :=
  spares_downloadSimpleDirectory (List.mem_cons_of_mem _ List.mem_cons_self)

/-- The calls after the completed keys have been read. -/
theorem avoids_rest (keys : List Str) {rbac : Bool} : Within (Avoids env m keys) (fun _ => True)
    ((env.saveDiskMap m).bind fun _ => (env.downloadParts m keys).bind fun _ =>
      (env.finishDownload m rbac).bind fun _ => .ret env.backupDir : DownloadProg Str Str) := by
  have hspares : ∀ {α : Type} {p : DownloadProg Str α}, Spares env m keys p →
      Within (Avoids env m keys) (fun _ => True) p := fun hp => hp.weaken fun _ hc => hc.2
  refine Within.bind (Q := fun _ => True) ?_ fun _ _ => Within.bind (Q := fun _ => True) ?_ fun _ _ =>
    Within.bind (Q := fun _ => True) ?_ fun _ _ => within_ret trivial
  · rw [saveDiskMap]
    split_ifs
    · exact within_ret trivial
    · exact within_perform trivial fun _ => within_ret trivial
  · rw [downloadParts]
    refine Within.bind (Q := fun _ => True) ?_ fun _ _ => hspares (spares_par.bind fun _ _ => spares_joined)
    split_ifs
    · exact within_call trivial fun _ => within_ret trivial
    · exact within_ret trivial
  · rw [finishDownload]
    refine (hspares spares_rbac).bind fun _ _ => (hspares spares_configs).bind fun _ _ => ?_
    refine (hspares (spares_forEach fun _ _ => spares_saveTableMetadata)).bind fun _ _ => ?_
    refine Within.bind (within_callOrFail trivial) fun _ _ => ?_
    split_ifs
    · exact within_perform trivial fun _ => within_ret trivial
    · exact within_ret trivial

end Works

/-! ## The recorded keys -/

section Recorded

variable {env : DownloadEnv} {remote : RemoteBackup} {m : BackupManifest} {s : DownloadDisk}
  {ev : DownloadEvent} {L : DownloadEvent → Prop}

open DownloadEnv World

/-- No recorded key is lost. -/
def KeepsRecorded (env : DownloadEnv) (s s' : DownloadDisk) : Prop :=
  recordedKeys env s.stateFile ⊆ recordedKeys env s'.stateFile

/-- The tasks share the recorded keys, and perhaps more. -/
def SharesRecorded (env : DownloadEnv) (s : DownloadDisk) : Prop :=
  ∃ state, s.shared = some state ∧ state.paramsHash = env.paramsHash ∧
    state.backupName = env.backupName ∧ recordedKeys env s.stateFile ⊆ state.completedKeys

/-- The map of the disks is not written over recorded keys, and the state is not deleted. -/
def Undisturbed (recorded : List Str) : DownloadEvent → Prop
  | ⟨.saveState _ _, saved⟩ => saved = true → recorded = []
  | ⟨.deleteState _, _⟩ => False
  | _ => True

theorem recordedKeys_holds (hresume : env.useResume = true) {state : DownloadState}
    (hhash : state.paramsHash = env.paramsHash) (hname : state.backupName = env.backupName) :
    recordedKeys env (.holds state) = state.completedKeys := by
  rw [recordedKeys, if_pos hresume, loadStateFile, completedKeys, if_neg (not_not.mpr hhash),
    if_neg (not_not.mpr hname)]

theorem stateFile_next :
    ((diskWorld env remote).next s ev).stateFile = (filesAfter s ev).stateFile := by
  dsimp only [diskWorld]
  split <;> rfl

theorem shared_next : ((diskWorld env remote).next s ev).shared = (filesAfter s ev).shared := by
  dsimp only [diskWorld]
  split <;> rfl

/-- Work leaves the state file and the shared state as they are, but for the keys that are recorded. -/
theorem filesAfter_of_work (hwork : isWork ev.1 = true) :
    (∃ path key, ev.1 = .recordKey path key) ∨
      (filesAfter s ev).stateFile = s.stateFile ∧ (filesAfter s ev).shared = s.shared := by
  obtain ⟨c, r⟩ := ev
  cases c with
  | recordKey path key => exact .inl ⟨path, key, rfl⟩
  | loadState path => cases hwork
  | saveState path state => cases hwork
  | shareState state => cases hwork
  | deleteState path => cases hwork
  | saveManifest path m => cases r <;> exact .inr ⟨rfl, rfl⟩
  | _ => exact .inr ⟨rfl, rfl⟩

/-- Before the state is shared, work leaves both as they are. -/
theorem files_of_work (hshared : s.shared = none) (hwork : isWork ev.1 = true) :
    (filesAfter s ev).stateFile = s.stateFile ∧ (filesAfter s ev).shared = s.shared := by
  rcases filesAfter_of_work hwork with ⟨path, key, hc⟩ | h
  · obtain ⟨c, r⟩ := ev
    dsimp only at hc
    subst hc
    rw [filesAfter, hshared]
    exact ⟨rfl, hshared⟩
  · exact h

/-- Before the state is shared, work changes no key. -/
theorem guarantees_of_works {ε α : Type} {p : DownloadProg ε α} (hp : Works p)
    (hshared : s.shared = none) :
    (diskWorld env remote).Guarantees L (KeepsRecorded env) s p fun _ s' =>
      s'.stateFile = s.stateFile ∧ s'.shared = none := by
  refine (guarantees_of_within (I := fun s' => s'.stateFile = s.stateFile ∧ s'.shared = none) hp
    ⟨rfl, hshared⟩ fun s' ev hI hwork _ _ => ?_).imp fun _ _ h => h.1
  obtain ⟨hfile, hnone⟩ := files_of_work hI.2 hwork
  refine ⟨?_, ?_, ?_⟩
  · rw [KeepsRecorded, stateFile_next, hfile]
    exact List.Subset.refl _
  · rw [stateFile_next, hfile, hI.1]
  · rw [shared_next, hnone, hI.2]

/-- A recorded key is added to those that are shared. -/
theorem sharesRecorded_next (hresume : env.useResume = true) (hs : SharesRecorded env s)
    (hwork : isWork ev.1 = true) :
    KeepsRecorded env s ((diskWorld env remote).next s ev) ∧
      SharesRecorded env ((diskWorld env remote).next s ev) := by
  obtain ⟨state, hstate, hhash, hname, hsub⟩ := hs
  rw [KeepsRecorded, SharesRecorded, stateFile_next, shared_next]
  rcases filesAfter_of_work hwork with ⟨path, key, hc⟩ | ⟨hfile, hshared⟩
  · obtain ⟨c, saved⟩ := ev
    dsimp only at hc
    subst hc
    rw [filesAfter, hstate]
    dsimp only
    have hmore : recordedKeys env s.stateFile ⊆ key :: state.completedKeys :=
      List.Subset.trans hsub (List.subset_cons_self _ _)
    split_ifs with hsaved
    · rw [@recordedKeys_holds env hresume { state with completedKeys := key :: state.completedKeys }
        hhash hname]
      exact ⟨hmore, _, rfl, hhash, hname, List.Subset.refl _⟩
    · exact ⟨List.Subset.refl _, _, rfl, hhash, hname, hmore⟩
  · rw [hfile, hshared]
    exact ⟨List.Subset.refl _, state, hstate, hhash, hname, hsub⟩

/-- Work on a shared state loses no key. -/
theorem guarantees_of_works_shared {ε α : Type} {p : DownloadProg ε α}
    (hresume : env.useResume = true) (hp : Works p) (hs : SharesRecorded env s) :
    (diskWorld env remote).Guarantees L (KeepsRecorded env) s p fun _ s' => SharesRecorded env s' :=
  (guarantees_of_within (I := SharesRecorded env) hp hs fun _ _ hI hwork _ _ =>
    sharesRecorded_next hresume hI hwork).imp fun _ _ h => h.1

theorem guarantees_saveDiskMap (hshared : s.shared = none) :
    (diskWorld env remote).Guarantees (Undisturbed (recordedKeys env s.stateFile)) (KeepsRecorded env)
      s (env.saveDiskMap m) fun _ s' =>
        s'.shared = none ∧ recordedKeys env s'.stateFile ⊆ recordedKeys env s.stateFile := by
  rw [saveDiskMap]
  split_ifs
  · exact guarantees_ret ⟨hshared, List.Subset.refl _⟩
  refine guarantees_perform fun saved _ hsaved => ?_
  cases saved with
  | true =>
    have hnothing : recordedKeys env s.stateFile = [] := hsaved rfl
    refine ⟨?_, guarantees_ret ⟨hshared, ?_⟩⟩
    · rw [KeepsRecorded, hnothing]
      exact List.nil_subset _
    · show recordedKeys env (.holds (env.stateWith m [])) ⊆ _
      by_cases hresume : env.useResume = true
      · rw [recordedKeys_holds hresume rfl rfl]
        exact List.nil_subset _
      · rw [recordedKeys, if_neg hresume]
        exact List.nil_subset _
  | false => exact ⟨List.Subset.refl _, guarantees_ret ⟨hshared, List.Subset.refl _⟩⟩

theorem guarantees_downloadParts (hresume : env.useResume = true) {completedKeys : List Str}
    (hkeys : recordedKeys env s.stateFile ⊆ completedKeys) :
    (diskWorld env remote).Guarantees L (KeepsRecorded env) s (env.downloadParts m completedKeys)
      fun _ s' => SharesRecorded env s' := by
  rw [downloadParts, if_pos hresume]
  refine guarantees_perform fun r _ _ => ⟨List.Subset.refl _, ?_⟩
  have hs : SharesRecorded env
      ((diskWorld env remote).next s ⟨.shareState (env.stateWith m completedKeys), r⟩) :=
    ⟨env.stateWith m completedKeys, rfl, rfl, rfl, hkeys⟩
  exact guarantees_of_works_shared hresume (works_of_spares env m completedKeys (spares_par.bind fun results _ => spares_joined)) hs

theorem guarantees_finishDownload (hresume : env.useResume = true) {rbac : Bool}
    {recorded : List Str} (hs : SharesRecorded env s) :
    (diskWorld env remote).Guarantees (Undisturbed recorded) (KeepsRecorded env) s
      (env.finishDownload m rbac) fun _ _ => True := by
  have hwork : ∀ {s' : DownloadDisk} {α : Type} {p : DownloadProg Str α}, Works p →
      SharesRecorded env s' →
      (diskWorld env remote).Guarantees (Undisturbed recorded) (KeepsRecorded env) s' p
        fun _ s'' => SharesRecorded env s'' :=
    fun hp hs' => guarantees_of_works_shared hresume hp hs'
  rw [finishDownload, if_pos hresume]
  refine Guarantees.bind ((hwork (works_of_spares env m [] spares_rbac) hs).imp fun _ s₁ hs₁ => ?_)
  refine Guarantees.bind ((hwork (works_of_spares env m [] spares_configs) hs₁).imp fun _ s₂ hs₂ => ?_)
  refine Guarantees.bind ((hwork (works_of_spares env m [] (spares_forEach fun _ _ => spares_saveTableMetadata)) hs₂).imp
    fun _ s₃ hs₃ => ?_)
  refine Guarantees.bind ((hwork (within_callOrFail rfl) hs₃).imp fun _ s₄ hs₄ => ?_)
  exact guarantees_perform fun _ _ hdeleted => hdeleted.elim

/-- **An attempt that is not disturbed loses no recorded key**, wherever it dies. -/
theorem guarantees_download (hresume : env.useResume = true) (hshared : s.shared = none) :
    (diskWorld env remote).Guarantees (Undisturbed (recordedKeys env s.stateFile)) (KeepsRecorded env)
      s env.download fun _ _ => True := by
  rw [download]
  refine Guarantees.bind ((guarantees_of_works (within_callOrFail rfl) hshared).imp
    fun fetched s₁ hs₁ => ?_)
  rw [downloadBackup, ← hs₁.1]
  refine Guarantees.bind ((guarantees_of_works (works_of_spares env _ [] spares_checkSpace) hs₁.2).imp fun _ s₂ hs₂ => ?_)
  rw [← hs₂.1]
  refine Guarantees.bind ((guarantees_of_works (within_callOrFail rfl) hs₂.2).imp fun _ s₃ hs₃ => ?_)
  rw [← hs₃.1, loadCompletedKeys, if_pos hresume]
  refine Guarantees.bind (guarantees_perform fun loaded hloaded _ => ⟨List.Subset.refl _, ?_⟩)
  have hkeys : env.completedKeys loaded = recordedKeys env s₃.stateFile := by
    rw [recordedKeys, if_pos hresume, show loaded = loadStateFile s₃.stateFile from hloaded.1]
  rw [hkeys]
  refine guarantees_ret (Guarantees.bind ?_)
  change (diskWorld env remote).Guarantees _ _ s₃ (env.saveDiskMap fetched.1) _
  refine (guarantees_saveDiskMap hs₃.2).imp fun _ s₄ hs₄ => ?_
  refine Guarantees.bind ((guarantees_downloadParts hresume hs₄.2).imp fun _ s₅ hs₅ => ?_)
  exact Guarantees.bind ((guarantees_finishDownload hresume hs₅).imp fun _ _ _ => guarantees_ret trivial)

/-! ## The parts that are not fetched -/

/-- **The parts whose keys are recorded when an attempt begins are left alone by it.** -/
theorem meets_download {fetched : BackupManifest × Bool} (hresume : env.useResume = true)
    (hshared : s.shared = none) (hmanifest : remote.manifest = some fetched) :
    (diskWorld env remote).Meets (fun _ => True)
      (fun _ c => Avoids env fetched.1 (recordedKeys env s.stateFile) c) (fun _ _ => True) (fun _ _ => True)
      s env.download := by
  generalize hkeys : recordedKeys env s.stateFile = keys
  -- work before the state is shared leaves the state file as it is
  have hbefore : ∀ {α : Type} {p : DownloadProg Str α}, Spares env fetched.1 keys p → ∀ s',
      s'.stateFile = s.stateFile ∧ s'.shared = none →
      (diskWorld env remote).Meets (fun _ => True) (fun _ c => Avoids env fetched.1 keys c)
        (fun _ s'' => (s''.stateFile = s.stateFile ∧ s''.shared = none) ∧ True) (fun _ _ => True) s' p := by
    intro α p hp s' hs'
    refine meets_of_within hp hs' (fun _ _ => trivial) (fun _ _ _ hc => hc.2) fun s₁ ev hs₁ hc _ => ?_
    obtain ⟨hfile, hshared⟩ := files_of_work hs₁.2 hc.1
    rw [stateFile_next, shared_next, hfile, hshared]
    exact hs₁
  have hafter : ∀ {α : Type} {p : DownloadProg Str α}, Within (Avoids env fetched.1 keys) (fun _ => True) p → ∀ s',
      (diskWorld env remote).Meets (fun _ => True) (fun _ c => Avoids env fetched.1 keys c)
        (fun _ _ => True ∧ True) (fun _ _ => True) s' p := fun hp s' =>
    meets_of_within (J := fun _ => True) hp trivial (fun _ _ => trivial) (fun _ _ _ hc => hc) fun _ _ _ _ _ => trivial
  have hfetch : (diskWorld env remote).Meets (fun _ => True) (fun _ c => Avoids env fetched.1 keys c)
      (fun a s' => a = fetched ∧ s'.stateFile = s.stateFile ∧ s'.shared = none) (fun _ _ => True) s
      (callOrFail (.fetchManifest (env.backupName ++ "/metadata.json")) id) := by
    refine meets_perform trivial trivial fun r hr => ?_
    cases r with
    | error e => exact meets_fail trivial trivial
    | ok a => exact meets_ret trivial ⟨Option.some.inj ((hr.1 a rfl).symm.trans hmanifest), rfl, hshared⟩
  rw [download]
  refine hfetch.bind fun a s₁ _ hs₁ => ?_
  obtain ⟨rfl, hs₁⟩ := hs₁
  rw [downloadBackup]
  refine (hbefore spares_checkSpace s₁ hs₁).bind fun _ s₂ _ hs₂ => ?_
  refine Meets.bind (hbefore (within_callOrFail (c := .createDirs env.backupDir) ⟨rfl, trivial⟩) s₂ hs₂.1)
    fun _ s₃ _ hs₃ => ?_
  rw [loadCompletedKeys, if_pos hresume]
  refine Meets.bind (A := fun loaded _ => loaded = keys) ?_ fun loaded s₄ _ hloaded => ?_
  · refine meets_perform trivial trivial fun loaded hloaded => meets_ret trivial ?_
    rw [← hkeys, recordedKeys, if_pos hresume, ← hs₃.1.1, show loaded = loadStateFile s₃.stateFile from hloaded.1]
  · subst hloaded
    exact (hafter (avoids_rest loaded) s₄).imp (fun _ _ _ _ => trivial) fun _ _ _ _ => trivial

end Recorded

/-! ## Runs of attempts -/

namespace DownloadAttempt

open World

variable (a : DownloadAttempt)

/-- The keys that are recorded on disk after some of the calls. -/
def recordedAt (u : List DownloadEvent) : List Str :=
  recordedKeys a.env ((diskWorld a.env a.remote).after a.start u).stateFile

/-- The attempt has not returned. -/
def Unfinished : Prop := ∀ path, a.ended ≠ .returned path

/-- An attempt at a backup that can be resumed.  It may die anywhere. -/
structure Resuming (fetched : BackupManifest × Bool) : Prop where
  resume : a.env.useResume = true
  manifest : a.remote.manifest = some fetched
  runs : Runs a.env.download a.trace a.ended
  legal : (diskWorld a.env a.remote).Legal a.start a.trace

/-- **Between any two points no recorded key is lost**, until the attempt has returned. -/
def KeepsProgress : Prop :=
  ∀ u v, u <+: v → v <+: a.trace → (v = a.trace → a.Unfinished) → a.recordedAt u ⊆ a.recordedAt v

/-- The map of the disks is saved only if no key is recorded, and the attempt returns once it has deleted
the state. -/
structure SparesProgress : Prop where
  overwrites : ∀ path state, ⟨.saveState path state, true⟩ ∈ a.trace →
    recordedKeys a.env a.before.stateFile = []
  returns : ∀ path removed, ⟨.deleteState path, removed⟩ ∈ a.trace → ∃ path, a.ended = .returned path

end DownloadAttempt

/-- The call does not delete the state. -/
def leavesState : DownloadCall → Bool
  | .deleteState _ => false
  | _ => true

section Last

open DownloadEnv

variable {env : DownloadEnv} {m : BackupManifest} {t₁ t₂ : List DownloadEvent}

/-- A program that does not delete the state. -/
abbrev Leaves {ε α : Type} (p : DownloadProg ε α) : Prop :=
  Within (fun c => leavesState c = true) (fun _ => True) p

theorem leaves_of_works {ε α : Type} {p : DownloadProg ε α} (hp : Works p) : Leaves p := by
  refine hp.weaken fun c hc => ?_
  cases c with
  | deleteState path => cases hc
  | _ => rfl

theorem leaves_loadCompletedKeys : Leaves env.loadCompletedKeys := by
  rw [loadCompletedKeys]
  split_ifs
  · exact within_perform rfl fun _ => within_ret trivial
  · exact within_ret trivial

theorem leaves_saveDiskMap : Leaves (env.saveDiskMap m) := by
  rw [saveDiskMap]
  split_ifs
  · exact within_ret trivial
  · exact within_perform rfl fun _ => within_ret trivial

theorem leaves_downloadParts {completedKeys : List Str} :
    Leaves (env.downloadParts m completedKeys) := by
  rw [downloadParts]
  refine Within.bind (Q := fun _ => True) ?_ fun _ _ =>
    leaves_of_works (works_of_spares env m completedKeys (spares_par.bind fun results _ => spares_joined))
  split_ifs
  · exact within_call rfl fun _ => within_ret trivial
  · exact within_ret trivial

/-- Every call of an attempt is made before the state is deleted. -/
theorem safe_download :
    Safe (fun h _ => ∀ ev ∈ h, leavesState ev.1 = true) (fun _ _ => True) [] env.download := by
  have hseq : ∀ {α β : Type} {p : DownloadProg Str α} {f : α → DownloadProg Str β}
      {h : List DownloadEvent}, Leaves p → (∀ ev ∈ h, leavesState ev.1 = true) →
      (∀ a h', (∀ ev ∈ h', leavesState ev.1 = true) →
        Safe (fun h _ => ∀ ev ∈ h, leavesState ev.1 = true) (fun _ _ => True) h' (f a)) →
      Safe (fun h _ => ∀ ev ∈ h, leavesState ev.1 = true) (fun _ _ => True) h (p.bind f) :=
    fun hp hh hf => (hp.safe_history hh).bind fun _ a ha => hf a _ ha.1
  have hnone : ∀ ev ∈ ([] : List DownloadEvent), leavesState ev.1 = true :=
    fun _ hev => absurd hev List.not_mem_nil
  rw [download]
  refine hseq (leaves_of_works (within_callOrFail rfl)) hnone fun fetched h₁ hh₁ => ?_
  rw [downloadBackup]
  refine hseq (leaves_of_works (works_of_spares env _ [] spares_checkSpace)) hh₁ fun _ h₂ hh₂ => ?_
  refine hseq (leaves_of_works (within_callOrFail rfl)) hh₂ fun _ h₃ hh₃ => ?_
  refine hseq leaves_loadCompletedKeys hh₃ fun keys h₄ hh₄ => ?_
  refine hseq leaves_saveDiskMap hh₄ fun _ h₅ hh₅ => ?_
  refine hseq leaves_downloadParts hh₅ fun _ h₆ hh₆ => ?_
  refine Safe.bind (Q := fun _ _ => True) ?_ fun _ _ _ => trivial
  rw [finishDownload]
  refine hseq (leaves_of_works (works_of_spares env fetched.1 [] spares_rbac)) hh₆ fun _ h₇ hh₇ => ?_
  refine hseq (leaves_of_works (works_of_spares env fetched.1 [] spares_configs)) hh₇ fun _ h₈ hh₈ => ?_
  refine hseq (leaves_of_works (works_of_spares env fetched.1 [] (spares_forEach fun _ _ => spares_saveTableMetadata))) hh₈
    fun _ h₉ hh₉ => ?_
  refine hseq (leaves_of_works (within_callOrFail rfl)) hh₉ fun _ h hh => ?_
  split_ifs
  · exact safe_perform hh fun _ => trivial
  · trivial

end Last

namespace DownloadAttempt

open World

variable {a : DownloadAttempt} {fetched : BackupManifest × Bool}

/-- **One attempt.** -/
theorem Resuming.keepsProgress (h : a.Resuming fetched) (hspares : a.SparesProgress) :
    a.KeepsProgress := by
  rintro u v ⟨rest, rfl⟩ ⟨later, htrace⟩ hunfinished
  have hruns := h.runs
  have hlegal := h.legal
  have hlast := (safe_download.runs hruns).1
  rw [← htrace] at hruns hlegal
  -- a deletion is the last call, and the attempt has returned
  have hkept : ∀ ev ∈ u ++ rest, leavesState ev.1 = true := by
    intro ev hev
    by_contra hdelete
    obtain ⟨path, removed, rfl⟩ : ∃ path removed, ev = ⟨.deleteState path, removed⟩ := by
      obtain ⟨c, r⟩ := ev
      cases c with
      | deleteState path => exact ⟨path, r, rfl⟩
      | _ => exact absurd rfl hdelete
    have hmem : (⟨.deleteState path, removed⟩ : DownloadEvent) ∈ a.trace :=
      htrace ▸ List.mem_append_left _ hev
    obtain ⟨path', hreturned⟩ := hspares.returns path removed hmem
    cases later with
    | nil =>
      rw [List.append_nil] at htrace
      exact hunfinished htrace path' hreturned
    | cons next later =>
      have hbefore := hlast (u ++ rest) next.1 next.2 later htrace.symm _ hev
      exact absurd hbefore (by simp [leavesState])
  have hundisturbed : ∀ ev ∈ u ++ rest, Undisturbed (recordedKeys a.env a.start.stateFile) ev := by
    rintro ⟨c, r⟩ hev
    cases c with
    | saveState path state =>
      rintro rfl
      exact hspares.overwrites path state (htrace ▸ List.mem_append_left _ hev)
    | deleteState path => exact absurd (hkept _ hev) (by simp [leavesState])
    | _ => trivial
  have hfollows := (guarantees_download (s := a.start) h.resume rfl (u ++ rest) .cut
    (hruns.cut_earlier (List.prefix_append _ _)) (legal_append.mp hlegal).1 hundisturbed).1
  have hstep := (follows_append.mp hfollows).2.trans (fun _ => List.Subset.refl _)
    fun _ _ _ h₁ h₂ => List.Subset.trans h₁ h₂
  rw [← after_append] at hstep
  exact hstep

/-- **The parts whose keys are recorded when an attempt begins are left alone by all its calls.** -/
theorem Resuming.avoids (h : a.Resuming fetched) : ∀ ev ∈ a.trace,
    Avoids a.env fetched.1 (recordedKeys a.env a.before.stateFile) ev.1 := by
  intro ev hev
  obtain ⟨t₁, t₂, htrace⟩ := List.append_of_mem hev
  exact ((meets_download (s := a.start) h.resume rfl h.manifest).runs h.runs h.legal).2.2 t₁ ev.1 ev.2 t₂ htrace

end DownloadAttempt

/-- A run: attempts to download one backup, each of which may die. -/
inductive ResumedRun (name : Str) (fetched : BackupManifest × Bool) (initial : DownloadDisk) :
    List DownloadAttempt → DownloadDisk → Prop
  | start : ResumedRun name fetched initial [] initial
  | attempt {attempts : List DownloadAttempt} {a : DownloadAttempt} :
    ResumedRun name fetched initial attempts a.before → a.env.backupName = name →
      a.Resuming fetched → ResumedRun name fetched initial (attempts ++ [a]) a.after

/-- No recorded key is lost in a run until an attempt returns, and no call of a later attempt is for a part
whose key was recorded. -/
structure ProgressKept (fetched : BackupManifest × Bool) (attempts : List DownloadAttempt) : Prop where
  within : ∀ a ∈ attempts, a.KeepsProgress
  across : ∀ earlier a between b later, attempts = earlier ++ a :: (between ++ b :: later) →
    (∀ c ∈ a :: between, c.Unfinished) → ∀ u, u <+: a.trace →
      a.recordedAt u ⊆ recordedKeys b.env b.before.stateFile ∧
        ∀ ev ∈ b.trace, Avoids b.env fetched.1 (a.recordedAt u) ev.1

theorem recordedKeys_congr {env env' : DownloadEnv} (hresume : env.useResume = true)
    (hresume' : env'.useResume = true) (hname : env.backupName = env'.backupName)
    (file : StateFile DownloadState) : recordedKeys env file = recordedKeys env' file := by
  have hhash : env.paramsHash = env'.paramsHash := by
    rw [DownloadEnv.paramsHash, DownloadEnv.paramsHash, hname]
  rw [recordedKeys, recordedKeys, if_pos hresume, if_pos hresume']
  cases loadStateFile file with
  | error e => rfl
  | ok loaded =>
    cases loaded with
    | none => rfl
    | some state => rw [DownloadEnv.completedKeys, DownloadEnv.completedKeys, hhash, hname]

theorem ResumedRun.resuming {name : Str} {fetched : BackupManifest × Bool} {initial s : DownloadDisk}
    {attempts : List DownloadAttempt} (h : ResumedRun name fetched initial attempts s) :
    ∀ a ∈ attempts, a.Resuming fetched := by
  induction h with
  | start => exact fun a ha => absurd ha List.not_mem_nil
  | attempt _ _ hresuming ih => exact List.forall_mem_append.mpr ⟨ih, List.forall_mem_singleton.mpr hresuming⟩

/-- What is recorded in a run is on disk in the end, if no attempt has returned since. -/
theorem ResumedRun.recorded {name : Str} {fetched : BackupManifest × Bool} {initial s : DownloadDisk}
    {attempts : List DownloadAttempt} (h : ResumedRun name fetched initial attempts s)
    (hspares : ∀ a ∈ attempts, a.SparesProgress) {earlier between : List DownloadAttempt}
    {a : DownloadAttempt} (hattempts : attempts = earlier ++ a :: between)
    (hunfinished : ∀ c ∈ a :: between, c.Unfinished) {u : List DownloadEvent} (hu : u <+: a.trace)
    {env : DownloadEnv} (hresume : env.useResume = true) (hname : env.backupName = name) :
    a.recordedAt u ⊆ recordedKeys env s.stateFile := by
  induction h generalizing earlier between env with
  | start => exact absurd hattempts (by simp)
  | @attempt attempts last hrun hlast hresuming ih =>
    have hkeeps := hresuming.keepsProgress (hspares last (List.mem_append_right _ List.mem_cons_self))
    have hend : last.recordedAt last.trace = recordedKeys env last.after.stateFile :=
      recordedKeys_congr hresuming.resume hresume (hlast.trans hname.symm) _
    rw [← hend]
    rcases List.eq_nil_or_concat' between with rfl | ⟨between, c, rfl⟩
    · obtain ⟨-, hsame⟩ := List.append_inj' hattempts rfl
      obtain rfl := List.singleton_inj.mp hsame
      exact hkeeps u _ hu List.prefix_rfl fun _ => hunfinished _ List.mem_cons_self
    · rw [← List.cons_append, ← List.append_assoc] at hattempts
      obtain ⟨hinit, hsame⟩ := List.append_inj' hattempts rfl
      obtain rfl := List.singleton_inj.mp hsame
      have hbefore := ih (fun c hc => hspares c (List.mem_append_left _ hc)) hinit
        (fun c hc => hunfinished c (List.mem_append_left _ hc)) hresuming.resume hlast
      exact List.Subset.trans hbefore (hkeeps [] _ List.nil_prefix List.prefix_rfl fun _ =>
        hunfinished _ (List.mem_cons_of_mem _ (List.mem_append_right _ List.mem_cons_self)))

/-- **No progress is lost** over attempts that spare it. -/
theorem progress_kept (name : Str) (fetched : BackupManifest × Bool) (initial : DownloadDisk)
    {attempts : List DownloadAttempt} {s : DownloadDisk}
    (h : ResumedRun name fetched initial attempts s) (hspares : ∀ a ∈ attempts, a.SparesProgress) :
    ProgressKept fetched attempts := by
  constructor
  · intro a ha
    induction h with
    | start => exact absurd ha List.not_mem_nil
    | attempt _ _ hresuming ih =>
      rcases List.mem_append.mp ha with hold | hnew
      · exact ih (fun c hc => hspares c (List.mem_append_left _ hc)) hold
      · cases List.mem_singleton.mp hnew
        exact hresuming.keepsProgress (hspares _ ha)
  · intro earlier a between b later hattempts hunfinished u hu
    have hsub : a.recordedAt u ⊆ recordedKeys b.env b.before.stateFile := by
      induction h generalizing later with
      | start => exact absurd hattempts (by simp)
      | @attempt attempts last hrun hlast hresuming ih =>
        have hspares' : ∀ c ∈ attempts, c.SparesProgress :=
          fun c hc => hspares c (List.mem_append_left _ hc)
        rcases List.eq_nil_or_concat' later with rfl | ⟨later, c, rfl⟩
        · rw [← List.cons_append, ← List.append_assoc] at hattempts
          obtain ⟨hinit, hsame⟩ := List.append_inj' hattempts rfl
          obtain rfl := List.singleton_inj.mp hsame
          exact hrun.recorded hspares' hinit hunfinished hu hresuming.resume hlast
        · have hassoc : earlier ++ a :: (between ++ b :: (later ++ [c])) =
              (earlier ++ a :: (between ++ b :: later)) ++ [c] := by simp
          rw [hassoc] at hattempts
          exact ih hspares' later (List.append_inj' hattempts rfl).1
    have hb : b.Resuming fetched :=
      h.resuming b (hattempts ▸ List.mem_append_right _ (List.mem_cons_of_mem _ (List.mem_append_right _
        List.mem_cons_self)))
    exact ⟨hsub, fun ev hev => (hb.avoids ev hev).of_subset hsub⟩

/-! ## A backup with a disk -/

/-- The backup of one part, with the map of its disks. -/
def diskedBackup : RemoteBackup :=
  { checkedBackup 1 with
    manifest := some ({ checkedManifest 1 with disks := SortedMap.empty.insert "default" "/data" },
      false) }

/-- The process dies after some of its calls. -/
def DownloadAttempt.diesAfter (a : DownloadAttempt) (calls : Nat) : DownloadAttempt :=
  { a with trace := a.trace.take calls, ended := .cut }

theorem DownloadAttempt.Resuming.diesAfter {a : DownloadAttempt} {fetched : BackupManifest × Bool}
    (h : a.Resuming fetched) (calls : Nat) : (a.diesAfter calls).Resuming fetched where
  resume := h.resume
  manifest := h.manifest
  runs := h.runs.cut_earlier (List.take_prefix calls a.trace)
  legal := by
    have hlegal := h.legal
    rw [← List.take_append_drop calls a.trace] at hlegal
    exact (World.legal_append.mp hlegal).1

theorem resuming_honestAttempt {env : DownloadEnv} {remote : RemoteBackup} {diskFull : Bool}
    (before : DownloadDisk) {fetched : BackupManifest × Bool} (hresume : env.useResume = true)
    (hmanifest : remote.manifest = some fetched) :
    (honestAttempt env remote diskFull before).Resuming fetched where
  resume := hresume
  manifest := hmanifest
  runs := runs_execTrace _ _ _
  legal := (legal_honestAttempt before).1

/-- A call that does not save or delete the state. -/
def leavesFile : DownloadCall → Bool
  | .saveState _ _ => false
  | c => leavesState c

/-- An attempt at a backup without a disk cannot save the manifest; the next one skips its part. -/
theorem progress_kept_resumed : ProgressKept (checkedManifest 1, false)
    (([] ++ [honestAttempt plainDownload (checkedBackup 1) true emptyDisk]) ++
      [honestAttempt plainDownload (checkedBackup 1) false partialDisk]) := by
  refine progress_kept "b" _ emptyDisk (.attempt (.attempt .start rfl (resuming_honestAttempt emptyDisk rfl rfl)) rfl
    (resuming_honestAttempt partialDisk rfl rfl)) fun a ha => ?_
  rcases List.mem_append.mp ha with ha | ha
  · cases List.mem_singleton.mp ha
    have hleaves : ((honestAttempt plainDownload (checkedBackup 1) true emptyDisk).trace.all
        fun ev => leavesFile ev.1) = true := by decide +kernel
    refine ⟨fun path state hsaved => ?_, fun path removed hdeleted => ?_⟩
    · exact absurd (List.all_eq_true.mp hleaves _ hsaved) (by simp [leavesFile])
    · exact absurd (List.all_eq_true.mp hleaves _ hdeleted) (by simp [leavesFile, leavesState])
  · cases List.mem_singleton.mp ha
    have hkeeps : ((honestAttempt plainDownload (checkedBackup 1) false partialDisk).trace.all
        fun ev => leavesFile ev.1 || !leavesState ev.1) = true := by decide +kernel
    refine ⟨fun path state hsaved => ?_, fun path removed _ => ⟨plainDownload.backupDir, rfl⟩⟩
    exact absurd (List.all_eq_true.mp hkeeps _ hsaved) (by simp [leavesFile, leavesState])

/-- The disk after an attempt at a backup with a disk, which cannot save the manifest. -/
def recordedDisk : DownloadDisk := (honestAttempt plainDownload diskedBackup true emptyDisk).after

/-- The next attempt saves the map of the disks and dies: the part that was recorded is forgotten. -/
theorem progress_lost :
    ¬∀ (name : Str) (fetched : BackupManifest × Bool) (initial : DownloadDisk)
      (attempts : List DownloadAttempt) (s : DownloadDisk),
      ResumedRun name fetched initial attempts s → ProgressKept fetched attempts := by
  intro h
  have hrun : ResumedRun "b" _ emptyDisk
      (([] ++ [honestAttempt plainDownload diskedBackup true emptyDisk]) ++
        [(honestAttempt plainDownload diskedBackup false recordedDisk).diesAfter 4]) _ :=
    .attempt (.attempt .start rfl (resuming_honestAttempt emptyDisk rfl rfl)) rfl
      ((resuming_honestAttempt recordedDisk rfl rfl).diesAfter 4)
  have hkeeps := (h _ _ _ _ _ hrun).within _ (List.mem_append_right _ List.mem_cons_self) []
    _ List.nil_prefix List.prefix_rfl fun _ path hpath => by cases hpath
  have hbefore : ((honestAttempt plainDownload diskedBackup false recordedDisk).diesAfter 4).recordedAt
      [] = ["b/data/db/t/all_1_1_0.tar.lz4".toList] := by
    show recordedKeys plainDownload recordedDisk.stateFile = _
    rw [recordedDisk, (legal_honestAttempt emptyDisk).2]
    rfl
  have hafter : ((honestAttempt plainDownload diskedBackup false recordedDisk).diesAfter 4).recordedAt
      ((honestAttempt plainDownload diskedBackup false recordedDisk).diesAfter 4).trace = [] := by
    rfl
  rw [hbefore, hafter] at hkeeps
  exact absurd (hkeeps List.mem_cons_self) List.not_mem_nil

end Chbackup
