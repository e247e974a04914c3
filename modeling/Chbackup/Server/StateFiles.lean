import Chbackup.Lib.Text

/-!
# State files

The state files that uploads, downloads and restores leave in the directories of their backups
(`src/resume.rs`, `src/upload/mod.rs`, `src/download/mod.rs`, `src/restore/mod.rs`).  Of a file only
matters that it is there and which run has written it last.
-/

namespace Chbackup

/-- The operations that can be resumed. -/
inductive OpType where
  | upload
  | download
  | restore
  deriving DecidableEq

/-- A file in the directory of a backup: the state of an operation, or the parameters of a restore. -/
inductive ResumeFile where
  | state (op : OpType)
  | restoreParams
  deriving DecidableEq

/-- `validate_backup_name`. -/
def validateBackupName (name : Str) : Bool :=
  name ≠ [] && !Str.contains ".." name && '/' ∉ name && '\\' ∉ name && '\x00' ∉ name && name ≠ ['.']

/-- The name of a backup, as every command checks it. -/
abbrev BackupName : Type := { name : Str // validateBackupName name = true }

/-- A run of an operation, and what it depends on. -/
structure ResumableRun where
  op : OpType
  backup : BackupName
  resume : Bool
  /-- The parts whose completion is saved, one after the other. -/
  parts : Nat
  /-- `manifest.disks` is not empty. -/
  hasDisks : Bool
  /-- A restore goes on to the data of tables. -/
  dataPhase : Bool
  deleteLocal : Bool

/-- A change to the directory of a backup. -/
inductive FileStep where
  | save (file : ResumeFile)
  | remove (file : ResumeFile)
  /-- `delete_local`. -/
  | removeDir
  deriving DecidableEq

namespace ResumableRun

variable (useResumableState : Bool) (r : ResumableRun)

/-- `use_resume`. -/
def useResume : Bool := r.resume && useResumableState

/-- What an upload does to its state file. -/
def uploadSteps : List FileStep :=
  (if r.useResume useResumableState then
    List.replicate r.parts (.save (.state .upload)) ++ [.remove (.state .upload)] else []) ++
  if r.deleteLocal then [.removeDir] else []

/-- What a download does to its state file, which is written whether or not it resumes. -/
def downloadSteps : List FileStep :=
  (if r.hasDisks then [.save (.state .download)] else []) ++
  if r.useResume useResumableState then
    List.replicate r.parts (.save (.state .download)) ++ [.remove (.state .download)] else []

/-- What a restore does to its state file and its parameters. -/
def restoreSteps : List FileStep :=
  if r.dataPhase then
    (if r.useResume useResumableState then [.save .restoreParams] else []) ++
    (if r.resume then List.replicate r.parts (.save (.state .restore)) else []) ++
    [.save (.state .restore)] ++ if r.resume then [.remove .restoreParams] else []
  else []

/-- The changes of a run that completes. -/
def fileSteps : List FileStep :=
  match r.op with
  | .upload => r.uploadSteps useResumableState
  | .download => r.downloadSteps useResumableState
  | .restore => r.restoreSteps useResumableState

end ResumableRun

/-- How a run ended, and after how many changes if it did not complete. -/
inductive Ending where
  | completed
  | failed (after : Nat)
  | cutOff (after : Nat)
  deriving DecidableEq

/-- A run of the past. -/
structure PastRun where
  run : ResumableRun
  ending : Ending

/-- The changes that a run has made. -/
def PastRun.steps (useResumableState : Bool) (r : PastRun) : List FileStep :=
  match r.ending with
  | .completed => r.run.fileSteps useResumableState
  | .failed n => (r.run.fileSteps useResumableState).take n
  | .cutOff n => (r.run.fileSteps useResumableState).take n

/-! ## What is on disk -/

/-- The state files: the backup, the file, and the run that has written it. -/
abbrev StateDisk : Type := List (Str × ResumeFile × Nat)

namespace FileStep

/-- The step writes or removes the file. -/
def touches (f : ResumeFile) : FileStep → Bool
  | save file => file = f
  | remove file => file = f
  | removeDir => true

/-- A step of the run `k`, on the backup `b`. -/
def apply (k : Nat) (b : Str) (st : FileStep) (disk : StateDisk) : StateDisk :=
  let kept := disk.filter fun e => e.1 ≠ b || !st.touches e.2.1
  match st with
  | save file => kept ++ [(b, file, k)]
  | _ => kept

end FileStep

/-- The steps end with the file written. -/
def leaves (f : ResumeFile) : List FileStep → Bool
  | [] => false
  | st :: rest => if rest.any (FileStep.touches f) then leaves f rest else decide (st = .save f)

theorem leaves_eq_false {f : ResumeFile} {steps : List FileStep}
    (h : steps.any (FileStep.touches f) = false) : leaves f steps = false := by
  cases steps with
  | nil => rfl
  | cons st rest =>
    rw [List.any_cons, Bool.or_eq_false_iff] at h
    rw [leaves, if_neg (by rw [h.2]; exact Bool.false_ne_true), decide_eq_false_iff_not]
    rintro rfl
    simp [FileStep.touches] at h

/-- What a run leaves on disk. -/
def PastRun.leave (useResumableState : Bool) (k : Nat) (r : PastRun) (disk : StateDisk) : StateDisk :=
  (r.steps useResumableState).foldl (fun disk st => st.apply k r.run.backup.val disk) disk

/-- What is on disk after a history. -/
def diskAfter (useResumableState : Bool) (history : List PastRun) : StateDisk :=
  history.zipIdx.foldl (fun disk r => r.1.leave useResumableState r.2 disk) []

section Disk

variable {k : Nat} {b : Str} {f : ResumeFile} {disk : StateDisk}

theorem FileStep.mem_apply {st : FileStep} {b' : Str} {k' : Nat} :
    (b', f, k') ∈ st.apply k b disk ↔
      ((b', f, k') ∈ disk ∧ (b' ≠ b ∨ st.touches f = false)) ∨ (st = .save f ∧ b' = b ∧ k' = k) := by
  have hkept : (b', f, k') ∈ disk.filter (fun e => e.1 ≠ b || !st.touches e.2.1) ↔
      (b', f, k') ∈ disk ∧ (b' ≠ b ∨ st.touches f = false) := by
    rw [List.mem_filter]
    simp
  cases st with
  | save file =>
    rw [apply, List.mem_append, hkept, List.mem_singleton]
    simp only [Prod.mk.injEq, FileStep.save.injEq]
    constructor
    · rintro (h | ⟨rfl, rfl, rfl⟩)
      · exact Or.inl h
      · exact Or.inr ⟨rfl, rfl, rfl⟩
    · rintro (h | ⟨rfl, rfl, rfl⟩)
      · exact Or.inl h
      · exact Or.inr ⟨rfl, rfl, rfl⟩
  | remove file =>
    refine hkept.trans ⟨Or.inl, fun h => h.resolve_right fun hsave => ?_⟩
    cases hsave.1
  | removeDir =>
    refine hkept.trans ⟨Or.inl, fun h => h.resolve_right fun hsave => ?_⟩
    cases hsave.1

/-- A file on disk after the steps of a run was there before and is not touched, or the run has
written it. -/
theorem mem_foldl_apply {steps : List FileStep} {b' : Str} {k' : Nat} :
    (b', f, k') ∈ steps.foldl (fun disk st => st.apply k b disk) disk ↔
      ((b', f, k') ∈ disk ∧ (b' ≠ b ∨ steps.any (FileStep.touches f) = false)) ∨
        (leaves f steps = true ∧ b' = b ∧ k' = k) := by
  induction steps generalizing disk with
  | nil => simp [leaves]
  | cons st rest ih =>
    rw [List.foldl_cons, ih, FileStep.mem_apply, List.any_cons, leaves]
    by_cases hb : b' = b
    · subst hb
      cases htouch : rest.any (FileStep.touches f) with
      | true => simp
      | false => simp [leaves_eq_false htouch]
    · simp [hb]

theorem PastRun.mem_leave {useResumableState : Bool} {r : PastRun} {k' : Nat} :
    (b, f, k') ∈ r.leave useResumableState k disk ↔
      ((b, f, k') ∈ disk ∧ (b ≠ r.run.backup.val ∨
        (r.steps useResumableState).any (FileStep.touches f) = false)) ∨
      (leaves f (r.steps useResumableState) = true ∧ b = r.run.backup.val ∧ k' = k) :=
  mem_foldl_apply

end Disk

/-- A later run leaves the file alone. -/
def Untouched (useResumableState : Bool) (history : List PastRun) (k : Nat) (b : Str) (f : ResumeFile) :
    Prop :=
  ∀ (j : Nat) (r : PastRun), k < j → history[j]? = some r → r.run.backup.val = b →
    (r.steps useResumableState).any (FileStep.touches f) = false

theorem untouched_append {useResumableState : Bool} {history : List PastRun} {last : PastRun} {k : Nat}
    {b : Str} {f : ResumeFile} :
    Untouched useResumableState (history ++ [last]) k b f ↔
      Untouched useResumableState history k b f ∧ (k < history.length → last.run.backup.val = b →
        (last.steps useResumableState).any (FileStep.touches f) = false) := by
  constructor
  · intro h
    constructor
    · intro j r hj hr
      refine h j r hj ?_
      rw [List.getElem?_append_left (List.getElem?_eq_some_iff.mp hr).1, hr]
    · intro hk
      exact h history.length last hk (by simp)
  · rintro ⟨hold, hlast⟩ j r hj hr
    by_cases hlt : j < history.length
    · rw [List.getElem?_append_left hlt] at hr
      exact hold j r hj hr
    · have hend : j = history.length := by
        have := (List.getElem?_eq_some_iff.mp hr).1
        rw [List.length_append, List.length_singleton] at this
        omega
      subst hend
      rw [List.getElem?_append_right (Nat.le_refl _), Nat.sub_self] at hr
      cases hr
      exact hlast hj

/-- **The files on disk after a history**: each is there because a run has left it, and no later run
has touched it. -/
theorem mem_diskAfter {useResumableState : Bool} {history : List PastRun} {b : Str} {f : ResumeFile}
    {k : Nat} :
    (b, f, k) ∈ diskAfter useResumableState history ↔
      ∃ r, history[k]? = some r ∧ r.run.backup.val = b ∧
        leaves f (r.steps useResumableState) = true ∧ Untouched useResumableState history k b f := by
  induction history using List.reverseRecOn with
  | nil => simp [diskAfter]
  | append_singleton history last ih =>
    have hstep : diskAfter useResumableState (history ++ [last]) =
        last.leave useResumableState history.length (diskAfter useResumableState history) := by
      rw [diskAfter, List.zipIdx_append, List.foldl_append]
      simp [diskAfter]
    rw [hstep, PastRun.mem_leave, ih]
    constructor
    · rintro (⟨⟨r, hr, hb, hleaves, hlater⟩, hkept⟩ | ⟨hleaves, rfl, rfl⟩)
      · have hlt := (List.getElem?_eq_some_iff.mp hr).1
        refine ⟨r, ?_, hb, hleaves, untouched_append.mpr ⟨hlater, fun _ hlast => ?_⟩⟩
        · rw [List.getElem?_append_left hlt, hr]
        · exact hkept.resolve_left fun hne => hne hlast.symm
      · refine ⟨last, by simp, rfl, hleaves, untouched_append.mpr ⟨fun j r hj hr => ?_, fun hlt => ?_⟩⟩
        · have := (List.getElem?_eq_some_iff.mp hr).1
          omega
        · exact absurd hlt (Nat.lt_irrefl _)
    · rintro ⟨r, hr, hb, hleaves, huntouched⟩
      obtain ⟨hlater, hlast⟩ := untouched_append.mp huntouched
      by_cases hlt : k < history.length
      · rw [List.getElem?_append_left hlt] at hr
        refine Or.inl ⟨⟨r, hr, hb, hleaves, hlater⟩, ?_⟩
        by_cases hne : b = last.run.backup.val
        · exact Or.inr (hlast hlt hne.symm)
        · exact Or.inl hne
      · have hend : k = history.length := by
          have := (List.getElem?_eq_some_iff.mp hr).1
          rw [List.length_append, List.length_singleton] at this
          omega
        subst hend
        rw [List.getElem?_append_right (Nat.le_refl _), Nat.sub_self] at hr
        cases hr
        exact Or.inr ⟨hleaves, hb.symm, rfl⟩

/-! ## What completed runs leave -/

/-- The file that says what `auto_resume` replays: the state of an upload or of a download, the
parameters of a restore. -/
def OpType.source : OpType → ResumeFile
  | upload => .state .upload
  | download => .state .download
  | restore => .restoreParams

/-- The last word on a file. -/
theorem leaves_append {f : ResumeFile} (steps rest : List FileStep) :
    leaves f (steps ++ rest) = if rest.any (FileStep.touches f) then leaves f rest else leaves f steps := by
  induction steps with
  | nil =>
    cases htouch : rest.any (FileStep.touches f) with
    | true => simp
    | false => simp [leaves, leaves_eq_false htouch]
  | cons st steps ih =>
    rw [List.cons_append, leaves, ih, leaves, List.any_append]
    cases rest.any (FileStep.touches f) with
    | true => simp
    | false => simp

/-- What is saved and then removed is not there. -/
theorem leaves_save_remove {f g : ResumeFile} (n : Nat) :
    leaves f (List.replicate n (.save g) ++ [.remove g]) = false := by
  by_cases hfg : g = f
  · subst hfg
    rw [leaves_append, if_pos (by simp [FileStep.touches])]
    simp [leaves]
  · refine leaves_eq_false ?_
    simp [FileStep.touches, hfg]

theorem upload_leaves {useResumableState : Bool} {r : ResumableRun} {f : ResumeFile} :
    leaves f (r.uploadSteps useResumableState) = false := by
  have hstate : leaves f (if r.useResume useResumableState then
      List.replicate r.parts (.save (.state .upload)) ++ [.remove (.state .upload)] else []) = false := by
    split_ifs
    · exact leaves_save_remove r.parts
    · rfl
  rw [ResumableRun.uploadSteps, leaves_append, hstate]
  cases r.deleteLocal with
  | true => rfl
  | false => rfl

theorem download_leaves {useResumableState : Bool} {r : ResumableRun} {f : ResumeFile} :
    leaves f (r.downloadSteps useResumableState) = true ↔
      f = .state .download ∧ r.hasDisks = true ∧ r.useResume useResumableState = false := by
  rw [ResumableRun.downloadSteps, leaves_append]
  cases r.useResume useResumableState with
  | true =>
    by_cases hf : f = .state .download
    · subst hf
      rw [if_pos (by simp [FileStep.touches])]
      simp [leaves_save_remove]
    · have hnone : (List.replicate r.parts (FileStep.save (.state .download)) ++
          [FileStep.remove (.state .download)]).any (FileStep.touches f) = false := by
        simp [FileStep.touches, Ne.symm hf]
      rw [if_pos rfl, hnone]
      cases r.hasDisks with
      | true => simp [leaves, hf, Ne.symm hf]
      | false => simp [leaves]
  | false =>
    cases r.hasDisks with
    | true =>
      simp only [leaves, List.any_nil, Bool.false_eq_true, if_false, if_true, decide_eq_true_eq,
        FileStep.save.injEq, and_true]
      exact eq_comm
    | false => simp [leaves]

theorem restore_leaves {useResumableState : Bool} {r : ResumableRun} {f : ResumeFile}
    (hf : f ≠ .state .restore) : leaves f (r.restoreSteps useResumableState) = false := by
  rw [ResumableRun.restoreSteps]
  split_ifs with hdata huse hresume hresume
  · by_cases hp : f = .restoreParams
    · subst hp
      rw [leaves_append]
      rfl
    · refine leaves_eq_false ?_
      simp [FileStep.touches, Ne.symm hf, Ne.symm hp]
  · rw [ResumableRun.useResume, Bool.and_eq_true] at huse
    exact absurd huse.1 hresume
  · by_cases hp : f = .restoreParams
    · subst hp
      rw [leaves_append]
      rfl
    · refine leaves_eq_false ?_
      simp [FileStep.touches, Ne.symm hf, Ne.symm hp]
  · refine leaves_eq_false ?_
    simp [FileStep.touches, Ne.symm hf]
  · rfl

/-- **Of the files that are replayed, a completed run leaves one**: the state file of a download that
does not resume. -/
theorem completed_leaves {useResumableState : Bool} {r : ResumableRun} {op : OpType} :
    leaves op.source (r.fileSteps useResumableState) = true ↔
      op = .download ∧ r.op = .download ∧ r.hasDisks = true ∧ r.useResume useResumableState = false := by
  have hsource : op.source ≠ .state .restore := by
    cases op with
    | upload => exact fun h => by cases h
    | download => exact fun h => by cases h
    | restore => exact fun h => by cases h
  have hdownload : op.source = .state .download ↔ op = .download := by
    cases op with
    | upload => exact ⟨(fun h => by cases h), (fun h => by cases h)⟩
    | download => exact ⟨fun _ => rfl, fun _ => rfl⟩
    | restore => exact ⟨(fun h => by cases h), (fun h => by cases h)⟩
  rw [ResumableRun.fileSteps]
  cases r.op with
  | upload => simp [upload_leaves]
  | download => simp [download_leaves, hdownload]
  | restore => simp [restore_leaves hsource]

/-- A download completed without resuming, and nothing has touched its state file since. -/
def Leftover (useResumableState : Bool) (history : List PastRun) (k : Nat) : Prop :=
  ∃ r, history[k]? = some r ∧ r.ending = .completed ∧ r.run.op = .download ∧ r.run.hasDisks = true ∧
    r.run.useResume useResumableState = false ∧
      Untouched useResumableState history k r.run.backup.val (.state .download)

/-- **What is replayed for a completed run is left over from a download.** -/
theorem leftover_of_completed {useResumableState : Bool} {history : List PastRun} {b : Str}
    {op : OpType} {k : Nat} {r : PastRun} (hfile : (b, op.source, k) ∈ diskAfter useResumableState history)
    (hr : history[k]? = some r) (hcompleted : r.ending = .completed) :
    Leftover useResumableState history k := by
  obtain ⟨r', hr', rfl, hleaves, hlater⟩ := mem_diskAfter.mp hfile
  obtain rfl : r = r' := Option.some.inj (hr.symm.trans hr')
  rw [PastRun.steps, hcompleted] at hleaves
  obtain ⟨rfl, hop, hdisks, hresume⟩ := completed_leaves.mp hleaves
  exact ⟨r, hr, hcompleted, hop, hdisks, hresume, hlater⟩

end Chbackup
