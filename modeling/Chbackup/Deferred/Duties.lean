import Chbackup.Deferred.World
import Chbackup.Lib.Frames

/-!
# What the operations on deferred freezes mind

Each of the programs keeps to a discipline that can be checked on its text alone.

* A record is replaced only by one that lists every table its thread cannot rule out to be frozen, with
  the same terms; it is removed, and so is its directory, only by a thread that knows of no such table.
* A table is released, and a record replaced, only under the lock of a command that covers the backup, or
  by the reaper once it has seen, under the lock of the backup, that the record has no running owner.
-/

namespace Chbackup

open CallTree Prog

/-- The commands that release tables without asking who owns the record. -/
def releasingCommands : List Str := ["create", "upload", "release-deferred", "clean_broken"]

namespace DeferredMind

variable (l : DeferredMind)

/-- The lock of the command of the thread covers a backup, and the command may release its tables. -/
def LockedBy (b : Str) : Prop := ∃ x ∈ l.locked, x.2.covers b = true ∧ x.1 ∈ releasingCommands

/-- The thread may release the tables of a backup and replace its record. -/
def MayTouch (b : Str) : Prop := l.LockedBy b ∨ l.cleared = some b ∧ ∃ x ∈ l.locked, x.2 = .backup b

/-- The calls that a thread may make. -/
def Duty : DeferredCall → Prop
  | .loadRecord b => l.isUpload = true → l.LockedBy b
  | .publish true b r =>
    l.isUpload = false ∧ l.LockedBy b ∧ r.backupName = b ∧ l.creating = some b ∧
      ∃ t, l.custody = some ⟨b, [], t⟩
  | .publish false b r =>
    l.MayTouch b ∧ r.backupName = b ∧
      ∃ remaining, l.custody = some ⟨b, remaining, some r.terms⟩ ∧ remaining ⊆ r.retained
  | .unfreeze b _ => l.MayTouch b
  | .removeRecord b => ∃ t, l.custody = some ⟨b, [], t⟩
  | .removeDir b => ∃ t, l.custody = some ⟨b, [], t⟩
  | .pidAlive pid => ∀ b r, l.judging = some (b, r) → r.ownerPid = pid
  | .acquire command scope =>
    command = reapCommand ∧ l.isUpload = false ∨
      l.started = false ∧ command = l.command ∧ scope = l.scope
  | _ => True

/-- The thread has the locks that it had. -/
structure SameLocks (l' : DeferredMind) : Prop where
  isUpload : l'.isUpload = l.isUpload
  locked : l'.locked = l.locked

/-- The thread has the locks that it had, and has cleared what it had cleared. -/
structure Agrees (l' : DeferredMind) : Prop extends l.SameLocks l' where
  cleared : l'.cleared = l.cleared

variable {l} {l' l'' : DeferredMind} {b : Str}

theorem SameLocks.refl : l.SameLocks l := ⟨rfl, rfl⟩

theorem SameLocks.trans (h : l.SameLocks l') (h' : l'.SameLocks l'') : l.SameLocks l'' :=
  ⟨h'.isUpload.trans h.isUpload, h'.locked.trans h.locked⟩

theorem SameLocks.lockedBy (h : l.SameLocks l') (hb : l.LockedBy b) : l'.LockedBy b := by
  rw [LockedBy, h.locked]
  exact hb

theorem Agrees.refl : l.Agrees l := ⟨.refl, rfl⟩

theorem Agrees.trans (h : l.Agrees l') (h' : l'.Agrees l'') : l.Agrees l'' :=
  ⟨h.toSameLocks.trans h'.toSameLocks, h'.cleared.trans h.cleared⟩

theorem Agrees.mayTouch (h : l.Agrees l') (hb : l.MayTouch b) : l'.MayTouch b := by
  rw [MayTouch, LockedBy, h.locked, h.cleared]
  exact hb

theorem relies_of_locked {x : Str × LockScope} (hx : x ∈ l.locked) (hcovers : x.2.covers b = true) :
    l.relies b = true := by
  rw [relies, Bool.or_eq_true]
  exact .inr (List.any_eq_true.mpr ⟨x, hx, hcovers⟩)

theorem LockedBy.relies (h : l.LockedBy b) : l.relies b = true := by
  obtain ⟨x, hx, hcovers, -⟩ := h
  exact relies_of_locked hx hcovers

/-- What is read of a record is known, if the thread goes by it. -/
theorem custody_loadRecord {r : DeferredFreezeRecord} (h : l.relies b = true) :
    (l.learn ⟨.loadRecord b, .ok (some r)⟩).custody = some ⟨b, r.retained, some r.terms⟩ :=
  if_pos h

theorem learnAbsent_eq (h : l.relies b = true ∨ l.deleting = some b) :
    l.learnAbsent b = some ⟨b, [], none⟩ := by
  rw [learnAbsent, if_pos]
  rcases h with h | h
  · simp [h]
  · simp [h]

theorem sameLocks_startToken (pid : Nat) (token : Option Str) :
    l.SameLocks (l.learn ⟨.startToken pid, token⟩) ∧
      (l.learn ⟨.startToken pid, token⟩).custody = l.custody := by
  unfold learn
  cases l.judging with
  | none => exact ⟨.refl, rfl⟩
  | some x =>
    dsimp only
    split_ifs
    · exact ⟨⟨rfl, rfl⟩, rfl⟩
    · exact ⟨.refl, rfl⟩

end DeferredMind

/-- The call takes or drops a lock. -/
def DeferredCall.isLock : DeferredCall → Bool
  | .acquire _ _ => true
  | .release _ => true
  | _ => false

/-! ## Releasing tables -/

section Release

variable {P : DeferredMind → DeferredCall → Prop}
  (hP : ∀ l c, l.Duty c → c.isLock = false → P l c) {l : DeferredMind} {b : Str}

include hP

/-- What is still frozen afterwards is among what could not be released. -/
theorem obeys_unfreezeAllChecked (xs : List FreezeInfo) (touch : l.MayTouch b) :
    Obeys DeferredMind.learn P
      (fun l' (r : Except DeferredError (List FreezeInfo)) => l.Agrees l' ∧ l'.creating = l.creating ∧
        ∃ failed, r = .ok failed ∧ (l.custody = none → l'.custody = none) ∧
          ∀ c, l.custody = some c → ∃ remaining, l'.custody = some ⟨c.backup, remaining, c.terms⟩ ∧
            remaining ⊆ c.remaining ∧ ∀ x ∈ remaining, x ∈ xs → x ∈ failed)
      l (unfreezeAllChecked b xs) := by
  induction xs generalizing l with
  | nil =>
    refine ⟨.refl, rfl, [], rfl, id, fun c hc => ⟨c.remaining, hc, fun _ h => h, ?_⟩⟩
    intro x _ hx
    exact absurd hx List.not_mem_nil
  | cons info rest ih =>
    refine obeys_perform (hP _ _ touch rfl) fun (released : Bool) => ?_
    cases released with
    | true =>
      have touch' : (l.learn ⟨.unfreeze b info, true⟩).MayTouch b := touch
      have hlearn : (l.learn ⟨.unfreeze b info, true⟩).custody =
          l.custody.map fun c => { c with remaining := c.remaining.filter (· ≠ info) } := rfl
      refine (ih touch').bind (fun l' failed h => ?_) fun l' e h => ?_
      · obtain ⟨hagrees, hcreating, failed', hfailed, hnone, hcustody⟩ := h
        cases hfailed
        refine ⟨⟨⟨hagrees.isUpload, hagrees.locked⟩, hagrees.cleared⟩, hcreating, failed, rfl, ?_, ?_⟩
        · intro hc
          exact hnone (by rw [hlearn, hc]; rfl)
        · intro c hc
          obtain ⟨remaining, hc', hsub, hmem⟩ := hcustody _ (by rw [hlearn, hc]; rfl)
          refine ⟨remaining, hc', fun x hx => (List.mem_filter.mp (hsub hx)).1, fun x hx hxs => ?_⟩
          rcases List.mem_cons.mp hxs with rfl | hxs
          · exact absurd rfl (of_decide_eq_true (List.mem_filter.mp (hsub hx)).2)
          · exact hmem x hx hxs
      · obtain ⟨-, -, failed', hfailed, -⟩ := h
        cases hfailed
    | false =>
      refine (ih touch).bind (fun l' failed h => ?_) fun l' e h => ?_
      · obtain ⟨hagrees, hcreating, failed', hfailed, hnone, hcustody⟩ := h
        cases hfailed
        refine ⟨hagrees, hcreating, info :: failed, rfl, hnone, fun c hc => ?_⟩
        obtain ⟨remaining, hc', hsub, hmem⟩ := hcustody c hc
        refine ⟨remaining, hc', hsub, fun x hx hxs => ?_⟩
        rcases List.mem_cons.mp hxs with rfl | hxs
        · exact List.mem_cons_self
        · exact List.mem_cons_of_mem _ (hmem x hx hxs)
      · obtain ⟨-, -, failed', hfailed, -⟩ := h
        cases hfailed

theorem obeys_deleteRecord {t : Option (Nat × Nat)} (hc : l.custody = some ⟨b, [], t⟩) :
    Obeys DeferredMind.learn P (fun l' r => l.Agrees l' ∧ ∃ removed, r = .ok removed) l (deleteRecord b) := by
  refine obeys_perform (hP _ _ trivial rfl) fun (present : Bool) => ?_
  cases present with
  | false => exact ⟨⟨⟨rfl, rfl⟩, rfl⟩, true, rfl⟩
  | true =>
    refine obeys_perform (hP _ _ ⟨t, hc⟩ rfl) fun (removed : Bool) => ?_
    exact ⟨⟨⟨rfl, rfl⟩, rfl⟩, removed, rfl⟩

theorem obeys_releaseRetained {r : DeferredFreezeRecord} {remaining : List FreezeInfo}
    (touch : l.MayTouch b) (hc : l.custody = some ⟨b, remaining, some r.terms⟩)
    (hsub : remaining ⊆ r.retained) :
    Obeys DeferredMind.learn P (fun l' x => l.Agrees l' ∧ ∃ a, x = .ok a) l (releaseRetained b r) := by
  refine (obeys_unfreezeAllChecked hP r.retained touch).bind (fun l' failed h => ?_) fun l' e h => ?_
  · obtain ⟨hagrees, -, failed', hfailed, -, hcustody⟩ := h
    cases hfailed
    obtain ⟨left, hc', hleft, hmem⟩ := hcustody _ hc
    have hall : left ⊆ failed := fun x hx => hmem x hx (hsub (hleft hx))
    split
    · rename_i hnil
      subst hnil
      obtain rfl : left = [] := List.eq_nil_of_subset_nil hall
      refine (obeys_deleteRecord hP hc').bind (fun l'' removed h => ?_) fun l'' e h => ?_
      · exact ⟨hagrees.trans h.1, _, rfl⟩
      · obtain ⟨-, _, h⟩ := h
        cases h
    · refine obeys_perform (hP _ _ ⟨hagrees.mayTouch touch, rfl, left, hc', hall⟩ rfl) fun (ok : Bool) => ?_
      cases ok with
      | true => exact ⟨⟨⟨hagrees.isUpload, hagrees.locked⟩, hagrees.cleared⟩, _, rfl⟩
      | false => exact ⟨⟨⟨hagrees.isUpload, hagrees.locked⟩, hagrees.cleared⟩, _, rfl⟩
  · obtain ⟨-, -, failed', hfailed, -⟩ := h
    cases hfailed

/-! ## Reading a record -/

/-- What can be used is what the record lists. -/
theorem obeys_load (me : Process) (hl : l.LockedBy b) :
    Obeys DeferredMind.learn P
      (fun l' (x : Except DeferredError LoadOutcome) => l.SameLocks l' ∧ ∃ outcome, x = .ok outcome ∧
        ∀ r, outcome = .usable r → l'.custody = some ⟨b, r.retained, some r.terms⟩)
      l (load me b) := by
  refine obeys_perform (hP _ _ trivial rfl) fun (present : Bool) => ?_
  cases present with
  | false => exact ⟨⟨rfl, rfl⟩, _, rfl, fun r h => by cases h⟩
  | true =>
    refine obeys_perform (hP _ _ (fun _ => hl) rfl) fun loaded => ?_
    match loaded with
    | .error e => exact ⟨⟨rfl, rfl⟩, _, rfl, fun r h => by cases h⟩
    | .ok none => exact ⟨⟨rfl, rfl⟩, _, rfl, fun r h => by cases h⟩
    | .ok (some r) =>
      dsimp only
      split_ifs with hname hown
      · exact ⟨⟨rfl, rfl⟩, _, rfl, fun r h => by cases h⟩
      · exact ⟨⟨rfl, rfl⟩, _, rfl, fun r h => by cases h; exact DeferredMind.custody_loadRecord hl.relies⟩
      · refine obeys_perform (hP _ _ (fun b' r' h => by cases h; rfl) rfl) fun (alive : Bool) => ?_
        refine obeys_perform (hP _ _ trivial rfl) fun (token : Option Str) => ?_
        obtain ⟨hlocks, hcustody⟩ := DeferredMind.sameLocks_startToken
          (l := DeferredMind.learn (DeferredMind.learn l ⟨.loadRecord b, Except.ok (some r)⟩)
            ⟨.pidAlive r.ownerPid, alive⟩) r.ownerPid token
        replace hcustody := hcustody.trans (DeferredMind.custody_loadRecord (r := r) hl.relies)
        split_ifs
        · exact ⟨⟨hlocks.isUpload, hlocks.locked⟩, _, rfl, fun r h => by cases h⟩
        · refine obeys_perform (hP _ _ ⟨.inl (hlocks.lockedBy hl), not_not.mp hname, r.retained, hcustody, ?_⟩ rfl)
            fun (published : Bool) => ?_
          · exact fun _ h => h
          · cases published with
            | true => exact ⟨⟨hlocks.isUpload, hlocks.locked⟩, _, rfl, fun r' h => by cases h; exact hcustody⟩
            | false => exact ⟨⟨hlocks.isUpload, hlocks.locked⟩, _, rfl, fun r' h => by cases h; exact hcustody⟩

theorem obeys_demoteOnOperationEnd (hl : l.LockedBy b) :
    Obeys DeferredMind.learn P (fun l' _ => l.SameLocks l') l (demoteOnOperationEnd b) := by
  refine obeys_perform (hP _ _ trivial rfl) fun (present : Bool) => ?_
  cases present with
  | false => exact ⟨rfl, rfl⟩
  | true =>
    refine obeys_perform (hP _ _ (fun _ => hl) rfl) fun loaded => ?_
    match loaded with
    | .error e => exact ⟨rfl, rfl⟩
    | .ok none => exact ⟨rfl, rfl⟩
    | .ok (some r) =>
      dsimp only
      split_ifs with hname
      · exact ⟨rfl, rfl⟩
      · exact ⟨rfl, rfl⟩
      · refine obeys_perform (hP _ _ ⟨.inl hl, not_not.mp hname, r.retained,
          DeferredMind.custody_loadRecord hl.relies, fun _ h => h⟩ rfl) fun (ok : Bool) => ?_
        cases ok with
        | true => exact ⟨rfl, rfl⟩
        | false => exact ⟨rfl, rfl⟩

theorem obeys_releaseNow (hl : l.LockedBy b) :
    Obeys DeferredMind.learn P (fun l' _ => l.SameLocks l') l (releaseNow b) := by
  refine obeys_perform (hP _ _ trivial rfl) fun (present : Bool) => ?_
  cases present with
  | false => exact ⟨rfl, rfl⟩
  | true =>
    refine obeys_perform (hP _ _ (fun _ => hl) rfl) fun loaded => ?_
    match loaded with
    | .error e => exact ⟨rfl, rfl⟩
    | .ok none => exact ⟨rfl, rfl⟩
    | .ok (some r) =>
      dsimp only
      split_ifs
      · exact ⟨rfl, rfl⟩
      · refine (obeys_releaseRetained hP (r := r) (.inl ?_) (DeferredMind.custody_loadRecord hl.relies)
          fun _ h => h).bind (fun l' x h => ?_) fun l' e h => ?_
        · exact hl
        · split_ifs
          · exact ⟨h.1.isUpload, h.1.locked⟩
          · exact ⟨h.1.isUpload, h.1.locked⟩
          · exact ⟨h.1.isUpload, h.1.locked⟩
        · exact ⟨h.1.isUpload, h.1.locked⟩

/-- A record that is judged reapable has no running owner. -/
theorem obeys_judgeRecord {r : DeferredFreezeRecord} (hr : l.judging = some (b, r)) :
    Obeys DeferredMind.learn P
      (fun l' (x : Except DeferredError ProtectionStatus) => l.SameLocks l' ∧ l'.custody = l.custody ∧
        ∃ status, x = .ok status ∧ status ≠ .notProtected ∧
          ∀ r', status = .reapable r' → r' = r ∧ l'.cleared = some b)
      l (judgeRecord r) := by
  refine obeys_perform (hP _ _ (fun b' r' h => by rw [hr] at h; cases h; rfl) rfl) fun (alive : Bool) => ?_
  refine obeys_perform (hP _ _ trivial rfl) fun (token : Option Str) => ?_
  obtain ⟨hlocks, hcustody⟩ := DeferredMind.sameLocks_startToken
    (l := l.learn ⟨.pidAlive r.ownerPid, alive⟩) r.ownerPid token
  split_ifs with hlive
  · exact ⟨⟨hlocks.isUpload, hlocks.locked⟩, hcustody, _, rfl, by simp, fun r' h => by cases h⟩
  · have hcleared : (DeferredMind.learn (l.learn ⟨.pidAlive r.ownerPid, alive⟩)
        ⟨.startToken r.ownerPid, token⟩).cleared = some b := by
      unfold DeferredMind.learn
      simp only [hr]
      rw [if_pos ⟨trivial, Bool.eq_false_iff.mpr hlive⟩]
    refine obeys_perform (hP _ _ trivial rfl) fun (now : Nat) => ?_
    split_ifs
    · exact ⟨⟨hlocks.isUpload, hlocks.locked⟩, hcustody, _, rfl, by simp, fun r' h => by cases h⟩
    · refine ⟨⟨hlocks.isUpload, hlocks.locked⟩, hcustody, _, rfl, by simp, fun r' h => ?_⟩
      cases h
      exact ⟨rfl, hcleared⟩

/-- What is not protected has no record; what is judged reapable without looking at the lock is known. -/
theorem obeys_statusInner (consultLock : Bool) (hl : l.isUpload = true → l.LockedBy b) :
    Obeys DeferredMind.learn P
      (fun l' (x : Except DeferredError ProtectionStatus) => l.SameLocks l' ∧ ∃ status, x = .ok status ∧
        (l.relies b = true ∨ l.deleting = some b → status = .notProtected →
          ∃ t, l'.custody = some ⟨b, [], t⟩) ∧
        ∀ r, l.relies b = true → status = .reapable r → consultLock = false →
          l'.custody = some ⟨b, r.retained, some r.terms⟩ ∧ l'.cleared = some b)
      l (statusInner b consultLock) := by
  refine obeys_perform (hP _ _ trivial rfl) fun (present : Bool) => ?_
  cases present with
  | false =>
    exact ⟨⟨rfl, rfl⟩, _, rfl, fun h _ => ⟨none, DeferredMind.learnAbsent_eq h⟩, fun r _ h => by cases h⟩
  | true =>
    refine obeys_perform (hP _ _ hl rfl) fun loaded => ?_
    match loaded with
    | .error e => exact ⟨⟨rfl, rfl⟩, _, rfl, fun _ h => (by cases h), fun r _ h => (by cases h)⟩
    | .ok none =>
      exact ⟨⟨rfl, rfl⟩, _, rfl, fun h _ => ⟨none, DeferredMind.learnAbsent_eq h⟩, fun r _ h => by cases h⟩
    | .ok (some r) =>
      cases consultLock with
      | true =>
        refine obeys_perform (hP _ _ trivial rfl) fun (active : Bool) => ?_
        cases active with
        | true => exact ⟨⟨rfl, rfl⟩, _, rfl, fun _ h => (by cases h), fun r _ h => (by cases h)⟩
        | false =>
          refine (obeys_judgeRecord hP (b := b) rfl).imp fun l' x h => ?_
          obtain ⟨hlocks, -, status, rfl, hne, -⟩ := h
          exact ⟨⟨hlocks.isUpload, hlocks.locked⟩, status, rfl, fun _ h => absurd h hne, fun r _ _ h => by cases h⟩
      | false =>
        refine (obeys_judgeRecord hP (b := b) rfl).imp fun l' x h => ?_
        obtain ⟨hlocks, hcustody, status, rfl, hne, hreap⟩ := h
        refine ⟨⟨hlocks.isUpload, hlocks.locked⟩, status, rfl, fun _ h => absurd h hne, fun r' hrel h _ => ?_⟩
        obtain ⟨rfl, hcleared⟩ := hreap r' h
        exact ⟨hcustody.trans (DeferredMind.custody_loadRecord hrel), hcleared⟩

theorem obeys_reapUnderLock (hup : l.isUpload = false)
    (hl : l.LockedBy b ∨ ∃ x ∈ l.locked, x.2 = .backup b) :
    Obeys DeferredMind.learn P (fun l' _ => l.SameLocks l') l (reapUnderLock b) := by
  refine (obeys_statusInner hP false fun h => ?_).bind (fun l' status h => ?_) fun l' e h => h.1
  · rw [hup] at h
    cases h
  · obtain ⟨hlocks, status', hstatus, -, hreap⟩ := h
    cases hstatus
    match status with
    | .notProtected => exact hlocks
    | .isProtected _ _ => exact hlocks
    | .reapable r =>
      have hrel : l.relies b = true := by
        rcases hl with hl | ⟨x, hx, hscope⟩
        · exact hl.relies
        · exact DeferredMind.relies_of_locked hx (by simp [hscope, LockScope.covers])
      obtain ⟨hcustody, hcleared⟩ := hreap r hrel rfl rfl
      have touch : l'.MayTouch b := by
        rcases hl with hl | hl
        · exact .inl (hlocks.lockedBy hl)
        · refine .inr ⟨hcleared, ?_⟩
          rw [hlocks.locked]
          exact hl
      refine (obeys_releaseRetained hP touch hcustody fun _ h => h).bind (fun l'' x h => ?_) fun l'' e h => ?_
      · exact hlocks.trans h.1.toSameLocks
      · exact hlocks.trans h.1.toSameLocks

theorem obeys_deleteLocal (hl : l.isUpload = true → l.LockedBy b) :
    Obeys DeferredMind.learn P (fun l' _ => l.SameLocks l') l (deleteLocal b) := by
  refine obeys_perform (hP _ _ trivial rfl) fun (present : Bool) => ?_
  cases present with
  | false => exact ⟨rfl, rfl⟩
  | true =>
    refine Obeys.bind (Q := fun l' (x : Except DeferredError Bool) => l.SameLocks l' ∧
      (x = .ok false → ∃ t, l'.custody = some ⟨b, [], t⟩)) ?_ (fun l' blocked h => ?_) fun l' e h => h.1
    · have hl' : (l.learn ⟨.dirExists b, true⟩).isUpload = true → (l.learn ⟨.dirExists b, true⟩).LockedBy b := hl
      refine (obeys_statusInner hP true hl').bind (fun l' status h => ?_) fun l' e h => ?_
      · obtain ⟨hlocks, status', hstatus, hnone, -⟩ := h
        cases hstatus
        refine ⟨⟨hlocks.isUpload, hlocks.locked⟩, fun h => hnone (.inr rfl) ?_⟩
        simpa using h
      · exact ⟨⟨h.1.isUpload, h.1.locked⟩, fun h => by cases h⟩
    · cases blocked with
      | true => exact h.1
      | false =>
        refine obeys_perform (hP _ _ (h.2 rfl) rfl) fun (removed : Bool) => ?_
        cases removed with
        | true => exact ⟨h.1.isUpload, h.1.locked⟩
        | false => exact ⟨h.1.isUpload, h.1.locked⟩

end Release

/-! ## Locks -/

theorem obeys_underLock {α : Type} {P : DeferredMind → DeferredCall → Prop}
    {Q : DeferredMind → Except DeferredError α → Prop} {l : DeferredMind} {command : Str} {scope : LockScope}
    {p : DeferredProg α} (hacquire : P l (.acquire command scope)) (hrelease : ∀ l, P l (.release scope))
    (hp : Obeys DeferredMind.learn P Q (l.learn ⟨.acquire command scope, true⟩) p) :
    Obeys DeferredMind.learn P (fun _ _ => True) l (underLock command scope p) := by
  refine obeys_perform hacquire fun (acquired : Bool) => ?_
  cases acquired with
  | false => trivial
  | true =>
    refine hp.attempt.bind (fun l' result h => ?_) fun _ _ _ => trivial
    refine obeys_perform (hrelease l') fun _ => ?_
    match result with
    | .ok a => trivial
    | .error e => trivial

/-- What the reaper minds that runs under the lock of a backup: it does not drop that lock. -/
def DeferredMind.DutyUnder (own : Option Str) (l : DeferredMind) (c : DeferredCall) : Prop :=
  l.Duty c ∧ ∀ b, own = some b → c ≠ .release (.backup b) ∧ c ≠ .release .global

/-- The thread holds the lock of a backup, if it is to hold one. -/
def DeferredMind.Under (own : Option Str) (l : DeferredMind) : Prop :=
  l.isUpload = false ∧ ∀ b, own = some b → l.LockedBy b

section Under

variable {own : Option Str} {l : DeferredMind} {b : Str}

theorem DeferredMind.dutyUnder_of_duty {l : DeferredMind} {c : DeferredCall} (h : l.Duty c)
    (hc : c.isLock = false) : l.DutyUnder own c := by
  refine ⟨h, fun b _ => ⟨?_, ?_⟩⟩
  · rintro rfl
    cases hc
  · rintro rfl
    cases hc

/-- A call that is about no lock neither brings nor takes one. -/
theorem DeferredMind.locked_learn_of_noLock {c : DeferredCall} {r : c.Reply} (hc : c.isLock = false) :
    (l.learn ⟨c, r⟩).locked = l.locked := by
  cases c with
  | acquire command scope => cases hc
  | release scope => cases hc
  | startToken pid => exact (sameLocks_startToken (l := l) pid r).1.locked
  | recordExists b => cases (show Bool from r) <;> rfl
  | loadRecord b =>
    match r with
    | .error _ => rfl
    | .ok none => rfl
    | .ok (some _) => rfl
  | publish first b r' => cases (show Bool from r) <;> rfl
  | unfreeze b info => cases (show Bool from r) <;> rfl
  | _ => rfl

/-- A call that is no release takes no lock away. -/
theorem DeferredMind.locked_learn {x : Str × LockScope} {c : DeferredCall} {r : c.Reply}
    (hx : x ∈ l.locked) (hc : c ≠ .release x.2) : x ∈ (l.learn ⟨c, r⟩).locked := by
  cases hlock : c.isLock with
  | false =>
    rw [locked_learn_of_noLock hlock]
    exact hx
  | true =>
    cases c with
    | release scope => exact List.mem_filter.mpr ⟨hx, by simpa using fun h => hc (congrArg _ h.symm)⟩
    | acquire command scope =>
      cases (show Bool from r) with
      | true => exact List.mem_cons_of_mem _ hx
      | false => exact hx
    | _ => cases hlock

/-- Who a thread is does not change. -/
structure DeferredMind.IsSame (l l' : DeferredMind) : Prop where
  me : l'.me = l.me
  isUpload : l'.isUpload = l.isUpload
  command : l'.command = l.command
  scope : l'.scope = l.scope

theorem DeferredMind.isSame_learn {c : DeferredCall} {r : c.Reply} : l.IsSame (l.learn ⟨c, r⟩) := by
  cases c with
  | startToken pid =>
    unfold learn
    cases l.judging with
    | none => exact ⟨rfl, rfl, rfl, rfl⟩
    | some x =>
      dsimp only
      split_ifs
      · exact ⟨rfl, rfl, rfl, rfl⟩
      · exact ⟨rfl, rfl, rfl, rfl⟩
  | recordExists b => cases (show Bool from r) <;> exact ⟨rfl, rfl, rfl, rfl⟩
  | loadRecord b =>
    match r with
    | .error _ => exact ⟨rfl, rfl, rfl, rfl⟩
    | .ok none => exact ⟨rfl, rfl, rfl, rfl⟩
    | .ok (some _) => exact ⟨rfl, rfl, rfl, rfl⟩
  | publish first b r' => cases (show Bool from r) <;> exact ⟨rfl, rfl, rfl, rfl⟩
  | unfreeze b info => cases (show Bool from r) <;> exact ⟨rfl, rfl, rfl, rfl⟩
  | _ => exact ⟨rfl, rfl, rfl, rfl⟩

/-- Under its lock, the reaper keeps it. -/
theorem DeferredMind.under_learn {c : DeferredCall} {r : c.Reply} (h : l.DutyUnder own c)
    (hl : l.Under own) : (l.learn ⟨c, r⟩).Under own := by
  refine ⟨isSame_learn.isUpload.trans hl.1, fun b hb => ?_⟩
  obtain ⟨x, hx, hcovers, hcommand⟩ := hl.2 b hb
  refine ⟨x, locked_learn hx ?_, hcovers, hcommand⟩
  rintro rfl
  obtain ⟨hbackup, hglobal⟩ := h.2 b hb
  obtain ⟨command, scope⟩ := x
  rw [LockScope.covers, Bool.or_eq_true, decide_eq_true_eq, decide_eq_true_eq] at hcovers
  rcases hcovers with rfl | rfl
  · exact hbackup rfl
  · exact hglobal rfl

theorem obeys_reapOne (b : Str) (hl : l.Under own) :
    Obeys DeferredMind.learn (DeferredMind.DutyUnder own) (fun l' _ => l'.Under own) l (reapOne own b) := by
  have hP : ∀ l c, DeferredMind.Duty l c → c.isLock = false → l.DutyUnder own c :=
    fun l c h hc => DeferredMind.dutyUnder_of_duty h hc
  have hno : ∀ {l : DeferredMind}, l.Under own → l.isUpload = true → l.LockedBy b := by
    intro l hl h
    rw [hl.1] at h
    cases h
  refine ((obeys_perform (hP _ _ trivial rfl) fun (present : Bool) => ?_ :
    Obeys DeferredMind.learn (DeferredMind.DutyUnder own) (fun _ _ => True) l (reapOne own b)).frame
      (F := DeferredMind.Under own) (fun l c r h hl => DeferredMind.under_learn h hl) hl).imp fun l r h => h.2
  cases present with
  | false => trivial
  | true =>
    have hstatus : ∀ consultLock, Obeys DeferredMind.learn (DeferredMind.DutyUnder own)
        (fun l' _ => l'.Under own) (l.learn ⟨.recordExists b, true⟩) (statusInner b consultLock) := by
      intro consultLock
      refine ((obeys_statusInner hP consultLock (hno hl)).frame
        (F := DeferredMind.Under own) (fun l c r h hl => DeferredMind.under_learn h hl) hl).imp fun l r h => h.2
    have hbranch : Obeys DeferredMind.learn (DeferredMind.DutyUnder own) (fun l' _ => l'.Under own)
        (l.learn ⟨.recordExists b, true⟩)
        (if own = some b then statusUnderLock b else protectionStatus b) := by
      split_ifs
      · exact hstatus false
      · exact hstatus true
    refine hbranch.bind (fun l' status hl' => ?_) fun _ _ _ => trivial
    match status with
    | .notProtected => trivial
    | .isProtected _ _ => trivial
    | .reapable r =>
      dsimp only
      split_ifs with hown
      · exact (obeys_reapUnderLock hP hl'.1 (.inl (hl'.2 b hown))).imp fun _ _ _ => trivial
      · have hlock : Obeys DeferredMind.learn (DeferredMind.DutyUnder own) (fun _ _ => True) l'
            (underLock reapCommand (.backup b) (reapUnderLock b)) := by
          refine obeys_underLock ⟨.inl ⟨rfl, hl'.1⟩, fun b' _ => ⟨?_, ?_⟩⟩ (fun l => ⟨trivial, fun b' hb' => ⟨?_, ?_⟩⟩)
            (obeys_reapUnderLock hP hl'.1 (.inr ⟨(reapCommand, .backup b), List.mem_cons_self, rfl⟩))
          · rintro ⟨⟩
          · rintro ⟨⟩
          · rintro ⟨⟩
            exact hown hb'
          · rintro ⟨⟩
        refine hlock.attempt.bind (fun l'' reaped _ => ?_) fun _ _ _ => trivial
        match reaped with
        | .ok _ => trivial
        | .error _ => trivial

theorem obeys_reapExpired (listing : List Str) (hl : l.Under own) :
    Obeys DeferredMind.learn DeferredMind.Duty (fun l' _ => l'.Under own) l (reapExpired listing own) := by
  refine Obeys.permit (P := DeferredMind.DutyUnder own) ?_ fun l c h => h.1
  refine Obeys.bind (obeys_forEach (fun b _ l hl => obeys_reapOne b hl) hl) (fun l' _ h => h) fun l' e h => h

end Under

/-! ## Commands -/

/-- The lock of a command covers the backup that it names. -/
theorem covers_scope {work : DeferredWork} {b : Str} (hb : work.backupName = some b) :
    work.scope.covers b = true := by
  have hbackup : ∀ command : Str, command ∈ (["create", "upload", "download", "restore", "create_remote",
      "restore_remote", "release-deferred"] : List Str) → (lockForCommand command (some b)).covers b = true := by
    intro command hcommand
    rw [lockForCommand, if_pos hcommand]
    split_ifs
    · simp [LockScope.covers]
    · simp [LockScope.covers]
  rw [DeferredWork.scope, hb]
  cases work with
  | create b' listing plan => exact hbackup "create" (by decide)
  | upload b' deleteAfter => exact hbackup "upload" (by decide)
  | releaseDeferred b' => exact hbackup "release-deferred" (by decide)
  | delete b' => rfl
  | retention chosen => cases hb
  | cleanBroken broken => cases hb
  | clean listing => cases hb

theorem scope_ne_none_of_backupName {work : DeferredWork} {b : Str} (hb : work.backupName = some b) :
    work.scope ≠ .none := by
  intro h
  have hcovers := covers_scope hb
  rw [h] at hcovers
  cases hcovers

section Commands

variable {l : DeferredMind} {b : Str} {me : Process}

theorem duty_of_noLock (l : DeferredMind) (c : DeferredCall) (h : l.Duty c) (_ : c.isLock = false) : l.Duty c := h

theorem obeys_retentionLocal (chosen : List Str) (hup : l.isUpload = false) :
    Obeys DeferredMind.learn DeferredMind.Duty (fun _ _ => True) l (retentionLocal chosen) := by
  refine Obeys.bind (Q := fun l' _ => l'.isUpload = false)
    (obeys_forEach (I := fun l : DeferredMind => l.isUpload = false) (fun b _ l hl => ?_) hup)
    (fun _ _ _ => trivial) fun _ _ _ => trivial
  refine Obeys.bind (obeys_deleteLocal duty_of_noLock fun h => ?_).attempt (fun l' x h => ?_) fun l' e h => ?_
  · rw [hl] at h
    cases h
  · obtain ⟨-, -, hlocks⟩ := h
    exact hlocks.isUpload.trans hl
  · obtain ⟨-, -, hlocks⟩ := h
    exact hlocks.isUpload.trans hl

theorem obeys_cleanBrokenLocal (broken : List Str) (hl : ∀ b, l.LockedBy b) :
    Obeys DeferredMind.learn DeferredMind.Duty (fun _ _ => True) l (cleanBrokenLocal broken) := by
  refine Obeys.bind (Q := fun l' _ => ∀ b, l'.LockedBy b) (obeys_forEach (fun b _ l hl => ?_) hl)
    (fun _ _ _ => trivial) fun _ _ _ => trivial
  refine obeys_perform trivial fun (present : Bool) => ?_
  have hpresent : ∀ b, (l.learn ⟨.recordExists b, present⟩).LockedBy b := by
    intro b
    cases present with
    | true => exact hl b
    | false => exact hl b
  have hlocked : ∀ {l' l'' : DeferredMind}, (∀ b, l'.LockedBy b) → l'.SameLocks l'' → ∀ b, l''.LockedBy b :=
    fun h h' b => h'.lockedBy (h b)
  have hl₁ : ∀ b', (l.learn ⟨.recordExists b, present⟩).LockedBy b' := by
    intro b'
    cases present with
    | true => exact hl b'
    | false => exact hl b'
  refine Obeys.bind (Q := fun l' _ => ∀ b, l'.LockedBy b) ?_ (fun l' released hl' => ?_) fun l' e h => h
  · cases present with
    | false => exact hl₁
    | true =>
      refine (obeys_releaseNow duty_of_noLock (hl₁ b)).attempt.imp fun l' r h => ?_
      obtain ⟨-, -, hlocks⟩ := h
      exact hlocked hl₁ hlocks
  · match released with
    | .error e => exact hl'
    | .ok n =>
      refine Obeys.bind (obeys_deleteLocal duty_of_noLock fun _ => hl' b).attempt (fun l'' x h => ?_)
        fun l'' e h => ?_
      · obtain ⟨-, -, hlocks⟩ := h
        exact hlocked hl' hlocks
      · obtain ⟨-, -, hlocks⟩ := h
        exact hlocked hl' hlocks

/-- What `create` does once its record is published or has not been. -/
theorem obeys_createTail {plan : FreezePlan} (hup : l.isUpload = false) (hl : l.LockedBy b)
    (hcreating : l.creating = some b) {t : Option (Nat × Nat)} (hc : l.custody = some ⟨b, [], t⟩) :
    Obeys DeferredMind.learn DeferredMind.Duty (fun _ _ => True) l (createTail me b plan) := by
  refine obeys_perform trivial fun (now : Nat) => ?_
  have hend : ∀ {l' : DeferredMind}, l'.LockedBy b → ∀ infos, Obeys DeferredMind.learn DeferredMind.Duty
      (fun _ _ => True) l' ((unfreezeAllChecked b infos).bind fun _ =>
        (perform (DeferredCall.tail b)).bind fun (succeeded : Bool) =>
          if succeeded then .ret () else .fail DeferredError.tailFailed) := by
    intro l' hl' infos
    refine (obeys_unfreezeAllChecked duty_of_noLock infos (.inl hl')).bind (fun l'' _ _ => ?_)
      fun _ _ _ => trivial
    refine obeys_perform trivial fun (succeeded : Bool) => ?_
    cases succeeded with
    | true => trivial
    | false => trivial
  dsimp only
  by_cases hnil : plan.retained = []
  · rw [if_pos hnil]
    exact hend hl _
  · rw [if_neg hnil]
    refine obeys_perform ⟨hup, hl, rfl, hcreating, t, hc⟩ fun (published : Bool) => ?_
    have hl₁ : ((l.learn ⟨.now, now⟩).learn ⟨.publish true b
        (DeferredFreezeRecord.new me b plan.retained plan.ttlSecs now), published⟩).LockedBy b := by
      cases published with
      | true => exact hl
      | false => exact hl
    cases published with
    | false => exact hend hl₁ _
    | true =>
      refine (obeys_unfreezeAllChecked duty_of_noLock plan.unfrozen (.inl hl₁)).bind (fun l' _ h => ?_)
        fun _ _ _ => trivial
      obtain ⟨hagrees, -, failed, -, -, hcustody⟩ := h
      obtain ⟨remaining, hc', hsub, -⟩ := hcustody _ rfl
      refine obeys_perform trivial fun (succeeded : Bool) => ?_
      have hl' : (l'.learn ⟨.tail b, succeeded⟩).LockedBy b := hagrees.toSameLocks.lockedBy hl₁
      have hc'' : (l'.learn ⟨.tail b, succeeded⟩).custody = some ⟨b, remaining, _⟩ := hc'
      cases succeeded with
      | true => exact (obeys_demoteOnOperationEnd duty_of_noLock hl').imp fun _ _ _ => trivial
      | false =>
        refine (obeys_releaseRetained duty_of_noLock (.inl hl') hc'' hsub).bind (fun _ _ _ => ?_) fun _ _ _ => ?_
        · trivial
        · trivial

theorem obeys_create {listing : List Str} {plan : FreezePlan} (hl : l.Under (some b)) :
    Obeys DeferredMind.learn DeferredMind.Duty (fun _ _ => True) l (create me b listing plan) := by
  refine (obeys_reapExpired listing hl).bind (fun l' _ hl' => ?_) fun _ _ _ => trivial
  refine obeys_perform trivial fun (created : Bool) => ?_
  cases created with
  | false => trivial
  | true =>
    refine obeys_perform trivial fun (frozen : Bool) => ?_
    cases frozen with
    | true => exact obeys_createTail hl'.1 (hl'.2 b rfl) rfl rfl
    | false =>
      have hl₁ : ((l'.learn ⟨.createDir b, true⟩).learn ⟨.freezeTables b, false⟩).LockedBy b := hl'.2 b rfl
      refine (obeys_unfreezeAllChecked duty_of_noLock _ (.inl hl₁)).bind (fun l'' _ h => ?_)
        fun _ _ _ => trivial
      obtain ⟨hagrees, -, failed, -, -, hcustody⟩ := h
      obtain ⟨remaining, hc', hsub, -⟩ := hcustody _ rfl
      obtain rfl : remaining = [] := List.eq_nil_of_subset_nil hsub
      refine obeys_perform ⟨_, hc'⟩ fun (removed : Bool) => ?_
      have hunder : (l''.learn ⟨.removeDir b, removed⟩).Under (some b) := by
        refine ⟨hagrees.isUpload.trans hl'.1, fun b' hb' => ?_⟩
        cases hb'
        exact hagrees.toSameLocks.lockedBy (hl'.2 b rfl)
      exact (obeys_reapExpired listing hunder).bind (fun _ _ _ => trivial) fun _ _ _ => trivial

theorem obeys_finalizeDeferredFreeze {succeeded : Bool} (hl : l.LockedBy b) :
    Obeys DeferredMind.learn DeferredMind.Duty (fun l' _ => l.SameLocks l') l
      (finalizeDeferredFreeze me b succeeded) := by
  cases succeeded with
  | false =>
    refine obeys_perform trivial fun (present : Bool) => ?_
    cases present with
    | false => exact ⟨rfl, rfl⟩
    | true => exact obeys_demoteOnOperationEnd duty_of_noLock hl
  | true =>
    refine (obeys_load duty_of_noLock me hl).bind (fun l' outcome h => ?_) fun l' e h => h.1
    obtain ⟨hlocks, outcome', houtcome, husable⟩ := h
    cases houtcome
    match outcome with
    | .none => exact hlocks
    | .corrupt => exact hlocks
    | .foreignLive _ => exact hlocks
    | .usable r =>
      have hcustody := husable r rfl
      dsimp only
      split_ifs with hnil
      · rw [hnil] at hcustody
        refine (obeys_deleteRecord duty_of_noLock hcustody).bind (fun l'' _ h => ?_) fun l'' e h => ?_
        · exact hlocks.trans h.1.toSameLocks
        · exact hlocks.trans h.1.toSameLocks
      · refine (obeys_releaseRetained duty_of_noLock (.inl (hlocks.lockedBy hl)) hcustody fun _ h => h).bind
          (fun l'' _ h => ?_) fun l'' e h => ?_
        · exact hlocks.trans h.1.toSameLocks
        · exact hlocks.trans h.1.toSameLocks

theorem obeys_uploadTask {deleteAfter : Bool} (hl : l.LockedBy b) :
    Obeys DeferredMind.learn DeferredMind.Duty (fun _ _ => True) l (uploadTask me b deleteAfter) := by
  refine (obeys_load duty_of_noLock me hl).bind (fun l' outcome h => ?_) fun _ _ _ => trivial
  have hl' : l'.LockedBy b := h.1.lockedBy hl
  refine obeys_perform trivial fun _ => ?_
  refine obeys_perform trivial fun (succeeded : Bool) => ?_
  have hl₂ : (DeferredMind.learn (l'.learn ⟨.startWork b, ()⟩) ⟨.awaitWork b, succeeded⟩).LockedBy b := hl'
  refine (obeys_finalizeDeferredFreeze hl₂).bind (fun l'' _ hlocks => ?_) fun _ _ _ => trivial
  split_ifs
  · trivial
  · exact (obeys_deleteLocal duty_of_noLock fun _ => hlocks.lockedBy hl₂).imp fun _ _ _ => trivial
  · trivial

/-- **Every command keeps to the discipline.** -/
theorem obeys_program (t : DeferredThread) :
    Obeys DeferredMind.learn DeferredMind.Duty (fun _ _ => True) t.mind (t.work.program t.process) := by
  obtain ⟨me, work⟩ := t
  have hlocked : ∀ {b : Str}, work.scope.covers b = true → work.command ∈ releasingCommands →
      (DeferredMind.learn (DeferredThread.mind ⟨me, work⟩) ⟨.acquire work.command work.scope, true⟩).LockedBy b :=
    fun hcovers hcommand => ⟨_, List.mem_cons_self, hcovers, hcommand⟩
  unfold DeferredWork.program
  split_ifs with hscope
  · cases work with
    | retention chosen => exact obeys_retentionLocal chosen rfl
    | create b listing plan => exact absurd hscope (scope_ne_none_of_backupName rfl)
    | upload b deleteAfter => exact absurd hscope (scope_ne_none_of_backupName rfl)
    | releaseDeferred b => exact absurd hscope (scope_ne_none_of_backupName rfl)
    | delete b => exact absurd hscope (scope_ne_none_of_backupName rfl)
    | cleanBroken broken => cases hscope
    | clean listing => cases hscope
  · refine obeys_underLock (Q := fun _ _ => True) (.inr ⟨rfl, rfl, rfl⟩) (fun _ => trivial) ?_
    cases work with
    | create b listing plan =>
      refine obeys_create ⟨rfl, ?_⟩
      rintro _ ⟨⟩
      exact hlocked (covers_scope rfl) (show ("create" : Str) ∈ releasingCommands by decide)
    | upload b deleteAfter =>
      exact obeys_uploadTask (hlocked (covers_scope rfl) (show ("upload" : Str) ∈ releasingCommands by decide))
    | releaseDeferred b =>
      have hl := hlocked (covers_scope (b := b) rfl) (show ("release-deferred" : Str) ∈ releasingCommands by decide)
      exact (obeys_releaseNow duty_of_noLock hl).bind (fun _ _ _ => trivial) fun _ _ _ => trivial
    | delete b =>
      refine (obeys_deleteLocal duty_of_noLock fun h => ?_).imp fun _ _ _ => trivial
      cases h
    | retention chosen => exact absurd rfl hscope
    | cleanBroken broken =>
      refine obeys_cleanBrokenLocal broken fun b => hlocked rfl ?_
      exact (show ("clean_broken" : Str) ∈ releasingCommands by decide)
    | clean listing =>
      refine (@obeys_reapExpired none _ listing ⟨rfl, fun _ h => ?_⟩).bind (fun _ _ _ => trivial) fun _ _ _ => trivial
      cases h

end Commands

end Chbackup
