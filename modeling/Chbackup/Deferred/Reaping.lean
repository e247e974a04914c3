import Chbackup.Deferred.Listed

/-!
# What the reaper releases

When nothing fails and nobody interferes, a pass of `reap_expired` releases the freezes that are due: the
record has run out, its owner does not run, and no lock is in the way.  It releases all of these and no
others, and leaves the locks as they were.

Together with `listed_of_reaches` this bounds how long a table stays frozen, by the terms under
which the freeze was published.
-/

namespace Chbackup

open CallTree Prog

namespace DeferredWorld

variable (w : DeferredWorld)

/-- The owner of a record runs. -/
def ownerRuns (r : DeferredFreezeRecord) : Bool :=
  r.livenessFrom (r.ownerPid ≠ 0 && (w.procs r.ownerPid).isSome) (w.procs r.ownerPid).join

/-- The lock of the backup can be had by a caller that holds the lock of `own`. -/
def lockFree (own : Option Str) (b : Str) : Bool :=
  own = some b || !w.locks.any fun x => x.1.blocks (.backup b)

/-- The record of a backup, if its freeze is due. -/
def due (own : Option Str) (b : Str) : Option DeferredFreezeRecord :=
  match w.file b with
  | .holds r => if !w.ownerRuns r && r.isExpired w.clock && w.lockFree own b then some r else none
  | _ => none

/-- Tables are released. -/
def releasedAll (xs : List FreezeInfo) : DeferredWorld := { w with held := w.held.filter (·.2 ∉ xs) }

/-- The record of a backup is removed. -/
def withoutRecord (b : Str) : DeferredWorld := { w with backups := w.backups.insert b .absent }

/-- A freeze is released, and its record with it. -/
def reaped (b : Str) (r : DeferredFreezeRecord) : DeferredWorld := (w.releasedAll r.retained).withoutRecord b

/-- The freeze of a backup is released if it is due. -/
def reapDue (own : Option Str) (b : Str) : DeferredWorld :=
  match w.due own b with
  | some r => w.reaped b r
  | none => w

/-- The end of `status_inner`. -/
def judged (r : DeferredFreezeRecord) : ProtectionStatus :=
  if w.ownerRuns r then .isProtected "the recorded owner process is still alive" r.ownerPid
  else if !r.isExpired w.clock then
    .isProtected "the deferred freeze is orphaned but has not yet expired" r.ownerPid
  else .reapable r

/-- What `status_inner` says. -/
def status (b : Str) (consultLock : Bool) : ProtectionStatus :=
  match w.file b with
  | .absent => .notProtected
  | .unreadable _ => .isProtected "deferred-freeze record is unreadable" 0
  | .holds r =>
    if consultLock && w.locks.any fun x => x.1.file = (LockScope.backup b).file then
      .isProtected "an operation holds the per-backup lock" r.ownerPid
    else w.judged r

end DeferredWorld

section Exec

variable {w : DeferredWorld} {i : Nat} {b : Str} {r : DeferredFreezeRecord}

theorem filter_notMem_cons {α : Type} [DecidableEq α] (held : List (Str × α)) (x : α) (xs : List α) :
    (held.filter (·.2 ≠ x)).filter (·.2 ∉ xs) = held.filter (·.2 ∉ x :: xs) := by
  rw [List.filter_filter]
  refine List.filter_congr fun y _ => ?_
  simp [Bool.and_comm]

/-- Every table is released. -/
theorem exec_unfreezeAllChecked (hfault : w.fault = .none) (b : Str) (xs : List FreezeInfo) :
    exec (DeferredWorld.serve i) (unfreezeAllChecked b xs) w =
      (.ok [], w.releasedAll xs) := by
  induction xs generalizing w with
  | nil => simp [unfreezeAllChecked, DeferredWorld.releasedAll]
  | cons info rest ih =>
    have hreleased : DeferredWorld.serve i (.unfreeze b info) w = (true, w.released info) := by
      simp [DeferredWorld.serve, hfault]
    have hrest := ih (w := w.released info) hfault
    rw [unfreezeAllChecked, exec_bind, perform, exec_call, exec_ret, hreleased]
    dsimp only
    rw [exec_bind, hrest]
    simp only [exec_ret, if_true, DeferredWorld.releasedAll, DeferredWorld.released, filter_notMem_cons]

theorem exec_perform {α : Type} (c : DeferredCall) (f : c.Reply → DeferredProg α) (w : DeferredWorld) :
    exec (DeferredWorld.serve i) ((perform c).bind f) w =
      exec (DeferredWorld.serve i) (f (DeferredWorld.serve i c w).1) (DeferredWorld.serve i c w).2 := rfl

theorem exec_judgeRecord (r : DeferredFreezeRecord) :
    exec (DeferredWorld.serve i) (judgeRecord r) w = (.ok (w.judged r), w) := by
  rw [judgeRecord, exec_perform, exec_perform, DeferredWorld.judged]
  by_cases hlive : w.ownerRuns r = true
  · have hlive' := hlive
    rw [DeferredWorld.ownerRuns] at hlive'
    rw [if_pos hlive]
    exact congrArg (fun p => exec (DeferredWorld.serve i) p w) (if_pos hlive')
  · have hlive' := hlive
    rw [DeferredWorld.ownerRuns] at hlive'
    rw [if_neg hlive]
    refine (congrArg (fun p => exec (DeferredWorld.serve i) p w) (if_neg hlive')).trans ?_
    rw [exec_perform]
    show exec _ (if !r.isExpired w.clock then _ else _) w = _
    split_ifs
    · rfl
    · rfl

/-- What `status_inner` says. -/
theorem exec_statusInner (hfault : w.fault = .none) (b : Str) (consultLock : Bool) :
    exec (DeferredWorld.serve i) (statusInner b consultLock) w = (.ok (w.status b consultLock), w) := by
  rw [statusInner, exec_perform]
  cases hfile : w.file b with
  | absent =>
    have hreply : DeferredWorld.serve i (.recordExists b) w = (false, w) := by
      simp [DeferredWorld.serve, hfile]
    rw [hreply, DeferredWorld.status, hfile]
    rfl
  | unreadable e =>
    have hreply : DeferredWorld.serve i (.recordExists b) w = (true, w) := by
      simp [DeferredWorld.serve, hfile]
    have hloaded : DeferredWorld.serve i (.loadRecord b) w = (.error e, w) := by
      simp [DeferredWorld.serve, hfile, hfault, loadStateFile]
    rw [hreply, DeferredWorld.status, hfile]
    show exec _ ((perform (DeferredCall.loadRecord b)).bind _) w = _
    rw [exec_perform, hloaded]
    rfl
  | holds r =>
    have hreply : DeferredWorld.serve i (.recordExists b) w = (true, w) := by
      simp [DeferredWorld.serve, hfile]
    have hloaded : DeferredWorld.serve i (.loadRecord b) w = (.ok (some r), w) := by
      simp [DeferredWorld.serve, hfile, hfault, loadStateFile]
    rw [hreply, DeferredWorld.status, hfile]
    show exec _ ((perform (DeferredCall.loadRecord b)).bind _) w = _
    rw [exec_perform, hloaded]
    cases consultLock with
    | false => exact exec_judgeRecord r
    | true =>
      show exec _ ((perform (DeferredCall.lockActive b)).bind _) w = _
      rw [exec_perform]
      show exec _ (if (w.locks.any fun x => x.1.file = (LockScope.backup b).file) = true then _ else _) w = _
      simp only [Bool.true_and]
      split_ifs
      · rfl
      · exact exec_judgeRecord r

theorem exec_deleteRecord (hfault : w.fault = .none) (hfile : w.file b = .holds r) :
    exec (DeferredWorld.serve i) (deleteRecord b) w = (.ok true, w.withoutRecord b) := by
  have hreply : DeferredWorld.serve i (.recordExists b) w = (true, w) := by
    simp [DeferredWorld.serve, hfile]
  have hremoved : DeferredWorld.serve i (.removeRecord b) w = (true, w.withoutRecord b) := by
    simp [DeferredWorld.serve, hfile, hfault, DeferredWorld.withoutRecord]
  rw [deleteRecord, exec_perform, hreply]
  show exec _ ((perform (DeferredCall.removeRecord b)).bind _) w = _
  rw [exec_perform, hremoved]
  rfl

/-- What is left to do under the lock. -/
theorem exec_reapUnderLock (hfault : w.fault = .none) (hfile : w.file b = .holds r)
    (hjudged : w.judged r = .reapable r) :
    exec (DeferredWorld.serve i) (reapUnderLock b) w = (.ok true, w.reaped b r) := by
  have hstatus : w.status b false = .reapable r := by
    rw [DeferredWorld.status, hfile]
    simpa using hjudged
  rw [reapUnderLock, exec_bind, statusUnderLock, exec_statusInner hfault, hstatus]
  dsimp only
  rw [releaseRetained, exec_bind, exec_bind, exec_unfreezeAllChecked hfault]
  dsimp only
  have hdeleted := exec_deleteRecord (i := i) (w := w.releasedAll r.retained) hfault hfile
  rw [if_pos rfl, exec_bind, hdeleted]
  rfl

/-- A record is reapable or protected. -/
theorem judged_cases (w : DeferredWorld) (r : DeferredFreezeRecord) :
    (w.ownerRuns r = false ∧ r.isExpired w.clock = true ∧ w.judged r = .reapable r) ∨
      ((w.ownerRuns r = true ∨ r.isExpired w.clock = false) ∧ ∃ reason pid, w.judged r = .isProtected reason pid) := by
  rw [DeferredWorld.judged]
  split_ifs with hlive hexpired
  · exact .inr ⟨.inl hlive, _, _, rfl⟩
  · exact .inr ⟨.inr (by simpa using hexpired), _, _, rfl⟩
  · exact .inl ⟨by simpa using hlive, by simpa using hexpired, rfl⟩

/-- A lock that nobody else has is taken for the release, and dropped again. -/
theorem exec_underLock {α : Type} {p : DeferredProg α} {a : α} (w' : DeferredWorld) {command : Str}
    (hfault : w.fault = .none) (hfree : (w.locks.any fun x => x.1.blocks (.backup b)) = false)
    (hp : exec (DeferredWorld.serve i) p { w with locks := (.backup b, i) :: w.locks } =
      (.ok a, { w' with locks := (.backup b, i) :: w.locks })) :
    exec (DeferredWorld.serve i) (underLock command (.backup b) p) w = (.ok a, { w' with locks := w.locks }) := by
  have hacquired : DeferredWorld.serve i (.acquire command (.backup b)) w =
      (true, { w with locks := (.backup b, i) :: w.locks }) := by
    simp [DeferredWorld.serve, hfault, hfree]
  have hkept : w.locks.filter (fun x => decide (x ≠ (LockScope.backup b, i))) = w.locks := by
    refine List.filter_eq_self.mpr fun x hx => decide_eq_true ?_
    rintro rfl
    have hconflict := List.any_eq_false.mp hfree _ hx
    simp [LockScope.blocks] at hconflict
  have hreleased : DeferredWorld.serve i (.release (.backup b)) { w' with locks := (.backup b, i) :: w.locks } =
      ((), { w' with locks := w.locks }) := by
    simp only [DeferredWorld.serve, List.filter_cons, ne_eq, not_true_eq_false, decide_false]
    rw [if_neg (by simp)]
    exact congrArg (fun locks => ((), { w' with locks := locks })) hkept
  rw [underLock, exec_perform, hacquired]
  show exec _ (p.attempt.bind _) _ = _
  rw [exec_bind, exec_attempt, hp]
  dsimp only
  rw [exec_perform, hreleased]
  rfl

/-- One candidate of the reaper. -/
theorem exec_reapOne (hfault : w.fault = .none) (own : Option Str) (b : Str) :
    exec (DeferredWorld.serve i) (reapOne own b) w = (.ok (w.due own b).isSome, w.reapDue own b) := by
  have hstatus : exec (DeferredWorld.serve i) (if own = some b then statusUnderLock b else protectionStatus b) w =
      (.ok (w.status b (own ≠ some b)), w) := by
    by_cases hown : own = some b
    · rw [if_pos hown, statusUnderLock, exec_statusInner hfault, decide_eq_false (not_not.mpr hown)]
    · rw [if_neg hown, protectionStatus, exec_statusInner hfault, decide_eq_true hown]
  have hspared : ∀ reason pid, w.status b (own ≠ some b) = .isProtected reason pid → w.due own b = none →
      (w.file b ≠ .absent) →
      exec (DeferredWorld.serve i) (reapOne own b) w = (.ok (w.due own b).isSome, w.reapDue own b) := by
    intro reason pid hprotected hdue hfile
    have hreply : DeferredWorld.serve i (.recordExists b) w = (true, w) := by
      simp [DeferredWorld.serve, hfile]
    rw [reapOne, exec_perform, hreply, DeferredWorld.reapDue, hdue]
    show exec _ (Prog.bind (if own = some b then statusUnderLock b else protectionStatus b) _) w = _
    rw [exec_bind, hstatus, hprotected]
    rfl
  cases hfile : w.file b with
  | absent =>
    have hreply : DeferredWorld.serve i (.recordExists b) w = (false, w) := by
      simp [DeferredWorld.serve, hfile]
    have hdue : w.due own b = none := by rw [DeferredWorld.due, hfile]
    rw [reapOne, exec_perform, hreply, DeferredWorld.reapDue, hdue]
    rfl
  | unreadable e =>
    refine hspared "deferred-freeze record is unreadable" 0 ?_ ?_ (by simp [hfile])
    · rw [DeferredWorld.status, hfile]
    · rw [DeferredWorld.due, hfile]
  | holds r =>
    have hpresent : w.file b ≠ .absent := by simp [hfile]
    have hreply : DeferredWorld.serve i (.recordExists b) w = (true, w) := by
      simp [DeferredWorld.serve, hfile]
    rcases judged_cases w r with ⟨hlive, hexpired, hjudged⟩ | ⟨hno, reason, pid, hjudged⟩
    · by_cases hown : own = some b
      · have hdue : w.due own b = some r := by
          simp [DeferredWorld.due, hfile, hlive, hexpired, DeferredWorld.lockFree, hown]
        have hreapable : w.status b (own ≠ some b) = .reapable r := by
          rw [DeferredWorld.status, hfile, ← hjudged, decide_eq_false (not_not.mpr hown)]
          rfl
        rw [reapOne, exec_perform, hreply, DeferredWorld.reapDue, hdue]
        show exec _ (Prog.bind (if own = some b then statusUnderLock b else protectionStatus b) _) w = _
        rw [exec_bind, hstatus, hreapable]
        dsimp only
        rw [if_pos hown, exec_reapUnderLock hfault hfile hjudged]
        rfl
      · by_cases hactive : (w.locks.any fun x => x.1.file = (LockScope.backup b).file) = true
        · refine hspared "an operation holds the per-backup lock" r.ownerPid ?_ ?_ hpresent
          · rw [DeferredWorld.status, hfile, decide_eq_true hown, Bool.true_and]
            dsimp only
            rw [if_pos hactive]
          · have hconflict : (w.locks.any fun x => x.1.blocks (.backup b)) = true := by
              obtain ⟨x, hx, hscope⟩ := List.any_eq_true.mp hactive
              refine List.any_eq_true.mpr ⟨x, hx, ?_⟩
              rw [LockScope.blocks, of_decide_eq_true hscope, decide_eq_true rfl, Bool.or_true]
            simp [DeferredWorld.due, hfile, DeferredWorld.lockFree, hown, hconflict]
        · have hreapable : w.status b (own ≠ some b) = .reapable r := by
            rw [DeferredWorld.status, hfile, ← hjudged, decide_eq_true hown, Bool.true_and]
            dsimp only
            rw [if_neg hactive]
          rw [reapOne, exec_perform, hreply, DeferredWorld.reapDue]
          show exec _ (Prog.bind (if own = some b then statusUnderLock b else protectionStatus b) _) w = _
          rw [exec_bind, hstatus, hreapable]
          dsimp only
          rw [if_neg hown, exec_bind, exec_attempt]
          cases hfree : w.locks.any fun x => x.1.blocks (.backup b) with
          | false =>
            have hdue : w.due own b = some r := by
              simp [DeferredWorld.due, hfile, hlive, hexpired, DeferredWorld.lockFree, hfree]
            rw [hdue, exec_underLock (w.reaped b r) hfault hfree (exec_reapUnderLock hfault hfile hjudged)]
            rfl
          | true =>
            have hdue : w.due own b = none := by
              simp [DeferredWorld.due, hfile, DeferredWorld.lockFree, hown, hfree]
            have hrefused : DeferredWorld.serve i (.acquire reapCommand (.backup b)) w = (false, w) := by
              simp [DeferredWorld.serve, hfree]
            rw [hdue, underLock, exec_perform, hrefused]
            rfl
    · by_cases hactive : (decide (own ≠ some b) && w.locks.any fun x => x.1.file = (LockScope.backup b).file) = true
      · refine hspared "an operation holds the per-backup lock" r.ownerPid ?_ ?_ hpresent
        · rw [DeferredWorld.status, hfile]
          dsimp only
          rw [if_pos hactive]
        · rcases hno with hno | hno <;> simp [DeferredWorld.due, hfile, hno]
      · refine hspared reason pid ?_ ?_ hpresent
        · rw [DeferredWorld.status, hfile, ← hjudged]
          dsimp only
          rw [if_neg hactive]
        · rcases hno with hno | hno <;> simp [DeferredWorld.due, hfile, hno]

end Exec

/-! ## A pass -/

section Pass

variable {w : DeferredWorld} {own : Option Str} {b b' : Str} {listing : List Str}

theorem file_reapDue (hb : b' ≠ b) : (w.reapDue own b).file b' = w.file b' := by
  rw [DeferredWorld.reapDue]
  cases w.due own b with
  | none => rfl
  | some r => simp [DeferredWorld.reaped, DeferredWorld.withoutRecord, DeferredWorld.releasedAll, DeferredWorld.file, hb]

theorem file_reapDue_self :
    (w.reapDue own b).file b = if (w.due own b).isSome then .absent else w.file b := by
  rw [DeferredWorld.reapDue]
  cases w.due own b with
  | none => rfl
  | some r => simp [DeferredWorld.reaped, DeferredWorld.withoutRecord, DeferredWorld.file]

theorem mem_held_reapDue {x : Str × FreezeInfo} :
    x ∈ (w.reapDue own b).held ↔ x ∈ w.held ∧ ∀ r, w.due own b = some r → x.2 ∉ r.retained := by
  rw [DeferredWorld.reapDue]
  cases w.due own b with
  | none => simp
  | some r => simp [DeferredWorld.reaped, DeferredWorld.withoutRecord, DeferredWorld.releasedAll]

/-- Only the records and what is held change. -/
theorem reapDue_frame (w : DeferredWorld) (own : Option Str) (b : Str) :
    w.reapDue own b = { w with backups := (w.reapDue own b).backups, held := (w.reapDue own b).held } := by
  rw [DeferredWorld.reapDue]
  cases w.due own b with
  | none => rfl
  | some r => rfl

/-- What is due does not depend on what was released before. -/
theorem due_reapDue (hb : b' ≠ b) : (w.reapDue own b).due own b' = w.due own b' := by
  have hframe := reapDue_frame w own b
  rw [DeferredWorld.due, file_reapDue hb, DeferredWorld.due, hframe]
  rfl

/-- What a pass leaves. -/
structure DeferredWorld.AfterPass (w : DeferredWorld) (own : Option Str) (listing : List Str) (w' : DeferredWorld) :
    Prop where
  frame : w' = { w with backups := w'.backups, held := w'.held }
  file : ∀ b, w'.file b = if b ∈ listing ∧ (w.due own b).isSome = true then .absent else w.file b
  held : ∀ x, x ∈ w'.held ↔ x ∈ w.held ∧ ∀ b ∈ listing, ∀ r, w.due own b = some r → x.2 ∉ r.retained

theorem afterPass_foldl (hnodup : listing.Nodup) :
    w.AfterPass own listing (listing.foldl (fun w b => w.reapDue own b) w) := by
  induction listing generalizing w with
  | nil => exact ⟨rfl, by simp, by simp⟩
  | cons b rest ih =>
    obtain ⟨hb, hrest⟩ := List.nodup_cons.mp hnodup
    obtain ⟨hframe, hfile, hheld⟩ := ih (w := w.reapDue own b) hrest
    have hne : ∀ b' ∈ rest, b' ≠ b := by
      rintro b' hb' rfl
      exact hb hb'
    rw [List.foldl_cons]
    refine ⟨?_, fun b' => ?_, fun x => ?_⟩
    · refine hframe.trans ?_
      generalize rest.foldl (fun w b => w.reapDue own b) (w.reapDue own b) = w'
      rw [reapDue_frame w own b]
    · rw [hfile]
      by_cases heq : b' = b
      · subst heq
        simp [hb, file_reapDue_self]
      · simp [due_reapDue heq, file_reapDue heq, heq]
    · rw [hheld, mem_held_reapDue, and_assoc, List.forall_mem_cons]
      refine and_congr_right fun _ => and_congr_right fun _ => ?_
      refine forall₂_congr fun b' hb' => ?_
      rw [due_reapDue (hne b' hb')]

theorem exec_forEach_reapOne (hfault : w.fault = .none) (i : Nat) (own : Option Str) (hnodup : listing.Nodup) :
    exec (DeferredWorld.serve i) (forEach listing (reapOne own)) w =
      (.ok (listing.map fun b => (w.due own b).isSome), listing.foldl (fun w b => w.reapDue own b) w) := by
  induction listing generalizing w with
  | nil => rfl
  | cons b rest ih =>
    obtain ⟨hb, hrest⟩ := List.nodup_cons.mp hnodup
    have hfault' : (w.reapDue own b).fault = .none := by
      rw [reapDue_frame]
      exact hfault
    have hdue : rest.map (fun b' => ((w.reapDue own b).due own b').isSome) =
        rest.map fun b' => (w.due own b').isSome := by
      refine List.map_congr_left fun b' hb' => ?_
      rw [due_reapDue]
      rintro rfl
      exact hb hb'
    rw [forEach, exec_bind, exec_reapOne hfault]
    dsimp only
    rw [exec_bind, ih hfault' hrest, hdue]
    rfl

theorem exec_reapExpired (hfault : w.fault = .none) (i : Nat) (own : Option Str) (hnodup : listing.Nodup) :
    exec (DeferredWorld.serve i) (reapExpired listing own) w =
      (.ok (listing.countP fun b => (w.due own b).isSome), listing.foldl (fun w b => w.reapDue own b) w) := by
  rw [reapExpired, exec_bind, exec_forEach_reapOne hfault i own hnodup]
  dsimp only
  rw [exec_ret, List.countP_map]
  congr 2
  refine List.countP_congr fun b _ => ?_
  simp

/-- **The reaper releases what is due.**  When nothing fails and nobody interferes, a pass over the
directories of the backups releases the freezes that are due, removes their records, counts them, and
leaves everything else as it was. -/
theorem reapExpired_releases_due (hfault : w.fault = .none) (i : Nat) (own : Option Str) (hnodup : listing.Nodup) :
    ∃ w', exec (DeferredWorld.serve i) (reapExpired listing own) w =
        (.ok (listing.countP fun b => (w.due own b).isSome), w') ∧ w.AfterPass own listing w' :=
  ⟨_, exec_reapExpired hfault i own hnodup, afterPass_foldl hnodup⟩

end Pass

/-- Two backups by processes that have ended: the freeze of one has run out. -/
def orphanedWorld : DeferredWorld where
  backups :=
    (SortedMap.empty.insert "a".toList (.holds ⟨"a", [diskTable], 0, none, 5, 10⟩)).insert "b".toList
      (.holds ⟨"b", [⟨"db", "u", "chbackup_b_db_u"⟩], 0, none, 5, 100⟩)
  locks := [(.backup "c", 7)]
  clock := 50
  procs _ := none
  gone := []
  stopped := []
  fault := .none
  held := [("a", diskTable), ("b", ⟨"db", "u", "chbackup_b_db_u"⟩)]
  terms := (SortedMap.empty.insert "a".toList (5, 10)).insert "b".toList (5, 100)

/-- The one is released, and the other is not. -/
theorem orphaned_released :
    (["a".toList, "b".toList].countP fun b => (orphanedWorld.due (some "c") b).isSome) = 1 ∧
    ∃ w', exec (DeferredWorld.serve 7) (reapExpired ["a", "b"] (some "c")) orphanedWorld =
        (.ok ((["a", "b"] : List Str).countP fun b => (orphanedWorld.due (some "c") b).isSome), w') ∧
      orphanedWorld.AfterPass (some "c") ["a", "b"] w' :=
  ⟨by decide +kernel, reapExpired_releases_due rfl 7 (some "c") (by decide)⟩

/-- **A freeze lasts no longer than it was published for.**  After any run in which nobody works on a
backup without its lock while that is created, let a pass of the reaper succeed.  A table of a backup that
it has come across is held no longer than the terms allow under which it was frozen, unless the owner of
the record runs or its lock cannot be had. -/
theorem held_within_terms {ts : List DeferredThread} {w w' : DeferredWorld} {s : DeferredThreads}
    {listing : List Str} {own : Option Str} {i n : Nat} {b : Str} {info : FreezeInfo}
    (hlocks : w.locks = []) (hw : w.Discoverable)
    (hr : (deferredMachine ts).Reaches (fun w ls a => onlyLockedWork w ls a = true) (deferredStart ts w) s)
    (hfault : s.shared.fault = .none) (hnodup : listing.Nodup)
    (hexec : exec (DeferredWorld.serve i) (reapExpired listing own) s.shared = (.ok n, w'))
    (hb : b ∈ listing) (hheld : (b, info) ∈ w'.held) :
    ∃ created ttl, s.shared.terms.get? b = some (created, ttl) ∧
      (s.shared.clock ≤ created + ttl ∨ s.shared.lockFree own b = false ∨
        ∃ r, s.shared.file b = .holds r ∧ s.shared.ownerRuns r = true) := by
  have hpass : s.shared.AfterPass own listing w' := by
    rw [exec_reapExpired hfault i own hnodup] at hexec
    obtain ⟨-, rfl⟩ := Prod.mk.inj hexec
    exact afterPass_foldl hnodup
  obtain ⟨hheld, hkept⟩ := (hpass.held (b, info)).mp hheld
  have hdiscoverable := (listed_of_reaches hlocks hw hr).toDiscoverable
  obtain ⟨r, hrecord, -, hmem⟩ := hdiscoverable.listed b info hheld
  have hfile : s.shared.file b = .holds r := by
    rw [DeferredWorld.file, hrecord]
    rfl
  refine ⟨r.createdAtSecs, r.ttlSecs, hdiscoverable.dated b r hrecord, ?_⟩
  cases hruns : s.shared.ownerRuns r with
  | true => exact .inr (.inr ⟨r, hfile, hruns⟩)
  | false =>
    cases hfree : s.shared.lockFree own b with
    | false => exact .inr (.inl rfl)
    | true =>
      cases hexpired : r.isExpired s.shared.clock with
      | false =>
        refine .inl ?_
        have hnot := of_decide_eq_false hexpired
        omega
      | true =>
        have hdue : s.shared.due own b = some r := by
          simp [DeferredWorld.due, hfile, hruns, hexpired, hfree]
        exact absurd hmem (hkept b hb r hdue)

/-- The backup is created, and looked at before its freeze has run out. -/
theorem created_held_within_terms :
    ∃ s w', (deferredMachine createAndUpload).Reaches (fun w ls a => onlyLockedWork w ls a = true)
        (deferredStart createAndUpload quietWorld) s ∧
      exec (DeferredWorld.serve 7) (reapExpired ["a"] none) s.shared = (.ok 0, w') ∧
      ("a".toList, diskTable) ∈ w'.held ∧
      ∃ created ttl, s.shared.terms.get? "a" = some (created, ttl) ∧
        (s.shared.clock ≤ created + ttl ∨ s.shared.lockFree none "a" = false ∨
          ∃ r, s.shared.file "a" = .holds r ∧ s.shared.ownerRuns r = true) := by
  have hrun : ((deferredMachine createAndUpload).runWhere (fun w ls a => onlyLockedWork w ls a = true)
      (List.replicate 11 (.inl 0) ++ [.inr (.setClock 12)]) (deferredStart createAndUpload quietWorld)).map
        (fun s => (decide (s.shared.fault = .none),
          decide ((exec (DeferredWorld.serve 7) (reapExpired ["a"] none) s.shared).1.toOption = some 0),
          decide (("a".toList, diskTable) ∈ (exec (DeferredWorld.serve 7) (reapExpired ["a"] none) s.shared).2.held))) =
      some (true, true, true) := by
    decide +kernel
  obtain ⟨s, hs, heq⟩ := Option.map_eq_some_iff.mp hrun
  simp only [Prod.mk.injEq, decide_eq_true_eq] at heq
  obtain ⟨hfault, hvalue, hheld⟩ := heq
  have hr := Machine.reaches_of_runWhere .refl hs
  have hexec : exec (DeferredWorld.serve 7) (reapExpired ["a"] none) s.shared =
      (.ok 0, (exec (DeferredWorld.serve 7) (reapExpired ["a"] none) s.shared).2) := by
    refine Prod.ext ?_ rfl
    cases hresult : (exec (DeferredWorld.serve 7) (reapExpired ["a"] none) s.shared).1 with
    | ok n =>
      rw [hresult] at hvalue
      exact congrArg Except.ok (Option.some.inj hvalue)
    | error e =>
      rw [hresult] at hvalue
      cases hvalue
  exact ⟨s, _, hr, hexec, hheld, held_within_terms rfl discoverable_quietWorld hr hfault (by decide) hexec
    List.mem_cons_self hheld⟩

end Chbackup
