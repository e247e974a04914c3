import Chbackup.Deferred.Reaping
import Chbackup.Locks.Shadow

/-!
# What shadow cleanup removes

`clean_shadow` (`src/list.rs`) removes the directories that freezes have left on the disks: those of one
backup, or all of them.  The directories of one backup are told by the beginnings of their names, the
present one and the one that older versions used.

* A backup that is still frozen for its upload is not cleaned: its record stops the cleanup before it
  looks at any disk (`cleanShadowInner_spares_held`), also when the caller holds its lock and forces the
  cleanup.  The one thing that reaches the directories of another backup is the old beginning of a name
  that does not start with a letter or a digit.
* Without a name the record is not looked at, and the locks alone decide
  (`mem_removed_all_iff`).
-/

namespace Chbackup

open CallTree Prog

/-! ## The cleanup -/

/-- An entry of a shadow directory.  Its name may not be UTF-8, and `remove_dir_all` may fail. -/
structure ShadowEntry where
  fileName : Option Str
  isDir : Bool
  removable : Bool

/-- What the cleanup of a disk comes across: the shadow directory, if there is one, in which some entries
cannot be read, and the locks. -/
structure ShadowView where
  shadow : Option (Except Str (List (Option ShadowEntry)))
  lockDir : Option (List (Option Str))
  host : Host

/-- A disk of `system.disks`. -/
structure ShadowDisk where
  diskType : Str
  path : Str
  view : ShadowView

section Cleanup

/- The Unicode tables beyond ASCII. -/
variable (unicode : Char → Bool)

/-- The beginnings of the names that are removed. -/
def prefixFilters : Option Str → List Str
  | some n => [freezePrefix n, legacyFreezePrefix unicode n]
  | none => []

/-- Whether a directory is removed: it is asked for, and no running backup has it. -/
def isRemoved (filters activePrefixes : List Str) (dirName : Str) : Bool :=
  (if filters.isEmpty then legacyStart.isPrefixOf dirName else filters.any (·.isPrefixOf dirName)) &&
    !activePrefixes.any (·.isPrefixOf dirName)

/-- The loop over the entries: the directories that are removed. -/
def removeEntries (filters activePrefixes : List Str) : List (Option ShadowEntry) → List Str
  | [] => []
  | none :: entries => removeEntries filters activePrefixes entries
  | some entry :: entries =>
    match entry.fileName with
    | some dirName =>
      if entry.isDir && isRemoved filters activePrefixes dirName && entry.removable then
        dirName :: removeEntries filters activePrefixes entries
      else removeEntries filters activePrefixes entries
    | none => removeEntries filters activePrefixes entries

/-- `clean_shadow_dir`: the directories that were removed. -/
def cleanShadowDir (path : Str) (view : ShadowView) (name : Option Str) (force : Bool) : Checked Str (List Str) :=
  match view.shadow with
  | none => .ok []
  | some (.error _) => .fail ("Failed to read shadow directory: " ++ path.pathJoin "shadow")
  | some (.ok entries) =>
    match name with
    | some n =>
      if !force && view.host.backupLockIsLive n then .ok []
      else .ok (removeEntries (prefixFilters unicode (some n)) [] entries)
    | none =>
      match activeFreezePrefixes unicode view.host view.lockDir with
      | .ok activePrefixes => .ok (removeEntries (prefixFilters unicode none) activePrefixes entries)
      -- the scan slices a file name out of its bounds
      | _ => .abort

/-- The loop over the disks: what was removed, also before an error. -/
def cleanShadowDirs (name : Option Str) (force : Bool) : List (Str × ShadowView) → List (Str × Str) × Except Str Nat
  | [] => ([], .ok 0)
  | (path, view) :: rest =>
    match cleanShadowDir unicode path view name force with
    | .ok removed =>
      (removed.map (path, ·) ++ (cleanShadowDirs name force rest).1,
        (cleanShadowDirs name force rest).2.map (removed.length + ·))
    | .fail e => ([], .error e)
    | .abort => ([], .error "Shadow cleanup task panicked")

/-- The disks that are cleaned: those that are not backup disks, and the data path unless it is one. -/
def cleanedDisks (disks : List ShadowDisk) (dataPath : Str) (dataView : ShadowView) : List (Str × ShadowView) :=
  (disks.filter (·.diskType ≠ ("backup" : Str))).map (fun disk => (disk.path, disk.view)) ++
    if disks.any (·.path = dataPath) then [] else [(dataPath, dataView)]

/-- What a cleanup leaves and returns. -/
structure ShadowCleanup where
  world : DeferredWorld
  removed : List (Str × Str)
  total : Except Str Nat

/-- The reaper, which leaves the lock alone that a forced cleanup holds. -/
def reapBeforeCleanup (thread : Nat) (listing : List Str) (name : Option Str) (force : Bool) (w : DeferredWorld) :
    DeferredWorld :=
  (exec (DeferredWorld.serve thread) (reapExpired listing (if force then name else none)) w).2

/-- The record of the backup stops the cleanup. -/
def blocksCleanup (thread : Nat) (name : Option Str) (w : DeferredWorld) : Bool :=
  name.any fun n => (exec (DeferredWorld.serve thread) (blocksDestructiveOp n) w).1.toOption = some true

/-- `clean_shadow_inner`: `clean_shadow`, and with `force` `clean_shadow_force`. -/
def cleanShadowInner (thread : Nat) (listing : List Str) (disks : Except Str (List ShadowDisk)) (dataPath : Str)
    (dataView : ShadowView) (name : Option Str) (force : Bool) (w : DeferredWorld) : ShadowCleanup :=
  if blocksCleanup thread name (reapBeforeCleanup thread listing name force w) then
    ⟨reapBeforeCleanup thread listing name force w, [], .ok 0⟩
  else
    match disks with
    | .error e => ⟨reapBeforeCleanup thread listing name force w, [], .error e⟩
    | .ok disks =>
      ⟨reapBeforeCleanup thread listing name force w,
        (cleanShadowDirs unicode name force (cleanedDisks disks dataPath dataView)).1,
        (cleanShadowDirs unicode name force (cleanedDisks disks dataPath dataView)).2⟩

end Cleanup

/-! ## The directories -/

section Directories

variable {unicode : Char → Bool} {filters activePrefixes : List Str} {entries : List (Option ShadowEntry)}
variable {path dirName n : Str} {view : ShadowView} {name : Option Str} {force : Bool}

/-- A directory that can be removed. -/
def ShadowView.Has (view : ShadowView) (dirName : Str) : Prop :=
  ∃ entries, view.shadow = some (.ok entries) ∧ some ⟨some dirName, true, true⟩ ∈ entries

theorem mem_removeEntries :
    dirName ∈ removeEntries filters activePrefixes entries ↔
      some ⟨some dirName, true, true⟩ ∈ entries ∧ isRemoved filters activePrefixes dirName = true := by
  induction entries with
  | nil => simp [removeEntries]
  | cons entry entries ih =>
    rcases entry with - | ⟨- | dirName', isDir, removable⟩
    · simp [removeEntries, ih]
    · simp [removeEntries, ih]
    · rw [removeEntries]
      dsimp only
      split_ifs with h
      · simp only [Bool.and_eq_true] at h
        obtain ⟨⟨rfl, hremoved⟩, rfl⟩ := h
        by_cases heq : dirName = dirName'
        · subst heq
          simp [hremoved]
        · simp [ih, heq]
      · rw [ih, List.mem_cons]
        refine and_congr_left fun hremoved => ⟨.inr, fun hmem => hmem.resolve_left ?_⟩
        rintro ⟨⟩
        simp [hremoved] at h

theorem mem_cleanShadowDirs {disks : List (Str × ShadowView)}
    (h : (path, dirName) ∈ (cleanShadowDirs unicode name force disks).1) :
    ∃ view removed, (path, view) ∈ disks ∧ cleanShadowDir unicode path view name force = .ok removed ∧
      dirName ∈ removed := by
  induction disks with
  | nil => cases h
  | cons disk rest ih =>
    obtain ⟨path', view⟩ := disk
    rw [cleanShadowDirs] at h
    cases hdir : cleanShadowDir unicode path' view name force with
    | ok removed =>
      rw [hdir] at h
      rcases List.mem_append.mp h with h | h
      · obtain ⟨dirName', hmem, heq⟩ := List.mem_map.mp h
        obtain ⟨rfl, rfl⟩ := Prod.mk.inj heq
        exact ⟨view, removed, List.mem_cons_self, hdir, hmem⟩
      · obtain ⟨view', removed', hmem, hremoved⟩ := ih h
        exact ⟨view', removed', List.mem_cons_of_mem _ hmem, hremoved⟩
    | fail e =>
      rw [hdir] at h
      cases h
    | abort =>
      rw [hdir] at h
      cases h

/-- What the cleanup of one backup removes from a disk. -/
theorem mem_cleanShadowDir_backup {removed : List Str}
    (h : cleanShadowDir unicode path view (some n) force = .ok removed) (hmem : dirName ∈ removed) :
    view.Has dirName ∧ (force = true ∨ view.host.backupLockIsLive n = false) ∧
      (freezePrefix n <+: dirName ∨ legacyFreezePrefix unicode n <+: dirName) := by
  rw [cleanShadowDir] at h
  cases hshadow : view.shadow with
  | none =>
    rw [hshadow] at h
    cases h
    cases hmem
  | some read =>
    rw [hshadow] at h
    cases read with
    | error e => cases h
    | ok entries =>
      dsimp only at h
      split_ifs at h with hlive
      · cases h
        cases hmem
      · cases h
        obtain ⟨hentry, hremoved⟩ := mem_removeEntries.mp hmem
        refine ⟨⟨entries, hshadow, hentry⟩, ?_, ?_⟩
        · cases force with
          | true => exact .inl rfl
          | false => exact .inr (by simpa using hlive)
        · simpa [isRemoved, prefixFilters] using hremoved

end Directories

/-! ## All backups -/

section All

variable {unicode : Char → Bool} {host : Host} {entries : List (Option Str)} {activePrefixes : List Str}
variable {path b d t n p : Str} {view : ShadowView} {force : Bool}

/-- The scan comes across the held lock of a backup. -/
def RunsAmong (host : Host) (entries : List (Option Str)) (n : Str) : Prop :=
  ∃ fileName, some fileName ∈ entries ∧ scannedName fileName = .ok (some n) ∧
    host.isLockFileActive (lockDirPath fileName) = true

theorem runsAmong_cons_none : RunsAmong host (none :: entries) n ↔ RunsAmong host entries n := by
  simp [RunsAmong]

theorem runsAmong_cons_some {fileName : Str} :
    RunsAmong host (some fileName :: entries) n ↔
      (scannedName fileName = .ok (some n) ∧ host.isLockFileActive (lockDirPath fileName) = true) ∨
        RunsAmong host entries n := by
  simp only [RunsAmong, List.mem_cons, Option.some.injEq, or_and_right, exists_or, exists_eq_left]

/-- A scan that comes to its end has the two prefixes of every backup that it found running. -/
theorem mem_scanLockDir (h : scanLockDir unicode host entries = .ok activePrefixes) :
    p ∈ activePrefixes ↔
      ∃ n, RunsAmong host entries n ∧ (p = freezePrefix n ∨ p = legacyFreezePrefix unicode n) := by
  induction entries generalizing activePrefixes with
  | nil =>
    cases h
    simp [RunsAmong]
  | cons entry entries ih =>
    cases entry with
    | none =>
      simp only [runsAmong_cons_none]
      exact ih h
    | some fileName =>
      rw [scanLockDir] at h
      cases hname : scannedName fileName with
      | fail e =>
        rw [hname] at h
        cases h
      | abort =>
        rw [hname] at h
        cases h
      | ok name =>
        rw [hname, Checked.ok_bind] at h
        cases hrest : scanLockDir unicode host entries with
        | fail e =>
          rw [hrest] at h
          cases h
        | abort =>
          rw [hrest] at h
          cases h
        | ok prefixes =>
          rw [hrest, Checked.ok_bind] at h
          have hmem := ih hrest
          simp only [runsAmong_cons_some, hname, Checked.ok.injEq, or_and_right, exists_or]
          cases name with
          | none =>
            cases h
            simpa using hmem
          | some inner =>
            by_cases hactive : host.isLockFileActive (lockDirPath fileName) = true
            · simp only [if_pos hactive] at h
              cases h
              simp only [List.mem_cons, hmem, hactive, and_true, Option.some.injEq, exists_eq_left', or_assoc]
            · simp only [if_neg hactive] at h
              cases h
              simp [hmem, hactive]

theorem mem_activeFreezePrefixes {dir : Option (List (Option Str))}
    (h : activeFreezePrefixes unicode host dir = .ok activePrefixes) :
    p ∈ activePrefixes ↔
      ∃ n, RunsAmong host (dir.getD []) n ∧ (p = freezePrefix n ∨ p = legacyFreezePrefix unicode n) := by
  cases dir with
  | none =>
    cases h
    simp [RunsAmong]
  | some entries => exact mem_scanLockDir h

/-- What the cleanup of all backups removes from a disk. -/
theorem mem_cleanShadowDir_all {removed : List Str}
    (h : cleanShadowDir unicode path view none force = .ok removed) :
    freezeName b d t ∈ removed ↔ view.Has (freezeName b d t) ∧
      ∀ n, RunsAmong view.host (view.lockDir.getD []) n →
        n ≠ b ∧ ¬legacyFreezePrefix unicode n <+: freezeName b d t := by
  rw [cleanShadowDir] at h
  cases hshadow : view.shadow with
  | none =>
    rw [hshadow] at h
    cases h
    simp [ShadowView.Has, hshadow]
  | some read =>
    rw [hshadow] at h
    cases read with
    | error e => cases h
    | ok entries =>
      dsimp only at h
      cases hactive : activeFreezePrefixes unicode view.host view.lockDir with
      | fail e =>
        rw [hactive] at h
        cases h
      | abort =>
        rw [hactive] at h
        cases h
      | ok activePrefixes =>
        rw [hactive] at h
        cases h
        have hstart : legacyStart <+: freezeName b d t := by
          rw [freezeName_eq]
          exact ⟨'_' :: _, rfl⟩
        have hhas : view.Has (freezeName b d t) ↔ some ⟨some (freezeName b d t), true, true⟩ ∈ entries := by
          simp [ShadowView.Has, hshadow]
        rw [mem_removeEntries, hhas]
        refine and_congr_right fun _ => ?_
        simp only [isRemoved, prefixFilters, List.isEmpty_nil, if_true, List.isPrefixOf_iff_prefix, hstart,
          Bool.and_eq_true, true_and, Bool.not_eq_true', List.any_eq_false, mem_activeFreezePrefixes hactive]
        constructor
        · intro hspared n hn
          refine ⟨?_, hspared _ ⟨n, hn, .inr rfl⟩⟩
          rintro rfl
          exact hspared _ ⟨n, hn, .inl rfl⟩ ( freezePrefix_prefix n d t)
        · rintro hspared p ⟨n, hn, rfl | rfl⟩
          · exact fun hp => (hspared n hn).1 ( eq_of_freezePrefix_prefix hp)
          · exact (hspared n hn).2

/-- The first step of a loop that succeeds. -/
theorem cleanShadowDirs_cons_ok {name : Option Str} {rest : List (Str × ShadowView)} {total : Nat}
    (h : (cleanShadowDirs unicode name force ((path, view) :: rest)).2 = .ok total) :
    ∃ removed total', cleanShadowDir unicode path view name force = .ok removed ∧
      (cleanShadowDirs unicode name force rest).2 = .ok total' ∧ total = removed.length + total' ∧
      (cleanShadowDirs unicode name force ((path, view) :: rest)).1 =
        removed.map (path, ·) ++ (cleanShadowDirs unicode name force rest).1 := by
  rw [cleanShadowDirs] at h ⊢
  cases hdir : cleanShadowDir unicode path view name force with
  | fail e =>
    rw [hdir] at h
    cases h
  | abort =>
    rw [hdir] at h
    cases h
  | ok removed =>
    rw [hdir] at h
    cases hrest : (cleanShadowDirs unicode name force rest).2 with
    | error e =>
      rw [hrest] at h
      cases h
    | ok total' =>
      rw [hrest] at h
      cases h
      exact ⟨removed, total', rfl, rfl, rfl, rfl⟩

/-- A loop that succeeds has come to the end of every disk, and counts what it removes. -/
theorem cleanShadowDirs_ok {name : Option Str} {disks : List (Str × ShadowView)} {total : Nat}
    (h : (cleanShadowDirs unicode name force disks).2 = .ok total) :
    total = (cleanShadowDirs unicode name force disks).1.length ∧
      ∀ path dirName, (path, dirName) ∈ (cleanShadowDirs unicode name force disks).1 ↔
        ∃ view, (path, view) ∈ disks ∧
          ∃ removed, cleanShadowDir unicode path view name force = .ok removed ∧ dirName ∈ removed := by
  induction disks generalizing total with
  | nil =>
    cases h
    simp [cleanShadowDirs]
  | cons disk rest ih =>
    obtain ⟨path', view⟩ := disk
    obtain ⟨removed, total', hdir, hrest, rfl, heq⟩ := cleanShadowDirs_cons_ok h
    obtain ⟨hlength, hmem⟩ := ih hrest
    rw [heq]
    refine ⟨by simp [hlength], fun path dirName => ?_⟩
    simp only [List.mem_append, hmem, List.mem_map, Prod.mk.injEq, List.mem_cons]
    constructor
    · rintro (⟨dirName', hremoved, rfl, rfl⟩ | ⟨view', hdisk, hspec⟩)
      · exact ⟨view, .inl ⟨rfl, rfl⟩, removed, hdir, hremoved⟩
      · exact ⟨view', .inr hdisk, hspec⟩
    · rintro ⟨view', ⟨rfl, rfl⟩ | hdisk, hspec⟩
      · obtain ⟨removed', hdir', hremoved⟩ := hspec
        rw [hdir] at hdir'
        cases hdir'
        exact .inl ⟨dirName, hremoved, rfl, rfl⟩
      · exact .inr ⟨view', hdisk, hspec⟩

theorem cleanShadowDir_ok {name : Option Str} {disks : List (Str × ShadowView)} {total : Nat}
    (h : (cleanShadowDirs unicode name force disks).2 = .ok total) (hdisk : (path, view) ∈ disks) :
    ∃ removed, cleanShadowDir unicode path view name force = .ok removed := by
  induction disks generalizing total with
  | nil => cases hdisk
  | cons disk rest ih =>
    obtain ⟨path', view'⟩ := disk
    obtain ⟨removed, total', hdir, hrest, -⟩ := cleanShadowDirs_cons_ok h
    rcases List.mem_cons.mp hdisk with heq | hdisk
    · cases heq
      exact ⟨removed, hdir⟩
    · exact ih hrest hdisk

/-- **What the cleanup of all backups removes.**  If it succeeds, then from every disk that is cleaned it
removes each directory of a freeze that can be removed, except those of the backups whose locks it finds
held, and those that share the old beginning of such a backup; and it counts what it removes.  The
records of deferred freezes have no part in this. -/
theorem mem_removed_all_iff {i : Nat} {listing : List Str} {disks : List ShadowDisk} {dataPath : Str}
    {dataView : ShadowView} {w : DeferredWorld} {cleanup : ShadowCleanup} {total : Nat}
    (hcleanup : cleanShadowInner unicode i listing (.ok disks) dataPath dataView none force w = cleanup)
    (hok : cleanup.total = .ok total) :
    total = cleanup.removed.length ∧
      ∀ path b d t, (path, freezeName b d t) ∈ cleanup.removed ↔
        ∃ view, (path, view) ∈ cleanedDisks disks dataPath dataView ∧ view.Has (freezeName b d t) ∧
          ∀ n, RunsAmong view.host (view.lockDir.getD []) n →
            n ≠ b ∧ ¬legacyFreezePrefix unicode n <+: freezeName b d t := by
  subst hcleanup
  obtain ⟨hlength, hmem⟩ := cleanShadowDirs_ok (show (cleanShadowDirs unicode none force _).2 = _ from hok)
  refine ⟨hlength, fun path b d t => (hmem path _).trans ?_⟩
  constructor
  · rintro ⟨view, hdisk, removed, hdir, hremoved⟩
    exact ⟨view, hdisk, (mem_cleanShadowDir_all hdir).mp hremoved⟩
  · rintro ⟨view, hdisk, hspec⟩
    obtain ⟨removed, hdir⟩ := cleanShadowDir_ok (show (cleanShadowDirs unicode none force _).2 = _ from hok) hdisk
    exact ⟨view, hdisk, removed, hdir, (mem_cleanShadowDir_all hdir).mpr hspec⟩

end All

/-- A disk with the directories of two backups, of which the second runs. -/
def sharedDisk : ShadowView where
  shadow := some (.ok [some ⟨some (freezeName "a" "db" "t"), true, true⟩, none,
    some ⟨some (freezeName "b" "db" "t"), true, true⟩])
  lockDir := some [some (LockScope.backup "b").file]
  host := ⟨fun _ => some ⟨some 7, none⟩, fun pid => pid = 7, fun _ => none⟩

/-- The first is cleaned, and the second is not. -/
theorem removed_from_sharedDisk :
    1 = [(("/d" : Str), freezeName "a" "db" "t")].length ∧
      ∀ path b d t, (path, freezeName b d t) ∈ [(("/d" : Str), freezeName "a" "db" "t")] ↔
        ∃ view, (path, view) ∈ cleanedDisks [⟨"local", "/d", sharedDisk⟩] "/d" sharedDisk ∧
          view.Has (freezeName b d t) ∧ ∀ n, RunsAmong view.host (view.lockDir.getD []) n →
            n ≠ b ∧ ¬legacyFreezePrefix (fun _ => false) n <+: freezeName b d t :=
  have hcleanup : cleanShadowInner (fun _ => false) 0 ["a"] (.ok [⟨"local", "/d", sharedDisk⟩]) "/d" sharedDisk none
      false quietWorld = ⟨quietWorld, [("/d", freezeName "a" "db" "t")], .ok 1⟩ := by
    rfl
  mem_removed_all_iff hcleanup rfl

/-! ## The old beginnings -/

section Legacy

variable {unicode : Char → Bool} {n b d t : Str}

/-- The name does not start with a letter or a digit. -/
def startsApart (unicode : Char → Bool) (n : Str) : Bool := n.head?.all fun c => !isAlphanumeric unicode c

/-- A name that starts with a letter or a digit has no old beginning in common with a present name. -/
theorem startsApart_of_legacy (h : legacyFreezePrefix unicode n <+: freezeName b d t) :
    startsApart unicode n = true := by
  cases n with
  | nil => rfl
  | cons c n =>
    obtain ⟨rest, hrest⟩ := h
    -- after `chbackup_` the one goes on with the name, and the other with a second underscore
    have hnext := congrArg (fun s : Str => (s.drop 9).head?) hrest
    rw [freezeName_eq] at hnext
    replace hnext : some (if isAlphanumeric unicode c || c = '_' then c else '_') = some '_' := hnext
    have hunder : isAlphanumeric unicode '_' = false := by simp [isAlphanumeric]
    cases halpha : isAlphanumeric unicode c with
    | false => simp [startsApart, halpha]
    | true =>
      rw [halpha, Bool.true_or, if_pos rfl, Option.some.injEq] at hnext
      rw [hnext, hunder] at halpha
      cases halpha

end Legacy

/-! ## What is held -/

section Held

variable {w : DeferredWorld} {b : Str} {i : Nat}

/-- When files cannot be read, every record counts as protected. -/
theorem exec_statusInner_fault (hfault : w.fault ≠ .none) (b : Str) (consultLock : Bool) :
    exec (DeferredWorld.serve i) (statusInner b consultLock) w =
      (.ok (if w.file b = .absent then .notProtected
        else .isProtected "deferred-freeze record is unreadable" 0), w) := by
  rw [statusInner, exec_perform]
  by_cases hfile : w.file b = .absent
  · have hreply : DeferredWorld.serve i (.recordExists b) w = (false, w) := by
      simp [DeferredWorld.serve, hfile]
    rw [hreply, if_pos hfile]
    rfl
  · have hreply : DeferredWorld.serve i (.recordExists b) w = (true, w) := by
      simp [DeferredWorld.serve, hfile]
    have hloaded : DeferredWorld.serve i (.loadRecord b) w = (.error "I/O error", w) := by
      simp [DeferredWorld.serve, hfault]
    rw [hreply, if_neg hfile]
    show exec _ ((perform (DeferredCall.loadRecord b)).bind _) w = _
    rw [exec_perform, hloaded]
    rfl

theorem exec_reapOne_fault (hfault : w.fault ≠ .none) (own : Option Str) (b : Str) :
    exec (DeferredWorld.serve i) (reapOne own b) w = (.ok false, w) := by
  rw [reapOne, exec_perform]
  by_cases hfile : w.file b = .absent
  · have hreply : DeferredWorld.serve i (.recordExists b) w = (false, w) := by
      simp [DeferredWorld.serve, hfile]
    rw [hreply]
    rfl
  · have hreply : DeferredWorld.serve i (.recordExists b) w = (true, w) := by
      simp [DeferredWorld.serve, hfile]
    have hstatus : exec (DeferredWorld.serve i) (if own = some b then statusUnderLock b else protectionStatus b) w =
        (.ok (.isProtected "deferred-freeze record is unreadable" 0), w) := by
      split_ifs
      · rw [statusUnderLock, exec_statusInner_fault hfault, if_neg hfile]
      · rw [protectionStatus, exec_statusInner_fault hfault, if_neg hfile]
    rw [hreply]
    show exec _ (Prog.bind (if own = some b then statusUnderLock b else protectionStatus b) _) w = _
    rw [exec_bind, hstatus]
    rfl

theorem exec_forEach_reapOne_fault (hfault : w.fault ≠ .none) (own : Option Str) (listing : List Str) :
    exec (DeferredWorld.serve i) (forEach listing (reapOne own)) w = (.ok (listing.map fun _ => false), w) := by
  induction listing with
  | nil => rfl
  | cons b rest ih =>
    rw [forEach, exec_bind, exec_reapOne_fault hfault]
    dsimp only
    rw [exec_bind, ih]
    rfl

/-- The reaper touches nothing when files cannot be read. -/
theorem exec_reapExpired_fault (hfault : w.fault ≠ .none) (own : Option Str) (listing : List Str) :
    (exec (DeferredWorld.serve i) (reapExpired listing own) w).2 = w := by
  rw [reapExpired, exec_bind, exec_forEach_reapOne_fault hfault]
  rfl

theorem due_of_isSome {own : Option Str} {r : DeferredFreezeRecord} (hfile : w.file b = .holds r)
    (hdue : (w.due own b).isSome = true) : w.due own b = some r := by
  obtain ⟨r', hr'⟩ := Option.isSome_iff_exists.mp hdue
  have heq := hr'
  rw [DeferredWorld.due, hfile] at heq
  obtain ⟨-, hsame⟩ := Option.ite_none_right_eq_some.mp heq
  exact hr'.trans hsame.symm

/-- What is held after the reaper was held before it, and its record is still there. -/
theorem file_reapBeforeCleanup (hw : w.Discoverable) {listing : List Str} (hnodup : listing.Nodup)
    {name : Option Str} {force : Bool} {info : FreezeInfo}
    (hheld : (b, info) ∈ (reapBeforeCleanup i listing name force w).held) :
    (reapBeforeCleanup i listing name force w).file b ≠ .absent := by
  by_cases hfault : w.fault = .none
  · have hpass : w.AfterPass (if force then name else none) listing (reapBeforeCleanup i listing name force w) := by
      rw [reapBeforeCleanup, exec_reapExpired hfault i _ hnodup]
      exact afterPass_foldl hnodup
    obtain ⟨hbefore, hkept⟩ := (hpass.held (b, info)).mp hheld
    obtain ⟨r, hrecord, -, hmem⟩ := hw.listed b info hbefore
    have hfile : w.file b = .holds r := by
      rw [DeferredWorld.file, hrecord]
      rfl
    rw [hpass.file, if_neg, hfile]
    · simp
    · rintro ⟨hlisted, hdue⟩
      exact hkept b hlisted r (due_of_isSome hfile hdue) hmem
  · rw [reapBeforeCleanup, exec_reapExpired_fault hfault] at hheld ⊢
    obtain ⟨r, hrecord, -, -⟩ := hw.listed b info hheld
    simp [DeferredWorld.file, hrecord]

/-- A record stops the cleanup of its backup. -/
theorem blocksCleanup_of_file (hfile : w.file b ≠ .absent) : blocksCleanup i (some b) w = true := by
  have hstatus : ∃ status, exec (DeferredWorld.serve i) (protectionStatus b) w = (.ok status, w) ∧
      status ≠ .notProtected := by
    by_cases hfault : w.fault = .none
    · refine ⟨_, exec_statusInner hfault b true, ?_⟩
      rw [DeferredWorld.status]
      cases hf : w.file b with
      | absent => exact absurd hf hfile
      | unreadable e => simp
      | holds r =>
        dsimp only
        split_ifs
        · simp
        · rcases judged_cases w r with ⟨-, -, hjudged⟩ | ⟨-, reason, pid, hjudged⟩
          · simp [hjudged]
          · simp [hjudged]
    · refine ⟨_, exec_statusInner_fault hfault b true, ?_⟩
      simp [hfile]
  obtain ⟨status, hexec, hne⟩ := hstatus
  rw [blocksCleanup, Option.any_some, blocksDestructiveOp, exec_bind, hexec]
  simp [hne, Except.toOption]

end Held

/-- **Shadow cleanup spares what is held.**  After any run in which nobody works on a backup without its
lock while that is created, let the shadow directories of a backup be cleaned, forced or not.  No
directory of a table that is still held is removed, unless it is that of another backup and the name that
was asked for does not start with a letter or a digit. -/
theorem cleanShadowInner_spares_held {ts : List DeferredThread} {w : DeferredWorld} {s : DeferredThreads}
    {unicode : Char → Bool} {i : Nat} {listing : List Str} {disks : Except Str (List ShadowDisk)}
    {dataPath : Str} {dataView : ShadowView} {n : Str} {force : Bool} {cleanup : ShadowCleanup}
    {path b : Str} {info : FreezeInfo}
    (hlocks : w.locks = []) (hw : w.Discoverable)
    (hr : (deferredMachine ts).Reaches (fun w ls a => onlyLockedWork w ls a = true) (deferredStart ts w) s)
    (hnodup : listing.Nodup)
    (hcleanup : cleanShadowInner unicode i listing disks dataPath dataView (some n) force s.shared = cleanup)
    (hheld : (b, info) ∈ cleanup.world.held)
    (hremoved : (path, freezeName b info.database info.table) ∈ cleanup.removed) :
    b ≠ n ∧ startsApart unicode n = true := by
  have hdiscoverable := (listed_of_reaches hlocks hw hr).toDiscoverable
  subst hcleanup
  unfold cleanShadowInner at hheld hremoved
  split_ifs at hheld hremoved with hblocked
  · cases hremoved
  · cases disks with
    | error e => cases hremoved
    | ok disks =>
      have hne : b ≠ n := by
        rintro rfl
        exact hblocked (blocksCleanup_of_file (file_reapBeforeCleanup hdiscoverable hnodup hheld))
      refine ⟨hne, ?_⟩
      obtain ⟨view, removed, -, hdir, hmem⟩ := mem_cleanShadowDirs hremoved
      obtain ⟨-, -, hnow | hlegacy⟩ := mem_cleanShadowDir_backup hdir hmem
      · exact absurd ( eq_of_freezePrefix_prefix hnow).symm hne
      · exact startsApart_of_legacy hlegacy

/-- The forced cleanup of a backup whose name starts with an underscore. -/
def cleanUnderscore (w : DeferredWorld) : ShadowCleanup :=
  cleanShadowInner (fun _ => false) 7 ["a"] (.ok [⟨"local", "/d", sharedDisk⟩]) "/d" sharedDisk (some "_a") true w

/-- It removes the directory of a backup that is frozen for its upload. -/
theorem held_removed_by_underscore :
    ∃ s, (deferredMachine createAndUpload).Reaches (fun w ls a => onlyLockedWork w ls a = true)
        (deferredStart createAndUpload quietWorld) s ∧
      ("/d".toList, freezeName "a" "db" "t") ∈ (cleanUnderscore s.shared).removed ∧
      ("a".toList, diskTable) ∈ (cleanUnderscore s.shared).world.held ∧
      "a".toList ≠ "_a".toList ∧ startsApart (fun _ => false) "_a" = true := by
  have hrun : ((deferredMachine createAndUpload).runWhere (fun w ls a => onlyLockedWork w ls a = true)
      (List.replicate 11 (.inl 0)) (deferredStart createAndUpload quietWorld)).map (fun s =>
        (decide (("/d".toList, freezeName "a" "db" "t") ∈ (cleanUnderscore s.shared).removed),
          decide (("a".toList, diskTable) ∈ (cleanUnderscore s.shared).world.held))) = some (true, true) := by
    decide +kernel
  obtain ⟨s, hs, heq⟩ := Option.map_eq_some_iff.mp hrun
  simp only [Prod.mk.injEq, decide_eq_true_eq] at heq
  obtain ⟨hremoved, hheld⟩ := heq
  have hr := Machine.reaches_of_runWhere .refl hs
  exact ⟨s, hr, hremoved, hheld,
    cleanShadowInner_spares_held rfl discoverable_quietWorld hr (by decide) rfl hheld hremoved⟩

end Chbackup
