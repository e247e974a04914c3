import Chbackup.Keys.FreezeNames
import Chbackup.Lib.BytePositions
import Chbackup.Locks.Scopes
import Chbackup.Server.StateFiles

/-!
# The locks that shadow cleanup sees

`clean_shadow` spares the shadow directories of the backups whose lock is held.  It finds these locks by
scanning the lock directory (`active_freeze_prefixes`, `src/list.rs`), and takes the names of the backups
off the file names by itself instead of asking `backup_name_from_lock_file` (`src/lock.rs`).

The two readings differ for the empty name and for a file name in which the beginning and the end
overlap; and a backup with the name of the global lock is taken for that lock.
-/

namespace Chbackup

open Checked (Unfinished)

/-- `LOCK_PREFIX`. -/
def lockStart : Str := ['c', 'h', 'b', 'a', 'c', 'k', 'u', 'p', '.']

/-- `LOCK_SUFFIX`. -/
def lockEnd : Str := ['.', 'p', 'i', 'd']

/-- `GLOBAL_STEM`. -/
def globalStem : Str := "global"

section Scan

/- The Unicode tables beyond ASCII. -/
variable (unicode : Char → Bool) (host : Host)

/-- `char::is_alphanumeric`. -/
def isAlphanumeric (c : Char) : Bool := c.isAlphanum || 128 ≤ c.toNat && unicode c

/-- `sanitize_name`. -/
def sanitizeName (name : Str) : Str :=
  name.map fun c => if isAlphanumeric unicode c || c = '_' then c else '_'

/-- What every legacy freeze name starts with. -/
def legacyStart : Str := ['c', 'h', 'b', 'a', 'c', 'k', 'u', 'p', '_']

/-- `legacy_freeze_prefix`. -/
def legacyFreezePrefix (backupName : Str) : Str :=
  legacyStart ++ (sanitizeName unicode backupName ++ ['_'])

/-- The name that the scan takes off a file name. -/
def scannedName (fileName : Str) : Checked Unfinished (Option Str) :=
  if !lockStart.isPrefixOf fileName || !lockEnd.isSuffixOf fileName then .ok none
  else
    (Str.slice fileName (Str.byteLen lockStart) (Str.byteLen fileName - Str.byteLen lockEnd)).bind
      fun inner => .ok (if inner = globalStem then none else some inner)

/-- The path of a file in the lock directory. -/
def lockDirPath (fileName : Str) : Str := defaultLockDir ++ '/' :: fileName

/-- The loop over the lock directory.  A file name that is not UTF-8 is passed over. -/
def scanLockDir : List (Option Str) → Checked Unfinished (List Str)
  | [] => .ok []
  | none :: entries => scanLockDir entries
  | some fileName :: entries =>
    (scannedName fileName).bind fun name =>
      (scanLockDir entries).bind fun prefixes =>
        match name with
        | none => .ok prefixes
        | some inner =>
          if host.isLockFileActive (lockDirPath fileName) then
            .ok (freezePrefix inner :: legacyFreezePrefix unicode inner :: prefixes)
          else .ok prefixes

/-- `active_freeze_prefixes`. -/
def activeFreezePrefixes (dir : Option (List (Option Str))) : Checked Unfinished (List Str) :=
  match dir with
  | none => .ok []
  | some entries => scanLockDir unicode host entries

/-- The locks of these backups are held. -/
def HoldsLocks (entries : List (Option Str)) (live : List Str) : Prop :=
  ∀ name ∈ live, validateBackupName name = true ∧ some (LockScope.backup name).file ∈ entries ∧
    host.backupLockIsLive name = true

/-- **Shadow cleanup sees exactly the backups that are locked.** -/
structure SeesLockedBackups (entries : List (Option Str)) (live : List Str) : Prop where
  reads : ∃ prefixes, activeFreezePrefixes unicode host (some entries) = .ok prefixes ∧
    (∀ name ∈ live,
      freezePrefix name ∈ prefixes ∧ legacyFreezePrefix unicode name ∈ prefixes) ∧
    ∀ p ∈ prefixes, ∃ fileName name, some fileName ∈ entries ∧
      backupNameFromLockFile fileName = some name ∧ host.isLockFileActive (lockDirPath fileName) = true ∧
        (p = freezePrefix name ∨ p = legacyFreezePrefix unicode name)
  agrees : ∀ fileName, some fileName ∈ entries →
    scannedName fileName = .ok (backupNameFromLockFile fileName)

end Scan

/-! ## Reading a file name -/

theorem lockFile_eq (name : Str) : (LockScope.backup name).file = lockStart ++ (name ++ lockEnd) :=
  LockScope.file_backup name

theorem backupLockIsLive_eq (host : Host) (name : Str) :
    host.backupLockIsLive name = host.isLockFileActive (lockDirPath (LockScope.backup name).file) := by
  have hpath : lockPathForScope defaultLockDir (.backup name) =
      some (lockDirPath (LockScope.backup name).file) := by
    show some (((defaultLockDir ++ "/chbackup.".toList) ++ name) ++ ".pid".toList) = _
    rw [List.append_assoc, List.append_assoc, lockFile_eq]
    rfl
  rw [Host.backupLockIsLive, hpath]
  rfl

/-- A file name with the beginning and the end of a lock: the two overlap, or there is a stem between. -/
theorem lockFile_cases {fileName : Str} (hstart : lockStart <+: fileName) (hend : lockEnd <:+ fileName) :
    fileName = lockStart ++ ['p', 'i', 'd'] ∨ ∃ stem, fileName = (LockScope.backup stem).file := by
  obtain ⟨rest, rfl⟩ := hstart
  by_cases hlen : 4 ≤ rest.length
  · refine .inr ?_
    have hrest : lockEnd <:+ rest :=
      List.suffix_of_suffix_length_le hend (List.suffix_append _ _) hlen
    obtain ⟨stem, rfl⟩ := hrest
    exact ⟨stem, (lockFile_eq stem).symm⟩
  · refine .inl ?_
    -- the last four characters begin with a dot, which only the first lines up with
    have hdrop := List.suffix_iff_eq_drop.mp hend
    match rest, hlen, hdrop with
    | [], _, h => exact absurd h (by decide)
    | [x], _, h =>
      have hhead : some '.' = some 'u' := congrArg List.head? h
      exact absurd hhead (by decide)
    | [x, y], _, h =>
      have hhead : some '.' = some 'p' := congrArg List.head? h
      exact absurd hhead (by decide)
    | [x, y, z], _, h =>
      have htail : ['p', 'i', 'd'] = [x, y, z] := congrArg List.tail h
      rw [htail]
    | _ :: _ :: _ :: _ :: _, h, _ => exact absurd (Nat.le_add_left 4 _) h

theorem scannedName_file (stem : Str) :
    scannedName (LockScope.backup stem).file = .ok (if stem = globalStem then none else some stem) := by
  have hstart : lockStart.isPrefixOf (lockStart ++ (stem ++ lockEnd)) = true :=
    List.isPrefixOf_iff_prefix.mpr (List.prefix_append _ _)
  have hend : lockEnd.isSuffixOf (lockStart ++ (stem ++ lockEnd)) = true :=
    List.isSuffixOf_iff_suffix.mpr ⟨lockStart ++ stem, List.append_assoc _ _ _⟩
  have hlen : Str.byteLen (lockStart ++ (stem ++ lockEnd)) - Str.byteLen lockEnd =
      Str.byteLen lockStart + Str.byteLen stem := by
    rw [Str.byteLen_append, Str.byteLen_append]
    omega
  rw [lockFile_eq, scannedName, hstart, hend, if_neg (by decide), hlen, Str.slice_at rfl rfl rfl,
    Checked.ok_bind]

/-- The file name in which the beginning and the end of a lock overlap. -/
def overlapping : Str := lockStart ++ ['p', 'i', 'd']

theorem scannedName_overlapping : scannedName overlapping = .abort := by decide +kernel

/-- **Where the two readings of a file name differ.** -/
theorem scannedName_iff (fileName : Str) :
    scannedName fileName = .ok (backupNameFromLockFile fileName) ↔
      fileName ≠ overlapping ∧ fileName ≠ (LockScope.backup []).file := by
  by_cases hboth : lockStart <+: fileName ∧ lockEnd <:+ fileName
  · rcases lockFile_cases hboth.1 hboth.2 with rfl | ⟨stem, rfl⟩
    · refine iff_of_false ?_ fun h => h.1 rfl
      show scannedName overlapping ≠ _
      rw [scannedName_overlapping]
      exact fun h => by cases h
    · have hne : (LockScope.backup stem).file ≠ overlapping := by
        intro h
        rw [lockFile_eq] at h
        have hlen := congrArg List.length (List.append_cancel_left h)
        simp [lockEnd] at hlen
      rw [scannedName_file, backupNameFromLockFile_file, Checked.ok.injEq]
      by_cases hempty : stem = []
      · subst hempty
        exact iff_of_false (by decide) fun h => h.2 rfl
      · refine iff_of_true ?_ ⟨hne, fun h => hempty (LockScope.backup_file_injective h)⟩
        by_cases hglobal : stem = globalStem
        · rw [if_pos hglobal, if_neg fun h => h.2 hglobal]
        · rw [if_neg hglobal, if_pos ⟨hempty, hglobal⟩]
  · have hscan : scannedName fileName = .ok none := by
      rw [scannedName, if_pos]
      rw [Bool.or_eq_true, Bool.not_eq_true', Bool.not_eq_true', ← Bool.not_eq_true,
        ← Bool.not_eq_true, List.isPrefixOf_iff_prefix, List.isSuffixOf_iff_suffix]
      exact not_and_or.mp hboth
    have hname : backupNameFromLockFile fileName = none := by
      by_contra hsome
      obtain ⟨name, hname⟩ := Option.ne_none_iff_exists'.mp hsome
      obtain ⟨stem, hstem, -⟩ := Option.bind_eq_some_iff.mp hname
      obtain ⟨rest, hrest, hstem⟩ := Option.bind_eq_some_iff.mp hstem
      obtain ⟨hstart, hcut⟩ := Option.ite_none_right_eq_some.mp hrest
      obtain ⟨hend, -⟩ := Option.ite_none_right_eq_some.mp hstem
      have hrest' : rest <:+ fileName := Option.some.inj hcut ▸ List.drop_suffix _ _
      exact hboth ⟨List.isPrefixOf_iff_prefix.mp hstart,
        (List.isSuffixOf_iff_suffix.mp hend).trans hrest'⟩
    refine iff_of_true (by rw [hscan, hname]) ⟨?_, ?_⟩
    · rintro rfl
      exact hboth ⟨by decide, by decide⟩
    · rintro rfl
      exact hboth ⟨by decide, by decide⟩

/-! ## What the scan finds -/

section Found

variable {unicode : Char → Bool} {host : Host} {entries : List (Option Str)} {live : List Str}

/-- What the scan adds for a file. -/
def filePrefixes (unicode : Char → Bool) (host : Host) (fileName : Str) : List Str :=
  match backupNameFromLockFile fileName with
  | some name =>
    if host.isLockFileActive (lockDirPath fileName) then
      [freezePrefix name, legacyFreezePrefix unicode name]
    else []
  | none => []

theorem mem_filePrefixes {fileName p : Str} :
    p ∈ filePrefixes unicode host fileName ↔ ∃ name,
      backupNameFromLockFile fileName = some name ∧ host.isLockFileActive (lockDirPath fileName) = true ∧
        (p = freezePrefix name ∨ p = legacyFreezePrefix unicode name) := by
  rw [filePrefixes]
  cases backupNameFromLockFile fileName with
  | none => simp
  | some name => by_cases hactive : host.isLockFileActive (lockDirPath fileName) = true <;> simp [hactive]

/-- Where the two readings agree, the scan finds the held locks. -/
theorem scanLockDir_eq (h : ∀ fileName, some fileName ∈ entries →
      scannedName fileName = .ok (backupNameFromLockFile fileName)) :
    scanLockDir unicode host entries =
      .ok (entries.reduceOption.flatMap (filePrefixes unicode host)) := by
  induction entries with
  | nil => rfl
  | cons entry entries ih =>
    have hrest := ih fun fileName hmem => h fileName (List.mem_cons_of_mem _ hmem)
    cases entry with
    | none =>
      rw [scanLockDir, List.reduceOption_cons_of_none]
      exact hrest
    | some fileName =>
      rw [scanLockDir, h fileName List.mem_cons_self, hrest, List.reduceOption_cons_of_some,
        List.flatMap_cons, filePrefixes, Checked.ok_bind, Checked.ok_bind]
      cases backupNameFromLockFile fileName with
      | none => rfl
      | some name =>
        dsimp only
        split_ifs <;> rfl

/-- No other backup has the legacy prefix of a backup with the name of the global lock. -/
theorem legacyFreezePrefix_global {name : Str}
    (h : legacyFreezePrefix unicode globalStem = freezePrefix name ∨
      legacyFreezePrefix unicode globalStem = legacyFreezePrefix unicode name) : name = globalStem := by
  have hglobal : sanitizeName unicode globalStem = ['g', 'l', 'o', 'b', 'a', 'l'] := rfl
  rcases h with h | h
  · -- after the common beginning one goes on with a letter and the other with an underscore
    have hnext : some 'g' = some '_' := congrArg (fun s : Str => (s.drop 9).head?) h
    exact absurd hnext (by decide)
  · rw [legacyFreezePrefix, legacyFreezePrefix, hglobal] at h
    have hsame := List.append_cancel_right (List.append_cancel_left h)
    have hkept : ∀ c ∈ name, (if isAlphanumeric unicode c || c = '_' then c else '_') = c := by
      intro c hc
      by_cases hok : (isAlphanumeric unicode c || c = '_') = true
      · exact if_pos hok
      · have hunder : '_' ∈ sanitizeName unicode name := List.mem_map.mpr ⟨c, hc, if_neg hok⟩
        rw [← hsame] at hunder
        exact absurd hunder (by decide)
    rw [sanitizeName, List.map_congr_left hkept, List.map_id'] at hsame
    exact hsame.symm

end Found

/-- **Shadow cleanup sees the locked backups exactly if** no file has a name in which the beginning and the
end of a lock overlap or nothing is between them, and no backup has the name of the global lock. -/
theorem shadow_cleanup_sees_locks_iff (unicode : Char → Bool) (host : Host)
    (entries : List (Option Str)) (live : List Str) (hlive : HoldsLocks host entries live) :
    SeesLockedBackups unicode host entries live ↔
      some overlapping ∉ entries ∧ some (LockScope.backup []).file ∉ entries ∧ globalStem ∉ live := by
  constructor
  · intro h
    refine ⟨fun hmem => ?_, fun hmem => ?_, fun hmem => ?_⟩
    · exact ((scannedName_iff _).mp (h.agrees _ hmem)).1 rfl
    · exact ((scannedName_iff _).mp (h.agrees _ hmem)).2 rfl
    · obtain ⟨prefixes, -, hfound, honly⟩ := h.reads
      obtain ⟨fileName, name, -, hname, -, hp⟩ := honly _ (hfound _ hmem).2
      obtain ⟨stem, -, hkept⟩ := Option.bind_eq_some_iff.mp hname
      obtain ⟨hstem, heq⟩ := Option.ite_none_right_eq_some.mp hkept
      exact hstem.2 ((Option.some.inj heq).trans (legacyFreezePrefix_global hp))
  · rintro ⟨hoverlap, hempty, hglobal⟩
    have hagrees : ∀ fileName, some fileName ∈ entries →
        scannedName fileName = .ok (backupNameFromLockFile fileName) := fun fileName hmem =>
      (scannedName_iff fileName).mpr ⟨fun h => hoverlap (h ▸ hmem), fun h => hempty (h ▸ hmem)⟩
    refine ⟨⟨_, scanLockDir_eq hagrees, fun name hname => ?_, fun p hp => ?_⟩, hagrees⟩
    · obtain ⟨hvalid, hfile, hactive⟩ := hlive name hname
      rw [backupLockIsLive_eq] at hactive
      have hne : name ≠ [] := by
        rintro rfl
        exact absurd hvalid (by decide)
      have hnot : name ≠ globalStem := fun h => hglobal (h ▸ hname)
      have hread := backupNameFromLockFile_backup hne hnot
      have hmem := List.reduceOption_mem_iff.mpr hfile
      exact ⟨List.mem_flatMap.mpr ⟨_, hmem, mem_filePrefixes.mpr ⟨name, hread, hactive, .inl rfl⟩⟩,
        List.mem_flatMap.mpr ⟨_, hmem, mem_filePrefixes.mpr ⟨name, hread, hactive, .inr rfl⟩⟩⟩
    · obtain ⟨fileName, hmem, hp⟩ := List.mem_flatMap.mp hp
      obtain ⟨name, hname, hactive, hp⟩ := mem_filePrefixes.mp hp
      exact ⟨fileName, name, List.reduceOption_mem_iff.mp hmem, hname, hactive, hp⟩

/-- A process that lives holds the lock of the backup `a`, next to a file that is none of ours. -/
theorem shadow_cleanup_sees_a_lock :
    SeesLockedBackups (fun _ => false) ⟨fun _ => some ⟨some 7, none⟩, fun pid => pid = 7, fun _ => none⟩
      [some (LockScope.backup ['a']).file, none, some ['x']] [['a']] :=
  (shadow_cleanup_sees_locks_iff _ _ _ _ fun name hname => by
    obtain rfl := List.mem_singleton.mp hname
    exact ⟨by decide, List.mem_cons_self, by decide +kernel⟩).mpr
      ⟨by decide, by decide, by decide⟩

/-- A file name in which the beginning and the end overlap stops the scan. -/
theorem shadow_cleanup_stopped :
    HoldsLocks ⟨fun _ => none, fun _ => false, fun _ => none⟩ [some overlapping] [] ∧
      ¬SeesLockedBackups (fun _ => false) ⟨fun _ => none, fun _ => false, fun _ => none⟩
        [some overlapping] [] :=
  ⟨fun _ h => absurd h List.not_mem_nil, fun h =>
    ((scannedName_iff overlapping).mp (h.agrees _ List.mem_cons_self)).1 rfl⟩

end Chbackup
