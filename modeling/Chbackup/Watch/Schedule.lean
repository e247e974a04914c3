import Chbackup.Watch.Decision

/-!
# When the next backup is due

`resume_state` (`src/watch/mod.rs`) as a schedule: a full backup is due when no full one is younger than
its interval, an incremental one when no backup is younger than the watch interval, and otherwise the loop
sleeps until one is due.

The last full backup and the last incremental one are found in a list that is sorted by time, so they are
the youngest of their kinds (`youngest_find?`), and the decision compares their ages.
-/

namespace Chbackup

variable {globPattern : Str → Option (Str → Bool)} {template : Str} {watchInterval fullInterval : Nat}
  {now : Int} {backups : List BackupSummary}

/-- The usable backups of a type: not broken, with a time, and named as the template begins. -/
def IsUsable (globPattern : Str → Option (Str → Bool)) (template : Str) (type : BackupType)
    (b : BackupSummary) : Prop :=
  isMatching template b = true ∧ classifyBackupType globPattern template b.name = some type

/-- A backup is younger than an interval. -/
def IsYounger (now : Int) (interval : Nat) (b : BackupSummary) : Prop :=
  ∃ ts : Int, b.timestamp = ts ∧ now - ts < interval

/-- A full backup is younger than an interval. -/
def FullIsFresh (globPattern : Str → Option (Str → Bool)) (template : Str) (now : Int) (interval : Nat)
    (backups : List BackupSummary) : Prop :=
  ∃ b ∈ backups, IsUsable globPattern template .full b ∧ IsYounger now interval b

/-- A backup, full or incremental, is younger than an interval. -/
def AnyIsFresh (globPattern : Str → Option (Str → Bool)) (template : Str) (now : Int) (interval : Nat)
    (backups : List BackupSummary) : Prop :=
  ∃ b ∈ backups, ∃ type, IsUsable globPattern template type b ∧ IsYounger now interval b

/-- What the next decision is for. -/
structure SchedulesByAge (globPattern : Str → Option (Str → Bool)) (template : Str)
    (watchInterval fullInterval : Nat) (now : Int) (backups : List BackupSummary) : Prop where
  full : resumeState globPattern template watchInterval fullInterval now backups = .fullNow ↔
    ¬FullIsFresh globPattern template now fullInterval backups
  incr : FullIsFresh globPattern template now fullInterval backups →
    ((∃ base, resumeState globPattern template watchInterval fullInterval now backups = .incrNow base) ↔
      ¬AnyIsFresh globPattern template now watchInterval backups)
  sleep : FullIsFresh globPattern template now fullInterval backups →
    ((∃ remaining type, resumeState globPattern template watchInterval fullInterval now backups =
      .sleepThen remaining type) ↔ AnyIsFresh globPattern template now watchInterval backups)
  /-- The loop does not sleep longer than an interval, and it does not sleep twice. -/
  progress : ∀ remaining type,
    resumeState globPattern template watchInterval fullInterval now backups = .sleepThen remaining type →
      0 < remaining ∧ remaining ≤ watchInterval ∧ ∀ remaining' type',
        resumeState globPattern template watchInterval fullInterval (now + remaining) backups ≠
          .sleepThen remaining' type'

/-! ## The youngest backups -/

/-- The first element of a kind in a sorted list comes before all others of the kind. -/
theorem find?_of_pairwise {α : Type} {r : α → α → Prop} {p : α → Bool} {l : List α} {a : α}
    (hl : l.Pairwise r) (h : l.find? p = some a) : ∀ b ∈ l, p b = true → b = a ∨ r a b := by
  obtain ⟨-, before, after, rfl, hbefore⟩ := List.find?_eq_some_iff_append.mp h
  intro b hb hp
  rcases List.mem_append.mp hb with hb | hb
  · exact absurd hp (by simpa using hbefore b hb)
  · rcases List.mem_cons.mp hb with rfl | hb
    · exact .inl rfl
    · exact .inr (List.rel_of_pairwise_cons (List.pairwise_append.mp hl).2.1 hb)

/-- The youngest usable backup of a type, as the search finds it. -/
def lastOfType (globPattern : Str → Option (Str → Bool)) (template : Str) (type : BackupType)
    (backups : List BackupSummary) : Option BackupSummary :=
  (matchingBackups template backups).find? fun b =>
    classifyBackupType globPattern template b.name = some type

/-- A search that finds nothing: there is no usable backup of the type. -/
theorem not_isUsable_of_none {type : BackupType}
    (h : lastOfType globPattern template type backups = none) :
    ∀ b ∈ backups, ¬IsUsable globPattern template type b := by
  intro b hb husable
  have hnot := List.find?_eq_none.mp h b (mem_matchingBackups.mpr ⟨hb, husable.1⟩)
  exact hnot (decide_eq_true husable.2)

/-- A search that finds a backup: it has a time, and no usable backup of the type is later. -/
theorem youngest_find? {type : BackupType} {last : BackupSummary}
    (h : lastOfType globPattern template type backups = some last) :
    ∃ ts : Int, last.timestamp = ts ∧ last ∈ backups ∧ IsUsable globPattern template type last ∧
      ∀ b ∈ backups, IsUsable globPattern template type b → ∀ t : Int, b.timestamp = t → t ≤ ts := by
  have hmem := mem_matchingBackups.mp (List.mem_of_find?_eq_some h)
  have htype : classifyBackupType globPattern template last.name = some type := by
    simpa using List.find?_some h
  have hne : last.timestamp ≠ ⊥ := by
    have hmatching := hmem.2
    rw [isMatching, Bool.and_eq_true, Bool.and_eq_true, decide_eq_true_iff] at hmatching
    exact hmatching.1.2
  obtain ⟨ts, hts⟩ := WithBot.ne_bot_iff_exists.mp hne
  refine ⟨ts, hts.symm, hmem.1, ⟨hmem.2, htype⟩, fun b hb husable t ht => ?_⟩
  have hsorted : (matchingBackups template backups).Pairwise laterFirst :=
    List.pairwise_insertionSort laterFirst _
  have hb' := find?_of_pairwise hsorted h b (mem_matchingBackups.mpr ⟨hb, husable.1⟩)
    (decide_eq_true husable.2)
  have hle : b.timestamp ≤ last.timestamp := by
    rcases hb' with rfl | hlater
    · exact le_refl _
    · exact hlater
  rw [ht, ← hts] at hle
  exact WithBot.coe_le_coe.mp hle

/-- The time of the last backup is that of the youngest one, full or incremental. -/
theorem anyIsFresh_iff {last : BackupSummary} {ts : Int} (hts : last.timestamp = ts)
    (h : lastOfType globPattern template .full backups = some last) :
    AnyIsFresh globPattern template now watchInterval backups ↔
      now - lastBackupTs ts (lastOfType globPattern template .incr backups) < watchInterval := by
  obtain ⟨ts', hts', hmem, husable, hlast⟩ := youngest_find? h
  obtain rfl : ts' = ts := WithBot.coe_injective (hts'.symm.trans hts)
  cases hincr : lastOfType globPattern template .incr backups with
  | none =>
    show _ ↔ now - ts' < watchInterval
    constructor
    · rintro ⟨b, hb, type, hb', t, ht, hlt⟩
      cases type with
      | full =>
        have := hlast b hb hb' t ht
        omega
      | incr => exact absurd hb' (not_isUsable_of_none hincr b hb)
    · exact fun hlt => ⟨last, hmem, .full, husable, ts', hts, hlt⟩
  | some incr =>
    obtain ⟨tsIncr, htsIncr, hmemIncr, husableIncr, hlastIncr⟩ := youngest_find? hincr
    have hts₂ : lastBackupTs ts' (some incr) = max tsIncr ts' := by
      rw [lastBackupTs, htsIncr]
      rfl
    rw [hts₂]
    constructor
    · rintro ⟨b, hb, type, hb', t, ht, hlt⟩
      cases type with
      | full =>
        have := hlast b hb hb' t ht
        omega
      | incr =>
        have := hlastIncr b hb hb' t ht
        omega
    · intro hlt
      rcases max_choice tsIncr ts' with hmax | hmax
      · rw [hmax] at hlt
        exact ⟨incr, hmemIncr, .incr, husableIncr, tsIncr, htsIncr, hlt⟩
      · rw [hmax] at hlt
        exact ⟨last, hmem, .full, husable, ts', hts, hlt⟩

theorem fullIsFresh_iff {last : BackupSummary} {ts : Int} (hts : last.timestamp = ts)
    (h : lastOfType globPattern template .full backups = some last) :
    FullIsFresh globPattern template now fullInterval backups ↔ now - ts < fullInterval := by
  obtain ⟨ts', hts', hmem, husable, hlast⟩ := youngest_find? h
  obtain rfl : ts' = ts := WithBot.coe_injective (hts'.symm.trans hts)
  constructor
  · rintro ⟨b, hb, hb', t, ht, hlt⟩
    have := hlast b hb hb' t ht
    omega
  · exact fun hlt => ⟨last, hmem, husable, ts', hts, hlt⟩

/-! ## The decision -/

/-- The decision from the youngest full backup, at any time. -/
theorem resumeState_of_full {last : BackupSummary} {ts : Int} (hts : last.timestamp = ts)
    (h : lastOfType globPattern template .full backups = some last) :
    ∃ base, ∀ now, resumeState globPattern template watchInterval fullInterval now backups =
      if fullInterval ≤ elapsed now ts then .fullNow
      else
        let age := elapsed now (lastBackupTs ts (lastOfType globPattern template .incr backups))
        if watchInterval ≤ age then .incrNow base else .sleepThen (watchInterval - age) .incr := by
  have hsome : (matchingBackups template backups).head?.isSome = true :=
    isSome_head?_of_find? (Option.isSome_of_eq_some h)
  obtain ⟨recent, hrecent⟩ := Option.isSome_iff_exists.mp hsome
  refine ⟨recent.name, fun now => ?_⟩
  rw [resumeState]
  dsimp only
  rw [hrecent]
  exact (congrArg (fun full => decideFrom _ _ now full _ _) h).trans (decideFrom_of_timestamp hts)

/-- **The next decision is for the youngest backups, and the loop makes progress.** -/
theorem watch_schedules_by_age (hnow : ∀ b ∈ backups, b.timestamp ≤ now) (hwatch : 0 < watchInterval)
    (hfull : 0 < fullInterval) :
    SchedulesByAge globPattern template watchInterval fullInterval now backups := by
  cases hlast : lastOfType globPattern template .full backups with
  | none =>
    have hstale : ¬FullIsFresh globPattern template now fullInterval backups := by
      rintro ⟨b, hb, husable, -⟩
      exact not_isUsable_of_none hlast b hb husable
    have hdecision : resumeState globPattern template watchInterval fullInterval now backups =
        .fullNow :=
      (congrArg (fun full => decideFrom _ _ now full _ _) hlast).trans decideFrom_of_no_full
    refine ⟨iff_of_true hdecision hstale, fun h => absurd h hstale, fun h => absurd h hstale, ?_⟩
    intro remaining type h
    rw [hdecision] at h
    cases h
  | some last =>
    obtain ⟨ts, hts, hmem, -, -⟩ := youngest_find? hlast
    obtain ⟨base, hdecision⟩ :=
      @resumeState_of_full globPattern template watchInterval fullInterval backups last ts hts hlast
    have hfresh : FullIsFresh globPattern template now fullInterval backups ↔ now - ts < fullInterval :=
      fullIsFresh_iff hts hlast
    have hany : AnyIsFresh globPattern template now watchInterval backups ↔
        now - lastBackupTs ts (lastOfType globPattern template .incr backups) < watchInterval :=
      anyIsFresh_iff hts hlast
    -- the last backup is not in the future
    have hpast : lastBackupTs ts (lastOfType globPattern template .incr backups) ≤ now := by
      have hts' : ts ≤ now := WithBot.coe_le_coe.mp (hts ▸ hnow last hmem)
      cases hincr : lastOfType globPattern template .incr backups with
      | none => exact hts'
      | some incr =>
        obtain ⟨tsIncr, htsIncr, hmemIncr, -, -⟩ := youngest_find? hincr
        have hincr' : tsIncr ≤ now := WithBot.coe_le_coe.mp (htsIncr ▸ hnow incr hmemIncr)
        rw [lastBackupTs, htsIncr]
        exact max_le hincr' hts'
    generalize lastBackupTs ts (lastOfType globPattern template .incr backups) = lastTs at *
    have hage : fullInterval ≤ elapsed now ts ↔ ¬now - ts < fullInterval := by
      rw [elapsed]
      omega
    have hageLast : watchInterval ≤ elapsed now lastTs ↔ ¬now - lastTs < watchInterval := by
      rw [elapsed]
      omega
    refine ⟨?_, fun hfreshFull => ?_, fun hfreshFull => ?_, fun remaining type h => ?_⟩
    · rw [hdecision, hfresh, ← hage]
      dsimp only
      split_ifs with hle hleLast
      · exact iff_of_true rfl hle
      · exact iff_of_false (fun h => by cases h) hle
      · exact iff_of_false (fun h => by cases h) hle
    · rw [hdecision, if_neg (fun hle => hage.mp hle (hfresh.mp hfreshFull)), hany, ← hageLast]
      dsimp only
      split_ifs with hleLast
      · exact iff_of_true ⟨base, rfl⟩ hleLast
      · refine iff_of_false ?_ hleLast
        rintro ⟨_, h⟩
        cases h
    · rw [hdecision, if_neg (fun hle => hage.mp hle (hfresh.mp hfreshFull)), hany]
      dsimp only
      split_ifs with hleLast
      · refine iff_of_false ?_ (hageLast.mp hleLast)
        rintro ⟨_, _, h⟩
        cases h
      · exact iff_of_true ⟨_, _, rfl⟩ (not_not.mp (mt hageLast.mpr hleLast))
    · rw [hdecision] at h
      dsimp only at h
      split_ifs at h with hle hleLast
      cases h
      refine ⟨by omega, by omega, fun remaining' type' h' => ?_⟩
      -- what is left of the interval is over by then
      have hover : watchInterval ≤ elapsed (now + ↑(watchInterval - elapsed now lastTs)) lastTs := by
        rw [elapsed, elapsed] at *
        omega
      rw [hdecision] at h'
      dsimp only at h'
      rw [if_pos hover] at h'
      split_ifs at h'

/-- Two full backups, an incremental one and a later one of neither type, in no order. -/
def mixedBackups : List BackupSummary :=
  [summaryAt "watch-full-0" 0, summaryAt "watch-incr-2" 5000, summaryAt "watch-other-3" 6500,
    summaryAt "watch-full-1" 1000]

/-- With an interval of an hour, the loop sleeps until the incremental backup is an hour old. -/
theorem watch_sleeps_after_incr :
    resumeState (fun pattern => some (starPattern pattern)) "watch-{type}-{time:%s}" 3600 86400 7200 mixedBackups =
        .sleepThen 1400 .incr ∧
      SchedulesByAge (fun pattern => some (starPattern pattern)) "watch-{type}-{time:%s}" 3600 86400 7200
        mixedBackups :=
  ⟨by decide +kernel, watch_schedules_by_age (by decide) (by decide) (by decide)⟩

end Chbackup
