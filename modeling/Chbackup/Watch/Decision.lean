import Chbackup.Lib.StableSort
import Chbackup.Listing.Remote
import Chbackup.Watch.Names

/-!
# The decision of the watch loop

`resume_state` (`src/watch/mod.rs`) looks at the remote backups and decides what to do next.  It takes
the backups whose names begin with the static text of the template for those of this instance, although
another instance, or a person, can make such names too.

Times and durations are counted in nanoseconds.  The decision reads three backups: the last full one,
the last incremental one and the last one of all; `decideFrom` is the decision from these three.
-/

namespace Chbackup

/-- `ResumeDecision`. -/
inductive ResumeDecision where
  | fullNow
  | incrNow (diffFrom : Str)
  | sleepThen (remaining : Nat) (backupType : BackupType)
  deriving DecidableEq

/-- The most recent backup comes first. -/
def laterFirst (a b : BackupSummary) : Prop := b.timestamp ≤ a.timestamp

instance instDecidableLaterFirst : DecidableRel laterFirst := fun a b =>
  WithBot.decidableLE b.timestamp a.timestamp

instance instTransLaterFirst : IsTrans BackupSummary laterFirst := ⟨fun _ _ _ h h' => le_trans h' h⟩

instance instTotalLaterFirst : Std.Total laterFirst := ⟨fun a b => le_total b.timestamp a.timestamp⟩

/-- The time since a backup; none for a backup in the future. -/
def elapsed (now timestamp : Int) : Nat := (now - timestamp).toNat

/-- The backups that are taken for those of this instance. -/
def isMatching (template : Str) (b : BackupSummary) : Bool :=
  !b.isBroken && b.timestamp ≠ ⊥ && (resolveTemplatePrefix template).isPrefixOf b.name

/-- The matching backups, the most recent one first. -/
def matchingBackups (template : Str) (backups : List BackupSummary) : List BackupSummary :=
  (backups.filter (isMatching template)).insertionSort laterFirst

/-- The time of the last backup, full or incremental. -/
def lastBackupTs (fullTs : Int) (lastIncr : Option BackupSummary) : Int :=
  match lastIncr with
  | some incr => max (incr.timestamp.unbotD fullTs) fullTs
  | none => fullTs

/-- The decision from the last full backup, the last incremental one and the last one. -/
def decideFrom (watchInterval fullInterval : Nat) (now : Int)
    (lastFull lastIncr mostRecent : Option BackupSummary) : ResumeDecision :=
  match mostRecent, lastFull with
  | some recent, some full =>
    if full.timestamp = ⊥ then .fullNow
    else
      let fullTs := full.timestamp.unbotD 0
      if fullInterval ≤ elapsed now fullTs then .fullNow
      else
        let lastElapsed := elapsed now (lastBackupTs fullTs lastIncr)
        if watchInterval ≤ lastElapsed then .incrNow recent.name
        else .sleepThen (watchInterval - lastElapsed) .incr
  | _, _ => .fullNow

/-- `resume_state`. -/
def resumeState (globPattern : Str → Option (Str → Bool)) (template : Str)
    (watchInterval fullInterval : Nat) (now : Int) (backups : List BackupSummary) : ResumeDecision :=
  let matching := matchingBackups template backups
  decideFrom watchInterval fullInterval now
    (matching.find? fun b => classifyBackupType globPattern template b.name = some .full)
    (matching.find? fun b => classifyBackupType globPattern template b.name = some .incr)
    matching.head?

/-! ## What the decision depends on -/

section Decision

variable {watchInterval fullInterval : Nat} {now : Int}
  {lastFull lastIncr lastIncr' mostRecent mostRecent' : Option BackupSummary}

theorem decideFrom_of_no_full :
    decideFrom watchInterval fullInterval now none lastIncr mostRecent = .fullNow := by
  cases mostRecent <;> rfl

theorem decideFrom_of_zero :
    decideFrom watchInterval 0 now lastFull lastIncr mostRecent = .fullNow := by
  cases mostRecent with
  | none => rfl
  | some recent =>
    cases lastFull with
    | none => rfl
    | some full => simp [decideFrom]

/-- Only the last backup can be the base of an incremental one. -/
theorem base_of_incrNow {d : Str}
    (h : decideFrom watchInterval fullInterval now lastFull lastIncr mostRecent = .incrNow d) :
    ∃ recent, mostRecent = some recent ∧ recent.name = d := by
  cases mostRecent with
  | none => cases h
  | some recent =>
    cases lastFull with
    | none => cases h
    | some full =>
      rw [decideFrom] at h
      dsimp only at h
      split_ifs at h
      cases h
      exact ⟨recent, rfl, rfl⟩

theorem elapsed_lastBackupTs_le (now fullTs : Int) (lastIncr : Option BackupSummary) :
    elapsed now (lastBackupTs fullTs lastIncr) ≤ elapsed now fullTs := by
  have hle : fullTs ≤ lastBackupTs fullTs lastIncr := by
    cases lastIncr with
    | none => exact le_refl _
    | some incr => exact le_max_right _ _
  rw [elapsed, elapsed]
  omega

/-- An incremental backup is due only in the time that a full one leaves. -/
theorem lt_of_incrNow {d : Str}
    (h : decideFrom watchInterval fullInterval now lastFull lastIncr mostRecent = .incrNow d) :
    watchInterval < fullInterval := by
  cases mostRecent with
  | none => cases h
  | some recent =>
    cases lastFull with
    | none => cases h
    | some full =>
      rw [decideFrom] at h
      dsimp only at h
      split_ifs at h with hbot hfull hwatch
      have := elapsed_lastBackupTs_le now (full.timestamp.unbotD 0) lastIncr
      omega

/-- Where an incremental backup is never due, the decision does not depend on the last backup, and
on the last incremental one only in what is left of the interval. -/
theorem decideFrom_congr (hle : fullInterval ≤ watchInterval)
    (hincr : 1 < fullInterval → lastIncr = lastIncr')
    (hrecent : lastFull.isSome = true → mostRecent.isSome = true ∧ mostRecent'.isSome = true) :
    decideFrom watchInterval fullInterval now lastFull lastIncr mostRecent =
      decideFrom watchInterval fullInterval now lastFull lastIncr' mostRecent' := by
  cases lastFull with
  | none => rw [decideFrom_of_no_full, decideFrom_of_no_full]
  | some full =>
    obtain ⟨h₁, h₂⟩ := hrecent rfl
    obtain ⟨recent, rfl⟩ := Option.isSome_iff_exists.mp h₁
    obtain ⟨recent', rfl⟩ := Option.isSome_iff_exists.mp h₂
    rw [decideFrom, decideFrom]
    dsimp only
    by_cases hbot : full.timestamp = ⊥
    · rw [if_pos hbot, if_pos hbot]
    rw [if_neg hbot, if_neg hbot]
    by_cases hfull : fullInterval ≤ elapsed now (full.timestamp.unbotD 0)
    · rw [if_pos hfull, if_pos hfull]
    rw [if_neg hfull, if_neg hfull]
    have h₁ := elapsed_lastBackupTs_le now (full.timestamp.unbotD 0) lastIncr
    have h₂ := elapsed_lastBackupTs_le now (full.timestamp.unbotD 0) lastIncr'
    rw [if_neg (by omega), if_neg (by omega)]
    by_cases hone : 1 < fullInterval
    · rw [hincr hone]
    · have hzero : elapsed now (lastBackupTs (full.timestamp.unbotD 0) lastIncr) =
          elapsed now (lastBackupTs (full.timestamp.unbotD 0) lastIncr') := by omega
      rw [hzero]

end Decision

/-! ## Own backups -/

section Own

variable (strftime : Str → Int → Str) (globPattern : Str → Option (Str → Bool)) (template : Str)
  (macros : SortedMap Str Str) (watchInterval fullInterval : Nat) (now : Int)

open Classical in
/-- The own backups of a listing. -/
noncomputable def ownBackups (backups : List BackupSummary) : List BackupSummary :=
  backups.filter fun b => OwnName strftime template macros b.name

/-- **The decision depends on the own backups only**: listings with the same own backups give the same
decision, and an incremental backup is based on an own one. -/
structure DecidesByOwn : Prop where
  same : ∀ backups backups' : List BackupSummary,
    ownBackups strftime template macros backups = ownBackups strftime template macros backups' →
      resumeState globPattern template watchInterval fullInterval now backups =
        resumeState globPattern template watchInterval fullInterval now backups'
  base : ∀ (backups : List BackupSummary) (diffFrom : Str),
    resumeState globPattern template watchInterval fullInterval now backups = .incrNow diffFrom →
      OwnName strftime template macros diffFrom ∧ ∃ b ∈ backups, b.name = diffFrom

/-- A name that passes the prefix filter although the instance cannot have made it. -/
def ForeignName (name : Str) : Prop :=
  resolveTemplatePrefix template <+: name ∧ ¬OwnName strftime template macros name

/-- Foreign names do not matter: there is never a full backup to go on from, or no foreign name is
classified as a full backup, nor as an incremental one unless every full backup is due at once, and
there is no foreign name at all where an incremental backup can be due. -/
def ForeignNamesHarmless : Prop :=
  fullInterval = 0 ∨
  (∀ name, resolveTemplatePrefix template <+: name →
    classifyBackupType globPattern template name ≠ some .full) ∨
  (∀ name, ForeignName strftime template macros name →
    classifyBackupType globPattern template name ≠ some .full ∧
    (1 < fullInterval → classifyBackupType globPattern template name ≠ some .incr) ∧
    ¬watchInterval < fullInterval)

end Own

section Proofs

variable {strftime : Str → Int → Str} {globPattern : Str → Option (Str → Bool)} {template : Str}
  {macros : SortedMap Str Str} {watchInterval fullInterval : Nat} {now : Int}
  {backups backups' : List BackupSummary}

theorem mem_matchingBackups {b : BackupSummary} :
    b ∈ matchingBackups template backups ↔ b ∈ backups ∧ isMatching template b = true := by
  rw [matchingBackups, List.mem_insertionSort, List.mem_filter]

theorem begins_of_mem_matchingBackups {b : BackupSummary} (h : b ∈ matchingBackups template backups) :
    resolveTemplatePrefix template <+: b.name := by
  have hmatching := (mem_matchingBackups.mp h).2
  rw [isMatching, Bool.and_eq_true] at hmatching
  exact List.isPrefixOf_iff_prefix.mp hmatching.2

/-- The own backups among the matching ones are the matching ones among the own. -/
theorem ownBackups_matchingBackups :
    ownBackups strftime template macros (matchingBackups template backups) =
      matchingBackups template (ownBackups strftime template macros backups) := by
  rw [ownBackups, matchingBackups, List.filter_insertionSort, List.filter_filter, matchingBackups,
    ownBackups, List.filter_filter]
  simp only [Bool.and_comm]

/-- A search that only own backups satisfy can be made among them. -/
theorem find?_ownBackups {p : BackupSummary → Bool}
    (h : ∀ b ∈ backups, p b = true → OwnName strftime template macros b.name) :
    (ownBackups strftime template macros backups).find? p = backups.find? p := by
  rw [ownBackups, List.find?_filter]
  refine List.find?_congr fun b hb => ?_
  cases hp : p b with
  | false => simp
  | true => simp [h b hb hp]

/-- Searches among the matching backups that only own backups satisfy find the same in listings with
the same own backups. -/
theorem find?_matchingBackups {type : BackupType}
    (hown : ownBackups strftime template macros backups = ownBackups strftime template macros backups')
    (h : ∀ name, ForeignName strftime template macros name →
      classifyBackupType globPattern template name ≠ some type) :
    ((matchingBackups template backups).find? fun b =>
      classifyBackupType globPattern template b.name = some type) =
    (matchingBackups template backups').find? fun b =>
      classifyBackupType globPattern template b.name = some type := by
  have hname : ∀ l : List BackupSummary, ∀ b ∈ matchingBackups template l,
      decide (classifyBackupType globPattern template b.name = some type) = true →
        OwnName strftime template macros b.name := by
    intro l b hb htype
    by_contra hforeign
    exact h b.name ⟨begins_of_mem_matchingBackups hb, hforeign⟩ (of_decide_eq_true htype)
  rw [← find?_ownBackups (hname backups), ← find?_ownBackups (hname backups'),
    ownBackups_matchingBackups, ownBackups_matchingBackups, hown]

/-- Where no foreign name passes the filter, the matching backups are the own ones. -/
theorem matchingBackups_eq
    (hown : ownBackups strftime template macros backups = ownBackups strftime template macros backups')
    (h : ∀ name, ¬ForeignName strftime template macros name) :
    matchingBackups template backups = matchingBackups template backups' := by
  have hself : ∀ l : List BackupSummary,
      ownBackups strftime template macros (matchingBackups template l) = matchingBackups template l := by
    intro l
    rw [ownBackups, List.filter_eq_self]
    intro b hb
    simp only [decide_eq_true_eq]
    by_contra hforeign
    exact h b.name ⟨begins_of_mem_matchingBackups hb, hforeign⟩
  rw [← hself backups, ← hself backups', ownBackups_matchingBackups, ownBackups_matchingBackups, hown]

theorem resumeState_of_no_full (h : ∀ name, resolveTemplatePrefix template <+: name →
      classifyBackupType globPattern template name ≠ some .full) :
    resumeState globPattern template watchInterval fullInterval now backups = .fullNow := by
  have hnone : ((matchingBackups template backups).find? fun b =>
      classifyBackupType globPattern template b.name = some .full) = none := by
    refine List.find?_eq_none.mpr fun b hb htype => ?_
    exact h b.name (begins_of_mem_matchingBackups hb) (of_decide_eq_true htype)
  rw [resumeState]
  simp only [hnone]
  exact decideFrom_of_no_full

/-- What is found among the matching backups leaves a first one. -/
theorem isSome_head?_of_find? {l : List BackupSummary} {p : BackupSummary → Bool}
    (h : (l.find? p).isSome = true) : l.head?.isSome = true := by
  cases l with
  | nil => cases h
  | cons b l => rfl

/-- **Harmless foreign names leave the decision to the own backups.** -/
theorem ForeignNamesHarmless.same
    (h : ForeignNamesHarmless strftime globPattern template macros watchInterval fullInterval)
    (hown : ownBackups strftime template macros backups = ownBackups strftime template macros backups') :
    resumeState globPattern template watchInterval fullInterval now backups =
      resumeState globPattern template watchInterval fullInterval now backups' := by
  rcases h with rfl | hnone | hforeign
  · rw [resumeState, resumeState]
    exact decideFrom_of_zero.trans decideFrom_of_zero.symm
  · rw [resumeState_of_no_full hnone, resumeState_of_no_full hnone]
  · by_cases hlt : watchInterval < fullInterval
    · have hnone : ∀ name, ¬ForeignName strftime template macros name := fun name hname =>
        (hforeign name hname).2.2 hlt
      rw [resumeState, resumeState, matchingBackups_eq hown hnone]
    · have hfull : ((matchingBackups template backups).find? fun b =>
          classifyBackupType globPattern template b.name = some .full) =
          (matchingBackups template backups').find? fun b =>
            classifyBackupType globPattern template b.name = some .full :=
        find?_matchingBackups hown fun name hname => (hforeign name hname).1
      rw [resumeState, resumeState]
      simp only [← hfull]
      refine decideFrom_congr (Nat.le_of_not_lt hlt) ?_ ?_
      · intro hone
        exact find?_matchingBackups hown fun name hname => (hforeign name hname).2.1 hone
      · intro hsome
        exact ⟨isSome_head?_of_find? hsome, isSome_head?_of_find? (hfull ▸ hsome)⟩

/-- The base of an incremental backup is the last of the matching backups. -/
theorem mem_of_incrNow {d : Str}
    (h : resumeState globPattern template watchInterval fullInterval now backups = .incrNow d) :
    ∃ b ∈ matchingBackups template backups, b.name = d := by
  obtain ⟨recent, hrecent, hname⟩ := base_of_incrNow h
  exact ⟨recent, List.mem_of_mem_head? hrecent, hname⟩

theorem ForeignNamesHarmless.own_of_incrNow {d : Str}
    (h : ForeignNamesHarmless strftime globPattern template macros watchInterval fullInterval)
    (hincr : resumeState globPattern template watchInterval fullInterval now backups = .incrNow d) :
    OwnName strftime template macros d := by
  rcases h with rfl | hnone | hforeign
  · rw [resumeState] at hincr
    exact absurd (decideFrom_of_zero.symm.trans hincr) (fun h => by cases h)
  · rw [resumeState_of_no_full hnone] at hincr
    cases hincr
  · obtain ⟨b, hb, rfl⟩ := mem_of_incrNow hincr
    by_contra hname
    exact (hforeign b.name ⟨begins_of_mem_matchingBackups hb, hname⟩).2.2 (lt_of_incrNow hincr)

/-! ## Foreign names that matter -/

/-- A backup of which only the name and the time matter. -/
def summaryAt (name : Str) (timestamp : Int) : BackupSummary :=
  { brokenSummary name [] with timestamp := timestamp, isBroken := false, brokenReason := none }

theorem isMatching_summaryAt {name : Str} {ts : Int} (h : resolveTemplatePrefix template <+: name) :
    isMatching template (summaryAt name ts) = true := by
  have hts : (summaryAt name ts).timestamp ≠ ⊥ := WithBot.coe_ne_bot
  have hname : (resolveTemplatePrefix template).isPrefixOf (summaryAt name ts).name = true :=
    List.isPrefixOf_iff_prefix.mpr h
  rw [isMatching, hname, decide_eq_true hts]
  rfl

theorem matchingBackups_one {name : Str} {ts : Int} (h : resolveTemplatePrefix template <+: name) :
    matchingBackups template [summaryAt name ts] = [summaryAt name ts] := by
  rw [matchingBackups, List.filter_cons_of_pos (isMatching_summaryAt h)]
  rfl

theorem matchingBackups_two {name name' : Str} {ts ts' : Int}
    (h : resolveTemplatePrefix template <+: name) (h' : resolveTemplatePrefix template <+: name')
    (hts : ts' ≤ ts) :
    matchingBackups template [summaryAt name ts, summaryAt name' ts'] =
      [summaryAt name ts, summaryAt name' ts'] := by
  rw [matchingBackups, List.filter_cons_of_pos (isMatching_summaryAt h),
    List.filter_cons_of_pos (isMatching_summaryAt h')]
  have hlater : laterFirst (summaryAt name ts) (summaryAt name' ts') := WithBot.coe_le_coe.mpr hts
  exact List.orderedInsert_cons_of_le laterFirst [] hlater

theorem decideFrom_of_timestamp {full recent : BackupSummary} {lastIncr : Option BackupSummary} {ts : Int}
    (hts : full.timestamp = (ts : WithBot Int)) :
    decideFrom watchInterval fullInterval now (some full) lastIncr (some recent) =
      if fullInterval ≤ elapsed now ts then .fullNow
      else if watchInterval ≤ elapsed now (lastBackupTs ts lastIncr) then .incrNow recent.name
      else .sleepThen (watchInterval - elapsed now (lastBackupTs ts lastIncr)) .incr := by
  rw [decideFrom]
  dsimp only
  rw [hts, if_neg WithBot.coe_ne_bot]
  rfl

/-- The decision from one full backup. -/
theorem resumeState_full {f : Str} {ts : Int} (hf : resolveTemplatePrefix template <+: f)
    (hfull : classifyBackupType globPattern template f = some .full) :
    resumeState globPattern template watchInterval fullInterval now [summaryAt f ts] =
      if fullInterval ≤ elapsed now ts then .fullNow
      else if watchInterval ≤ elapsed now ts then .incrNow f
      else .sleepThen (watchInterval - elapsed now ts) .incr := by
  have hname : (summaryAt f ts).name = f := rfl
  rw [resumeState, matchingBackups_one hf]
  simp only [List.find?_cons, List.find?_nil, hname, hfull, decide_true, List.head?_cons, Option.some.injEq,
    reduceCtorEq, decide_false]
  exact decideFrom_of_timestamp rfl

/-- The decision from a full backup and a later one that is not full. -/
theorem resumeState_full_and {f w : Str} {ts ts' : Int} (hf : resolveTemplatePrefix template <+: f)
    (hw : resolveTemplatePrefix template <+: w)
    (hfull : classifyBackupType globPattern template f = some .full)
    (hnot : classifyBackupType globPattern template w ≠ some .full) (hts : ts ≤ ts') :
    resumeState globPattern template watchInterval fullInterval now [summaryAt w ts', summaryAt f ts] =
      if fullInterval ≤ elapsed now ts then .fullNow
      else
        let last := elapsed now (if classifyBackupType globPattern template w = some .incr then ts' else ts)
        if watchInterval ≤ last then .incrNow w else .sleepThen (watchInterval - last) .incr := by
  have hnameW : (summaryAt w ts').name = w := rfl
  have hnameF : (summaryAt f ts).name = f := rfl
  rw [resumeState, matchingBackups_two hw hf hts]
  by_cases hincr : classifyBackupType globPattern template w = some .incr
  · simp only [List.find?_cons, hnameW, hnameF, hfull, hincr, decide_true, decide_false, List.head?_cons,
      Option.some.injEq, reduceCtorEq, if_true]
    rw [decideFrom_of_timestamp rfl]
    have hlast : lastBackupTs ts (some (summaryAt w ts')) = ts' := max_eq_left hts
    rw [hlast]
    rfl
  · simp only [List.find?_cons, List.find?_nil, hnameW, hnameF, hfull, hnot, hincr, decide_true,
      decide_false, List.head?_cons, Option.some.injEq, reduceCtorEq, if_false]
    exact decideFrom_of_timestamp rfl

theorem ownBackups_foreign {w : Str} {ts : Int} (hw : ForeignName strftime template macros w)
    (backups : List BackupSummary) :
    ownBackups strftime template macros (summaryAt w ts :: backups) =
      ownBackups strftime template macros backups := by
  have hname : ¬OwnName strftime template macros (summaryAt w ts).name := hw.2
  rw [ownBackups, List.filter_cons_of_neg (by simpa using hname)]
  rfl

/-- **Decisions by the own backups leave no foreign name that matters.** -/
theorem DecidesByOwn.harmless
    (h : DecidesByOwn strftime globPattern template macros watchInterval fullInterval now) :
    ForeignNamesHarmless strftime globPattern template macros watchInterval fullInterval := by
  by_cases hzero : fullInterval = 0
  · exact Or.inl hzero
  by_cases hnone : ∀ name, resolveTemplatePrefix template <+: name →
      classifyBackupType globPattern template name ≠ some .full
  · exact Or.inr (Or.inl hnone)
  push Not at hnone
  obtain ⟨f, hf, hfull⟩ := hnone
  have hself : elapsed now now = 0 := by
    rw [elapsed]
    omega
  -- a foreign full backup alone is not as good as none
  have hfulls : ∀ w, ForeignName strftime template macros w →
      classifyBackupType globPattern template w ≠ some .full := by
    intro w hw htype
    have hsame := h.same [summaryAt w now] [] (ownBackups_foreign hw [])
    rw [resumeState_full hw.1 htype, hself, if_neg (by omega)] at hsame
    have hempty : resumeState globPattern template watchInterval fullInterval now [] = .fullNow := rfl
    rw [hempty] at hsame
    split_ifs at hsame
  -- a foreign incremental backup makes the next one wait
  have hincrs : ∀ w, ForeignName strftime template macros w → 1 < fullInterval →
      classifyBackupType globPattern template w ≠ some .incr := by
    intro w hw hone htype
    have hsame := h.same [summaryAt w now, summaryAt f (now - 1)] [summaryAt f (now - 1)]
      (ownBackups_foreign hw _)
    have hbefore : elapsed now (now - 1) = 1 := by
      rw [elapsed]
      omega
    have hnotFull : ¬fullInterval ≤ 1 := by omega
    rw [resumeState_full_and hf hw.1 hfull (hfulls w hw) (by omega), resumeState_full hf hfull] at hsame
    simp only [hbefore, hnotFull, htype, hself, if_true, if_false] at hsame
    split_ifs at hsame with h₁ h₂ h₂
    · cases hsame
      rw [hfull] at htype
      cases htype
    · have hwait := (ResumeDecision.sleepThen.inj hsame).1
      omega
  refine Or.inr (Or.inr fun w hw => ⟨hfulls w hw, hincrs w hw, fun hlt => ?_⟩)
  -- where an incremental backup can be due, it would be based on the foreign one
  have hbase : resumeState globPattern template watchInterval fullInterval now
      [summaryAt w now, summaryAt f (now - watchInterval)] = .incrNow w := by
    have hbefore : elapsed now (now - watchInterval) = watchInterval := by
      rw [elapsed]
      omega
    rw [resumeState_full_and hf hw.1 hfull (hfulls w hw) (by omega), hbefore, if_neg (by omega)]
    dsimp only
    split_ifs with htype hle hle
    · rfl
    · have hone : ¬1 < fullInterval := fun hone => hincrs w hw hone htype
      rw [hself] at hle
      omega
    · rfl
    · exact absurd (le_of_eq hbefore.symm) hle
  exact hw.2 (h.base _ _ hbase).1

end Proofs

/-- The watch loop decides by its own backups exactly where foreign names that pass the prefix filter
are harmless. -/
theorem watch_decides_by_own (strftime : Str → Int → Str) (globPattern : Str → Option (Str → Bool))
    (template : Str) (macros : SortedMap Str Str) (watchInterval fullInterval : Nat) (now : Int) :
    DecidesByOwn strftime globPattern template macros watchInterval fullInterval now ↔
      ForeignNamesHarmless strftime globPattern template macros watchInterval fullInterval := by
  constructor
  · exact DecidesByOwn.harmless
  · intro h
    refine ⟨fun backups backups' hown => h.same hown, fun backups d hincr => ?_⟩
    obtain ⟨b, hb, hname⟩ := mem_of_incrNow hincr
    exact ⟨h.own_of_incrNow hincr, b, (mem_matchingBackups.mp hb).1, hname⟩

/-! ## Two shards that share a bucket -/

/-- The patterns that the shipped template leads to: letters, and stars for anything. -/
def starPattern : Str → Str → Bool
  | [], name => name.isEmpty
  | c :: rest, name =>
    if c = '*' then name.tails.any (starPattern rest)
    else
      match name with
      | d :: name => c = d && starPattern rest name
      | [] => false

/-- The shipped template, in the shard `01`: the full backup of the shard `02` is taken for its own. -/
theorem other_shard_decides :
    ¬∀ (strftime : Str → Int → Str) (globPattern : Str → Option (Str → Bool)) (template : Str)
      (macros : SortedMap Str Str) (watchInterval fullInterval : Nat) (now : Int),
      DecidesByOwn strftime globPattern template macros watchInterval fullInterval now := by
  intro h
  have hself := h (fun _ _ => "20240101") (fun pattern => some (starPattern pattern))
    "shard{shard}-{type}-{time:%Y%m%d}"
    ((SortedMap.empty : SortedMap Str Str).insert ("shard" : Str) ("01" : Str)) 3600 86400 0
  have hforeign : ForeignName (fun _ _ => "20240101") "shard{shard}-{type}-{time:%Y%m%d}"
      ((SortedMap.empty : SortedMap Str Str).insert ("shard" : Str) ("01" : Str))
      "shard02-full-20240101" := by
    refine ⟨by decide, ?_⟩
    rintro ⟨backupType, now, hname⟩
    have hdiffer : (resolveNameTemplate (fun _ _ => "20240101") "shard{shard}-{type}-{time:%Y%m%d}"
        backupType now ((SortedMap.empty : SortedMap Str Str).insert ("shard" : Str) ("01" : Str))).take 7
        = "shard01".toList := by
      cases backupType <;> rfl
    rw [← hname] at hdiffer
    exact absurd hdiffer (by decide)
  have hsame := hself.same [summaryAt "shard02-full-20240101" 0] [] (ownBackups_foreign hforeign [])
  exact absurd hsame (by decide)

end Chbackup
