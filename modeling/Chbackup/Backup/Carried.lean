import Chbackup.Backup.Diff

/-!
# What the diff carries

The contract of `diff_parts` (`src/backup/diff.rs`): which parts it marks, what it takes over from
the base, and what it leaves alone.  The documentation of `PartInfo` (`src/manifest.rs`) promises
that the size of the archive is carried forward with the key of the archive; the diff leaves the
size of the current part in place.
-/

namespace Chbackup

namespace BackupManifest

variable (m : BackupManifest)

/-- The parts of a table on a disk. -/
def partsAt (tableKey diskName : Str) : List PartInfo :=
  ((m.tables.get? tableKey).bind fun table => table.parts.get? diskName).getD []

/-- Every part with its table and disk. -/
def placedParts : List (Str × Str × PartInfo) :=
  m.tables.entries.flatMap fun t => t.2.parts.entries.flatMap fun d => d.2.map fun p => (t.1, d.1, p)

/-- The names of the parts of a table on a disk are unique. -/
def NamesUniqueOnDisks : Prop := ∀ t d, ((m.partsAt t d).map PartInfo.name).Nodup

/-- A part of the same name and checksum stands under the table and the disk. -/
def holds (t d : Str) (p : PartInfo) : Bool :=
  (m.partsAt t d).any fun b => b.name = p.name && b.checksumCrc64 = p.checksumCrc64

/-- A part of the same name and another checksum stands under the table and the disk. -/
def holdsOther (t d : Str) (p : PartInfo) : Bool :=
  (m.partsAt t d).any fun b => b.name = p.name && b.checksumCrc64 ≠ p.checksumCrc64

variable {m}

theorem holds_iff {t d : Str} {p : PartInfo} :
    m.holds t d p = true ↔
      ∃ b ∈ m.partsAt t d, b.name = p.name ∧ b.checksumCrc64 = p.checksumCrc64 := by
  simp [holds]

theorem holdsOther_iff {t d : Str} {p : PartInfo} :
    m.holdsOther t d p = true ↔
      ∃ b ∈ m.partsAt t d, b.name = p.name ∧ b.checksumCrc64 ≠ p.checksumCrc64 := by
  simp [holdsOther]

theorem mem_partsAt {t d : Str} {p : PartInfo} :
    p ∈ m.partsAt t d ↔ ∃ table parts, (t, table) ∈ m.tables ∧ (d, parts) ∈ table.parts ∧ p ∈ parts := by
  rw [partsAt]
  constructor
  · intro hp
    cases htable : m.tables.get? t with
    | none => simp [htable] at hp
    | some table =>
      cases hparts : table.parts.get? d with
      | none => simp [htable, hparts] at hp
      | some parts =>
        simp only [htable, Option.bind_some, hparts, Option.getD_some] at hp
        exact ⟨table, parts, SortedMap.get?_eq_some_iff.mp htable, SortedMap.get?_eq_some_iff.mp hparts, hp⟩
  · rintro ⟨table, parts, htable, hparts, hp⟩
    rw [SortedMap.get?_eq_some_iff.mpr htable, Option.bind_some, SortedMap.get?_eq_some_iff.mpr hparts]
    exact hp

theorem mem_placedParts {t d : Str} {p : PartInfo} :
    (t, d, p) ∈ m.placedParts ↔ p ∈ m.partsAt t d := by
  rw [mem_partsAt, placedParts]
  simp only [List.mem_flatMap, List.mem_map, Prod.mk.injEq, Prod.exists, SortedMap.mem_iff]
  constructor
  · rintro ⟨_, table, htable, _, parts, hparts, _, hp, rfl, rfl, rfl⟩
    exact ⟨table, parts, htable, hparts, hp⟩
  · rintro ⟨table, parts, htable, hparts, hp⟩
    exact ⟨t, table, htable, d, parts, hparts, p, hp, rfl, rfl, rfl⟩

end BackupManifest

/-! ## The lookup -/

section Lookup

variable {base : BackupManifest} {t d : Str} {p : PartInfo}

theorem baseLookup_eq_find? (base : BackupManifest) (t d name : Str) :
    baseLookup base t d name = (base.partsAt t d).reverse.find? fun p => p.name = name := by
  rw [baseLookup, BackupManifest.partsAt]
  cases base.tables.get? t with
  | none => rfl
  | some table =>
    simp only [Option.bind_some]
    cases table.parts.get? d with
    | none => rfl
    | some parts => rfl

/-- **The lookup finds the part of a name**, when names are unique. -/
theorem baseLookup_eq_some_iff (hunique : base.NamesUniqueOnDisks) {name : Str} {b : PartInfo} :
    baseLookup base t d name = some b ↔ b ∈ base.partsAt t d ∧ b.name = name := by
  rw [baseLookup_eq_find?]
  constructor
  · intro h
    exact ⟨List.mem_reverse.mp (List.mem_of_find?_eq_some h), by simpa using List.find?_some h⟩
  · rintro ⟨hb, rfl⟩
    cases hfind : (base.partsAt t d).reverse.find? fun p => p.name = b.name with
    | none =>
      have := List.find?_eq_none.mp hfind b (List.mem_reverse.mpr hb)
      simp at this
    | some b' =>
      have hb' := List.mem_reverse.mp (List.mem_of_find?_eq_some hfind)
      have hname : b'.name = b.name := by simpa using List.find?_some hfind
      rw [List.inj_on_of_nodup_map (hunique t d) hb' hb hname]

theorem baseLookup_eq_none_iff {name : Str} :
    baseLookup base t d name = none ↔ ∀ b ∈ base.partsAt t d, b.name ≠ name := by
  rw [baseLookup_eq_find?, List.find?_eq_none]
  simp

/-- A part that the base holds is carried with the keys of the base part. -/
theorem diffPart_of_held (hunique : base.NamesUniqueOnDisks) {b : PartInfo} (hb : b ∈ base.partsAt t d)
    (hname : b.name = p.name) (hcrc : b.checksumCrc64 = p.checksumCrc64) :
    diffPart base t d p =
      { p with
        source := carriedPrefix ++ base.name
        backupKey := b.backupKey
        s3Objects := b.s3Objects } := by
  rw [diffPart, (baseLookup_eq_some_iff hunique).mpr ⟨hb, hname⟩]
  exact if_pos hcrc.symm

theorem diffPart_of_not_held (h : base.holds t d p = false) : diffPart base t d p = p := by
  rw [diffPart]
  cases hl : baseLookup base t d p.name with
  | none => rfl
  | some b =>
    refine if_neg fun hcrc => ?_
    rw [baseLookup_eq_find?] at hl
    have hheld : base.holds t d p = true :=
      BackupManifest.holds_iff.mpr ⟨b, List.mem_reverse.mp (List.mem_of_find?_eq_some hl),
        by simpa using List.find?_some hl, hcrc.symm⟩
    rw [h] at hheld
    cases hheld

/-- What is counted for one part. -/
theorem diffCount_eq (hunique : base.NamesUniqueOnDisks) :
    diffCount base t d p =
      ⟨if base.holds t d p then 1 else 0, if base.holds t d p then 0 else 1,
        if base.holdsOther t d p then 1 else 0⟩ := by
  rw [diffCount]
  cases hl : baseLookup base t d p.name with
  | none =>
    have hnone := baseLookup_eq_none_iff.mp hl
    have hheld : base.holds t d p = false := by
      rw [Bool.eq_false_iff, Ne, BackupManifest.holds_iff]
      rintro ⟨b, hb, hname, -⟩
      exact hnone b hb hname
    have hother : base.holdsOther t d p = false := by
      rw [Bool.eq_false_iff, Ne, BackupManifest.holdsOther_iff]
      rintro ⟨b, hb, hname, -⟩
      exact hnone b hb hname
    simp [hheld, hother]
  | some b =>
    obtain ⟨hb, hname⟩ := (baseLookup_eq_some_iff hunique).mp hl
    -- any part of the base with this name is the one the lookup found
    have honly : ∀ b' ∈ base.partsAt t d, b'.name = p.name → b' = b := fun b' hb' hname' =>
      List.inj_on_of_nodup_map (hunique t d) hb' hb (hname'.trans hname.symm)
    have hheld : base.holds t d p = true ↔ b.checksumCrc64 = p.checksumCrc64 := by
      rw [BackupManifest.holds_iff]
      constructor
      · rintro ⟨b', hb', hname', hcrc⟩
        rwa [← honly b' hb' hname']
      · exact fun hcrc => ⟨b, hb, hname, hcrc⟩
    have hother : base.holdsOther t d p = true ↔ b.checksumCrc64 ≠ p.checksumCrc64 := by
      rw [BackupManifest.holdsOther_iff]
      constructor
      · rintro ⟨b', hb', hname', hcrc⟩
        rwa [← honly b' hb' hname']
      · exact fun hcrc => ⟨b, hb, hname, hcrc⟩
    by_cases hcrc : b.checksumCrc64 = p.checksumCrc64
    · have hother' : base.holdsOther t d p = false := by
        rw [Bool.eq_false_iff, Ne, hother]
        exact fun h => h hcrc
      simp [hheld.mpr hcrc, hother', hcrc]
    · have hheld' : base.holds t d p = false := by
        rw [Bool.eq_false_iff, Ne, hheld]
        exact hcrc
      simp [hother.mpr hcrc, hheld', Ne.symm hcrc]

end Lookup

/-! ## The contract -/

/-- What the diff owes to one part: a part that the base holds takes over everything the base
stored for it, every other part stays. -/
structure CarriesOver (base : BackupManifest) (t d : Str) (p p' : PartInfo) : Prop where
  marked : p.source ≠ carriedPrefix ++ base.name →
    (p'.source = carriedPrefix ++ base.name ↔ base.holds t d p = true)
  held : ∀ b ∈ base.partsAt t d, b.name = p.name → b.checksumCrc64 = p.checksumCrc64 →
    p' = { p with
      source := carriedPrefix ++ base.name
      backupKey := b.backupKey
      s3Objects := b.s3Objects
      backupSize := b.backupSize }
  other : base.holds t d p = false → p' = p

/-- What the diff owes to the manifest and to the caller. -/
structure DiffMeets (current base after : BackupManifest) (counts : DiffResult) : Prop where
  fields : after = { current with tables := after.tables }
  tables : SortedMap.Rel (fun t table table' => table' = { table with parts := table'.parts } ∧
    SortedMap.Rel (fun d => List.Forall₂ (CarriesOver base t d)) table.parts table'.parts)
    current.tables after.tables
  carried : counts.carried = current.placedParts.countP fun x => base.holds x.1 x.2.1 x.2.2
  uploaded : counts.uploaded = current.placedParts.countP fun x => !base.holds x.1 x.2.1 x.2.2
  crcMismatches : counts.crcMismatches =
    current.placedParts.countP fun x => base.holdsOther x.1 x.2.1 x.2.2
  again : diffParts after base = after

/-- Every part that the base holds has the archive size the base stored for it. -/
def SizesAgree (current base : BackupManifest) : Prop :=
  ∀ t d, ∀ p ∈ current.partsAt t d, ∀ b ∈ base.partsAt t d, b.name = p.name →
    b.checksumCrc64 = p.checksumCrc64 → p.backupSize = b.backupSize

section Meets

variable {current base : BackupManifest}

theorem carriesOver_iff (hunique : base.NamesUniqueOnDisks) {t d : Str} {p : PartInfo} :
    CarriesOver base t d p (diffPart base t d p) ↔
      ∀ b ∈ base.partsAt t d, b.name = p.name → b.checksumCrc64 = p.checksumCrc64 →
        p.backupSize = b.backupSize := by
  constructor
  · intro h b hb hname hcrc
    have hsize := congrArg PartInfo.backupSize (h.held b hb hname hcrc)
    rwa [diffPart_of_held hunique hb hname hcrc] at hsize
  · intro hsizes
    refine ⟨fun hsource => ⟨fun hmarked => ?_, fun hheld => ?_⟩, fun b hb hname hcrc => ?_,
      diffPart_of_not_held⟩
    · by_contra hnot
      rw [diffPart_of_not_held (Bool.eq_false_iff.mpr hnot)] at hmarked
      exact hsource hmarked
    · obtain ⟨b, hb, hname, hcrc⟩ := BackupManifest.holds_iff.mp hheld
      rw [diffPart_of_held hunique hb hname hcrc]
    · rw [diffPart_of_held hunique hb hname hcrc, hsizes b hb hname hcrc]

/-- The diff makes the same of a part that it has already been applied to. -/
theorem diffPart_diffPart (base : BackupManifest) (t d : Str) (p : PartInfo) :
    diffPart base t d (diffPart base t d p) = diffPart base t d p := by
  rcases diffPart_cases base t d p with h | ⟨b, h⟩
  · rw [h p rfl rfl, h p rfl rfl]
  · rw [h p rfl rfl]
    exact h _ rfl rfl

/-- **A second diff changes nothing.** -/
theorem diffParts_diffParts (current base : BackupManifest) :
    diffParts (diffParts current base) base = diffParts current base := by
  have hparts : ∀ t d (parts : List PartInfo),
      (parts.map (diffPart base t d)).map (diffPart base t d) = parts.map (diffPart base t d) := by
    intro t d parts
    rw [List.map_map]
    exact List.map_congr_left fun p _ => diffPart_diffPart base t d p
  simp only [diffParts, SortedMap.mapValues_mapValues, hparts]

theorem placedParts_counts (current base : BackupManifest) :
    (current.tables.entries.flatMap fun t =>
        t.2.parts.entries.flatMap fun d => d.2.map (diffCount base t.1 d.1)) =
      current.placedParts.map fun x => diffCount base x.1 x.2.1 x.2.2 := by
  simp only [BackupManifest.placedParts, List.map_flatMap, List.map_map]
  rfl

theorem sum_map_ite {α : Type} (p : α → Bool) (l : List α) :
    (l.map fun x => if p x then 1 else 0).sum = l.countP p := by
  induction l with
  | nil => rfl
  | cons x l ih =>
    rw [List.map_cons, List.sum_cons, ih, List.countP_cons, Nat.add_comm]

/-- **The counters count the parts the base holds, the others, and the changed ones.** -/
theorem diffPartsResult_eq (hunique : base.NamesUniqueOnDisks) :
    diffPartsResult current base =
      ⟨current.placedParts.countP fun x => base.holds x.1 x.2.1 x.2.2,
        current.placedParts.countP fun x => !base.holds x.1 x.2.1 x.2.2,
        current.placedParts.countP fun x => base.holdsOther x.1 x.2.1 x.2.2⟩ := by
  rw [diffPartsResult, placedParts_counts]
  simp only [List.map_map, DiffResult.mk.injEq, ← sum_map_ite, Function.comp_def,
    diffCount_eq hunique, Bool.not_eq_eq_eq_not, Bool.not_true, true_and, and_true]
  refine congrArg List.sum (List.map_congr_left fun x _ => ?_)
  cases base.holds x.1 x.2.1 x.2.2 with
  | false => rfl
  | true => rfl

theorem rel_diffParts_iff :
    SortedMap.Rel (fun t table table' => table' = { table with parts := table'.parts } ∧
        SortedMap.Rel (fun d => List.Forall₂ (CarriesOver base t d)) table.parts table'.parts)
        current.tables (diffParts current base).tables ↔
      ∀ t d, ∀ p ∈ current.partsAt t d, CarriesOver base t d p (diffPart base t d p) := by
  simp only [diffParts, SortedMap.rel_mapValues_right, List.forall₂_map_right_iff, List.forall₂_same,
    true_and, BackupManifest.mem_partsAt]
  constructor
  · rintro h t d p ⟨table, parts, htable, hparts, hp⟩
    exact h t table htable d parts hparts p hp
  · intro h t table htable d parts hparts p hp
    exact h t d p ⟨table, parts, htable, hparts, hp⟩

end Meets

/-- **The diff meets its contract iff the archive sizes of the carried parts are those of the
base already.** -/
theorem diffParts_meets_iff (current base : BackupManifest) (hbase : base.NamesUniqueOnDisks) :
    DiffMeets current base (diffParts current base) (diffPartsResult current base) ↔
      SizesAgree current base := by
  have hparts : (∀ t d, ∀ p ∈ current.partsAt t d, CarriesOver base t d p (diffPart base t d p)) ↔
      SizesAgree current base := by
    simp only [carriesOver_iff hbase]
    rfl
  rw [← hparts, ← rel_diffParts_iff]
  refine ⟨fun h => h.tables, fun htables => ?_⟩
  refine ⟨rfl, htables, ?_, ?_, ?_, diffParts_diffParts current base⟩
  all_goals rw [diffPartsResult_eq hbase]

/-- A manifest with one part of one table on one disk. -/
def lonePartManifest (table disk name : Str) (part : PartInfo) : BackupManifest :=
  { (default : BackupManifest) with
    name := name
    tables := (SortedMap.empty : SortedMap Str TableManifest).insert table
      { (default : TableManifest) with
        parts := (SortedMap.empty : SortedMap Str (List PartInfo)).insert disk [part] } }

theorem partsAt_lonePartManifest (table disk name : Str) (part : PartInfo) (t d : Str) :
    (lonePartManifest table disk name part).partsAt t d =
      if t = table ∧ d = disk then [part] else [] := by
  simp only [BackupManifest.partsAt, lonePartManifest, SortedMap.get?_insert]
  by_cases ht : t = table
  · by_cases hd : d = disk
    · simp [ht, hd]
    · rw [if_pos ht, Option.bind_some, SortedMap.get?_insert, if_neg hd, if_neg fun h => hd h.2]
      rfl
  · rw [if_neg ht, if_neg fun h => ht h.1]
    rfl

theorem mem_partsAt_lonePartManifest (table disk name : Str) (part : PartInfo) :
    part ∈ (lonePartManifest table disk name part).partsAt table disk := by
  rw [partsAt_lonePartManifest, if_pos ⟨rfl, rfl⟩]
  exact List.mem_singleton_self part

theorem namesUniqueOnDisks_lonePartManifest (table disk name : Str) (part : PartInfo) :
    (lonePartManifest table disk name part).NamesUniqueOnDisks := by
  intro t d
  rw [partsAt_lonePartManifest]
  split_ifs
  · exact List.nodup_singleton _
  · exact List.nodup_nil

/-- The part as `create` collects it. -/
def collectedPart : PartInfo := PartInfo.new "all_1_1_0" 1000 7

/-- The same part as an upload of 400 bytes left it in the base. -/
def archivedPart : PartInfo :=
  { collectedPart with backupKey := "base/data/db/t/all_1_1_0.tar.lz4", backupSize := 400 }

/-- A base of an older version, without archive sizes, is carried whole. -/
theorem diffParts_meets_unsized :
    DiffMeets (lonePartManifest "db.t" "default" "new" collectedPart)
      (lonePartManifest "db.t" "default" "base" { archivedPart with backupSize := 0 })
      (diffParts (lonePartManifest "db.t" "default" "new" collectedPart)
        (lonePartManifest "db.t" "default" "base" { archivedPart with backupSize := 0 }))
      (diffPartsResult (lonePartManifest "db.t" "default" "new" collectedPart)
        (lonePartManifest "db.t" "default" "base" { archivedPart with backupSize := 0 })) := by
  refine (diffParts_meets_iff _ _ (namesUniqueOnDisks_lonePartManifest _ _ _ _)).mpr ?_
  intro t d p hp b hb _ _
  rw [partsAt_lonePartManifest] at hp hb
  split_ifs at hp hb with h
  · rw [List.mem_singleton.mp hp, List.mem_singleton.mp hb]
    rfl
  · exact absurd hp List.not_mem_nil

/-- **The archive size is lost**: the carried part has size 0 where the base has 400. -/
theorem carried_part_loses_size :
    ¬DiffMeets (lonePartManifest "db.t" "default" "new" collectedPart) (lonePartManifest "db.t" "default" "base" archivedPart)
      (diffParts (lonePartManifest "db.t" "default" "new" collectedPart) (lonePartManifest "db.t" "default" "base" archivedPart))
      (diffPartsResult (lonePartManifest "db.t" "default" "new" collectedPart) (lonePartManifest "db.t" "default" "base" archivedPart)) := by
  intro h
  have hcarries := rel_diffParts_iff.mp h.tables "db.t" "default" collectedPart
    (mem_partsAt_lonePartManifest _ _ _ _)
  have hsize := (carriesOver_iff (namesUniqueOnDisks_lonePartManifest _ _ _ _)).mp hcarries archivedPart
    (mem_partsAt_lonePartManifest _ _ _ _) rfl rfl
  cases hsize

end Chbackup
