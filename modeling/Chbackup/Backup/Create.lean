import Chbackup.Backup.Carried
import Chbackup.Backup.Complete

/-!
# Creating a backup against a remote base

`create --diff-from-remote` (`src/backup/mod.rs`) decides twice whether the base holds a part.
While the shadow directories are collected, a lookup of checksums tells which parts need no staged
copy (`process_shadow_part`, `src/backup/collect.rs`); when the manifest is built, `diff_parts`
marks the parts that are carried.
-/

namespace Chbackup

/-! ## The lookup -/

/-- The `base_parts` lookup of `create`: checksum and size by table, disk and part.  A later part
replaces an earlier one. -/
def basePartsMap (base : BackupManifest) : Str × Str × Str → Option (Nat × Nat) :=
  base.placedParts.foldl
    (fun map x => Function.update map (x.1, x.2.1, x.2.2.name) (some (x.2.2.checksumCrc64, x.2.2.size)))
    fun _ => none

section Lookup

theorem foldl_update_apply {α κ β : Type} [DecidableEq κ] (key : α → κ) (value : α → β) (l : List α)
    (map : κ → Option β) (k : κ) :
    l.foldl (fun map x => Function.update map (key x) (some (value x))) map k =
      ((l.reverse.find? fun x => key x = k).map value).or (map k) := by
  induction l generalizing map with
  | nil => rfl
  | cons x l ih =>
    rw [List.foldl_cons, ih, List.reverse_cons, List.find?_append]
    cases l.reverse.find? fun x => key x = k with
    | some y => rfl
    | none =>
      by_cases hx : key x = k
      · simp [hx]
      · simp [hx, Function.update_of_ne (Ne.symm hx)]

theorem filter_placedParts (m : BackupManifest) (t d : Str) :
    (m.placedParts.filter fun x => x.1 = t && x.2.1 = d) = (m.partsAt t d).map fun p => (t, d, p) := by
  cases htable : m.tables.get? t with
  | none =>
    rw [BackupManifest.partsAt, htable, List.filter_eq_nil_iff.mpr]
    · rfl
    · rintro ⟨t', d', p⟩ hx hcond
      obtain ⟨rfl, rfl⟩ : t' = t ∧ d' = d := by simpa using hcond
      have hp := BackupManifest.mem_placedParts.mp hx
      rw [BackupManifest.partsAt, htable] at hp
      exact absurd hp List.not_mem_nil
  | some table =>
    rw [BackupManifest.placedParts, SortedMap.filter_flatMap_eq (SortedMap.get?_eq_some_iff.mp htable)]
    · cases hparts : table.parts.get? d with
      | none =>
        rw [BackupManifest.partsAt, htable, Option.bind_some, hparts, List.filter_eq_nil_iff.mpr]
        · rfl
        · intro x hx hcond
          obtain ⟨b, hb, hxb⟩ := List.mem_flatMap.mp hx
          obtain ⟨p, -, rfl⟩ := List.mem_map.mp hxb
          have hd : b.1 = d := by simpa using hcond
          exact SortedMap.get?_eq_none_iff.mp hparts (List.mem_map.mpr ⟨b, hb, hd⟩)
      | some parts =>
        rw [SortedMap.filter_flatMap_eq (SortedMap.get?_eq_some_iff.mp hparts), List.filter_eq_self.mpr,
          BackupManifest.partsAt, htable, Option.bind_some, hparts]
        · rfl
        · intro x hx
          obtain ⟨p, -, rfl⟩ := List.mem_map.mp hx
          simp
        · intro b _ hne x hx
          obtain ⟨p, -, rfl⟩ := List.mem_map.mp hx
          simp [hne]
    · intro b _ hne x hx
      obtain ⟨e, -, hxe⟩ := List.mem_flatMap.mp hx
      obtain ⟨p, -, rfl⟩ := List.mem_map.mp hxe
      simp [hne]

/-- **The two lookups agree**: the one of `create` holds the checksum and the size of the part that
the one of the diff finds. -/
theorem basePartsMap_eq (base : BackupManifest) (t d name : Str) :
    basePartsMap base (t, d, name) =
      (baseLookup base t d name).map fun p => (p.checksumCrc64, p.size) := by
  have hfind : (base.placedParts.reverse.find? fun x => (x.1, x.2.1, x.2.2.name) = (t, d, name)) =
      ((base.placedParts.filter fun x => x.1 = t && x.2.1 = d).reverse.find? fun x =>
        x.2.2.name = name) := by
    rw [← List.filter_reverse, List.find?_filter]
    congr 1
    funext x
    simp [Bool.and_assoc]
  rw [basePartsMap, foldl_update_apply, hfind, filter_placedParts, baseLookup_eq_find?,
    ← List.map_reverse, List.find?_map]
  cases hl : (base.partsAt t d).reverse.find? fun p => p.name = name with
  | none =>
    have hl' : List.find? ((fun x : Str × Str × PartInfo => decide (x.2.2.name = name)) ∘ fun p => (t, d, p))
      (base.partsAt t d).reverse = none := hl
    rw [hl']
    rfl
  | some p =>
    have hl' : List.find? ((fun x : Str × Str × PartInfo => decide (x.2.2.name = name)) ∘ fun p => (t, d, p))
      (base.partsAt t d).reverse = some p := hl
    rw [hl']
    rfl

end Lookup

/-! ## The parts that are not staged -/

namespace CollectEnv

variable (env : CollectEnv)

/-- A collected part was left without a staged copy. -/
def leftUnstaged (p : CollectedPart) : Bool :=
  ((env.baseParts p.tableKey p.diskName p.partInfo.name).filter (·.1 = p.partInfo.checksumCrc64)).isSome

end CollectEnv

/-! ## The manifest -/

/-- A frozen table with what `create` knows of it from the server. -/
structure FreezeTask where
  table : FrozenTable
  pendingMutations : List MutationInfo
  dependencies : List Str

/-- The key of the table in the manifest. -/
def FreezeTask.key (task : FreezeTask) : Str := task.table.key

/-- The record of the table. -/
def FreezeTask.record (env : CollectEnv) (task : FreezeTask) : Except Str TableManifest :=
  frozenTableManifest env task.table.shadow task.table.row task.pendingMutations task.dependencies

/-- The results of the freeze tasks, entered in order: a later table of the same key replaces an
earlier one. -/
def createTables (env : CollectEnv) (tables : SortedMap Str TableManifest) (tasks : List FreezeTask) :
    Except Str (SortedMap Str TableManifest) :=
  tasks.foldlM
    (fun tables task => do
      let record ← task.record env
      return tables.insert task.key record)
    tables

/-- `create` from the freeze tasks on, with a remote base: the manifest that is saved.  `manifest`
has the tables without data and every other field. -/
def createManifest (env : CollectEnv) (manifest base : BackupManifest) (tasks : List FreezeTask) :
    Except Str BackupManifest := do
  let tables ← createTables env manifest.tables tasks
  return diffParts { manifest with tables := tables } base

/-- The manifest lists a part that a freeze task has collected, and marks it as carried. -/
def MarkedCarried (saved base : BackupManifest) (task : FreezeTask) (later : List FreezeTask)
    (p : CollectedPart) : Prop :=
  p.tableKey = task.key ∧ (∀ l ∈ later, l.key ≠ task.key) ∧
    ∃ q ∈ saved.partsAt p.tableKey p.diskName,
      q.name = p.partInfo.name ∧ q.source = carriedPrefix ++ base.name

/-- Every collected part is left without a staged copy iff the manifest marks it as carried. -/
def StagesExactly (env : CollectEnv) (saved base : BackupManifest) (tasks : List FreezeTask) : Prop :=
  ∀ before task later, tasks = before ++ task :: later →
    ∀ found, env.collectParts task.table.shadow = .ok found → ∀ p ∈ found.parts,
      (env.leftUnstaged p = true ↔ MarkedCarried saved base task later p)

/-- The base has a part of this table, disk and name, the last one of this name with this checksum. -/
def BackupManifest.HoldsItem (base : BackupManifest) (i : PartItem) : Prop :=
  ∃ b, baseLookup base i.1.1 i.1.2.1 i.1.2.2 = some b ∧ b.checksumCrc64 = i.2

/-- The parts in the shadow directories of a frozen table, under the keys the walk takes them for.
Of two parts of one key, disk and name the first counts. -/
def FrozenTable.shadowItems (t : FrozenTable) (env : CollectEnv) : List PartItem :=
  ((env.pathsToWalk.filter fun d => !env.excluded d.1).flatMap fun d =>
    t.foundItems env d.1 (CollectEnv.location d.2)).foldl (addUnseen Prod.fst) []

/-- Every part in a shadow directory that the base holds is taken for a part of the frozen table,
whose key no later table has. -/
def HeldPartsListed (env : CollectEnv) (base : BackupManifest) (tasks : List FreezeTask) : Prop :=
  ∀ before task later, tasks = before ++ task :: later →
    ∀ i ∈ task.table.shadowItems env, base.HoldsItem i →
      i.1.1 = task.key ∧ ∀ l ∈ later, l.key ≠ task.key

/-! ## What is collected -/

section Collected

variable {env : CollectEnv} {base : BackupManifest}

/-- The decision while collecting is the lookup of the diff. -/
theorem leftUnstaged_iff (henv : env.baseParts = fun t d n => basePartsMap base (t, d, n))
    (p : CollectedPart) : env.leftUnstaged p = true ↔ base.HoldsItem p.item := by
  rw [CollectEnv.leftUnstaged, henv, BackupManifest.HoldsItem, CollectedPart.item]
  dsimp only
  rw [basePartsMap_eq]
  cases baseLookup base p.tableKey p.diskName p.partInfo.name with
  | none => simp
  | some b => by_cases hcrc : b.checksumCrc64 = p.partInfo.checksumCrc64 <;> simp [hcrc]

/-- What holds of every part that a loop has collected, if each of its turns keeps it. -/
theorem foldlM_parts {γ : Type} {step : CollectedShadow → γ → Except Str CollectedShadow}
    {P : CollectedPart → Prop}
    (hstep : ∀ st x st', step st x = .ok st' → (∀ p ∈ st.parts, P p) → ∀ p ∈ st'.parts, P p)
    {xs : List γ} {st st' : CollectedShadow} (h : xs.foldlM step st = .ok st')
    (hst : ∀ p ∈ st.parts, P p) : ∀ p ∈ st'.parts, P p := by
  induction xs generalizing st with
  | nil =>
    cases h
    exact hst
  | cons x xs ih =>
    rw [List.foldlM_cons] at h
    cases hx : step st x with
    | error e =>
      rw [hx] at h
      cases h
    | ok st₁ =>
      rw [hx] at h
      exact ih h (hstep st x st₁ hx hst)

theorem processShadowPart_source {isS3 : Bool} {pre disk dir db table : Str} {st st' : CollectedShadow}
    {part : OsName × List PartTree}
    (h : env.processShadowPart isS3 pre disk dir db table st part = .ok st')
    (hst : ∀ p ∈ st.parts, p.partInfo.source = "uploaded".toList) :
    ∀ p ∈ st'.parts, p.partInfo.source = "uploaded".toList := by
  rw [CollectEnv.processShadowPart] at h
  split at h
  · cases h
    exact hst
  · next name hname =>
    split at h
    · cases h
      exact hst
    · next checksums hchecksums =>
      dsimp only at h
      split_ifs at h with hdup
      · cases h
        exact hst
      · split at h
        · cases h
        · next n file =>
          cases hr : env.partRecord isS3 pre (dir.pathJoin name) db table disk name file.crc64 part.2 with
          | error e =>
            rw [hr] at h
            cases h
          | ok info =>
            rw [hr] at h
            cases h
            intro p hp
            rcases List.mem_append.mp hp with hp | hp
            · exact hst p hp
            · rw [List.mem_singleton.mp hp]
              exact (partRecord_eq_ok hr).2.2

theorem walkShadow_source {disk dir : Str} {entries : List PartTree} {st st' : CollectedShadow}
    (h : env.walkShadow disk dir entries st = .ok st')
    (hst : ∀ p ∈ st.parts, p.partInfo.source = "uploaded".toList) :
    ∀ p ∈ st'.parts, p.partInfo.source = "uploaded".toList := by
  have htables : ∀ {isS3 : Bool} {pre : Str} {tables : List ShadowTable}
      {st st' : CollectedShadow}, env.collectTables isS3 pre disk tables st = .ok st' →
      (∀ p ∈ st.parts, p.partInfo.source = "uploaded".toList) →
      ∀ p ∈ st'.parts, p.partInfo.source = "uploaded".toList := by
    intro isS3 pre tables st st' ht
    exact foldlM_parts (fun _ _ _ hx => foldlM_parts (fun _ _ _ hp => processShadowPart_source hp) hx) ht
  rw [CollectEnv.walkShadow] at h
  dsimp only [bind, Except.bind] at h
  split at h
  · cases h
  · split at h
    · cases h
    · next st₁ h₁ =>
      split at h
      · cases h
      · exact htables h (htables h₁ hst)

/-- A collected part is not marked as carried. -/
theorem source_of_mem_found {shadow : ShadowDirs} {found : CollectedShadow}
    (h : env.collectParts shadow = .ok found) :
    ∀ p ∈ found.parts, p.partInfo.source = "uploaded".toList := by
  refine foldlM_parts (fun st d st' hd hst => ?_) h fun p hp => absurd hp List.not_mem_nil
  split_ifs at hd with hex
  · cases hd
    exact hst
  · split at hd
    · cases hd
      exact hst
    · exact walkShadow_source hd hst

theorem shadowItems_eq {t : FrozenTable} {found : CollectedShadow}
    (h : env.collectParts t.shadow = .ok found) :
    found.parts.map CollectedPart.item = t.shadowItems env :=
  FrozenTable.collectParts_items h

/-- Of the collected parts, table, disk and name tell which it is. -/
theorem eq_of_item_fst_eq {t : FrozenTable} {found : CollectedShadow}
    (h : env.collectParts t.shadow = .ok found) {p q : CollectedPart} (hp : p ∈ found.parts)
    (hq : q ∈ found.parts) (hpq : p.item.1 = q.item.1) : p = q := by
  have hnodup : ((found.parts.map CollectedPart.item).map Prod.fst).Nodup := by
    rw [shadowItems_eq h]
    exact foldl_addUnseen_nodup List.nodup_nil
  rw [List.map_map] at hnodup
  exact List.inj_on_of_nodup_map hnodup hp hq hpq

end Collected

/-! ## What the manifest lists -/

section Saved

variable {env : CollectEnv} {manifest base saved : BackupManifest}

theorem mem_partsByDisk {collected : List CollectedPart} {d : Str} {a : PartInfo} :
    a ∈ ((partsByDisk collected).get? d).getD [] ↔ ∃ p ∈ collected, p.diskName = d ∧ p.partInfo = a := by
  rw [← SortedMap.mem_items, (partsByDisk_items_perm collected).mem_iff, List.mem_map]
  simp only [Prod.mk.injEq]

theorem partsAt_diffParts (m base : BackupManifest) (t d : Str) :
    (diffParts m base).partsAt t d = (m.partsAt t d).map (diffPart base t d) := by
  rw [BackupManifest.partsAt, BackupManifest.partsAt, diffParts, SortedMap.get?_mapValues]
  cases m.tables.get? t with
  | none => rfl
  | some table =>
    simp only [Option.map_some, Option.bind_some, SortedMap.get?_mapValues]
    cases table.parts.get? d with
    | none => rfl
    | some parts => rfl

theorem get?_createTables_of_ne {tasks : List FreezeTask} {tables tables' : SortedMap Str TableManifest}
    {k : Str} (h : createTables env tables tasks = .ok tables') (hk : ∀ task ∈ tasks, task.key ≠ k) :
    tables'.get? k = tables.get? k := by
  induction tasks generalizing tables with
  | nil =>
    cases h
    rfl
  | cons task tasks ih =>
    rw [createTables, List.foldlM_cons] at h
    cases hr : task.record env with
    | error e =>
      rw [hr] at h
      cases h
    | ok record =>
      rw [hr] at h
      rw [ih h fun l hl => hk l (List.mem_cons_of_mem _ hl), SortedMap.get?_insert,
        if_neg (Ne.symm (hk task List.mem_cons_self))]

/-- The last task of a key leaves its record in the tables. -/
theorem get?_createTables {before later : List FreezeTask} {task : FreezeTask}
    {tables tables' : SortedMap Str TableManifest}
    (h : createTables env tables (before ++ task :: later) = .ok tables')
    (hlater : ∀ l ∈ later, l.key ≠ task.key) :
    ∃ record, task.record env = .ok record ∧ tables'.get? task.key = some record := by
  induction before generalizing tables with
  | nil =>
    rw [List.nil_append, createTables, List.foldlM_cons] at h
    cases hr : task.record env with
    | error e =>
      rw [hr] at h
      cases h
    | ok record =>
      rw [hr] at h
      refine ⟨record, rfl, ?_⟩
      rw [get?_createTables_of_ne h hlater, SortedMap.get?_insert, if_pos rfl]
  | cons first before ih =>
    rw [List.cons_append, createTables, List.foldlM_cons] at h
    cases hr : first.record env with
    | error e =>
      rw [hr] at h
      cases h
    | ok record =>
      rw [hr] at h
      exact ih h

/-- Every task of a create that returns has collected. -/
theorem collectParts_of_createTables {before later : List FreezeTask} {task : FreezeTask}
    {tables tables' : SortedMap Str TableManifest}
    (h : createTables env tables (before ++ task :: later) = .ok tables') :
    ∃ found, env.collectParts task.table.shadow = .ok found := by
  induction before generalizing tables with
  | nil =>
    rw [List.nil_append, createTables, List.foldlM_cons] at h
    cases hf : env.collectParts task.table.shadow with
    | error e =>
      rw [FreezeTask.record, frozenTableManifest, hf] at h
      cases h
    | ok found => exact ⟨found, rfl⟩
  | cons first before ih =>
    rw [List.cons_append, createTables, List.foldlM_cons] at h
    cases hr : first.record env with
    | error e =>
      rw [hr] at h
      cases h
    | ok record =>
      rw [hr] at h
      exact ih h

theorem collectParts_of_createManifest {before later : List FreezeTask} {task : FreezeTask}
    (h : createManifest env manifest base (before ++ task :: later) = .ok saved) :
    ∃ found, env.collectParts task.table.shadow = .ok found := by
  rw [createManifest] at h
  cases ht : createTables env manifest.tables (before ++ task :: later) with
  | error e =>
    rw [ht] at h
    cases h
  | ok tables => exact collectParts_of_createTables ht

/-- **What the saved manifest lists of a table**: the parts collected under its key, each as the
diff leaves it. -/
theorem mem_partsAt_saved {before later : List FreezeTask} {task : FreezeTask} {found : CollectedShadow}
    (h : createManifest env manifest base (before ++ task :: later) = .ok saved)
    (hlater : ∀ l ∈ later, l.key ≠ task.key)
    (hfound : env.collectParts task.table.shadow = .ok found) {d : Str} {q : PartInfo} :
    q ∈ saved.partsAt task.key d ↔
      ∃ p ∈ found.parts, p.tableKey = task.key ∧ p.diskName = d ∧
        diffPart base task.key d p.partInfo = q := by
  rw [createManifest] at h
  cases ht : createTables env manifest.tables (before ++ task :: later) with
  | error e =>
    rw [ht] at h
    cases h
  | ok tables =>
    rw [ht] at h
    cases h
    obtain ⟨record, hrecord, hget⟩ := get?_createTables ht hlater
    rw [FreezeTask.record, frozenTableManifest, hfound] at hrecord
    cases hrecord
    rw [partsAt_diffParts, List.mem_map, BackupManifest.partsAt]
    dsimp only
    rw [hget, Option.bind_some]
    simp only [mem_partsByDisk, List.mem_filter, decide_eq_true_eq]
    constructor
    · rintro ⟨_, ⟨p, ⟨hp, hkey⟩, hd, rfl⟩, hq⟩
      exact ⟨p, hp, hkey, hd, hq⟩
    · rintro ⟨p, hp, hkey, hd, hq⟩
      exact ⟨p.partInfo, ⟨p, ⟨hp, hkey⟩, hd, rfl⟩, hq⟩

/-- The diff marks a collected part iff the base holds it. -/
theorem source_diffPart_iff {p : CollectedPart} (hsource : p.partInfo.source = "uploaded".toList) :
    (diffPart base p.tableKey p.diskName p.partInfo).source = carriedPrefix ++ base.name ↔
      base.HoldsItem p.item := by
  have hne : p.partInfo.source ≠ carriedPrefix ++ base.name := by
    have huploaded : "uploaded".toList = 'u' :: "ploaded".toList := by decide
    have hcarried : carriedPrefix = 'c' :: "arried:".toList := by decide
    rw [hsource, huploaded, hcarried, List.cons_append]
    intro h
    exact absurd (List.cons.inj h).1 (by decide)
  rw [diffPart, BackupManifest.HoldsItem, CollectedPart.item]
  dsimp only
  cases baseLookup base p.tableKey p.diskName p.partInfo.name with
  | none => simpa using hne
  | some b =>
    by_cases hcrc : p.partInfo.checksumCrc64 = b.checksumCrc64
    · simp [hcrc]
    · simp [hcrc, Ne.symm hcrc, hne]

/-- A part that is listed is marked iff the base holds it. -/
theorem markedCarried_iff {before later : List FreezeTask} {task : FreezeTask} {found : CollectedShadow}
    (h : createManifest env manifest base (before ++ task :: later) = .ok saved)
    (hfound : env.collectParts task.table.shadow = .ok found) {p : CollectedPart} (hp : p ∈ found.parts) :
    MarkedCarried saved base task later p ↔
      (p.tableKey = task.key ∧ ∀ l ∈ later, l.key ≠ task.key) ∧ base.HoldsItem p.item := by
  rw [MarkedCarried, and_assoc]
  refine and_congr_right fun hkey => and_congr_right fun hlater => ?_
  have hsource := source_of_mem_found hfound p hp
  rw [← source_diffPart_iff hsource]
  constructor
  · rintro ⟨q, hq, hname, hcarried⟩
    rw [hkey, mem_partsAt_saved h hlater hfound] at hq
    obtain ⟨p', hp', hkey', hd, rfl⟩ := hq
    obtain rfl : p' = p := by
      refine eq_of_item_fst_eq hfound hp' hp ?_
      rw [CollectedPart.item, CollectedPart.item, hkey', hkey, hd, ← hname]
      rcases diffPart_cases base task.key p.diskName p'.partInfo with hsame | ⟨b, hb⟩
      · rw [hsame _ rfl rfl]
      · rw [hb _ rfl rfl]
    rwa [hkey]
  · intro hcarried
    refine ⟨_, ?_, ?_, hcarried⟩
    · rw [hkey, mem_partsAt_saved h hlater hfound]
      exact ⟨p, hp, hkey, rfl, rfl⟩
    · rcases diffPart_cases base p.tableKey p.diskName p.partInfo with hsame | ⟨b, hb⟩
      · rw [hsame _ rfl rfl]
      · rw [hb _ rfl rfl]

end Saved

/-- **A part is left unstaged exactly when the manifest carries it, iff every part that the base
holds reaches the manifest.** -/
theorem stages_exactly_iff {env : CollectEnv} {manifest base saved : BackupManifest}
    {tasks : List FreezeTask} (henv : env.baseParts = fun t d n => basePartsMap base (t, d, n))
    (h : createManifest env manifest base tasks = .ok saved) :
    StagesExactly env saved base tasks ↔ HeldPartsListed env base tasks := by
  constructor
  · rintro hexact before task later rfl i hi hheld
    obtain ⟨found, hfound⟩ := collectParts_of_createManifest h
    rw [← shadowItems_eq hfound, List.mem_map] at hi
    obtain ⟨p, hp, rfl⟩ := hi
    have hmarked := (hexact before task later rfl found hfound p hp).mp ((leftUnstaged_iff henv p).mpr hheld)
    exact ((markedCarried_iff h hfound hp).mp hmarked).1
  · rintro hlisted before task later rfl found hfound p hp
    rw [leftUnstaged_iff henv, markedCarried_iff h hfound hp]
    refine ⟨fun hheld => ⟨?_, hheld⟩, fun hmarked => hmarked.2⟩
    refine hlisted before task later rfl p.item ?_ hheld
    rw [← shadowItems_eq hfound]
    exact List.mem_map_of_mem hp

/-! ## One table against a base with one part -/

/-- A base that holds the part of `onePartTable` under the given key. -/
def oneDiskBase (tableKey : Str) : BackupManifest := lonePartManifest tableKey "default" "base" archivedPart

/-- One disk, with a remote base. -/
def oneDiskBaseEnv (tableKey : Str) : CollectEnv :=
  { FrozenTable.oneDiskEnv with baseParts := fun t d n => basePartsMap (oneDiskBase tableKey) (t, d, n) }

/-- The freeze of a table of an Ordinary database. -/
def onePartTask (name : Str) : FreezeTask := ⟨FrozenTable.onePartTable name, [], []⟩

/-- A table whose part the base holds: nothing is staged, and the part is carried. -/
theorem stages_exactly_plain :
    ∃ saved, createManifest (oneDiskBaseEnv "db.t") default (oneDiskBase "db.t") [onePartTask "t"] =
        .ok saved ∧
      StagesExactly (oneDiskBaseEnv "db.t") saved (oneDiskBase "db.t") [onePartTask "t"] := by
  refine ⟨_, rfl, (stages_exactly_iff rfl rfl).mpr ?_⟩
  rintro before task later htasks i hi -
  have hone : before = [] ∧ task = onePartTask "t" ∧ later = [] := by
    cases before with
    | nil =>
      obtain ⟨rfl, rfl⟩ := List.cons.inj htasks
      exact ⟨rfl, rfl, rfl⟩
    | cons first before =>
      have hlength := congrArg List.length (List.cons.inj htasks).2
      simp at hlength
  obtain ⟨rfl, rfl, rfl⟩ := hone
  have hitems : (onePartTask "t").table.shadowItems (oneDiskBaseEnv "db.t") =
      [(("db.t".toList, "default".toList, "all_1_1_0".toList), 7)] := by
    decide
  rw [hitems, List.mem_singleton] at hi
  subst hi
  exact ⟨by decide, fun l hl => absurd hl List.not_mem_nil⟩

/-- **A part that is neither staged nor carried**: the shadow directory of `my-table` is called
`my%2Dtable`, and the base holds the part under that key. -/
theorem escaped_part_left_unstaged :
    ∃ saved, createManifest (oneDiskBaseEnv "db.my%2Dtable") default (oneDiskBase "db.my%2Dtable")
        [onePartTask "my-table"] = .ok saved ∧
      ¬StagesExactly (oneDiskBaseEnv "db.my%2Dtable") saved (oneDiskBase "db.my%2Dtable")
        [onePartTask "my-table"] := by
  refine ⟨_, rfl, fun hexact => ?_⟩
  have hmarked := (hexact [] (onePartTask "my-table") [] rfl _ rfl _ List.mem_cons_self).mp (by decide)
  exact absurd hmarked.1 (by decide)

end Chbackup
