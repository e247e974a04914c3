import Chbackup.Lib.Ends
import Chbackup.ObjectDisk
import Chbackup.Restore.Reach

/-!
# Selecting partitions

The `--partitions` flag of `create` (`src/backup/mod.rs`, `src/backup/freeze.rs`) and of `restore`
(`src/restore/mod.rs`).  `create` leaves the selection to the server, which freezes by partition id, and
takes a blank list and the single entry `all` to mean the whole table.  `restore` reads the partition
id off the name of a part and looks it up among the entries, whatever they are.
-/

namespace Chbackup

/-- A part of a table, as the server names it. -/
structure DataPart where
  partitionId : Str
  minBlock : Nat
  maxBlock : Nat
  level : Nat
  /-- The version of the data, after a mutation. -/
  dataVersion : Option Nat
  partitionId_ne_nil : partitionId ≠ []
  minBlock_lt : minBlock < 2 ^ 64
  maxBlock_lt : maxBlock < 2 ^ 64
  level_lt : level < 2 ^ 64
  dataVersion_lt : ∀ v ∈ dataVersion, v < 2 ^ 64

/-- The name of a part. -/
def DataPart.name (p : DataPart) : Str :=
  let blocks := p.partitionId ++ '_' :: decimal p.minBlock ++ '_' :: decimal p.maxBlock ++
    '_' :: decimal p.level
  match p.dataVersion with
  | some v => blocks ++ '_' :: decimal v
  | none => blocks

/-! ## `create` -/

/-- `PartitionSpec`. -/
inductive PartitionSpec where
  | unspecified
  | wholeTable
  | ids (requested : List Str)
  deriving DecidableEq

/-- `parse_partition_list`. -/
def parsePartitionList (partitions : Option Str) : PartitionSpec :=
  let parts := match partitions with
    | some s => if s = [] then [] else commaPieces s
    | none => []
  if parts = [] then .unspecified
  else if parts = [("all" : Str)] then .wholeTable
  else .ids parts

/-- The effective partition list of a table, with `freeze_by_part` off; an empty list stands for the
whole table. -/
def PartitionSpec.effective : PartitionSpec → List Str
  | .unspecified => []
  | .wholeTable => []
  | .ids requested => requested

/-- `partitions_with_shadow_evidence`. -/
def partitionsWithShadowEvidence (shadow : List DataPart) (requested : List Str) : List Str :=
  requested.filter fun id => shadow.any fun p => (id ++ ['_']).isPrefixOf p.name

/-- The parts of a table that `create` backs up.  `FREEZE PARTITION ID` stages the parts of the
partition; a table with nothing staged is skipped. -/
def backedUpParts (partitions : Option Str) (parts : List DataPart) : List DataPart :=
  let ids := (parsePartitionList partitions).effective
  if ids = [] then parts
  else
    let shadow := parts.filter fun p => p.partitionId ∈ ids
    if partitionsWithShadowEvidence shadow ids = [] then [] else shadow

/-- **`create` and `restore` select the same parts** of a table, of which the backup has all. -/
def SelectsSame (env : RestoreEnv) (parts : List DataPart) : Prop :=
  ∀ tm : TableManifest, tm.allParts.map PartInfo.name = parts.map DataPart.name →
    ∀ p ∈ parts, p ∈ backedUpParts env.args.partitions parts ↔
      p.name ∈ (env.selectedParts tm).map PartInfo.name

/-! ## Reading the name of a part -/

/-- The name of the part is read as that of a part of a shorter partition id, with the end of the id
for its first block. -/
def DataPart.Misread (p : DataPart) (partition : Str) : Prop :=
  p.dataVersion = none ∧ ∃ number, p.partitionId = partition ++ '_' :: number ∧ '_' ∉ number ∧
    (Str.parseUnsigned 64 number).isSome

theorem DataPart.Misread.unique {p : DataPart} {a b : Str} (ha : p.Misread a) (hb : p.Misread b) :
    a = b := by
  obtain ⟨-, n, hn, hnn, -⟩ := ha
  obtain ⟨-, k, hk, hkk, -⟩ := hb
  exact (Str.append_cons_inj_right hnn hkk (hn.symm.trans hk)).1

theorem underscore_notMem_decimal (n : Nat) : '_' ∉ decimal n := Nat.underscore_not_in_toDigits

theorem parseUnsigned_decimal {n : Nat} (h : n < 2 ^ 64) : Str.parseUnsigned 64 (decimal n) = some n :=
  Str.parseUnsigned_toDigits h

theorem rsplitN_zero (c : Char) (s : Str) : Str.rsplitN 0 c s = [s] := by
  simp [Str.rsplitN, Str.splitN]

/-- The blocks and the level are cut off the name of a part without a version. -/
theorem rsplitN_blocks {n : Nat} {pid : Str} {min max level : Nat} :
    Str.rsplitN (n + 3) '_' (pid ++ '_' :: decimal min ++ '_' :: decimal max ++ '_' :: decimal level) =
      decimal level :: decimal max :: decimal min :: Str.rsplitN n '_' pid := by
  rw [Str.rsplitN_append (underscore_notMem_decimal level),
    Str.rsplitN_append (underscore_notMem_decimal max), Str.rsplitN_append (underscore_notMem_decimal min)]

namespace DataPart

variable {p : DataPart}

/-- The name of a part with a version is read as it was written. -/
theorem fromPartName_of_version {v : Nat} (hv : p.dataVersion = some v) :
    PartSortKey.fromPartName p.name = some ⟨p.partitionId, p.minBlock, p.maxBlock⟩ := by
  have hpieces : Str.rsplitN 4 '_' p.name =
      [decimal v, decimal p.level, decimal p.maxBlock, decimal p.minBlock, p.partitionId] := by
    rw [name, hv]
    dsimp only
    rw [Str.rsplitN_append (underscore_notMem_decimal v), rsplitN_blocks, rsplitN_zero]
  have hvlt : v < 2 ^ 64 := p.dataVersion_lt v hv
  simp only [PartSortKey.fromPartName, hpieces, parseUnsigned_decimal hvlt,
    parseUnsigned_decimal p.level_lt, parseUnsigned_decimal p.maxBlock_lt,
    parseUnsigned_decimal p.minBlock_lt]
  rfl

theorem rsplitN_name (hv : p.dataVersion = none) (n : Nat) :
    Str.rsplitN (n + 3) '_' p.name =
      decimal p.level :: decimal p.maxBlock :: decimal p.minBlock :: Str.rsplitN n '_' p.partitionId := by
  rw [name, hv]
  exact rsplitN_blocks

/-- **What the name of a part is read as.** -/
theorem fromPartName_name (p : DataPart) :
    (∃ partition min max, p.Misread partition ∧
      PartSortKey.fromPartName p.name = some ⟨partition, min, max⟩) ∨
    ((∀ partition, ¬p.Misread partition) ∧
      PartSortKey.fromPartName p.name = some ⟨p.partitionId, p.minBlock, p.maxBlock⟩) := by
  cases hv : p.dataVersion with
  | some v =>
    refine Or.inr ⟨fun partition h => ?_, fromPartName_of_version hv⟩
    rw [h.1] at hv
    cases hv
  | none =>
    have hfour : Str.rsplitN 3 '_' p.name =
        [decimal p.level, decimal p.maxBlock, decimal p.minBlock, p.partitionId] := by
      rw [rsplitN_name hv 0, rsplitN_zero]
    by_cases hunder : '_' ∈ p.partitionId
    · obtain ⟨a, b, hid, hb⟩ := Str.exists_last hunder
      have hpieces : Str.rsplitN 4 '_' p.name =
          [decimal p.level, decimal p.maxBlock, decimal p.minBlock, b, a] := by
        rw [rsplitN_name hv 1, hid, Str.rsplitN_append hb, rsplitN_zero]
      cases hnumber : Str.parseUnsigned 64 b with
      | some number =>
        refine Or.inl ⟨a, number, p.minBlock, ⟨hv, b, hid, hb, by rw [hnumber]; rfl⟩, ?_⟩
        simp only [PartSortKey.fromPartName, hpieces, parseUnsigned_decimal p.level_lt,
          parseUnsigned_decimal p.maxBlock_lt, parseUnsigned_decimal p.minBlock_lt, hnumber]
        rfl
      | none =>
        refine Or.inr ⟨?_, ?_⟩
        · rintro partition ⟨-, number, hid', hnumber', hsome⟩
          rw [(Str.append_cons_inj_right hnumber' hb (hid'.symm.trans hid)).2, hnumber] at hsome
          cases hsome
        · simp only [PartSortKey.fromPartName, hpieces, hfour, parseUnsigned_decimal p.level_lt,
            parseUnsigned_decimal p.maxBlock_lt, parseUnsigned_decimal p.minBlock_lt, hnumber]
          rfl
    · refine Or.inr ⟨?_, ?_⟩
      · rintro partition ⟨-, number, hid, -⟩
        exact hunder (by rw [hid]; simp)
      · have hpieces : Str.rsplitN 4 '_' p.name =
            [decimal p.level, decimal p.maxBlock, decimal p.minBlock, p.partitionId] := by
          rw [rsplitN_name hv 1, Str.rsplitN_of_notMem hunder]
        simp only [PartSortKey.fromPartName, hpieces, hfour, parseUnsigned_decimal p.maxBlock_lt,
          parseUnsigned_decimal p.minBlock_lt]
        rfl

/-- The partition id that the name of a part is read as. -/
def readPartition (p : DataPart) : Str :=
  ((PartSortKey.fromPartName p.name).map PartSortKey.partition).getD p.partitionId

theorem readPartition_cases (p : DataPart) :
    p.Misread p.readPartition ∨ ((∀ partition, ¬p.Misread partition) ∧ p.readPartition = p.partitionId) := by
  rw [readPartition]
  rcases p.fromPartName_name with ⟨partition, min, max, hmis, hname⟩ | ⟨hnot, hname⟩
  · rw [hname]
    exact Or.inl hmis
  · rw [hname]
    exact Or.inr ⟨hnot, rfl⟩

/-- **The restore keeps a part iff the id that it reads is listed.** -/
theorem partMatchesPartitions_name {filter : List Str} (hfilter : filter ≠ []) :
    partMatchesPartitions p.name filter = true ↔ p.readPartition ∈ filter := by
  rw [partMatchesPartitions, if_neg hfilter, readPartition]
  rcases p.fromPartName_name with ⟨partition, min, max, -, hname⟩ | ⟨-, hname⟩
  · rw [hname]
    simp
  · rw [hname]
    simp

end DataPart

/-! ## What the two commands select -/

section Select

variable {env : RestoreEnv} {s : Str} {parts : List DataPart} {p : DataPart}

/-- The entries of a list as the restore looks them up, blank ones included. -/
def listedEntries (s : Str) : List Str := (s.splitOn ',').map Str.trim

theorem listedEntries_ne_nil (s : Str) : listedEntries s ≠ [] := by
  rw [listedEntries, ne_eq, List.map_eq_nil_iff]
  exact List.splitOn_ne_nil ',' s

theorem mem_commaPieces {entry : Str} : entry ∈ commaPieces s ↔ entry ∈ listedEntries s ∧ entry ≠ [] := by
  rw [commaPieces, listedEntries, List.mem_filter, decide_eq_true_eq]

theorem backedUpParts_of_effective_nil {partitions : Option Str}
    (h : (parsePartitionList partitions).effective = []) : backedUpParts partitions parts = parts := by
  rw [backedUpParts]
  exact if_pos h

/-- A blank list and the single entry `all` stand for the whole table. -/
theorem effective_parsePartitionList (hs : s ≠ []) :
    (parsePartitionList (some s)).effective =
      if commaPieces s = [] ∨ commaPieces s = [("all" : Str)] then [] else commaPieces s := by
  simp only [parsePartitionList, if_neg hs]
  split_ifs with h₁ h₂ h₃ h₄ h₅ <;> simp_all [PartitionSpec.effective]

/-- **`create` backs up the parts of the listed partitions**: if there is one, its directory is found. -/
theorem mem_backedUpParts {partitions : Option Str}
    (h : (parsePartitionList partitions).effective ≠ []) :
    p ∈ backedUpParts partitions parts ↔
      p ∈ parts ∧ p.partitionId ∈ (parsePartitionList partitions).effective := by
  rw [backedUpParts, if_neg h]
  dsimp only
  split_ifs with hnone
  · constructor
    · intro hp
      cases hp
    · rintro ⟨hp, hid⟩
      have hevidence : p.partitionId ∈ partitionsWithShadowEvidence
          (parts.filter fun p => p.partitionId ∈ (parsePartitionList partitions).effective)
          (parsePartitionList partitions).effective := by
        rw [partitionsWithShadowEvidence, List.mem_filter, List.any_eq_true]
        refine ⟨hid, p, List.mem_filter.mpr ⟨hp, decide_eq_true hid⟩, ?_⟩
        rw [List.isPrefixOf_iff_prefix, DataPart.name]
        cases p.dataVersion with
        | none => exact ⟨_, by simp only [List.append_assoc, List.cons_append, List.nil_append]; rfl⟩
        | some v => exact ⟨_, by simp only [List.append_assoc, List.cons_append, List.nil_append]; rfl⟩
      rw [hnone] at hevidence
      cases hevidence
  · rw [List.mem_filter, decide_eq_true_eq]

/-- The parts that the restore selects, by their names. -/
theorem name_mem_selectedParts {tm : TableManifest}
    (htm : tm.allParts.map PartInfo.name = parts.map DataPart.name) (hp : p ∈ parts) :
    p.name ∈ (env.selectedParts tm).map PartInfo.name ↔
      partMatchesPartitions p.name env.partitionFilter = true := by
  rw [RestoreEnv.selectedParts, List.mem_map]
  constructor
  · rintro ⟨part, hpart, hname⟩
    rw [← hname]
    exact (List.mem_filter.mp hpart).2
  · intro hmatch
    have hmem : p.name ∈ tm.allParts.map PartInfo.name := by
      rw [htm]
      exact List.mem_map_of_mem hp
    obtain ⟨part, hpart, hname⟩ := List.mem_map.mp hmem
    exact ⟨part, List.mem_filter.mpr ⟨hpart, by rw [hname]; exact hmatch⟩, hname⟩

/-- A backup of the whole table. -/
def wholeTable (parts : List DataPart) : TableManifest :=
  { (default : TableManifest) with
    parts := (SortedMap.empty : SortedMap Str (List PartInfo)).insert "default"
      (parts.map fun p => PartInfo.new p.name 0 0) }

theorem allParts_wholeTable (parts : List DataPart) :
    (wholeTable parts).allParts.map PartInfo.name = parts.map DataPart.name := by
  have hall : (wholeTable parts).allParts = (parts.map fun p => PartInfo.new p.name 0 0) ++ [] := rfl
  rw [hall, List.append_nil, List.map_map]
  rfl

theorem selectsSame_iff : SelectsSame env parts ↔ ∀ p ∈ parts,
    p ∈ backedUpParts env.args.partitions parts ↔
      partMatchesPartitions p.name env.partitionFilter = true := by
  constructor
  · intro h p hp
    rw [h _ (allParts_wholeTable parts) p hp, name_mem_selectedParts (allParts_wholeTable parts) hp]
  · intro h tm htm p hp
    rw [h p hp, name_mem_selectedParts htm hp]

end Select

/-- When the flag means the same to both commands: it is absent or empty; or it stands for the whole
table to `create`, and the id read off the name of every part is listed; or it lists ids, and of a part
whose name is misread both the id and what it is read as are listed, or neither. -/
def PartitionsUnambiguous (partitions : Option Str) (parts : List DataPart) : Prop :=
  ∀ s, partitions = some s → s ≠ [] →
    if commaPieces s = [] ∨ commaPieces s = [("all" : Str)] then
      ∀ p ∈ parts, p.readPartition ∈ listedEntries s
    else ∀ p ∈ parts, ∀ partition, p.Misread partition →
      (p.partitionId ∈ listedEntries s ↔ partition ∈ listedEntries s)

/-- **The selection of partitions means the same at `create` and at `restore`** if and only if it is
unambiguous. -/
theorem partitions_select_same (env : RestoreEnv) (parts : List DataPart) :
    SelectsSame env parts ↔ PartitionsUnambiguous env.args.partitions parts := by
  rw [selectsSame_iff, RestoreEnv.partitionFilter]
  cases hs : env.args.partitions with
  | none =>
    have hall : ∀ p ∈ parts, p ∈ backedUpParts none parts ↔ partMatchesPartitions p.name [] = true := by
      intro p hp
      rw [backedUpParts_of_effective_nil rfl]
      simp [partMatchesPartitions, hp]
    exact ⟨(fun _ s h => by cases h), fun _ => hall⟩
  | some s =>
    by_cases hnil : s = []
    · subst hnil
      have hall : ∀ p ∈ parts, p ∈ backedUpParts (some []) parts ↔
          partMatchesPartitions p.name [] = true := by
        intro p hp
        rw [backedUpParts_of_effective_nil rfl]
        simp [partMatchesPartitions, hp]
      refine ⟨fun _ s h hne => ?_, fun _ => hall⟩
      cases h
      exact absurd rfl hne
    · have hread : ∀ p : DataPart, partMatchesPartitions p.name (listedEntries s) = true ↔
          p.readPartition ∈ listedEntries s := fun p =>
        DataPart.partMatchesPartitions_name (listedEntries_ne_nil s)
      have hunambiguous : PartitionsUnambiguous (some s) parts ↔
          if commaPieces s = [] ∨ commaPieces s = [("all" : Str)] then
            ∀ p ∈ parts, p.readPartition ∈ listedEntries s
          else ∀ p ∈ parts, ∀ partition, p.Misread partition →
            (p.partitionId ∈ listedEntries s ↔ partition ∈ listedEntries s) :=
        ⟨fun h => h s rfl hnil, fun h s' heq _ => by cases heq; exact h⟩
      have heffective := effective_parsePartitionList hnil
      rw [hunambiguous]
      dsimp only
      rw [if_neg hnil]
      split_ifs with hwhole
      · rw [if_pos hwhole] at heffective
        rw [backedUpParts_of_effective_nil heffective]
        exact forall₂_congr fun p hp => (iff_true_left hp).trans (hread p)
      · rw [if_neg hwhole] at heffective
        have hids : (parsePartitionList (some s)).effective ≠ [] := by
          rw [heffective]
          exact fun h => hwhole (Or.inl h)
        refine forall₂_congr fun p hp => ?_
        rw [mem_backedUpParts hids, heffective, mem_commaPieces, iff_true_intro hp, true_and,
          and_iff_left p.partitionId_ne_nil]
        refine (iff_congr Iff.rfl (hread p)).trans ?_
        rcases p.readPartition_cases with hmis | ⟨hnot, hsame⟩
        · constructor
          · intro h partition hmis'
            rwa [hmis'.unique hmis]
          · intro h
            exact h _ hmis
        · rw [hsame]
          exact ⟨fun _ partition h => absurd h (hnot partition), fun _ => Iff.rfl⟩

/-- A part of a monthly partition. -/
def monthlyPart : DataPart where
  partitionId := "202401"
  minBlock := 1
  maxBlock := 1
  level := 0
  dataVersion := none
  partitionId_ne_nil := List.cons_ne_nil _ _
  minBlock_lt := Nat.one_lt_two_pow (Nat.succ_ne_zero 63)
  maxBlock_lt := Nat.one_lt_two_pow (Nat.succ_ne_zero 63)
  level_lt := Nat.two_pow_pos 64
  dataVersion_lt := fun _ h => absurd h (Option.not_mem_none _)

/-- `all` selects the whole table at `create` and no monthly partition at `restore`. -/
theorem all_selects_differently : ¬∀ (env : RestoreEnv) (parts : List DataPart), SelectsSame env parts := by
  intro h
  have hsame := selectsSame_iff.mp (h (plainEnv default { (default : RestoreArgs) with
    partitions := some "all" } default) [monthlyPart]) monthlyPart (List.mem_singleton_self _)
  have hcreated : monthlyPart ∈ backedUpParts (some "all") [monthlyPart] := by
    rw [backedUpParts_of_effective_nil (by decide +kernel)]
    exact List.mem_singleton_self _
  exact absurd (hsame.mp hcreated) (by decide +kernel)

end Chbackup
