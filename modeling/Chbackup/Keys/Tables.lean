import Chbackup.Backup.Shadow
import Chbackup.Restore.Remap
import Chbackup.Upload.Plan

/-!
# The identity of a table

`create` stores a table in the manifest under `{db}.{table}` (`src/backup/mod.rs`); upload, download
and restore take that key apart at its first dot (`src/upload/mod.rs`, `src/download/mod.rs`,
`src/restore/remap.rs`).  The key is put together without escaping, so what comes back is the table
that was frozen exactly when the name of its database has no dot.
-/

namespace Chbackup

namespace SystemTable

/-- The database and the name of a table. -/
def pair (row : SystemTable) : Str × Str := (row.database, row.name)

/-- The key of a table in the manifest. -/
def tableKey (row : SystemTable) : Str := fullTableName row.database row.name

end SystemTable

/-! ## The tables of a new manifest -/

/-- The tables in the order in which `create` stores them: those that need no freeze are stored when
they are seen, the others when their tasks are done. -/
def storedRows (schemaOnly : Bool) (rows : List SystemTable) : List SystemTable :=
  rows.filter (fun row => schemaOnly || !isDataEngine row.engine) ++
    rows.filter fun row => !schemaOnly && isDataEngine row.engine

/-- The tables of the manifest, given what is stored for each of them; a table that was gone when it
was to be frozen is left out. -/
def createdTables (schemaOnly : Bool) (entry : SystemTable → Option TableManifest)
    (rows : List SystemTable) : SortedMap Str TableManifest :=
  (storedRows schemaOnly rows).foldl (fun tables row =>
    match entry row with
    | some tm => tables.insert row.tableKey tm
    | none => tables) SortedMap.empty

theorem mem_storedRows {schemaOnly : Bool} {rows : List SystemTable} {row : SystemTable} :
    row ∈ storedRows schemaOnly rows ↔ row ∈ rows := by
  rw [storedRows, List.mem_append, List.mem_filter, List.mem_filter]
  cases schemaOnly with
  | true => simp
  | false => cases isDataEngine row.engine with
    | true => simp
    | false => simp

/-- What the loop leaves under a key whose tables all have one entry. -/
theorem get?_foldl_stored {entry : SystemTable → Option TableManifest} {rows : List SystemTable}
    {tables : SortedMap Str TableManifest} {key : Str} {e : Option TableManifest}
    (hsame : ∀ row ∈ rows, row.tableKey = key → entry row = e) :
    (rows.foldl (fun tables row =>
      match entry row with
      | some tm => tables.insert row.tableKey tm
      | none => tables) tables).get? key =
    if ∃ row ∈ rows, row.tableKey = key then e.or (tables.get? key) else tables.get? key := by
  induction rows generalizing tables with
  | nil => simp
  | cons row rows ih =>
    rw [List.foldl_cons, ih fun r hr => hsame r (List.mem_cons_of_mem _ hr)]
    by_cases hkey : row.tableKey = key
    · have hrow := hsame row List.mem_cons_self hkey
      have hget : (match entry row with
          | some tm => tables.insert row.tableKey tm
          | none => tables).get? key = e.or (tables.get? key) := by
        rw [hrow]
        cases e with
        | none => rfl
        | some tm => simp [hkey]
      have hex : ∃ r ∈ row :: rows, r.tableKey = key := ⟨row, List.mem_cons_self, hkey⟩
      simp only [hget, if_pos hex]
      cases e with
      | none => simp
      | some tm => simp
    · have hget : (match entry row with
          | some tm => tables.insert row.tableKey tm
          | none => tables).get? key = tables.get? key := by
        cases entry row with
        | none => rfl
        | some tm =>
          rw [SortedMap.get?_insert, if_neg (Ne.symm hkey)]
      rw [hget]
      simp [hkey]

/-- **A table keeps its entry** when no other table is stored under its key. -/
theorem get?_createdTables {schemaOnly : Bool} {entry : SystemTable → Option TableManifest}
    {rows : List SystemTable} {row : SystemTable} (hrow : row ∈ rows)
    (hown : ∀ r ∈ rows, r.tableKey = row.tableKey → r = row) :
    (createdTables schemaOnly entry rows).get? row.tableKey = entry row := by
  rw [createdTables, get?_foldl_stored (e := entry row), if_pos ⟨row, mem_storedRows.mpr hrow, rfl⟩]
  · exact Option.or_none
  · intro r hr hkey
    rw [hown r (mem_storedRows.mp hr) hkey]

/-! ## Taking the key apart -/

/-- A key gives back its table if and only if the database has no dot. -/
theorem splitTableKey_fullTableName {db table : Str} :
    splitTableKey (fullTableName db table) = (db, table) ↔ '.' ∉ db := by
  rw [splitTableKey, fullTableName]
  constructor
  · intro h
    cases hsplit : Str.splitOnce '.' (db ++ '.' :: table) with
    | none =>
      refine absurd ?_ (Str.splitOnce_eq_none_iff.mp hsplit)
      exact List.mem_append_right _ List.mem_cons_self
    | some p =>
      rw [hsplit, Option.getD_some] at h
      subst h
      exact (Str.splitOnce_eq_some_iff.mp hsplit).2
  · intro hdot
    rw [Str.splitOnce_eq_some_iff.mpr ⟨rfl, hdot⟩, Option.getD_some]

/-- The restore is asked to leave a table where it is. -/
def RemapConfig.Leaves (rc : RemapConfig) (pair : Str × Str) : Prop :=
  (∀ r ∈ rc.renameAs, (r.srcDb, r.srcTable) ≠ pair) ∧ rc.databaseMapping.get? pair.1 = none

theorem RemapConfig.Leaves.remapTableKey {rc : RemapConfig} {key : Str}
    (h : rc.Leaves (splitTableKey key)) : rc.remapTableKey key = splitTableKey key := by
  have hnone : (rc.renameAs.find? fun r =>
      (splitTableKey key).1 = r.srcDb && (splitTableKey key).2 = r.srcTable) = none := by
    refine List.find?_eq_none.mpr fun r hr hmatch => h.1 r hr ?_
    rw [Bool.and_eq_true, decide_eq_true_eq, decide_eq_true_eq] at hmatch
    exact Prod.ext hmatch.1.symm hmatch.2.symm
  simp only [RemapConfig.remapTableKey, hnone, h.2]

/-- **Tables keep their identity** from the freeze to the restore: different tables have different
keys and so keep their entries, and the key of a table is taken apart into its database and name by
the upload, the download and the restore. -/
structure KeepsIdentity (rows : List SystemTable) : Prop where
  distinct : ∀ r ∈ rows, ∀ r' ∈ rows, r.pair ≠ r'.pair → r.tableKey ≠ r'.tableKey
  stored : ∀ schemaOnly entry, ∀ r ∈ rows, (∀ r' ∈ rows, r'.pair = r.pair → r' = r) →
    (createdTables schemaOnly entry rows).get? r.tableKey = entry r
  split : ∀ r ∈ rows, splitTableKey r.tableKey = r.pair
  uploaded : ∀ r ∈ rows, ∀ env : UploadEnv, env.tableDataKey r.tableKey =
    env.backupName ++ "/data/" ++ encodePathComponent env.isAlphanumeric r.database ++ "/" ++
      encodePathComponent env.isAlphanumeric r.name ++ "/"
  restored : ∀ r ∈ rows, ∀ rc : RemapConfig, rc.Leaves r.pair → rc.remapTableKey r.tableKey = r.pair

/-- **Tables keep their identity if and only if no database has a dot in its name.** -/
theorem tables_keep_identity (rows : List SystemTable) :
    KeepsIdentity rows ↔ ∀ r ∈ rows, '.' ∉ r.database := by
  constructor
  · intro h r hr
    exact splitTableKey_fullTableName.mp (h.split r hr)
  · intro h
    have hsplit : ∀ r ∈ rows, splitTableKey r.tableKey = r.pair := fun r hr =>
      splitTableKey_fullTableName.mpr (h r hr)
    have hinj : ∀ r ∈ rows, ∀ r' ∈ rows, r.tableKey = r'.tableKey → r.pair = r'.pair := by
      intro r hr r' hr' hkey
      rw [← hsplit r hr, ← hsplit r' hr', hkey]
    refine ⟨fun r hr r' hr' hne hkey => hne (hinj r hr r' hr' hkey), ?_, hsplit, ?_, ?_⟩
    · intro schemaOnly entry r hr hown
      exact get?_createdTables hr fun r' hr' hkey => hown r' hr' (hinj r' hr' r hr hkey)
    · intro r hr env
      rw [UploadEnv.tableDataKey, hsplit r hr]
      rfl
    · intro r hr rc hleaves
      rw [← hsplit r hr] at hleaves ⊢
      exact hleaves.remapTableKey

/-- A table with data. -/
def mergeTreeRow (db name : Str) : SystemTable := ⟨⟨db, name, [], []⟩, "MergeTree", []⟩

/-- The tables `c` of the database `a.b` and `b.c` of the database `a` have one key. -/
theorem dotted_database_confused :
    ¬∀ rows : List SystemTable, KeepsIdentity rows := by
  intro h
  have hrows := (h [mergeTreeRow "a.b" "c", mergeTreeRow "a" "b.c"]).distinct
    (mergeTreeRow "a.b" "c") (by simp) (mergeTreeRow "a" "b.c") (by simp) (by decide)
  exact hrows (by decide)

end Chbackup
