import Chbackup.Backup.Complete

/-!
# Who owns a data directory

A materialized view with a target table lists the target's directory among its own, so a directory can be
claimed by several tables.  The owner that `build_uuid_map` (`src/backup/collect.rs`) records does not
depend on where the tables stand in the list, as long as one table with a data engine claims the
directory.
-/

namespace Chbackup

/-- A table with a data engine that claims a directory. -/
def ClaimsAsData (t : SystemTable) (dir : Str) : Prop :=
  isDataEngine t.engine = true ∧ dir ∈ uuidKeys t

instance (t : SystemTable) (dir : Str) : Decidable (ClaimsAsData t dir) :=
  inferInstanceAs (Decidable (_ ∧ _))

/-- The one table with a data engine that claims a directory. -/
structure OnlyDataClaim (tables : List SystemTable) (dir db table : Str) : Prop where
  claimed : ∃ t ∈ tables, ClaimsAsData t dir
  only : ∀ t ∈ tables, ClaimsAsData t dir → t.database = db ∧ t.name = table

variable {tables tables' : List SystemTable} {dir db table : Str}

/-- Listing the tables in another order leaves the claims. -/
theorem OnlyDataClaim.perm (h : OnlyDataClaim tables dir db table) (hperm : tables.Perm tables') :
    OnlyDataClaim tables' dir db table := by
  obtain ⟨t, ht, hclaim⟩ := h.claimed
  exact ⟨⟨t, hperm.mem_iff.mp ht, hclaim⟩, fun t' ht' => h.only t' (hperm.mem_iff.mpr ht')⟩

/-- The owner is a table with a data engine, if such a table claims the directory. -/
theorem OnlyDataClaim.owner (h : OnlyDataClaim tables dir db table) :
    ∃ t, uuidOwner tables dir = some t ∧ ClaimsAsData t dir ∧ t.database = db ∧ t.name = table := by
  obtain ⟨t, ht, hdata, hdir⟩ := h.claimed
  have hfound : ∃ o, (tables.filter fun t => dir ∈ uuidKeys t).find? (fun t => isDataEngine t.engine) =
      some o := by
    rw [← Option.isSome_iff_exists, List.find?_isSome]
    exact ⟨t, List.mem_filter.mpr ⟨ht, decide_eq_true hdir⟩, hdata⟩
  obtain ⟨o, ho⟩ := hfound
  have hmem := List.mem_filter.mp (List.mem_of_find?_eq_some ho)
  have hengine : isDataEngine o.engine = true := by simpa using List.find?_some ho
  have hclaim : ClaimsAsData o dir := ⟨hengine, of_decide_eq_true hmem.2⟩
  refine ⟨o, ?_, hclaim, h.only o hmem.1 hclaim⟩
  rw [uuidOwner, SortedMap.preferred]
  exact Option.or_eq_some_iff.mpr (.inl ho)

/-- **A directory claimed by one table with a data engine belongs to it, and a directory that no table
claims is absent**, in whatever order the tables are listed. -/
theorem uuid_map_owner (hperm : tables.Perm tables') (dir : Str) :
    (∀ db table, OnlyDataClaim tables dir db table →
      (buildUuidMap tables').get? dir = some ⟨db, table, true⟩) ∧
    ((∀ t ∈ tables, dir ∉ uuidKeys t) → (buildUuidMap tables').get? dir = none) := by
  constructor
  · intro db table h
    obtain ⟨o, howner, hclaim, rfl, rfl⟩ := (h.perm hperm).owner
    rw [buildUuidMap_get?, howner, Option.map_some, SystemTable.uuidEntry, hclaim.1]
  · intro h
    have hnone : (tables'.filter fun t => dir ∈ uuidKeys t) = [] := by
      refine List.filter_eq_nil_iff.mpr fun t ht hdir => ?_
      exact h t (hperm.mem_iff.mpr ht) (of_decide_eq_true hdir)
    rw [buildUuidMap_get?, uuidOwner, hnone]
    rfl

/-- A table and a view on it. -/
def viewAndTarget : List SystemTable :=
  let dir : Str := "/store/abc/abcdef"
  [{ database := "db", name := "mv", uuid := [], dataPaths := [dir], engine := "MaterializedView",
     createTableQuery := [] },
   { database := "db", name := "t", uuid := "abcdef", dataPaths := [dir], engine := "MergeTree",
     createTableQuery := [] }]

/-- The view comes first in one order and last in the other. -/
theorem uuid_map_of_view :
    (buildUuidMap viewAndTarget.reverse).get? "abcdef" = some ⟨"db", "t", true⟩ := by
  refine (uuid_map_owner viewAndTarget.reverse_perm.symm "abcdef").1 "db" "t" ⟨?_, ?_⟩
  · exact ⟨_, List.mem_cons_of_mem _ List.mem_cons_self, by decide +kernel⟩
  · intro t ht hclaim
    rcases List.mem_cons.mp ht with rfl | ht
    · exact absurd hclaim.1 (by decide)
    · obtain rfl := List.mem_singleton.mp ht
      exact ⟨rfl, rfl⟩

end Chbackup
