import Chbackup.Manifest
import Chbackup.Layout

/-!
# Which tables, in which order

The classification of the selected tables into the phases of a restore and the order inside each
phase (`src/restore/topo.rs`), and the order in which the parts of a table are attached
(`src/restore/sort.rs`).  Every sort is stable.
-/

namespace Chbackup

/-! ## Tables -/

/-- `data_table_priority`: storage tables of materialized views come last. -/
def dataTablePriority (tableKey : Str) : Nat :=
  let tableName := match Str.splitOnce '.' tableKey with
    | some (_, table) => table
    | none => tableKey
  if (".inner" : Str).isPrefixOf tableName then 1 else 0

/-- `is_streaming_engine`. -/
def isStreamingEngine (engine : Str) : Bool :=
  engine = "Kafka" || engine = "NATS" || engine = "RabbitMQ" || engine = "S3Queue"

/-- `is_refreshable_mv`. -/
def isRefreshableMv (toUppercase : Str → Str) (tm : TableManifest) : Bool :=
  tm.engine = "MaterializedView" &&
    (Str.contains " REFRESH " (toUppercase tm.ddl) || Str.contains "\nREFRESH " (toUppercase tm.ddl))

/-- Views of any kind. -/
def isViewEngine (engine : Str) : Bool :=
  engine = "View" || engine = "MaterializedView" || engine = "LiveView" || engine = "WindowView"

/-- `engine_restore_priority`. -/
def engineRestorePriority (engine : Str) : Nat :=
  if engine = "Dictionary" then 0
  else if isViewEngine engine then 1
  else if engine = "Distributed" ∨ engine = "Merge" then 2
  else 3

/-- `engine_drop_priority`. -/
def engineDropPriority (engine : Str) : Nat :=
  if engine = "Distributed" ∨ engine = "Merge" then 0
  else if isViewEngine engine then 1
  else if engine = "Dictionary" then 2
  else 3

/-- A stable sort by a numeric key. -/
def sortByKey {α : Type} (key : α → Nat) (xs : List α) : List α :=
  xs.mergeSort fun a b => key a ≤ key b

theorem mem_sortByKey {α : Type} {key : α → Nat} {xs : List α} {x : α} :
    x ∈ sortByKey key xs ↔ x ∈ xs := List.mem_mergeSort

/-- The priority of a table of a manifest; a table the manifest lacks comes last. -/
def tablePriority (priority : Str → Nat) (tables : SortedMap Str TableManifest) (key : Str) : Nat :=
  ((tables.get? key).map fun tm => priority tm.engine).getD 3

/-- `sort_tables_for_drop`. -/
def sortTablesForDrop (manifest : BackupManifest) (tableKeys : List Str) : List Str :=
  sortByKey (tablePriority engineDropPriority manifest.tables) tableKeys

/-- `RestorePhases`. -/
structure RestorePhases where
  dataTables : List Str
  postponedTables : List Str
  ddlOnlyTables : List Str
  deriving DecidableEq

/-- A table created after the data is attached: a streaming engine or a refreshable view. -/
def isPostponed (toUppercase : Str → Str) (tm : TableManifest) : Bool :=
  isStreamingEngine tm.engine || isRefreshableMv toUppercase tm

/-- `classify_restore_tables`. -/
def classifyRestoreTables (toUppercase : Str → Str) (manifest : BackupManifest)
    (tableKeys : List Str) : RestorePhases :=
  let those (p : TableManifest → Bool) :=
    tableKeys.filter fun key => ((manifest.tables.get? key).map p).getD false
  { dataTables := sortByKey dataTablePriority
      (those fun tm => !isPostponed toUppercase tm && !tm.metadataOnly)
    postponedTables := those (isPostponed toUppercase)
    ddlOnlyTables := those fun tm => !isPostponed toUppercase tm && tm.metadataOnly }

/-! ### The order of the objects without data -/

/-- The recorded dependencies of a table. -/
def dependenciesOf (tables : SortedMap Str TableManifest) (key : Str) : List Str :=
  ((tables.get? key).map TableManifest.dependencies).getD []

/-- The dependencies of a table among the keys: they must be created before it. -/
def dependenciesAmong (tables : SortedMap Str TableManifest) (keys : List Str) (key : Str) :
    List Str :=
  (dependenciesOf tables key).filter fun dep => dep ∈ keys

/-- One entry per edge from a table to a table that depends on it. -/
def dependents (tables : SortedMap Str TableManifest) (keys : List Str) (node : Str) : List Str :=
  keys.flatMap fun key =>
    ((dependenciesAmong tables keys key).filter fun dep => dep = node).map fun _ => key

/-- Kahn's loop.  Each key enters the queue once, so `fuel` is the number of keys. -/
def kahn (tables : SortedMap Str TableManifest) (keys : List Str) :
    Nat → SortedMap Str Nat → List Str → List Str
  | 0, _, _ => []
  | _ + 1, _, [] => []
  | fuel + 1, inDegree, node :: queue =>
    let (inDegree, pushed) := (dependents tables keys node).foldl
      (fun (st : SortedMap Str Nat × List Str) neighbor =>
        let degree := (st.1.get? neighbor).getD 0 - 1
        (st.1.insert neighbor degree, if degree = 0 then st.2 ++ [neighbor] else st.2))
      (inDegree, [])
    node :: kahn tables keys fuel inDegree (queue ++ pushed)

/-- `topological_sort`. -/
def topologicalSort (tables : SortedMap Str TableManifest) (keys : List Str) : List Str :=
  let byPriority := sortByKey (tablePriority engineRestorePriority tables)
  if keys.any fun key => !(dependenciesOf tables key).isEmpty then
    let inDegree := keys.foldl
      (fun m key => m.insert key (dependenciesAmong tables keys key).length) SortedMap.empty
    let ready := keys.filter fun key => (inDegree.get? key).getD 0 = 0
    let result := kahn tables keys keys.length inDegree (byPriority ready)
    if result.length < keys.length then
      result ++ byPriority (keys.filter fun key => key ∉ result)
    else result
  else byPriority keys

/-! ## Parts -/

/-- `PartSortKey`. -/
structure PartSortKey where
  partition : Str
  minBlock : Nat
  maxBlock : Nat
  deriving DecidableEq

/-- `PartSortKey::from_part_name`: the data version at the end is optional. -/
def PartSortKey.fromPartName (name : Str) : Option PartSortKey :=
  let five : Option PartSortKey := match Str.rsplitN 4 '_' name with
    | [version, level, max, min, partition] => do
      let _ ← Str.parseUnsigned 64 version
      let _ ← Str.parseUnsigned 64 level
      let maxBlock ← Str.parseUnsigned 64 max
      let minBlock ← Str.parseUnsigned 64 min
      return ⟨partition, minBlock, maxBlock⟩
    | _ => none
  five.or <| match Str.rsplitN 3 '_' name with
    | [_, max, min, partition] => do
      let minBlock ← Str.parseUnsigned 64 min
      let maxBlock ← Str.parseUnsigned 64 max
      return ⟨partition, minBlock, maxBlock⟩
    | _ => none

/-- Whether a part may stand before another: by partition and first block; a part with an
unreadable name stands after those that can be read. -/
def partLe (a b : PartInfo) : Bool :=
  match PartSortKey.fromPartName a.name, PartSortKey.fromPartName b.name with
  | some ka, some kb => ka.partition < kb.partition || (ka.partition = kb.partition && ka.minBlock ≤ kb.minBlock)
  | some _, none => true
  | none, some _ => false
  | none, none => a.name ≤ b.name

/-- `sort_parts_by_min_block`. -/
def sortPartsByMinBlock (parts : List PartInfo) : List PartInfo := parts.mergeSort partLe

theorem sortPartsByMinBlock_perm (parts : List PartInfo) :
    (sortPartsByMinBlock parts).Perm parts := List.mergeSort_perm _ _

theorem mem_sortPartsByMinBlock {parts : List PartInfo} {p : PartInfo} :
    p ∈ sortPartsByMinBlock parts ↔ p ∈ parts := List.mem_mergeSort

/-- `needs_sequential_attach`. -/
def needsSequentialAttach (engine : Str) : Bool :=
  Str.contains "Replacing" engine || Str.contains "Collapsing" engine ||
    Str.contains "Versioned" engine

/-- `part_matches_partitions`: a part whose name cannot be read is kept. -/
def partMatchesPartitions (partName : Str) (partitionFilter : List Str) : Bool :=
  if partitionFilter = [] then true
  else match PartSortKey.fromPartName partName with
    | some key => key.partition ∈ partitionFilter
    | none => true

example : PartSortKey.fromPartName "202401_5_7_1" = some ⟨"202401", 5, 7⟩ := by decide +kernel

example : PartSortKey.fromPartName "a_b_5_7_1_9" = some ⟨"a_b", 5, 7⟩ := by decide +kernel

end Chbackup
