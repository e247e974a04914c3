import Chbackup.Backup.Shadow

/-!
# What a frozen table leaves on the disks

How ClickHouse lays out a frozen table below its shadow directories, the parts that a backup of it
has to list, and what `collect_parts` finds there.  Everything is counted by items: the disk, the
part and the checksum under which a part is recorded.
-/

namespace Chbackup

open CollectEnv

/-! ## The layout -/

/-- The escaped form of a name in a path: every byte outside `[A-Za-z0-9_]` becomes `%XX`. -/
def escapeForFileName (s : Str) : Str :=
  s.flatMap fun c =>
    if c.isAlphanum || c = '_' then [c]
    else (String.utf8EncodeChar c).flatMap fun byte => '%' :: Str.hex true 2 byte.toNat

/-- How the database of a table keeps its data. -/
inductive TableLayout where
  /-- By UUID, below a directory named by three characters. -/
  | atomic (prefixDir : Str)
  /-- By name. -/
  | ordinary

/-- The shadow directory of a table whose own directory has the given entries. -/
def TableLayout.shadow (layout : TableLayout) (row : SystemTable) (entries : List PartTree) :
    List PartTree :=
  match layout with
  | atomic prefixDir =>
    [.dir (.utf8 "store") [.dir (.utf8 prefixDir) [.dir (.utf8 row.uuid) entries]]]
  | ordinary =>
    [.dir (.utf8 "data") [.dir (.utf8 (escapeForFileName row.database))
      [.dir (.utf8 (escapeForFileName row.name)) entries]]]

/-- A part directory with its name and the checksum of its `checksums.txt`, if it holds one. -/
def partItem (part : OsName × List PartTree) : Option (Str × Nat) :=
  match part.1.toStr, entry? "checksums.txt" part.2 with
  | some name, some (.file _ file) => some (name, file.crc64)
  | _, _ => none

theorem fst_of_partItem {part : OsName × List PartTree} {x : Str × Nat}
    (h : partItem part = some x) : part.1 = .utf8 x.1 := by
  obtain ⟨n, entries⟩ := part
  rw [partItem] at h
  split at h
  · next name _ _ hname _ =>
    cases h
    cases n with
    | utf8 s =>
      cases hname
      rfl
    | raw bytes => cases hname
  · cases h

/-- A frozen table: the entries of its directory below each disk that holds a part of it. -/
structure FrozenTable where
  row : SystemTable
  freezeName : Str
  layout : TableLayout
  tableDir : Str → Option (List PartTree)
  /-- Disks have absolute paths. -/
  absolute : tableDir [] = none
  /-- Part names are texts. -/
  named : ∀ l entries, tableDir l = some entries → ∀ d ∈ subdirs entries, d.1.toStr.isSome = true
  /-- A directory lists each name once. -/
  nodup : ∀ l entries, tableDir l = some entries → ((subdirs entries).map Prod.fst).Nodup

namespace FrozenTable

variable (t : FrozenTable)

/-- The key of the table in the manifest. -/
def key : Str := fullTableName t.row.database t.row.name

/-- The shadow directories of the table's freeze name. -/
def shadow : ShadowDirs where
  freezeName := t.freezeName
  entries l := (t.tableDir l).map (t.layout.shadow t.row)

/-- The parts in a directory, by name and checksum. -/
def parts (l : Str) : List (Str × Nat) := (subdirs ((t.tableDir l).getD [])).filterMap partItem

theorem parts_nil : t.parts [] = [] := by
  rw [parts, t.absolute]
  rfl

/-- A directory holds each part once. -/
theorem nodup_parts (l : Str) : ((t.parts l).map Prod.fst).Nodup := by
  rw [parts]
  cases h : t.tableDir l with
  | none => exact List.nodup_nil
  | some entries =>
    have hnd := t.nodup l entries h
    rw [Option.getD_some]
    generalize subdirs entries = ds at hnd
    induction ds with
    | nil => exact List.nodup_nil
    | cons d ds ih =>
      rw [List.map_cons, List.nodup_cons] at hnd
      rw [List.filterMap_cons]
      cases hd : partItem d with
      | none => exact ih hnd.2
      | some x =>
        rw [List.map_cons, List.nodup_cons]
        refine ⟨fun hx => hnd.1 ?_, ih hnd.2⟩
        obtain ⟨y, hy, hyx⟩ := List.mem_map.mp hx
        obtain ⟨e, he, hey⟩ := List.mem_filterMap.mp hy
        rw [fst_of_partItem hd, ← hyx, ← fst_of_partItem hey]
        exact List.mem_map_of_mem he

end FrozenTable

/-! ## What is recorded of a part -/

section AddUnseen

variable {α β : Type} [DecidableEq β]

/-- Append an element unless one with the same key is there. -/
def addUnseen (key : α → β) (l : List α) (x : α) : List α :=
  if key x ∈ l.map key then l else l ++ [x]

variable {key : α → β} {l xs : List α}

theorem foldl_addUnseen_sublist (key : α → β) (l xs : List α) :
    (xs.foldl (addUnseen key) l).Sublist (l ++ xs) := by
  induction xs generalizing l with
  | nil => rw [List.foldl_nil, List.append_nil]
  | cons x xs ih =>
    rw [List.foldl_cons, addUnseen]
    split_ifs
    · exact (ih l).trans (List.Sublist.append_left (List.sublist_cons_self x xs) l)
    · refine (ih (l ++ [x])).trans ?_
      rw [List.append_assoc]
      exact List.Sublist.refl _

theorem foldl_addUnseen_nodup (hl : (l.map key).Nodup) :
    ((xs.foldl (addUnseen key) l).map key).Nodup := by
  induction xs generalizing l with
  | nil => exact hl
  | cons x xs ih =>
    rw [List.foldl_cons, addUnseen]
    split_ifs with hx
    · exact ih hl
    · refine ih ?_
      rw [List.map_append, List.map_singleton]
      exact hl.append (List.nodup_singleton _) fun b hb hx' =>
        hx (List.mem_singleton.mp hx' ▸ hb)

theorem foldl_addUnseen_eq_append (h : ((l ++ xs).map key).Nodup) :
    xs.foldl (addUnseen key) l = l ++ xs := by
  induction xs generalizing l with
  | nil => rw [List.foldl_nil, List.append_nil]
  | cons x xs ih =>
    have hx : key x ∉ l.map key := by
      rw [List.map_append, List.map_cons] at h
      exact fun hx => List.disjoint_of_nodup_append h hx List.mem_cons_self
    rw [List.foldl_cons, addUnseen, if_neg hx, ih, List.append_assoc]
    · rfl
    · rw [List.append_assoc]
      exact h

/-- **Nothing is dropped iff no key occurs twice.** -/
theorem length_foldl_addUnseen_eq_iff :
    (xs.foldl (addUnseen key) []).length = xs.length ↔ (xs.map key).Nodup := by
  constructor
  · intro h
    have heq := (foldl_addUnseen_sublist key [] xs).eq_of_length (by simpa using h)
    rw [List.nil_append] at heq
    have := @foldl_addUnseen_nodup α β _ key [] xs List.nodup_nil
    rwa [heq] at this
  · intro h
    rw [foldl_addUnseen_eq_append (by simpa using h), List.nil_append]

end AddUnseen

/-- The item of a collected part: table, disk, name and checksum. -/
abbrev PartItem : Type := (Str × Str × Str) × Nat

/-- The item of a collected part. -/
def CollectedPart.item (p : CollectedPart) : PartItem :=
  ((p.tableKey, p.diskName, p.partInfo.name), p.partInfo.checksumCrc64)

/-- The record of a part has the name and the checksum it was made for, and is not carried. -/
theorem partRecord_eq_ok {env : CollectEnv} {isS3 : Bool} {pre dir db table disk name : Str} {crc : Nat}
    {entries : List PartTree} {info : PartInfo}
    (h : env.partRecord isS3 pre dir db table disk name crc entries = .ok info) :
    info.name = name ∧ info.checksumCrc64 = crc ∧ info.source = "uploaded".toList := by
  rw [partRecord] at h
  dsimp only at h
  split at h
  · split_ifs at h
    · cases hc : collectS3PartMetadata dir pre entries with
      | error e =>
        rw [hc] at h
        cases h
      | ok r =>
        rw [hc] at h
        cases h
        exact ⟨rfl, rfl, rfl⟩
    · cases h
      exact ⟨rfl, rfl, rfl⟩
  · split_ifs at h
    · cases hc : collectS3PartMetadata dir pre entries with
      | error e =>
        rw [stageS3Part, hc] at h
        cases h
      | ok r =>
        rw [stageS3Part, hc] at h
        cases h
        exact ⟨rfl, rfl, rfl⟩
    · cases h
      exact ⟨rfl, rfl, rfl⟩

theorem any_eq_true_iff_mem_items {parts : List CollectedPart} {key disk name : Str} :
    (parts.any fun p => p.tableKey = key && p.diskName = disk && p.partInfo.name = name) = true ↔
      (key, disk, name) ∈ (parts.map CollectedPart.item).map Prod.fst := by
  rw [List.any_eq_true, List.map_map, List.mem_map]
  refine exists_congr fun p => and_congr_right fun _ => ?_
  simp [CollectedPart.item, and_assoc]

/-- The items that one part directory of a table gives. -/
def partItems (key disk : Str) (part : OsName × List PartTree) : List PartItem :=
  (partItem part).toList.map fun x => ((key, disk, x.1), x.2)

/-- What one call of `process_shadow_part` adds. -/
theorem processShadowPart_items {env : CollectEnv} {isS3 : Bool} {pre disk dir db table : Str}
    {st st' : CollectedShadow} {part : OsName × List PartTree}
    (h : env.processShadowPart isS3 pre disk dir db table st part = .ok st') :
    st'.parts.map CollectedPart.item =
      (partItems (fullTableName db table) disk part).foldl (addUnseen Prod.fst)
        (st.parts.map CollectedPart.item) := by
  obtain ⟨n, entries⟩ := part
  rw [processShadowPart] at h
  cases n with
  | raw bytes =>
    cases h
    rfl
  | utf8 name =>
    dsimp only [OsName.toStr] at h
    cases hc : entry? "checksums.txt" entries with
    | none =>
      rw [hc] at h
      cases h
      simp only [partItems, partItem, OsName.toStr, hc, Option.toList_none, List.map_nil,
        List.foldl_nil]
    | some checksums =>
      rw [hc] at h
      dsimp only at h
      by_cases hdup : (st.parts.any fun p =>
          p.tableKey = fullTableName db table && p.diskName = disk && p.partInfo.name = name) = true
      · rw [if_pos hdup] at h
        cases h
        have hmem := any_eq_true_iff_mem_items.mp hdup
        cases checksums with
        | dir m es =>
          simp only [partItems, partItem, OsName.toStr, hc, Option.toList_none, List.map_nil,
            List.foldl_nil]
        | file m file =>
          simp only [partItems, partItem, OsName.toStr, hc, Option.toList_some, List.map_cons,
            List.map_nil, List.foldl_cons, List.foldl_nil, addUnseen]
          rw [if_pos hmem]
      · rw [if_neg hdup] at h
        have hmem := any_eq_true_iff_mem_items.not.mp hdup
        cases checksums with
        | dir m es => cases h
        | file m file =>
          dsimp only at h
          cases hr : env.partRecord isS3 pre (dir.pathJoin name) db table disk name file.crc64 entries with
          | error e =>
            rw [hr] at h
            cases h
          | ok info =>
            rw [hr] at h
            cases h
            obtain ⟨hname, hcrc, -⟩ := partRecord_eq_ok hr
            simp only [partItems, partItem, OsName.toStr, hc, Option.toList_some, List.map_cons,
              List.map_nil, List.foldl_cons, List.foldl_nil, addUnseen]
            rw [if_neg hmem, List.map_append, List.map_singleton, CollectedPart.item,
              CollectedPart.tableKey, hname, hcrc]

/-- What a loop adds, if each of its turns adds the items of its element. -/
theorem foldlM_items {γ : Type} {step : CollectedShadow → γ → Except Str CollectedShadow}
    {items : γ → List PartItem}
    (hstep : ∀ st x st', step st x = .ok st' → st'.parts.map CollectedPart.item =
      (items x).foldl (addUnseen Prod.fst) (st.parts.map CollectedPart.item))
    {xs : List γ} {st st' : CollectedShadow} (h : xs.foldlM step st = .ok st') :
    st'.parts.map CollectedPart.item =
      (xs.flatMap items).foldl (addUnseen Prod.fst) (st.parts.map CollectedPart.item) := by
  induction xs generalizing st with
  | nil =>
    cases h
    rfl
  | cons x xs ih =>
    rw [List.foldlM_cons] at h
    cases hx : step st x with
    | error e =>
      rw [hx] at h
      cases h
    | ok st₁ =>
      rw [hx] at h
      rw [ih h, hstep st x st₁ hx, List.flatMap_cons, List.foldl_append]

/-- The items of some table directories. -/
def tableItems (disk : Str) (tables : List ShadowTable) : List PartItem :=
  tables.flatMap fun t => (subdirs t.entries).flatMap (partItems (fullTableName t.database t.table) disk)

theorem collectTables_items {env : CollectEnv} {isS3 : Bool} {pre disk : Str}
    {tables : List ShadowTable} {st st' : CollectedShadow}
    (h : env.collectTables isS3 pre disk tables st = .ok st') :
    st'.parts.map CollectedPart.item =
      (tableItems disk tables).foldl (addUnseen Prod.fst) (st.parts.map CollectedPart.item) :=
  foldlM_items (fun _ _ _ ht => foldlM_items (fun _ _ _ hp => processShadowPart_items hp) ht) h

/-! ## What the walk of a frozen table adds -/

namespace FrozenTable

variable (t : FrozenTable) (env : CollectEnv)

/-- The table that the walk takes the directory of the frozen table for. -/
def takenFor : Option (Str × Str) :=
  match t.layout with
  | .atomic _ => ((buildUuidMap env.tables).get? t.row.uuid).map fun e => (e.database, e.table)
  | .ordinary => some (escapeForFileName t.row.database, escapeForFileName t.row.name)

/-- The items that the walk finds in one directory under the name of a disk. -/
def foundItems (disk l : Str) : List PartItem :=
  (t.takenFor env).toList.flatMap fun k =>
    (t.parts l).map fun x => ((fullTableName k.1 k.2, disk, x.1), x.2)

theorem flatMap_partItems (key disk : Str) (ds : List (OsName × List PartTree)) :
    ds.flatMap (partItems key disk) =
      (ds.filterMap partItem).map fun x => ((key, disk, x.1), x.2) := by
  induction ds with
  | nil => rfl
  | cons d ds ih =>
    rw [List.flatMap_cons, ih, partItems, List.filterMap_cons]
    cases partItem d with
    | none => rfl
    | some x => rfl

variable {t env}

theorem tableItems_shadow {disk dir storeDir dataDir : Str} {entries store data : List PartTree}
    (hstore : layoutDir "store" dir (t.layout.shadow t.row entries) = .ok store)
    (hdata : layoutDir "data" dir (t.layout.shadow t.row entries) = .ok data) :
    tableItems disk (env.storeTables storeDir store) ++ tableItems disk (dataTables dataDir data) =
      (t.takenFor env).toList.flatMap fun k =>
        ((subdirs entries).filterMap partItem).map fun x => ((fullTableName k.1 k.2, disk, x.1), x.2) := by
  rw [takenFor]
  cases hl : t.layout with
  | atomic pre =>
    rw [hl] at hstore hdata
    cases hstore
    cases hdata
    cases hu : (buildUuidMap env.tables).get? t.row.uuid with
    | none => simp [tableItems, storeTables, dataTables, subdirs, OsName.toStr, hu]
    | some e =>
      simp [tableItems, storeTables, dataTables, subdirs, OsName.toStr, hu, flatMap_partItems]
  | ordinary =>
    rw [hl] at hstore hdata
    cases hstore
    cases hdata
    simp [tableItems, storeTables, dataTables, subdirs, OsName.toStr, flatMap_partItems]

theorem layoutDir_shadow (dir : Str) (entries : List PartTree) :
    ∃ store data, layoutDir "store" dir (t.layout.shadow t.row entries) = .ok store ∧
      layoutDir "data" dir (t.layout.shadow t.row entries) = .ok data := by
  cases t.layout with
  | atomic pre => exact ⟨_, [], rfl, rfl⟩
  | ordinary => exact ⟨[], _, rfl, rfl⟩

/-- What the walk of one directory adds. -/
theorem walkShadow_items {disk dir l : Str} {entries : List PartTree} {st st' : CollectedShadow}
    (hl : t.tableDir l = some entries)
    (h : env.walkShadow disk dir (t.layout.shadow t.row entries) st = .ok st') :
    st'.parts.map CollectedPart.item =
      (t.foundItems env disk l).foldl (addUnseen Prod.fst) (st.parts.map CollectedPart.item) := by
  obtain ⟨store, data, hstore, hdata⟩ := t.layoutDir_shadow dir entries
  rw [walkShadow, hstore] at h
  dsimp only [bind, Except.bind] at h
  split at h
  · cases h
  · next st₁ h₁ =>
    rw [hdata] at h
    have hparts : t.parts l = (subdirs entries).filterMap partItem := by
      rw [parts, hl, Option.getD_some]
    rw [collectTables_items h, collectTables_items h₁, ← List.foldl_append,
      tableItems_shadow hstore hdata, foundItems, hparts]

/-- What `collect_parts` finds. -/
theorem collectParts_items {found : CollectedShadow} (h : env.collectParts t.shadow = .ok found) :
    found.parts.map CollectedPart.item =
      ((env.pathsToWalk.filter fun d => !env.excluded d.1).flatMap fun d =>
        t.foundItems env d.1 (location d.2)).foldl (addUnseen Prod.fst) [] := by
  have hitems := @foldlM_items _ _ (fun d : Str × Str =>
    if env.excluded d.1 then [] else t.foundItems env d.1 (location d.2)) (fun st d st' hd => by
      by_cases hex : env.excluded d.1 = true
      · rw [if_pos hex] at hd ⊢
        cases hd
        rfl
      · rw [if_neg hex] at hd ⊢
        dsimp only [shadow] at hd
        cases hdir : t.tableDir (location d.2) with
        | none =>
          rw [hdir] at hd
          cases hd
          have hnil : t.foundItems env d.1 (location d.2) = [] := by
            rw [foundItems, parts, hdir]
            cases t.takenFor env with
            | none => rfl
            | some k => rfl
          rw [hnil, List.foldl_nil]
        | some entries =>
          rw [hdir] at hd
          exact walkShadow_items hdir hd) _ _ _ h
  rw [hitems, List.map_nil]
  congr 1
  generalize env.pathsToWalk = ws
  induction ws with
  | nil => rfl
  | cons w ws ih =>
    rw [List.flatMap_cons, ih]
    by_cases hex : env.excluded w.1 = true
    · rw [if_pos hex, List.filter_cons_of_neg (by simp [hex]), List.nil_append]
    · rw [if_neg hex, List.filter_cons_of_pos (by simpa using hex), List.flatMap_cons]

end FrozenTable

/-! ## The table's record -/

/-- The parts that a table's record lists: disk, name and checksum. -/
def TableManifest.recorded (tm : TableManifest) : List (Str × Str × Nat) :=
  tm.parts.items.map fun b => (b.1, b.2.name, b.2.checksumCrc64)

theorem partsByDisk_items_perm (collected : List CollectedPart) :
    (partsByDisk collected).items.Perm (collected.map fun p => (p.diskName, p.partInfo)) := by
  have hfold : partsByDisk collected =
      (collected.map fun p => (p.diskName, p.partInfo)).foldl (fun acc b => acc.push b.1 b.2) .empty := by
    rw [partsByDisk, List.foldl_map]
    rfl
  rw [hfold]
  exact SortedMap.items_foldl_push_perm _ _

namespace FrozenTable

variable {t : FrozenTable} {env : CollectEnv} {mutations : List MutationInfo} {deps : List Str}
  {tm : TableManifest}

/-- The items of all directories that are walked, if the directory of the table is recognised. -/
def walkedItems (t : FrozenTable) (env : CollectEnv) : List ((Str × Str) × Nat) :=
  (env.pathsToWalk.filter fun d => !env.excluded d.1).flatMap fun d =>
    (t.parts (location d.2)).map fun x => ((d.1, x.1), x.2)

/-- The directory of the table is recognised. -/
def Recognised (t : FrozenTable) (env : CollectEnv) : Prop :=
  ∃ k, t.takenFor env = some k ∧ fullTableName k.1 k.2 = t.key

theorem foldl_addUnseen_map {α α' β β' : Type} [DecidableEq β] [DecidableEq β'] (key : α → β)
    (key' : α' → β') (f : α → α') (hf : ∀ x y, key' (f x) = key' (f y) ↔ key x = key y)
    (l xs : List α) :
    (xs.map f).foldl (addUnseen key') (l.map f) = (xs.foldl (addUnseen key) l).map f := by
  induction xs generalizing l with
  | nil => rfl
  | cons x xs ih =>
    have hmem : key' (f x) ∈ (l.map f).map key' ↔ key x ∈ l.map key := by
      rw [List.map_map, List.mem_map, List.mem_map]
      exact exists_congr fun y => and_congr_right fun _ => (hf y x)
    have hstep : addUnseen key' (l.map f) (f x) = (addUnseen key l x).map f := by
      rw [addUnseen, addUnseen]
      by_cases h : key x ∈ l.map key
      · rw [if_pos h, if_pos (hmem.mpr h)]
      · rw [if_neg h, if_neg (hmem.not.mpr h), List.map_append, List.map_singleton]
    rw [List.map_cons, List.foldl_cons, hstep, ih, List.foldl_cons]

/-- The record of a table lists what was found under its key. -/
theorem recorded_perm_filter (h : frozenTableManifest env t.shadow t.row mutations deps = .ok tm) :
    ∃ found, env.collectParts t.shadow = .ok found ∧
      tm.recorded.Perm (((found.parts.map CollectedPart.item).filter fun i => i.1.1 = t.key).map fun i =>
        (i.1.2.1, i.1.2.2, i.2)) := by
  rw [frozenTableManifest] at h
  cases hf : env.collectParts t.shadow with
  | error e =>
    rw [hf] at h
    cases h
  | ok found =>
    rw [hf] at h
    cases h
    refine ⟨found, rfl, ?_⟩
    refine ((partsByDisk_items_perm _).map _).trans ?_
    rw [List.filter_map, List.map_map, List.map_map]
    exact List.Perm.refl _

/-- Every item found is one of those that the walked directories hold. -/
theorem mem_found_items {found : CollectedShadow} (h : env.collectParts t.shadow = .ok found)
    {i : PartItem} (hi : i ∈ found.parts.map CollectedPart.item) :
    ∃ k, t.takenFor env = some k ∧ i.1.1 = fullTableName k.1 k.2 := by
  rw [collectParts_items h] at hi
  have hmem := (foldl_addUnseen_sublist _ _ _).subset hi
  rw [List.nil_append] at hmem
  obtain ⟨d, -, hd⟩ := List.mem_flatMap.mp hmem
  obtain ⟨k, hk, hik⟩ := List.mem_flatMap.mp hd
  obtain ⟨x, -, rfl⟩ := List.mem_map.mp hik
  exact ⟨k, Option.mem_toList.mp hk, rfl⟩

/-- **What is recorded of a recognised table**: the first of every two parts of one name and disk. -/
theorem recorded_perm_of_recognised
    (h : frozenTableManifest env t.shadow t.row mutations deps = .ok tm) (hrec : t.Recognised env) :
    tm.recorded.Perm (((t.walkedItems env).foldl (addUnseen Prod.fst) []).map fun i =>
      (i.1.1, i.1.2, i.2)) := by
  obtain ⟨found, hfound, hperm⟩ := recorded_perm_filter h
  obtain ⟨k, hk, hkey⟩ := hrec
  have hall : (found.parts.map CollectedPart.item).filter (fun i => i.1.1 = t.key) =
      found.parts.map CollectedPart.item := by
    rw [List.filter_eq_self]
    intro i hi
    obtain ⟨k', hk', hi'⟩ := mem_found_items hfound hi
    rw [hk] at hk'
    cases hk'
    rw [hi', hkey]
    exact decide_eq_true rfl
  have hitems : found.parts.map CollectedPart.item =
      ((t.walkedItems env).foldl (addUnseen Prod.fst) []).map fun i =>
        ((t.key, i.1.1, i.1.2), i.2) := by
    rw [collectParts_items hfound, ← foldl_addUnseen_map Prod.fst Prod.fst (fun i : (Str × Str) × Nat =>
      (((t.key, i.1.1, i.1.2), i.2) : PartItem)), walkedItems]
    · rw [List.map_flatMap, List.map_nil]
      congr 2
      funext d
      rw [foundItems, hk, Option.toList_some, List.flatMap_singleton, List.map_map, hkey]
      rfl
    · rintro ⟨⟨d, n⟩, c⟩ ⟨⟨d', n'⟩, c'⟩
      simp
  rw [hall, hitems, List.map_map] at hperm
  exact hperm

/-- Nothing is recorded of a table that is not recognised. -/
theorem recorded_eq_nil_of_not_recognised
    (h : frozenTableManifest env t.shadow t.row mutations deps = .ok tm)
    (hrec : ¬ t.Recognised env) : tm.recorded = [] := by
  obtain ⟨found, hfound, hperm⟩ := recorded_perm_filter h
  have hnone : (found.parts.map CollectedPart.item).filter (fun i => i.1.1 = t.key) = [] := by
    rw [List.filter_eq_nil_iff]
    intro i hi heq
    obtain ⟨k, hk, hik⟩ := mem_found_items hfound hi
    exact hrec ⟨k, hk, hik ▸ of_decide_eq_true heq⟩
  rw [hnone] at hperm
  exact hperm.eq_nil

end FrozenTable

end Chbackup
