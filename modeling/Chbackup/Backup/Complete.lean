import Chbackup.Backup.Frozen

/-!
# Nothing frozen is left out

When the record of a frozen table lists every part on a disk that is not excluded exactly once, and
nothing else.  A directory is walked under the name of one of the disks that share its path; what
matters is whether that one is excluded, and whether the directory of the table is recognised.
-/

namespace Chbackup

open CollectEnv

/-! ## Which disk a directory is walked as -/

theorem trimEnd_trimEnd (c : Char) (s : Str) : Str.trimEnd c (Str.trimEnd c s) = Str.trimEnd c s :=
  List.rdropWhile_idempotent (· = c) s

/-- A path without slashes at its end names itself. -/
theorem location_of_trimEnd {q : Str} (h : q.trimEnd '/' = q) : location q = q := by
  rw [location, h]
  split_ifs with hq
  · exact absurd hq.1 hq.2
  · rfl

theorem location_of_trimEnd_ne_nil {p : Str} (h : p.trimEnd '/' ≠ []) :
    location p = p.trimEnd '/' := by
  rw [location, if_neg fun h' => h h'.1]

namespace CollectEnv

variable (env : CollectEnv)

/-- The disks with a given path, slashes at its end not counted, in the order of their names. -/
def disksAt (q : Str) : List (Str × Str) := env.diskPaths.entries.filter fun d => d.2.trimEnd '/' = q

/-- The first of the disks with a given path that is not a cache, or the first of them. -/
def preferredAt (q : Str) : Option Str :=
  (SortedMap.preferred (fun d => !env.cacheDiskNames.contains d.1) (env.disksAt q)).map Prod.fst

/-- No disk has the data path. -/
def DataPathMissing : Prop := env.disksAt (env.dataPath.trimEnd '/') = []

instance : Decidable env.DataPathMissing := inferInstanceAs (Decidable (_ = _))

/-- The disks, with the data path as the disk `default` if it is not the path of one. -/
def disks : List (Str × Str) :=
  env.diskPaths.entries ++ if env.DataPathMissing then [("default".toList, env.dataPath)] else []

/-- A disk whose path names the directory. -/
def IsDiskAt (name l : Str) : Prop := ∃ p, (name, p) ∈ env.disks ∧ location p = l

/-- The name under which a directory is walked. -/
def walkedAs (l : Str) : Option Str :=
  (env.preferredAt l).or
    (if env.DataPathMissing ∧ location env.dataPath = l then some "default".toList else none)

end CollectEnv

theorem preferred_map {α β : Type} (f : α → β) (better : β → Bool) (l : List α) :
    SortedMap.preferred better (l.map f) = (SortedMap.preferred (better ∘ f) l).map f := by
  rw [SortedMap.preferred, SortedMap.preferred, List.find?_map, List.head?_map]
  cases l.find? (better ∘ f) with
  | none => rfl
  | some x => rfl

theorem addDiskPath_eq (env : CollectEnv) (m : SortedMap Str (Str × Bool)) (d : Str × Str) :
    env.addDiskPath m d =
      m.insertPreferred (fun e => !e.2) (d.2.trimEnd '/') (d.1, env.cacheDiskNames.contains d.1) := by
  rw [addDiskPath, SortedMap.insertPreferred]
  dsimp only
  cases m.get? (d.2.trimEnd '/') with
  | none => rfl
  | some e =>
    dsimp only
    rw [Bool.not_not, Bool.and_comm]

theorem pathToDisk_get? (env : CollectEnv) (q : Str) :
    (env.pathToDisk.get? q).map Prod.fst = env.preferredAt q := by
  have hfold : env.pathToDisk =
      (env.diskPaths.entries.map fun d =>
        (d.2.trimEnd '/', (d.1, env.cacheDiskNames.contains d.1))).foldl
          (fun acc b => acc.insertPreferred (fun e => !e.2) b.1 b.2) .empty := by
    rw [List.foldl_map, pathToDisk]
    congr 1
    funext m d
    exact addDiskPath_eq env m d
  have hempty : ((SortedMap.empty : SortedMap Str (Str × Bool)).get? q).toList = [] := rfl
  rw [hfold, SortedMap.get?_foldl_insertPreferred, List.filter_map, List.map_map, hempty,
    List.nil_append]
  rw [preferred_map, Option.map_map]
  exact congrArg (fun l : List (Str × Str) => (SortedMap.preferred (fun d =>
    !env.cacheDiskNames.contains d.1) l).map Prod.fst)
      (List.filter_congr fun d _ => decide_eq_decide.mpr Iff.rfl)

theorem mem_of_preferred {α : Type} {better : α → Bool} {l : List α} {x : α}
    (h : SortedMap.preferred better l = some x) : x ∈ l := by
  rw [SortedMap.preferred, Option.or_eq_some_iff] at h
  rcases h with h | ⟨-, h⟩
  · exact List.mem_of_find?_eq_some h
  · exact List.mem_of_head? h

theorem preferred_eq_none_iff {α : Type} {better : α → Bool} {l : List α} :
    SortedMap.preferred better l = none ↔ l = [] := by
  rw [SortedMap.preferred, Option.or_eq_none_iff, List.head?_eq_none_iff, and_iff_right_iff_imp]
  rintro rfl
  rfl

section Walk

variable {env : CollectEnv}

theorem disk_of_preferredAt {q n : Str} (h : env.preferredAt q = some n) :
    ∃ p, (n, p) ∈ env.diskPaths.entries ∧ p.trimEnd '/' = q := by
  obtain ⟨⟨m, p⟩, hd, rfl⟩ := Option.map_eq_some_iff.mp h
  have hmem := List.mem_filter.mp (mem_of_preferred hd)
  exact ⟨p, hmem.1, of_decide_eq_true hmem.2⟩

theorem preferredAt_eq_none_iff {q : Str} : env.preferredAt q = none ↔ env.disksAt q = [] := by
  rw [preferredAt, Option.map_eq_none_iff, preferred_eq_none_iff]

theorem trimEnd_of_preferredAt {q n : Str} (h : env.preferredAt q = some n) :
    q.trimEnd '/' = q := by
  obtain ⟨p, -, rfl⟩ := disk_of_preferredAt h
  exact trimEnd_trimEnd '/' p

/-- The directories that are disks, with the names under which they are walked. -/
theorem mem_diskWalk_iff {n q : Str} :
    (n, q) ∈ env.pathToDisk.entries.map (fun b => (b.2.1, b.1)) ↔ env.preferredAt q = some n := by
  rw [← pathToDisk_get?, Option.map_eq_some_iff, List.mem_map]
  constructor
  · rintro ⟨⟨q', m, c⟩, hb, heq⟩
    cases heq
    exact ⟨(m, c), SortedMap.get?_eq_some_iff.mpr hb, rfl⟩
  · rintro ⟨⟨m, c⟩, hb, rfl⟩
    exact ⟨(q, m, c), SortedMap.get?_eq_some_iff.mp hb, rfl⟩

theorem pathsToWalk_eq (env : CollectEnv) :
    env.pathsToWalk = env.pathToDisk.entries.map (fun b => (b.2.1, b.1)) ++
      if env.DataPathMissing then [("default".toList, env.dataPath)] else [] := by
  have hany : ((env.pathToDisk.entries.map fun b => (b.2.1, b.1)).any fun p =>
      p.2.trimEnd '/' = env.dataPath.trimEnd '/') = true ↔ ¬ env.DataPathMissing := by
    rw [List.any_eq_true, DataPathMissing, ← preferredAt_eq_none_iff, ← ne_eq,
      Option.ne_none_iff_exists']
    constructor
    · rintro ⟨⟨n, q⟩, hmem, heq⟩
      have hn := mem_diskWalk_iff.mp hmem
      have hq := trimEnd_of_preferredAt hn
      rw [decide_eq_true_eq, hq] at heq
      exact ⟨n, heq ▸ hn⟩
    · rintro ⟨n, hn⟩
      exact ⟨(n, _), mem_diskWalk_iff.mpr hn, decide_eq_true (trimEnd_trimEnd '/' _)⟩
  rw [pathsToWalk]
  by_cases h : env.DataPathMissing
  · rw [if_neg (hany.not.mpr (not_not.mpr h)), if_pos h]
  · rw [if_pos (hany.mpr h), if_neg h, List.append_nil]

/-- No disk has the directory of a data path that is not the path of a disk. -/
theorem preferredAt_location_dataPath (h : env.DataPathMissing) :
    env.preferredAt (location env.dataPath) = none := by
  by_cases hroot : env.dataPath.trimEnd '/' = [] ∧ env.dataPath ≠ []
  · cases hp : env.preferredAt (location env.dataPath) with
    | none => rfl
    | some n =>
      have := trimEnd_of_preferredAt hp
      rw [location, if_pos hroot] at this
      exact absurd this (by decide)
  · rw [location, if_neg hroot]
    exact preferredAt_eq_none_iff.mpr h

/-- **A directory is walked under exactly one name.** -/
theorem exists_mem_pathsToWalk_iff {n l : Str} :
    (∃ p, (n, p) ∈ env.pathsToWalk ∧ location p = l) ↔ env.walkedAs l = some n := by
  rw [pathsToWalk_eq, walkedAs, Option.or_eq_some_iff]
  constructor
  · rintro ⟨p, hmem, rfl⟩
    rcases List.mem_append.mp hmem with hmem | hmem
    · have hp := mem_diskWalk_iff.mp hmem
      rw [location_of_trimEnd (trimEnd_of_preferredAt hp)]
      exact Or.inl hp
    · split_ifs at hmem with hmiss
      · cases List.mem_singleton.mp hmem
        exact Or.inr ⟨preferredAt_location_dataPath hmiss, if_pos ⟨hmiss, rfl⟩⟩
      · exact absurd hmem List.not_mem_nil
  · rintro (hp | ⟨-, hdef⟩)
    · exact ⟨l, List.mem_append_left _ (mem_diskWalk_iff.mpr hp),
        location_of_trimEnd (trimEnd_of_preferredAt hp)⟩
    · split_ifs at hdef with hmiss
      cases hdef
      refine ⟨env.dataPath, List.mem_append_right _ ?_, hmiss.2⟩
      rw [if_pos hmiss.1]
      exact List.mem_singleton_self _

theorem nodup_locations (env : CollectEnv) :
    (env.pathsToWalk.map fun d => location d.2).Nodup := by
  have hloc : (env.pathToDisk.entries.map fun b => (b.2.1, b.1)).map (fun d => location d.2) =
      env.pathToDisk.keys := by
    rw [List.map_map, SortedMap.keys]
    refine List.map_congr_left fun b hb => ?_
    exact location_of_trimEnd (trimEnd_of_preferredAt
      (mem_diskWalk_iff.mp (List.mem_map_of_mem (f := fun b => (b.2.1, b.1)) hb)))
  rw [pathsToWalk_eq, List.map_append, hloc]
  refine env.pathToDisk.nodup_keys.append ?_ ?_
  · split_ifs
    · exact List.nodup_singleton _
    · exact List.nodup_nil
  · intro l hl hl'
    split_ifs at hl' with hmiss
    · rw [List.map_singleton, List.mem_singleton] at hl'
      obtain ⟨e, he⟩ := SortedMap.mem_keys_iff.mp hl
      have hnone := preferredAt_location_dataPath hmiss
      rw [← hl', ← pathToDisk_get?, he] at hnone
      cases hnone
    · exact absurd hl' List.not_mem_nil

/-- A directory is walked under the name of a disk whose path it is. -/
theorem isDiskAt_of_walkedAs {n l : Str} (hl : l ≠ []) (h : env.walkedAs l = some n) :
    env.IsDiskAt n l := by
  rw [walkedAs, Option.or_eq_some_iff] at h
  rcases h with h | ⟨-, h⟩
  · obtain ⟨p, hp, rfl⟩ := disk_of_preferredAt h
    exact ⟨p, List.mem_append_left _ hp, location_of_trimEnd_ne_nil hl⟩
  · split_ifs at h with hmiss
    cases h
    refine ⟨env.dataPath, List.mem_append_right _ ?_, hmiss.2⟩
    rw [if_pos hmiss.1]
    exact List.mem_singleton_self _

end Walk

/-! ## The parts to list and the parts listed -/

namespace FrozenTable

variable (t : FrozenTable) (env : CollectEnv)

/-- The directories of the disks that are not excluded. -/
def keptLocations : List Str :=
  ((env.disks.filter fun d => !env.excluded d.1).map fun d => location d.2).dedup

/-- The parts that a backup of the table has to list, with their directories. -/
def expected : List (Str × Str × Nat) :=
  (keptLocations env).flatMap fun l => (t.parts l).map fun x => (l, x)

/-- The record lists each of these parts once, under the name of a disk whose path holds it and
with its checksum, and nothing else. -/
def ListsExactly (tm : TableManifest) : Prop :=
  ∃ listed, tm.recorded.Perm listed ∧
    List.Forall₂ (fun r e => env.IsDiskAt r.1 e.1 ∧ r.2 = e.2) listed (t.expected env)

/-- Every directory with a part on a disk that is not excluded is walked under the name of such a
disk. -/
def Walked : Prop :=
  ∀ l n, t.parts l ≠ [] → env.IsDiskAt n l → env.excluded n = false →
    ∃ m, env.walkedAs l = some m ∧ env.excluded m = false

/-- No two directories that hold parts of one name are walked under the name of one disk. -/
def Separate : Prop :=
  ∀ l l' m, l ≠ l' → env.walkedAs l = some m → env.walkedAs l' = some m → env.excluded m = false →
    ∀ x ∈ t.parts l, ∀ y ∈ t.parts l', x.1 ≠ y.1

/-- The directories that are walked. -/
def walkedLocations : List Str :=
  (env.pathsToWalk.filter fun d => !env.excluded d.1).map fun d => location d.2

variable {t env}

theorem mem_keptLocations_iff {l : Str} :
    l ∈ keptLocations env ↔ ∃ n, env.IsDiskAt n l ∧ env.excluded n = false := by
  rw [keptLocations, List.mem_dedup, List.mem_map]
  constructor
  · rintro ⟨⟨n, p⟩, hmem, rfl⟩
    obtain ⟨hd, hex⟩ := List.mem_filter.mp hmem
    exact ⟨n, ⟨p, hd, rfl⟩, by simpa using hex⟩
  · rintro ⟨n, ⟨p, hd, rfl⟩, hex⟩
    exact ⟨(n, p), List.mem_filter.mpr ⟨hd, by simp [hex]⟩, rfl⟩

theorem mem_walkedLocations_iff {l : Str} :
    l ∈ walkedLocations env ↔ ∃ m, env.walkedAs l = some m ∧ env.excluded m = false := by
  rw [walkedLocations, List.mem_map]
  constructor
  · rintro ⟨⟨n, p⟩, hmem, rfl⟩
    obtain ⟨hd, hex⟩ := List.mem_filter.mp hmem
    exact ⟨n, exists_mem_pathsToWalk_iff.mp ⟨p, hd, rfl⟩, by simpa using hex⟩
  · rintro ⟨m, hm, hex⟩
    obtain ⟨p, hd, rfl⟩ := exists_mem_pathsToWalk_iff.mpr hm
    exact ⟨(m, p), List.mem_filter.mpr ⟨hd, by simp [hex]⟩, rfl⟩

theorem nodup_walkedLocations : (walkedLocations env).Nodup :=
  (nodup_locations env).sublist (List.filter_sublist.map _)

theorem nodup_keptLocations : (keptLocations env).Nodup := List.nodup_dedup _

/-- Only kept directories are walked. -/
theorem mem_keptLocations_of_walked {l : Str} (hl : l ≠ []) (h : l ∈ walkedLocations env) :
    l ∈ keptLocations env := by
  obtain ⟨m, hm, hex⟩ := mem_walkedLocations_iff.mp h
  exact mem_keptLocations_iff.mpr ⟨m, isDiskAt_of_walkedAs hl hm, hex⟩

theorem walked_iff :
    t.Walked env ↔ ∀ l ∈ keptLocations env, t.parts l ≠ [] → l ∈ walkedLocations env := by
  constructor
  · intro h l hl hne
    obtain ⟨n, hn, hex⟩ := mem_keptLocations_iff.mp hl
    exact mem_walkedLocations_iff.mpr (h l n hne hn hex)
  · intro h l n hne hn hex
    exact mem_walkedLocations_iff.mp (h l (mem_keptLocations_iff.mpr ⟨n, hn, hex⟩) hne)

/-- The items of the directories that are walked, by the name of the directory. -/
theorem walkedItems_eq :
    t.walkedItems env = (walkedLocations env).flatMap fun l =>
      (t.parts l).map fun x => (((env.walkedAs l).getD [], x.1), x.2) := by
  rw [walkedItems, walkedLocations, List.flatMap_map]
  refine List.flatMap_congr fun d hd => ?_
  have hname : env.walkedAs (location d.2) = some d.1 :=
    exists_mem_pathsToWalk_iff.mp ⟨d.2, (List.mem_filter.mp hd).1, rfl⟩
  rw [hname, Option.getD_some]

theorem length_walkedItems :
    (t.walkedItems env).length = ((walkedLocations env).map fun l => (t.parts l).length).sum := by
  rw [walkedItems_eq, List.length_flatMap]
  simp

theorem length_expected :
    (t.expected env).length = ((keptLocations env).map fun l => (t.parts l).length).sum := by
  rw [expected, List.length_flatMap]
  simp

/-- Counting over distinct elements: what counts in `A` is in `B`, so `A` counts for no more than
`B`, and for less if it misses something that counts. -/
theorem sum_map_le_of_support {α : Type} [DecidableEq α] {A B : List α} (hA : A.Nodup) (hB : B.Nodup)
    {f : α → ℕ} (h : ∀ a ∈ A, f a ≠ 0 → a ∈ B) :
    (A.map f).sum ≤ (B.map f).sum ∧
      ((B.map f).sum ≤ (A.map f).sum → ∀ b ∈ B, f b ≠ 0 → b ∈ A) := by
  rw [← List.sum_toFinset f hA, ← List.sum_toFinset f hB, ← Finset.sum_filter_ne_zero]
  have hsub : A.toFinset.filter (fun a => f a ≠ 0) ⊆ B.toFinset := by
    intro a ha
    rw [Finset.mem_filter, List.mem_toFinset] at ha
    exact List.mem_toFinset.mpr (h a ha.1 ha.2)
  refine ⟨Finset.sum_le_sum_of_subset hsub, fun hle b hb hfb => ?_⟩
  by_contra hbA
  have hnot : b ∉ A.toFinset.filter (fun a => f a ≠ 0) := fun hmem =>
    hbA (List.mem_toFinset.mp (Finset.mem_filter.mp hmem).1)
  have hins : insert b (A.toFinset.filter fun a => f a ≠ 0) ⊆ B.toFinset :=
    Finset.insert_subset (List.mem_toFinset.mpr hb) hsub
  have hlt := Finset.sum_le_sum_of_subset (f := f) hins
  rw [Finset.sum_insert hnot] at hlt
  exact absurd (hlt.trans hle) (by omega)

theorem length_parts_ne_zero_iff {l : Str} : (t.parts l).length ≠ 0 ↔ t.parts l ≠ [] := by
  rw [ne_eq, List.length_eq_zero_iff]

/-- **No more is found than has to be listed, and less if a directory is not walked.** -/
theorem length_walkedItems_le :
    (t.walkedItems env).length ≤ (t.expected env).length ∧
      ((t.expected env).length ≤ (t.walkedItems env).length → t.Walked env) := by
  rw [length_walkedItems, length_expected, walked_iff]
  have h := @sum_map_le_of_support Str _ (walkedLocations env) (keptLocations env)
    nodup_walkedLocations nodup_keptLocations (fun l => (t.parts l).length) fun l hl hne => by
      refine mem_keptLocations_of_walked ?_ hl
      rintro rfl
      exact length_parts_ne_zero_iff.mp hne t.parts_nil
  exact ⟨h.1, fun hle l hl hne => h.2 hle l hl (length_parts_ne_zero_iff.mpr hne)⟩

/-- No item is found twice iff the directories walked under one name are separate. -/
theorem nodup_walkedItems_iff : ((t.walkedItems env).map Prod.fst).Nodup ↔ t.Separate env := by
  rw [walkedItems_eq, List.map_flatMap, List.nodup_flatMap]
  have hmap : ∀ l, ((t.parts l).map fun x => (((env.walkedAs l).getD [], x.1), x.2)).map Prod.fst =
      (t.parts l).map fun x => ((env.walkedAs l).getD [], x.1) := fun l => by
    rw [List.map_map]
    rfl
  simp only [hmap]
  constructor
  · rintro ⟨-, hpair⟩ l l' m hne hl hl' hex x hx y hy hxy
    have hmem : l ∈ walkedLocations env := mem_walkedLocations_iff.mpr ⟨m, hl, hex⟩
    have hmem' : l' ∈ walkedLocations env := mem_walkedLocations_iff.mpr ⟨m, hl', hex⟩
    have : Std.Symm (Function.onFun List.Disjoint fun a =>
        (t.parts a).map fun x => ((env.walkedAs a).getD [], x.1)) := ⟨fun _ _ h => h.symm⟩
    have hdisj := hpair.forall hmem hmem' hne
    refine hdisj (List.mem_map_of_mem hx) (List.mem_map.mpr ⟨y, hy, ?_⟩)
    rw [hl, hl', hxy]
  · intro hsep
    refine ⟨fun l _ => ?_, nodup_walkedLocations.pairwise_of_forall_ne fun l hl l' hl' hne => ?_⟩
    · have hnames := (t.nodup_parts l).map (f := fun n => ((env.walkedAs l).getD [], n))
        fun a b hab => (Prod.mk.inj hab).2
      rwa [List.map_map] at hnames
    · intro i hi hi'
      obtain ⟨x, hx, rfl⟩ := List.mem_map.mp hi
      obtain ⟨y, hy, hxy⟩ := List.mem_map.mp hi'
      obtain ⟨m, hm, hex⟩ := mem_walkedLocations_iff.mp hl
      obtain ⟨m', hm', -⟩ := mem_walkedLocations_iff.mp hl'
      rw [hm, hm', Prod.mk.injEq] at hxy
      obtain rfl : m' = m := hxy.1
      exact hsep l l' m' hne hm hm' hex x hx y hy hxy.2.symm

/-! ## The exact condition -/

section Record

variable {mutations : List MutationInfo} {deps : List Str} {tm : TableManifest}

theorem length_eq_of_listsExactly (h : t.ListsExactly env tm) :
    tm.recorded.length = (t.expected env).length := by
  obtain ⟨listed, hperm, hall⟩ := h
  rw [hperm.length_eq, hall.length_eq]

theorem flatMap_filter_of_nil {α β : Type} (p : α → Bool) (f : α → List β)
    (hp : ∀ a, p a = false → f a = []) (l : List α) : (l.filter p).flatMap f = l.flatMap f := by
  induction l with
  | nil => rfl
  | cons a l ih =>
    cases ha : p a with
    | false => rw [List.filter_cons_of_neg (by simp [ha]), List.flatMap_cons, hp a ha, ih, List.nil_append]
    | true => rw [List.filter_cons_of_pos ha, List.flatMap_cons, List.flatMap_cons, ih]

/-- If every directory that counts is walked, what is found is what has to be listed, under the
names of the walk. -/
theorem walkedItems_perm (h : t.Walked env) :
    ((t.walkedItems env).map fun i => (i.1.1, i.1.2, i.2)).Perm
      ((t.expected env).map fun e => ((env.walkedAs e.1).getD [], e.2)) := by
  rw [walkedItems_eq, expected, List.map_flatMap, List.map_flatMap]
  simp only [List.map_map]
  let F : Str → List (Str × Str × Nat) := fun l =>
    (t.parts l).map fun x => ((env.walkedAs l).getD [], x.1, x.2)
  change ((walkedLocations env).flatMap F).Perm ((keptLocations env).flatMap F)
  let p : Str → Bool := fun l => !(t.parts l).isEmpty
  have hp : ∀ l, p l = false → F l = [] := by
    intro l hl
    have hnil : t.parts l = [] := by simpa [p] using hl
    change (t.parts l).map _ = []
    rw [hnil, List.map_nil]
  rw [← flatMap_filter_of_nil p F hp (walkedLocations env),
    ← flatMap_filter_of_nil p F hp (keptLocations env)]
  refine List.Perm.flatMap_right F ?_
  rw [List.perm_ext_iff_of_nodup (nodup_walkedLocations.filter _) (nodup_keptLocations.filter _)]
  intro l
  rw [List.mem_filter, List.mem_filter]
  refine and_congr_left fun hl => ?_
  have hne : t.parts l ≠ [] := by simpa [p] using hl
  refine ⟨mem_keptLocations_of_walked ?_, fun hk => walked_iff.mp h l hk hne⟩
  rintro rfl
  exact hne t.parts_nil

theorem listsExactly_of_walked (h : frozenTableManifest env t.shadow t.row mutations deps = .ok tm)
    (hrec : t.Recognised env) (hwalked : t.Walked env) (hsep : t.Separate env) :
    t.ListsExactly env tm := by
  have hperm := recorded_perm_of_recognised h hrec
  rw [foldl_addUnseen_eq_append (by simpa using nodup_walkedItems_iff.mpr hsep), List.nil_append]
    at hperm
  refine ⟨_, hperm.trans (walkedItems_perm hwalked), ?_⟩
  rw [List.forall₂_map_left_iff, List.forall₂_same]
  rintro ⟨l, x⟩ hx
  obtain ⟨l', hl, hmem⟩ := List.mem_flatMap.mp hx
  obtain ⟨y, hy, heq⟩ := List.mem_map.mp hmem
  cases heq
  have hne : t.parts l ≠ [] := List.ne_nil_of_mem hy
  obtain ⟨m, hm, -⟩ := mem_walkedLocations_iff.mp (walked_iff.mp hwalked l hl hne)
  refine ⟨?_, rfl⟩
  rw [hm, Option.getD_some]
  refine isDiskAt_of_walkedAs ?_ hm
  rintro rfl
  exact hne t.parts_nil

theorem length_recorded_le (h : frozenTableManifest env t.shadow t.row mutations deps = .ok tm)
    (hrec : t.Recognised env) : tm.recorded.length ≤ (t.walkedItems env).length := by
  rw [(recorded_perm_of_recognised h hrec).length_eq, List.length_map]
  exact (foldl_addUnseen_sublist Prod.fst [] _).length_le

/-- A record that lists everything comes from a walk that met every directory once per name. -/
theorem walked_of_listsExactly (h : frozenTableManifest env t.shadow t.row mutations deps = .ok tm)
    (hrec : t.Recognised env) (hlists : t.ListsExactly env tm) :
    t.Walked env ∧ t.Separate env := by
  have hlen := length_eq_of_listsExactly hlists
  have hrecorded := length_recorded_le h hrec
  obtain ⟨hle, hwalked⟩ := @length_walkedItems_le t env
  refine ⟨hwalked (by omega), nodup_walkedItems_iff.mp ?_⟩
  rw [← length_foldl_addUnseen_eq_iff]
  rw [(recorded_perm_of_recognised h hrec).length_eq, List.length_map] at hlen hrecorded
  omega

end Record

end FrozenTable

/-! ## Which tables are recognised -/

/-- The table that a name of the UUID map belongs to: the first table with a data engine that has
the name, or the first table that has it. -/
def uuidOwner (tables : List SystemTable) (key : Str) : Option SystemTable :=
  SortedMap.preferred (fun t => isDataEngine t.engine) (tables.filter fun t => key ∈ uuidKeys t)

/-- A name that is its own escaped form. -/
def PlainName (s : Str) : Prop := ∀ c ∈ s, c.isAlphanum = true ∨ c = '_'

/-- The directory of the table leads to its key: in an Atomic database its UUID belongs to a table
of that key, and in an Ordinary database its names need no escaping. -/
def FrozenTable.Recognisable (t : FrozenTable) (env : CollectEnv) : Prop :=
  match t.layout with
  | .atomic _ => ∃ o, uuidOwner env.tables t.row.uuid = some o ∧ fullTableName o.database o.name = t.key
  | .ordinary => PlainName t.row.database ∧ PlainName t.row.name

theorem preferred_flatMap {α β : Type} {better : β → Bool} {f : α → β} {g : α → List β} {p : α → Bool}
    (hf : ∀ a, ∀ b ∈ g a, b = f a) (hp : ∀ a, g a ≠ [] ↔ p a = true) (l : List α) :
    SortedMap.preferred better (l.flatMap g) =
      (SortedMap.preferred (better ∘ f) (l.filter p)).map f := by
  have hnil : ∀ a, p a = false → g a = [] := fun a ha => by
    by_contra hne
    rw [(hp a).mp hne] at ha
    cases ha
  have hcons : ∀ a, p a = true → ∃ bs, g a = f a :: bs ∧ ∀ b ∈ bs, b = f a := fun a ha => by
    obtain ⟨b, bs, hb⟩ := List.exists_cons_of_ne_nil ((hp a).mpr ha)
    refine ⟨bs, ?_, fun c hc => hf a c (by rw [hb]; exact List.mem_cons_of_mem _ hc)⟩
    rw [hb, hf a b (by rw [hb]; exact List.mem_cons_self)]
  have hfind : (l.flatMap g).find? better = ((l.filter p).find? (better ∘ f)).map f := by
    induction l with
    | nil => rfl
    | cons a l ih =>
      rw [List.flatMap_cons, List.find?_append, ih]
      cases ha : p a with
      | false => rw [hnil a ha, List.filter_cons_of_neg (by simp [ha])]; rfl
      | true =>
        obtain ⟨bs, hbs, hall⟩ := hcons a ha
        rw [hbs, List.filter_cons_of_pos ha]
        cases hb : better (f a) with
        | true => rw [List.find?_cons_of_pos hb, List.find?_cons_of_pos (p := better ∘ f) hb]; rfl
        | false =>
          have hnone : bs.find? better = none := by
            rw [List.find?_eq_none]
            intro b hmem
            rw [hall b hmem, hb]
            exact Bool.false_ne_true
          rw [List.find?_cons_of_neg (by simp [hb]), hnone,
            List.find?_cons_of_neg (p := better ∘ f) (by simp [hb])]
          rfl
  have hhead : (l.flatMap g).head? = ((l.filter p).head?).map f := by
    clear hfind
    induction l with
    | nil => rfl
    | cons a l ih =>
      rw [List.flatMap_cons]
      cases ha : p a with
      | false =>
        rw [hnil a ha, List.filter_cons_of_neg (by simp [ha]), List.nil_append]
        exact ih
      | true =>
        obtain ⟨bs, hbs, -⟩ := hcons a ha
        rw [hbs, List.filter_cons_of_pos ha]
        rfl
  rw [SortedMap.preferred, hfind, hhead, SortedMap.preferred]
  cases (l.filter p).find? (better ∘ f) with
  | none => rfl
  | some x => rfl

theorem insertWithPriority_eq (m : SortedMap Str UuidEntry) (key : Str) (e : UuidEntry) :
    insertWithPriority m key e = m.insertPreferred UuidEntry.isData key e := by
  rw [insertWithPriority, SortedMap.insertPreferred]
  cases m.get? key with
  | none => rfl
  | some existing => rfl

theorem buildUuidMap_eq (tables : List SystemTable) :
    buildUuidMap tables =
      (tables.flatMap fun t => (uuidKeys t).map fun key => (key, t.uuidEntry)).foldl
        (fun acc b => acc.insertPreferred UuidEntry.isData b.1 b.2) .empty := by
  rw [buildUuidMap, List.foldl_flatMap]
  congr 1
  funext m t
  rw [List.foldl_map]
  congr 1
  funext m key
  exact insertWithPriority_eq m key _

/-- **What the UUID map says of a name is its owner.** -/
theorem buildUuidMap_get? (tables : List SystemTable) (key : Str) :
    (buildUuidMap tables).get? key = (uuidOwner tables key).map SystemTable.uuidEntry := by
  have hempty : ((SortedMap.empty : SortedMap Str UuidEntry).get? key).toList = [] := rfl
  rw [buildUuidMap_eq, SortedMap.get?_foldl_insertPreferred, hempty, List.nil_append,
    List.filter_flatMap, List.map_flatMap]
  refine preferred_flatMap (fun t e he => ?_) (fun t => ?_) tables
  · obtain ⟨b, hb, rfl⟩ := List.mem_map.mp he
    obtain ⟨k, -, rfl⟩ := List.mem_map.mp (List.mem_of_mem_filter hb)
    rfl
  · rw [decide_eq_true_eq, ne_eq, List.map_eq_nil_iff, List.filter_eq_nil_iff]
    constructor
    · intro hne
      by_contra hk
      refine hne fun b hb heq => hk ?_
      obtain ⟨k, hk', rfl⟩ := List.mem_map.mp hb
      obtain rfl : k = key := by simpa using heq
      exact hk'
    · intro hk hall
      exact hall (key, t.uuidEntry) (List.mem_map_of_mem hk) (by simp)

theorem plainName_of_all {s : Str} (h : (s.all fun c => c.isAlphanum || c = '_') = true) :
    PlainName s := by
  intro c hc
  have := List.all_eq_true.mp h c hc
  simpa using this

theorem length_hex_two (b : UInt8) : 1 ≤ (Str.hex true 2 b.toNat).length := by
  rw [Str.hex, List.length_append, List.length_replicate]
  omega

theorem length_escaped_char (c : Char) :
    1 < ((String.utf8EncodeChar c).flatMap fun byte => '%' :: Str.hex true 2 byte.toNat).length := by
  have hne : String.utf8EncodeChar c ≠ [] := by
    intro hnil
    have := String.length_utf8EncodeChar c
    rw [hnil] at this
    exact absurd this (by have := Char.utf8Size_pos c; simp; omega)
  obtain ⟨b, bs, hb⟩ := List.exists_cons_of_ne_nil hne
  rw [hb, List.flatMap_cons, List.length_append, List.length_cons]
  have := length_hex_two b
  omega

/-- Escaping lengthens every name that is not plain. -/
theorem length_escape (s : Str) :
    s.length ≤ (escapeForFileName s).length ∧
      ((escapeForFileName s).length ≤ s.length → PlainName s) := by
  induction s with
  | nil => exact ⟨Nat.le_refl _, fun _ c hc => absurd hc List.not_mem_nil⟩
  | cons c s ih =>
    rw [escapeForFileName, List.flatMap_cons, List.length_append, List.length_cons]
    rw [escapeForFileName] at ih
    by_cases hc : c.isAlphanum = true ∨ c = '_'
    · rw [if_pos (by simpa using hc), List.length_singleton]
      refine ⟨by omega, fun hle d hd => ?_⟩
      rcases List.mem_cons.mp hd with rfl | hd
      · exact hc
      · exact ih.2 (by omega) d hd
    · rw [if_neg (by simpa using hc)]
      have := length_escaped_char c
      exact ⟨by omega, fun hle => absurd hle (by omega)⟩

theorem escape_of_plain {s : Str} (h : PlainName s) : escapeForFileName s = s := by
  induction s with
  | nil => rfl
  | cons c s ih =>
    have hc : (c.isAlphanum || c = '_') = true := by simpa using h c List.mem_cons_self
    have hs := ih fun d hd => h d (List.mem_cons_of_mem _ hd)
    rw [escapeForFileName] at hs
    rw [escapeForFileName, List.flatMap_cons, if_pos hc, hs]
    rfl

namespace FrozenTable

variable {t : FrozenTable} {env : CollectEnv}

/-- **Which tables are recognised.** -/
theorem recognised_iff : t.Recognised env ↔ t.Recognisable env := by
  rw [Recognised, takenFor, Recognisable]
  cases t.layout with
  | atomic pre =>
    dsimp only
    rw [buildUuidMap_get?]
    cases uuidOwner env.tables t.row.uuid with
    | none => simp
    | some o => simp [SystemTable.uuidEntry]
  | ordinary =>
    dsimp only
    rw [key, fullTableName]
    constructor
    · rintro ⟨k, hk, hkey⟩
      cases hk
      have hlen := congrArg List.length hkey
      dsimp only at hlen
      rw [fullTableName, List.length_append, List.length_cons, List.length_append,
        List.length_cons] at hlen
      obtain ⟨hd, hd'⟩ := length_escape t.row.database
      obtain ⟨hn, hn'⟩ := length_escape t.row.name
      exact ⟨hd' (by omega), hn' (by omega)⟩
    · rintro ⟨hd, hn⟩
      exact ⟨_, rfl, by rw [escape_of_plain hd, escape_of_plain hn, fullTableName]⟩

/-- **When nothing frozen is left out.**  The record that `create` makes of a frozen table lists
every part on a disk that is not excluded exactly once, under the name of a disk whose path holds
it and with its checksum, and nothing else, iff there is no such part, or the directory of the
table is recognised, every directory with such a part is walked under the name of a disk that is
not excluded, and directories walked under one name hold different parts. -/
theorem lists_exactly_iff {mutations : List MutationInfo} {deps : List Str} {tm : TableManifest}
    (h : frozenTableManifest env t.shadow t.row mutations deps = .ok tm) :
    t.ListsExactly env tm ↔
      t.expected env = [] ∨ (t.Recognisable env ∧ t.Walked env ∧ t.Separate env) := by
  rw [← recognised_iff]
  by_cases hrec : t.Recognised env
  · constructor
    · intro hlists
      exact Or.inr ⟨hrec, walked_of_listsExactly h hrec hlists⟩
    · rintro (hnone | ⟨-, hwalked, hsep⟩)
      · have hle := (length_recorded_le h hrec).trans (@length_walkedItems_le t env).1
        rw [hnone, List.length_nil, Nat.le_zero, List.length_eq_zero_iff] at hle
        refine ⟨[], by rw [hle], ?_⟩
        rw [hnone]
        exact List.Forall₂.nil
      · exact listsExactly_of_walked h hrec hwalked hsep
  · have hnil := recorded_eq_nil_of_not_recognised h hrec
    constructor
    · intro hlists
      have hlen := length_eq_of_listsExactly hlists
      rw [hnil, List.length_nil, eq_comm, List.length_eq_zero_iff] at hlen
      exact Or.inl hlen
    · rintro (hnone | ⟨hrec', -⟩)
      · refine ⟨[], by rw [hnil], ?_⟩
        rw [hnone]
        exact List.Forall₂.nil
      · exact absurd hrec' hrec

/-! ## One part on one disk -/

/-- The directory of a table with one part. -/
def onePartDir : List PartTree :=
  [.dir (.utf8 "all_1_1_0") [.file (.utf8 "checksums.txt") ⟨true, none, 64, 7⟩]]

theorem onePartDir_named : ∀ d ∈ subdirs onePartDir, d.1.toStr.isSome = true := by decide

theorem onePartDir_nodup : ((subdirs onePartDir).map Prod.fst).Nodup := by decide

/-- A table of an Ordinary database with one part on the disk at `/data`. -/
def onePartTable (name : Str) : FrozenTable where
  row := ⟨⟨"db", name, [], []⟩, "MergeTree", []⟩
  freezeName := "chbackup_b_db_".toList ++ name
  layout := .ordinary
  tableDir := fun l => if l = "/data".toList then some onePartDir else none
  absolute := rfl
  named := fun l entries h => by
    split_ifs at h
    cases h
    exact onePartDir_named
  nodup := fun l entries h => by
    split_ifs at h
    cases h
    exact onePartDir_nodup

/-- One disk, nothing excluded. -/
def oneDiskEnv : CollectEnv where
  dataPath := "/data/"
  tables := []
  diskTypeMap := SortedMap.empty.insert "default" "local"
  diskPaths := SortedMap.empty.insert "default" "/data/"
  diskRemotePaths := .empty
  skipDisks := []
  skipDiskTypes := []
  skipProjections := []
  baseParts := fun _ _ _ => none
  cacheDiskNames := []
  glob := fun _ => none
  lossy := List.map fun _ => Char.ofNat 0xFFFD

theorem location_of_onePartTable {name l : Str} (h : (onePartTable name).parts l ≠ []) :
    l = "/data" := by
  by_contra hl
  refine h ?_
  rw [parts, onePartTable]
  dsimp only
  rw [if_neg hl]
  rfl

/-- A table whose name needs no escaping is listed. -/
theorem plain_table_is_listed :
    ∃ tm, frozenTableManifest oneDiskEnv (onePartTable "t").shadow (onePartTable "t").row [] [] = .ok tm ∧
      (onePartTable "t").ListsExactly oneDiskEnv tm := by
  refine ⟨_, rfl, (lists_exactly_iff rfl).mpr (Or.inr ⟨?_, ?_, ?_⟩)⟩
  · exact ⟨plainName_of_all (by decide), plainName_of_all (by decide)⟩
  · intro l n hne _ _
    obtain rfl := location_of_onePartTable hne
    exact ⟨"default", by decide, by decide⟩
  · intro l l' m hll _ _ _ x hx y hy
    have hl := location_of_onePartTable (List.ne_nil_of_mem hx)
    have hl' := location_of_onePartTable (List.ne_nil_of_mem hy)
    exact absurd (hl.trans hl'.symm) hll

/-- A table whose name needs escaping is recorded without its part. -/
theorem escaped_table_is_left_out :
    ∃ tm, frozenTableManifest oneDiskEnv (onePartTable "my-table").shadow
        (onePartTable "my-table").row [] [] = .ok tm ∧
      ¬ (onePartTable "my-table").ListsExactly oneDiskEnv tm := by
  refine ⟨_, rfl, fun h => ?_⟩
  have hlen := length_eq_of_listsExactly h
  revert hlen
  decide

end FrozenTable

end Chbackup
