import Chbackup.Lib.Guarantee
import Chbackup.Restore.Fallback
import Chbackup.Restore.Partitions

/-!
# The order of attaching

Parts are attached in the order of their blocks, so that an engine for which later rows win sees the
later rows later (`src/restore/sort.rs`).  The order is read off the names of the parts.

* `fromPartName_four`, `fromPartName_five`: a name is read back, with and without a data version;
* `comparePartNames_eq`: the comparison of names is that of their ranks in a linear order;
* `attachesIn_attachPartsInner`: the attaches of a run for a sequential engine come in the sorted order.
-/

namespace Chbackup

open CallTree Prog

/-! ## Names of parts -/

/-- The name of a part without a data version. -/
def partName (partition : Str) (min max level : Nat) : Str :=
  partition ++ '_' :: decimal min ++ '_' :: decimal max ++ '_' :: decimal level

/-- The name of a part with a data version. -/
def versionedPartName (partition : Str) (min max level version : Nat) : Str :=
  partName partition min max level ++ '_' :: decimal version

section Names

variable {partition : Str} {min max level version : Nat}

theorem fromPartName_four (hunder : '_' ∉ partition) (hmin : min < 2 ^ 64) (hmax : max < 2 ^ 64) :
    PartSortKey.fromPartName (partName partition min max level) = some ⟨partition, min, max⟩ := by
  have hfive : Str.rsplitN 4 '_' (partName partition min max level) =
      [decimal level, decimal max, decimal min, partition] := by
    rw [partName, rsplitN_blocks, Str.rsplitN_of_notMem hunder]
  have hfour : Str.rsplitN 3 '_' (partName partition min max level) =
      [decimal level, decimal max, decimal min, partition] := by
    rw [partName, rsplitN_blocks, rsplitN_zero]
  simp only [PartSortKey.fromPartName, hfive, hfour, parseUnsigned_decimal hmin,
    parseUnsigned_decimal hmax]
  rfl

theorem fromPartName_five (hmin : min < 2 ^ 64) (hmax : max < 2 ^ 64) (hlevel : level < 2 ^ 64)
    (hversion : version < 2 ^ 64) :
    PartSortKey.fromPartName (versionedPartName partition min max level version) =
      some ⟨partition, min, max⟩ := by
  have hpieces : Str.rsplitN 4 '_' (versionedPartName partition min max level version) =
      [decimal version, decimal level, decimal max, decimal min, partition] := by
    rw [versionedPartName, Str.rsplitN_append (underscore_notMem_decimal version), partName,
      rsplitN_blocks, rsplitN_zero]
  simp only [PartSortKey.fromPartName, hpieces, parseUnsigned_decimal hversion,
    parseUnsigned_decimal hlevel, parseUnsigned_decimal hmax, parseUnsigned_decimal hmin]
  rfl

end Names

/-! ## The comparison -/

/-- The comparator of `sort_parts_by_min_block`. -/
def comparePartNames (a b : Str) : Ordering :=
  match PartSortKey.fromPartName a, PartSortKey.fromPartName b with
  | some ka, some kb => (cmp ka.partition kb.partition).then (cmp ka.minBlock kb.minBlock)
  | some _, none => .lt
  | none, some _ => .gt
  | none, none => cmp a b

/-- The place of a name in the order: unreadable names come last, by their texts. -/
def partRank (name : Str) : Bool ×ₗ Str ×ₗ Nat :=
  match PartSortKey.fromPartName name with
  | some key => toLex (false, toLex (key.partition, key.minBlock))
  | none => toLex (true, toLex (name, 0))

theorem cmp_toLex {α β : Type} [LinearOrder α] [LinearOrder β] (a a' : α) (b b' : β) :
    cmp (toLex (a, b)) (toLex (a', b')) = (cmp a a').then (cmp b b') := by
  rcases lt_trichotomy a a' with h | rfl | h
  · rw [(cmp_eq_lt_iff a a').mpr h, (cmp_eq_lt_iff _ _).mpr (Prod.Lex.toLex_lt_toLex.mpr (.inl h))]
    rfl
  · rw [cmp_self_eq_eq]
    rcases lt_trichotomy b b' with h | rfl | h
    · have hlt : toLex (a, b) < toLex (a, b') := Prod.Lex.toLex_lt_toLex.mpr (.inr ⟨rfl, h⟩)
      rw [(cmp_eq_lt_iff b b').mpr h, (cmp_eq_lt_iff _ _).mpr hlt]
      rfl
    · rw [cmp_self_eq_eq, cmp_self_eq_eq]
      rfl
    · have hlt : toLex (a, b') < toLex (a, b) := Prod.Lex.toLex_lt_toLex.mpr (.inr ⟨rfl, h⟩)
      rw [(cmp_eq_gt_iff b b').mpr h, (cmp_eq_gt_iff _ _).mpr hlt]
      rfl
  · rw [(cmp_eq_gt_iff _ _).mpr h, (cmp_eq_gt_iff _ _).mpr (Prod.Lex.toLex_lt_toLex.mpr (.inl h))]
    rfl

theorem comparePartNames_eq (a b : Str) :
    comparePartNames a b = cmp (partRank a) (partRank b) := by
  rw [comparePartNames, partRank, partRank]
  cases PartSortKey.fromPartName a with
  | some ka =>
    cases PartSortKey.fromPartName b with
    | some kb =>
      dsimp only
      rw [cmp_toLex, cmp_toLex, cmp_self_eq_eq]
      have hthen : ∀ o, Ordering.eq.then o = o := fun _ => rfl
      rw [hthen]
      congr
    | none =>
      dsimp only
      rw [cmp_toLex, (cmp_eq_lt_iff false true).mpr Bool.false_lt_true]
      rfl
  | none =>
    cases PartSortKey.fromPartName b with
    | some kb =>
      dsimp only
      rw [cmp_toLex, (cmp_eq_gt_iff true false).mpr Bool.false_lt_true]
      rfl
    | none =>
      dsimp only
      rw [cmp_toLex, cmp_toLex, cmp_self_eq_eq, cmp_self_eq_eq]
      show cmp a b = Ordering.then _ .eq
      rw [Ordering.then_eq]
      congr

theorem partLe_iff (a b : PartInfo) : partLe a b = true ↔ partRank a.name ≤ partRank b.name := by
  rw [partLe, partRank, partRank]
  cases PartSortKey.fromPartName a.name with
  | some ka =>
    cases PartSortKey.fromPartName b.name with
    | some kb => simp [Prod.Lex.toLex_le_toLex]
    | none => simp [Prod.Lex.toLex_le_toLex]
  | none =>
    cases PartSortKey.fromPartName b.name with
    | some kb => simp [Prod.Lex.toLex_le_toLex]
    | none =>
      simp only [Prod.Lex.toLex_le_toLex, lt_irrefl, true_and, false_or, le_refl, and_true,
        decide_eq_true_eq]
      exact le_iff_lt_or_eq

/-- The sort compares as the comparator does. -/
theorem partLe_eq (a b : PartInfo) : partLe a b = decide (comparePartNames a.name b.name ≠ .gt) := by
  rw [comparePartNames_eq, Bool.eq_iff_iff, partLe_iff, decide_eq_true_iff, ne_eq, cmp_eq_gt_iff, not_lt]

/-- A part may be attached before another: in a partition by the first block, and a part with an
unreadable name last. -/
def MayPrecede (a b : Str) : Prop :=
  match PartSortKey.fromPartName a, PartSortKey.fromPartName b with
  | some ka, some kb =>
    ka.partition < kb.partition ∨ ka.partition = kb.partition ∧ ka.minBlock ≤ kb.minBlock
  | none, some _ => False
  | _, none => True

theorem mayPrecede_of_le {a b : Str} (h : partRank a ≤ partRank b) : MayPrecede a b := by
  rw [partRank, partRank] at h
  rw [MayPrecede]
  cases ha : PartSortKey.fromPartName a with
  | some ka =>
    cases hb : PartSortKey.fromPartName b with
    | some kb =>
      rw [ha, hb] at h
      simpa [Prod.Lex.toLex_le_toLex] using h
    | none => trivial
  | none =>
    cases hb : PartSortKey.fromPartName b with
    | some kb =>
      rw [ha, hb, Prod.Lex.toLex_le_toLex] at h
      exact absurd h (by simp)
    | none => trivial

theorem sorted_sortPartsByMinBlock (parts : List PartInfo) :
    (sortPartsByMinBlock parts).Pairwise fun a b => MayPrecede a.name b.name := by
  have hsorted : (parts.mergeSort partLe).Pairwise fun a b => partLe a b = true := List.pairwise_mergeSort
    (fun a b c hab hbc => (partLe_iff a c).mpr
      (((partLe_iff a b).mp hab).trans ((partLe_iff b c).mp hbc)))
    (fun a b => by
      rw [Bool.or_eq_true, partLe_iff, partLe_iff]
      exact le_total _ _) parts
  exact hsorted.imp fun h => mayPrecede_of_le ((partLe_iff _ _).mp h)

/-! ## The attaches of a run -/

namespace RestoreContext

variable {ctx : RestoreContext} {params : AttachParams} {α β : Type}

/-- In every run of the program, wherever it ends, the parts that are attached are some of these, in
this order. -/
def AttachesIn (names : List Str) (p : RestoreProg α) : Prop :=
  ∀ t e, Runs p t e → (t.filterMap attachedName?).Sublist names

theorem attachesIn_of_within {p : RestoreProg α}
    (hp : Within (fun c => ∀ key db table part, c ≠ .attachPart key db table part) Any p) :
    AttachesIn [] p := by
  intro t e h
  rw [List.filterMap_eq_nil_iff.mpr fun ev hev => ?_]
  have hc := (hp.runs h).1 ev hev
  obtain ⟨c, r⟩ := ev
  cases c with
  | attachPart key db table part => exact absurd rfl (hc key db table part)
  | _ => rfl

theorem AttachesIn.bind {names₁ names₂ : List Str} {p : RestoreProg α} {f : α → RestoreProg β}
    (hp : AttachesIn names₁ p) (hf : ∀ a, AttachesIn names₂ (f a)) :
    AttachesIn (names₁ ++ names₂) (p.bind f) := by
  intro t e h
  rcases h.of_bind with ⟨a, t₁, t₂, rfl, h₁, h₂⟩ | ⟨rfl, h₁⟩ | ⟨x, rfl, h₁⟩
  · rw [List.filterMap_append]
    exact (hp _ _ h₁).append (hf a _ _ h₂)
  · exact (hp _ _ h₁).trans (List.sublist_append_left _ _)
  · exact (hp _ _ h₁).trans (List.sublist_append_left _ _)

/-- A loop attaches in the order of its elements. -/
theorem attachesIn_forEach {γ : Type} {xs : List γ} {name : γ → Str} {f : γ → RestoreProg β}
    (hf : ∀ x, AttachesIn [name x] (f x)) : AttachesIn (xs.map name) (forEach xs f) := by
  intro t e h
  obtain ⟨us, rfl, hstarts, hruns, -⟩ := h.parts_of_forEach
  have hsub : ((us.flatMap fun u => u.2.1).filterMap attachedName?).Sublist
      ((us.map Prod.fst).map name) := by
    clear hstarts h
    induction us with
    | nil => exact List.Sublist.refl []
    | cons u us ih =>
      rw [List.flatMap_cons, List.filterMap_append]
      exact (hf _ _ _ (hruns u List.mem_cons_self)).append
        (ih fun v hv => hruns v (List.mem_cons_of_mem u hv))
  exact hsub.trans (hstarts.sublist.map name)

theorem attachesIn_attachPart (name : Str) : AttachesIn [name] (ctx.attachPart params name) := by
  intro t e h
  cases h with
  | cut => exact List.nil_sublist _
  | @call _ _ u _ r h =>
    -- what follows the reply records the part
    have hquiet : u.filterMap attachedName? = [] := by
      refine List.sublist_nil.mp (attachesIn_of_within ?_ _ _ h)
      cases r with
      | ok =>
        refine (within_onlyIf (Q := Any) (fun _ => ?_) trivial).bind fun _ _ => within_ret trivial
        exact within_perform (fun _ _ _ _ h => by cases h) fun _ => within_ret trivial
      | error err =>
        dsimp only [ret_bind]
        split
        · exact within_fail _
        · exact within_ret trivial
    show (name :: u.filterMap attachedName?).Sublist [name]
    rw [hquiet]

/-- **Parts that are attached one after the other are attached in the sorted order.** -/
theorem attachesIn_attachPartsInner
    (hseq : (needsSequentialAttach params.engine || params.engine.isEmpty) = true) :
    AttachesIn ((sortPartsByMinBlock params.parts).map PartInfo.name)
      (ctx.attachPartsInner params) := by
  have hattach : AttachesIn ((ctx.partsToAttach params).map PartInfo.name)
      (ctx.attachAll params (ctx.partsToAttach params)) := by
    rw [attachAll, if_pos hseq]
    exact attachesIn_forEach fun part => attachesIn_attachPart part.name
  have hprepare : AttachesIn [] (forEach (workParts params) (ctx.preparePart params)) := by
    refine attachesIn_of_within <| (within_forEach (Q := fun _ => Any) fun part _ => ?_).imp
      fun _ _ => trivial
    unfold preparePart
    split
    · exact within_ret trivial
    · split
      · exact within_ret trivial
      · exact within_perform (fun _ _ _ _ h => by cases h) fun _ => within_orFail fun _ _ => trivial
  have hwork : ((ctx.partsToAttach params).map PartInfo.name).Sublist
      ((sortPartsByMinBlock params.parts).map PartInfo.name) :=
    (List.filter_sublist.trans List.filter_sublist).map _
  have hquiet : ∀ {α : Type} {a : α}, AttachesIn [] (.ret a : RestoreProg α) := fun {_ _} =>
    attachesIn_of_within (within_ret trivial)
  intro t e h
  refine List.Sublist.trans ?_ hwork
  revert t e
  show AttachesIn ((ctx.partsToAttach params).map PartInfo.name) (ctx.attachPartsInner params)
  unfold attachPartsInner
  split
  · exact fun t e h => (hquiet t e h).trans (List.nil_sublist _)
  · have hcreate : ∀ dir, AttachesIn [] (perform (Call.createDetachedDir dir) : RestoreProg _) :=
      fun dir => attachesIn_of_within <| within_call (fun _ _ _ _ h => by cases h)
        fun _ => within_ret trivial
    refine (hcreate _).bind fun reply => @AttachesIn.bind _ _ [] _ _ _ ?_ fun _ =>
      hprepare.bind fun _ => ?_
    · exact attachesIn_of_within (within_orFail fun _ _ => trivial)
    · rw [← List.append_nil (List.map _ _)]
      exact hattach.bind fun outcomes => hquiet

end RestoreContext

/-- **Parts are attached in the order of their blocks.**  Names are read back, the comparison of names is
a total preorder, the sort orders by partition and first block, and in every run for an engine that is
attached sequentially the blocks of each partition arrive in increasing order. -/
theorem attach_order_is_block_order :
    (∀ partition min max level version, '_' ∉ partition → min < 2 ^ 64 → max < 2 ^ 64 →
      level < 2 ^ 64 → version < 2 ^ 64 →
        PartSortKey.fromPartName (partName partition min max level) = some ⟨partition, min, max⟩ ∧
        PartSortKey.fromPartName (versionedPartName partition min max level version) =
          some ⟨partition, min, max⟩) ∧
    ((∀ a b, (comparePartNames a b).swap = comparePartNames b a) ∧
      ∀ a b c, comparePartNames a b ≠ .gt → comparePartNames b c ≠ .gt → comparePartNames a c ≠ .gt) ∧
    (∀ parts, (sortPartsByMinBlock parts).Perm parts ∧
      (sortPartsByMinBlock parts).Pairwise fun a b => MayPrecede a.name b.name) ∧
    ∀ (ctx : RestoreContext) (params : AttachParams) t e,
      (needsSequentialAttach params.engine || params.engine.isEmpty) = true →
      Runs (ctx.attachPartsInner params) t e →
        (t.filterMap RestoreContext.attachedName?).Pairwise fun a b => ∀ ka kb,
          PartSortKey.fromPartName a = some ka → PartSortKey.fromPartName b = some kb →
            ka.partition = kb.partition → ka.minBlock ≤ kb.minBlock := by
  refine ⟨fun partition min max level version hunder hmin hmax hlevel hversion => ?_, ⟨?_, ?_⟩, ?_, ?_⟩
  · exact ⟨fromPartName_four hunder hmin hmax, fromPartName_five hmin hmax hlevel hversion⟩
  · intro a b
    rw [comparePartNames_eq, comparePartNames_eq, cmp_swap]
  · intro a b c hab hbc
    rw [comparePartNames_eq, ne_eq, cmp_eq_gt_iff, not_lt] at hab hbc ⊢
    exact hab.trans hbc
  · exact fun parts => ⟨sortPartsByMinBlock_perm parts, sorted_sortPartsByMinBlock parts⟩
  · intro ctx params t e hseq h
    have hsorted : ((sortPartsByMinBlock params.parts).map PartInfo.name).Pairwise MayPrecede :=
      List.pairwise_map.mpr (sorted_sortPartsByMinBlock params.parts)
    refine (hsorted.sublist (RestoreContext.attachesIn_attachPartsInner hseq t e h)).imp ?_
    intro a b hab ka kb ha hb hpartition
    rw [MayPrecede, ha, hb] at hab
    rcases hab with hlt | ⟨-, hle⟩
    · exact absurd hpartition (ne_of_lt hlt)
    · exact hle

/-- A restore of plain tables. -/
def plainContext : RestoreContext :=
  ⟨plainEnv default default (default : BackupManifest), plainFate, default, none, [], SortedMap.empty⟩

/-- Two parts of a table whose engine keeps the later rows, in the order of their names. -/
def replacingParams : AttachParams where
  tableKey := "db.t"
  db := "db"
  table := "t"
  parts := [PartInfo.new "all_10_10_0" 1 1, PartInfo.new "all_9_9_0" 1 2]
  tableDataPath := "/data"
  tableUuid := none
  engine := "ReplacingMergeTree"
  partsByDisk := SortedMap.empty
  alreadyAttached := []
  hasS3Client := false

theorem workParts_replacing :
    RestoreContext.workParts replacingParams = [PartInfo.new "all_9_9_0" 1 2, PartInfo.new "all_10_10_0" 1 1] := by
  have hsort : ∀ a b, partLe a b = false → sortPartsByMinBlock [a, b] = [b, a] := by
    intro a b hafter
    simp [sortPartsByMinBlock, List.mergeSort, hafter]
  rw [RestoreContext.workParts, show replacingParams.parts = [_, _] from rfl, hsort _ _ (by decide +kernel)]
  decide +kernel

/-- The parts are attached by their blocks. -/
theorem replacing_parts_attached_by_block :
    ((traceOn smooth (plainContext.attachPartsInner replacingParams)).filterMap RestoreContext.attachedName? =
      ["all_9_9_0".toList, "all_10_10_0".toList]) ∧
    ((traceOn smooth (plainContext.attachPartsInner replacingParams)).filterMap
      RestoreContext.attachedName?).Pairwise fun a b => ∀ ka kb, PartSortKey.fromPartName a = some ka →
        PartSortKey.fromPartName b = some kb → ka.partition = kb.partition → ka.minBlock ≤ kb.minBlock := by
  refine ⟨?_, attach_order_is_block_order.2.2.2 plainContext replacingParams _ _ (by decide +kernel)
    (runs_on smooth _)⟩
  have hmissing : plainContext.missingSourceParts replacingParams = [] := by
    rw [RestoreContext.missingSourceParts, workParts_replacing]
    decide +kernel
  rw [RestoreContext.attachPartsInner, RestoreContext.partsToAttach, hmissing, workParts_replacing]
  decide +kernel

end Chbackup
