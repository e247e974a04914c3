import Chbackup.Restore.DropScope

/-!
# A table the pre-flight refuses

When staged parts of a table are missing, the pre-flight of ATTACH TABLE mode refuses it: it is
to be neither created nor attached, and all its parts count as skipped.  The phases after the
pre-flight work from lists of their own.  The create and attach phases take the tables the
pre-flight allows; the DROP phase takes every selected key and every database of the manifest,
refused or not.
-/

namespace Chbackup

open CallTree Prog

/-- Whether a call drops, creates, detaches or attaches a table. -/
def Call.affects : Call → LiveTable → Prop
  | .executeDdl (.table db table) _, live => live = (db, table)
  | .detachTableSync _ db table, live => live = (db, table)
  | .attachTable _ db table, live => live = (db, table)
  | .attachPart _ db table _, live => live = (db, table)
  | c, live => c.destroys live

namespace RestoreContext

variable (ctx : RestoreContext)

/-- The pre-flight refuses the table. -/
def Refused (key : Str) : Prop := key ∈ ctx.phases.dataTables ∧ ctx.isRefused key = true

/-- The number of selected parts of a table. -/
def selectedCount (key : Str) : Nat :=
  ((ctx.manifest.tables.get? key).map fun tm => (ctx.env.selectedParts tm).length).getD 0

/-- The tables and objects that the create phases go through. -/
def createdKeys : List Str :=
  ctx.dataTables ++ ctx.phases.postponedTables ++
    topologicalSort ctx.manifest.tables ctx.phases.ddlOnlyTables

/-- The restore has a statement to execute, a plan to follow or a part to attach for a table. -/
def HasWork (key : Str) : Prop :=
  ∃ tm, ctx.manifest.tables.get? key = some tm ∧
    ((ctx.env.args.dataOnly = false ∧ tm.ddl ≠ [] ∧ key ∈ ctx.createdKeys) ∨
      (key ∈ ctx.dataTables ∧ ctx.env.selectedParts tm ≠ [] ∧
        ((ctx.attachPlan? key).isSome = true ∨ ctx.partsToAttach (ctx.freshItem key tm) ≠ [])))

/-! ## What the refusal counts -/

theorem length_resolvedParts (key : Str) (tm : TableManifest) :
    (ctx.resolvedParts key tm).length = (ctx.env.selectedParts tm).length := by
  unfold resolvedParts RestoreEnv.selectedParts TableManifest.allParts SortedMap.values
  rw [List.length_map]
  induction tm.parts.entries with
  | nil => rfl
  | cons e es ih =>
    rw [List.flatMap_cons, List.filter_append, List.length_append, ih, List.map_cons,
      List.flatten_cons, List.filter_append, List.length_append, List.filter_map, List.length_map]
    rfl

variable {ctx}

theorem isRefused_iff {key : Str} : ctx.isRefused key = true ↔
    ∃ missing total, ctx.attachDecision key = some (.refuse missing total) := by
  unfold isRefused
  constructor
  · intro h
    split at h
    · rename_i missing total hd
      exact ⟨missing, total, hd⟩
    · cases h
  · rintro ⟨missing, total, hd⟩
    rw [hd]

/-- A refusal is made for a table with missing parts, and counts all its selected parts. -/
theorem refuse_cases {key : Str} {missing : List Str} {total : Nat}
    (h : ctx.attachDecision key = some (.refuse missing total)) :
    ctx.env.args.schemaOnly = false ∧ 0 < total ∧ total = ctx.selectedCount key := by
  unfold attachDecision at h
  cases htm : ctx.manifest.tables.get? key with
  | none => simp [htm] at h
  | some tm =>
    simp only [htm] at h
    split at h
    · rename_i hcond
      simp only [Bool.and_eq_true, Bool.not_eq_true'] at hcond
      rw [Option.some.injEq] at h
      unfold decideAttachTable at h
      split at h
      · cases h
      · rename_i hmissing
        split at h
        · cases h
          refine ⟨hcond.1.1.2, ?_, ?_⟩
          · rw [List.length_pos_iff]
            intro hnil
            exact hmissing (by rw [hnil]; rfl)
          · rw [selectedCount, htm, ctx.length_resolvedParts]
            rfl
        · cases h
    · cases h

theorem refusedPartsOf_eq {key : Str} :
    ctx.refusedPartsOf key = if ctx.isRefused key then ctx.selectedCount key else 0 := by
  by_cases hr : ctx.isRefused key = true
  · obtain ⟨missing, total, hd⟩ := isRefused_iff.mp hr
    rw [if_pos hr, refusedPartsOf, hd]
    exact (refuse_cases hd).2.2
  · rw [if_neg hr, refusedPartsOf]
    split
    · rename_i missing total hd
      exact absurd (isRefused_iff.mpr ⟨missing, total, hd⟩) hr
    · rfl

/-- **The tally holds the selected parts of every refused table.** -/
theorem refusedParts_eq : ctx.refusedParts =
    ((ctx.phases.dataTables.filter ctx.isRefused).map ctx.selectedCount).sum := by
  unfold refusedParts
  induction ctx.phases.dataTables with
  | nil => rfl
  | cons key keys ih =>
    rw [List.map_cons, List.sum_cons, ih, refusedPartsOf_eq]
    by_cases hr : ctx.isRefused key = true
    · rw [if_pos hr, List.filter_cons_of_pos hr, List.map_cons, List.sum_cons]
    · rw [if_neg hr, List.filter_cons_of_neg hr, Nat.zero_add]

theorem refusedParts_pos {key : Str} (h : ctx.Refused key) :
    ctx.env.args.schemaOnly = false ∧ 0 < ctx.refusedParts := by
  obtain ⟨missing, total, hd⟩ := isRefused_iff.mp h.2
  obtain ⟨hschema, hpos, htotal⟩ := refuse_cases hd
  refine ⟨hschema, ?_⟩
  rw [refusedParts_eq]
  have hmem : ctx.selectedCount key ∈
      (ctx.phases.dataTables.filter ctx.isRefused).map ctx.selectedCount :=
    List.mem_map_of_mem (List.mem_filter.mpr h)
  exact lt_of_lt_of_le (htotal ▸ hpos) (List.single_le_sum (fun _ _ => Nat.zero_le _) _ hmem)

/-- Whatever is returned counts the refused parts as skipped. -/
theorem within_tally (hschema : ctx.env.args.schemaOnly = false) :
    Within (fun _ => True) (fun r => ∃ a s, r = some (a, s) ∧ ctx.refusedParts ≤ s)
      ctx.restoreSelected := by
  refine (within_any _).bind fun _ _ => (within_any _).bind fun _ _ => ?_
  rw [hschema, if_neg Bool.false_ne_true]
  refine (within_any _).bind fun r _ => Within.bind (Q := fun tally : Nat × Nat =>
    ctx.refusedParts ≤ tally.2) ?_ fun tally htally => within_ret ⟨tally.1, tally.2, rfl, htally⟩
  refine (within_any _).bind fun _ _ => (within_any _).bind fun _ _ => (within_any _).bind
    fun _ _ => (within_any _).bind fun _ _ => within_ret ?_
  omega

/-! ## What the other tables lead to -/

/-- A part that an attempt attaches is one that an attempt from scratch attaches. -/
theorem mem_partsToAttach_fresh {item : AttachParams} {tm : TableManifest}
    (hitem : ctx.IsItem item tm) {part : PartInfo} (h : part ∈ ctx.partsToAttach item) :
    part ∈ ctx.partsToAttach (ctx.freshItem item.tableKey tm) := by
  obtain ⟨hwork, hmissing⟩ := List.mem_filter.mp h
  obtain ⟨hsorted, hnew⟩ := List.mem_filter.mp hwork
  have hparts : (ctx.freshItem item.tableKey tm).parts = item.parts := hitem.parts.symm
  have hstaged : ∀ q, ctx.isStaged (ctx.freshItem item.tableKey tm) q = ctx.isStaged item q := by
    intro q
    unfold isStaged partDisk
    rw [hitem.disks]
    rfl
  refine List.mem_filter.mpr ⟨List.mem_filter.mpr ⟨hparts ▸ hsorted, ?_⟩, ?_⟩
  · exact decide_eq_true List.not_mem_nil
  · refine decide_eq_true fun hmem => of_decide_eq_true hmissing ?_
    obtain ⟨q, hq, hname⟩ := List.mem_map.mp hmem
    obtain ⟨hq, hunstaged⟩ := List.mem_filter.mp hq
    rw [hstaged] at hunstaged
    refine List.mem_map.mpr ⟨q, List.mem_filter.mpr ⟨List.mem_filter.mpr ⟨?_, ?_⟩, hunstaged⟩, hname⟩
    · exact hparts ▸ (List.mem_filter.mp hq).1
    · rw [hname]
      exact hnew

theorem mem_phases_dataTables {key : Str} : key ∈ ctx.phases.dataTables ↔ key ∈ ctx.tableKeys ∧
    ∃ tm, ctx.manifest.tables.get? key = some tm ∧ isPostponed ctx.env.toUppercase tm = false ∧
      tm.metadataOnly = false := by
  unfold phases classifyRestoreTables
  rw [mem_sortByKey, List.mem_filter]
  cases ctx.manifest.tables.get? key <;> simp

theorem mem_createdKeys_of_dataTables {key : Str} (h : key ∈ ctx.dataTables) :
    key ∈ ctx.createdKeys :=
  List.mem_append_left _ (List.mem_append_left _ h)

theorem hasWork_of_item {item : AttachParams} {tm : TableManifest} (hitem : ctx.IsItem item tm)
    (h : (ctx.attachPlan? item.tableKey).isSome = true ∨
      ctx.partsToAttach (ctx.freshItem item.tableKey tm) ≠ []) : ctx.HasWork item.tableKey :=
  ⟨tm, hitem.table, Or.inr ⟨hitem.mem, hitem.parts ▸ hitem.nonempty, h⟩⟩

/-- A call that affects a table, other than a DROP, is work for a key with that destination. -/
theorem hasWork_of_affects {c : Call} {live : LiveTable} (h : ctx.Issues c) (hc : c.affects live)
    (hdestroys : ¬ c.destroys live) :
    ∃ key ∈ ctx.createdKeys, destination ctx.remap key = live ∧ ctx.HasWork key := by
  cases h with
  | schema h =>
    cases h with
    | createTable key tm hdata hkey htm hddl =>
      have hcreated : key ∈ ctx.createdKeys := List.mem_append_left _ (List.mem_append.mpr hkey)
      exact ⟨key, hcreated, hc.symm, tm, htm, Or.inl ⟨hdata, hddl, hcreated⟩⟩
    | createObject key tm hdata hkey htm hddl =>
      have hcreated : key ∈ ctx.createdKeys := List.mem_append_right _ hkey
      exact ⟨key, hcreated, hc.symm, tm, htm, Or.inl ⟨hdata, hddl, hcreated⟩⟩
    | _ => exact absurd hc hdestroys
  | data h =>
    cases h with
    | detachTableSync item tm plan hitem hplan =>
      refine ⟨item.tableKey, mem_createdKeys_of_dataTables hitem.mem, hitem.dst.symm.trans hc.symm,
        hasWork_of_item hitem (Or.inl (by rw [hplan]; rfl))⟩
    | attachTable item tm plan hitem hplan =>
      refine ⟨item.tableKey, mem_createdKeys_of_dataTables hitem.mem, hitem.dst.symm.trans hc.symm,
        hasWork_of_item hitem (Or.inl (by rw [hplan]; rfl))⟩
    | byPart item tm hitem h =>
      cases h with
      | attachPart part hpart =>
        refine ⟨item.tableKey, mem_createdKeys_of_dataTables hitem.mem,
          hitem.dst.symm.trans hc.symm, hasWork_of_item hitem (Or.inr ?_)⟩
        exact List.ne_nil_of_mem (mem_partsToAttach_fresh hitem hpart)
      | _ => exact absurd hc hdestroys
    | _ => exact absurd hc hdestroys
  | saveState => exact absurd hc hdestroys

/-! ## What the work comes to -/

theorem reaches_of_createPhase {c : Call} (h : Reaches ctx.createPhase c) :
    Reaches ctx.restoreSelected c :=
  Reaches.bind ctx.yields_dropPhase (Reaches.of_left h)

theorem reaches_of_attachPhase (hschema : ctx.env.args.schemaOnly = false) {c : Call}
    (h : Reaches ctx.attachPhase c) : Reaches ctx.restoreSelected c := by
  refine Reaches.bind ctx.yields_dropPhase (Reaches.bind ctx.yields_createPhase ?_)
  rw [hschema, if_neg Bool.false_ne_true]
  exact Reaches.of_left h

theorem reaches_of_finish (hschema : ctx.env.args.schemaOnly = false) {c : Call}
    (h : ∀ results n, Reaches (ctx.finish results n) c) : Reaches ctx.restoreSelected c := by
  refine Reaches.bind ctx.yields_dropPhase (Reaches.bind ctx.yields_createPhase ?_)
  rw [hschema, if_neg Bool.false_ne_true]
  obtain ⟨r, hr⟩ := ctx.yields_attachPhase
  exact Reaches.bind hr (Reaches.of_left (h _ _))

/-- Every object with a statement has it executed in the phase it is classified into. -/
theorem reaches_create (hschema : ctx.env.args.schemaOnly = false)
    (hdata : ctx.env.args.dataOnly = false) {key : Str} {tm : TableManifest}
    (htm : ctx.manifest.tables.get? key = some tm) (hddl : tm.ddl ≠ [])
    (hkey : key ∈ ctx.createdKeys) :
    ∃ ddl, Reaches ctx.restoreSelected (.executeDdl
      (.table (destination ctx.remap key).1 (destination ctx.remap key).2) ddl) := by
  rcases List.mem_append.mp hkey with hkey | hkey
  · rcases List.mem_append.mp hkey with hkey | hkey
    · refine ⟨ctx.tableDdl key tm, reaches_of_createPhase (Reaches.bind (yields_onlyIf fun _ => ?_)
        (reaches_createTables hdata hkey htm hddl))⟩
      exact ctx.yields_createDatabases
    · refine ⟨ctx.tableDdl key tm, reaches_of_finish hschema fun results n => ?_⟩
      exact Reaches.bind (ctx.yields_reapplyPendingMutations results)
        (Reaches.of_left (reaches_createTables hdata hkey htm hddl))
  · refine ⟨ctx.objectDdl key tm, reaches_of_finish hschema fun results n => ?_⟩
    exact Reaches.bind (ctx.yields_reapplyPendingMutations results) <|
      Reaches.bind (ctx.yields_createTables _)
        (Reaches.of_left (reaches_ddlOnlyPhase hdata hkey htm hddl))

/-- A table with a plan, or with a part to attach, is detached or has the part attached. -/
theorem reaches_attach {item : AttachParams} (hitem : item ∈ ctx.freshItems)
    (hparts : item.parts ≠ [])
    (h : (ctx.attachPlan? item.tableKey).isSome = true ∨ ctx.partsToAttach item ≠ []) :
    ∃ c : Call, c.affects (item.db, item.table) ∧ Reaches ctx.attachPhase c := by
  by_cases hplan : (ctx.attachPlan? item.tableKey).isSome = true
  · refine ⟨.detachTableSync item.tableKey item.db item.table, rfl, ?_⟩
    exact Reaches.bind ctx.yields_gatherItems <| Reaches.bind (ctx.yields_checkReplicas _) <|
      Reaches.of_left (reaches_detachTableSync hitem hplan)
  · obtain ⟨part, hpart⟩ := List.exists_mem_of_ne_nil _ (h.resolve_left hplan)
    refine ⟨.attachPart item.tableKey item.db item.table part.name, rfl, ?_⟩
    refine Reaches.bind ctx.yields_gatherItems <| Reaches.bind (ctx.yields_checkReplicas _) <|
      Reaches.bind (ctx.yields_attachTables _) <| Reaches.of_left ?_
    refine reaches_attachPart (List.mem_filterMap.mpr ⟨.inl item, List.mem_map.mpr
      ⟨item, hitem, ?_⟩, rfl⟩) hparts hpart
    unfold attachedOrLeft
    rw [Option.not_isSome_iff_eq_none.mp hplan]

/-- **Every table with work is affected in some run.** -/
theorem exists_affects_of_hasWork (hschema : ctx.env.args.schemaOnly = false) {key : Str}
    (h : ctx.HasWork key) :
    ∃ c : Call, c.affects (destination ctx.remap key) ∧ Reaches ctx.restoreSelected c := by
  obtain ⟨tm, htm, ⟨hdata, hddl, hkey⟩ | ⟨hkey, hparts, hwork⟩⟩ := h
  · obtain ⟨ddl, hreach⟩ := reaches_create hschema hdata htm hddl hkey
    exact ⟨.executeDdl (.table (destination ctx.remap key).1 (destination ctx.remap key).2) ddl, rfl,
      hreach⟩
  · obtain ⟨c, hc, hreach⟩ := reaches_attach (ctx.mem_freshItems hkey htm hparts) hparts hwork
    exact ⟨c, hc, reaches_of_attachPhase hschema hreach⟩

end RestoreContext

/-! ## The refusal over whole restores -/

/-- What the refusal of a table promises of a run: nothing affects the table, the run does not
succeed, and a run that ends with a tally counts the selected parts of all refused tables. -/
structure RestoreContext.LeavesAlone (ctx : RestoreContext) (key : Str) (t : List RestoreEvent)
    (e : End RestoreError Unit) : Prop where
  untouched : ∀ ev ∈ t, ¬ ev.1.affects (destination ctx.remap key)
  counted : ∀ attached skipped total, e = .failed (.partialRestore attached skipped total) →
    ((ctx.phases.dataTables.filter ctx.isRefused).map ctx.selectedCount).sum ≤ skipped
  not_ok : e ≠ .returned ()

/-- A table, if the pre-flight refuses it, is left alone by every run. -/
def RefusedLeftAlone (env : RestoreEnv) (fate : RestoreFate) (key : Str) : Prop :=
  ∀ ctx, IsContext env fate ctx → ctx.Refused key →
    ∀ t e, Runs (restore env fate) t e → ctx.LeavesAlone key t e

/-- A table, if the pre-flight refuses it, is not dropped with the selection, and no other key
that the restore has work for has the same destination. -/
def RefusalUncontested (env : RestoreEnv) (fate : RestoreFate) (key : Str) : Prop :=
  ∀ ctx, IsContext env fate ctx → ctx.Refused key →
    ¬ (env.args.rm = true ∧ env.args.dataOnly = false) ∧
      ∀ other ∈ ctx.createdKeys, destination ctx.remap other = destination ctx.remap key →
        ¬ ctx.HasWork other

/-- A call that some run issues in the context with no macros is one of the restore. -/
theorem IsContext.reaches {env : RestoreEnv} {fate : RestoreFate} {ctx : RestoreContext}
    (h : IsContext env fate ctx) {c : Call}
    (hc : Reaches (RestoreContext.restoreSelected ⟨env, fate, ctx.manifest, ctx.remap, [],
      SortedMap.empty⟩) c) : Reaches (restore env fate) c :=
  reaches_restore h.manifest h.remap h.selectedKeys_ne SortedMap.empty hc

theorem runs_not_affected {env : RestoreEnv} {fate : RestoreFate} {key : Str}
    {ctx : RestoreContext} (hctx : IsContext env fate ctx) (hrefused : ctx.Refused key)
    (h : RefusalUncontested env fate key) {t : List RestoreEvent} {e : End RestoreError Unit}
    (ht : Runs (restore env fate) t e) (ev : RestoreEvent) (hev : ev ∈ t) :
    ¬ ev.1.affects (destination ctx.remap key) := by
  intro haffects
  rcases ((within_restore env fate).runs ht).1 ev hev with hpre | ⟨ctx', hctx', hissues⟩
  · cases hc : ev.1 <;> simp [hc, Call.isAside, Call.isPreliminary, Call.isMutation, Call.affects, Call.destroys] at hpre haffects
  · have hsame := hctx.same hctx'
    obtain ⟨hnodrop, hother⟩ := h ctx' hctx' (by rw [hsame]; exact hrefused)
    have hremap : ctx'.remap = ctx.remap := by rw [hsame]
    by_cases hdestroys : ev.1.destroys (destination ctx.remap key)
    · rcases RestoreContext.destroys_cases hissues hdestroys with
        ⟨-, hrm, hdata, -⟩ | ⟨-, hrm, hdata, -⟩
      · exact hnodrop ⟨hctx'.env_eq ▸ hrm, hctx'.env_eq ▸ hdata⟩
      · exact hnodrop ⟨hctx'.env_eq ▸ hrm, hctx'.env_eq ▸ hdata⟩
    · obtain ⟨other, hmem, hdst, hwork⟩ :=
        RestoreContext.hasWork_of_affects hissues haffects hdestroys
      exact hother other hmem (by rw [hdst, hremap]) hwork

/-- **A refusal is never silent.**  The restore does not succeed, and its tally counts the parts
of the refused tables. -/
theorem runs_counted {env : RestoreEnv} {fate : RestoreFate} {key : Str} {ctx : RestoreContext}
    (hctx : IsContext env fate ctx) (hrefused : ctx.Refused key) {t : List RestoreEvent}
    {e : End RestoreError Unit} (ht : Runs (restore env fate) t e) :
    e ≠ .returned () ∧ ∀ attached skipped total,
      e = .failed (.partialRestore attached skipped total) → ctx.refusedParts ≤ skipped := by
  rcases hctx.runs_cases ht with rfl | ⟨text, rfl⟩ | ⟨ctx', hctx', tally, -, t₁, t₂, -, -, h₁, h₂⟩
  · exact ⟨fun h => (by cases h), fun _ _ _ h => (by cases h)⟩
  · exact ⟨fun h => (by cases h), fun _ _ _ h => (by cases h)⟩
  · have hsame := hctx.same hctx'
    obtain ⟨hschema, hpos⟩ := RestoreContext.refusedParts_pos hrefused
    have hcount : ctx'.refusedParts = ctx.refusedParts := by
      rw [hsame]
      rfl
    obtain ⟨attached, skipped, rfl, hle⟩ :=
      ((RestoreContext.within_tally (by rw [hsame]; exact hschema)).runs h₁).2 _ rfl
    rw [hcount] at hle
    have hskipped : 0 < skipped := by omega
    rw [RestoreContext.verdict, if_pos hskipped] at h₂
    cases h₂ with
    | fail =>
      refine ⟨fun h => (by cases h), fun _ _ _ h => ?_⟩
      cases h
      exact hle
    | cut => exact ⟨fun h => (by cases h), fun _ _ _ h => (by cases h)⟩

/-- A table that is left alone is not contested. -/
theorem refusalUncontested_of_leftAlone {env : RestoreEnv} {fate : RestoreFate} {key : Str}
    (h : RefusedLeftAlone env fate key) : RefusalUncontested env fate key := by
  intro ctx hctx hrefused
  -- any other context of the restore would do; this one is reached whatever the server says
  let plain : RestoreContext := ⟨env, fate, ctx.manifest, ctx.remap, [], SortedMap.empty⟩
  have hplain : IsContext env fate plain :=
    ⟨rfl, rfl, hctx.manifest, hctx.remap, hctx.selectedKeys_ne⟩
  have hsame := hplain.same hctx
  have huntouched : ∀ c : Call, c.affects (destination ctx.remap key) →
      ¬ Reaches plain.restoreSelected c := by
    intro c hc hreach
    obtain ⟨t, e, ht, ev, hev, rfl⟩ := hctx.reaches hreach
    exact (h ctx hctx hrefused t e ht).untouched ev hev hc
  refine ⟨fun hdrop => ?_, fun other hother hdst hwork => ?_⟩
  · have hkey := (RestoreContext.mem_phases_dataTables.mp hrefused.1).1
    rw [hsame] at hkey
    have hreach : Reaches plain.dropPhase _ :=
      RestoreContext.reaches_dropTable hdrop.1 hdrop.2 hkey
    exact huntouched (.dropTable (destination ctx.remap key).1 (destination ctx.remap key).2
      (plain.clusterFor (destination ctx.remap key).1)) rfl hreach.of_left
  · rw [hsame] at hwork
    have hschema := (RestoreContext.refusedParts_pos hrefused).1
    rw [hctx.env_eq] at hschema
    obtain ⟨c, hc, hreach⟩ : ∃ c : Call, c.affects (destination plain.remap other) ∧
        Reaches plain.restoreSelected c := RestoreContext.exists_affects_of_hasWork hschema hwork
    exact huntouched c (hdst ▸ hc) hreach

/-- **The pre-flight's refusal is respected iff nothing contests it.** -/
theorem refused_left_alone_iff (env : RestoreEnv) (fate : RestoreFate) (key : Str) :
    RefusedLeftAlone env fate key ↔ RefusalUncontested env fate key := by
  refine ⟨refusalUncontested_of_leftAlone, fun h ctx hctx hrefused t e ht => ?_⟩
  obtain ⟨hnot, hcounted⟩ := runs_counted hctx hrefused ht
  refine ⟨runs_not_affected hctx hrefused h ht, fun a s n he => ?_, hnot⟩
  rw [← RestoreContext.refusedParts_eq]
  exact hcounted a s n he

/-- **A refused table is dropped.**  The part of the table is not staged, so the pre-flight
refuses the table; `--rm` drops it all the same. -/
theorem refused_table_is_dropped :
    ¬ RefusedLeftAlone (plainEnv { (default : RestoreConfig) with
        restoreAsAttach := true, attachTableRequireComplete := true }
      { (default : RestoreArgs) with tablePattern := some "db.t", rm := true } replicatedManifest)
      { plainFate with pathExists := fun _ => false } "db.t" := by
  intro h
  refine (refusalUncontested_of_leftAlone h ⟨_, _, replicatedManifest, none, [], SortedMap.empty⟩
    ⟨rfl, rfl, rfl, by decide +kernel, by decide +kernel⟩ ?_).1 ⟨rfl, rfl⟩
  exact ⟨by decide +kernel, by decide +kernel⟩

end Chbackup
