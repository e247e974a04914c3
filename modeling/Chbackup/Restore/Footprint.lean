import Chbackup.Restore.Restore

/-!
# What a restore can do

`Issues` lists the calls an attempt can make once its selection is fixed, each with the
circumstances under which it is made.  `within_restoreSelected` is the one place where the
program is walked through: every statement about what a restore leaves alone is read off the
list.
-/

namespace Chbackup

open CallTree Prog

/-! ## The retry loop -/

theorem mem_of_mem_failures {results : List (Str × Tried)} {f : Str × Str}
    (h : f ∈ failures results) : f.1 ∈ results.map Prod.fst := by
  obtain ⟨r, hr, hf⟩ := List.mem_filterMap.mp h
  split at hf
  · cases hf
    exact List.mem_map_of_mem hr
  · cases hf

theorem within_retryLoop {P : Call → Prop} {isPrintable : Char → Bool} {opName : Str} {tryOne : Str → RestoreProg Tried}
    {rounds : Nat} {pending : List Str}
    (h : ∀ key ∈ pending, Within P (fun _ => True) (tryOne key)) :
    Within P (fun _ => True) (retryLoop isPrintable opName tryOne rounds pending) := by
  induction rounds generalizing pending with
  | zero =>
    rw [retryLoop]
    split
    · exact within_ret trivial
    · exact within_fail _
  | succ rounds ih =>
    rw [retryLoop]
    have hround : ∀ key ∈ pending, Within P (fun r : Str × Tried => r.1 = key)
        ((tryOne key).bind fun r => .ret (key, r)) :=
      fun key hkey => (h key hkey).bind fun _ _ => within_ret rfl
    refine (within_forEach hround).bind fun results hresults => ?_
    dsimp only
    split_ifs
    · exact within_ret trivial
    · exact within_fail _
    · refine ih fun key hkey => h key ?_
      obtain ⟨f, hf, rfl⟩ := List.mem_map.mp hkey
      obtain ⟨r, hr, hfr⟩ := List.mem_map.mp (mem_of_mem_failures hf)
      obtain ⟨key, hkey, hrk⟩ := exists_of_forall₂ hresults hr
      rw [← hfr, hrk]
      exact hkey

/-- The calls that re-apply mutations. -/
def Call.isMutation : Call → Bool
  | .executeMutation _ => true
  | .reportMutation .. => true
  | _ => false

namespace RestoreContext

variable (ctx : RestoreContext)

/-- The macros with which the ZooKeeper conflict of a table is looked for. -/
def conflictMacros (tableKey : Str) (tm : TableManifest) : SortedMap Str Str :=
  withMacro (withMacro (withMacro ctx.macros "database" (some (destination ctx.remap tableKey).1))
    "table" (some (destination ctx.remap tableKey).2)) "uuid" tm.uuid

/-- A table whose parts are to be attached, as the data phase describes it. -/
structure IsItem (item : AttachParams) (tm : TableManifest) : Prop where
  mem : item.tableKey ∈ ctx.dataTables
  table : ctx.manifest.tables.get? item.tableKey = some tm
  dst : (item.db, item.table) = destination ctx.remap item.tableKey
  parts : item.parts = ctx.env.selectedParts tm
  nonempty : item.parts ≠ []
  engine : item.engine = tm.engine
  disks : item.partsByDisk = tm.parts

/-- The calls of the schema phases, with the circumstances under which they are made. -/
inductive SchemaCall : Call → Prop where
  | dropTable (key : Str) (cluster : Option Str) (hrm : ctx.env.args.rm = true)
      (hdata : ctx.env.args.dataOnly = false) (hkey : key ∈ ctx.tableKeys) :
      SchemaCall (.dropTable (destination ctx.remap key).1 (destination ctx.remap key).2 cluster)
  | dropDatabase (db : DatabaseInfo) (cluster : Option Str) (hrm : ctx.env.args.rm = true)
      (hdata : ctx.env.args.dataOnly = false) (hdb : db ∈ ctx.manifest.databases)
      (hsystem : destinationDatabase ctx.remap db.name ∉ systemDatabases) :
      SchemaCall (.dropDatabase (destinationDatabase ctx.remap db.name) cluster)
  | databaseExists (db : Str) : SchemaCall (.databaseExists db)
  | createDatabase (db ddl : Str) : SchemaCall (.executeDdl (.database db) ddl)
  | tableExists (db table : Str) : SchemaCall (.tableExists db table)
  | createTable (key : Str) (tm : TableManifest) (hdata : ctx.env.args.dataOnly = false)
      (hkey : key ∈ ctx.dataTables ∨ key ∈ ctx.phases.postponedTables)
      (htm : ctx.manifest.tables.get? key = some tm) (hddl : tm.ddl ≠ []) :
      SchemaCall (.executeDdl (.table (destination ctx.remap key).1 (destination ctx.remap key).2)
        (ctx.tableDdl key tm))
  | createObject (key : Str) (tm : TableManifest) (hdata : ctx.env.args.dataOnly = false)
      (hkey : key ∈ topologicalSort ctx.manifest.tables ctx.phases.ddlOnlyTables)
      (htm : ctx.manifest.tables.get? key = some tm) (hddl : tm.ddl ≠ []) :
      SchemaCall (.executeDdl (.table (destination ctx.remap key).1 (destination ctx.remap key).2)
        (ctx.objectDdl key tm))
  | createFunction (ddl : Str) : SchemaCall (.executeDdl .function ddl)
  | checkZkReplicaExists (path replica : Str) : SchemaCall (.checkZkReplicaExists path replica)
  | dropConflict (key : Str) (tm : TableManifest) (path replica : Str)
      (hdata : ctx.env.args.dataOnly = false)
      (hkey : key ∈ ctx.dataTables ∨ key ∈ ctx.phases.postponedTables)
      (htm : ctx.manifest.tables.get? key = some tm) (hddl : tm.ddl ≠ [])
      (hengine : isReplicatedEngine tm.engine = true)
      (hparse : parseReplicatedParams (ctx.tableDdl key tm) = some (path, replica)) :
      SchemaCall (.dropReplicaFromZkpath key (ctx.resolve replica (ctx.conflictMacros key tm))
        (ctx.resolve path (ctx.conflictMacros key tm)))
  | extra (what : Extra) : SchemaCall (.extra what)

/-- The calls that attach the parts of one table, part by part. -/
inductive AttachCall (item : AttachParams) : Call → Prop where
  | restoreS3DiskParts : AttachCall item (.restoreS3DiskParts item.tableKey)
  | createDetachedDir (path : Str) : AttachCall item (.createDetachedDir path)
  | stagePart (part source path : Str) : AttachCall item (.stagePart item.tableKey part source path)
  | attachPart (part : PartInfo) (hpart : part ∈ ctx.partsToAttach item) :
      AttachCall item (.attachPart item.tableKey item.db item.table part.name)
  | recordAttached (part : PartInfo) (hpart : part ∈ ctx.partsToAttach item) :
      AttachCall item (.recordAttached (resumeKey item.tableKey) part.name)

/-- The calls of the data phase, with the circumstances under which they are made. -/
inductive DataCall : Call → Prop where
  | loadState : DataCall .loadState
  | querySystemParts (key db table : Str) : DataCall (.querySystemParts key db table)
  | listTables : DataCall .listTables
  | newS3Client : DataCall .newS3Client
  | startTracker (state : RestoreState) : DataCall (.startTracker state)
  | checkReplicaSync (db table : Str) : DataCall (.checkReplicaSync db table)
  | detachTableSync (item : AttachParams) (tm : TableManifest) (plan : CompleteAttachPlan × Nat)
      (hitem : ctx.IsItem item tm) (hplan : ctx.attachPlan? item.tableKey = some plan) :
      DataCall (.detachTableSync item.tableKey item.db item.table)
  | dropOldReplica (item : AttachParams) (tm : TableManifest) (plan : CompleteAttachPlan × Nat)
      (path replica : Str) (hitem : ctx.IsItem item tm)
      (hplan : ctx.attachPlan? item.tableKey = some plan)
      (hparse : parseReplicatedParams tm.ddl = some (path, replica)) :
      DataCall (.dropReplicaFromZkpath item.tableKey (ctx.resolve replica ctx.macros)
        (ctx.resolve path ctx.macros))
  | dirExists (key part path : Str) : DataCall (.dirExists key part path)
  | linkPart (key part source path : Str) : DataCall (.linkPart key part source path)
  | attachTable (item : AttachParams) (tm : TableManifest) (plan : CompleteAttachPlan × Nat)
      (hitem : ctx.IsItem item tm) (hplan : ctx.attachPlan? item.tableKey = some plan) :
      DataCall (.attachTable item.tableKey item.db item.table)
  | systemRestoreReplica (key db table : Str) : DataCall (.systemRestoreReplica key db table)
  | isCancelled : DataCall .isCancelled
  | byPart {c : Call} (item : AttachParams) (tm : TableManifest) (hitem : ctx.IsItem item tm)
      (hc : ctx.AttachCall item c) : DataCall c

/-- The calls of an attempt that acts on its selection, but for those that re-apply mutations. -/
inductive Issues : Call → Prop where
  | schema {c : Call} (h : ctx.SchemaCall c) : Issues c
  | data {c : Call} (h : ctx.DataCall c) : Issues c
  | saveState (state : RestoreState) : Issues (.saveState state)

variable {ctx}

/-- Nothing is said about the value. -/
abbrev Any {α : Type} : α → Prop := fun _ => True

/-! ## The schema phases -/

theorem within_dropPhase : Within ctx.SchemaCall Any ctx.dropPhase := by
  refine within_onlyIf (fun hb => ?_) trivial
  obtain ⟨hrm, hdata⟩ : ctx.env.args.rm = true ∧ ctx.env.args.dataOnly = false := by
    simpa using hb
  refine Within.bind (Q := Any) ?_ fun _ _ => ?_
  · unfold dropTables
    split
    · exact within_ret trivial
    · refine within_retryLoop fun key hkey => within_perform ?_ fun r => ?_
      · exact SchemaCall.dropTable key _ hrm hdata (mem_sortByKey.mp hkey)
      · cases r <;> exact within_ret trivial
  · -- the loop only ever looks at databases of the manifest
    have hloop : ∀ dbs : List DatabaseInfo, (∀ db ∈ dbs, db ∈ ctx.manifest.databases) →
        ∀ dropped, Within ctx.SchemaCall Any (ctx.dropDatabasesLoop dbs dropped) := by
      intro dbs
      induction dbs with
      | nil => exact fun _ _ => within_ret trivial
      | cons db dbs ih =>
        intro hmem dropped
        have hrest := ih fun d hd => hmem d (List.mem_cons_of_mem _ hd)
        rw [dropDatabasesLoop]
        split
        · exact hrest _
        · rename_i hnot
          refine within_perform ?_ fun r => ?_
          · exact SchemaCall.dropDatabase db _ hrm hdata (hmem db List.mem_cons_self)
              fun h => hnot (Or.inl h)
          · cases r <;> exact hrest _
    exact hloop _ (fun _ h => h) _

theorem within_createDatabaseWithCluster (db : DatabaseInfo) :
    Within ctx.SchemaCall Any (ctx.createDatabaseWithCluster db) := by
  refine within_perform (SchemaCall.databaseExists _) fun r => ?_
  refine (within_orFail (Q := Any) fun _ _ => trivial).bind fun found _ => ?_
  split
  · exact within_ret trivial
  · exact within_perform (SchemaCall.createDatabase _ _) fun _ => within_orFail fun _ _ => trivial

theorem within_createDatabases : Within ctx.SchemaCall Any ctx.createDatabases := by
  unfold createDatabases
  split
  · have hloop : ∀ (dbs : List DatabaseInfo) (created : List Str),
        Within ctx.SchemaCall Any (ctx.createDatabasesLoop dbs created) := by
      intro dbs
      induction dbs with
      | nil => exact fun _ => within_ret trivial
      | cons db dbs ih =>
        intro created
        rw [createDatabasesLoop]
        split
        · exact ih _
        · exact (within_createDatabaseWithCluster _).bind fun _ _ => ih _
    exact hloop _ _
  · exact (within_forEach fun db _ => within_createDatabaseWithCluster db).bind
      fun _ _ => within_ret trivial

theorem within_createTable {key : Str} (hdata : ctx.env.args.dataOnly = false)
    (hkey : key ∈ ctx.dataTables ∨ key ∈ ctx.phases.postponedTables) :
    Within ctx.SchemaCall Any (ctx.createTable key) := by
  unfold createTable
  cases htm : ctx.manifest.tables.get? key with
  | none => exact within_ret trivial
  | some tm =>
    refine within_perform (SchemaCall.tableExists _ _) fun r => ?_
    refine (within_orFail (Q := Any) fun _ _ => trivial).bind fun found _ => ?_
    split
    · exact within_ret trivial
    · rename_i hnot
      have hddl : tm.ddl ≠ [] := fun h => hnot (Or.inr h)
      refine (within_onlyIf (Q := Any) (fun hengine => ?_) trivial).bind fun _ _ => ?_
      · unfold resolveZkConflict
        cases hparse : parseReplicatedParams (ctx.tableDdl key tm) with
        | none => exact within_ret trivial
        | some p =>
          refine within_perform (SchemaCall.checkZkReplicaExists _ _) fun check => ?_
          cases zkCheckAction check ctx.env.config.zkCheckStrict with
          | dropReplica =>
            refine within_perform ?_ fun _ => within_ret trivial
            exact SchemaCall.dropConflict key tm p.1 p.2 hdata hkey htm hddl hengine hparse
          | proceed => exact within_ret trivial
          | failTable => exact within_fail _
      · refine within_perform ?_ fun _ => within_orFail fun _ _ => trivial
        exact SchemaCall.createTable key tm hdata hkey htm hddl

theorem within_createTables {keys : List Str}
    (hkeys : ∀ key ∈ keys, key ∈ ctx.dataTables ∨ key ∈ ctx.phases.postponedTables) :
    Within ctx.SchemaCall Any (ctx.createTables keys) := by
  refine within_onlyIf (fun hb => ?_) trivial
  have hdata : ctx.env.args.dataOnly = false := by simpa using hb
  exact (within_forEach fun key hkey => within_createTable hdata (hkeys key hkey)).bind
    fun _ _ => within_ret trivial

theorem within_ddlOnlyPhase : Within ctx.SchemaCall Any ctx.ddlOnlyPhase := by
  refine within_onlyIf (fun hb => ?_) trivial
  have hdata : ctx.env.args.dataOnly = false := by simpa using hb
  unfold createDdlObjects
  split
  · exact within_ret trivial
  · refine within_retryLoop fun key hkey => ?_
    unfold createDdlObject
    cases htm : ctx.manifest.tables.get? key with
    | none => exact within_ret trivial
    | some tm =>
      refine within_perform (SchemaCall.tableExists _ _) fun found => ?_
      split
      · exact within_ret trivial
      · split
        · exact within_ret trivial
        · rename_i hddl
          refine within_perform ?_ fun r => by cases r <;> exact within_ret trivial
          exact SchemaCall.createObject key tm hdata hkey htm hddl

theorem within_extraStep (b : Bool) (what : Extra) : Within ctx.SchemaCall Any (extraStep b what) :=
  within_onlyIf (fun _ => within_perform (SchemaCall.extra what) fun _ =>
    within_orRaise fun _ _ => trivial) trivial

theorem within_extrasPhase : Within ctx.SchemaCall Any ctx.extrasPhase := by
  unfold extrasPhase
  dsimp only
  refine (within_onlyIf (Q := Any) (fun _ => ?_) trivial).bind fun _ _ => ?_
  · exact (within_forEach fun ddl _ => within_perform (SchemaCall.createFunction _) fun _ =>
      within_ret (Q := Any) trivial).bind fun _ _ => within_ret trivial
  · exact (within_extraStep _ _).bind fun _ _ => (within_extraStep _ _).bind fun _ _ =>
      (within_extraStep _ _).bind fun _ _ => within_extraStep _ _

/-! ## The data phase -/

theorem within_loadAttached : Within ctx.DataCall Any ctx.loadAttached := by
  unfold loadAttached
  split
  · refine within_perform DataCall.loadState fun loaded => ?_
    exact (within_forEach fun key _ => within_perform (DataCall.querySystemParts _ _ _) fun _ =>
      within_ret (Q := Any) trivial).bind fun _ _ => within_ret trivial
  · exact within_ret trivial

theorem isItem_of_mem {attached : SortedMap Str (List Str)} {live : List TableRow} {b : Bool}
    {item : AttachParams} (h : item ∈ ctx.restoreItems attached live b) :
    ∃ tm, ctx.IsItem item tm := by
  obtain ⟨key, hkey, hitem⟩ := List.mem_filterMap.mp h
  cases htm : ctx.manifest.tables.get? key with
  | none => simp [htm] at hitem
  | some tm =>
    simp only [htm] at hitem
    split at hitem
    · cases hitem
    · rename_i hparts
      cases hitem
      exact ⟨tm, hkey, htm, rfl, rfl, hparts, rfl, rfl⟩

theorem map_tableKey_restoreItems (attached : SortedMap Str (List Str)) (live : List TableRow)
    (b : Bool) : (ctx.restoreItems attached live b).map AttachParams.tableKey =
      ctx.dataTables.filter fun key =>
        (ctx.manifest.tables.get? key).any fun tm => ctx.env.selectedParts tm ≠ [] := by
  unfold restoreItems
  induction ctx.dataTables with
  | nil => rfl
  | cons key keys ih =>
    rw [List.filterMap_cons, List.filter_cons]
    cases htm : ctx.manifest.tables.get? key with
    | none => simpa using ih
    | some tm =>
      by_cases hparts : ctx.env.selectedParts tm = []
      · simpa [hparts] using ih
      · simpa [hparts] using ih

theorem within_gatherItems :
    Within ctx.DataCall (fun items => ∀ item ∈ items, ∃ tm, ctx.IsItem item tm) ctx.gatherItems := by
  refine within_loadAttached.bind fun attached _ => within_perform DataCall.listTables fun live => ?_
  refine Within.bind (Q := Any) ?_ fun hasS3Client _ => ?_
  · unfold s3Client
    split
    · exact within_perform DataCall.newS3Client fun _ => within_ret trivial
    · exact within_ret trivial
  · refine (within_onlyIf (Q := Any) (fun _ => within_perform (DataCall.startTracker _) fun _ =>
      within_ret trivial) trivial).bind fun _ _ => within_ret fun item hitem => ?_
    exact isItem_of_mem hitem

/-- The check keeps only items it was given, and if it leaves no part out it keeps them all. -/
theorem within_checkReplicas {P : Call → Prop} (hP : ∀ db table, P (.checkReplicaSync db table))
    {items : List AttachParams} :
    Within P (fun r => (∀ item ∈ r.1, item ∈ items) ∧
      ((∀ item ∈ items, item.parts ≠ []) → r.2 = 0 → r.1 = items)) (ctx.checkReplicas items) := by
  unfold checkReplicas
  split
  · have hone : ∀ item ∈ items, Within P (fun c : AttachParams × Bool => c.1 = item)
        ((ctx.isUnsynced item).bind fun b => .ret (item, b)) := by
      intro item _
      refine Within.bind (Q := Any) ?_ fun _ _ => within_ret rfl
      unfold isUnsynced
      split
      · exact within_perform (hP _ _) fun _ => within_ret trivial
      · exact within_ret trivial
    refine (within_forEach hone).bind fun checked hchecked => within_ret ?_
    have hfst : checked.map Prod.fst = items := by
      rw [← List.forall₂_eq_eq_eq, List.forall₂_map_left_iff]
      exact hchecked.flip
    refine ⟨fun item hitem => ?_, fun hparts hzero => ?_⟩
    · obtain ⟨c, hc, rfl⟩ := List.mem_map.mp hitem
      exact hfst ▸ List.mem_map_of_mem (List.mem_of_mem_filter hc)
    · dsimp only at hzero ⊢
      have hall : ∀ c ∈ checked, c.2 = false := by
        intro c hc
        by_contra hne
        have hmem : c.1.parts.length ∈
            (checked.filter Prod.snd).map fun c => c.1.parts.length :=
          List.mem_map_of_mem (List.mem_filter.mpr ⟨hc, by simpa using hne⟩)
        have hlen := List.sum_eq_zero_iff_forall_eq_nat.mp hzero _ hmem
        exact hparts c.1 (hfst ▸ List.mem_map_of_mem hc) (List.length_eq_zero_iff.mp hlen)
      rw [List.filter_eq_self.mpr fun c hc => by simp [hall c hc], hfst]
  · exact within_ret ⟨fun _ h => h, fun _ _ => rfl⟩

theorem within_linkParts (key path : Str) (sources : List (Str × Str)) :
    Within ctx.DataCall Any (linkParts key path sources) := by
  induction sources with
  | nil => exact within_ret trivial
  | cons source sources ih =>
    refine within_perform (DataCall.dirExists _ _ _) fun found => ?_
    refine Within.bind (Q := Any) ?_ fun _ _ => ih
    split
    · exact within_ret trivial
    · exact within_perform (DataCall.linkPart _ _ _ _) fun _ => within_orRaise fun _ _ => trivial

theorem within_tryAttachTableMode {item : AttachParams} {tm : TableManifest}
    {plan : CompleteAttachPlan} {missing : Nat} (hitem : ctx.IsItem item tm)
    (hplan : ctx.attachPlan? item.tableKey = some (plan, missing)) :
    Within ctx.DataCall Any (ctx.tryAttachTableMode item.tableKey item.db item.table tm.ddl plan
      item.tableDataPath) := by
  refine within_perform (DataCall.detachTableSync item tm _ hitem hplan) fun _ => ?_
  refine (within_orFail (Q := Any) fun _ _ => trivial).bind fun _ _ => ?_
  refine Within.bind (Q := Any) ?_ fun _ _ => ?_
  · unfold dropOldReplica
    cases hparse : parseReplicatedParams tm.ddl with
    | none => exact within_ret trivial
    | some p =>
      refine within_perform ?_ fun _ => within_ret trivial
      exact DataCall.dropOldReplica item tm _ p.1 p.2 hitem hplan hparse
  · refine (within_linkParts _ _ _).bind fun _ _ => ?_
    refine within_perform (DataCall.attachTable item tm _ hitem hplan) fun _ => ?_
    refine (within_orFail (Q := Any) fun _ _ => trivial).bind fun _ _ => ?_
    refine within_perform (DataCall.systemRestoreReplica _ _ _) fun _ => ?_
    exact (within_orFail (Q := Any) fun _ _ => trivial).bind fun _ _ => within_ret trivial

theorem within_attachTables {items : List AttachParams}
    (hitems : ∀ item ∈ items, ∃ tm, ctx.IsItem item tm) :
    Within ctx.DataCall (fun rs => ∀ r ∈ rs, ∀ item, r = .inl item → ∃ tm, ctx.IsItem item tm)
      (ctx.attachTables items) := by
  have hone : ∀ item ∈ items, Within ctx.DataCall
      (fun r : AttachParams ⊕ TableResult => ∀ item', r = .inl item' → item' = item)
      (ctx.attachOrLeave item) := by
    intro item hmem
    obtain ⟨tm, hitem⟩ := hitems item hmem
    unfold attachOrLeave
    cases hplan : ctx.attachPlan? item.tableKey with
    | none => exact within_ret fun item' h => (Sum.inl.inj h).symm
    | some plan =>
      rw [hitem.table]
      refine (within_tryAttachTableMode hitem hplan).attempt.bind fun outcome _ => ?_
      cases outcome with
      | ok n => exact within_ret fun _ h => nomatch h
      | error e => exact within_ret fun item' h => (Sum.inl.inj h).symm
  refine (within_forEach hone).imp fun rs hrs r hr item' h => ?_
  obtain ⟨item, hitem, hri⟩ := exists_of_forall₂ hrs hr
  exact hri item' h ▸ hitems item hitem

theorem within_attachPart {item : AttachParams} {part : PartInfo}
    (hpart : part ∈ ctx.partsToAttach item) :
    Within (ctx.AttachCall item) Any (ctx.attachPart item part.name) := by
  refine within_perform (AttachCall.attachPart part hpart) fun reply => ?_
  cases reply with
  | ok =>
    refine (within_onlyIf (Q := Any) (fun _ => ?_) trivial).bind fun _ _ => within_ret trivial
    exact within_perform (AttachCall.recordAttached part hpart) fun _ => within_ret trivial
  | error e =>
    dsimp only
    split
    · exact within_fail _
    · exact within_ret trivial

theorem within_collect {α : Type} {P : Call → Prop} (xs : List (Except Str α)) :
    Within P Any (collect xs) := by
  induction xs with
  | nil => exact within_ret trivial
  | cons x xs ih =>
    cases x with
    | ok a => exact ih.bind fun _ _ => within_ret trivial
    | error e => exact within_fail _

theorem forall₂_map_right {α β : Type} {S : α → β → Prop} {f : α → β} {xs : List α}
    (h : ∀ x ∈ xs, S x (f x)) : List.Forall₂ S xs (xs.map f) := by
  induction xs with
  | nil => exact List.Forall₂.nil
  | cons x xs ih =>
    exact List.Forall₂.cons (h x List.mem_cons_self) (ih fun y hy => h y (List.mem_cons_of_mem _ hy))

theorem within_attachPartsOwned (item : AttachParams) :
    Within (ctx.AttachCall item) Any (ctx.attachPartsOwned item) := by
  refine Within.bind (Q := Any) ?_ fun _ _ => Within.bind (Q := Any) ?_ fun _ _ => within_ret trivial
  · split
    · exact within_perform AttachCall.restoreS3DiskParts fun _ => within_orRaise fun _ _ => trivial
    · exact within_ret trivial
  · unfold attachPartsInner
    split
    · exact within_ret trivial
    · refine within_perform (AttachCall.createDetachedDir _) fun _ => ?_
      refine (within_orFail (Q := Any) fun _ _ => trivial).bind fun _ _ => ?_
      refine (within_forEach (Q := fun _ => Any) fun part _ => ?_).bind fun _ _ =>
        Within.bind (Q := Any) ?_ fun _ _ => within_ret trivial
      · unfold preparePart
        split
        · exact within_ret trivial
        · split
          · exact within_ret trivial
          · exact within_perform (AttachCall.stagePart _ _ _) fun _ => within_orFail fun _ _ => trivial
      · unfold attachAll
        split
        · exact (within_forEach fun part hpart => within_attachPart hpart).imp fun _ _ => trivial
        · refine (within_par (Q := fun _ => Any) (forall₂_map_right fun part hpart => ?_)).bind
            fun _ _ => within_collect _
          exact (within_attachPart hpart).attempt.imp fun _ _ => trivial

theorem within_attachItems {items : List AttachParams}
    (hitems : ∀ item ∈ items, ∃ tm, ctx.IsItem item tm) :
    Within ctx.DataCall Any (ctx.attachItems items) := by
  refine (within_par (Q := fun _ => Any) (forall₂_map_right fun item hmem => ?_)).bind
    fun _ _ => within_collect _
  obtain ⟨tm, hitem⟩ := hitems item hmem
  refine (within_perform DataCall.isCancelled fun cancelled => ?_ :
    Within ctx.DataCall Any (ctx.tableTask item)).attempt.imp fun _ _ => trivial
  split
  · exact within_ret trivial
  · exact ((within_attachPartsOwned item).weaken fun _ => DataCall.byPart item tm hitem).mapError.bind
      fun _ _ => within_ret trivial

theorem within_attachPhase : Within ctx.DataCall Any ctx.attachPhase := by
  refine within_gatherItems.bind fun items hitems => ?_
  refine (within_checkReplicas DataCall.checkReplicaSync).bind fun r hr => ?_
  refine (within_attachTables fun item h => hitems item (hr.1 item h)).bind fun attached hattached => ?_
  refine (within_attachItems fun item h => ?_).bind fun results _ => ?_
  · obtain ⟨r, hr, hri⟩ := List.mem_filterMap.mp h
    cases r with
    | inl item' =>
      cases hri
      exact hattached _ hr item rfl
    | inr x => cases hri
  · refine within_perform DataCall.isCancelled fun cancelled => ?_
    split
    · exact within_fail _
    · exact within_ret trivial

theorem within_executeMutation (db table command : Str) :
    Within (fun c => c.isMutation = true) Any (ctx.executeMutation db table command) := by
  rw [executeMutation]
  by_cases h : executeMutationSql ctx.env.toUppercase db table command = []
  · rw [if_pos h]
    exact within_ret trivial
  · rw [if_neg h]
    exact within_perform rfl fun _ => within_ret trivial

theorem within_reapplyPendingMutations (results : List TableResult) :
    Within (fun c => c.isMutation = true) Any (ctx.reapplyPendingMutations results) := by
  refine (within_forEach (Q := fun _ => Any) fun result _ => ?_).bind fun _ _ => within_ret trivial
  unfold reapplyTable
  split
  · exact within_ret trivial
  · refine (within_forEach (Q := fun _ => Any) fun mutation _ => ?_).bind
      fun _ _ => within_ret trivial
    exact (within_executeMutation _ _ _).bind fun _ _ =>
      within_perform rfl fun _ => within_ret trivial

theorem within_createPhase : Within ctx.SchemaCall Any ctx.createPhase :=
  (within_onlyIf (Q := Any) (fun _ => within_createDatabases) trivial).bind fun _ _ =>
    within_createTables fun _ hkey => Or.inl hkey

/-- The phases of a restore of the schema alone, after the tables. -/
theorem within_schemaTail : Within ctx.SchemaCall (fun r => r = none) (ctx.ddlOnlyPhase.bind fun _ =>
    (ctx.createTables ctx.phases.postponedTables).bind fun _ =>
      ctx.extrasPhase.bind fun _ => .ret (none : Option (Nat × Nat))) :=
  within_ddlOnlyPhase.bind fun _ _ => (within_createTables fun _ hkey => Or.inr hkey).bind
    fun _ _ => within_extrasPhase.bind fun _ _ => within_ret rfl

/-- The phases that follow the mutations. -/
theorem within_dataTail {α : Type} (a : α) : Within ctx.SchemaCall (fun b => b = a)
    ((ctx.createTables ctx.phases.postponedTables).bind fun _ => ctx.ddlOnlyPhase.bind fun _ =>
      ctx.extrasPhase.bind fun _ => .ret a) :=
  (within_createTables fun _ hkey => Or.inr hkey).bind fun _ _ => within_ddlOnlyPhase.bind
    fun _ _ => within_extrasPhase.bind fun _ _ => within_ret rfl

/-- **Everything an attempt does with its selection is on the list**, or re-applies a mutation. -/
theorem within_restoreSelected :
    Within (fun c => c.isMutation = true ∨ ctx.Issues c) Any ctx.restoreSelected := by
  have hschema : ∀ c, ctx.SchemaCall c → c.isMutation = true ∨ ctx.Issues c :=
    fun _ h => Or.inr (Issues.schema h)
  refine (within_dropPhase.weaken hschema).bind fun _ _ => ?_
  refine (within_createPhase.weaken hschema).bind fun _ _ => ?_
  split
  · exact (within_schemaTail.weaken hschema).imp fun _ _ => trivial
  · refine (within_attachPhase.weaken fun _ h => Or.inr (Issues.data h)).bind fun r _ => ?_
    refine Within.bind (Q := Any) ?_ fun _ _ => within_ret trivial
    exact ((within_reapplyPendingMutations _).weaken fun _ => Or.inl).bind fun _ _ =>
      ((within_dataTail _).weaken hschema).imp fun _ _ => trivial

theorem within_verdict (tally : Option (Nat × Nat)) : Within ctx.Issues Any (ctx.verdict tally) := by
  rcases tally with - | ⟨attached, skipped⟩
  · exact within_ret trivial
  · rw [verdict]
    split
    · exact within_fail _
    · exact within_perform (Issues.saveState _) fun _ => within_ret trivial

end RestoreContext

/-! ## The whole restore -/

/-- The calls made before the selection is acted on. -/
def Call.isPreliminary : Call → Bool
  | .getVersion => true
  | .queryDatabaseEngine _ => true
  | .getMacros => true
  | _ => false

/-- The context of an attempt that acts on its selection. -/
structure IsContext (env : RestoreEnv) (fate : RestoreFate) (ctx : RestoreContext) : Prop where
  env_eq : ctx.env = env
  fate_eq : ctx.fate = fate
  manifest : env.manifestFile = some (.ok ctx.manifest)
  remap : env.remapConfig = .ok ctx.remap
  selected : ctx.tableKeys ≠ []

theorem within_projectionGate {P : Call → Prop} (hP : P .getVersion) (env : RestoreEnv)
    (m : BackupManifest) : Within P (fun _ => True) (env.projectionGate m) := by
  refine within_perform hP fun reply => ?_
  cases reply with
  | error => exact within_ret trivial
  | ok version =>
    dsimp only
    split
    · exact within_fail _
    · exact within_ret trivial

theorem within_emptySelection {P : Call → Prop} (env : RestoreEnv) :
    Within P (fun _ => True) env.emptySelection := by
  rw [RestoreEnv.emptySelection]
  split
  · split
    · exact within_ret trivial
    · exact within_fail _
  · exact within_ret trivial

theorem within_prepare {P : Call → Prop} (hP : ∀ c, c.isPreliminary = true → P c) {env : RestoreEnv}
    {fate : RestoreFate} {m : BackupManifest} (hm : env.manifestFile = some (.ok m)) :
    Within P (fun r => (r = none → env.selectedKeys m = []) ∧
      ∀ ctx, r = some ctx → IsContext env fate ctx) (prepare env fate m) := by
  refine (within_projectionGate (hP _ rfl) env m).bind fun _ _ => ?_
  split
  · rename_i hnone
    exact (within_emptySelection env).bind fun _ _ => within_ret ⟨fun _ => hnone, fun _ h => nomatch h⟩
  · rename_i hselected
    cases hremap : env.remapConfig with
    | error e => exact within_fail _
    | ok remap =>
      refine Within.bind (Q := fun r => r = remap) (within_ret rfl) fun _ h => ?_
      subst h
      refine Within.bind (Q := fun _ => True) ?_ fun replicatedDatabases _ => ?_
      · split
        · unfold detectReplicatedDatabases
          refine (within_forEach (Q := fun _ _ => True) fun db _ => ?_).bind
            fun _ _ => within_ret trivial
          exact within_perform (hP _ rfl) fun _ => within_ret trivial
        · exact within_ret trivial
      · refine within_perform (hP _ rfl) fun macros => within_ret ⟨fun h => (nomatch h), ?_⟩
        intro ctx hctx
        cases hctx
        exact ⟨rfl, rfl, hm, hremap, hselected⟩

theorem restore_of_ok {env : RestoreEnv} {m : BackupManifest} (fate : RestoreFate)
    (hm : env.manifestFile = some (.ok m)) :
    restore env fate = ((prepare env fate m).mapError .message).bind fun prepared =>
      match prepared with
      | none => .ret ()
      | some ctx => (ctx.restoreSelected.mapError .message).bind ctx.verdict := by
  unfold restore
  exact hm ▸ rfl

/-- The calls that leave the tables as they are, or change only rows: those that ask what the
server is like, and those that re-apply mutations. -/
def Call.isAside (c : Call) : Bool := c.isPreliminary || c.isMutation

/-- **Everything a restore does is on the list**, for the context it works in. -/
theorem within_restore (env : RestoreEnv) (fate : RestoreFate) :
    Within (fun c => c.isAside = true ∨ ∃ ctx, IsContext env fate ctx ∧ ctx.Issues c)
      (fun _ => True) (restore env fate) := by
  cases hm : env.manifestFile with
  | none =>
    rw [restore, hm]
    exact within_fail _
  | some file =>
    cases file with
    | error e =>
      rw [restore, hm]
      exact within_fail _
    | ok m =>
      rw [restore_of_ok fate hm]
      refine (within_prepare (fun c hc => Or.inl ?_) hm).mapError.bind fun prepared hprepared => ?_
      · rw [Call.isAside, hc, Bool.true_or]
      rcases prepared with - | ctx
      · exact within_ret trivial
      · have hctx := hprepared.2 ctx rfl
        refine (RestoreContext.within_restoreSelected.weaken fun c hc => ?_).mapError.bind
          fun tally _ => (RestoreContext.within_verdict tally).weaken fun c hc => ?_
        · refine hc.imp (fun hmutation => ?_) fun hissues => ⟨ctx, hctx, hissues⟩
          rw [Call.isAside, hmutation, Bool.or_true]
        · exact Or.inr ⟨ctx, hctx, hc⟩

theorem IsContext.selectedKeys_ne {env : RestoreEnv} {fate : RestoreFate} {ctx : RestoreContext}
    (h : IsContext env fate ctx) : env.selectedKeys ctx.manifest ≠ [] := by
  have hselected := h.selected
  rwa [RestoreContext.tableKeys, h.env_eq] at hselected

/-- The contexts of a restore agree on everything that its selection depends on. -/
theorem IsContext.same {env : RestoreEnv} {fate : RestoreFate} {ctx ctx' : RestoreContext}
    (h : IsContext env fate ctx) (h' : IsContext env fate ctx') :
    ctx' = { ctx with
      replicatedDatabases := ctx'.replicatedDatabases, macros := ctx'.macros } := by
  obtain ⟨henv, hfate, hmanifest, hremap, -⟩ := h
  obtain ⟨henv', hfate', hmanifest', hremap', -⟩ := h'
  have hm : ctx'.manifest = ctx.manifest := by
    have := hmanifest'.symm.trans hmanifest
    simpa using this
  have hr : ctx'.remap = ctx.remap := by
    have := hremap'.symm.trans hremap
    simpa using this
  cases ctx
  cases ctx'
  simp_all

/-- A restore that acts on its selection fails with a message, or comes to the verdict on it. -/
theorem IsContext.runs_cases {env : RestoreEnv} {fate : RestoreFate} {ctx : RestoreContext}
    (h : IsContext env fate ctx) {t : List RestoreEvent} {e : End RestoreError Unit}
    (ht : Runs (restore env fate) t e) :
    e = .cut ∨ (∃ text, e = .failed (.message text)) ∨
      ∃ ctx', IsContext env fate ctx' ∧ ∃ tally t₁ t₂ t₃, t = t₁ ++ (t₂ ++ t₃) ∧
        (∀ ev ∈ t₁, ev.1.isPreliminary = true) ∧
        Runs ctx'.restoreSelected t₂ (.returned tally) ∧ Runs (ctx'.verdict tally) t₃ e := by
  rw [restore_of_ok fate h.manifest] at ht
  rcases ht.of_bind with ⟨prepared, t₁, t₂, rfl, h₁, h₂⟩ | ⟨he, -⟩ | ⟨x, he, hx⟩
  · obtain ⟨hpre, hprepared⟩ := (within_prepare (fun _ h => h) h.manifest).runs h₁.of_mapError
    obtain ⟨hnone, hsome⟩ := hprepared _ rfl
    rcases prepared with - | ctx'
    · exact absurd (hnone rfl) h.selectedKeys_ne
    · rcases h₂.of_bind with ⟨tally, t₃, t₄, rfl, h₃, h₄⟩ | ⟨he, -⟩ | ⟨x, he, hx⟩
      · exact Or.inr (Or.inr ⟨ctx', hsome ctx' rfl, tally, t₁, t₃, t₄, rfl, hpre, h₃.of_mapError, h₄⟩)
      · exact Or.inl he
      · obtain ⟨text, rfl⟩ := hx.failed_of_mapError
        exact Or.inr (Or.inl ⟨text, he⟩)
  · exact Or.inl he
  · obtain ⟨text, rfl⟩ := hx.failed_of_mapError
    exact Or.inr (Or.inl ⟨text, he⟩)

end Chbackup
