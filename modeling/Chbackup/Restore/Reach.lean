import Chbackup.Restore.Footprint

/-!
# What a restore can be made to do

The converse of the footprint.  `smooth` answers every call as a healthy system would on which
nothing is left to create; under its replies every phase returns, so that whatever a later phase
can do, some run of the restore does.
-/

namespace Chbackup

open CallTree Prog

/-- The replies of a healthy system whose databases and tables are all there. -/
def smooth : (c : Call) → c.Reply
  | .getVersion => .error []
  | .queryDatabaseEngine _ => .error []
  | .getMacros => SortedMap.empty
  | .dropTable .. => .ok ()
  | .dropDatabase .. => .ok ()
  | .databaseExists _ => .ok true
  | .tableExists .. => .ok true
  | .executeDdl .. => .ok ()
  | .checkZkReplicaExists .. => .absent
  | .dropReplicaFromZkpath .. => .ok ()
  | .loadState => .ok none
  | .querySystemParts .. => .ok []
  | .listTables => .ok []
  | .newS3Client => .ok ()
  | .startTracker _ => ()
  | .checkReplicaSync .. => .ok true
  | .detachTableSync .. => .ok ()
  | .dirExists .. => false
  | .linkPart .. => .ok ()
  | .attachTable .. => .ok ()
  | .systemRestoreReplica .. => .ok ()
  | .isCancelled => false
  | .restoreS3DiskParts _ => .ok 0
  | .createDetachedDir _ => .ok ()
  | .stagePart .. => .ok ()
  | .attachPart .. => .ok ()
  | .recordAttached .. => true
  | .executeMutation _ => .ok ()
  | .reportMutation .. => ()
  | .extra _ => .ok ()
  | .saveState _ => .ok ()

/-- An event with the reply of a healthy system. -/
def Smooth (ev : RestoreEvent) : Prop := ev.2 = smooth ev.1

variable {α β : Type}

theorem yields_perform {c : Call} {f : c.Reply → RestoreProg α} {a : α}
    (h : Yields Smooth (f (smooth c)) a) : Yields Smooth ((perform c).bind f) a :=
  Yields.call (smooth c) rfl h

theorem yields_onlyIf {b : Bool} {p : RestoreProg Unit} (h : b = true → Yields Smooth p ()) :
    Yields Smooth (onlyIf b p) () := by
  unfold onlyIf
  split
  · exact h ‹_›
  · exact yields_ret _

/-- A retry loop whose items all succeed is over after one round. -/
theorem yields_retryLoop {isPrintable : Char → Bool} {opName : Str} {tryOne : Str → RestoreProg Tried} {rounds : Nat}
    {pending : List Str} {f : Str → Tried} (hf : ∀ key ∈ pending, ∀ e, f key ≠ .failed e)
    (h : ∀ key ∈ pending, Yields Smooth (tryOne key) (f key)) :
    Yields Smooth (retryLoop isPrintable opName tryOne (rounds + 1) pending) () := by
  rw [retryLoop]
  have hround : ∀ key ∈ pending, Yields Smooth
      ((tryOne key).bind fun r => (.ret (key, r) : RestoreProg (Str × Tried))) (key, f key) :=
    fun key hkey => (h key hkey).bind (yields_ret _)
  refine (yields_forEach hround).bind ?_
  have hfailures : failures (pending.map fun key => (key, f key)) = [] := by
    refine List.filterMap_eq_nil_iff.mpr fun r hr => ?_
    obtain ⟨key, hkey, rfl⟩ := List.mem_map.mp hr
    cases hfk : f key with
    | done => rfl
    | skipped => rfl
    | failed e => exact absurd hfk (hf key hkey e)
  dsimp only
  rw [if_pos hfailures]
  exact yields_ret _

namespace RestoreContext

variable (ctx : RestoreContext)

theorem yields_dropTables (keys : List Str) : Yields Smooth (ctx.dropTables keys) () := by
  unfold dropTables
  split
  · exact yields_ret _
  · exact yields_retryLoop (f := fun _ => .done) (fun _ _ _ h => nomatch h)
      fun key _ => yields_perform (yields_ret _)

theorem yields_dropPhase : Yields Smooth ctx.dropPhase () := by
  refine yields_onlyIf fun _ => (ctx.yields_dropTables _).bind ?_
  have hloop : ∀ (dbs : List DatabaseInfo) (dropped : List Str),
      Yields Smooth (ctx.dropDatabasesLoop dbs dropped) () := by
    intro dbs
    induction dbs with
    | nil => exact fun _ => yields_ret _
    | cons db dbs ih =>
      intro dropped
      rw [dropDatabasesLoop]
      split
      · exact ih _
      · exact yields_perform (ih _)
  exact hloop _ _

theorem yields_createDatabases : Yields Smooth ctx.createDatabases () := by
  have hone : ∀ db, Yields Smooth (ctx.createDatabaseWithCluster db) () :=
    fun db => yields_perform (yields_ret _)
  unfold createDatabases
  split
  · have hloop : ∀ (dbs : List DatabaseInfo) (created : List Str),
        Yields Smooth (ctx.createDatabasesLoop dbs created) () := by
      intro dbs
      induction dbs with
      | nil => exact fun _ => yields_ret _
      | cons db dbs ih =>
        intro created
        rw [createDatabasesLoop]
        split
        · exact ih _
        · exact (hone _).bind (ih _)
    exact hloop _ _
  · exact (yields_forEach (g := fun _ => ()) fun db _ => hone db).bind (yields_ret _)

theorem yields_createTable (key : Str) : Yields Smooth (ctx.createTable key) () := by
  unfold createTable
  split
  · exact yields_ret _
  · exact yields_perform (yields_ret _)

theorem yields_createTables (keys : List Str) : Yields Smooth (ctx.createTables keys) () :=
  yields_onlyIf fun _ =>
    (yields_forEach (g := fun _ => ()) fun key _ => ctx.yields_createTable key).bind (yields_ret _)

theorem yields_createPhase : Yields Smooth ctx.createPhase () :=
  (yields_onlyIf fun _ => ctx.yields_createDatabases).bind (ctx.yields_createTables _)

theorem yields_reapplyPendingMutations (results : List TableResult) :
    Yields Smooth (ctx.reapplyPendingMutations results) () := by
  refine (yields_forEach (g := fun _ => ()) fun result _ => ?_).bind (yields_ret _)
  unfold reapplyTable
  split
  · exact yields_ret _
  · refine (yields_forEach (g := fun _ => ()) fun mutation _ => ?_).bind (yields_ret _)
    refine Yields.bind (a := .ok ()) ?_ (yields_perform (yields_ret _))
    rw [executeMutation]
    by_cases h : executeMutationSql ctx.env.toUppercase (destination ctx.remap result.1).1
        (destination ctx.remap result.1).2 mutation.command = []
    · rw [if_pos h]
      exact yields_ret _
    · rw [if_neg h]
      exact yields_perform (yields_ret _)

/-! ## The data phase -/

theorem yields_loadAttached : Yields Smooth ctx.loadAttached SortedMap.empty := by
  unfold loadAttached
  split
  · refine yields_perform ((yields_forEach (g := fun key => (key, .ok [])) fun key _ =>
      yields_perform (yields_ret _)).bind ?_)
    have hmerge : mergeReported (ctx.env.recordedParts (smooth .loadState))
        (ctx.dataTables.map fun key => (key, .ok [])) = SortedMap.empty := by
      have hfold : ∀ (l : List Str) (m : SortedMap Str (List Str)),
          (l.map fun key => (key, .ok [])).foldl addReported m = m := by
        intro l
        induction l with
        | nil => exact fun _ => rfl
        | cons key l ih => exact ih
      rw [mergeReported, hfold]
      rfl
    rw [hmerge]
    exact yields_ret _
  · exact yields_ret _

/-- The items of an attempt that finds nothing attached. -/
def freshItems : List AttachParams :=
  ctx.restoreItems SortedMap.empty [] (ctx.manifest.diskTypes.values.any isS3Disk)

/-- The item of a table of which nothing is known to be attached. -/
def freshItem (key : Str) (tm : TableManifest) : AttachParams where
  tableKey := key
  db := (destination ctx.remap key).1
  table := (destination ctx.remap key).2
  parts := ctx.env.selectedParts tm
  tableDataPath := findTableDataPath [] (destination ctx.remap key).1 (destination ctx.remap key).2
    ctx.env.config.dataPath
  tableUuid := (findTableUuid [] (destination ctx.remap key).1 (destination ctx.remap key).2).or tm.uuid
  engine := tm.engine
  partsByDisk := tm.parts
  alreadyAttached := []
  hasS3Client := ctx.manifest.diskTypes.values.any isS3Disk

theorem mem_freshItems {key : Str} {tm : TableManifest} (hkey : key ∈ ctx.dataTables)
    (htm : ctx.manifest.tables.get? key = some tm) (hparts : ctx.env.selectedParts tm ≠ []) :
    ctx.freshItem key tm ∈ ctx.freshItems := by
  refine List.mem_filterMap.mpr ⟨key, hkey, ?_⟩
  simp only [htm]
  rw [if_neg hparts]
  rfl

theorem yields_gatherItems : Yields Smooth ctx.gatherItems ctx.freshItems := by
  refine ctx.yields_loadAttached.bind (yields_perform ?_)
  refine Yields.bind (a := ctx.manifest.diskTypes.values.any isS3Disk) ?_
    (Yields.bind (yields_onlyIf fun _ => yields_perform (yields_ret _)) (yields_ret _))
  unfold s3Client
  split
  · rename_i h
    rw [h]
    exact yields_perform (yields_ret _)
  · rename_i h
    rw [Bool.not_eq_true] at h
    rw [h]
    exact yields_ret _

theorem yields_checkReplicas (items : List AttachParams) :
    Yields Smooth (ctx.checkReplicas items) (items, 0) := by
  unfold checkReplicas
  split
  · have hone : ∀ item ∈ items, Yields Smooth ((ctx.isUnsynced item).bind fun b =>
        (.ret (item, b) : RestoreProg (AttachParams × Bool))) (item, false) := by
      intro item _
      refine Yields.bind (a := false) ?_ (yields_ret _)
      unfold isUnsynced
      split
      · exact yields_perform (yields_ret _)
      · exact yields_ret _
    refine (yields_forEach hone).bind ?_
    have hkept : (((items.map fun item => (item, false)).filter fun c => !c.2).map Prod.fst) =
        items := by
      rw [List.filter_eq_self.mpr fun c hc => by
        obtain ⟨item, -, rfl⟩ := List.mem_map.mp hc
        rfl, List.map_map]
      exact List.map_id _
    have hnone : ((items.map fun item => (item, false)).filter Prod.snd) = [] := by
      refine List.filter_eq_nil_iff.mpr fun c hc => ?_
      obtain ⟨item, -, rfl⟩ := List.mem_map.mp hc
      exact Bool.false_ne_true
    rw [hkept, hnone]
    exact yields_ret _
  · exact yields_ret _

theorem yields_linkParts (key path : Str) (sources : List (Str × Str)) :
    Yields Smooth (linkParts key path sources) () := by
  induction sources with
  | nil => exact yields_ret _
  | cons source sources ih =>
    exact yields_perform (Yields.bind (yields_perform (yields_ret _)) ih)

theorem yields_dropOldReplica (key ddl : Str) : Yields Smooth (ctx.dropOldReplica key ddl) () := by
  unfold dropOldReplica
  split
  · exact yields_perform (yields_ret _)
  · exact yields_ret _

theorem yields_tryAttachTableMode (key db table ddl : Str) (plan : CompleteAttachPlan)
    (path : Str) :
    Yields Smooth (ctx.tryAttachTableMode key db table ddl plan path) plan.sources.length :=
  yields_perform <| Yields.bind (yields_ret _) <| (ctx.yields_dropOldReplica key ddl).bind <|
    (yields_linkParts _ _ _).bind <| yields_perform <| Yields.bind (yields_ret _) <|
      yields_perform <| Yields.bind (yields_ret _) <| yields_ret _

/-- What ATTACH TABLE mode makes of an item when nothing fails. -/
def attachedOrLeft (item : AttachParams) : AttachParams ⊕ TableResult :=
  match ctx.attachPlan? item.tableKey with
  | none => .inl item
  | some (plan, missing) => .inr (item.tableKey, plan.sources.length, missing)

theorem yields_attachOrLeave (item : AttachParams) :
    Yields Smooth (ctx.attachOrLeave item) (ctx.attachedOrLeft item) := by
  unfold attachOrLeave attachedOrLeft
  cases ctx.attachPlan? item.tableKey with
  | none => exact yields_ret _
  | some plan => exact (ctx.yields_tryAttachTableMode _ _ _ _ _ _).attempt.bind (yields_ret _)

theorem yields_attachTables (items : List AttachParams) :
    Yields Smooth (ctx.attachTables items) (items.map ctx.attachedOrLeft) :=
  yields_forEach fun item _ => ctx.yields_attachOrLeave item

theorem yields_attachPart (item : AttachParams) (part : Str) :
    Yields Smooth (ctx.attachPart item part) none :=
  yields_perform <| (yields_onlyIf fun _ => yields_perform (yields_ret _)).bind (yields_ret _)

theorem forall₂_map_map {γ : Type} {S : α → β → Prop} {f : γ → α} {g : γ → β} {xs : List γ}
    (h : ∀ x ∈ xs, S (f x) (g x)) : List.Forall₂ S (xs.map f) (xs.map g) := by
  induction xs with
  | nil => exact List.Forall₂.nil
  | cons x xs ih =>
    exact List.Forall₂.cons (h x List.mem_cons_self) (ih fun y hy => h y (List.mem_cons_of_mem _ hy))

theorem yields_collect (as : List α) : Yields Smooth (collect (as.map .ok)) as := by
  induction as with
  | nil => exact yields_ret _
  | cons a as ih => exact ih.bind (yields_ret _)

theorem yields_attachAll (item : AttachParams) (parts : List PartInfo) :
    Yields Smooth (ctx.attachAll item parts) (parts.map fun _ => none) := by
  unfold attachAll
  split
  · exact yields_forEach fun part _ => ctx.yields_attachPart item part.name
  · refine Yields.bind (a := parts.map fun _ => .ok none) (yields_par
      (forall₂_map_map fun part _ => (ctx.yields_attachPart item part.name).attempt)) ?_
    have h := yields_collect (parts.map fun _ => (none : Option AttachErrorClass))
    rwa [List.map_map] at h

theorem yields_preparePart (item : AttachParams) (part : PartInfo) :
    Yields Smooth (ctx.preparePart item part) () := by
  unfold preparePart
  split
  · exact yields_ret _
  · split
    · exact yields_ret _
    · exact yields_perform (yields_ret _)

/-- Attaching part by part, when nothing fails, attaches every part that is staged and not known
to be attached. -/
theorem yields_attachPartsOwned (item : AttachParams) : ∃ result,
    Yields Smooth (ctx.attachPartsOwned item) result := by
  have hinner : ∃ result, Yields Smooth (ctx.attachPartsInner item) result := by
    unfold attachPartsInner
    split
    · exact ⟨_, yields_ret _⟩
    · exact ⟨_, yields_perform <| Yields.bind (yields_ret _) <|
        (yields_forEach (g := fun _ => ()) fun part _ => ctx.yields_preparePart item part).bind <|
          (ctx.yields_attachAll item _).bind (yields_ret _)⟩
  obtain ⟨result, hresult⟩ := hinner
  refine ⟨_, Yields.bind (a := 0) ?_ (hresult.bind (yields_ret _))⟩
  split
  · exact yields_perform (yields_ret _)
  · exact yields_ret _

theorem yields_tableTask (item : AttachParams) :
    ∃ result, Yields Smooth (ctx.tableTask item) result := by
  obtain ⟨result, hresult⟩ := ctx.yields_attachPartsOwned item
  exact ⟨_, yields_perform (hresult.mapError.bind (yields_ret _))⟩

theorem yields_attachItems (items : List AttachParams) :
    ∃ results, Yields Smooth (ctx.attachItems items) results := by
  choose f hf using ctx.yields_tableTask
  refine ⟨items.map f, Yields.bind (a := items.map fun item => .ok (f item)) (yields_par
    (forall₂_map_map fun item _ => (hf item).attempt)) ?_⟩
  have h := yields_collect (items.map f)
  rwa [List.map_map] at h

theorem yields_attachPhase : ∃ r, Yields Smooth ctx.attachPhase r := by
  obtain ⟨results, hresults⟩ :=
    ctx.yields_attachItems ((ctx.freshItems.map ctx.attachedOrLeft).filterMap Sum.getLeft?)
  exact ⟨_, ctx.yields_gatherItems.bind <| (ctx.yields_checkReplicas _).bind <|
    (ctx.yields_attachTables _).bind <| hresults.bind <| yields_perform (yields_ret _)⟩

/-! ## Calls that are reached -/

variable {ctx}

/-- The first round of a retry loop tries every item. -/
theorem reaches_retryLoop {isPrintable : Char → Bool} {opName : Str} {tryOne : Str → RestoreProg Tried}
    {pending : List Str} {key : Str} {c : Call}
    (h : ∀ k ∈ pending, ∃ r, Yields Smooth (tryOne k) r) (hkey : key ∈ pending)
    (hc : Reaches (tryOne key) c) :
    Reaches (retryLoop isPrintable opName tryOne maxRounds pending) c := by
  rw [maxRounds, retryLoop]
  refine Reaches.of_left (reaches_forEach (L := Smooth) (fun k hk => ?_) hkey hc.of_left)
  obtain ⟨r, hr⟩ := h k hk
  exact ⟨_, hr.bind (yields_ret (k, r))⟩

theorem reaches_dropTable {key : Str} (hrm : ctx.env.args.rm = true)
    (hdata : ctx.env.args.dataOnly = false) (hkey : key ∈ ctx.tableKeys) :
    Reaches ctx.dropPhase (.dropTable (destination ctx.remap key).1 (destination ctx.remap key).2
      (ctx.clusterFor (destination ctx.remap key).1)) := by
  unfold dropPhase
  rw [onlyIf, if_pos (by simp [hrm, hdata]), dropTables, if_neg (List.ne_nil_of_mem hkey)]
  refine Reaches.of_left (reaches_retryLoop (fun k _ => ?_)
    (mem_sortByKey.mpr hkey) (Reaches.call_self _ _ (.ok ())))
  exact ⟨.done, yields_perform (yields_ret _)⟩

/-- A table of a CREATE phase is created where it does not exist. -/
theorem reaches_createTables {keys : List Str} {key : Str} {tm : TableManifest}
    (hdata : ctx.env.args.dataOnly = false) (hkey : key ∈ keys)
    (htm : ctx.manifest.tables.get? key = some tm) (hddl : tm.ddl ≠ []) :
    Reaches (ctx.createTables keys) (.executeDdl
      (.table (destination ctx.remap key).1 (destination ctx.remap key).2) (ctx.tableDdl key tm)) := by
  unfold createTables
  rw [onlyIf, if_pos (by simp [hdata])]
  refine Reaches.of_left (reaches_forEach (fun k _ => ⟨(), ctx.yields_createTable k⟩) hkey ?_)
  simp only [createTable, htm]
  refine reaches_perform (.ok false) (Reaches.bind (L := Smooth) (yields_ret false) ?_)
  rw [if_neg (by simp [hddl])]
  refine Reaches.bind (yields_onlyIf fun _ => ?_) (Reaches.call_self _ _ (.ok ()))
  unfold resolveZkConflict
  split
  · exact yields_ret _
  · exact yields_perform (yields_ret _)

theorem reaches_ddlOnlyPhase {key : Str} {tm : TableManifest}
    (hdata : ctx.env.args.dataOnly = false)
    (hkey : key ∈ topologicalSort ctx.manifest.tables ctx.phases.ddlOnlyTables)
    (htm : ctx.manifest.tables.get? key = some tm) (hddl : tm.ddl ≠ []) :
    Reaches ctx.ddlOnlyPhase (.executeDdl
      (.table (destination ctx.remap key).1 (destination ctx.remap key).2)
      (ctx.objectDdl key tm)) := by
  unfold ddlOnlyPhase
  rw [onlyIf, if_pos (by simp [hdata]), createDdlObjects, if_neg (List.ne_nil_of_mem hkey)]
  refine reaches_retryLoop (fun k _ => ?_) hkey ?_
  · unfold createDdlObject
    split
    · exact ⟨_, yields_ret _⟩
    · exact ⟨.done, yields_perform (yields_ret _)⟩
  · simp only [createDdlObject, htm]
    refine reaches_perform (.ok false) ?_
    rw [show (Except.ok false : Except Str Bool).toOption.getD false = false from rfl,
      if_neg Bool.false_ne_true, if_neg hddl]
    exact Reaches.call_self _ _ (.ok ())

/-- A table with a plan is detached. -/
theorem reaches_detachTableSync {items : List AttachParams} {item : AttachParams}
    (hitem : item ∈ items) (hplan : (ctx.attachPlan? item.tableKey).isSome = true) :
    Reaches (ctx.attachTables items) (.detachTableSync item.tableKey item.db item.table) := by
  refine reaches_forEach (fun item' _ => ⟨_, ctx.yields_attachOrLeave item'⟩) hitem ?_
  unfold attachOrLeave
  cases hp : ctx.attachPlan? item.tableKey with
  | none => simp [hp] at hplan
  | some plan => exact Reaches.of_left (Reaches.attempt (Reaches.call_self _ _ (.ok ())))

/-- One of several parallel tasks that can all return. -/
theorem reaches_par_of_mem {ts : List (Prog Call Call.Reply Empty α)} {schedule : List Nat}
    {t : Prog Call Call.Reply Empty α} {c : Call} (h : ∀ t ∈ ts, ∃ a, Yields Smooth t a)
    (ht : t ∈ ts) (hc : Reaches t c) : Reaches (par schedule ts : RestoreProg (List α)) c := by
  obtain ⟨j, hj⟩ := List.getElem?_of_mem ht
  exact reaches_par (fun i t' _ ht' => h t' (List.mem_of_getElem? ht')) hj hc

theorem reaches_attachPart {items : List AttachParams} {item : AttachParams} {part : PartInfo}
    (hitem : item ∈ items) (hparts : item.parts ≠ []) (hpart : part ∈ ctx.partsToAttach item) :
    Reaches (ctx.attachItems items) (.attachPart item.tableKey item.db item.table part.name) := by
  have hone : Reaches (ctx.attachPart item part.name)
      (.attachPart item.tableKey item.db item.table part.name) :=
    Reaches.call_self _ _ (.ok ())
  have hall : Reaches (ctx.attachAll item (ctx.partsToAttach item))
      (.attachPart item.tableKey item.db item.table part.name) := by
    unfold attachAll
    split
    · exact reaches_forEach (fun p _ => ⟨_, ctx.yields_attachPart item p.name⟩) hpart hone
    · refine Reaches.of_left (reaches_par_of_mem (fun t ht => ?_) (List.mem_map_of_mem hpart)
        hone.attempt)
      obtain ⟨p, -, rfl⟩ := List.mem_map.mp ht
      exact ⟨_, (ctx.yields_attachPart item p.name).attempt⟩
  have hinner : Reaches (ctx.attachPartsInner item)
      (.attachPart item.tableKey item.db item.table part.name) := by
    unfold attachPartsInner
    rw [if_neg hparts]
    refine reaches_perform (.ok ()) (Reaches.bind (L := Smooth) (yields_ret _) ?_)
    refine Reaches.bind (yields_forEach (g := fun _ => ()) fun p _ =>
      ctx.yields_preparePart item p) hall.of_left
  have howned : Reaches (ctx.attachPartsOwned item)
      (.attachPart item.tableKey item.db item.table part.name) := by
    refine Reaches.bind (L := Smooth) (a := 0) ?_ hinner.of_left
    split
    · exact yields_perform (yields_ret _)
    · exact yields_ret _
  refine Reaches.of_left (reaches_par_of_mem (fun t ht => ?_) (List.mem_map_of_mem hitem)
    (reaches_perform false howned.mapError.of_left).attempt)
  obtain ⟨item', -, rfl⟩ := List.mem_map.mp ht
  obtain ⟨r, hr⟩ := ctx.yields_tableTask item'
  exact ⟨_, hr.attempt⟩

end RestoreContext

/-! ## The whole restore -/

/-- The context in which an attempt can come to work. -/
theorem yields_prepare {env : RestoreEnv} {fate : RestoreFate} {m : BackupManifest}
    {remap : Option RemapConfig} (hremap : env.remapConfig = .ok remap)
    (hselected : env.selectedKeys m ≠ []) (macros : SortedMap Str Str) :
    Yields (fun _ => True) (prepare env fate m) (some ⟨env, fate, m, remap, [], macros⟩) := by
  refine Yields.bind (a := ()) (Yields.call (.error []) trivial (yields_ret _)) ?_
  rw [if_neg hselected, hremap]
  refine Yields.bind (yields_ret remap) ?_
  refine Yields.bind (a := []) ?_ (Yields.call macros trivial (yields_ret _))
  split
  · unfold detectReplicatedDatabases
    refine (yields_forEach (g := fun db => (db, false)) fun db _ =>
      Yields.call (.error []) trivial (yields_ret _)).bind ?_
    have hnone : ((((m.databases.map fun db => destinationDatabase remap db.name).dedup).map
        fun db => (db, false)).filter Prod.snd) = [] := by
      refine List.filter_eq_nil_iff.mpr fun c hc => ?_
      obtain ⟨db, -, rfl⟩ := List.mem_map.mp hc
      exact Bool.false_ne_true
    rw [hnone]
    exact yields_ret _
  · exact yields_ret _

/-- What an attempt can do once it acts on its selection, the restore can do. -/
theorem reaches_restore {env : RestoreEnv} {fate : RestoreFate} {m : BackupManifest}
    {remap : Option RemapConfig} (hm : env.manifestFile = some (.ok m))
    (hremap : env.remapConfig = .ok remap) (hselected : env.selectedKeys m ≠ [])
    (macros : SortedMap Str Str) {c : Call}
    (h : Reaches (RestoreContext.restoreSelected ⟨env, fate, m, remap, [], macros⟩) c) :
    Reaches (restore env fate) c := by
  rw [restore_of_ok fate hm]
  refine Reaches.bind (yields_prepare hremap hselected macros).mapError ?_
  exact Reaches.of_left h.mapError

/-! ## A plain environment -/

/-- An environment with the settings and arguments given, in which a pattern stands for itself
and letters are those of ASCII. -/
def plainEnv (config : RestoreConfig) (args : RestoreArgs) (m : BackupManifest) : RestoreEnv where
  config := config
  args := args
  manifestFile := some (.ok m)
  globPattern := fun pattern => some fun name => name = pattern
  toUppercase := List.map Char.toUpper
  isAlphanumeric := Char.isAlphanum
  isPrintable := fun c => 32 ≤ c.toNat && c.toNat < 127

/-- An attempt that finds every staged file. -/
def plainFate : RestoreFate := ⟨fun _ => true, id, [], fun _ => []⟩

/-- A manifest with the tables given, in the database `db`. -/
def plainManifest (tables : List (Str × TableManifest)) : BackupManifest :=
  { (default : BackupManifest) with
    databases := [⟨"db", "CREATE DATABASE db"⟩]
    tables := tables.foldl (fun m t => m.insert t.1 t.2) SortedMap.empty }

/-- A replicated table with one part. -/
def replicatedManifest : BackupManifest :=
  plainManifest [("db.t", { (default : TableManifest) with
    ddl := "CREATE TABLE db.t (id UInt64) ENGINE = ReplicatedMergeTree ORDER BY id"
    engine := "ReplicatedMergeTree"
    parts := SortedMap.empty.insert "default"
      [{ (default : PartInfo) with name := "all_0_0_0" }] })]

end Chbackup
