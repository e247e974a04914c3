import Chbackup.Restore.Reach

/-!
# What the DROP phase destroys

`--rm` drops the destination of every selected table, and then every database the manifest
names, whether or not all of its tables are selected.  A DROP DATABASE takes down what the live
server holds, so the phase stays inside the selection exactly when the databases it drops hold
nothing but destinations of selected tables.
-/

namespace Chbackup

open CallTree Prog

/-- A table of the live server, by database and name. -/
abbrev LiveTable : Type := Str × Str

/-- Whether a call destroys a table: by its name, or with its database. -/
def Call.destroys : Call → LiveTable → Prop
  | .dropTable db table _, live => live = (db, table)
  | .dropDatabase db _, live => live.1 = db
  | _, _ => False

/-- The tables of the live server that a restore destroys, in any run, are destinations of
selected keys. -/
def DropsOnlySelected (env : RestoreEnv) (live : List LiveTable) : Prop :=
  ∀ m remap, env.manifestFile = some (.ok m) → env.remapConfig = .ok remap →
    ∀ fate t e, Runs (restore env fate) t e → ∀ ev ∈ t, ∀ table ∈ live, ev.1.destroys table →
      ∃ key ∈ env.selectedKeys m, destination remap key = table

/-- The databases that a destructive restore drops hold only destinations of selected keys. -/
def DroppedDatabasesSelected (env : RestoreEnv) (live : List LiveTable) : Prop :=
  ∀ m remap, env.manifestFile = some (.ok m) → env.remapConfig = .ok remap →
    env.args.rm = true → env.args.dataOnly = false → env.selectedKeys m ≠ [] →
      ∀ db ∈ m.databases, destinationDatabase remap db.name ∉ systemDatabases →
        ∀ table ∈ live, table.1 = destinationDatabase remap db.name →
          ∃ key ∈ env.selectedKeys m, destination remap key = table

namespace RestoreContext

variable {ctx : RestoreContext}

/-- What destroys a table is the DROP phase: the table is the destination of a selected key, or
lies in the destination of a database of the manifest. -/
theorem destroys_cases {c : Call} {live : LiveTable} (h : ctx.Issues c) (hc : c.destroys live) :
    (∃ key, ctx.env.args.rm = true ∧ ctx.env.args.dataOnly = false ∧ key ∈ ctx.tableKeys ∧
        live = destination ctx.remap key) ∨
      ∃ db, ctx.env.args.rm = true ∧ ctx.env.args.dataOnly = false ∧ db ∈ ctx.manifest.databases ∧
        destinationDatabase ctx.remap db.name ∉ systemDatabases ∧
        live.1 = destinationDatabase ctx.remap db.name := by
  cases h with
  | schema h =>
    cases h with
    | dropTable key _ hrm hdata hkey => exact Or.inl ⟨key, hrm, hdata, hkey, hc⟩
    | dropDatabase db _ hrm hdata hdb hsystem =>
      exact Or.inr ⟨db, hrm, hdata, hdb, hsystem, hc⟩
    | _ => exact absurd hc not_false
  | data h =>
    cases h with
    | byPart item tm hitem h => cases h <;> exact absurd hc not_false
    | _ => exact absurd hc not_false
  | saveState => exact absurd hc not_false

/-- Every database of the manifest is reached: those before it may refuse to be dropped. -/
theorem reaches_dropDatabasesLoop {dbs : List DatabaseInfo} {db : DatabaseInfo} (hdb : db ∈ dbs)
    (hsystem : destinationDatabase ctx.remap db.name ∉ systemDatabases) :
    Reaches (ctx.dropDatabasesLoop dbs []) (.dropDatabase (destinationDatabase ctx.remap db.name)
      (ctx.clusterFor (destinationDatabase ctx.remap db.name))) := by
  induction dbs with
  | nil => cases hdb
  | cons d dbs ih =>
    rw [dropDatabasesLoop]
    by_cases hskip : destinationDatabase ctx.remap d.name ∈ systemDatabases ∨
        destinationDatabase ctx.remap d.name ∈ ([] : List Str)
    · rw [if_pos hskip]
      refine ih ((List.mem_cons.mp hdb).resolve_left ?_)
      rintro rfl
      exact hsystem (hskip.resolve_right List.not_mem_nil)
    · rw [if_neg hskip]
      by_cases hsame : destinationDatabase ctx.remap d.name = destinationDatabase ctx.remap db.name
      · rw [hsame]
        exact Reaches.call_self _ _ (.ok ())
      · refine Reaches.call (.error []) (ih ((List.mem_cons.mp hdb).resolve_left ?_))
        rintro rfl
        exact hsame rfl

end RestoreContext

theorem reaches_dropDatabase {env : RestoreEnv} (fate : RestoreFate) {m : BackupManifest}
    {remap : Option RemapConfig} (hm : env.manifestFile = some (.ok m))
    (hremap : env.remapConfig = .ok remap) (hrm : env.args.rm = true)
    (hdata : env.args.dataOnly = false) (hselected : env.selectedKeys m ≠ [])
    {db : DatabaseInfo} (hdb : db ∈ m.databases)
    (hsystem : destinationDatabase remap db.name ∉ systemDatabases) :
    ∃ cluster, Reaches (restore env fate)
      (.dropDatabase (destinationDatabase remap db.name) cluster) := by
  let ctx : RestoreContext := ⟨env, fate, m, remap, [], SortedMap.empty⟩
  refine ⟨ctx.clusterFor (destinationDatabase remap db.name),
    reaches_restore hm hremap hselected SortedMap.empty (Reaches.of_left ?_)⟩
  unfold RestoreContext.dropPhase
  rw [onlyIf, if_pos (by simp [hrm, hdata])]
  refine Reaches.bind (RestoreContext.yields_dropTables _ _) ?_
  exact RestoreContext.reaches_dropDatabasesLoop hdb hsystem

/-- A database that is dropped takes its tables with it. -/
theorem exists_selected_of_dropped {env : RestoreEnv} {live : List LiveTable}
    (h : DropsOnlySelected env live) {m : BackupManifest} {remap : Option RemapConfig}
    (hm : env.manifestFile = some (.ok m)) (hremap : env.remapConfig = .ok remap)
    (hrm : env.args.rm = true) (hdata : env.args.dataOnly = false)
    (hselected : env.selectedKeys m ≠ []) {db : DatabaseInfo} (hdb : db ∈ m.databases)
    (hsystem : destinationDatabase remap db.name ∉ systemDatabases) {table : LiveTable}
    (htable : table ∈ live) (hin : table.1 = destinationDatabase remap db.name) :
    ∃ key ∈ env.selectedKeys m, destination remap key = table := by
  obtain ⟨cluster, t, e, ht, ev, hev, hc⟩ :=
    reaches_dropDatabase plainFate hm hremap hrm hdata hselected hdb
      hsystem
  refine h m remap hm hremap _ t e ht ev hev table htable ?_
  rw [hc]
  exact hin

/-- **The DROP phase stays inside the selection iff the dropped databases do.** -/
theorem restore_drops_only_selected_iff (env : RestoreEnv) (live : List LiveTable) :
    DropsOnlySelected env live ↔ DroppedDatabasesSelected env live := by
  constructor
  · intro h m remap hm hremap hrm hdata hselected db hdb hsystem table htable hin
    exact exists_selected_of_dropped h hm hremap hrm hdata hselected hdb hsystem htable hin
  · intro h m remap hm hremap fate t e ht ev hev table htable hdestroys
    rcases ((within_restore env fate).runs ht).1 ev hev with hpre | ⟨ctx, hctx, hissues⟩
    · cases hc : ev.1 <;> simp [hc, Call.isAside, Call.isPreliminary, Call.isMutation, Call.destroys] at hpre hdestroys
    · -- the manifest and the renames of the context are those of the environment
      have hmanifest : ctx.manifest = m := by
        have := hctx.manifest.symm.trans hm
        simpa using this
      have hrename : ctx.remap = remap := by
        have := hctx.remap.symm.trans hremap
        simpa using this
      have hkeys : ctx.tableKeys = env.selectedKeys m := by
        rw [RestoreContext.tableKeys, hctx.env_eq, hmanifest]
      generalize ev.1 = c at hdestroys hissues
      rcases RestoreContext.destroys_cases hissues hdestroys with
        ⟨key, hrm, hdata, hkey, rfl⟩ | ⟨db, hrm, hdata, hdb, hsystem, hin⟩
      · exact ⟨key, hkeys ▸ hkey, by rw [hrename]⟩
      · exact h m remap hm hremap (hctx.env_eq ▸ hrm) (hctx.env_eq ▸ hdata)
          (hkeys ▸ hctx.selected) db (hmanifest ▸ hdb) (hrename ▸ hsystem) table htable (hrename ▸ hin)

/-- Two tables of one database. -/
def twoTableManifest : BackupManifest := plainManifest [("db.a", default), ("db.b", default)]

/-- **The phase leaves its selection.**  Restoring `db.a` alone with `--rm` drops the database,
and `db.b` with it. -/
theorem unselected_table_is_destroyed :
    ¬ DropsOnlySelected (plainEnv default { (default : RestoreArgs) with
      tablePattern := some "db.a", rm := true } twoTableManifest) [("db", "b")] := by
  intro h
  obtain ⟨key, hkey, hdst⟩ := exists_selected_of_dropped h rfl
    (show _ = Except.ok none by decide +kernel) rfl rfl (by decide +kernel) List.mem_cons_self
    (by decide +kernel) (List.mem_singleton_self _) (by decide +kernel)
  have hall : ∀ key ∈ (plainEnv default { (default : RestoreArgs) with
      tablePattern := some "db.a", rm := true } twoTableManifest).selectedKeys twoTableManifest,
      destination none key ≠ (("db" : Str), ("b" : Str)) := by decide +kernel
  exact hall key hkey hdst

end Chbackup
