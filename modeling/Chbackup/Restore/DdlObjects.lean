import Chbackup.Lib.Ensures
import Chbackup.Lib.Guarantee
import Chbackup.Restore.Reach

/-!
# Creating the objects without data

`create_ddl_objects` (`src/restore/schema.rs`) creates views, dictionaries and the like in rounds: what
failed in one round is tried again in the next.  An object leaves the list of pending ones when it is
created, when it is already there, and, with a warning, when the manifest has no DDL for it.

* `ddl_objects_created`: if the phase returns, the objects with a DDL are there; no object is created
  again after a CREATE for it has succeeded; and if a CREATE succeeds exactly when the objects it depends on
  are there, the dependencies being on objects that come first, one round is enough.
-/

namespace Chbackup

open CallTree Prog RestoreContext

/-! ## One try -/

/-- The event is a CREATE. -/
def IsCreate : RestoreEvent → Prop
  | ⟨.executeDdl _ _, _⟩ => True
  | _ => False

/-- The event is a CREATE that succeeds. -/
def CreateSucceeds : RestoreEvent → Prop
  | ⟨.executeDdl _ _, reply⟩ => reply = .ok ()
  | _ => False

/-- One try of an object: its calls and how it ended. -/
structure DdlTry where
  key : Str
  trace : List RestoreEvent
  ended : End Str Tried

/-- A CREATE of this try has succeeded. -/
def DdlTry.Created (x : DdlTry) : Prop := ∃ ev ∈ x.trace, CreateSucceeds ev

/-- The try issues a CREATE. -/
def DdlTry.Creates (x : DdlTry) : Prop := ∃ ev ∈ x.trace, IsCreate ev

namespace RestoreContext

variable (ctx : RestoreContext)

/-- The manifest has a DDL for the object. -/
def HasDdl (key : Str) : Prop := ∃ tm, ctx.manifest.tables.get? key = some tm ∧ tm.ddl ≠ []

/-- The tries of a run, one after the other. -/
structure TriedAs (tries : List DdlTry) (t : List RestoreEvent) : Prop where
  trace : t = tries.flatMap DdlTry.trace
  runs : ∀ x ∈ tries, Runs (ctx.createDdlObject x.key) x.trace x.ended

end RestoreContext

section Try

variable {ctx : RestoreContext} {key : Str} {t : List RestoreEvent} {e : End Str Tried}

/-- What one try can come to. -/
inductive TryRun (ctx : RestoreContext) (key : Str) : List RestoreEvent → End Str Tried → Prop
  | cut (t : List RestoreEvent) : (∀ ev ∈ t, ¬IsCreate ev) → TryRun ctx key t .cut
  | missing : ctx.manifest.tables.get? key = none → TryRun ctx key [] (.returned .skipped)
  | found (tm : TableManifest) : ctx.manifest.tables.get? key = some tm →
    TryRun ctx key [⟨.tableExists (destination ctx.remap key).1 (destination ctx.remap key).2, .ok true⟩]
      (.returned .done)
  | noDdl (tm : TableManifest) (found : Except Str Bool) : ctx.manifest.tables.get? key = some tm →
    tm.ddl = [] →
    TryRun ctx key [⟨.tableExists (destination ctx.remap key).1 (destination ctx.remap key).2, found⟩]
      (.returned .skipped)
  | created (tm : TableManifest) (found : Except Str Bool) : ctx.manifest.tables.get? key = some tm →
    tm.ddl ≠ [] →
    TryRun ctx key [⟨.tableExists (destination ctx.remap key).1 (destination ctx.remap key).2, found⟩,
      ⟨.executeDdl (.table (destination ctx.remap key).1 (destination ctx.remap key).2)
        (ctx.objectDdl key tm), .ok ()⟩] (.returned .done)
  | refused (tm : TableManifest) (found : Except Str Bool) (err : Str) :
    ctx.manifest.tables.get? key = some tm → tm.ddl ≠ [] →
    TryRun ctx key [⟨.tableExists (destination ctx.remap key).1 (destination ctx.remap key).2, found⟩,
      ⟨.executeDdl (.table (destination ctx.remap key).1 (destination ctx.remap key).2)
        (ctx.objectDdl key tm), .error err⟩] (.returned (.failed err))
  -- the process dies after the CREATE
  | cutAfter (tm : TableManifest) (found : Except Str Bool) (reply : Except Str Unit) :
    ctx.manifest.tables.get? key = some tm → tm.ddl ≠ [] →
    TryRun ctx key [⟨.tableExists (destination ctx.remap key).1 (destination ctx.remap key).2, found⟩,
      ⟨.executeDdl (.table (destination ctx.remap key).1 (destination ctx.remap key).2)
        (ctx.objectDdl key tm), reply⟩] .cut

theorem tryRun_of_runs (h : Runs (ctx.createDdlObject key) t e) : TryRun ctx key t e := by
  rw [createDdlObject] at h
  split at h
  · rename_i hnone
    cases h with
    | ret => exact .missing hnone
    | cut => exact .cut [] fun _ hev => absurd hev List.not_mem_nil
  · rename_i tm hsome
    cases h with
    | cut => exact .cut [] fun _ hev => absurd hev List.not_mem_nil
    | call found h =>
      change Runs (if (found : Except Str Bool).toOption.getD false = true then .ret .done else
        if tm.ddl = [] then .ret .skipped else _) _ e at h
      split_ifs at h with hfound hddl
      · obtain rfl : found = .ok true := by
          cases found with
          | ok b => exact congrArg _ hfound
          | error e => cases hfound
        cases h with
        | ret => exact .found tm hsome
        | cut => exact .cut _ fun ev hev => by rw [List.mem_singleton.mp hev]; exact id
      · cases h with
        | ret => exact .noDdl tm found hsome hddl
        | cut => exact .cut _ fun ev hev => by rw [List.mem_singleton.mp hev]; exact id
      · cases h with
        | cut => exact .cut _ fun ev hev => by rw [List.mem_singleton.mp hev]; exact id
        | call reply h =>
          cases reply with
          | ok a =>
            cases h with
            | ret => exact .created tm found hsome hddl
            | cut => exact .cutAfter tm found _ hsome hddl
          | error err =>
            cases h with
            | ret => exact .refused tm found err hsome hddl
            | cut => exact .cutAfter tm found _ hsome hddl

/-- A try that fails has created nothing. -/
theorem TryRun.not_created {x : DdlTry} {err : Str} (h : TryRun ctx x.key x.trace x.ended)
    (hfailed : x.ended = .returned (.failed err)) : ¬x.Created := by
  obtain ⟨key, t, e⟩ := x
  dsimp only at h hfailed
  rintro ⟨ev, hev, hcreated⟩
  cases h with
  | refused tm found err' =>
    rcases List.mem_cons.mp hev with rfl | hev
    · exact hcreated
    · rw [List.mem_singleton.mp hev] at hcreated
      cases hcreated
  | _ => cases hfailed

end Try

/-! ## The rounds -/

section Rounds

variable {opName : Str} {tryOne : Str → RestoreProg Tried} {pending : List Str} {rounds : Nat}
  {t : List RestoreEvent}

/-- The tries of one round. -/
theorem tries_of_round {e : End Str (List (Str × Tried))}
    (h : Runs (forEach pending fun key => (tryOne key).bind fun r => .ret (key, r)) t e) :
    ∃ tries : List DdlTry, t = tries.flatMap DdlTry.trace ∧ tries.map DdlTry.key <+: pending ∧
      (∀ x ∈ tries, Runs (tryOne x.key) x.trace x.ended) ∧
        ∀ results, e = .returned results → tries.map DdlTry.key = pending ∧
          ∀ r ∈ results, ∃ x ∈ tries, x.key = r.1 ∧ x.ended = .returned r.2 := by
  obtain ⟨us, rfl, hkeys, hruns, hend⟩ := h.parts_of_forEach
  have hone : ∀ u ∈ us, Runs (tryOne u.1) u.2.1 (u.2.2.map Prod.snd) ∧
      ∀ result, u.2.2 = .returned result → (u.1, result.2) = result := fun u hu =>
    (hruns u hu).of_bind_ret (g := Prod.snd) fun _ => rfl
  refine ⟨us.map fun u => ⟨u.1, u.2.1, u.2.2.map Prod.snd⟩, ?_, ?_, fun x hx => ?_,
    fun results hresults => ?_⟩
  · rw [List.flatMap_map]
  · rw [List.map_map]
    exact hkeys
  · obtain ⟨u, hu, rfl⟩ := List.mem_map.mp hx
    exact (hone u hu).1
  · obtain ⟨hall, hvalues⟩ := hend results hresults
    refine ⟨by rw [List.map_map]; exact hall, fun r hr => ?_⟩
    have hmem : End.returned r ∈ us.map fun u => u.2.2 := hvalues ▸ List.mem_map_of_mem hr
    obtain ⟨u, hu, hur⟩ := List.mem_map.mp hmem
    refine ⟨_, List.mem_map_of_mem hu, congrArg Prod.fst ((hone u hu).2 r hur), ?_⟩
    dsimp only
    rw [hur]
    rfl

/-- The keys of the results of a round. -/
theorem keys_of_round {results : List (Str × Tried)}
    (h : Runs (forEach pending fun key => (tryOne key).bind fun r => .ret (key, r)) t
      (.returned results)) : results.map Prod.fst = pending := by
  have hround : ∀ key ∈ pending, Within (fun _ => True) (fun r : Str × Tried => key = r.1)
      ((tryOne key).bind fun r => .ret (key, r)) :=
    fun key _ => (within_any (tryOne key)).bind fun _ _ => within_ret rfl
  have hkeys := ((within_forEach hround).runs h).2 results rfl
  rw [← List.forall₂_eq_eq_eq, List.forall₂_map_left_iff]
  exact hkeys.flip.imp fun _ _ h => h.symm

theorem failures_sublist (results : List (Str × Tried)) :
    ((failures results).map Prod.fst).Sublist (results.map Prod.fst) := by
  induction results with
  | nil => exact List.Sublist.refl _
  | cons r results ih =>
    rw [failures, List.filterMap_cons]
    split
    · exact ih.cons _
    · rename_i hsome
      split at hsome
      · cases hsome
        exact ih.cons_cons _
      · cases hsome

theorem mem_failures {results : List (Str × Tried)} {key err : Str}
    (h : (key, err) ∈ failures results) : (key, Tried.failed err) ∈ results := by
  obtain ⟨⟨k, r⟩, hr, hf⟩ := List.mem_filterMap.mp h
  cases r with
  | failed err' =>
    cases hf
    exact hr
  | _ => cases hf

/-- **The tries of the loop.**  What is tried again has failed before. -/
theorem tries_of_retryLoop {isPrintable : Char → Bool} {e : End Str Unit} (hnodup : pending.Nodup)
    (h : Runs (retryLoop isPrintable opName tryOne rounds pending) t e) :
    ∃ tries : List DdlTry, t = tries.flatMap DdlTry.trace ∧
      (∀ x ∈ tries, x.key ∈ pending ∧ Runs (tryOne x.key) x.trace x.ended) ∧
        tries.Pairwise fun x y => x.key = y.key → ∃ err, x.ended = .returned (.failed err) := by
  induction rounds generalizing pending t with
  | zero =>
    have ht : t = [] := by
      rw [retryLoop] at h
      split at h <;> cases h <;> rfl
    exact ⟨[], ht, fun x hx => absurd hx List.not_mem_nil, List.Pairwise.nil⟩
  | succ rounds ih =>
    rw [retryLoop] at h
    have hround : ∀ tries : List DdlTry, tries.map DdlTry.key <+: pending →
        (∀ x ∈ tries, Runs (tryOne x.key) x.trace x.ended) →
        (∀ x ∈ tries, x.key ∈ pending ∧ Runs (tryOne x.key) x.trace x.ended) ∧
          tries.Pairwise fun x y => x.key ≠ y.key := by
      intro tries hkeys hruns
      refine ⟨fun x hx => ⟨hkeys.subset (List.mem_map_of_mem hx), hruns x hx⟩, ?_⟩
      exact List.pairwise_map.mp (hnodup.sublist hkeys.sublist)
    rcases h.of_bind with ⟨results, t₁, t₂, rfl, h₁, h₂⟩ | ⟨rfl, h₁⟩ | ⟨z, rfl, h₁⟩
    · obtain ⟨tries, rfl, hkeys, hruns, hend⟩ := tries_of_round h₁
      obtain ⟨hmem, hdistinct⟩ := hround tries hkeys hruns
      obtain ⟨-, hresults⟩ := hend results rfl
      have hlast : (t₂ = [] → ∃ tries' : List DdlTry,
          tries.flatMap DdlTry.trace ++ t₂ = tries'.flatMap DdlTry.trace ∧
            (∀ x ∈ tries', x.key ∈ pending ∧ Runs (tryOne x.key) x.trace x.ended) ∧
              tries'.Pairwise fun x y => x.key = y.key → ∃ err, x.ended = .returned (.failed err)) := by
        intro ht₂
        rw [ht₂, List.append_nil]
        exact ⟨tries, rfl, hmem, hdistinct.imp fun hne heq => absurd heq hne⟩
      dsimp only at h₂
      split_ifs at h₂
      · exact hlast (by cases h₂ <;> rfl)
      · exact hlast (by cases h₂ <;> rfl)
      have hsub : ((failures results).map Prod.fst).Sublist pending :=
        keys_of_round h₁ ▸ failures_sublist results
      obtain ⟨later, rfl, hlater, hpair⟩ := ih (hnodup.sublist hsub) h₂
      refine ⟨tries ++ later, List.flatMap_append.symm, fun x hx => ?_, ?_⟩
      · rcases List.mem_append.mp hx with hx | hx
        · exact hmem x hx
        · exact ⟨hsub.subset (hlater x hx).1, (hlater x hx).2⟩
      · refine List.pairwise_append.mpr ⟨hdistinct.imp fun hne heq => absurd heq hne, hpair, ?_⟩
        intro x hx y hy hxy
        -- the key of the later try is among the failures of this round
        obtain ⟨⟨key, err⟩, hfailure, hkey⟩ := List.mem_map.mp (hlater y hy).1
        obtain ⟨x', hx', hkey', hended⟩ := hresults _ (mem_failures hfailure)
        have hsame : x' = x := List.inj_on_of_nodup_map (hnodup.sublist hkeys.sublist) hx' hx
          (hkey'.trans (hkey.trans hxy.symm))
        exact ⟨err, hsame ▸ hended⟩
    · obtain ⟨tries, rfl, hkeys, hruns, -⟩ := tries_of_round h₁
      obtain ⟨hmem, hdistinct⟩ := hround tries hkeys hruns
      exact ⟨tries, rfl, hmem, hdistinct.imp fun hne heq => absurd heq hne⟩
    · obtain ⟨tries, rfl, hkeys, hruns, -⟩ := tries_of_round h₁
      obtain ⟨hmem, hdistinct⟩ := hround tries hkeys hruns
      exact ⟨tries, rfl, hmem, hdistinct.imp fun hne heq => absurd heq hne⟩

end Rounds

/-! ## The objects on the server -/

/-- The objects after an event: a CREATE that succeeds makes one. -/
def objectsAfter (s : Set (Str × Str)) : RestoreEvent → Set (Str × Str)
  | ⟨.executeDdl (.table db table) _, .ok _⟩ => insert (db, table) s
  | _ => s

/-- An object that is found is there. -/
def FindsOnly (s : Set (Str × Str)) : RestoreEvent → Prop
  | ⟨.tableExists db table, found⟩ => found = .ok true → (db, table) ∈ s
  | _ => True

/-- A CREATE succeeds exactly if the objects it depends on are there. -/
def CreatesExactly (depends : Str × Str → Set (Str × Str)) (s : Set (Str × Str)) :
    RestoreEvent → Prop
  | ⟨.executeDdl (.table db table) _, reply⟩ => reply = .ok () ↔ depends (db, table) ⊆ s
  | _ => True

/-- A server that answers as it likes, but finds only what is there. -/
def objectWorld : World Call Call.Reply (Set (Str × Str)) where
  allows := FindsOnly
  next := objectsAfter

/-- A server on which a CREATE needs the objects it depends on, and nothing else. -/
def dependencyWorld (depends : Str × Str → Set (Str × Str)) :
    World Call Call.Reply (Set (Str × Str)) where
  allows s ev := FindsOnly s ev ∧ CreatesExactly depends s ev
  next := objectsAfter

section Objects

open World

variable {ctx : RestoreContext} {s : Set (Str × Str)} {key : Str} {keys : List Str}
  {t : List RestoreEvent} {depends : Str × Str → Set (Str × Str)}

theorem subset_objectsAfter (ev : RestoreEvent) : s ⊆ objectsAfter s ev := by
  obtain ⟨c, r⟩ := ev
  cases c with
  | executeDdl target ddl =>
    cases target with
    | table db table => cases r with
      | ok a => exact Set.subset_insert _ _
      | error e => exact subset_rfl
    | _ => exact subset_rfl
  | _ => exact subset_rfl

theorem subset_after (w : World Call Call.Reply (Set (Str × Str))) (hw : w.next = objectsAfter)
    (s : Set (Str × Str)) (t : List RestoreEvent) : s ⊆ w.after s t := by
  induction t generalizing s with
  | nil => exact subset_rfl
  | cons ev t ih =>
    refine subset_trans ?_ (ih _)
    rw [hw]
    exact subset_objectsAfter ev

/-- A try that does not fail leaves its object there, if the manifest has its DDL. -/
theorem TryRun.settled {r : Tried} (h : TryRun ctx key t (.returned r))
    (hr : ∀ err, r ≠ .failed err) (hddl : ctx.HasDdl key) (hlegal : objectWorld.Legal s t) :
    destination ctx.remap key ∈ objectWorld.after s t := by
  obtain ⟨tm, htm, hne⟩ := hddl
  cases h with
  | missing hnone => exact absurd (hnone.symm.trans htm) (by simp)
  | found tm' htm' => exact hlegal.1 rfl
  | noDdl tm' found htm' hempty =>
    rw [htm'] at htm
    cases htm
    exact absurd hempty hne
  | created tm' found htm' hne' => exact Set.mem_insert _ _
  | refused tm' found err => exact absurd rfl (hr err)

theorem ensures_round :
    objectWorld.Ensures s (forEach keys fun key => (ctx.createDdlObject key).bind fun r =>
      .ret (key, r)) fun results s' => s ⊆ s' ∧ ∀ key ∈ keys, ctx.HasDdl key →
        (∀ err, (key, Tried.failed err) ∉ results) → destination ctx.remap key ∈ s' := by
  induction keys generalizing s with
  | nil => exact ensures_ret ⟨subset_rfl, fun key hkey => absurd hkey List.not_mem_nil⟩
  | cons key keys ih =>
    have hone : objectWorld.Ensures s ((ctx.createDdlObject key).bind fun r =>
        (.ret (key, r) : RestoreProg (Str × Tried))) fun result s' => s ⊆ s' ∧ result.1 = key ∧
          (ctx.HasDdl key → (∀ err, result.2 ≠ .failed err) → destination ctx.remap key ∈ s') := by
      refine Ensures.bind fun t r hrun hlegal => ensures_ret ⟨subset_after _ rfl s t, rfl, ?_⟩
      exact fun hddl hr => (tryRun_of_runs hrun).settled hr hddl hlegal
    refine Ensures.bind (hone.imp fun result s₁ h₁ => Ensures.bind (ih.imp fun results s₂ h₂ =>
      ensures_ret ⟨subset_trans h₁.1 h₂.1, fun k hk hddl hresults => ?_⟩))
    rcases List.mem_cons.mp hk with rfl | hk
    · refine h₂.1 (h₁.2.2 hddl fun err herr => hresults err ?_)
      rw [← herr, ← h₁.2.1]
      exact List.mem_cons_self
    · exact h₂.2 k hk hddl fun err hmem => hresults err (List.mem_cons_of_mem _ hmem)

/-- **If the loop returns, the objects with a DDL are there.** -/
theorem ensures_retryLoop {isPrintable : Char → Bool} {opName : Str} {rounds : Nat} :
    objectWorld.Ensures s (retryLoop isPrintable opName ctx.createDdlObject rounds keys) fun _ s' =>
      s ⊆ s' ∧ ∀ key ∈ keys, ctx.HasDdl key → destination ctx.remap key ∈ s' := by
  induction rounds generalizing s keys with
  | zero =>
    rw [retryLoop]
    split_ifs with hnil
    · subst hnil
      exact ensures_ret ⟨subset_rfl, fun key hkey => absurd hkey List.not_mem_nil⟩
    · exact ensures_fail _
  | succ rounds ih =>
    rw [retryLoop]
    refine Ensures.bind (ensures_round.imp fun results s₁ h₁ => ?_)
    dsimp only
    have hnone : ∀ key, (∀ err, (key, err) ∉ failures results) →
        ∀ err, (key, Tried.failed err) ∉ results := fun key h err hmem =>
      h err (List.mem_filterMap.mpr ⟨_, hmem, rfl⟩)
    split_ifs with hempty hstuck
    · refine ensures_ret ⟨h₁.1, fun key hkey hddl => h₁.2 key hkey hddl (hnone key fun err hmem => ?_)⟩
      rw [hempty] at hmem
      exact absurd hmem List.not_mem_nil
    · exact ensures_fail _
    · refine ih.imp fun _ s₂ h₂ => ⟨subset_trans h₁.1 h₂.1, fun key hkey hddl => ?_⟩
      by_cases hfailed : key ∈ (failures results).map Prod.fst
      · exact h₂.2 key hfailed hddl
      · refine h₂.1 (h₁.2 key hkey hddl (hnone key fun err hmem => hfailed ?_))
        exact List.mem_map.mpr ⟨_, hmem, rfl⟩

/-- The objects come after those that they depend on, or these are there. -/
def InDependencyOrder (ctx : RestoreContext) (depends : Str × Str → Set (Str × Str))
    (s : Set (Str × Str)) (keys : List Str) : Prop :=
  ∀ earlier key later, keys = earlier ++ key :: later → ctx.HasDdl key →
    ∀ d ∈ depends (destination ctx.remap key), d ∈ s ∨
      ∃ k ∈ earlier, ctx.HasDdl k ∧ destination ctx.remap k = d

theorem legal_objectWorld (h : (dependencyWorld depends).Legal s t) :
    objectWorld.Legal s t ∧ (dependencyWorld depends).after s t = objectWorld.after s t := by
  induction t generalizing s with
  | nil => exact ⟨trivial, rfl⟩
  | cons ev t ih =>
    obtain ⟨hlegal, hafter⟩ := ih h.2
    exact ⟨⟨h.1.1, hlegal⟩, hafter⟩

/-- A try whose dependencies are there does not fail. -/
theorem TryRun.succeeds {e : End Str Tried} (h : TryRun ctx key t e)
    (hdeps : ctx.HasDdl key → depends (destination ctx.remap key) ⊆ s)
    (hlegal : (dependencyWorld depends).Legal s t) :
    e = .cut ∨ ∃ r, e = .returned r ∧ ∀ err, r ≠ .failed err := by
  cases h with
  | cut => exact .inl rfl
  | cutAfter => exact .inl rfl
  | refused tm found err htm hne =>
    have hreply := hlegal.2.1.2.mpr (hdeps ⟨tm, htm, hne⟩)
    cases hreply
  | _ => exact .inr ⟨_, rfl, fun err herr => by cases herr⟩

/-- One round in dependency order has no failure. -/
theorem round_of_order {e : End Str (List (Str × Tried))}
    (horder : InDependencyOrder ctx depends s keys)
    (h : Runs (forEach keys fun key => (ctx.createDdlObject key).bind fun r => .ret (key, r)) t e)
    (hlegal : (dependencyWorld depends).Legal s t) :
    e = .cut ∨ ∃ results, e = .returned results ∧ failures results = [] := by
  induction keys generalizing s t e with
  | nil =>
    cases h with
    | ret => exact .inr ⟨[], rfl, rfl⟩
    | cut => exact .inl rfl
  | cons key keys ih =>
    have htry : ∀ {t' : List RestoreEvent} {e' : End Str (Str × Tried)},
        Runs ((ctx.createDdlObject key).bind fun r => .ret (key, r)) t' e' →
        (dependencyWorld depends).Legal s t' → e' = .cut ∨ ∃ r, e' = .returned (key, r) ∧
          (∀ err, r ≠ .failed err) ∧ InDependencyOrder ctx depends
            ((dependencyWorld depends).after s t') keys := by
      intro t' e' hrun hlegal'
      obtain ⟨hrun', hvalue⟩ := hrun.of_bind_ret (g := Prod.snd) fun _ => rfl
      have htried := tryRun_of_runs hrun'
      have hdeps : ctx.HasDdl key → depends (destination ctx.remap key) ⊆ s := by
        intro hddl d hd
        rcases horder [] key keys rfl hddl d hd with hd | ⟨k, hk, -⟩
        · exact hd
        · exact absurd hk List.not_mem_nil
      cases e' with
      | cut => exact .inl rfl
      | failed z => cases htried
      | returned result =>
        refine .inr ⟨result.2, congrArg _ (hvalue result rfl).symm, ?_, ?_⟩
        · rcases htried.succeeds hdeps hlegal' with hcut | ⟨r, hr, hgood⟩
          · cases hcut
          · cases hr
            exact hgood
        · intro earlier k later hkeys hddl d hd
          have hsame := (legal_objectWorld hlegal').2
          rcases horder (key :: earlier) k later (by rw [hkeys]; rfl) hddl d hd with
            hthere | ⟨k', hk', hddl', rfl⟩
          · exact .inl (subset_after _ rfl s t' hthere)
          · rcases List.mem_cons.mp hk' with rfl | hk'
            · rcases htried.succeeds hdeps hlegal' with hcut | ⟨r, hr, hgood⟩
              · cases hcut
              · cases hr
                rw [hsame]
                exact .inl (htried.settled hgood hddl' (legal_objectWorld hlegal').1)
            · exact .inr ⟨k', hk', hddl', rfl⟩
    rcases h.of_bind with ⟨b, t₁, t₂, rfl, h₁, h₂⟩ | ⟨rfl, -⟩ | ⟨z, rfl, h₁⟩
    · obtain ⟨hl₁, hl₂⟩ := legal_append.mp hlegal
      rcases htry h₁ hl₁ with hcut | ⟨r, hr, hgood, hrest⟩
      · cases hcut
      · cases hr
        obtain ⟨hrun, hvalue⟩ := h₂.of_bind_ret (g := List.tail) fun _ => rfl
        rcases ih hrest hrun hl₂ with hcut | ⟨results, hresults, hnone⟩
        · cases e with
          | cut => exact .inl rfl
          | _ => cases hcut
        · cases e with
          | returned bs =>
            cases hresults
            refine .inr ⟨_, rfl, ?_⟩
            rw [← hvalue bs rfl, failures, List.filterMap_cons]
            cases r with
            | failed err => exact absurd rfl (hgood err)
            | _ => exact hnone
          | _ => cases hresults
    · exact .inl rfl
    · rcases htry h₁ hlegal with hcut | ⟨r, hr, -⟩
      · cases hcut
      · cases hr

end Objects

/-! ## The phase -/

/-- What `create_ddl_objects` does for a list of keys. -/
structure DdlCreation (ctx : RestoreContext) (keys : List Str) : Prop where
  /-- If the phase returns, the objects with a DDL are there. -/
  complete : ∀ s t, Runs (ctx.createDdlObjects keys) t (.returned ()) → objectWorld.Legal s t →
    ∀ key ∈ keys, ctx.HasDdl key → destination ctx.remap key ∈ objectWorld.after s t
  /-- No CREATE is issued for an object after one for it has succeeded, if no key is there twice. -/
  once : keys.Nodup → ∀ t e, Runs (ctx.createDdlObjects keys) t e → ∃ tries, ctx.TriedAs tries t ∧
    tries.Pairwise fun x y => x.key = y.key → x.Created → ¬y.Creates
  /-- In dependency order one round is enough. -/
  ordered : ∀ depends s, InDependencyOrder ctx depends s keys → ∀ t e,
    Runs (ctx.createDdlObjects keys) t e → e ≠ .cut → (dependencyWorld depends).Legal s t →
      e = .returned () ∧ ∃ tries, ctx.TriedAs tries t ∧ tries.map DdlTry.key = keys

/-- **The objects without data are created**, for every list of keys. -/
theorem ddl_objects_created (ctx : RestoreContext) (keys : List Str) : DdlCreation ctx keys where
  complete s t hrun hlegal := by
    rw [createDdlObjects] at hrun
    split_ifs at hrun with hnil
    · subst hnil
      exact fun key hkey => absurd hkey List.not_mem_nil
    · exact (ensures_retryLoop t () hrun hlegal).2
  once hkeys t e hrun := by
    rw [createDdlObjects] at hrun
    split_ifs at hrun with hnil
    · have ht : t = [] := by cases hrun <;> rfl
      exact ⟨[], ⟨ht, fun x hx => absurd hx List.not_mem_nil⟩, List.Pairwise.nil⟩
    · obtain ⟨tries, ht, hruns, hpair⟩ := tries_of_retryLoop hkeys hrun
      refine ⟨tries, ⟨ht, fun x hx => (hruns x hx).2⟩, ?_⟩
      refine hpair.imp_of_mem fun hx _ hfailed heq hcreated => ?_
      obtain ⟨err, hended⟩ := hfailed heq
      exact absurd hcreated ((tryRun_of_runs (hruns _ hx).2).not_created hended)
  ordered depends s horder t e hrun hend hlegal := by
    rw [createDdlObjects] at hrun
    split_ifs at hrun with hnil
    · subst hnil
      cases hrun with
      | ret => exact ⟨rfl, [], ⟨rfl, fun x hx => absurd hx List.not_mem_nil⟩, rfl⟩
      | cut => exact absurd rfl hend
    · rw [maxRounds, retryLoop] at hrun
      rcases hrun.of_bind with ⟨results, t₁, t₂, rfl, h₁, h₂⟩ | ⟨rfl, -⟩ | ⟨z, rfl, h₁⟩
      · obtain ⟨hl₁, -⟩ := World.legal_append.mp hlegal
        rcases round_of_order horder h₁ hl₁ with hcut | ⟨results', hresults, hnone⟩
        · cases hcut
        · cases hresults
          dsimp only at h₂
          rw [if_pos hnone] at h₂
          obtain ⟨tries, rfl, -, hruns, hall⟩ := tries_of_round h₁
          cases h₂ with
          | ret =>
            rw [List.append_nil]
            exact ⟨rfl, tries, ⟨rfl, hruns⟩, (hall _ rfl).1⟩
          | cut => exact absurd rfl hend
      · exact absurd rfl hend
      · rcases round_of_order horder h₁ hlegal with hcut | ⟨results', hresults, -⟩
        · cases hcut
        · cases hresults

/-- The restore of a view with a DDL. -/
def viewContext (ddl : Str) : RestoreContext where
  env := plainEnv default default default
  fate := plainFate
  manifest := plainManifest [("db.v", { (default : TableManifest) with ddl := ddl })]
  remap := none
  replicatedDatabases := []
  macros := SortedMap.empty

/-- The restore of a view and of one that reads it. -/
def twoViews : RestoreContext where
  env := plainEnv default default default
  fate := plainFate
  manifest := plainManifest [("db.v", { (default : TableManifest) with ddl := "CREATE VIEW db.v AS SELECT 1" }),
    ("db.w", { (default : TableManifest) with ddl := "CREATE VIEW db.w AS SELECT * FROM db.v" })]
  remap := none
  replicatedDatabases := []
  macros := SortedMap.empty

/-- The second view depends on the first. -/
def viewDepends (d : Str × Str) : Set (Str × Str) :=
  if d = destination none "db.w" then {destination none "db.v"} else ∅

theorem twoViews_in_order : InDependencyOrder twoViews viewDepends ∅ ["db.v", "db.w"] := by
  intro earlier key later hkeys _ d hd
  rcases earlier with - | ⟨a, - | ⟨b, earlier⟩⟩
  · obtain ⟨rfl, -⟩ := List.cons_eq_cons.mp hkeys
    have hnone : viewDepends (destination twoViews.remap "db.v") = ∅ := if_neg (by decide)
    rw [hnone] at hd
    exact absurd hd (Set.notMem_empty d)
  · obtain ⟨hfirst, hkeys⟩ := List.cons_eq_cons.mp hkeys
    obtain ⟨rfl, -⟩ := List.cons_eq_cons.mp hkeys
    rw [← hfirst]
    have hone : viewDepends (destination twoViews.remap "db.w") = {destination none "db.v"} := if_pos rfl
    rw [hone] at hd
    exact .inr ⟨"db.v", List.mem_cons_self, ⟨_, rfl, List.cons_ne_nil _ _⟩, hd.symm⟩
  · obtain ⟨-, hkeys⟩ := List.cons_eq_cons.mp hkeys
    obtain ⟨-, hkeys⟩ := List.cons_eq_cons.mp hkeys
    exact absurd hkeys.symm (List.append_ne_nil_of_right_ne_nil _ (List.cons_ne_nil _ _))

/-- One round creates both views, and no view twice. -/
theorem two_views_created :
    (∀ t e, Runs (twoViews.createDdlObjects ["db.v", "db.w"]) t e → ∃ tries, twoViews.TriedAs tries t ∧
      tries.Pairwise fun x y => x.key = y.key → x.Created → ¬y.Creates) ∧
    ∀ t e, Runs (twoViews.createDdlObjects ["db.v", "db.w"]) t e → e ≠ .cut →
      (dependencyWorld viewDepends).Legal ∅ t →
        e = .returned () ∧ ∃ tries, twoViews.TriedAs tries t ∧ tries.map DdlTry.key = ["db.v", "db.w"] :=
  have h := ddl_objects_created twoViews ["db.v", "db.w"]
  ⟨h.once (by decide), h.ordered viewDepends ∅ twoViews_in_order⟩

/-- A server on which nothing is found. -/
def nothingFound : (c : Call) → c.Reply
  | .tableExists .. => .ok false
  | c => smooth c

/-- A view for which the manifest has no DDL is passed over, and the phase returns. -/
theorem view_without_ddl_passed_over :
    ¬∀ (ctx : RestoreContext) (keys : List Str), keys.Nodup → ∀ s t,
      Runs (ctx.createDdlObjects keys) t (.returned ()) → objectWorld.Legal s t →
        ∀ key ∈ keys, destination ctx.remap key ∈ objectWorld.after s t := by
  intro hall
  have hrun := runs_on nothingFound ((viewContext []).createDdlObjects ["db.v"])
  have hthere := hall (viewContext []) ["db.v"] (List.nodup_singleton _) ∅ _ hrun
    ⟨fun h => (by cases h), trivial⟩ "db.v" List.mem_cons_self
  exact hthere

end Chbackup
