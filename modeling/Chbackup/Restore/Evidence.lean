import Chbackup.Restore.Refused

/-!
# Why a restore takes a part for attached

A restore succeeds when no part is counted as skipped.  For each selected part there is then
something in the trace that made the restore count on it: the reply to an ATTACH PART, a line of
the state file, a name that the server reported, a link followed by an ATTACH TABLE.  `Settled`
lists these reasons, and `safe_restore` walks through the program once to show that there is one
for every part.  Whether a reason is a good one is a question about the world, not about the
program.
-/

namespace Chbackup

open CallTree Prog

/-- The names of a table in a map of parts. -/
def partsOf (attached : SortedMap Str (List Str)) (key : Str) : List Str :=
  (attached.get? key).getD []

/-- Calls that write down what is attached. -/
def Call.isTracking : Call → Bool
  | .startTracker _ => true
  | .recordAttached .. => true
  | .saveState _ => true
  | _ => false

namespace RestoreEnv

variable (env : RestoreEnv)

/-- The names of the selected parts of a table. -/
def selectedNames (key : Str) : List Str :=
  match env.manifestFile with
  | some (.ok m) => ((m.tables.get? key).map fun tm =>
      (env.selectedParts tm).map PartInfo.name).getD []
  | _ => []

/-- Why an attempt takes a part for attached when it starts. -/
inductive Known (h : List RestoreEvent) (key part : Str) : Prop where
  | recorded (reply : Except Str (Option RestoreState))
      (hev : (⟨.loadState, reply⟩ : RestoreEvent) ∈ h)
      (hpart : part ∈ partsOf (env.recordedParts reply) key)
  | reported (db table : Str) (parts : List Str)
      (hev : (⟨.querySystemParts key db table, .ok parts⟩ : RestoreEvent) ∈ h)
      (hpart : part ∈ parts)

/-- Why an attempt takes a part for attached when it ends. -/
inductive Settled (h : List RestoreEvent) (key part : Str) : Prop where
  | known (hknown : env.Known h key part)
  | attached (db table : Str)
      (hev : (⟨.attachPart key db table part, .ok ()⟩ : RestoreEvent) ∈ h)
  | tolerated (db table e : Str)
      (hev : (⟨.attachPart key db table part, .error e⟩ : RestoreEvent) ∈ h)
      (hclass : classifyAttachError e = .duplicatePart ∨ classifyAttachError e = .temporarilyLocked)
  | found (path db table : Str)
      (hevs : [(⟨.dirExists key part path, true⟩ : RestoreEvent),
        ⟨.attachTable key db table, .ok ()⟩].Sublist h)
  | linked (source path db table : Str)
      (hevs : [(⟨.linkPart key part source path, .ok ()⟩ : RestoreEvent),
        ⟨.attachTable key db table, .ok ()⟩].Sublist h)
  | cancelled (hevs : [(⟨.isCancelled, true⟩ : RestoreEvent), ⟨.isCancelled, false⟩].Sublist h)

/-- What is written down has a reason. -/
def Tracks (h : List RestoreEvent) : Call → Prop
  | .startTracker state => ∀ key part, part ∈ partsOf state.attachedParts key → env.Known h key part
  | .recordAttached key part => ∃ tableKey db table, RestoreContext.resumeKey tableKey = key ∧
      (⟨.attachPart tableKey db table part, .ok ()⟩ : RestoreEvent) ∈ h
  | .saveState state => ∀ key part, part ∈ partsOf state.attachedParts key →
      part ∈ env.selectedNames key → env.Settled h key part
  | _ => True

variable {env} {h h' : List RestoreEvent} {key part : Str}

theorem Known.mono (hk : env.Known h key part) (hh : h.Sublist h') : env.Known h' key part := by
  cases hk with
  | recorded reply hev hpart => exact .recorded reply (hh.subset hev) hpart
  | reported db table parts hev hpart => exact .reported db table parts (hh.subset hev) hpart

theorem Settled.mono (hs : env.Settled h key part) (hh : h.Sublist h') :
    env.Settled h' key part := by
  cases hs with
  | known hknown => exact .known (hknown.mono hh)
  | attached db table hev => exact .attached db table (hh.subset hev)
  | tolerated db table e hev hclass => exact .tolerated db table e (hh.subset hev) hclass
  | found path db table hevs => exact .found path db table (hevs.trans hh)
  | linked source path db table hevs => exact .linked source path db table (hevs.trans hh)
  | cancelled hevs => exact .cancelled (hevs.trans hh)

theorem tracks_mono (h h' : List RestoreEvent) (c : Call) (hh : h.Sublist h')
    (hc : env.Tracks h c) : env.Tracks h' c := by
  cases c with
  | startTracker state => exact fun key part hpart => (hc key part hpart).mono hh
  | recordAttached key part =>
    obtain ⟨tableKey, db, table, hkey, hev⟩ := hc
    exact ⟨tableKey, db, table, hkey, hh.subset hev⟩
  | saveState state => exact fun key part hpart hsel => (hc key part hpart hsel).mono hh
  | _ => trivial

theorem tracks_of_isTracking {c : Call} (hc : c.isTracking = false) (h : List RestoreEvent) :
    env.Tracks h c := by
  cases c <;> trivial

/-- A program that writes nothing down. -/
theorem safe_within {ε α : Type} {p : Prog Call Call.Reply ε α} {Q : α → Prop}
    (hp : Within (fun c => c.isTracking = false) Q p) :
    Safe env.Tracks (fun _ a => Q a) h p := hp.safe fun _ hc => tracks_of_isTracking hc

end RestoreEnv

namespace RestoreContext

variable {ctx : RestoreContext} {h : List RestoreEvent}

theorem isTracking_of_schemaCall {c : Call} (hc : ctx.SchemaCall c) : c.isTracking = false := by
  cases hc <;> rfl

/-! ## What is attached already -/

theorem mem_partsOf_mergeReported {recorded : SortedMap Str (List Str)}
    {reported : List (Str × Except Str (List Str))} {key part : Str}
    (hp : part ∈ partsOf (mergeReported recorded reported) key) :
    part ∈ partsOf recorded key ∨ ∃ parts, (key, .ok parts) ∈ reported ∧ part ∈ parts := by
  have hfold : part ∈ partsOf (reported.foldl addReported recorded) key := by
    unfold partsOf mergeReported at hp
    cases hget : (SortedMap.filter (reported.foldl addReported recorded) fun key parts =>
        key ∈ (reported.filter mayHaveParts).map Prod.fst || parts.isEmpty).get? key with
    | none => simp [hget] at hp
    | some parts =>
      rw [hget] at hp
      have hmem := (SortedMap.mem_filter.mp (SortedMap.get?_eq_some_iff.mp hget)).1
      rw [partsOf, SortedMap.get?_eq_some_iff.mpr hmem]
      exact hp
  clear hp
  induction reported generalizing recorded with
  | nil => exact Or.inl hfold
  | cons r reported ih =>
    rcases ih hfold with hrec | ⟨parts, hmem, hpart⟩
    · obtain ⟨k, reply⟩ := r
      unfold addReported at hrec
      cases reply with
      | error e => exact Or.inl hrec
      | ok parts =>
        dsimp only at hrec
        split at hrec
        · exact Or.inl hrec
        · rw [addParts, partsOf, SortedMap.get?_insert] at hrec
          split at hrec
          · rename_i hk
            subst hk
            rcases List.mem_union_iff.mp hrec with hold | hnew
            · exact Or.inl hold
            · exact Or.inr ⟨parts, List.mem_cons_self, hnew⟩
          · exact Or.inl hrec
    · exact Or.inr ⟨parts, List.mem_cons_of_mem _ hmem, hpart⟩

theorem safe_loadAttached : Safe ctx.env.Tracks (fun h attached =>
    ∀ key part, part ∈ partsOf attached key → ctx.env.Known h key part) h ctx.loadAttached := by
  unfold loadAttached
  split
  · refine safe_perform trivial fun loaded => ?_
    have hone : ∀ key ∈ ctx.dataTables, ∀ t, Safe ctx.env.Tracks
        (fun h (r : Str × Except Str (List Str)) => ∀ parts, r.2 = .ok parts →
          ∃ db table, (⟨.querySystemParts r.1 db table, .ok parts⟩ : RestoreEvent) ∈ h)
        (h ++ [⟨.loadState, loaded⟩] ++ t)
        ((perform (Call.querySystemParts key (destination ctx.remap key).1
          (destination ctx.remap key).2)).bind fun (reply : Except Str (List Str)) =>
            (.ret (key, reply) : RestoreProg _)) := by
      intro key _ t
      refine safe_perform trivial fun reply => ?_
      rw [safe_ret]
      intro parts hparts
      rw [show reply = .ok parts from hparts]
      exact ⟨_, _, List.mem_append_right _ (List.mem_singleton_self _)⟩
    refine Safe.bind (safe_forEach (S := fun _ h (r : Str × Except Str (List Str)) =>
      ∀ parts, r.2 = .ok parts →
        ∃ db table, (⟨.querySystemParts r.1 db table, .ok parts⟩ : RestoreEvent) ∈ h)
      (fun _ h h' r hh hr parts hparts => ?_) hone) fun t reported hreported => ?_
    · obtain ⟨db, table, hev⟩ := hr parts hparts
      exact ⟨db, table, hh.subset hev⟩
    · rw [safe_ret]
      intro key part hpart
      rcases mem_partsOf_mergeReported hpart with hrec | ⟨parts, hmem, hpart⟩
      · refine .recorded loaded ?_ hrec
        exact List.mem_append_left _ (List.mem_append_right _ (List.mem_singleton_self _))
      · obtain ⟨_, -, hr⟩ := exists_of_forall₂ hreported hmem
        obtain ⟨db, table, hev⟩ := hr parts rfl
        exact .reported db table parts hev hpart
  · rw [safe_ret]
    intro key part hpart
    cases hpart

/-- The items of an attempt, with a reason for every part they take for attached. -/
def ItemsKnown (ctx : RestoreContext) (h : List RestoreEvent) (items : List AttachParams) : Prop :=
  ∃ attached live b, items = ctx.restoreItems attached live b ∧
    ∀ key part, part ∈ partsOf attached key → ctx.env.Known h key part

theorem safe_gatherItems : Safe ctx.env.Tracks ctx.ItemsKnown h ctx.gatherItems := by
  refine safe_loadAttached.bind fun t attached hattached => ?_
  refine safe_perform trivial fun live => ?_
  refine Safe.bind (Q := fun _ _ => True) ?_ fun t' b _ => ?_
  · unfold s3Client
    split
    · exact safe_perform trivial fun _ => trivial
    · trivial
  refine Safe.bind (Q := fun _ _ => True) ?_ fun t'' _ _ => ?_
  · unfold startTracker onlyIf
    split
    · refine safe_perform (fun key part hpart => (hattached key part hpart).mono ?_) fun _ => trivial
      rw [List.append_assoc (h ++ t)]
      exact List.sublist_append_left _ _
    · trivial
  · refine ⟨attached, _, b, rfl, fun key part hpart => (hattached key part hpart).mono ?_⟩
    simp only [List.append_assoc]
    simp

/-! ## ATTACH TABLE mode -/

/-- A part directory is in the data directory of its table. -/
def Placed (h : List RestoreEvent) (key part : Str) : Prop :=
  (∃ path, (⟨.dirExists key part path, true⟩ : RestoreEvent) ∈ h) ∨
    ∃ source path, (⟨.linkPart key part source path, .ok ()⟩ : RestoreEvent) ∈ h

theorem Placed.mono {h h' : List RestoreEvent} {key part : Str} (hp : Placed h key part)
    (hh : h.Sublist h') : Placed h' key part := by
  rcases hp with ⟨path, hev⟩ | ⟨source, path, hev⟩
  · exact Or.inl ⟨path, hh.subset hev⟩
  · exact Or.inr ⟨source, path, hh.subset hev⟩

/-- A part that is in the data directory when its table is attached. -/
theorem Placed.settled {env : RestoreEnv} {key part db table : Str} (hp : Placed h key part) :
    env.Settled (h ++ [⟨.attachTable key db table, .ok ()⟩]) key part := by
  have hpair : ∀ ev, ev ∈ h → [ev, (⟨.attachTable key db table, .ok ()⟩ : RestoreEvent)].Sublist
      (h ++ [⟨.attachTable key db table, .ok ()⟩]) :=
    fun ev hev => (List.singleton_sublist.mpr hev).append (List.Sublist.refl _)
  rcases hp with ⟨path, hev⟩ | ⟨source, path, hev⟩
  · exact .found path db table (hpair _ hev)
  · exact .linked source path db table (hpair _ hev)

theorem safe_linkParts {env : RestoreEnv} {key path : Str} {sources : List (Str × Str)} :
    Safe env.Tracks (fun h _ => ∀ source ∈ sources, Placed h key source.1) h
      (linkParts key path sources) := by
  induction sources generalizing h with
  | nil => exact fun _ hmem => nomatch hmem
  | cons source sources ih =>
    obtain ⟨part, dir⟩ := source
    refine safe_perform trivial fun found => ?_
    refine Safe.bind (Q := fun h _ => Placed h key part) ?_ fun t _ hplaced => ?_
    · split
      · rename_i hfound
        refine Or.inl ⟨path.pathJoin part, List.mem_append_right _ ?_⟩
        rw [show found = true from hfound]
        exact List.mem_singleton_self _
      · refine safe_perform trivial fun reply => ?_
        cases reply with
        | error e => trivial
        | ok =>
          exact Or.inr ⟨dir, path.pathJoin part, List.mem_append_right _ (List.mem_singleton_self _)⟩
    · refine ih.imp fun t' _ hrest => ?_
      intro source hsource
      rcases List.mem_cons.mp hsource with rfl | hsource
      · exact hplaced.mono (List.sublist_append_left _ _)
      · exact hrest source hsource

theorem safe_tryAttachTableMode {key db table ddl path : Str} {plan : CompleteAttachPlan} :
    Safe ctx.env.Tracks (fun h _ => ∀ source ∈ plan.sources, ctx.env.Settled h key source.1) h
      (ctx.tryAttachTableMode key db table ddl plan path) := by
  refine safe_perform trivial fun detached => ?_
  cases detached with
  | error e => trivial
  | ok =>
    rw [orFail, ret_bind]
    refine Safe.bind (Q := fun _ _ => True) ?_ fun t _ _ => ?_
    · unfold dropOldReplica
      split
      · exact safe_perform trivial fun _ => trivial
      · trivial
    refine safe_linkParts.bind fun t' _ hplaced => ?_
    refine safe_perform trivial fun attached => ?_
    cases attached with
    | error e => trivial
    | ok =>
      refine safe_perform trivial fun restored => ?_
      cases restored with
      | error e => trivial
      | ok =>
        intro source hsource
        exact (hplaced source hsource).settled.mono (List.sublist_append_left _ _)

/-- A plan without missing parts has every selected part of its table. -/
theorem mem_sources_of_complete {key : Str} {tm : TableManifest} {plan : CompleteAttachPlan}
    (htm : ctx.manifest.tables.get? key = some tm) (hplan : ctx.attachPlan? key = some (plan, 0))
    {part : PartInfo} (hpart : part ∈ ctx.env.selectedParts tm) :
    ∃ source ∈ plan.sources, source.1 = part.name := by
  obtain ⟨hall, hselected⟩ := List.mem_filter.mp hpart
  obtain ⟨parts, hparts, hmem⟩ := List.mem_flatten.mp hall
  obtain ⟨entry, hentry, rfl⟩ := List.mem_map.mp hparts
  have hresolved : (part.name, ctx.stagedDir key entry.1 part.name) ∈ ctx.resolvedParts key tm :=
    List.mem_map.mpr ⟨(entry.1, part), List.mem_filter.mpr
      ⟨List.mem_flatMap.mpr ⟨entry, hentry, List.mem_map_of_mem hmem⟩, hselected⟩, rfl⟩
  have hcomplete : missingSources (ctx.resolvedParts key tm) = [] ∧
      plan = ⟨resolvedSources (ctx.resolvedParts key tm)⟩ := by
    have hdecision : ∀ d, ctx.attachDecision key = some d → d = decideAttachTable
        (ctx.resolvedParts key tm) ctx.env.config.attachTableRequireComplete := by
      intro d hd
      unfold attachDecision at hd
      simp only [htm] at hd
      split at hd
      · exact (Option.some.inj hd).symm
      · cases hd
    unfold attachPlan? at hplan
    split at hplan
    · rename_i plan' hd
      cases hplan
      have hd := hdecision _ hd
      unfold decideAttachTable at hd
      split at hd
      · rename_i hnil
        exact ⟨hnil, AttachTableDecision.attach.inj hd⟩
      · split at hd <;> cases hd
    · -- an incomplete plan lacks at least one part
      rename_i plan' missing total hd
      have hd := hdecision _ hd
      unfold decideAttachTable at hd
      split at hd
      · cases hd
      · rename_i hmissing
        split at hd
        · cases hd
        · cases hd
          exact absurd (List.length_eq_zero_iff.mp (Prod.mk.inj (Option.some.inj hplan)).2) hmissing
    · cases hplan
  have hstaged : ctx.stagedDir key entry.1 part.name ≠ none := by
    intro hnone
    have hmissing : part.name ∈ missingSources (ctx.resolvedParts key tm) :=
      List.mem_map.mpr ⟨_, List.mem_filter.mpr ⟨hresolved, by simp [hnone]⟩, rfl⟩
    rw [hcomplete.1] at hmissing
    cases hmissing
  obtain ⟨dir, hdir⟩ := Option.ne_none_iff_exists'.mp hstaged
  refine ⟨(part.name, dir), ?_, rfl⟩
  rw [hcomplete.2]
  refine List.mem_filterMap.mpr ⟨_, hresolved, ?_⟩
  rw [hdir]
  rfl

theorem safe_attachOrLeave {item : AttachParams} {tm : TableManifest} (hitem : ctx.IsItem item tm) :
    Safe ctx.env.Tracks (fun h r => match r with
      | .inl item' => item' = item
      | .inr result => result.2.2 = 0 →
          ∀ part ∈ item.parts, ctx.env.Settled h item.tableKey part.name) h
      (ctx.attachOrLeave item) := by
  unfold attachOrLeave
  split
  · rfl
  · rename_i plan missing hplan
    refine safe_tryAttachTableMode.attempt.bind fun t outcome houtcome => ?_
    cases outcome with
    | error e => rfl
    | ok n =>
      intro hzero part hpart
      rw [show missing = 0 from hzero] at hplan
      rw [hitem.parts] at hpart
      obtain ⟨source, hsource, hname⟩ := mem_sources_of_complete hitem.table hplan hpart
      rw [← hname]
      exact houtcome n rfl source hsource

/-! ## Attaching part by part -/

/-- An outcome of ATTACH PART: the part is missing, or there is a reason to count on it. -/
def Outcome (env : RestoreEnv) (key : Str) (part : PartInfo) (h : List RestoreEvent)
    (o : Option AttachErrorClass) : Prop :=
  o = some .missingPart ∨ env.Settled h key part.name

theorem outcome_mono {env : RestoreEnv} {key : Str} (part : PartInfo) (h h' : List RestoreEvent)
    (o : Option AttachErrorClass) (hh : h.Sublist h') (ho : Outcome env key part h o) :
    Outcome env key part h' o := ho.imp_right fun hs => hs.mono hh

theorem safe_attachPart {item : AttachParams} {part : PartInfo} :
    Safe ctx.env.Tracks (Outcome ctx.env item.tableKey part) h (ctx.attachPart item part.name) := by
  refine safe_perform trivial fun reply => ?_
  cases reply with
  | ok =>
    have hev : (⟨.attachPart item.tableKey item.db item.table part.name, .ok ()⟩ : RestoreEvent) ∈
        h ++ [⟨.attachPart item.tableKey item.db item.table part.name, .ok ()⟩] :=
      List.mem_append_right _ (List.mem_singleton_self _)
    refine Safe.bind (Q := fun _ _ => True) ?_ fun t _ _ => ?_
    · unfold onlyIf
      split
      · exact safe_perform ⟨item.tableKey, item.db, item.table, rfl, hev⟩ fun _ => trivial
      · trivial
    · exact Or.inr (.attached item.db item.table (List.mem_append_left _ hev))
  | error e =>
    dsimp only
    have hev : (⟨.attachPart item.tableKey item.db item.table part.name, .error e⟩ : RestoreEvent) ∈
        h ++ [⟨.attachPart item.tableKey item.db item.table part.name, .error e⟩] :=
      List.mem_append_right _ (List.mem_singleton_self _)
    cases hclass : classifyAttachError e with
    | unknown => trivial
    | missingPart => exact Or.inl rfl
    | duplicatePart => exact Or.inr (.tolerated item.db item.table e hev (Or.inl hclass))
    | temporarilyLocked => exact Or.inr (.tolerated item.db item.table e hev (Or.inr hclass))

theorem safe_collect {env : RestoreEnv} {α γ : Type} {S : γ → α → Prop} {xs : List (Except Str α)}
    {ys : List γ} (hx : List.Forall₂ (fun y x => ∀ a, x = .ok a → S y a) ys xs) :
    Safe env.Tracks (fun _ as => List.Forall₂ S ys as) h (collect xs) := by
  induction hx generalizing h with
  | nil => exact List.Forall₂.nil
  | @cons y x ys xs hyx _ ih =>
    cases x with
    | error e => trivial
    | ok a => exact ih.bind fun t as has => List.Forall₂.cons (hyx a rfl) has

theorem safe_attachAll {item : AttachParams} {parts : List PartInfo} :
    Safe ctx.env.Tracks (fun h os => List.Forall₂ (fun part o =>
      Outcome ctx.env item.tableKey part h o) parts os) h (ctx.attachAll item parts) := by
  unfold attachAll
  split
  · exact safe_forEach outcome_mono fun part _ t => safe_attachPart
  · refine Safe.bind (Safe.par (Q := fun part h (x : Except Str (Option AttachErrorClass)) =>
      ∀ o, x = .ok o → Outcome ctx.env item.tableKey part h o) RestoreEnv.tracks_mono
      (fun part h h' x hh hx o ho => outcome_mono part h h' o hh (hx o ho))
      (forall₂_map_right fun part _ => safe_attachPart.attempt)) fun t xs hxs => ?_
    exact (safe_collect hxs).imp fun t' os hos => hos.imp fun part o ho =>
      outcome_mono part _ _ o (List.sublist_append_left _ _) ho

/-- Every part of a table is taken for attached. -/
def TableSettled (env : RestoreEnv) (item : AttachParams) (h : List RestoreEvent) : Prop :=
  ∀ part ∈ item.parts, env.Settled h item.tableKey part.name

theorem TableSettled.mono {env : RestoreEnv} {item : AttachParams} {h h' : List RestoreEvent}
    (ht : TableSettled env item h) (hh : h.Sublist h') : TableSettled env item h' :=
  fun part hpart => (ht part hpart).mono hh

theorem safe_attachPartsInner {item : AttachParams}
    (hknown : ∀ part ∈ item.alreadyAttached, ctx.env.Known h item.tableKey part) :
    Safe ctx.env.Tracks (fun h r => r.2 = 0 → TableSettled ctx.env item h) h
      (ctx.attachPartsInner item) := by
  unfold attachPartsInner
  split
  · rename_i hparts
    intro _ part hpart
    rw [hparts] at hpart
    cases hpart
  · refine safe_perform trivial fun reply => ?_
    refine Safe.bind (Q := fun _ _ => True) ?_ fun t₁ _ _ => ?_
    · cases reply <;> trivial
    refine Safe.bind (Q := fun _ _ => True) ?_ fun t₂ _ _ => ?_
    · refine RestoreEnv.safe_within ((within_forEach (Q := fun _ => Any) fun part _ => ?_).imp
        fun _ _ => trivial)
      unfold preparePart
      split
      · exact within_ret trivial
      · split
        · exact within_ret trivial
        · exact within_perform rfl fun _ => within_orFail fun _ _ => trivial
    refine safe_attachAll.bind fun t₃ outcomes houtcomes => ?_
    intro hzero part hpart
    dsimp only at hzero
    by_cases hattached : part.name ∈ item.alreadyAttached
    · refine .known ((hknown part.name hattached).mono ?_)
      simp only [List.append_assoc]
      exact List.sublist_append_left _ _
    -- nothing is missing, so the part was attached in this attempt
    have hwork : part ∈ workParts item :=
      List.mem_filter.mpr ⟨mem_sortPartsByMinBlock.mpr hpart, by simpa using hattached⟩
    have hnone : ctx.missingSourceParts item = [] := by
      have : (ctx.missingSourceParts item).dedup.length = 0 := by omega
      exact (List.dedup_eq_nil _).mp (List.length_eq_zero_iff.mp this)
    have htodo : part ∈ ctx.partsToAttach item :=
      List.mem_filter.mpr ⟨hwork, by simp [hnone]⟩
    obtain ⟨o, ho, hout⟩ := exists_of_forall₂ houtcomes.flip htodo
    refine hout.resolve_left fun hmissing => ?_
    have hmem : o ∈ outcomes.filter fun o =>
        (o.map AttachErrorClass.countsAsMissingData).getD false :=
      List.mem_filter.mpr ⟨ho, by rw [hmissing]; rfl⟩
    have hlen := List.length_pos_of_mem hmem
    omega

theorem safe_attachPartsOwned {item : AttachParams}
    (hknown : ∀ part ∈ item.alreadyAttached, ctx.env.Known h item.tableKey part) :
    Safe ctx.env.Tracks (fun h r => r.2 = 0 → TableSettled ctx.env item h) h
      (ctx.attachPartsOwned item) := by
  refine Safe.bind (Q := fun _ _ => True) ?_ fun t s3Skipped _ => ?_
  · split
    · refine safe_perform trivial fun reply => ?_
      cases reply <;> trivial
    · trivial
  · refine (safe_attachPartsInner fun part hpart =>
      (hknown part hpart).mono (List.sublist_append_left _ _)).bind fun t' r hr => ?_
    intro hzero
    exact (hr (by dsimp only at hzero; omega)).mono (by simp)

/-- What the task of a table comes to: it was cancelled, or it skipped parts, or every part is
taken for attached. -/
def TaskOutcome (env : RestoreEnv) (item : AttachParams) (h : List RestoreEvent)
    (r : TableResult) : Prop :=
  (⟨.isCancelled, true⟩ : RestoreEvent) ∈ h ∨ (r.2.2 = 0 → TableSettled env item h)

theorem taskOutcome_mono {env : RestoreEnv} (item : AttachParams) (h h' : List RestoreEvent)
    (r : TableResult) (hh : h.Sublist h') (ho : TaskOutcome env item h r) :
    TaskOutcome env item h' r :=
  ho.imp (fun hev => hh.subset hev) fun hs hzero => (hs hzero).mono hh

theorem safe_tableTask {item : AttachParams}
    (hknown : ∀ part ∈ item.alreadyAttached, ctx.env.Known h item.tableKey part) :
    Safe ctx.env.Tracks (TaskOutcome ctx.env item) h (ctx.tableTask item) := by
  refine safe_perform trivial fun cancelled => ?_
  split
  · rename_i hcancelled
    refine Or.inl (List.mem_append_right _ ?_)
    rw [show cancelled = true from hcancelled]
    exact List.mem_singleton_self _
  · refine (safe_attachPartsOwned fun part hpart =>
      (hknown part hpart).mono (List.sublist_append_left _ _)).mapError.bind fun t r hr => ?_
    exact Or.inr hr

theorem safe_attachItems {items : List AttachParams}
    (hknown : ∀ item ∈ items, ∀ part ∈ item.alreadyAttached, ctx.env.Known h item.tableKey part) :
    Safe ctx.env.Tracks (fun h rs => List.Forall₂ (fun item r => TaskOutcome ctx.env item h r)
      items rs) h (ctx.attachItems items) := by
  refine Safe.bind (Safe.par (Q := fun item h (x : Except Str TableResult) =>
    ∀ r, x = .ok r → TaskOutcome ctx.env item h r) RestoreEnv.tracks_mono
    (fun item h h' x hh hx r hr => taskOutcome_mono item h h' r hh (hx r hr))
    (forall₂_map_right fun item hitem => (safe_tableTask (hknown item hitem)).attempt))
    fun t xs hxs => ?_
  exact (safe_collect hxs).imp fun t' rs hrs => hrs.imp fun item r hr =>
    taskOutcome_mono item _ _ r (List.sublist_append_left _ _) hr

/-! ## The whole restore -/

theorem known_of_itemsKnown {items : List AttachParams} (hitems : ctx.ItemsKnown h items)
    {item : AttachParams} (hitem : item ∈ items) :
    ∀ part ∈ item.alreadyAttached, ctx.env.Known h item.tableKey part := by
  obtain ⟨attached, live, b, rfl, hknown⟩ := hitems
  obtain ⟨key, -, hkey⟩ := List.mem_filterMap.mp hitem
  split at hkey
  · cases hkey
  · split at hkey
    · cases hkey
    · cases hkey
      exact fun part hpart => hknown key part hpart

theorem isItem_of_itemsKnown {items : List AttachParams} (hitems : ctx.ItemsKnown h items)
    {item : AttachParams} (hitem : item ∈ items) : ∃ tm, ctx.IsItem item tm := by
  obtain ⟨attached, live, b, rfl, -⟩ := hitems
  exact isItem_of_mem hitem

/-- Every table with selected parts has an item. -/
theorem exists_item {items : List AttachParams} (hitems : ctx.ItemsKnown h items) {key : Str}
    (hkey : key ∈ ctx.dataTables) {tm : TableManifest}
    (htm : ctx.manifest.tables.get? key = some tm) (hparts : ctx.env.selectedParts tm ≠ []) :
    ∃ item ∈ items, item.tableKey = key ∧ item.parts = ctx.env.selectedParts tm := by
  obtain ⟨attached, live, b, rfl, -⟩ := hitems
  have hmem : key ∈ (ctx.restoreItems attached live b).map AttachParams.tableKey := by
    rw [map_tableKey_restoreItems]
    exact List.mem_filter.mpr ⟨hkey, by simp [htm, hparts]⟩
  obtain ⟨item, hitem, rfl⟩ := List.mem_map.mp hmem
  obtain ⟨tm', hitem'⟩ := isItem_of_mem hitem
  have htm' := hitem'.table
  rw [htm] at htm'
  cases htm'
  exact ⟨item, hitem, rfl, hitem'.parts⟩

/-- Every selected part is taken for attached. -/
def AllSettled (ctx : RestoreContext) (h : List RestoreEvent) : Prop :=
  ∀ key ∈ ctx.phases.dataTables, ∀ tm, ctx.manifest.tables.get? key = some tm →
    ∀ part ∈ ctx.env.selectedParts tm, ctx.env.Settled h key part.name

/-- A task that was cancelled makes the restore stop after the tasks. -/
theorem TaskOutcome.settled {item : AttachParams} {r : TableResult}
    (ho : TaskOutcome ctx.env item h r) (hzero : r.2.2 = 0) :
    TableSettled ctx.env item (h ++ [⟨.isCancelled, false⟩]) := by
  rcases ho with hev | hs
  · intro part _
    exact .cancelled ((List.singleton_sublist.mpr hev).append (List.Sublist.refl _))
  · exact (hs hzero).mono (List.sublist_append_left _ _)

theorem safe_attachPhase : Safe ctx.env.Tracks (fun h r => r.2 = 0 →
    (r.1.map fun r => r.2.2).sum = 0 → ∀ key ∈ ctx.dataTables, ∀ tm,
      ctx.manifest.tables.get? key = some tm → ∀ part ∈ ctx.env.selectedParts tm,
        ctx.env.Settled h key part.name) h ctx.attachPhase := by
  refine safe_gatherItems.bind fun t₁ items hitems => ?_
  refine (RestoreEnv.safe_within (within_checkReplicas fun _ _ => rfl)).bind
    fun t₂ checked hchecked => ?_
  obtain ⟨hsub, hkept⟩ := hchecked
  have hone : ∀ item ∈ checked.1, ∀ t, Safe ctx.env.Tracks
      (fun h r => match r with
        | .inl item' => item' = item
        | .inr result => result.2.2 = 0 → TableSettled ctx.env item h)
      (h ++ t₁ ++ t₂ ++ t) (ctx.attachOrLeave item) := by
    intro item hitem t
    obtain ⟨tm, hitem⟩ := isItem_of_itemsKnown hitems (hsub item hitem)
    exact safe_attachOrLeave hitem
  refine (safe_forEach (S := fun item h (r : AttachParams ⊕ TableResult) => match r with
    | .inl item' => item' = item
    | .inr result => result.2.2 = 0 → TableSettled ctx.env item h)
    (fun item h h' r hh hr => ?_) hone).bind fun t₃ rs hrs => ?_
  · cases r with
    | inl item' => exact hr
    | inr result => exact fun hzero => (hr hzero).mono hh
  have hlefts : ∀ item ∈ rs.filterMap Sum.getLeft?, item ∈ items := by
    intro item hitem
    obtain ⟨r, hr, hri⟩ := List.mem_filterMap.mp hitem
    obtain ⟨item', hitem', hrel⟩ := exists_of_forall₂ hrs hr
    cases r with
    | inl item'' =>
      cases hri
      rw [show item = item' from hrel]
      exact hsub item' hitem'
    | inr result => cases hri
  refine (safe_attachItems fun item hitem part hpart =>
    (known_of_itemsKnown hitems (hlefts item hitem) part hpart).mono (by simp)).bind
    fun t₄ results hresults => ?_
  refine safe_perform trivial fun cancelled => ?_
  split
  · trivial
  · rename_i hcancelled
    rw [show cancelled = false from Bool.eq_false_of_not_eq_true hcancelled]
    intro hzero hsum key hkey tm htm part hpart
    obtain ⟨item, hitem, rfl, hparts⟩ := exists_item hitems hkey htm (List.ne_nil_of_mem hpart)
    have hall : ∀ item ∈ items, item.parts ≠ [] := by
      intro item hitem
      obtain ⟨tm, hitem⟩ := isItem_of_itemsKnown hitems hitem
      exact hitem.nonempty
    rw [← hkept hall hzero] at hitem
    obtain ⟨r, hr, hrel⟩ := exists_of_forall₂ hrs.flip hitem
    have hskipped : ∀ result ∈ results ++ rs.filterMap Sum.getRight?, result.2.2 = 0 :=
      fun result hresult => List.sum_eq_zero_iff_forall_eq_nat.mp hsum _ (List.mem_map_of_mem hresult)
    cases r with
    | inl item' =>
      rw [show item' = item from hrel] at hr
      obtain ⟨result, hresult, hout⟩ := exists_of_forall₂ hresults.flip
        (List.mem_filterMap.mpr ⟨.inl item, hr, rfl⟩)
      exact TaskOutcome.settled hout (hskipped result (List.mem_append_left _ hresult)) part
        (hparts ▸ hpart)
    | inr result =>
      have hresult := hskipped result (List.mem_append_right _
        (List.mem_filterMap.mpr ⟨.inr result, hr, rfl⟩))
      exact ((hrel hresult).mono (by simp)) part (hparts ▸ hpart)

theorem AllSettled.mono {h h' : List RestoreEvent} (hs : ctx.AllSettled h) (hh : h.Sublist h') :
    ctx.AllSettled h' := fun key hkey tm htm part hpart => (hs key hkey tm htm part hpart).mono hh

/-- **A restore without skipped parts has a reason to count on every selected part.** -/
theorem safe_restoreSelected : Safe ctx.env.Tracks (fun h tally =>
    (tally = none → ctx.env.args.schemaOnly = true) ∧
      ∀ attached skipped, tally = some (attached, skipped) → skipped = 0 → ctx.AllSettled h) h
      ctx.restoreSelected := by
  have hschema : ∀ {α : Type} {p : RestoreProg α} {Q : α → Prop} {h : List RestoreEvent},
      Within ctx.SchemaCall Q p → Safe ctx.env.Tracks (fun _ a => Q a) h p :=
    fun hp => RestoreEnv.safe_within (hp.weaken fun _ => isTracking_of_schemaCall)
  refine (hschema within_dropPhase).bind fun t₁ _ _ => ?_
  refine (hschema within_createPhase).bind fun t₂ _ _ => ?_
  split
  · rename_i honly
    refine (hschema within_schemaTail).imp fun t tally hnone => ⟨fun _ => honly, ?_⟩
    rw [hnone]
    exact fun _ _ h => nomatch h
  · refine safe_attachPhase.bind fun t₃ r hr => ?_
    refine Safe.bind (Q := fun h tally => tally.2 = 0 → ctx.AllSettled h) ?_ fun t tally htally => ?_
    · refine Safe.bind (Q := fun _ _ => True) ?_ fun t₄ _ _ => ?_
      · refine RestoreEnv.safe_within ((within_reapplyPendingMutations r.1).weaken fun c hc => ?_)
        cases c <;> first | rfl | cases hc
      refine (hschema (within_dataTail _)).imp fun t₅ tally htally hzero => ?_
      rw [htally] at hzero
      dsimp only at hzero
      intro key hkey tm htm part hpart
      have hallowed : key ∈ ctx.dataTables := by
        refine List.mem_filter.mpr ⟨hkey, ?_⟩
        by_contra hrefused
        have hpos := (refusedParts_pos (show ctx.Refused key from
          ⟨hkey, by simpa using hrefused⟩)).2
        omega
      exact (hr (by omega) (by omega) key hallowed tm htm part hpart).mono (by simp)
    · refine ⟨fun h => (nomatch h), fun attached skipped heq hzero => ?_⟩
      cases heq
      exact htally hzero

theorem mem_dataTables_of_completionState {key part : Str}
    (hpart : part ∈ partsOf ctx.completionState.attachedParts key) : key ∈ ctx.dataTables := by
  unfold partsOf completionState at hpart
  rw [SortedMap.get?_foldl_insert] at hpart
  by_contra hkey
  rw [List.find?_eq_none.mpr] at hpart
  · cases hpart
  · intro b hb
    obtain ⟨key', hkey', hbind⟩ := List.mem_filterMap.mp (List.mem_reverse.mp hb)
    obtain ⟨tm, -, rfl⟩ := Option.map_eq_some_iff.mp hbind
    simp only [decide_eq_true_eq]
    rintro rfl
    exact hkey hkey'

/-- What a completed restore writes down has a reason. -/
theorem tracks_completionState (hm : ctx.env.manifestFile = some (.ok ctx.manifest))
    (hs : ctx.AllSettled h) : ctx.env.Tracks h (.saveState ctx.completionState) := by
  intro key part hpart hselected
  have hkey := (List.mem_filter.mp (mem_dataTables_of_completionState hpart)).1
  obtain ⟨-, tm, htm, -⟩ := mem_phases_dataTables.mp hkey
  rw [RestoreEnv.selectedNames, hm] at hselected
  simp only [htm, Option.map_some, Option.getD_some] at hselected
  obtain ⟨p, hp, rfl⟩ := List.mem_map.mp hselected
  exact hs key hkey tm htm p hp

end RestoreContext

/-- **What a restore writes down has a reason, and so has its success.** -/
theorem safe_restore {env : RestoreEnv} {fate : RestoreFate} {h : List RestoreEvent} :
    Safe env.Tracks (fun h _ => ∀ ctx, IsContext env fate ctx → env.args.schemaOnly = false →
      ctx.AllSettled h) h (restore env fate) := by
  cases hm : env.manifestFile with
  | none =>
    rw [restore, hm]
    trivial
  | some file =>
    cases file with
    | error e =>
      rw [restore, hm]
      trivial
    | ok m =>
      rw [restore_of_ok fate hm]
      refine Safe.bind (RestoreEnv.safe_within (within_prepare (P := fun c => c.isTracking = false)
        (fun c hc => ?_) hm)).mapError fun t prepared hprepared => ?_
      · cases c <;> first | rfl | cases hc
      obtain ⟨hnone, hsome⟩ := hprepared
      rcases prepared with - | ctx'
      · intro ctx hctx
        have hmanifest := hctx.manifest.symm.trans hm
        refine absurd (hnone rfl) ?_
        have hne := hctx.selectedKeys_ne
        rwa [show ctx.manifest = m by simpa using hmanifest] at hne
      · have hctx' := hsome ctx' rfl
        have hsafe : Safe ctx'.env.Tracks (fun h tally =>
            (tally = none → ctx'.env.args.schemaOnly = true) ∧
              ∀ attached skipped, tally = some (attached, skipped) → skipped = 0 →
                ctx'.AllSettled h) (h ++ t) ctx'.restoreSelected :=
          RestoreContext.safe_restoreSelected
        rw [hctx'.env_eq] at hsafe
        refine hsafe.mapError.bind fun t' tally htally => ?_
        obtain ⟨hnone, hsome⟩ := htally
        rcases tally with - | ⟨attached, skipped⟩
        · intro ctx _ hdata
          rw [hnone rfl] at hdata
          cases hdata
        rw [RestoreContext.verdict]
        split
        · trivial
        · rename_i hskipped
          have hall := hsome attached skipped rfl (by omega)
          have htracks := RestoreContext.tracks_completionState
            (hctx'.env_eq ▸ hctx'.manifest) hall
          rw [hctx'.env_eq] at htracks
          refine safe_perform htracks fun _ => ?_
          intro ctx hctx _
          rw [hctx'.same hctx]
          exact hall.mono (List.sublist_append_left _ _)

end Chbackup
