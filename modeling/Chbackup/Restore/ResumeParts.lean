import Chbackup.Restore.Evidence
import Chbackup.Restore.Mutations

/-!
# Parts over a sequence of attempts

The destination of a restore may hold parts of its own, the server gives a part a new name when it
attaches it, and it merges parts at any time.  So nothing can be said of the names that the server
reports: the reply to `query_system_parts` is any list.  What is kept of the world are the rows
that the attempts attached, the directories they linked, and the state file.
-/

namespace Chbackup

open CallTree Prog

/-! ## The world of a sequence of attempts -/

/-- What the attempts have done so far. -/
structure PartsState where
  /-- The parts whose rows were attached, with the key of their table. -/
  attached : List (Str × Str)
  /-- The part directories that were linked into a data directory. -/
  linked : List (Str × Str)
  /-- The state file. -/
  file : Option RestoreState
  /-- The state that the attempt in progress keeps in memory. -/
  tracker : RestoreState
  cancelled : Bool
  deriving DecidableEq

namespace PartsState

variable (s : PartsState)

/-- Before the first attempt. -/
def initial : PartsState := ⟨[], [], none, ⟨SortedMap.empty, [], []⟩, false⟩

/-- A new attempt starts with an empty memory. -/
def restart : PartsState := { s with tracker := ⟨SortedMap.empty, [], []⟩, cancelled := false }

/-- The tracker with one more part. -/
def track (key part : Str) : RestoreState :=
  { s.tracker with attachedParts :=
      s.tracker.attachedParts.insert key (partsOf s.tracker.attachedParts key ++ [part]) }

/-- What an event leads to. -/
def next : RestoreEvent → PartsState
  | ⟨.startTracker state, _⟩ => { s with tracker := state }
  | ⟨.recordAttached key part, (saved : Bool)⟩ =>
    { s with tracker := s.track key part, file := if saved then some (s.track key part) else s.file }
  | ⟨.saveState state, (r : Except Str Unit)⟩ => { s with file := if r.isOk then some state else s.file }
  | ⟨.attachPart key _ _ part, (r : Except Str Unit)⟩ =>
    { s with attached := if r.isOk then (key, part) :: s.attached else s.attached }
  | ⟨.linkPart key part _ _, (r : Except Str Unit)⟩ =>
    { s with linked := if r.isOk then (key, part) :: s.linked else s.linked }
  | ⟨.attachTable key _ _, (r : Except Str Unit)⟩ =>
    { s with attached := if r.isOk then s.linked.filter (fun l => l.1 = key) ++ s.attached
        else s.attached }
  | ⟨.isCancelled, (r : Bool)⟩ => { s with cancelled := r }
  | _ => s

/-- The state file holds what was written last, if it can be read, and a cancelled attempt stays
cancelled. -/
def answers : RestoreEvent → Bool
  | ⟨.loadState, (r : Except Str (Option RestoreState))⟩ =>
    match r with
    | .ok file => file = s.file
    | .error _ => true
  | ⟨.isCancelled, (r : Bool)⟩ => !s.cancelled || r
  | _ => true

/-- The replies from which a restore concludes that a part is there are about the part: a live part
has the name of a selected part, and an ATTACH is refused as a duplicate or because of a lock, only
if the rows of that part were attached, and a directory is in the place of a part only if an
attempt linked it there. -/
def reliable (selectedNames : Str → List Str) : RestoreEvent → Bool
  | ⟨.querySystemParts key _ _, (r : Except Str (List Str))⟩ =>
    match r with
    | .ok parts => parts.all fun part => part ∉ selectedNames key || (key, part) ∈ s.attached
    | .error _ => true
  | ⟨.attachPart key _ _ part, (r : Except Str Unit)⟩ =>
    match r with
    | .ok _ => true
    | .error e =>
      (classifyAttachError e ≠ .duplicatePart && classifyAttachError e ≠ .temporarilyLocked) ||
        (key, part) ∈ s.attached
  | ⟨.dirExists key part _, (r : Bool)⟩ => !r || (key, part) ∈ s.linked
  | _ => true

end PartsState

/-- The world of a sequence of attempts. -/
def partsWorld : World Call Call.Reply PartsState where
  allows s ev := s.answers ev = true
  next := PartsState.next

/-- The same world, where the replies from which a restore concludes that a part is there are
reliable. -/
def reliableWorld (env : RestoreEnv) : World Call Call.Reply PartsState where
  allows s ev := s.answers ev = true ∧ s.reliable env.selectedNames ev = true
  next := PartsState.next

/-- The state after attempts. -/
def afterAttempts {env : RestoreEnv} : PartsState → List (RestoreAttempt env) → PartsState
  | s, [] => s
  | s, a :: rest => afterAttempts (partsWorld.after s.restart a.trace) rest

/-- Attempts one after the other in a world. -/
def LegalAttempts {env : RestoreEnv} (w : World Call Call.Reply PartsState) :
    PartsState → List (RestoreAttempt env) → Prop
  | _, [] => True
  | s, a :: rest => w.Legal s.restart a.trace ∧ LegalAttempts w (w.after s.restart a.trace) rest

instance (s : PartsState) (ev : RestoreEvent) : Decidable (partsWorld.allows s ev) :=
  inferInstanceAs (Decidable (s.answers ev = true))

instance (env : RestoreEnv) (s : PartsState) (ev : RestoreEvent) :
    Decidable ((reliableWorld env).allows s ev) :=
  inferInstanceAs (Decidable (s.answers ev = true ∧ s.reliable env.selectedNames ev = true))

instance decidableLegalAttempts {env : RestoreEnv} (w : World Call Call.Reply PartsState)
    [∀ s ev, Decidable (w.allows s ev)] (s : PartsState) :
    (as : List (RestoreAttempt env)) → Decidable (LegalAttempts w s as)
  | [] => .isTrue trivial
  | a :: rest =>
    have := decidableLegalAttempts w (w.after s.restart a.trace) rest
    inferInstanceAs (Decidable (w.Legal s.restart a.trace ∧
      LegalAttempts w (w.after s.restart a.trace) rest))

namespace RestoreHistory

variable {env : RestoreEnv} (h : RestoreHistory env)

/-- All attempts. -/
def attempts : List (RestoreAttempt env) := h.earlier ++ [h.last]

/-- The rows of every selected part were attached by one of the attempts. -/
def LosesNoPart : Prop :=
  env.args.schemaOnly = false → ∀ ctx, IsContext (env.withResume h.last.resume) h.last.fate ctx →
    ∀ key ∈ ctx.tableKeys, ∀ part ∈ env.selectedNames key,
      (key, part) ∈ (afterAttempts PartsState.initial h.attempts).attached

end RestoreHistory

/-- Keys of the manifest name a database and a table, and tables with parts are restored with their
data. -/
def RestoreEnv.RegularManifest (env : RestoreEnv) : Prop :=
  ∀ m, env.manifestFile = some (.ok m) → ∀ key tm, m.tables.get? key = some tm →
    '.' ∈ key ∧ (env.selectedParts tm ≠ [] →
      isPostponed env.toUppercase tm = false ∧ tm.metadataOnly = false)

/-- The manifest is regular, and in every attempt the replies from which the restore concludes that
a part is there are reliable. -/
def RestoreHistory.Reliable {env : RestoreEnv} (h : RestoreHistory env) : Prop :=
  env.RegularManifest ∧ LegalAttempts (reliableWorld env) PartsState.initial h.attempts

/-! ## What the attempts write down -/

namespace PartsState

variable {s : PartsState}

/-- What is written down of the selected parts is true. -/
def Truthful (names : Str → List Str) (s : PartsState) (state : RestoreState) : Prop :=
  ∀ key part, part ∈ partsOf state.attachedParts key → part ∈ names key → (key, part) ∈ s.attached

theorem attached_next (ev : RestoreEvent) : s.attached ⊆ (s.next ev).attached := by
  obtain ⟨c, r⟩ := ev
  cases c with
  | attachPart =>
    cases r with
    | ok => exact List.subset_cons_self _ _
    | error => exact List.Subset.refl _
  | attachTable =>
    cases r with
    | ok => exact List.subset_append_right _ _
    | error => exact List.Subset.refl _
  | _ => exact List.Subset.refl _

theorem linked_next (ev : RestoreEvent) : s.linked ⊆ (s.next ev).linked := by
  obtain ⟨c, r⟩ := ev
  cases c with
  | linkPart =>
    cases r with
    | ok => exact List.subset_cons_self _ _
    | error => exact List.Subset.refl _
  | _ => exact List.Subset.refl _

theorem attached_after (t : List RestoreEvent) : s.attached ⊆ (partsWorld.after s t).attached := by
  induction t generalizing s with
  | nil => exact List.Subset.refl _
  | cons ev t ih => exact List.Subset.trans (attached_next ev) ih

theorem linked_after (t : List RestoreEvent) : s.linked ⊆ (partsWorld.after s t).linked := by
  induction t generalizing s with
  | nil => exact List.Subset.refl _
  | cons ev t ih => exact List.Subset.trans (linked_next ev) ih

theorem Truthful.mono {names : Str → List Str} {s s' : PartsState} {state : RestoreState}
    (h : Truthful names s state) (hs : s.attached ⊆ s'.attached) : Truthful names s' state :=
  fun key part hpart hname => hs (h key part hpart hname)

/-- The state file and the tracker are truthful. -/
structure Sound (names : Str → List Str) (s : PartsState) : Prop where
  file : ∀ state, s.file = some state → Truthful names s state
  tracker : Truthful names s s.tracker

end PartsState

section Attempt

variable {env : RestoreEnv} {b : Bool} {s : PartsState} {t : List RestoreEvent} {key part : Str}

/-- The state in which an event of a legal trace occurs. -/
theorem allows_at {t₁ t₂ : List RestoreEvent} {ev : RestoreEvent}
    (h : (reliableWorld env).Legal s (t₁ ++ ev :: t₂)) :
    (partsWorld.after s t₁).answers ev = true ∧
      (partsWorld.after s t₁).reliable env.selectedNames ev = true :=
  (World.legal_append.mp h).2.1

theorem attached_of_split {t₁ t₂ : List RestoreEvent} {p : Str × Str}
    (hp : p ∈ (partsWorld.after s t₁).attached) : p ∈ (partsWorld.after s (t₁ ++ t₂)).attached := by
  rw [World.after_append]
  exact PartsState.attached_after t₂ hp

theorem attached_after_of_next {t₁ t₂ : List RestoreEvent} {ev : RestoreEvent} {p : Str × Str}
    (hp : p ∈ ((partsWorld.after s t₁).next ev).attached) :
    p ∈ (partsWorld.after s (t₁ ++ ev :: t₂)).attached := by
  rw [World.after_append, World.after_cons]
  exact PartsState.attached_after t₂ hp

/-- Every state up to the end of a trace is sound. -/
def SoundAlong (env : RestoreEnv) (s : PartsState) (t : List RestoreEvent) : Prop :=
  ∀ u, u <+: t → (partsWorld.after s u).Sound env.selectedNames

theorem known_attached (hl : (reliableWorld env).Legal s t) (hsound : SoundAlong env s t)
    (hk : (env.withResume b).Known t key part) (hname : part ∈ env.selectedNames key) :
    (key, part) ∈ (partsWorld.after s t).attached := by
  cases hk with
  | recorded reply hev hpart =>
    obtain ⟨t₁, t₂, rfl⟩ := List.append_of_mem hev
    refine attached_of_split ?_
    have hreply := (allows_at hl).1
    cases reply with
    | error e => cases hpart
    | ok file =>
      have hfile : file = (partsWorld.after s t₁).file := of_decide_eq_true hreply
      cases file with
      | none => cases hpart
      | some state =>
        refine (hsound t₁ (List.prefix_append _ _)).file state hfile.symm key part ?_ hname
        unfold RestoreEnv.recordedParts at hpart
        dsimp only at hpart
        split at hpart
        · exact hpart
        · cases hpart
  | reported db table parts hev hpart =>
    obtain ⟨t₁, t₂, rfl⟩ := List.append_of_mem hev
    refine attached_of_split ?_
    have hreply := List.all_eq_true.mp (allows_at hl).2 part hpart
    simpa [hname] using hreply

/-- A linked directory becomes part of its table when the table is attached. -/
theorem attached_of_linked {t₁ t₂ t₃ : List RestoreEvent} {db table : Str}
    (hp : (key, part) ∈ (partsWorld.after s t₁).linked) :
    (key, part) ∈ (partsWorld.after s
      (t₁ ++ (t₂ ++ ⟨.attachTable key db table, .ok ()⟩ :: t₃))).attached := by
  rw [← List.append_assoc]
  refine attached_after_of_next ?_
  have hlinked : (key, part) ∈ (partsWorld.after s (t₁ ++ t₂)).linked := by
    rw [World.after_append]
    exact PartsState.linked_after t₂ hp
  exact List.mem_append_left _ (List.mem_filter.mpr ⟨hlinked, by simp⟩)

/-- A cancelled attempt stays cancelled. -/
theorem cancelled_forever {t₁ t₂ : List RestoreEvent}
    (hl : (reliableWorld env).Legal s (t₁ ++ ⟨.isCancelled, true⟩ :: t₂)) :
    (⟨.isCancelled, false⟩ : RestoreEvent) ∉ t₂ := by
  intro hev
  have hrest := (World.legal_append.mp hl).2.2
  have hstep : ∀ s ev, s.cancelled = true → True → (reliableWorld env).allows s ev →
      ((reliableWorld env).next s ev).cancelled = true := by
    intro s ev hs _ hallows
    obtain ⟨c, r⟩ := ev
    cases c with
    | isCancelled =>
      have hr : (!s.cancelled || r) = true := hallows.1
      rw [hs] at hr
      exact hr
    | _ => exact hs
  obtain ⟨-, hall⟩ := World.Legal.invariant (P := fun _ => True) hstep rfl (fun _ _ => trivial) hrest
  obtain ⟨s', hs', hallows⟩ := hall _ hev
  have hr : (!s'.cancelled || false) = true := hallows.1
  rw [hs'] at hr
  cases hr

theorem settled_attached (hl : (reliableWorld env).Legal s t) (hsound : SoundAlong env s t)
    (hs : (env.withResume b).Settled t key part) (hname : part ∈ env.selectedNames key) :
    (key, part) ∈ (partsWorld.after s t).attached := by
  cases hs with
  | known hknown => exact known_attached hl hsound hknown hname
  | attached db table hev =>
    obtain ⟨t₁, t₂, rfl⟩ := List.append_of_mem hev
    exact attached_after_of_next List.mem_cons_self
  | tolerated db table e hev hclass =>
    obtain ⟨t₁, t₂, rfl⟩ := List.append_of_mem hev
    refine attached_of_split ?_
    have hreply := (allows_at hl).2
    simp only [PartsState.reliable, Bool.or_eq_true, Bool.and_eq_true, decide_eq_true_eq] at hreply
    exact hreply.resolve_left fun hne => hclass.elim hne.1 hne.2
  | found path db table hevs =>
    obtain ⟨u₁, u₂, rfl, hfound, hattach⟩ := List.cons_sublist_iff.mp hevs
    obtain ⟨t₁, t₂, rfl⟩ := List.append_of_mem hfound
    obtain ⟨t₃, t₄, rfl⟩ := List.append_of_mem (List.singleton_sublist.mp hattach)
    rw [List.append_assoc, List.cons_append] at hl ⊢
    have hreply : (key, part) ∈ (partsWorld.after s t₁).linked := by
      simpa [PartsState.reliable] using (allows_at hl).2
    have h : (key, part) ∈ (partsWorld.after s (t₁ ++ ((⟨.dirExists key part path, true⟩ ::
        (t₂ ++ t₃)) ++ ⟨.attachTable key db table, .ok ()⟩ :: t₄))).attached :=
      attached_of_linked hreply
    simpa using h
  | linked source path db table hevs =>
    obtain ⟨u₁, u₂, rfl, hlink, hattach⟩ := List.cons_sublist_iff.mp hevs
    obtain ⟨t₁, t₂, rfl⟩ := List.append_of_mem hlink
    obtain ⟨t₃, t₄, rfl⟩ := List.append_of_mem (List.singleton_sublist.mp hattach)
    refine attached_of_linked ?_
    rw [World.after_append, World.after_cons]
    exact PartsState.linked_after t₂ List.mem_cons_self
  | cancelled hevs =>
    obtain ⟨u₁, u₂, rfl, hcancel, hagain⟩ := List.cons_sublist_iff.mp hevs
    obtain ⟨t₁, t₂, rfl⟩ := List.append_of_mem hcancel
    rw [List.append_assoc, List.cons_append] at hl
    exact absurd (List.mem_append_right t₂ (List.singleton_sublist.mp hagain)) (cancelled_forever hl)

/-- Parts are attached for tables whose key is the one they are recorded under. -/
def OwnKeys (t : List RestoreEvent) : Prop :=
  ∀ ev ∈ t, ∀ key db table part, ev.1 = .attachPart key db table part →
    RestoreContext.resumeKey key = key

/-- **What is written down stays true.** -/
theorem sound_next {t₁ : List RestoreEvent} {c : Call} {r : c.Reply}
    (hl : (reliableWorld env).Legal s t₁) (hsound : SoundAlong env s t₁) (hown : OwnKeys t₁)
    (htracks : (env.withResume b).Tracks t₁ c) :
    (partsWorld.after s (t₁ ++ [⟨c, r⟩])).Sound env.selectedNames := by
  rw [World.after_append]
  obtain ⟨hfile, htracker⟩ := hsound t₁ List.prefix_rfl
  have hkeep : ∀ state, (partsWorld.after s t₁).Truthful env.selectedNames state →
      ((partsWorld.after s t₁).next ⟨c, r⟩).Truthful env.selectedNames state :=
    fun state hstate => hstate.mono (PartsState.attached_next _)
  cases c with
  | startTracker state =>
    refine ⟨hfile, fun key part hpart hname => ?_⟩
    have hattached := known_attached hl hsound (htracks key part hpart) hname
    exact hattached
  | recordAttached key part =>
    obtain ⟨tableKey, db, table, hkey, hev⟩ := htracks
    obtain rfl : tableKey = key := (hown _ hev _ _ _ _ rfl).symm.trans hkey
    have htrack : (partsWorld.after s t₁).Truthful env.selectedNames
        ((partsWorld.after s t₁).track tableKey part) := by
      intro key' part' hpart' hname
      unfold PartsState.track partsOf at hpart'
      dsimp only at hpart'
      rw [SortedMap.get?_insert] at hpart'
      split at hpart'
      · rename_i hsame
        subst hsame
        rcases List.mem_append.mp hpart' with hold | hnew
        · exact htracker _ _ hold hname
        · rw [List.mem_singleton.mp hnew] at hname ⊢
          exact settled_attached (b := b) hl hsound (.attached db table hev) hname
      · exact htracker _ _ hpart' hname
    refine ⟨fun state hstate => ?_, htrack⟩
    change (if r = true then _ else _) = some state at hstate
    split at hstate
    · rw [← Option.some.inj hstate]
      exact htrack
    · exact hfile state hstate
  | saveState state =>
    refine ⟨fun state' hstate => ?_, htracker⟩
    change (if Except.isOk r = true then _ else _) = some state' at hstate
    split at hstate
    · rw [← Option.some.inj hstate]
      intro key part hpart hname
      have hattached := settled_attached hl hsound (htracks key part hpart hname) hname
      exact hattached
    · exact hfile state' hstate
  | _ => exact ⟨fun state hstate => hkeep state (hfile state hstate), hkeep _ htracker⟩

/-- **What an attempt writes down is true at every moment.** -/
theorem soundAlong_of_legal (hs : s.Sound env.selectedNames) (hl : (reliableWorld env).Legal s t)
    (hown : OwnKeys t)
    (htracks : ∀ t₁ c r t₂, t = t₁ ++ ⟨c, r⟩ :: t₂ → (env.withResume b).Tracks t₁ c) :
    SoundAlong env s t := by
  refine World.Legal.invariant_along (w := reliableWorld env) hs hl
    fun t₁ c r t₂ ht hl₁ hsound _ => ?_
  have hown₁ : OwnKeys t₁ := fun ev hev => hown ev (ht ▸ List.mem_append_left _ hev)
  have h := sound_next (b := b) hl₁ hsound hown₁ (htracks t₁ c r t₂ ht) (r := r)
  rwa [World.after_append] at h

end Attempt

/-! ## The history of a restore -/

theorem resumeKey_eq {key : Str} (h : '.' ∈ key) : RestoreContext.resumeKey key = key := by
  cases hsplit : Str.splitOnce '.' key with
  | none => exact absurd h (Str.splitOnce_eq_none_iff.mp hsplit)
  | some p =>
    unfold RestoreContext.resumeKey splitTableKey
    rw [hsplit]
    exact (Str.splitOnce_eq_some_iff.mp hsplit).1.symm

/-- The parts of an attempt are attached for tables of the manifest. -/
theorem ownKeys_of_runs {env : RestoreEnv} {b : Bool} {fate : RestoreFate} {t : List RestoreEvent}
    {e : End RestoreError Unit} (hreg : env.RegularManifest)
    (h : Runs (restore (env.withResume b) fate) t e) : OwnKeys t := by
  intro ev hev key db table part hcall
  have hissue := ((within_restore _ _).runs h).1 ev hev
  rw [hcall] at hissue
  rcases hissue with haside | ⟨ctx, hctx, hissues⟩
  · cases haside
  cases hissues with
  | schema hc => cases hc
  | data hc =>
    cases hc with
    | byPart item tm hitem hc =>
      cases hc
      exact resumeKey_eq (hreg _ hctx.manifest _ tm hitem.table).1

variable {env : RestoreEnv}

/-- What an attempt writes down has a reason, and so has its success. -/
theorem RestoreAttempt.evidence (a : RestoreAttempt env) :
    (∀ t₁ c r t₂, a.trace = t₁ ++ ⟨c, r⟩ :: t₂ → (env.withResume a.resume).Tracks t₁ c) ∧
      (a.outcome = .returned () → ∀ ctx, IsContext (env.withResume a.resume) a.fate ctx →
        env.args.schemaOnly = false → ctx.AllSettled a.trace) := by
  have hsafe : Safe (env.withResume a.resume).Tracks (fun h _ => ∀ ctx,
      IsContext (env.withResume a.resume) a.fate ctx → env.args.schemaOnly = false →
        ctx.AllSettled h) [] (restore (env.withResume a.resume) a.fate) := safe_restore
  obtain ⟨htracks, hsettled⟩ := hsafe.runs a.runs
  exact ⟨htracks, hsettled ()⟩

/-- What an attempt that meets reliable replies keeps true. -/
theorem sound_attempt (hreg : env.RegularManifest) (a : RestoreAttempt env) {s : PartsState}
    (hs : s.Sound env.selectedNames) (hl : (reliableWorld env).Legal s.restart a.trace) :
    SoundAlong env s.restart a.trace := by
  refine soundAlong_of_legal ⟨hs.file, ?_⟩ hl (ownKeys_of_runs hreg a.runs) a.evidence.1
  intro key part hpart
  cases hpart

theorem sound_afterAttempts (hreg : env.RegularManifest) {as : List (RestoreAttempt env)}
    {s : PartsState} (hs : s.Sound env.selectedNames) (hl : LegalAttempts (reliableWorld env) s as) :
    (afterAttempts s as).Sound env.selectedNames := by
  induction as generalizing s with
  | nil => exact hs
  | cons a as ih => exact ih (sound_attempt hreg a hs hl.1 _ List.prefix_rfl) hl.2

theorem afterAttempts_append (s : PartsState) (as bs : List (RestoreAttempt env)) :
    afterAttempts s (as ++ bs) = afterAttempts (afterAttempts s as) bs := by
  induction as generalizing s with
  | nil => rfl
  | cons a as ih => exact ih _

theorem legalAttempts_append {s : PartsState} {as bs : List (RestoreAttempt env)} :
    LegalAttempts (reliableWorld env) s (as ++ bs) ↔ LegalAttempts (reliableWorld env) s as ∧
      LegalAttempts (reliableWorld env) (afterAttempts s as) bs := by
  induction as generalizing s with
  | nil => exact ⟨fun h => ⟨trivial, h⟩, And.right⟩
  | cons a as ih => exact (and_congr_right fun _ => ih).trans and_assoc.symm

/-- **A restore that meets reliable replies loses no part**, however often it was interrupted. -/
theorem resumed_restore_loses_no_part (h : RestoreHistory env) (hrel : h.Reliable) :
    h.LosesNoPart := by
  obtain ⟨hreg, hl⟩ := hrel
  obtain ⟨hearlier, hlast, -⟩ := legalAttempts_append.mp hl
  intro hschema ctx hctx key hkey part hpart
  have hinitial : PartsState.initial.Sound env.selectedNames :=
    ⟨fun _ hstate => (nomatch hstate), fun _ _ hpart => (nomatch hpart)⟩
  have hsound := sound_attempt hreg h.last (sound_afterAttempts hreg hinitial hearlier) hlast
  rw [RestoreHistory.attempts, afterAttempts_append]
  have hall := h.last.evidence.2 h.ok ctx hctx hschema
  -- the part is one of a table that is restored with its data
  obtain ⟨tm, htm, p, hp, hname⟩ : ∃ tm, ctx.manifest.tables.get? key = some tm ∧
      ∃ p ∈ env.selectedParts tm, p.name = part := by
    have hm : env.manifestFile = some (.ok ctx.manifest) := hctx.manifest
    rw [RestoreEnv.selectedNames, hm] at hpart
    cases htm : ctx.manifest.tables.get? key with
    | none => simp [htm] at hpart
    | some tm => exact ⟨tm, rfl, by simpa [htm] using hpart⟩
  have hdata := (hreg _ hctx.manifest key tm htm).2 (List.ne_nil_of_mem hp)
  have hsettled := hall key (RestoreContext.mem_phases_dataTables.mpr
    ⟨hkey, tm, htm, by rw [hctx.env_eq]; exact hdata.1, hdata.2⟩) tm htm p
    (by rw [hctx.env_eq]; exact hp)
  rw [hctx.env_eq, hname] at hsettled
  exact settled_attached hlast hsound hsettled hpart

/-- A restore that completed, and one more attempt that resumes it. -/
def completedHistory : RestoreHistory mutationEnv where
  earlier := [attemptOn smooth true]
  last := attemptOn completed true
  ok := completed_returns

theorem regular_mutationEnv : mutationEnv.RegularManifest := by
  intro m hm key tm htm
  obtain rfl : mutationManifest = m := by simpa [mutationEnv, plainEnv] using hm
  rw [SortedMap.get?_eq_some_iff] at htm
  have hall : ∀ e ∈ mutationManifest.tables.entries, '.' ∈ e.1 ∧
      isPostponed mutationEnv.toUppercase e.2 = false ∧ e.2.metadataOnly = false := by
    decide +kernel
  have h := hall (key, tm) htm
  exact ⟨h.1, fun _ => h.2⟩

theorem completedHistory_loses_no_part :
    completedHistory.Reliable ∧ completedHistory.LosesNoPart := by
  have hrel : completedHistory.Reliable := ⟨regular_mutationEnv, by decide +kernel⟩
  exact ⟨hrel, resumed_restore_loses_no_part completedHistory hrel⟩

/-- The replies where the destination holds a part of its own, whose name is that of the part of
the backup. -/
def occupied : (c : Call) → c.Reply
  | .querySystemParts .. => .ok ["all_0_0_0"]
  | c => smooth c

/-- An attempt that finds such a part. -/
def occupiedHistory : RestoreHistory mutationEnv where
  earlier := []
  last := attemptOn occupied true
  ok := by decide +kernel

/-- **A part of the destination passes for a part of the backup**: the restore succeeds and
attaches nothing. -/
theorem unrelated_part_hides_backup_part :
    LegalAttempts partsWorld PartsState.initial occupiedHistory.attempts ∧
      ¬ occupiedHistory.LosesNoPart := by
  refine ⟨by decide +kernel, fun h => ?_⟩
  have hattached := h rfl ⟨_, _, mutationManifest, none, [], SortedMap.empty⟩
    ⟨rfl, rfl, rfl, by decide +kernel, by decide +kernel⟩ "db.t" (by decide +kernel) "all_0_0_0"
    (by decide +kernel)
  have hnone : (afterAttempts PartsState.initial occupiedHistory.attempts).attached = [] := by
    decide +kernel
  rw [hnone] at hattached
  cases hattached

end Chbackup
