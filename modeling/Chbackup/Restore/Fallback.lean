import Chbackup.Lib.World
import Chbackup.Restore.Reach

/-!
# Falling back from ATTACH TABLE mode

ATTACH TABLE mode is a sequence of five steps without undo, and whatever step fails, the parts of
the table are then attached one by one.  `tableWorld` is the table as the server holds it: a part
directory in its data directory is live while the table is attached, ATTACH PART adds the rows of
a part once more, and ATTACH PART on a detached table fails.  In this world the fallback repairs
nothing that the mode has done: it neither attaches a table that was left detached nor knows of
the parts that were linked.
-/

namespace Chbackup

open CallTree Prog

/-- The step at which ATTACH TABLE mode fails. -/
inductive FailPoint where
  | detach
  | link (part : Str)
  | attachTable
  | restoreReplica
  deriving DecidableEq

/-- A table of the server: whether it is attached, the part directories of the backup that lie in
its data directory, and the parts of the backup whose rows ATTACH PART added. -/
structure TableState where
  attached : Bool
  dirs : List Str
  added : List Str
  deriving DecidableEq

namespace TableState

/-- How often the rows of a part are there once the table is attached. -/
def copies (s : TableState) (part : Str) : Nat :=
  (if part ∈ s.dirs then 1 else 0) + s.added.count part

/-- What an event does to the table.  What a failed link leaves behind is never attached: the
table is detached then, and nothing attaches it. -/
def next (s : TableState) : RestoreEvent → TableState
  | ⟨.detachTableSync .., (.ok _ : Except Str Unit)⟩ => { s with attached := false }
  | ⟨.linkPart _ part _ _, (.ok _ : Except Str Unit)⟩ => { s with dirs := part :: s.dirs }
  | ⟨.attachTable .., (.ok _ : Except Str Unit)⟩ => { s with attached := true }
  | ⟨.attachPart _ _ _ part, (.ok _ : Except Str Unit)⟩ => { s with added := part :: s.added }
  | _ => s

/-- The replies of a server on which the mode fails at a given point.  The error of ATTACH PART
on a detached table, UNKNOWN_TABLE, is none of those that the restore tolerates. -/
def allows (point : FailPoint) (s : TableState) : RestoreEvent → Prop
  | ⟨.detachTableSync .., (r : Except Str Unit)⟩ => r.isOk = true ↔ point ≠ .detach
  | ⟨.dirExists _ part _, (r : Bool)⟩ => r = true ↔ part ∈ s.dirs
  | ⟨.linkPart _ part _ _, (r : Except Str Unit)⟩ => r.isOk = true ↔ point ≠ .link part
  | ⟨.attachTable .., (r : Except Str Unit)⟩ => r.isOk = true ↔ point ≠ .attachTable
  | ⟨.systemRestoreReplica .., (r : Except Str Unit)⟩ => r.isOk = true ↔ point ≠ .restoreReplica
  | ⟨.attachPart .., (r : Except Str Unit)⟩ =>
    (r.isOk = true ↔ s.attached = true) ∧ ∀ e, r = .error e → classifyAttachError e = .unknown
  | _ => True

end TableState

/-- The table of a server on which ATTACH TABLE mode fails at a given point. -/
def tableWorld (point : FailPoint) : World Call Call.Reply TableState where
  allows := TableState.allows point
  next := TableState.next

namespace RestoreContext

variable (ctx : RestoreContext)

/-- ATTACH TABLE mode for an item. -/
def attachMode (item : AttachParams) (ddl : Str) (plan : CompleteAttachPlan) : RestoreProg Nat :=
  ctx.tryAttachTableMode item.tableKey item.db item.table ddl plan item.tableDataPath

/-- After ATTACH TABLE mode has failed at the point and the fallback has returned, the table is
attached and the rows of every part of the plan are there exactly once. -/
def FallbackSound (item : AttachParams) (ddl : Str) (plan : CompleteAttachPlan)
    (dirs added : List Str) (point : FailPoint) : Prop :=
  ∀ t₁ e t₂ r, Runs (ctx.attachMode item ddl plan) t₁ (.failed e) →
    Runs (ctx.attachPartsOwned item) t₂ (.returned r) →
    (tableWorld point).Legal ⟨true, dirs, added⟩ (t₁ ++ t₂) →
      ((tableWorld point).after ⟨true, dirs, added⟩ (t₁ ++ t₂)).attached = true ∧
        ∀ source ∈ plan.sources,
          ((tableWorld point).after ⟨true, dirs, added⟩ (t₁ ++ t₂)).copies source.1 = 1

/-- The names of the parts that the fallback attaches. -/
def attachNames (item : AttachParams) : List Str := (ctx.partsToAttach item).map PartInfo.name

/-- When the fallback is sound.  After a failed DETACH it does what it would do without the mode.
A table left detached must have a part left to attach, on which the fallback fails.  A table
that was attached must have none of the plan left to attach, and hold none of it otherwise. -/
def FallbackCondition (item : AttachParams) (plan : CompleteAttachPlan) (dirs added : List Str) :
    FailPoint → Prop
  | .detach => ∀ source ∈ plan.sources,
      (TableState.copies ⟨true, dirs, added⟩ source.1 = 1 ∧ source.1 ∉ ctx.attachNames item) ∨
        (TableState.copies ⟨true, dirs, added⟩ source.1 = 0 ∧
          (ctx.attachNames item).count source.1 = 1)
  | .link part => part ∈ plan.sources.map Prod.fst → part ∉ dirs → ctx.attachNames item ≠ []
  | .attachTable => ctx.attachNames item ≠ []
  | .restoreReplica => ∀ source ∈ plan.sources,
      source.1 ∉ added ∧ source.1 ∉ ctx.attachNames item

/-! ## The attaches of a fallback that returns -/

/-- The part that an event attaches, or tries to. -/
def attachedName? (ev : RestoreEvent) : Option Str :=
  match ev.1 with
  | .attachPart _ _ _ part => some part
  | _ => none

/-- An ATTACH PART that does not fail the fallback. -/
def Tolerated : RestoreEvent → Prop
  | ⟨.attachPart .., (.error e : Except Str Unit)⟩ => classifyAttachError e ≠ .unknown
  | _ => True

/-- The ATTACH PARTs of a trace are those of the parts, in some order, and all are tolerated. -/
def Attaches (names : List Str) (t : List RestoreEvent) : Prop :=
  (t.filterMap attachedName?).Perm names ∧ ∀ ev ∈ t, Tolerated ev

theorem attaches_append {names₁ names₂ : List Str} {t₁ t₂ : List RestoreEvent}
    (h₁ : Attaches names₁ t₁) (h₂ : Attaches names₂ t₂) :
    Attaches (names₁ ++ names₂) (t₁ ++ t₂) := by
  refine ⟨?_, fun ev hev => ?_⟩
  · rw [List.filterMap_append]
    exact h₁.1.append h₂.1
  · rcases List.mem_append.mp hev with hev | hev
    · exact h₁.2 ev hev
    · exact h₂.2 ev hev

/-- A trace without ATTACH PARTs. -/
theorem attaches_nil {t : List RestoreEvent} (h : ∀ ev ∈ t, attachedName? ev = none) :
    Attaches [] t := by
  refine ⟨?_, fun ev hev => ?_⟩
  · rw [List.filterMap_eq_nil_iff.mpr h]
  · have hname := h ev hev
    obtain ⟨c, r⟩ := ev
    cases c <;> trivial

theorem attaches_flatten {names : List Str} {us : List (List RestoreEvent)}
    (h : List.Forall₂ (fun name u => Attaches [name] u) names us) : Attaches names us.flatten := by
  induction h with
  | nil => exact ⟨List.Perm.refl _, fun _ hev => nomatch hev⟩
  | cons h _ ih => exact attaches_append h ih

variable {ctx} {item : AttachParams}

theorem attaches_within {α : Type} {p : RestoreProg α} {t : List RestoreEvent}
    {e : End Str α} (hp : Within (fun c => ∀ key db table part, c ≠ .attachPart key db table part)
      Any p) (h : Runs p t e) : Attaches [] t := by
  refine attaches_nil fun ev hev => ?_
  have hc := (hp.runs h).1 ev hev
  obtain ⟨c, r⟩ := ev
  cases c with
  | attachPart key db table part => exact absurd rfl (hc key db table part)
  | _ => rfl

theorem attaches_attachPart {name : Str} {u : List RestoreEvent} {o : Option AttachErrorClass}
    (h : Runs (ctx.attachPart item name) u (.returned o)) : Attaches [name] u := by
  cases h with
  | @call _ _ u _ r h =>
    cases r with
    | ok =>
      have hrecord : Attaches [] u := by
        refine attaches_within ((within_onlyIf (Q := Any) (fun _ => ?_) trivial).bind
          fun _ _ => within_ret trivial) h
        exact within_perform (fun _ _ _ _ h => nomatch h) fun _ => within_ret trivial
      refine ⟨hrecord.1.cons name, fun ev hev => ?_⟩
      rcases List.mem_cons.mp hev with rfl | hev
      · trivial
      · exact hrecord.2 ev hev
    | error e =>
      -- the task goes on only after an error of a known class
      have hknown : classifyAttachError e ≠ .unknown ∧ u = [] := by
        dsimp only [ret_bind] at h
        split at h
        · cases h
        · rename_i hne
          cases h
          exact ⟨hne, rfl⟩
      rw [hknown.2]
      refine ⟨List.Perm.refl _, fun ev hev => ?_⟩
      rw [List.mem_singleton.mp hev]
      exact hknown.1

theorem runs_collect {α : Type} {xs : List (Except Str α)} {t : List RestoreEvent} {as : List α}
    (h : Runs (collect xs) t (.returned as)) : xs = as.map .ok ∧ t = [] := by
  induction xs generalizing t as with
  | nil =>
    cases h
    exact ⟨rfl, rfl⟩
  | cons x xs ih =>
    cases x with
    | error e => cases h
    | ok a =>
      obtain ⟨as, t₁, t₂, rfl, h₁, h₂⟩ := h.returned_of_bind
      cases h₂
      obtain ⟨rfl, rfl⟩ := ih h₁
      exact ⟨rfl, rfl⟩

/-- **A fallback that returns has tried each of its parts once**, and met no fatal error. -/
theorem attaches_attachAll {parts : List PartInfo} {t : List RestoreEvent}
    {os : List (Option AttachErrorClass)}
    (h : Runs (ctx.attachAll item parts) t (.returned os)) :
    Attaches (parts.map PartInfo.name) t := by
  unfold attachAll at h
  split at h
  · obtain ⟨us, rfl, hus⟩ := h.of_forEach
    refine attaches_flatten (List.forall₂_map_left_iff.mpr (hus.imp fun part u hu => ?_))
    obtain ⟨o, ho⟩ := hu
    exact attaches_attachPart ho
  · obtain ⟨xs, t₁, t₂, rfl, h₁, h₂⟩ := h.returned_of_bind
    obtain ⟨rfl, rfl⟩ := runs_collect h₂
    obtain ⟨us, hperm, hus⟩ := h₁.tasks_of_par
    have hflat : Attaches (parts.map PartInfo.name) us.flatten := by
      refine attaches_flatten (List.forall₂_map_left_iff.mpr ?_)
      refine (List.forall₂_map_left_iff.mp hus).imp fun part u hu => ?_
      obtain ⟨x, hx, hrun⟩ := hu
      obtain ⟨o, -, rfl⟩ := List.mem_map.mp hx
      rcases hrun.of_attempt with ⟨a, -, hrun⟩ | ⟨e, he, -⟩ | ⟨he, -⟩
      · exact attaches_attachPart hrun
      · cases he
      · cases he
    rw [List.append_nil]
    exact ⟨(hperm.filterMap _).trans hflat.1, fun ev hev => hflat.2 ev (hperm.mem_iff.mp hev)⟩

theorem attaches_attachPartsOwned {t : List RestoreEvent} {r : Nat × Nat}
    (h : Runs (ctx.attachPartsOwned item) t (.returned r)) :
    Attaches (ctx.attachNames item) t := by
  obtain ⟨n, t₁, t₂, rfl, h₁, h₂⟩ := h.returned_of_bind
  obtain ⟨result, t₃, t₄, rfl, h₃, h₄⟩ := h₂.returned_of_bind
  cases h₄
  have hs3 : Attaches [] t₁ := by
    refine attaches_within ?_ h₁
    split
    · exact within_perform (fun _ _ _ _ h => nomatch h) fun _ => within_orRaise fun _ _ => trivial
    · exact within_ret trivial
  rw [List.append_nil]
  refine attaches_append hs3 (show Attaches (ctx.attachNames item) t₃ from ?_)
  unfold attachPartsInner at h₃
  split at h₃
  · rename_i hparts
    cases h₃
    refine ⟨?_, fun _ hev => nomatch hev⟩
    simp [attachNames, partsToAttach, workParts, hparts, sortPartsByMinBlock]
  · obtain ⟨_, u₁, u₂, rfl, g₁, g₂⟩ := h₃.returned_of_bind
    obtain ⟨_, u₃, u₄, rfl, g₃, g₄⟩ := g₂.returned_of_bind
    obtain ⟨_, u₅, u₆, rfl, g₅, g₆⟩ := g₄.returned_of_bind
    obtain ⟨os, u₇, u₈, rfl, g₇, g₈⟩ := g₆.returned_of_bind
    cases g₈
    rw [List.append_nil]
    -- before the parts are attached, directories are made and files are linked
    refine attaches_append (attaches_within ?_ g₁) <| attaches_append (attaches_within ?_ g₃) <|
      attaches_append (attaches_within ?_ g₅) (attaches_attachAll g₇)
    · exact within_call (fun _ _ _ _ h => nomatch h) fun _ => within_ret trivial
    · exact within_orFail fun _ _ => trivial
    · refine (within_forEach (Q := fun _ => Any) fun part _ => ?_).imp fun _ _ => trivial
      unfold preparePart
      split
      · exact within_ret trivial
      · split
        · exact within_ret trivial
        · exact within_perform (fun _ _ _ _ h => nomatch h) fun _ =>
            within_orFail fun _ _ => trivial

/-! ## The fallback in the world -/

variable {point : FailPoint}

/-- On an attached table every ATTACH PART adds the rows of its part. -/
theorem after_attached {s : TableState} {t : List RestoreEvent} (hs : s.attached = true)
    (hcalls : ∀ ev ∈ t, ctx.AttachCall item ev.1) (h : (tableWorld point).Legal s t) :
    (tableWorld point).after s t =
      { s with added := (t.filterMap attachedName?).reverse ++ s.added } := by
  induction t generalizing s with
  | nil => rfl
  | cons ev t ih =>
    have hrest : ∀ ev ∈ t, ctx.AttachCall item ev.1 :=
      fun ev hev => hcalls ev (List.mem_cons_of_mem _ hev)
    have hcall := hcalls ev List.mem_cons_self
    obtain ⟨c, r⟩ := ev
    rw [World.after_cons]
    cases hcall with
    | attachPart part hpart =>
      obtain ⟨⟨hok, -⟩, h⟩ := h
      cases r with
      | error e => exact absurd (hok.mpr hs) Bool.false_ne_true
      | ok =>
        have hnext := ih (s := { s with added := part.name :: s.added }) hs hrest h
        refine hnext.trans ?_
        rw [List.filterMap_cons_some (f := attachedName?) (b := part.name) rfl, List.reverse_cons,
          List.append_assoc]
        rfl
    | _ => exact ih hs hrest h.2

/-- On a detached table the fallback returns only if it has nothing to attach. -/
theorem after_detached {s : TableState} {t : List RestoreEvent} (hs : s.attached = false)
    (hcalls : ∀ ev ∈ t, ctx.AttachCall item ev.1) (htolerated : ∀ ev ∈ t, Tolerated ev)
    (h : (tableWorld point).Legal s t) :
    t.filterMap attachedName? = [] ∧ (tableWorld point).after s t = s := by
  induction t with
  | nil => exact ⟨rfl, rfl⟩
  | cons ev t ih =>
    have hrest := ih (fun ev hev => hcalls ev (List.mem_cons_of_mem _ hev))
      fun ev hev => htolerated ev (List.mem_cons_of_mem _ hev)
    have hcall := hcalls ev List.mem_cons_self
    have htol := htolerated ev List.mem_cons_self
    obtain ⟨c, r⟩ := ev
    cases hcall with
    | attachPart part hpart =>
      obtain ⟨⟨hok, herror⟩, -⟩ := h
      cases r with
      | error e => exact absurd (herror e rfl) htol
      | ok =>
        rw [hs] at hok
        exact absurd (hok.mp rfl) Bool.false_ne_true
    | _ => exact hrest h.2

/-! ## ATTACH TABLE mode in the world -/

/-- Linking the parts: it fails at the fail point, if that is a part to be linked, and otherwise
every part of the plan has its directory. -/
theorem runs_linkParts {key path : Str} {sources : List (Str × Str)} {s : TableState}
    {t : List RestoreEvent} {e : End Str Unit} (h : Runs (linkParts key path sources) t e)
    (he : e ≠ .cut) (hl : (tableWorld point).Legal s t) :
    ((tableWorld point).after s t).attached = s.attached ∧
      ((tableWorld point).after s t).added = s.added ∧
      (∀ part ∈ s.dirs, part ∈ ((tableWorld point).after s t).dirs) ∧
      ((e = .returned () ∧ ∀ source ∈ sources, source.1 ∈ ((tableWorld point).after s t).dirs ∧
          (point = .link source.1 → source.1 ∈ s.dirs)) ∨
        ((∃ x, e = .failed x) ∧ ∃ source ∈ sources, point = .link source.1 ∧ source.1 ∉ s.dirs)) := by
  induction sources generalizing s t with
  | nil =>
    cases h with
    | ret => exact ⟨rfl, rfl, fun _ h => h, Or.inl ⟨rfl, fun _ h => nomatch h⟩⟩
    | cut => exact absurd rfl he
  | cons source sources ih =>
    obtain ⟨part, dir⟩ := source
    rw [linkParts] at h
    obtain ⟨found, t, rfl, g⟩ := h.of_perform.resolve_left he
    obtain ⟨hfound, hl⟩ := hl
    rw [World.after_cons]
    by_cases hdir : found = true
    · have hmem : part ∈ s.dirs := hfound.mp hdir
      rw [if_pos hdir] at g
      obtain ⟨hatt, hadd, hmono, hcases⟩ := ih g hl
      refine ⟨hatt, hadd, hmono, hcases.imp ?_ ?_⟩
      · intro ⟨hret, hall⟩
        refine ⟨hret, fun source hsource => ?_⟩
        rcases List.mem_cons.mp hsource with rfl | hsource
        · exact ⟨hmono part hmem, fun _ => hmem⟩
        · exact hall source hsource
      · intro ⟨hfail, source, hsource, hpoint⟩
        exact ⟨hfail, source, List.mem_cons_of_mem _ hsource, hpoint⟩
    · have hnot : part ∉ s.dirs := fun hmem => hdir (hfound.mpr hmem)
      rw [if_neg hdir] at g
      cases g with
      | cut => exact absurd rfl he
      | @call _ _ t _ r g =>
        obtain ⟨hr, hl⟩ := hl
        cases r with
        | error x =>
          have hpoint : point = .link part := by
            by_contra hne
            exact absurd (hr.mpr hne) Bool.false_ne_true
          cases g with
          | cut => exact absurd rfl he
          | fail => exact ⟨rfl, rfl, fun _ h => h,
              Or.inr ⟨⟨x, rfl⟩, (part, dir), List.mem_cons_self, hpoint, hnot⟩⟩
        | ok =>
          have hpoint : point ≠ .link part := hr.mp rfl
          obtain ⟨hatt, hadd, hmono, hcases⟩ := ih (s := { s with dirs := part :: s.dirs }) g hl
          refine ⟨hatt, hadd, fun q hq => hmono q (List.mem_cons_of_mem _ hq), hcases.imp ?_ ?_⟩
          · intro ⟨hret, hall⟩
            refine ⟨hret, fun source hsource => ?_⟩
            rcases List.mem_cons.mp hsource with rfl | hsource
            · exact ⟨hmono part List.mem_cons_self, fun h => absurd h hpoint⟩
            · refine ⟨(hall source hsource).1, fun h => ?_⟩
              refine (List.mem_cons.mp ((hall source hsource).2 h)).resolve_left fun heq => ?_
              exact hpoint (heq ▸ h)
          · intro ⟨hfail, source, hsource, hlink, habsent⟩
            exact ⟨hfail, source, List.mem_cons_of_mem _ hsource, hlink,
              fun h => habsent (List.mem_cons_of_mem _ h)⟩

/-- Dropping the old replica does not touch the table, and cannot fail. -/
theorem runs_dropOldReplica {α : Type} {key ddl : Str} {f : Unit → RestoreProg α} {s : TableState}
    {t : List RestoreEvent} {e : End Str α} (h : Runs ((ctx.dropOldReplica key ddl).bind f) t e)
    (he : e ≠ .cut) (hl : (tableWorld point).Legal s t) :
    ∃ t', Runs (f ()) t' e ∧ (tableWorld point).Legal s t' ∧
      (tableWorld point).after s t = (tableWorld point).after s t' := by
  unfold dropOldReplica at h
  split at h
  · cases h with
    | cut => exact absurd rfl he
    | call r h => exact ⟨_, h, hl.2, rfl⟩
  · exact ⟨t, h, hl, rfl⟩

/-- The last two steps of ATTACH TABLE mode. -/
theorem runs_attachAgain {key db table context₁ context₂ : Str} {n : Nat} {s : TableState}
    {t : List RestoreEvent} {e : End Str Nat}
    (h : Runs ((perform (Call.attachTable key db table)).bind fun (attached : Except Str Unit) =>
      (orFail context₁ attached).bind fun _ =>
        (perform (Call.systemRestoreReplica key db table)).bind fun (restored : Except Str Unit) =>
          (orFail context₂ restored).bind fun _ => .ret n) t e)
    (he : e ≠ .cut) (hl : (tableWorld point).Legal s t) :
    (point = .attachTable ∧ (∃ x, e = .failed x) ∧ (tableWorld point).after s t = s) ∨
      (point = .restoreReplica ∧ (∃ x, e = .failed x) ∧
        (tableWorld point).after s t = { s with attached := true }) ∨
      (point ≠ .attachTable ∧ point ≠ .restoreReplica ∧ e = .returned n) := by
  obtain ⟨attached, t, rfl, h₁⟩ := h.of_perform.resolve_left he
  obtain ⟨hattached, hl⟩ := hl
  cases attached with
  | error x =>
    have hpoint : point = .attachTable := by
      by_contra hne
      exact absurd (hattached.mpr hne) Bool.false_ne_true
    cases h₁ with
    | cut => exact absurd rfl he
    | fail => exact Or.inl ⟨hpoint, ⟨_, rfl⟩, rfl⟩
  | ok =>
    have hnotAttach : point ≠ .attachTable := hattached.mp rfl
    obtain ⟨restored, t, rfl, h₂⟩ := h₁.of_perform.resolve_left he
    obtain ⟨hrestored, -⟩ := hl
    cases restored with
    | error x =>
      have hpoint : point = .restoreReplica := by
        by_contra hne
        exact absurd (hrestored.mpr hne) Bool.false_ne_true
      cases h₂ with
      | cut => exact absurd rfl he
      | fail => exact Or.inr (Or.inl ⟨hpoint, ⟨_, rfl⟩, rfl⟩)
    | ok =>
      cases h₂ with
      | cut => exact absurd rfl he
      | ret => exact Or.inr (Or.inr ⟨hnotAttach, hrestored.mp rfl, rfl⟩)

/-- The states that ATTACH TABLE mode can fail in, by the point of failure. -/
def FailedIn (plan : CompleteAttachPlan) (s s' : TableState) : FailPoint → Prop
  | .detach => s' = s
  | .link part => part ∈ plan.sources.map Prod.fst ∧ part ∉ s.dirs ∧ s'.attached = false
  | .attachTable => s'.attached = false
  | .restoreReplica => s'.attached = true ∧ s'.added = s.added ∧
      ∀ source ∈ plan.sources, source.1 ∈ s'.dirs

/-- The points at which ATTACH TABLE mode does fail. -/
def FailsAt (plan : CompleteAttachPlan) (s : TableState) : FailPoint → Prop
  | .link part => part ∈ plan.sources.map Prod.fst ∧ part ∉ s.dirs
  | _ => True

/-- **A run of ATTACH TABLE mode** fails exactly at the points where it can, in the state that
belongs to the point. -/
theorem runs_attachMode {ddl : Str} {plan : CompleteAttachPlan} {s : TableState}
    {t : List RestoreEvent} {e : End Str Nat} (h : Runs (ctx.attachMode item ddl plan) t e)
    (he : e ≠ .cut) (hl : (tableWorld point).Legal s t) :
    ((∃ x, e = .failed x) ∧ FailedIn plan s ((tableWorld point).after s t) point) ∨
      ((∃ n, e = .returned n) ∧ ¬ FailsAt plan s point) := by
  rw [attachMode, tryAttachTableMode] at h
  obtain ⟨detached, t, rfl, h₁⟩ := h.of_perform.resolve_left he
  obtain ⟨hdetached, hl⟩ := hl
  cases detached with
  | error x =>
    have hpoint : point = .detach := by
      by_contra hne
      exact absurd (hdetached.mpr hne) Bool.false_ne_true
    subst hpoint
    cases h₁ with
    | cut => exact absurd rfl he
    | fail => exact Or.inl ⟨⟨_, rfl⟩, rfl⟩
  | ok =>
    have hnotDetach : point ≠ .detach := hdetached.mp rfl
    obtain ⟨t', h₂, hl, hafter⟩ := runs_dropOldReplica (s := { s with attached := false }) h₁ he hl
    suffices ((∃ x, e = .failed x) ∧ FailedIn plan s
        ((tableWorld point).after { s with attached := false } t') point) ∨
        ((∃ n, e = .returned n) ∧ ¬ FailsAt plan s point) by rwa [← hafter] at this
    rcases h₂.of_bind with ⟨_, t₁, t₂, rfl, h₃, h₄⟩ | ⟨hcut, -⟩ | ⟨x, rfl, h₃⟩
    · obtain ⟨hl₁, hl₂⟩ := World.legal_append.mp hl
      obtain ⟨hatt, hadd, -, hcases⟩ := runs_linkParts h₃ (fun h => nomatch h) hl₁
      obtain ⟨-, hdirs⟩ := hcases.resolve_right fun h => nomatch h.1.choose_spec
      rw [World.after_append]
      rcases runs_attachAgain h₄ he hl₂ with ⟨rfl, hx, hs⟩ | ⟨rfl, hx, hs⟩ | ⟨hna, hnr, hret⟩
      · exact Or.inl ⟨hx, by rw [hs]; exact hatt⟩
      · refine Or.inl ⟨hx, ?_⟩
        rw [hs]
        exact ⟨rfl, hadd, fun source hsource => (hdirs source hsource).1⟩
      · -- every step went through, so the fail point is a part that needed no link
        refine Or.inr ⟨⟨_, hret⟩, fun hfails => ?_⟩
        cases point with
        | link part =>
          obtain ⟨source, hsource, rfl⟩ := List.mem_map.mp hfails.1
          exact hfails.2 ((hdirs source hsource).2 rfl)
        | detach => exact hnotDetach rfl
        | attachTable => exact hna rfl
        | restoreReplica => exact hnr rfl
    · exact absurd hcut he
    · obtain ⟨hatt, -, -, hcases⟩ := runs_linkParts h₃ (fun h => nomatch h) hl
      obtain ⟨-, source, hsource, hpoint, hnot⟩ := hcases.resolve_left fun h => nomatch h.1
      refine Or.inl ⟨⟨x, rfl⟩, ?_⟩
      subst hpoint
      exact ⟨List.mem_map_of_mem hsource, hnot, hatt⟩

/-! ## When the fallback is sound -/

theorem mem_dirs_copies {s : TableState} {part : Str} (h : part ∈ s.dirs) :
    s.copies part = 1 + s.added.count part := by
  rw [TableState.copies, if_pos h]

/-- The rows of a part after a fallback on an attached table. -/
theorem copies_after {s : TableState} {t : List RestoreEvent} {r : Nat × Nat}
    (hs : s.attached = true) (h : Runs (ctx.attachPartsOwned item) t (.returned r))
    (hl : (tableWorld point).Legal s t) :
    ((tableWorld point).after s t).attached = true ∧ ∀ part,
      ((tableWorld point).after s t).copies part =
        s.copies part + (ctx.attachNames item).count part := by
  rw [after_attached hs ((within_attachPartsOwned item).runs h).1 hl]
  refine ⟨hs, fun part => ?_⟩
  have hcount := (attaches_attachPartsOwned h).1.count_eq part
  simp only [TableState.copies, List.count_append, List.count_reverse, hcount]
  omega

/-- On a detached table, a fallback that returns had nothing to attach and left it detached. -/
theorem detached_after {s : TableState} {t : List RestoreEvent} {r : Nat × Nat}
    (hs : s.attached = false) (h : Runs (ctx.attachPartsOwned item) t (.returned r))
    (hl : (tableWorld point).Legal s t) :
    ctx.attachNames item = [] ∧ ((tableWorld point).after s t).attached = false := by
  obtain ⟨hperm, htolerated⟩ := attaches_attachPartsOwned h
  obtain ⟨hnone, hafter⟩ :=
    after_detached hs ((within_attachPartsOwned item).runs h).1 htolerated hl
  rw [hnone] at hperm
  exact ⟨hperm.symm.eq_nil, by rw [hafter, hs]⟩

variable (point) in
/-- On a table that is attached, or with nothing to attach, the fallback can return. -/
theorem exists_fallback {s : TableState} (h : s.attached = true ∨ ctx.attachNames item = []) :
    ∃ t r, Runs (ctx.attachPartsOwned item) t (.returned r) ∧ (tableWorld point).Legal s t := by
  obtain ⟨r, t, ht, hsmooth⟩ := ctx.yields_attachPartsOwned item
  refine ⟨t, r, ht, World.legal_of_invariant
    (I := fun s => s.attached = true ∨ ctx.attachNames item = []) (fun s hs ev hev => ?_) h⟩
  have hcall := ((within_attachPartsOwned item).runs ht).1 ev hev
  have hreply := hsmooth ev hev
  obtain ⟨c, r⟩ := ev
  cases hcall with
  | attachPart part hpart =>
    have hattached : s.attached = true :=
      hs.resolve_right fun hnil => List.ne_nil_of_mem (List.mem_map_of_mem hpart) hnil
    rw [show r = .ok () from hreply]
    exact ⟨⟨⟨fun _ => hattached, fun _ => rfl⟩, fun e he => nomatch he⟩, hs⟩
  | _ => exact ⟨trivial, hs⟩

/-- The server has a reply to every call. -/
theorem exists_allowed (s : TableState) (c : Call) : ∃ r, (tableWorld point).allows s ⟨c, r⟩ := by
  have hstep : ∀ q : FailPoint, ∃ r : Except Str Unit, r.isOk = true ↔ point ≠ q := by
    intro q
    by_cases h : point = q
    · exact ⟨.error [], by simp [h, Except.isOk, Except.toBool]⟩
    · exact ⟨.ok (), by simp [h, Except.isOk, Except.toBool]⟩
  cases c with
  | detachTableSync => exact hstep .detach
  | dirExists _ part => exact ⟨decide (part ∈ s.dirs), decide_eq_true_iff⟩
  | linkPart _ part => exact hstep (.link part)
  | attachTable => exact hstep .attachTable
  | systemRestoreReplica => exact hstep .restoreReplica
  | attachPart =>
    by_cases h : s.attached = true
    · exact ⟨.ok (), ⟨fun _ => h, fun _ => rfl⟩, fun e he => nomatch he⟩
    · refine ⟨.error "UNKNOWN_TABLE", ⟨fun hok => absurd hok Bool.false_ne_true, fun hs => absurd hs h⟩,
        fun e he => ?_⟩
      cases he
      decide
  | _ => exact ⟨smooth _, trivial⟩

theorem fallbackSound_of_condition {ddl : Str} {plan : CompleteAttachPlan} {dirs added : List Str}
    (h : ctx.FallbackCondition item plan dirs added point) :
    ctx.FallbackSound item ddl plan dirs added point := by
  intro t₁ e t₂ r h₁ h₂ hl
  obtain ⟨hl₁, hl₂⟩ := World.legal_append.mp hl
  rw [World.after_append]
  obtain ⟨-, hfailed⟩ := (runs_attachMode h₁ (fun h => nomatch h) hl₁).resolve_right
    fun h => nomatch h.1.choose_spec
  cases point with
  | detach =>
    rw [show (tableWorld .detach).after _ t₁ = _ from hfailed] at hl₂ ⊢
    obtain ⟨hattached, hcopies⟩ := copies_after (s := ⟨true, dirs, added⟩) rfl h₂ hl₂
    refine ⟨hattached, fun source hsource => ?_⟩
    rw [hcopies]
    rcases h source hsource with ⟨hone, hnot⟩ | ⟨hzero, hcount⟩
    · rw [hone, List.count_eq_zero.mpr hnot]
    · rw [hzero, hcount]
  | link part =>
    obtain ⟨hmem, hnot, hdetached⟩ := hfailed
    exact absurd (detached_after hdetached h₂ hl₂).1 (h hmem hnot)
  | attachTable => exact absurd (detached_after hfailed h₂ hl₂).1 h
  | restoreReplica =>
    obtain ⟨hattached, hadded, hdirs⟩ := hfailed
    obtain ⟨hend, hcopies⟩ := copies_after hattached h₂ hl₂
    refine ⟨hend, fun source hsource => ?_⟩
    obtain ⟨hnotAdded, hnotNames⟩ := h source hsource
    rw [hcopies, mem_dirs_copies (hdirs source hsource), hadded]
    rw [List.count_eq_zero.mpr hnotNames, show List.count source.1 added = 0 from
      List.count_eq_zero.mpr hnotAdded]

variable (ctx item) in
/-- ATTACH TABLE mode does fail at every point where it can. -/
theorem exists_failed (ddl : Str) {plan : CompleteAttachPlan} {s : TableState}
    (h : FailsAt plan s point) : ∃ t x, Runs (ctx.attachMode item ddl plan) t (.failed x) ∧
      (tableWorld point).Legal s t ∧ FailedIn plan s ((tableWorld point).after s t) point := by
  obtain ⟨t, e, ht, he, hl⟩ :=
    World.exists_legal_run exists_allowed (ctx.attachMode item ddl plan) s
  obtain ⟨⟨x, rfl⟩, hfailed⟩ := (runs_attachMode ht he hl).resolve_right fun hr => hr.2 h
  exact ⟨t, x, ht, hl, hfailed⟩

/-- A table that was left detached stays so unless the fallback fails. -/
theorem attachNames_ne_nil {ddl : Str} {plan : CompleteAttachPlan} {dirs added : List Str}
    (h : ctx.FallbackSound item ddl plan dirs added point)
    (hfails : FailsAt plan ⟨true, dirs, added⟩ point)
    (hdetached : ∀ s', FailedIn plan ⟨true, dirs, added⟩ s' point → s'.attached = false) :
    ctx.attachNames item ≠ [] := by
  intro hnil
  obtain ⟨t₁, x, h₁, hl₁, hfailed⟩ := exists_failed ctx item ddl hfails
  obtain ⟨t₂, r, h₂, hl₂⟩ := exists_fallback point (Or.inr hnil)
  have hsound := (h t₁ x t₂ r h₁ h₂ (World.legal_append.mpr ⟨hl₁, hl₂⟩)).1
  rw [World.after_append, (detached_after (hdetached _ hfailed) h₂ hl₂).2] at hsound
  exact Bool.false_ne_true hsound

theorem fallbackCondition_of_sound {ddl : Str} {plan : CompleteAttachPlan} {dirs added : List Str}
    (h : ctx.FallbackSound item ddl plan dirs added point) :
    ctx.FallbackCondition item plan dirs added point := by
  cases point with
  | detach =>
    obtain ⟨t₁, x, h₁, hl₁, hsame⟩ :=
      exists_failed ctx item ddl (show FailsAt plan ⟨true, dirs, added⟩ .detach from trivial)
    obtain ⟨t₂, r, h₂, hl₂⟩ := exists_fallback .detach
      (show _ ∨ ctx.attachNames item = [] from Or.inl (congrArg TableState.attached hsame))
    obtain ⟨-, hone⟩ := h t₁ x t₂ r h₁ h₂ (World.legal_append.mpr ⟨hl₁, hl₂⟩)
    intro source hsource
    have hcopies := hone source hsource
    rw [World.after_append, (copies_after (congrArg TableState.attached hsame) h₂ hl₂).2,
      show (tableWorld .detach).after _ t₁ = _ from hsame] at hcopies
    rcases Nat.eq_zero_or_pos ((ctx.attachNames item).count source.1) with hzero | hpos
    · exact Or.inl ⟨by omega, List.count_eq_zero.mp hzero⟩
    · exact Or.inr ⟨by omega, by omega⟩
  | link part => exact fun hmem hnot => attachNames_ne_nil h ⟨hmem, hnot⟩ fun _ hs => hs.2.2
  | attachTable => exact attachNames_ne_nil h trivial fun _ hs => hs
  | restoreReplica =>
    obtain ⟨t₁, x, h₁, hl₁, hattached, hadded, hdirs⟩ := exists_failed ctx item ddl
      (show FailsAt plan ⟨true, dirs, added⟩ .restoreReplica from trivial)
    obtain ⟨t₂, r, h₂, hl₂⟩ := exists_fallback .restoreReplica
      (show _ ∨ ctx.attachNames item = [] from Or.inl hattached)
    obtain ⟨-, hone⟩ := h t₁ x t₂ r h₁ h₂ (World.legal_append.mpr ⟨hl₁, hl₂⟩)
    intro source hsource
    have hcopies := hone source hsource
    rw [World.after_append, (copies_after hattached h₂ hl₂).2,
      mem_dirs_copies (hdirs source hsource), show _ = added from hadded] at hcopies
    exact ⟨List.count_eq_zero.mp (by omega), List.count_eq_zero.mp (by omega)⟩

/-- **When falling back neither duplicates nor strands data.** -/
theorem fallback_sound_iff (ctx : RestoreContext) (item : AttachParams) (ddl : Str)
    (plan : CompleteAttachPlan) (dirs added : List Str) (point : FailPoint) :
    ctx.FallbackSound item ddl plan dirs added point ↔
      ctx.FallbackCondition item plan dirs added point :=
  ⟨fallbackCondition_of_sound, fallbackSound_of_condition⟩

end RestoreContext

/-- The restore of a replicated table whose only part is staged. -/
def replicatedContext : RestoreContext where
  env := plainEnv { (default : RestoreConfig) with restoreAsAttach := true }
    { (default : RestoreArgs) with tablePattern := some "db.t" } replicatedManifest
  fate := plainFate
  manifest := replicatedManifest
  remap := none
  replicatedDatabases := []
  macros := SortedMap.empty

/-- **The fallback duplicates data.**  SYSTEM RESTORE REPLICA fails on an empty table whose part
has been linked and attached; the fallback attaches the part once more. -/
theorem fallback_duplicates_part : ∃ tm plan,
    replicatedManifest.tables.get? "db.t" = some tm ∧
      replicatedContext.attachPlan? "db.t" = some (plan, 0) ∧
      ¬ replicatedContext.FallbackSound (replicatedContext.freshItem "db.t" tm) tm.ddl plan [] []
        .restoreReplica := by
  refine ⟨_, _, rfl, rfl, fun h => ?_⟩
  exact (RestoreContext.fallbackCondition_of_sound h _ List.mem_cons_self).2 (by decide +kernel)

end Chbackup
