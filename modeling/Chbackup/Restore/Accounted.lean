import Chbackup.Restore.Fallback
import Chbackup.Restore.S3Parts

/-!
# Every part accounted for once

What `attach_parts_owned` (`src/restore/attach.rs`) reports of a table against what became of its
parts.  A part is attached, or known to be attached from an earlier attempt, or already present, or
missing; the report is a number of attached and a number of skipped parts, and a restore with a
skipped part is partial.

The parts on object disks go through two stages.  The first, `restore_s3_disk_parts`, works on all
the parts of the table, the partition filter notwithstanding, and the second attaches every selected
part that resuming does not pass over, the ones that the first has skipped included.  The report
adds up what both have skipped.
-/

namespace Chbackup

open CallTree Prog

/-- What becomes of a part. -/
inductive PartClass where
  | attached
  | resumed
  | present
  | missing
  deriving DecidableEq

/-- The class of the reply to an ATTACH PART; none for a success. -/
def replyClass : Except Str Unit → Option AttachErrorClass
  | .ok _ => none
  | .error e => some (classifyAttachError e)

/-- The parts that a trace attaches, with the replies. -/
def attachOutcomes (t : List RestoreEvent) : List (Str × Option AttachErrorClass) :=
  t.filterMap fun
    | ⟨.attachPart _ _ _ part, reply⟩ => some (part, replyClass reply)
    | _ => none

/-- A missing object of a part of a disk. -/
def missingObject (disk part : Str) (ev : StageEvent) : Bool :=
  notFoundCopy ev && match ev.1 with
    | .copyObject d n _ _ _ _ => d = disk && n = part
    | _ => false

namespace RestoreContext

variable (ctx : RestoreContext) (params : AttachParams) (p : S3RestoreParams)

/-- Whether the objects of the parts on object disks are restored. -/
def runsS3Stage : Bool :=
  ctx.restoresS3 params && !(ctx.allS3Attached params && !params.alreadyAttached.isEmpty)

/-- A run of `attach_parts_owned` up to its value, with the run of its first stage. -/
structure AttachRun (u : List StageEvent) (t : List RestoreEvent) (result : Nat × Nat) : Prop where
  table : Runs (ctx.attachPartsOwned params) t (.returned result)
  stage : ∀ reply, ⟨.restoreS3DiskParts params.tableKey, reply⟩ ∈ t →
    Runs (ctx.restoreS3DiskParts params p) u (End.ofExcept reply)

/-- The first stage cannot restore a part: the disk has no target, or an object is missing. -/
def stageMisses (u : List StageEvent) (part : PartInfo) : Bool :=
  ctx.runsS3Stage params && params.partsByDisk.entries.any fun e =>
    ctx.isS3DiskName e.1 && part ∈ e.2 &&
      ((p.dataTarget? e.1).isNone || u.any (missingObject e.1 part.name))

/-- The class of a part in a run. -/
def InClass (u : List StageEvent) (t : List RestoreEvent) (part : PartInfo) : PartClass → Prop
  | .attached => (part.name, none) ∈ attachOutcomes t
  | .resumed => part.name ∈ params.alreadyAttached
  | .present => (part.name, some .duplicatePart) ∈ attachOutcomes t ∨
      (part.name, some .temporarilyLocked) ∈ attachOutcomes t
  | .missing => part.name ∈ ctx.missingSourceParts params ∨
      (part.name, some .missingPart) ∈ attachOutcomes t ∨ ctx.stageMisses params p u part = true

instance (u : List StageEvent) (t : List RestoreEvent) (part : PartInfo) (c : PartClass) :
    Decidable (ctx.InClass params p u t part c) :=
  match c with
  | .attached => inferInstanceAs (Decidable (_ ∈ _))
  | .resumed => inferInstanceAs (Decidable (_ ∈ _))
  | .present => inferInstanceAs (Decidable (_ ∨ _))
  | .missing => inferInstanceAs (Decidable (_ ∨ _ ∨ _))

/-- Every selected part is in one class, and the report counts two of the classes. -/
structure AccountedOnce (u : List StageEvent) (t : List RestoreEvent) (result : Nat × Nat) :
    Prop where
  once : ∀ part ∈ params.parts, ∃! c, ctx.InClass params p u t part c
  attached : result.1 = params.parts.countP fun part => ctx.InClass params p u t part .attached
  skipped : result.2 = params.parts.countP fun part => ctx.InClass params p u t part .missing
  /-- The restore is partial when the data of a selected part is missing. -/
  partialIff : 0 < result.2 ↔ ∃ part ∈ params.parts, ctx.InClass params p u t part .missing

/-- Nothing for the first stage to skip: the table has no disk without a target, and the backup
has every object that is asked for. -/
def NothingToSkip (u : List StageEvent) : Prop :=
  ctx.runsS3Stage params = true →
    (∀ e ∈ params.partsByDisk.entries, ctx.isS3DiskName e.1 = true → e.2 ≠ [] →
      (p.dataTarget? e.1).isSome = true) ∧ AllFound u

/-! ## The second stage -/

section Attached

variable {ctx : RestoreContext} {params : AttachParams} {t : List RestoreEvent}

@[simp] theorem attachOutcomes_append (t t' : List RestoreEvent) :
    attachOutcomes (t ++ t') = attachOutcomes t ++ attachOutcomes t' := List.filterMap_append

theorem attachOutcomes_flatten (us : List (List RestoreEvent)) :
    attachOutcomes us.flatten = us.flatMap attachOutcomes := by
  induction us with
  | nil => rfl
  | cons u us ih => rw [List.flatten_cons, attachOutcomes_append, ih, List.flatMap_cons]

theorem attachOutcomes_eq_nil {α : Type} {q : RestoreProg α} {e : End Str α}
    (hq : Within (fun c => ∀ key db table part, c ≠ .attachPart key db table part) (fun _ => True) q)
    (h : Runs q t e) : attachOutcomes t = [] := by
  refine List.filterMap_eq_nil_iff.mpr fun ev hev => ?_
  have hc := (hq.runs h).1 ev hev
  obtain ⟨c, r⟩ := ev
  cases c with
  | attachPart key db table part => exact absurd rfl (hc key db table part)
  | _ => rfl

/-- One ATTACH PART: its value is the class of its reply, and no unknown error is passed over. -/
theorem attachOutcomes_attachPart {name : Str} {o : Option AttachErrorClass}
    (h : Runs (ctx.attachPart params name) t (.returned o)) :
    attachOutcomes t = [(name, o)] ∧ o ≠ some .unknown := by
  cases h with
  | @call _ _ u _ r h =>
    cases r with
    | ok =>
      dsimp only [ret_bind] at h
      obtain ⟨_, u₁, u₂, rfl, h₁, h₂⟩ := h.returned_of_bind
      cases h₂
      have hquiet : attachOutcomes u₁ = [] := by
        refine attachOutcomes_eq_nil (within_onlyIf (fun _ => ?_) trivial) h₁
        exact within_perform (fun _ _ _ _ h => by cases h) fun _ => within_ret trivial
      refine ⟨?_, fun h => by cases h⟩
      rw [List.append_nil]
      show (name, none) :: attachOutcomes u₁ = [(name, none)]
      rw [hquiet]
    | error e =>
      dsimp only [ret_bind] at h
      split at h
      · cases h
      · rename_i hne
        cases h
        exact ⟨rfl, fun h => hne (Option.some.inj h)⟩

/-- **The second stage tries each of its parts once.**  This holds in order and in parallel. -/
theorem attachOutcomes_attachAll {parts : List PartInfo} {os : List (Option AttachErrorClass)}
    (h : Runs (ctx.attachAll params parts) t (.returned os)) :
    ∃ outcomes : List (Str × Option AttachErrorClass), (attachOutcomes t).Perm outcomes ∧
      outcomes.map Prod.fst = parts.map PartInfo.name ∧ outcomes.map Prod.snd = os ∧
        ∀ o ∈ os, o ≠ some .unknown := by
  have hsegments : ∃ us : List (List RestoreEvent × Option AttachErrorClass),
      t.Perm (us.map Prod.fst).flatten ∧ os = us.map Prod.snd ∧
        List.Forall₂ (fun part u => Runs (ctx.attachPart params part.name) u.1 (.returned u.2))
          parts us := by
    unfold attachAll at h
    split at h
    · obtain ⟨us, rfl, rfl, hus⟩ := h.values_of_forEach
      exact ⟨us, List.Perm.refl _, rfl, hus⟩
    · obtain ⟨xs, t₁, t₂, rfl, h₁, h₂⟩ := h.returned_of_bind
      obtain ⟨rfl, rfl⟩ := runs_collect h₂
      obtain ⟨us, hperm, hvals, hus⟩ := h₁.values_of_par
      rw [List.forall₂_map_left_iff] at hus
      obtain ⟨vs, hfst, rfl, hvs⟩ := Runs.values_of_attempt hvals hus
      refine ⟨vs, ?_, rfl, hvs⟩
      rw [List.append_nil, ← hfst]
      exact hperm
  obtain ⟨us, hperm, rfl, hus⟩ := hsegments
  refine ⟨us.flatMap fun u => attachOutcomes u.1, ?_, ?_, ?_, ?_⟩
  · rw [← List.flatMap_map, ← attachOutcomes_flatten]
    exact hperm.filterMap _
  all_goals clear hperm h
  · induction hus with
    | nil => rfl
    | @cons part u parts us hu _ ih =>
      rw [List.flatMap_cons, (attachOutcomes_attachPart hu).1, List.map_append, ih]
      rfl
  · induction hus with
    | nil => rfl
    | @cons part u parts us hu _ ih =>
      rw [List.flatMap_cons, (attachOutcomes_attachPart hu).1, List.map_append, ih]
      rfl
  · intro o ho
    obtain ⟨u, hu, rfl⟩ := List.mem_map.mp ho
    obtain ⟨part, -, hrun⟩ := exists_of_forall₂ hus hu
    exact (attachOutcomes_attachPart hrun).2

/-- What a run of the second stage reports. -/
structure Reports (ctx : RestoreContext) (params : AttachParams) (t : List RestoreEvent)
    (result : Nat × Nat) (outcomes : List (Str × Option AttachErrorClass)) : Prop where
  perm : (attachOutcomes t).Perm outcomes
  names : outcomes.map Prod.fst = (ctx.partsToAttach params).map PartInfo.name
  known : ∀ o ∈ outcomes, o.2 ≠ some .unknown
  attached : result.1 = outcomes.countP fun o => o.2 = none
  skipped : result.2 = (ctx.missingSourceParts params).dedup.length +
    outcomes.countP fun o => o.2 = some .missingPart

theorem reports_attachPartsInner {result : Nat × Nat}
    (h : Runs (ctx.attachPartsInner params) t (.returned result)) :
    ∃ outcomes, Reports ctx params t result outcomes := by
  unfold attachPartsInner at h
  split at h
  · rename_i hparts
    cases h
    have hwork : workParts params = [] := by
      simp [workParts, hparts, sortPartsByMinBlock]
    refine ⟨[], List.Perm.refl _, ?_, fun _ ho => absurd ho List.not_mem_nil, rfl, ?_⟩
    · simp [partsToAttach, hwork]
    · simp [missingSourceParts, hwork]
  obtain ⟨_, u₁, u₂, rfl, g₁, g₂⟩ := h.returned_of_bind
  obtain ⟨_, u₃, u₄, rfl, g₃, g₄⟩ := g₂.returned_of_bind
  obtain ⟨_, u₅, u₆, rfl, g₅, g₆⟩ := g₄.returned_of_bind
  obtain ⟨os, u₇, u₈, rfl, g₇, g₈⟩ := g₆.returned_of_bind
  cases g₈
  obtain ⟨outcomes, hperm, hnames, rfl, hknown⟩ := attachOutcomes_attachAll g₇
  -- before the parts are attached, directories are made and files are linked
  have hquiet : attachOutcomes (u₁ ++ (u₃ ++ u₅)) = [] := by
    rw [attachOutcomes_append, attachOutcomes_append, attachOutcomes_eq_nil ?_ g₁,
      attachOutcomes_eq_nil ?_ g₃, attachOutcomes_eq_nil ?_ g₅]
    · rfl
    · refine (within_forEach (Q := fun _ _ => True) fun part _ => ?_).imp fun _ _ => trivial
      unfold preparePart
      split
      · exact within_ret trivial
      · split
        · exact within_ret trivial
        · exact within_perform (fun _ _ _ _ h => by cases h) fun _ =>
            within_orFail fun _ _ => trivial
    · exact within_orFail fun _ _ => trivial
    · exact within_call (fun _ _ _ _ h => by cases h) fun _ => within_ret trivial
  refine ⟨outcomes, ?_, hnames, fun o ho => hknown _ (List.mem_map.mpr ⟨o, ho, rfl⟩), ?_, ?_⟩
  · have happend : u₁ ++ (u₃ ++ (u₅ ++ (u₇ ++ []))) = (u₁ ++ (u₃ ++ u₅)) ++ u₇ := by simp
    rw [happend, attachOutcomes_append, hquiet]
    exact hperm
  · rw [List.count_eq_countP, List.countP_map]
    exact List.countP_congr fun o _ => by simp
  · rw [← List.countP_eq_length_filter, List.countP_map]
    refine congrArg _ (List.countP_congr fun o _ => ?_)
    rcases o with ⟨n, _ | c⟩
    · simp
    · simp [AttachErrorClass.countsAsMissingData]

theorem restoresS3_call_mem {result : Nat × Nat}
    (h : Runs (ctx.attachPartsOwned params) t (.returned result)) :
    ∃ n t' result', Runs (ctx.attachPartsInner params) t' (.returned result') ∧
      attachOutcomes t = attachOutcomes t' ∧ result = (result'.1, result'.2 + n) ∧
        if ctx.runsS3Stage params then (⟨.restoreS3DiskParts params.tableKey, .ok n⟩ : RestoreEvent) ∈ t
        else n = 0 := by
  obtain ⟨n, t₁, t₂, rfl, h₁, h₂⟩ := h.returned_of_bind
  obtain ⟨result', t₃, t₄, rfl, h₃, h₄⟩ := h₂.returned_of_bind
  cases h₄
  rw [List.append_nil]
  refine ⟨n, t₃, result', h₃, ?_, rfl, ?_⟩
  · rw [attachOutcomes_append, attachOutcomes_eq_nil ?_ h₁, List.nil_append]
    split
    · exact within_perform (fun _ _ _ _ h => by cases h) fun _ => within_orRaise fun _ _ => trivial
    · exact within_ret trivial
  · unfold runsS3Stage
    split at h₁
    · rename_i hstage
      rw [if_pos hstage]
      cases h₁ with
      | call r h₁ =>
        cases r with
        | error e => cases h₁
        | ok m =>
          cases h₁
          exact List.mem_append_left _ List.mem_cons_self
    · rename_i hstage
      rw [if_neg hstage]
      cases h₁
      rfl

end Attached

/-! ## Counting -/

section Count

variable {α β : Type} {names : List α} {f g : α → Bool}

/-- Counting the elements of a list that belong to another. -/
theorem countP_mem_eq [DecidableEq α] {l : List α} (hnames : names.Nodup)
    (hsub : ∀ n ∈ l, n ∈ names) (hf : ∀ n, f n = true ↔ n ∈ l) :
    names.countP f = l.dedup.length := by
  have hperm : (names.filter f).Perm l.dedup := by
    rw [List.perm_ext_iff_of_nodup (hnames.filter _) (List.nodup_dedup l)]
    intro n
    rw [List.mem_filter, List.mem_dedup, hf]
    exact ⟨And.right, fun h => ⟨hsub n h, h⟩⟩
  rw [List.countP_eq_length_filter, hperm.length_eq]

/-- Counting names with a value counts the value. -/
theorem countP_pair_mem [DecidableEq α] {pairs : List (α × β)} (hnames : names.Nodup)
    (hpairs : (pairs.map Prod.fst).Nodup) (hsub : ∀ n ∈ pairs.map Prod.fst, n ∈ names) {b : β}
    (hf : ∀ n, f n = true ↔ (n, b) ∈ pairs) {h : α × β → Bool} (hh : ∀ x, h x = true ↔ x.2 = b) :
    names.countP f = pairs.countP h := by
  have hmem : ∀ n, f n = true ↔ n ∈ (pairs.filter h).map Prod.fst := by
    intro n
    simp only [hf, List.mem_map, List.mem_filter, hh]
    constructor
    · intro h
      exact ⟨(n, b), ⟨h, rfl⟩, rfl⟩
    · rintro ⟨⟨m, b'⟩, ⟨h, rfl⟩, rfl⟩
      exact h
  have hfilter : ((pairs.filter h).map Prod.fst).Nodup :=
    hpairs.sublist (List.filter_sublist.map _)
  have hsub' : ∀ n ∈ (pairs.filter h).map Prod.fst, n ∈ names := fun n hn =>
    hsub n ((List.filter_sublist.map Prod.fst).subset hn)
  rw [countP_mem_eq hnames hsub' hmem, hfilter.dedup, List.length_map,
    List.countP_eq_length_filter]

/-- Two exclusive conditions are counted apart. -/
theorem countP_or_of_exclusive {l : List α} (h : ∀ x ∈ l, f x = true → g x = true → False) :
    (l.countP fun x => f x || g x) = l.countP f + l.countP g := by
  induction l with
  | nil => rfl
  | cons x l ih =>
    have hx := h x List.mem_cons_self
    rw [List.countP_cons, List.countP_cons, List.countP_cons,
      ih fun y hy => h y (List.mem_cons_of_mem _ hy)]
    cases hf : f x with
    | false =>
      rw [Bool.false_or, if_neg Bool.false_ne_true]
      omega
    | true =>
      have hg : g x = false := by
        cases hg : g x with
        | false => rfl
        | true => exact (hx hf hg).elim
      rw [Bool.true_or, hg, if_pos rfl, if_neg Bool.false_ne_true]
      omega

end Count

section Once

variable {ctx : RestoreContext} {params : AttachParams} {p : S3RestoreParams}
  {u : List StageEvent} {t : List RestoreEvent} {result : Nat × Nat}
  {outcomes : List (Str × Option AttachErrorClass)}

theorem mem_workParts {part : PartInfo} :
    part ∈ workParts params ↔ part ∈ params.parts ∧ part.name ∉ params.alreadyAttached := by
  simp [workParts, mem_sortPartsByMinBlock]

theorem mem_missingSourceParts {n : Str} (h : n ∈ ctx.missingSourceParts params) :
    n ∈ params.parts.map PartInfo.name ∧ n ∉ params.alreadyAttached := by
  obtain ⟨part, hpart, rfl⟩ := List.mem_map.mp h
  have hwork := mem_workParts.mp (List.mem_filter.mp hpart).1
  exact ⟨List.mem_map.mpr ⟨part, hwork.1, rfl⟩, hwork.2⟩

namespace Reports

/-- The second stage tries the selected parts that are neither resumed nor without a source. -/
theorem mem_names_iff (h : Reports ctx params t result outcomes) {n : Str} :
    n ∈ outcomes.map Prod.fst ↔ n ∈ params.parts.map PartInfo.name ∧ n ∉ params.alreadyAttached ∧
      n ∉ ctx.missingSourceParts params := by
  rw [h.names]
  constructor
  · intro hn
    obtain ⟨part, hpart, rfl⟩ := List.mem_map.mp hn
    obtain ⟨hwork, hmissing⟩ := List.mem_filter.mp hpart
    have hpart' := mem_workParts.mp hwork
    exact ⟨List.mem_map.mpr ⟨part, hpart'.1, rfl⟩, hpart'.2, of_decide_eq_true hmissing⟩
  · rintro ⟨hn, halready, hmissing⟩
    obtain ⟨part, hpart, rfl⟩ := List.mem_map.mp hn
    exact List.mem_map.mpr ⟨part,
      List.mem_filter.mpr ⟨mem_workParts.mpr ⟨hpart, halready⟩, decide_eq_true hmissing⟩, rfl⟩

theorem names_nodup (h : Reports ctx params t result outcomes)
    (hnodup : (params.parts.map PartInfo.name).Nodup) : (outcomes.map Prod.fst).Nodup := by
  rw [h.names]
  have hsorted : ((sortPartsByMinBlock params.parts).map PartInfo.name).Nodup :=
    ((sortPartsByMinBlock_perm params.parts).map _).nodup_iff.mpr hnodup
  exact hsorted.sublist ((List.filter_sublist.trans List.filter_sublist).map _)

/-- A part is tried by no other name. -/
theorem outcome_unique (h : Reports ctx params t result outcomes)
    (hnodup : (params.parts.map PartInfo.name).Nodup) {n : Str} {o o' : Option AttachErrorClass}
    (ho : (n, o) ∈ outcomes) (ho' : (n, o') ∈ outcomes) : o = o' := by
  have heq := List.inj_on_of_nodup_map (h.names_nodup hnodup) ho ho' rfl
  exact congrArg Prod.snd heq

/-- What becomes of a part, the first stage apart. -/
theorem fate (h : Reports ctx params t result outcomes) {part : PartInfo}
    (hpart : part ∈ params.parts) :
    (part.name ∈ params.alreadyAttached ∧ part.name ∉ ctx.missingSourceParts params ∧
        ∀ o, (part.name, o) ∉ outcomes) ∨
      (part.name ∉ params.alreadyAttached ∧ part.name ∈ ctx.missingSourceParts params ∧
        ∀ o, (part.name, o) ∉ outcomes) ∨
      (part.name ∉ params.alreadyAttached ∧ part.name ∉ ctx.missingSourceParts params ∧
        ∃ o, (part.name, o) ∈ outcomes ∧ o ≠ some .unknown) := by
  have hname : part.name ∈ params.parts.map PartInfo.name := List.mem_map.mpr ⟨part, hpart, rfl⟩
  have hnone : part.name ∉ outcomes.map Prod.fst → ∀ o, (part.name, o) ∉ outcomes :=
    fun hn o ho => hn (List.mem_map.mpr ⟨_, ho, rfl⟩)
  by_cases halready : part.name ∈ params.alreadyAttached
  · refine Or.inl ⟨halready, fun hm => (mem_missingSourceParts hm).2 halready, hnone fun hn => ?_⟩
    exact (h.mem_names_iff.mp hn).2.1 halready
  by_cases hmissing : part.name ∈ ctx.missingSourceParts params
  · exact Or.inr (Or.inl ⟨halready, hmissing, hnone fun hn => (h.mem_names_iff.mp hn).2.2 hmissing⟩)
  · obtain ⟨⟨n, o⟩, ho, rfl⟩ := List.mem_map.mp (h.mem_names_iff.mpr ⟨hname, halready, hmissing⟩)
    exact Or.inr (Or.inr ⟨halready, hmissing, o, ho, h.known _ ho⟩)

theorem attached_eq (h : Reports ctx params t result outcomes)
    (hnodup : (params.parts.map PartInfo.name).Nodup) :
    result.1 = params.parts.countP fun part => (part.name, none) ∈ outcomes := by
  have hcount := countP_pair_mem (f := fun n => (n, none) ∈ outcomes) hnodup (h.names_nodup hnodup)
    (fun n hn => (h.mem_names_iff.mp hn).1) (fun n => decide_eq_true_iff)
    (fun x => decide_eq_true_iff)
  rw [h.attached, ← hcount, List.countP_map]
  rfl

/-- The second stage counts a part without a source, and a part the server has not found. -/
theorem skipped_eq (h : Reports ctx params t result outcomes)
    (hnodup : (params.parts.map PartInfo.name).Nodup) :
    result.2 = params.parts.countP fun part => part.name ∈ ctx.missingSourceParts params ||
      (part.name, some AttachErrorClass.missingPart) ∈ outcomes := by
  have hsources := countP_mem_eq (f := fun n => n ∈ ctx.missingSourceParts params) hnodup
    (fun n hn => (@mem_missingSourceParts ctx params n hn).1) fun n => decide_eq_true_iff
  have hreplies := countP_pair_mem
    (f := fun n => (n, some AttachErrorClass.missingPart) ∈ outcomes) hnodup (h.names_nodup hnodup)
    (fun n hn => (h.mem_names_iff.mp hn).1) (fun n => decide_eq_true_iff)
    (fun x => decide_eq_true_iff)
  rw [h.skipped, ← hsources, ← hreplies, ← countP_or_of_exclusive, List.countP_map]
  · rfl
  · intro n _ hm ho
    have hn : n ∈ outcomes.map Prod.fst := List.mem_map.mpr ⟨_, of_decide_eq_true ho, rfl⟩
    exact (h.mem_names_iff.mp hn).2.2 (of_decide_eq_true hm)

end Reports

/-- A part is missing to the second stage. -/
def MissingLater (ctx : RestoreContext) (params : AttachParams) (t : List RestoreEvent)
    (part : PartInfo) : Prop :=
  part.name ∈ ctx.missingSourceParts params ∨ (part.name, some .missingPart) ∈ attachOutcomes t

/-- Without the first stage every part is in one class. -/
theorem inClass_unique (h : Reports ctx params t result outcomes)
    (hnodup : (params.parts.map PartInfo.name).Nodup) {part : PartInfo} (hpart : part ∈ params.parts)
    (hstage : ctx.stageMisses params p u part = false) :
    ∃! c, ctx.InClass params p u t part c := by
  have hmem : ∀ o, (part.name, o) ∈ attachOutcomes t ↔ (part.name, o) ∈ outcomes :=
    fun o => h.perm.mem_iff
  rcases h.fate hpart with ⟨ha, hm, ho⟩ | ⟨ha, hm, ho⟩ | ⟨ha, hm, o, ho, hknown⟩
  · refine ⟨.resumed, ha, fun c hc => ?_⟩
    cases c <;> simp_all [InClass]
  · refine ⟨.missing, Or.inl hm, fun c hc => ?_⟩
    cases c <;> simp_all [InClass]
  · have hother : ∀ o', (part.name, o') ∈ attachOutcomes t ↔ o' = o := by
      intro o'
      rw [hmem]
      exact ⟨fun ho' => h.outcome_unique hnodup ho' ho, fun heq => heq ▸ ho⟩
    clear hmem
    rcases o with _ | c
    · refine ⟨.attached, (hother _).mpr rfl, fun c hc => ?_⟩
      cases c <;> simp_all [InClass]
    cases c with
    | missingPart =>
      refine ⟨.missing, Or.inr (Or.inl ((hother _).mpr rfl)), fun c hc => ?_⟩
      cases c <;> simp_all [InClass]
    | duplicatePart =>
      refine ⟨.present, Or.inl ((hother _).mpr rfl), fun c hc => ?_⟩
      cases c <;> simp_all [InClass]
    | temporarilyLocked =>
      refine ⟨.present, Or.inr ((hother _).mpr rfl), fun c hc => ?_⟩
      cases c <;> simp_all [InClass]
    | unknown => exact absurd rfl hknown

/-- A part in the class of the missing parts alone is missing to the second stage. -/
theorem missingLater_of_once (h : Reports ctx params t result outcomes) {part : PartInfo}
    (hpart : part ∈ params.parts) (honce : ∃! c, ctx.InClass params p u t part c)
    (hmissing : ctx.InClass params p u t part .missing) : MissingLater ctx params t part := by
  have hmem : ∀ o, (part.name, o) ∈ attachOutcomes t ↔ (part.name, o) ∈ outcomes :=
    fun o => h.perm.mem_iff
  have hnot : ∀ c, c ≠ .missing → ¬ctx.InClass params p u t part c := fun c hc hin =>
    hc (honce.unique hin hmissing)
  rcases h.fate hpart with ⟨ha, -⟩ | ⟨-, hm, -⟩ | ⟨-, -, o, ho, hknown⟩
  · exact absurd ha (hnot .resumed (by decide))
  · exact Or.inl hm
  · rcases o with _ | c
    · exact absurd ((hmem _).mpr ho) (hnot .attached (by decide))
    cases c with
    | missingPart => exact Or.inr ((hmem _).mpr ho)
    | duplicatePart => exact absurd (Or.inl ((hmem _).mpr ho)) (hnot .present (by decide))
    | temporarilyLocked => exact absurd (Or.inr ((hmem _).mpr ho)) (hnot .present (by decide))
    | unknown => exact absurd rfl hknown

/-- A stage that skips nothing misses no part. -/
theorem stageMisses_eq_false (h : ctx.NothingToSkip params p u) (part : PartInfo) :
    ctx.stageMisses params p u part = false := by
  unfold stageMisses
  cases hrun : ctx.runsS3Stage params with
  | false => rfl
  | true =>
    obtain ⟨htargets, hfound⟩ := h hrun
    rw [Bool.true_and, List.any_eq_false]
    intro e he hmiss
    simp only [Bool.and_eq_true, Bool.or_eq_true, decide_eq_true_eq, List.any_eq_true] at hmiss
    obtain ⟨⟨hdisk, hmem⟩, htarget | ⟨ev, hev, hobject⟩⟩ := hmiss
    · have hsome := htargets e he hdisk (List.ne_nil_of_mem hmem)
      rw [Option.isNone_iff_eq_none] at htarget
      rw [htarget] at hsome
      cases hsome
    · rw [missingObject, hfound ev hev] at hobject
      cases hobject

/-- **The report of a table, its two stages together.** -/
theorem AttachRun.reports (h : ctx.AttachRun params p u t result) :
    ∃ n result' outcomes, result = (result'.1, result'.2 + n) ∧
      Reports ctx params t result' outcomes ∧ (n = 0 ↔ ctx.NothingToSkip params p u) := by
  obtain ⟨n, t', result', hrun, houtcomes, hresult, hstage⟩ := restoresS3_call_mem h.table
  obtain ⟨outcomes, hreports⟩ := reports_attachPartsInner hrun
  refine ⟨n, result', outcomes, hresult, { hreports with perm := houtcomes ▸ hreports.perm }, ?_⟩
  unfold NothingToSkip
  split at hstage
  · rename_i hruns
    rw [restoreS3DiskParts_skips (h.stage (.ok n) hstage)]
    exact ⟨fun hskip _ => hskip, fun hskip => hskip hruns⟩
  · rename_i hruns
    exact ⟨fun _ h => absurd h hruns, fun _ => hstage⟩

/-- **Every part is accounted for once exactly when the first stage has nothing to skip.** -/
theorem accountedOnce_iff (hnodup : (params.parts.map PartInfo.name).Nodup)
    (h : ctx.AttachRun params p u t result) :
    ctx.AccountedOnce params p u t result ↔ ctx.NothingToSkip params p u := by
  obtain ⟨n, result', outcomes, rfl, hreports, hzero⟩ := h.reports
  have hlater : ∀ part, MissingLater ctx params t part ↔
      (part.name ∈ ctx.missingSourceParts params ∨ (part.name, some .missingPart) ∈ outcomes) :=
    fun part => or_congr_right hreports.perm.mem_iff
  rw [← hzero]
  constructor
  · intro haccount
    -- the class of the missing parts is what the second stage counts
    have hsame : params.parts.countP (fun part => ctx.InClass params p u t part .missing) =
        result'.2 := by
      rw [hreports.skipped_eq hnodup]
      refine List.countP_congr fun part hpart => ?_
      rw [decide_eq_true_eq, Bool.or_eq_true, decide_eq_true_eq, decide_eq_true_eq, ← hlater]
      constructor
      · exact missingLater_of_once hreports hpart (haccount.once part hpart)
      · rintro (hm | ho)
        · exact Or.inl hm
        · exact Or.inr (Or.inl ho)
    have hskipped := haccount.skipped
    rw [hsame] at hskipped
    dsimp only at hskipped
    omega
  · rintro rfl
    have hmiss := stageMisses_eq_false (hzero.mp rfl)
    have hskipped : result'.2 =
        params.parts.countP fun part => ctx.InClass params p u t part .missing := by
      rw [hreports.skipped_eq hnodup]
      refine List.countP_congr fun part _ => ?_
      rw [decide_eq_true_eq, Bool.or_eq_true, decide_eq_true_eq, decide_eq_true_eq, ← hlater]
      refine ⟨fun hl => hl.elim Or.inl fun ho => Or.inr (Or.inl ho), ?_⟩
      rintro (hm | ho | hs)
      · exact Or.inl hm
      · exact Or.inr ho
      · rw [hmiss part] at hs
        cases hs
    refine ⟨fun part hpart => inClass_unique hreports hnodup hpart (hmiss part), ?_, ?_, ?_⟩
    · rw [hreports.attached_eq hnodup]
      refine List.countP_congr fun part _ => ?_
      rw [decide_eq_true_eq, decide_eq_true_eq]
      exact hreports.perm.mem_iff.symm
    · exact hskipped
    · show 0 < result'.2 ↔ _
      rw [hskipped, List.countP_pos_iff]
      simp only [decide_eq_true_eq]

end Once

end RestoreContext

/-! ## A table on an S3 disk -/

/-- A part with one object. -/
def s3DiskPart (name object : Str) : PartInfo :=
  (PartInfo.new name 1 1).withS3Objects [⟨object, 1, object⟩]

/-- A restore of partition 1 of a table on an S3 disk. -/
def partitionContext : RestoreContext where
  env := plainEnv default { (default : RestoreArgs) with partitions := some "1" } default
  fate := plainFate
  manifest := { (default : BackupManifest) with diskTypes := SortedMap.empty.insert "s3" "s3" }
  remap := none
  replicatedDatabases := []
  macros := SortedMap.empty

/-- The selected part of the table. -/
def selectedPart : PartInfo := s3DiskPart "1_1_1_0" "a"

/-- The table has a part of partition 2 besides. -/
def partitionParams : AttachParams where
  tableKey := "db.t"
  db := "db"
  table := "t"
  parts := [selectedPart]
  tableDataPath := "/data"
  tableUuid := some "abc"
  engine := []
  partsByDisk := SortedMap.empty.insert "s3" [selectedPart, s3DiskPart "2_2_2_0" "b"]
  alreadyAttached := []
  hasS3Client := true

/-- A disk with a target. -/
def partitionStage : S3RestoreParams where
  tableUuid := "abc"
  diskRemotePaths := SortedMap.empty.insert "s3" "s3://d/p"
  diskLocalPaths := SortedMap.empty
  backupBucket := "b"
  backupPrefix := []
  stagedFiles := fun _ => []
  copySchedule := fun _ _ => []

/-- Everything succeeds, and the copies of partition 2 get the given reply. -/
def stageReplies (other : Except Str Unit) : (c : StageCall) → c.Reply
  | .listObjects .. => .ok []
  | .copyObject _ part _ _ _ _ => if part = "2_2_2_0".toList then other else .ok ()
  | .createDir _ => .ok ()
  | .writeFile .. => .ok ()
  | .chown _ => .ok ()

/-- The first stage of the restore. -/
def partitionTrace (other : Except Str Unit) : List StageEvent :=
  traceOn (stageReplies other) (partitionContext.restoreS3DiskParts partitionParams partitionStage)

/-- The restore attaches the selected part. -/
def attachedTrace (n : Nat) : List RestoreEvent :=
  [⟨.restoreS3DiskParts "db.t", .ok n⟩, ⟨.createDetachedDir "/data/detached", .ok ()⟩,
    ⟨.attachPart "db.t" "db" "t" "1_1_1_0", .ok ()⟩]

theorem partition_attachRun {other : Except Str Unit} {n : Nat}
    (h : endOn (stageReplies other)
      (partitionContext.restoreS3DiskParts partitionParams partitionStage) = .returned n) :
    partitionContext.AttachRun partitionParams partitionStage (partitionTrace other)
      (attachedTrace n) (1, n) := by
  have hwork : RestoreContext.workParts partitionParams = [selectedPart] := by
    simp [RestoreContext.workParts, partitionParams, sortPartsByMinBlock]
  have hmissing : partitionContext.missingSourceParts partitionParams = [] := by
    unfold RestoreContext.missingSourceParts
    rw [hwork]
    rfl
  have htodo : partitionContext.partsToAttach partitionParams = [selectedPart] := by
    unfold RestoreContext.partsToAttach
    rw [hwork, hmissing]
    rfl
  constructor
  · have hn : (1, n) = (1, (0 : Nat) + n) := by rw [Nat.zero_add]
    rw [hn]
    unfold RestoreContext.attachPartsOwned RestoreContext.attachPartsInner
    rw [hwork, hmissing, htodo]
    exact @Runs.call Call Call.Reply Str _ (.restoreS3DiskParts "db.t") _ _ _ (.ok n) <|
      @Runs.call Call Call.Reply Str _ (.createDetachedDir "/data/detached") _ _ _ (.ok ()) <|
        @Runs.call Call Call.Reply Str _ (.attachPart "db.t" "db" "t" "1_1_1_0") _ _ _ (.ok ()) <|
          Runs.ret (1, 0 + n)
  · intro reply hreply
    have hr : reply = .ok n := by
      simp only [attachedTrace, List.mem_cons, List.not_mem_nil, or_false] at hreply
      rcases hreply with hr | hr | hr <;> cases hr
      rfl
    subst hr
    have hrun := runs_on (stageReplies other)
      (partitionContext.restoreS3DiskParts partitionParams partitionStage)
    rw [h] at hrun
    exact hrun

theorem partition_accounted :
    partitionContext.AccountedOnce partitionParams partitionStage (partitionTrace (.ok ()))
        (attachedTrace 0) (1, 0) ↔
      partitionContext.NothingToSkip partitionParams partitionStage (partitionTrace (.ok ())) :=
  RestoreContext.accountedOnce_iff (by decide) (partition_attachRun (by decide))

/-- A missing object of a part that is not selected makes the restore partial, although the selected
part is attached. -/
theorem unselected_part_counted : ¬∀ (ctx : RestoreContext) (params : AttachParams)
    (p : S3RestoreParams) (u : List StageEvent) (t : List RestoreEvent) (result : Nat × Nat),
    (params.parts.map PartInfo.name).Nodup → ctx.AttachRun params p u t result →
      ctx.AccountedOnce params p u t result := by
  intro h
  have hrun : partitionContext.AttachRun partitionParams partitionStage
      (partitionTrace (.error "NoSuchKey")) (attachedTrace 1) (1, 1) :=
    partition_attachRun (by decide)
  have haccount := h _ _ _ _ _ _ (by decide) hrun
  obtain ⟨part, hpart, hmissing⟩ := haccount.partialIff.mp (by decide)
  obtain rfl := List.mem_singleton.mp hpart
  have hattached : partitionContext.InClass partitionParams partitionStage
      (partitionTrace (.error "NoSuchKey")) (attachedTrace 1) selectedPart .attached := by decide
  have hsame := (haccount.once _ hpart).unique hattached hmissing
  cases hsame

end Chbackup
