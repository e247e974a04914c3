import Chbackup.Lib.World
import Chbackup.Restore.History

/-!
# Pending mutations over a sequence of attempts

A backup records the mutations that were pending when it was made, and a restore executes them
again once the parts are attached.  It goes by the tables of the current attempt: nothing is
recorded of the mutations executed, so every attempt that comes as far sends all of them.  A
command that the textual filter rejects is not sent, but the reply is that of a success.  A command that
the server rejects is reported as failed, and the restore succeeds.

* `applied_once_iff`: where the server accepts what the last attempt sends, every mutation is executed
  once exactly if no earlier attempt had one executed and the filter rejects none.
-/

namespace Chbackup

open CallTree Prog

/-! ## Executed and reported -/

/-- The statement of a mutation that an event sends. -/
def sentMutation? : RestoreEvent → Option Str
  | ⟨.executeMutation sql, _⟩ => some sql
  | _ => none

/-- The statements of mutations that a trace sends, in order. -/
def sentMutations (t : List RestoreEvent) : List Str := t.filterMap sentMutation?

/-- An event that reports a mutation as re-applied. -/
def reportsReapplied : RestoreEvent → Bool
  | ⟨.reportMutation _ _ reapplied, _⟩ => reapplied
  | _ => false

/-- Whether an event is a mutation that the server accepts. -/
def acceptsMutation : RestoreEvent → Bool
  | ⟨.executeMutation _, (r : Except Str Unit)⟩ => r.isOk
  | _ => false

/-- The statements of mutations that the server has executed, in order. -/
def executedMutations (t : List RestoreEvent) : List Str := (t.filter acceptsMutation).filterMap sentMutation?

/-- Honest reports: a mutation is reported as re-applied only right after the server accepted
it. -/
def honestReports : World Call Call.Reply Bool where
  allows accepted ev := reportsReapplied ev = true → accepted = true
  next _ ev := acceptsMutation ev

/-- A trace in which no mutation is executed, and none reported as re-applied. -/
def Unapplied (t : List RestoreEvent) : Prop :=
  ∀ ev ∈ t, acceptsMutation ev = false ∧ reportsReapplied ev = false

/-- A trace that neither sends a mutation nor reports one as re-applied. -/
def QuietTrace (t : List RestoreEvent) : Prop :=
  ∀ ev ∈ t, sentMutation? ev = none ∧ reportsReapplied ev = false

@[simp] theorem sentMutations_append (t₁ t₂ : List RestoreEvent) :
    sentMutations (t₁ ++ t₂) = sentMutations t₁ ++ sentMutations t₂ := List.filterMap_append

theorem sentMutations_eq_nil {t : List RestoreEvent} :
    sentMutations t = [] ↔ ∀ ev ∈ t, sentMutation? ev = none := List.filterMap_eq_nil_iff

theorem acceptsMutation_of_sent_none {ev : RestoreEvent} (h : sentMutation? ev = none) :
    acceptsMutation ev = false := by
  obtain ⟨c, r⟩ := ev
  cases c with
  | executeMutation => cases h
  | _ => rfl

theorem QuietTrace.unapplied {t : List RestoreEvent} (h : QuietTrace t) : Unapplied t := fun ev hev =>
  ⟨acceptsMutation_of_sent_none (h ev hev).1, (h ev hev).2⟩

@[simp] theorem executedMutations_append (t₁ t₂ : List RestoreEvent) :
    executedMutations (t₁ ++ t₂) = executedMutations t₁ ++ executedMutations t₂ := by
  rw [executedMutations, List.filter_append, List.filterMap_append, executedMutations, executedMutations]

theorem executedMutations_eq_nil {t : List RestoreEvent} :
    executedMutations t = [] ↔ ∀ ev ∈ t, acceptsMutation ev = false := by
  rw [executedMutations, List.filterMap_eq_nil_iff]
  constructor
  · intro h ev hev
    by_contra haccepted
    rw [Bool.not_eq_false] at haccepted
    rw [acceptsMutation_of_sent_none (h ev (List.mem_filter.mpr ⟨hev, haccepted⟩))] at haccepted
    cases haccepted
  · intro h ev hev
    obtain ⟨hev, haccepted⟩ := List.mem_filter.mp hev
    rw [h ev hev] at haccepted
    cases haccepted

/-- Where the server accepts what is sent, it has executed it. -/
theorem executedMutations_eq_sent {t : List RestoreEvent}
    (h : ∀ ev ∈ t, sentMutation? ev ≠ none → acceptsMutation ev = true) : executedMutations t = sentMutations t := by
  induction t with
  | nil => rfl
  | cons ev t ih =>
    have hrest := ih fun ev' hev' => h ev' (List.mem_cons_of_mem _ hev')
    rw [executedMutations, sentMutations] at hrest ⊢
    cases hsent : sentMutation? ev with
    | none =>
      rw [List.filter_cons_of_neg (by simp [acceptsMutation_of_sent_none hsent]), List.filterMap_cons_none hsent, hrest]
    | some sql =>
      have haccepted := h ev List.mem_cons_self (by simp [hsent])
      rw [List.filter_cons_of_pos haccepted, List.filterMap_cons_some hsent, List.filterMap_cons_some hsent, hrest]

/-- Where no mutation is executed, none has been accepted in the end. -/
theorem after_of_unaccepted {t : List RestoreEvent} (h : ∀ ev ∈ t, acceptsMutation ev = false) :
    honestReports.after false t = false := by
  induction t with
  | nil => rfl
  | cons ev t ih =>
    rw [World.after_cons, show honestReports.next false ev = acceptsMutation ev from rfl, h ev List.mem_cons_self]
    exact ih fun ev' hev' => h ev' (List.mem_cons_of_mem _ hev')

/-- Where no mutation is executed, honesty is not to report one. -/
theorem legal_iff_unapplied {t : List RestoreEvent} (h : ∀ ev ∈ t, acceptsMutation ev = false) :
    honestReports.Legal false t ↔ Unapplied t := by
  constructor
  · intro hl ev hev
    refine ⟨h ev hev, ?_⟩
    obtain ⟨-, hall⟩ := World.Legal.invariant (I := fun s => s = false)
      (P := fun ev => acceptsMutation ev = false) (fun _ _ _ haccepts _ => haccepts) rfl h hl
    obtain ⟨s, rfl, hallows⟩ := hall ev hev
    cases hr : reportsReapplied ev with
    | false => rfl
    | true => exact absurd (hallows hr) Bool.false_ne_true
  · intro hq
    refine World.legal_of_invariant (I := fun s => s = false) (fun s hs ev hev => ⟨?_, (hq ev hev).1⟩) rfl
    intro hr
    rw [(hq ev hev).2] at hr
    cases hr

/-- The calls on the list send and report no mutation. -/
theorem quiet_of_within {ε α : Type} {p : Prog Call Call.Reply ε α} {Q : α → Prop}
    {t : List RestoreEvent} {e : End ε α} (hp : Within (fun c => c.isMutation = false) Q p)
    (h : Runs p t e) : QuietTrace t := by
  intro ev hev
  have hcall := (hp.runs h).1 ev hev
  obtain ⟨c, r⟩ := ev
  cases c <;> first | exact ⟨rfl, rfl⟩ | cases hcall

namespace RestoreContext

variable {ctx : RestoreContext}

theorem isMutation_of_schemaCall {c : Call} (h : ctx.SchemaCall c) : c.isMutation = false := by
  cases h <;> rfl

theorem isMutation_of_dataCall {c : Call} (h : ctx.DataCall c) : c.isMutation = false := by
  cases h with
  | byPart item tm hitem h => cases h <;> rfl
  | _ => rfl

/-! ## The tables of an attempt -/

variable (ctx) in
/-- The tables whose parts a restore attaches. -/
def restoredKeys : List Str :=
  if ctx.env.args.schemaOnly then []
  else ctx.dataTables.filter fun key =>
    (ctx.manifest.tables.get? key).any fun tm => ctx.env.selectedParts tm ≠ []

/-- What is known of the items of an attempt. -/
structure ItemsFor (ctx : RestoreContext) (items : List AttachParams) : Prop where
  keys : ctx.env.args.schemaOnly = false → items.map AttachParams.tableKey = ctx.restoredKeys
  nonempty : ∀ item ∈ items, item.parts ≠ []

theorem itemsFor_gatherItems : Within Any ctx.ItemsFor ctx.gatherItems := by
  refine (within_any _).bind fun attached _ => within_perform trivial fun live => ?_
  refine (within_any _).bind fun hasS3Client _ => (within_any _).bind fun _ _ => within_ret ?_
  refine ⟨fun hschema => ?_, fun item hitem => ?_⟩
  · rw [map_tableKey_restoreItems, restoredKeys, hschema, if_neg Bool.false_ne_true]
  · obtain ⟨tm, hitem⟩ := isItem_of_mem hitem
    exact hitem.nonempty

/-- The key of a table that was attached or left. -/
def sideKey : AttachParams ⊕ TableResult → Str
  | .inl item => item.tableKey
  | .inr result => result.1

theorem sideKey_attachTables (items : List AttachParams) :
    Within Any (fun rs => rs.map sideKey = items.map AttachParams.tableKey)
      (ctx.attachTables items) := by
  have hone : ∀ item ∈ items, Within Any
      (fun r : AttachParams ⊕ TableResult => sideKey r = item.tableKey) (ctx.attachOrLeave item) := by
    intro item _
    unfold attachOrLeave
    split
    · exact within_ret rfl
    · refine (within_any _).bind fun outcome _ => ?_
      cases outcome <;> exact within_ret rfl
  refine (within_forEach hone).imp fun rs hrs => ?_
  rw [← List.forall₂_eq_eq_eq, List.forall₂_map_left_iff, List.forall₂_map_right_iff]
  exact hrs.flip

theorem collect_ok {α : Type} (xs : List (Except Str α)) :
    Within Any (fun as => xs = as.map .ok) (collect xs) := by
  induction xs with
  | nil => exact within_ret rfl
  | cons x xs ih =>
    cases x with
    | ok a => exact ih.bind fun as has => within_ret (by rw [List.map_cons, has])
    | error e => exact within_fail _

theorem key_attachItems (items : List AttachParams) :
    Within Any (fun rs => rs.map Prod.fst = items.map AttachParams.tableKey)
      (ctx.attachItems items) := by
  have htask : ∀ item ∈ items, Within Any
      (fun r => ∀ a : TableResult, r = .ok a → a.1 = item.tableKey)
      ((ctx.tableTask item).attempt : Prog Call Call.Reply Empty (Except Str TableResult)) := by
    intro item _
    refine Within.attempt (Q := fun a : TableResult => a.1 = item.tableKey) ?_
    refine within_perform trivial fun cancelled => ?_
    split
    · exact within_ret rfl
    · exact (within_any _).mapError.bind fun _ _ => within_ret rfl
  refine (within_par (forall₂_map_right htask)).bind fun xs hxs => (collect_ok xs).imp ?_
  intro rs hrs
  rw [hrs, List.forall₂_map_right_iff] at hxs
  rw [← List.forall₂_eq_eq_eq, List.forall₂_map_left_iff, List.forall₂_map_right_iff]
  exact hxs.flip.imp fun r item h => h r rfl

theorem perm_sides (rs : List (AttachParams ⊕ TableResult)) :
    ((rs.filterMap Sum.getLeft?).map AttachParams.tableKey ++
      (rs.filterMap Sum.getRight?).map Prod.fst).Perm (rs.map sideKey) := by
  induction rs with
  | nil => exact List.Perm.refl _
  | cons r rs ih =>
    cases r with
    | inl item => exact ih.cons _
    | inr result => exact List.perm_middle.trans (ih.cons _)

/-- **The tables of an attempt that leaves no part out** are all those with parts to attach. -/
theorem keys_attachPhase (hschema : ctx.env.args.schemaOnly = false) :
    Within Any (fun r => r.2 = 0 → (r.1.map Prod.fst).Perm ctx.restoredKeys) ctx.attachPhase := by
  refine itemsFor_gatherItems.bind fun items hitems => ?_
  refine (within_checkReplicas fun _ _ => trivial).bind fun checked hchecked => ?_
  refine (sideKey_attachTables checked.1).bind fun rs hrs => ?_
  refine (key_attachItems _).bind fun results hresults => within_perform trivial fun cancelled => ?_
  split
  · exact within_fail _
  · refine within_ret fun hzero => ?_
    rw [List.map_append, hresults]
    refine (perm_sides rs).trans ?_
    rw [hrs, hchecked.2 hitems.nonempty hzero, hitems.keys hschema]

/-! ## Re-applying -/

variable (ctx) in
/-- The statement of a mutation of a table; empty if it is not executed. -/
def mutationSql (key : Str) (mutation : MutationInfo) : Str :=
  executeMutationSql ctx.env.toUppercase (destination ctx.remap key).1 (destination ctx.remap key).2
    mutation.command

variable (ctx) in
/-- The pending mutations of a table. -/
def pendingMutations (key : Str) : List MutationInfo :=
  ((ctx.manifest.tables.get? key).map TableManifest.pendingMutations).getD []

variable (ctx) in
/-- The statements that the pending mutations of a table come to, in the order of the manifest. -/
def mutationStatements (key : Str) : List Str :=
  ((ctx.pendingMutations key).map (ctx.mutationSql key)).filter (· ≠ [])

variable (ctx) in
/-- The events of one mutation: a statement and a report of its reply, or a report alone. -/
def ReappliesMutation (key : Str) (mutation : MutationInfo) (u : List RestoreEvent) : Prop :=
  (ctx.mutationSql key mutation = [] ∧ u = [⟨.reportMutation key mutation.mutationId true, ()⟩]) ∨
    (ctx.mutationSql key mutation ≠ [] ∧ ∃ r : Except Str Unit,
      u = [⟨.executeMutation (ctx.mutationSql key mutation), r⟩,
        ⟨.reportMutation key mutation.mutationId r.isOk, ()⟩])

theorem runs_reapplyTable {key : Str} {t : List RestoreEvent}
    (h : Runs (ctx.reapplyTable key) t (.returned ())) : ∃ us, t = us.flatten ∧
      List.Forall₂ (ctx.ReappliesMutation key) (ctx.pendingMutations key) us := by
  unfold reapplyTable at h
  unfold pendingMutations
  cases htm : ctx.manifest.tables.get? key with
  | none =>
    simp only [htm] at h
    cases h
    exact ⟨[], rfl, List.Forall₂.nil⟩
  | some tm =>
    simp only [htm] at h
    obtain ⟨_, t₁, t₂, rfl, h₁, h₂⟩ := h.returned_of_bind
    cases h₂
    obtain ⟨us, rfl, hus⟩ := h₁.of_forEach
    refine ⟨us, List.append_nil _, hus.imp fun mutation u hu => ?_⟩
    obtain ⟨_, hu⟩ := hu
    obtain ⟨reply, t₁, t₂, rfl, h₁, h₂⟩ := hu.returned_of_bind
    cases h₂ with
    | call _ h₂ =>
      cases h₂
      unfold executeMutation at h₁
      change Runs (if ctx.mutationSql key mutation = [] then _ else _) _ _ at h₁
      by_cases hsql : ctx.mutationSql key mutation = []
      · rw [if_pos hsql] at h₁
        cases h₁
        exact Or.inl ⟨hsql, rfl⟩
      · rw [if_neg hsql] at h₁
        cases h₁ with
        | @call _ _ _ _ r h₁ =>
          cases h₁
          exact Or.inr ⟨hsql, _, rfl⟩

/-- What the events of a list of mutations send and report. -/
theorem reapplied {key : Str} {mutations : List MutationInfo} {us : List (List RestoreEvent)}
    (h : List.Forall₂ (ctx.ReappliesMutation key) mutations us) :
    sentMutations us.flatten = (mutations.map (ctx.mutationSql key)).filter (· ≠ []) ∧
      (honestReports.Legal false us.flatten ↔ ∀ m ∈ mutations, ctx.mutationSql key m ≠ []) ∧
      honestReports.after false us.flatten = false := by
  induction h with
  | nil => exact ⟨rfl, ⟨fun _ _ h => (nomatch h), fun _ => trivial⟩, rfl⟩
  | @cons mutation u mutations us h _ ih =>
    obtain ⟨hsent, hlegal, hafter⟩ := ih
    rw [List.flatten_cons, sentMutations_append, World.legal_append, World.after_append, hsent]
    rw [List.forall_mem_cons]
    rcases h with ⟨hsql, rfl⟩ | ⟨hsql, r, rfl⟩
    · refine ⟨?_, ⟨fun hl => ?_, fun hl => absurd hsql hl.1⟩, hafter⟩
      · rw [List.map_cons, List.filter_cons_of_neg (by simp [hsql])]
        rfl
      · exact absurd (hl.1.1 rfl) Bool.false_ne_true
    · refine ⟨?_, and_congr ⟨fun _ => hsql, fun _ => ⟨?_, fun hok => hok, trivial⟩⟩ hlegal, hafter⟩
      · rw [List.map_cons, List.filter_cons_of_pos (by simp [hsql])]
        rfl
      · exact fun hreport => absurd hreport Bool.false_ne_true

variable (ctx) in
/-- The events of the pending mutations of a table. -/
def ReappliesTable (key : Str) (t : List RestoreEvent) : Prop :=
  ∃ us, t = us.flatten ∧ List.Forall₂ (ctx.ReappliesMutation key) (ctx.pendingMutations key) us

variable (ctx) in
/-- Every pending mutation of a table has a statement. -/
def Recognised (key : Str) : Prop := ∀ m ∈ ctx.pendingMutations key, ctx.mutationSql key m ≠ []

/-- What the events of a list of tables send and report. -/
theorem reapplied_tables {keys : List Str} {us : List (List RestoreEvent)}
    (h : List.Forall₂ ctx.ReappliesTable keys us) :
    sentMutations us.flatten = keys.flatMap ctx.mutationStatements ∧
      (honestReports.Legal false us.flatten ↔ ∀ key ∈ keys, ctx.Recognised key) ∧
      honestReports.after false us.flatten = false := by
  induction h with
  | nil => exact ⟨rfl, ⟨fun _ _ h => (nomatch h), fun _ => trivial⟩, rfl⟩
  | @cons key u keys us h _ ih =>
    obtain ⟨vs, rfl, hvs⟩ := h
    obtain ⟨hsent, hlegal, hafter⟩ := ih
    obtain ⟨hsent', hlegal', hafter'⟩ := reapplied hvs
    rw [List.flatten_cons, sentMutations_append, World.legal_append, World.after_append, hafter',
      hsent, hsent', List.forall_mem_cons]
    exact ⟨rfl, and_congr hlegal' hlegal, hafter⟩

/-- **A restore that succeeds re-applies the mutations of all its tables**, each once. -/
theorem runs_reapplied {t : List RestoreEvent} {tally : Option (Nat × Nat)}
    (h : Runs ctx.restoreSelected t (.returned tally))
    (hok : ∀ attached skipped, tally = some (attached, skipped) → skipped = 0) :
    ∃ keys us t₁ t₂, t = t₁ ++ (us.flatten ++ t₂) ∧ keys.Perm ctx.restoredKeys ∧
      List.Forall₂ ctx.ReappliesTable keys us ∧ QuietTrace t₁ ∧ QuietTrace t₂ := by
  have hquiet : ∀ {α : Type} {p : RestoreProg α} {Q : α → Prop} {t : List RestoreEvent}
      {e : End Str α}, Within ctx.SchemaCall Q p → Runs p t e → QuietTrace t :=
    fun hp h => quiet_of_within (hp.weaken fun _ => isMutation_of_schemaCall) h
  obtain ⟨_, t₁, t₂, rfl, h₁, h₂⟩ := h.returned_of_bind
  obtain ⟨_, t₃, t₄, rfl, h₃, h₄⟩ := h₂.returned_of_bind
  have hfront : QuietTrace (t₁ ++ t₃) := by
    intro ev hev
    rcases List.mem_append.mp hev with hev | hev
    · exact hquiet within_dropPhase h₁ ev hev
    · exact hquiet within_createPhase h₃ ev hev
  by_cases hschema : ctx.env.args.schemaOnly = true
  · rw [hschema, if_pos rfl] at h₄
    refine ⟨[], [], t₁ ++ t₃, t₄, by simp, ?_, List.Forall₂.nil, hfront,
      hquiet within_schemaTail h₄⟩
    rw [restoredKeys, hschema, if_pos rfl]
  · rw [Bool.not_eq_true] at hschema
    rw [hschema, if_neg Bool.false_ne_true] at h₄
    obtain ⟨r, t₅, t₆, rfl, h₅, h₆⟩ := h₄.returned_of_bind
    obtain ⟨tally', t₇, t₈, rfl, h₇, h₈⟩ := h₆.returned_of_bind
    cases h₈
    obtain ⟨_, t₉, t₁₀, rfl, h₉, h₁₀⟩ := h₇.returned_of_bind
    obtain ⟨_, t₁₁, t₁₂, rfl, h₁₁, h₁₂⟩ := h₉.returned_of_bind
    cases h₁₂
    obtain ⟨us, rfl, hus⟩ := h₁₁.of_forEach
    have hzero : r.2 = 0 := by
      have hvalue := ((within_dataTail _).runs h₁₀).2 _ rfl
      have := hok _ _ (congrArg some hvalue)
      omega
    refine ⟨r.1.map Prod.fst, us, t₁ ++ t₃ ++ t₅, t₁₀, by simp, ?_, ?_, ?_, ?_⟩
    · exact ((keys_attachPhase hschema).runs h₅).2 _ rfl hzero
    · rw [List.forall₂_map_left_iff]
      exact hus.imp fun result u hu => runs_reapplyTable hu.choose_spec
    · intro ev hev
      rcases List.mem_append.mp hev with hev | hev
      · exact hfront ev hev
      · exact quiet_of_within (within_attachPhase.weaken fun _ => isMutation_of_dataCall) h₅ ev hev
    · exact hquiet (within_dataTail _) h₁₀

end RestoreContext

/-! ## The history of a restore -/

theorem quietTrace_append {t₁ t₂ : List RestoreEvent} (h₁ : QuietTrace t₁) (h₂ : QuietTrace t₂) :
    QuietTrace (t₁ ++ t₂) := by
  intro ev hev
  rcases List.mem_append.mp hev with hev | hev
  · exact h₁ ev hev
  · exact h₂ ev hev

theorem QuietTrace.sent {t : List RestoreEvent} (h : QuietTrace t) : sentMutations t = [] :=
  sentMutations_eq_nil.mpr fun ev hev => (h ev hev).1

/-- Quiet traces around a trace change neither what is sent nor whether the reports are honest. -/
theorem quiet_around {t₁ t t₂ : List RestoreEvent} (h₁ : QuietTrace t₁) (h₂ : QuietTrace t₂)
    (h : honestReports.after false t = false) :
    sentMutations (t₁ ++ (t ++ t₂)) = sentMutations t ∧
      (honestReports.Legal false (t₁ ++ (t ++ t₂)) ↔ honestReports.Legal false t) := by
  constructor
  · rw [sentMutations_append, sentMutations_append, h₁.sent, h₂.sent, List.nil_append,
      List.append_nil]
  · have hnone₁ := fun ev hev => (h₁.unapplied ev hev).1
    have hnone₂ := fun ev hev => (h₂.unapplied ev hev).1
    rw [World.legal_append, World.legal_append, after_of_unaccepted hnone₁, h]
    refine ⟨fun hl => hl.2.1, fun hl => ⟨(legal_iff_unapplied hnone₁).mpr h₁.unapplied, hl, ?_⟩⟩
    exact (legal_iff_unapplied hnone₂).mpr h₂.unapplied

/-- What the attempt that succeeds sends and reports. -/
theorem runs_last {env : RestoreEnv} {fate : RestoreFate} {ctx : RestoreContext}
    (hctx : IsContext env fate ctx) {t : List RestoreEvent}
    (h : Runs (restore env fate) t (.returned ())) :
    (∃ keys : List Str, keys.Perm ctx.restoredKeys ∧ sentMutations t = keys.flatMap ctx.mutationStatements) ∧
      (honestReports.Legal false t ↔ ∀ key ∈ ctx.restoredKeys, ctx.Recognised key) := by
  rcases hctx.runs_cases h with he | ⟨text, he⟩ | ⟨ctx', hctx', tally, t₁, t₂, t₃, rfl, hpre, h₂, h₃⟩
  · cases he
  · cases he
  have hok : ∀ attached skipped, tally = some (attached, skipped) → skipped = 0 := by
    rintro attached skipped rfl
    rw [RestoreContext.verdict] at h₃
    split at h₃
    · cases h₃
    · omega
  obtain ⟨keys, us, t₄, t₅, rfl, hperm, hus, hq₄, hq₅⟩ := RestoreContext.runs_reapplied h₂ hok
  have hq₁ : QuietTrace t₁ := by
    intro ev hev
    have hcall := hpre ev hev
    obtain ⟨c, r⟩ := ev
    cases c <;> first | exact ⟨rfl, rfl⟩ | cases hcall
  have hq₃ : QuietTrace t₃ := by
    refine quiet_of_within (Q := RestoreContext.Any) ?_ h₃
    rcases tally with - | ⟨attached, skipped⟩
    · exact within_ret trivial
    · rw [RestoreContext.verdict]
      split
      · exact within_fail _
      · exact within_perform rfl fun _ => within_ret trivial
  obtain ⟨hsent, hlegal, hafter⟩ := RestoreContext.reapplied_tables hus
  have hassoc : t₁ ++ (t₄ ++ (us.flatten ++ t₅) ++ t₃) =
      (t₁ ++ t₄) ++ (us.flatten ++ (t₅ ++ t₃)) := by
    simp only [List.append_assoc]
  obtain ⟨hsent', hlegal'⟩ :=
    quiet_around (quietTrace_append hq₁ hq₄) (quietTrace_append hq₅ hq₃) hafter
  rw [hassoc, hsent', hlegal', hsent, hlegal]
  -- the attempt works in a context of its own, which differs in nothing that matters here
  rw [hctx.same hctx'] at hperm ⊢
  exact ⟨⟨keys, hperm, rfl⟩, forall_congr' fun key => imp_congr_left hperm.mem_iff⟩

namespace RestoreHistory

variable {env : RestoreEnv} (h : RestoreHistory env)

/-- Everything that happened. -/
def trace : List RestoreEvent := h.earlier.flatMap RestoreAttempt.trace ++ h.last.trace

/-- Over all attempts, every pending mutation of every restored table that has a statement was
executed exactly once, in the order of the manifest, and only mutations that the server accepted
were reported as re-applied. -/
def AppliedOnce : Prop :=
  ∀ ctx, IsContext (env.withResume h.last.resume) h.last.fate ctx →
    (∃ keys : List Str, keys.Perm ctx.restoredKeys ∧
      executedMutations h.trace = keys.flatMap ctx.mutationStatements) ∧
    ∀ a ∈ h.earlier ++ [h.last], honestReports.Legal false a.trace

/-- The server accepts every mutation that the last attempt sends. -/
def LastAccepted : Prop := ∀ ev ∈ h.last.trace, sentMutation? ev ≠ none → acceptsMutation ev = true

/-- The server accepts every mutation that the last attempt sends, the filter recognises every pending
mutation of every restored table, and no attempt before the last had a mutation executed or reported
one as re-applied. -/
def OnlyLastReapplies : Prop :=
  h.LastAccepted ∧ ∀ ctx, IsContext (env.withResume h.last.resume) h.last.fate ctx →
    (∀ key ∈ ctx.restoredKeys, ctx.Recognised key) ∧ ∀ a ∈ h.earlier, Unapplied a.trace

variable {h}

theorem executedMutations_earlier :
    executedMutations (h.earlier.flatMap RestoreAttempt.trace) = [] ↔
      ∀ a ∈ h.earlier, ∀ ev ∈ a.trace, acceptsMutation ev = false := by
  rw [executedMutations_eq_nil]
  refine ⟨fun hnone a ha ev hev => hnone ev (List.mem_flatMap.mpr ⟨a, ha, hev⟩), fun hnone ev hev => ?_⟩
  obtain ⟨a, ha, hev⟩ := List.mem_flatMap.mp hev
  exact hnone a ha ev hev

theorem onlyLastReapplies_of_appliedOnce (hh : h.AppliedOnce) (hlast : h.LastAccepted) : h.OnlyLastReapplies := by
  refine ⟨hlast, fun ctx hctx => ?_⟩
  obtain ⟨⟨keys, hperm, hexecuted⟩, hhonest⟩ := hh ctx hctx
  obtain ⟨⟨keys', hperm', hsent⟩, hlegal⟩ := runs_last hctx (h.ok ▸ h.last.runs)
  refine ⟨hlegal.mp (hhonest _ (List.mem_append_right _ (List.mem_singleton_self _))), ?_⟩
  -- the last attempt alone accounts for every execution
  have hnone : executedMutations (h.earlier.flatMap RestoreAttempt.trace) = [] := by
    rw [trace, executedMutations_append, executedMutations_eq_sent hlast, hsent] at hexecuted
    have hlen := congrArg List.length hexecuted
    rw [List.length_append,
      ((hperm'.trans hperm.symm).flatMap_right ctx.mutationStatements).length_eq] at hlen
    exact List.length_eq_zero_iff.mp (by omega)
  intro a ha
  exact (legal_iff_unapplied (executedMutations_earlier.mp hnone a ha)).mp (hhonest a (List.mem_append_left _ ha))

theorem appliedOnce_of_onlyLastReapplies (hh : h.OnlyLastReapplies) : h.AppliedOnce := by
  intro ctx hctx
  obtain ⟨hlast, hall⟩ := hh
  obtain ⟨hrecognised, hunapplied⟩ := hall ctx hctx
  obtain ⟨⟨keys, hperm, hsent⟩, hlegal⟩ := runs_last hctx (h.ok ▸ h.last.runs)
  have hearlier := fun a ha ev hev => (hunapplied a ha ev hev).1
  refine ⟨⟨keys, hperm, ?_⟩, fun a ha => ?_⟩
  · rw [trace, executedMutations_append, executedMutations_earlier.mpr hearlier, executedMutations_eq_sent hlast,
      hsent, List.nil_append]
  · rcases List.mem_append.mp ha with ha | ha
    · exact (legal_iff_unapplied (hearlier a ha)).mpr (hunapplied a ha)
    · rw [List.mem_singleton.mp ha]
      exact hlegal.mpr hrecognised

/-- **When pending mutations are applied exactly once**, and by the attempt that succeeds. -/
theorem applied_once_iff {env : RestoreEnv} (h : RestoreHistory env) :
    h.AppliedOnce ∧ h.LastAccepted ↔ h.OnlyLastReapplies :=
  ⟨fun hh => onlyLastReapplies_of_appliedOnce hh.1 hh.2, fun hh => ⟨appliedOnce_of_onlyLastReapplies hh, hh.1⟩⟩

end RestoreHistory

/-- A table with one part and one pending mutation. -/
def mutationManifest : BackupManifest :=
  plainManifest [("db.t", { (default : TableManifest) with
    ddl := "CREATE TABLE db.t (n UInt64) ENGINE = MergeTree ORDER BY n"
    engine := "MergeTree"
    parts := SortedMap.empty.insert "default" [{ (default : PartInfo) with name := "all_0_0_0" }]
    pendingMutations := [{ (default : MutationInfo) with command := "UPDATE n = n + 1 WHERE 1" }] })]

/-- The restore of that table. -/
def mutationEnv : RestoreEnv :=
  plainEnv default { (default : RestoreArgs) with tablePattern := some "db.t" } mutationManifest

/-- The replies after a restore that completed: the state file records the part, and the server
reports it under its new name. -/
def completed : (c : Call) → c.Reply
  | .loadState => .ok (some ⟨SortedMap.empty.insert "db.t" ["all_0_0_0"], mutationEnv.args.backupName,
      mutationEnv.paramsHash⟩)
  | .querySystemParts .. => .ok ["all_1_1_0"]
  | c => smooth c

/-- An attempt at it with given replies. -/
def attemptOn (answer : (c : Call) → c.Reply) (resume : Bool) : RestoreAttempt mutationEnv where
  resume := resume
  fate := plainFate
  trace := traceOn answer (restore (mutationEnv.withResume resume) plainFate)
  outcome := endOn answer (restore (mutationEnv.withResume resume) plainFate)
  runs := runs_on _ _

theorem completed_returns : (attemptOn completed true).outcome = .returned () := by
  decide +kernel

theorem completed_accepts : ∀ ev ∈ (attemptOn completed true).trace, sentMutation? ev ≠ none →
    acceptsMutation ev = true := by
  have hall : (attemptOn completed true).trace.all
      (fun ev => (sentMutation? ev).isNone || acceptsMutation ev) = true := by decide +kernel
  intro ev hev hsent
  rcases Bool.or_eq_true_iff.mp (List.all_eq_true.mp hall ev hev) with hnone | haccepted
  · exact absurd (Option.isNone_iff_eq_none.mp hnone) hsent
  · exact haccepted

/-- What is restored in these attempts. -/
def mutationContext : RestoreContext :=
  ⟨mutationEnv.withResume true, plainFate, mutationManifest, none, [], SortedMap.empty⟩

theorem isContext_mutationContext : IsContext (mutationEnv.withResume true) plainFate mutationContext :=
  ⟨rfl, rfl, rfl, by decide +kernel, by decide +kernel⟩

/-- A server that rejects the mutation. -/
def rejecting : (c : Call) → c.Reply
  | .executeMutation _ => .error "Code: 341"
  | c => smooth c

/-- A restore whose mutation is rejected, and which is resumed. -/
def rejectedHistory : RestoreHistory mutationEnv where
  earlier := [attemptOn rejecting true]
  last := attemptOn completed true
  ok := completed_returns

/-- The mutation is executed once, by the attempt that the server accepts it from. -/
theorem rejected_mutation_applied_once : rejectedHistory.AppliedOnce ∧ rejectedHistory.LastAccepted := by
  refine (RestoreHistory.applied_once_iff rejectedHistory).mpr ⟨completed_accepts, fun ctx hctx => ?_⟩
  rw [isContext_mutationContext.same hctx]
  constructor
  · show ∀ key ∈ mutationContext.restoredKeys, mutationContext.Recognised key
    have hkeys : mutationContext.restoredKeys = ["db.t"] := by decide +kernel
    rw [hkeys]
    intro key hkey m hm
    cases List.mem_singleton.mp hkey
    cases List.mem_singleton.mp hm
    decide +kernel
  · intro a ha ev hev
    cases List.mem_singleton.mp ha
    have hall : (attemptOn rejecting true).trace.all
        (fun ev => !acceptsMutation ev && !reportsReapplied ev) = true := by decide +kernel
    simpa using List.all_eq_true.mp hall ev hev

/-- A completed restore that is resumed. -/
def resumedHistory : RestoreHistory mutationEnv where
  earlier := [attemptOn smooth false]
  last := attemptOn completed true
  ok := completed_returns

/-- **Resuming a completed restore executes the mutation again**, although the part is not
attached again. -/
theorem mutation_is_executed_twice : ¬ resumedHistory.AppliedOnce := by
  intro h
  have hunapplied := ((RestoreHistory.onlyLastReapplies_of_appliedOnce h completed_accepts).2
    mutationContext isContext_mutationContext).2 _ List.mem_cons_self
  have hexecuted : (attemptOn smooth false).trace.any acceptsMutation = true := by decide +kernel
  obtain ⟨ev, hev, haccepted⟩ := List.any_eq_true.mp hexecuted
  rw [(hunapplied ev hev).1] at haccepted
  cases haccepted

end Chbackup
