import Chbackup.Server.Resuming

/-!
# What is resumed after a restart

The bodies that the tasks of `auto_resume` run.  A task has no rival if no other operation and no lock
can be in its way; its body is then run in every order of the tasks, and otherwise there is an order in
which it is not.
-/

namespace Chbackup

open CallTree Prog

/-! ## Bodies that are run -/

/-- The body of the operation of a task was begun. -/
def BodyRun (i : Nat) (history : List OpEvent) : Prop :=
  ∃ kind id command, .started i kind id command ∈ history ∧ .begun id ∈ history

/-- Nothing can be in the way of an operation: in a serial server no other operation that is found, and in
a parallel one none whose lock is in the way of its own; and no lock of another process. -/
structure Unrivalled (allowParallel : Bool) (others : List LockScope) (ops : List (Str × OpType))
    (x : Str × OpType) : Prop where
  operations : ∀ y ∈ ops, y ≠ x → allowParallel = true ∧ (resumeLock y).blocks (resumeLock x) = false
  processes : ∀ held ∈ others, held.blocks (resumeLock x) = false

section BodyRun

variable {allowParallel : Bool} {others : List LockScope} {ops : List (Str × OpType)} {i j : Nat}
  {s s' : AppState} {l l' : Stage} {ls : List Stage} {x : Str × OpType}

theorem BodyRun.mono {history history' : List OpEvent} (h : BodyRun i history)
    (hsub : history ⊆ history') : BodyRun i history' := by
  obtain ⟨kind, id, command, hstarted, hbegun⟩ := h
  exact ⟨kind, id, command, hsub hstarted, hsub hbegun⟩

/-- A step of another task, or one that does not begin a body, begins no body of the task. -/
theorem bodyRun_kept (hR : Resuming allowParallel others ops s ls) (hj : ls[j]? = some l)
    (h : Transition j s l s' l') (hne : j ≠ i ∨ ∀ a name scope, l ≠ .locked a name scope) :
    BodyRun i s'.history ↔ BodyRun i s.history := by
  refine ⟨fun hrun => ?_, fun hrun => hrun.mono h.history_prefix.subset⟩
  obtain ⟨kind, id, command, hstarted, hbegun⟩ := hrun
  have hbefore : .begun id ∈ s.history := by
    rcases Resuming.begun_cases h hbegun with hbefore | ⟨name, scope, rfl⟩
    · exact hbefore
    · rcases hne with hne | hne
      · obtain ⟨kind', command', hmine⟩ := hR.begunBy j _ id hj rfl
        rcases Resuming.started_cases h hstarted with hold | ⟨rfl, -, -⟩
        · exact absurd (hR.startedOnce j i kind' kind id command' command hmine hold) hne
        · exact absurd rfl hne
      · exact absurd rfl (hne id name scope)
  rcases Resuming.started_cases h hstarted with hold | ⟨-, rfl, -⟩
  · exact ⟨kind, id, command, hold, hbefore⟩
  · exact absurd (hR.begunFresh _ hbefore) (Nat.lt_irrefl _)

/-- What a task learns about its body.  Replies that refuse it do not occur without rivals. -/
def learnRun (run : Prop) : ServerEvent → Prop
  | ⟨.tryAcquire, (permit : Bool)⟩ => if permit then run else True
  | ⟨.insertOp _ _ _, (conflict : Bool)⟩ => if conflict then True else run
  | ⟨.acquireScoped _ _, (free : Bool)⟩ => if free then run else True
  | ⟨.poll _ _, (dropped : Bool)⟩ => if dropped then True else run
  | ⟨.beginBody _ _, _⟩ => True
  | _ => run

theorem runs_removeOp {id : Nat} {heeds : Bool} :
    Obeys learnRun (fun _ _ => True) (fun run (_ : Except Str Unit) => run) True
      ((perform (.poll id heeds)).bind fun (dropped : Bool) =>
        if dropped then .ret () else (perform (.removeOp id)).bind fun _ => .ret ()) := by
  refine obeys_perform trivial fun (dropped : Bool) => ?_
  cases dropped with
  | true => trivial
  | false => exact obeys_perform trivial fun _ => trivial

theorem runs_runBody {id : Nat} {name : Option Str} {body : BodyChoice} {run : Prop} :
    Obeys learnRun (fun _ _ => True) (fun run (_ : Except Str Unit) => run) run (runBody id name body) := by
  refine obeys_perform trivial fun _ => ?_
  refine obeys_perform trivial fun (killed : Bool) => ?_
  cases killed with
  | true => trivial
  | false =>
    cases body.outcome with
    | ok _ => exact obeys_perform trivial fun _ => runs_removeOp
    | error e => exact obeys_perform trivial fun _ => runs_removeOp

theorem runs_dropLock {id : Nat} {run : Prop} {p : ServerProg Unit}
    (hp : Obeys learnRun (fun _ _ => True) (fun run (_ : Except Str Unit) => run) run p) :
    Obeys learnRun (fun _ _ => True) (fun run (_ : Except Str Unit) => run) run
      (p.bind fun _ => (perform (.dropLock id)).bind fun _ => .ret ()) :=
  hp.bind (fun _ _ hrun => obeys_perform trivial fun _ => hrun) fun _ _ hrun => hrun

/-- An operation that is not refused begins its body. -/
theorem runs_operate {id : Nat} {name : Option Str} {scope : LockScope} {body : BodyChoice} {run : Prop} :
    Obeys learnRun (fun _ _ => True) (fun run _ => run) run (operate id name scope body) := by
  refine obeys_perform trivial fun (dropped : Bool) => ?_
  cases dropped with
  | true => trivial
  | false =>
    refine obeys_perform trivial fun (free : Bool) => ?_
    cases free with
    | true => exact runs_dropLock runs_runBody
    | false => exact runs_dropLock (obeys_perform trivial fun _ => runs_removeOp)

theorem runs_runOperation {command : Str} {name : Option Str} {body : BodyChoice} {run : Prop} :
    Obeys learnRun (fun _ _ => True) (fun run _ => run) run (runOperation command name body) := by
  refine obeys_perform trivial fun (permit : Bool) => ?_
  cases permit with
  | false => trivial
  | true =>
    refine obeys_perform trivial fun (id : Nat) => ?_
    refine obeys_perform trivial fun (conflict : Bool) => ?_
    cases conflict with
    | false => exact runs_operate
    | true =>
      refine obeys_perform trivial fun _ => ?_
      exact obeys_perform trivial fun _ => trivial

/-- Another task is that of another operation. -/
theorem ne_of_ne_index (hnodup : ops.Nodup) (hx : ops[i]? = some x) {y : Str × OpType}
    (hy : ops[j]? = some y) (hne : j ≠ i) : y ≠ x := by
  rintro rfl
  exact hne ((List.getElem?_inj (List.getElem?_eq_some_iff.mp hy).1 hnodup).mp (hy.trans hx.symm))

theorem Resuming.free_permit (hR : Resuming allowParallel others ops s ls) (hnodup : ops.Nodup)
    (hx : ops[i]? = some x) (hno : Unrivalled allowParallel others ops x)
    (hi : ls[i]? = some .idle) : s.permits ≠ some 0 := by
  cases hmode : allowParallel with
  | true =>
    rw [hR.parallel hmode]
    exact fun h => by cases h
  | false =>
    -- the task is the only one
    have hone : ∀ (j : Nat) (l : Stage), ls[j]? = some l → l = .idle := by
      intro j l hj
      by_cases hne : j = i
      · subst hne
        exact Option.some.inj (hj.symm.trans hi)
      · have hlt : j < ops.length := hR.length ▸ (List.getElem?_eq_some_iff.mp hj).1
        have hy : ops[j]? = some ops[j] := List.getElem?_eq_getElem hlt
        have := (hno.operations _ (List.getElem_mem hlt) (ne_of_ne_index hnodup hx hy hne)).1
        rw [hmode] at this
        cases this
    obtain ⟨k, hk, hsum⟩ := hR.serial hmode
    have hops : s.ops = [] := by
      rw [List.eq_nil_iff_forall_not_mem]
      intro op hop
      obtain ⟨j, l, y, hj, hown, -⟩ := hR.owners op hop
      rw [hone j l hj] at hown
      cases hown
    have hhand : (ls.map Stage.inHand).sum = 0 := by
      rw [List.sum_eq_zero_iff]
      intro n hn
      obtain ⟨l, hl, rfl⟩ := List.mem_map.mp hn
      obtain ⟨j, hj⟩ := List.mem_iff_getElem?.mp hl
      rw [hone j l hj]
      rfl
    rw [hops, hhand] at hsum
    rw [hk]
    rintro h
    cases h
    cases hsum

theorem Resuming.no_conflict (hR : Resuming allowParallel others ops s ls) (hnodup : ops.Nodup)
    (hx : ops[i]? = some x) (hno : Unrivalled allowParallel others ops x) {id : Nat} {name : Option Str}
    (hi : ls[i]? = some (.begun .try id name)) : ∀ op ∈ s.ops, op.backupName ≠ name := by
  intro op hop hname
  obtain ⟨j, l, y, hj, hown, hy, hmine⟩ := hR.owners op hop
  by_cases hne : j = i
  · subst hne
    obtain rfl : l = .begun .try id name := Option.some.inj (hj.symm.trans hi)
    cases hown
    exact hR.registry.identities.unregistered j _ _ _ hi op hop rfl
  · have hfits : some (some x.1) = some name := by
      rw [← (hR.fits i _ hi).2, hx]
      rfl
    have hsame : y.1 = x.1 := by
      rw [hmine, ← Option.some.inj hfits] at hname
      exact Option.some.inj hname
    have hfree := (hno.operations y (List.mem_of_getElem? hy) (ne_of_ne_index hnodup hx hy hne)).2
    rw [resumeLock_blocks_of_eq hsame] at hfree
    cases hfree

/-- No lock is in the way of a task without rivals, as long as it does not hold its own. -/
theorem Resuming.not_lockedOut (hR : Resuming allowParallel others ops s ls) (hnodup : ops.Nodup)
    (hx : ops[i]? = some x) (hno : Unrivalled allowParallel others ops x) (hi : ls[i]? = some l)
    (hholds : l.holds = none) : s.lockedOut (resumeLock x) = false := by
  rw [AppState.lockedOut, Bool.or_eq_false_iff, List.any_eq_false, List.any_eq_false]
  constructor
  · intro held hheld
    obtain ⟨j, m, y, hj, hm, hy, hscope⟩ := hR.locks held hheld
    have hne : j ≠ i := by
      rintro rfl
      obtain rfl : l = m := Option.some.inj (hi.symm.trans hj)
      rw [hholds] at hm
      cases hm
    rw [hscope, (hno.operations y (List.mem_of_getElem? hy) (ne_of_ne_index hnodup hx hy hne)).2]
    exact Bool.false_ne_true
  · intro held hheld
    rw [hno.processes held (hR.others hheld)]
    exact Bool.false_ne_true

/-- A task without rivals is never refused. -/
theorem bodyRun_self (hR : Resuming allowParallel others ops s ls) (hnodup : ops.Nodup)
    (hx : ops[i]? = some x) (hno : Unrivalled allowParallel others ops x) (hi : ls[i]? = some l)
    {c : ServerCall} (hduty : ResumeDuty ops i l c) :
    BodyRun i (AppState.serve i c s).2.history =
      learnRun (BodyRun i s.history) ⟨c, (AppState.serve i c s).1⟩ := by
  obtain ⟨hp, hallowed⟩ := hduty
  have hkept : (∀ a name scope, l ≠ .locked a name scope) →
      BodyRun i (AppState.serve i c s).2.history = BodyRun i s.history := fun hl =>
    propext (bodyRun_kept hR hi (transition_of_permits hp) (Or.inr hl))
  have hpoll : ∀ id heeds, (AppState.serve i (.poll id heeds) s).1 = false := by
    intro id heeds
    change (decide (id ∈ s.cancelled) && heeds) = false
    rw [decide_eq_false (hR.not_cancelled id), Bool.false_and]
  cases l with
  | locked id name scope =>
    obtain rfl := hp
    refine eq_true ?_
    obtain ⟨kind, command, hstarted⟩ := hR.begunBy i _ id hi rfl
    exact ⟨kind, id, command, List.mem_append_left _ hstarted, List.mem_append_right _ List.mem_cons_self⟩
  | entering id name =>
    rw [hkept fun _ _ _ h => by cases h]
    obtain ⟨scope, rfl⟩ := hp
    obtain rfl : resumeLock x = scope := by
      rw [hx] at hallowed
      exact Option.some.inj hallowed
    have hfree : ({ s with history := s.history ++ [.dispatched id] } : AppState).lockedOut (resumeLock x) =
        false := hR.not_lockedOut hnodup hx hno hi rfl
    have hreply : (AppState.serve i (.acquireScoped id (resumeLock x)) s).1 = true := by
      rw [AppState.serve, hfree]
      rfl
    rw [hreply]
    rfl
  | idle =>
    rw [hkept fun _ _ _ h => by cases h]
    rcases hp with rfl | ⟨command, name, rfl⟩ | ⟨target, rfl⟩
    · have hreply : (AppState.serve i .tryAcquire s).1 = true := by
        rw [AppState.serve, if_neg (hR.free_permit hnodup hx hno hi)]
      rw [hreply]
      rfl
    · rfl
    · rfl
  | begun kind id name =>
    rw [hkept fun _ _ _ h => by cases h]
    cases kind with
    | «try» =>
      obtain ⟨command, rfl⟩ := hp
      have hreply : (AppState.serve i (.insertOp id command name) s).1 = false := by
        rw [AppState.serve, if_neg]
        rw [Bool.and_eq_true, List.any_eq_true]
        rintro ⟨-, op, hop, hname⟩
        exact hR.no_conflict hnodup hx hno hi op hop (of_decide_eq_true hname)
      rw [hreply]
      rfl
    | queue =>
      obtain ⟨command, rfl⟩ := hp
      rfl
  | admitted id name =>
    rw [hkept fun _ _ _ h => by cases h]
    obtain ⟨heeds, rfl⟩ := hp
    rw [hpoll]
    rfl
  | logged id =>
    rw [hkept fun _ _ _ h => by cases h]
    obtain ⟨heeds, rfl⟩ := hp
    rw [hpoll]
    rfl
  | permitted =>
    rw [hkept fun _ _ _ h => by cases h]
    obtain ⟨command, name, rfl⟩ := hp
    rfl
  | queued id name =>
    rw [hkept fun _ _ _ h => by cases h]
    obtain ⟨cancelFirst, rfl⟩ := hp
    rfl
  | refused id =>
    rw [hkept fun _ _ _ h => by cases h]
    obtain ⟨error, rfl⟩ := hp
    rfl
  | working id name =>
    rw [hkept fun _ _ _ h => by cases h]
    obtain ⟨heeds, rfl⟩ := hp
    rfl
  | ended id =>
    rw [hkept fun _ _ _ h => by cases h]
    rcases hp with rfl | ⟨error, rfl⟩
    · rfl
    · rfl
  | _ =>
    rw [hkept fun _ _ _ h => by cases h]
    obtain rfl := hp
    rfl

end BodyRun

/-- **A task without rivals has begun its body when it has come to its end.** -/
theorem bodyRun_of_unrivalled {allowParallel : Bool} {others : List LockScope}
    {body : Str × OpType → BodyChoice} {ops : List (Str × OpType)} {s : ServerThreads} {i : Nat}
    {x : Str × OpType}
    (hr : serverMachine.Reaches (OthersAmong others) (serverStart allowParallel (autoResume body ops)) s)
    (hnodup : ops.Nodup) (hx : ops[i]? = some x) (hno : Unrivalled allowParallel others ops x) :
    ∀ t, s.threads[i]? = some t →
      Obeys learnRun (fun _ _ => True) (fun run _ => run) (BodyRun i s.shared.history) t.rest := by
  refine hr.follow (v := fun s => BodyRun i s.history) (fun s' hr' => resuming_of_reaches hr') ?_ ?_ ?_ ?_
  · intro c l ls s hR hi hduty _
    exact bodyRun_self hR hnodup hx hno hi hduty
  · intro j c l ls s hne hR hj hduty
    exact propext (bodyRun_kept hR hj (transition_of_permits hduty.1) (Or.inl hne))
  · intro e ls s s' h
    obtain ⟨now, active, taken, rfl⟩ := move_cases h
    rfl
  · intro t hi
    obtain ⟨x, -, rfl⟩ := getElem?_autoResume hi
    exact runs_runOperation

/-! ## Runs that are in the way -/

section Runs

variable {allowParallel : Bool} {others : List LockScope} {body : Str × OpType → BodyChoice}
  {ops : List (Str × OpType)} {i j : Nat} {x y : Str × OpType} {s : ServerThreads}

/-- The events since the task was idle do not begin its body. -/
theorem not_bodyRun_append {events : List OpEvent} {shared : AppState} {ls : List Stage}
    (hR : Resuming allowParallel others ops shared ls)
    (hnone : ∀ kind id command, .started i kind id command ∉ shared.history)
    (hstarted : ∀ kind id command, .started i kind id command ∈ events → id = shared.log.nextId)
    (hbegun : ∀ id : Nat, .begun id ∉ events) : ¬BodyRun i (shared.history ++ events) := by
  rintro ⟨kind, id, command, hmem, hrun⟩
  rcases List.mem_append.mp hrun with hrun | hrun
  · rcases List.mem_append.mp hmem with hmem | hmem
    · exact hnone kind id command hmem
    · rw [hstarted kind id command hmem] at hrun
      exact absurd (hR.begunFresh _ hrun) (Nat.lt_irrefl _)
  · exact hbegun id hrun

/-- The section of a task can be run, since no task waits. -/
theorem enabled_of_resuming
    (hr : serverMachine.Reaches (OthersAmong others) (serverStart allowParallel (autoResume body ops)) s) :
    serverMachine.enabled i s.shared = true := by
  change s.shared.waiting.all _ = true
  rw [(resuming_of_reaches hr).1.waiting]
  rfl

/-- No token is seen, since none is cancelled. -/
theorem poll_false
    (hr : serverMachine.Reaches (OthersAmong others) (serverStart allowParallel (autoResume body ops)) s)
    {id : Nat} {heeds : Bool} :
    serverMachine.serve i (.poll id heeds) s.shared = (false, s.shared) := by
  have hnot := (resuming_of_reaches hr).1.not_cancelled id
  change (decide (id ∈ s.shared.cancelled) && heeds, s.shared) = _
  rw [decide_eq_false hnot, Bool.false_and]

/-- **A task that is refused its permit** comes to its end without its body. -/
theorem reaches_denied
    (hr : serverMachine.Reaches (OthersAmong others) (serverStart allowParallel (autoResume body ops)) s)
    (hi : s.threads[i]? = some ⟨.idle, runOperation x.2.command (some x.1) (body x)⟩)
    (hnone : ∀ kind id command, .started i kind id command ∉ s.shared.history)
    (hpermits : s.shared.permits = some 0) :
    ∃ s' t, serverMachine.Reaches (OthersAmong others) (serverStart allowParallel (autoResume body ops)) s' ∧
      s'.threads[i]? = some t ∧ t.ended = true ∧ ¬BodyRun i s'.shared.history := by
  have hdeny : serverMachine.serve i .tryAcquire s.shared = (false, s.shared) := if_pos hpermits
  obtain ⟨t, ht, hshared, hi, -⟩ := hr.call hi (enabled_of_resuming hr) trivial hdeny
  refine ⟨t, _, ht, hi, rfl, ?_⟩
  rw [hshared, ← List.append_nil s.shared.history]
  exact not_bodyRun_append (resuming_of_reaches hr).1 hnone (fun _ _ _ h => by cases h) fun _ h => by cases h

/-- What a task does once its action is logged. -/
def registering (x : Str × OpType) (body : BodyChoice) (id : Nat) : ServerProg Unit :=
  (perform (.insertOp id x.2.command (some x.1))).bind fun (conflict : Bool) =>
    (if conflict then
      (perform (.logFail id "operation already in progress for this backup")).bind fun _ =>
        (perform (.dropPermits 1)).bind fun _ => .fail "operation already in progress for this backup"
    else .ret id : ServerProg Nat).attempt.bind fun (started : Except Str Nat) =>
      match started with
      | .ok id => operate id (some x.1) (resumeLock x) body
      | .error _ => .ret ()

/-- What a task does once its block runs. -/
def locking (x : Str × OpType) (body : BodyChoice) (id : Nat) : ServerProg Unit :=
  (perform (.acquireScoped id (resumeLock x))).bind fun (locked : Bool) =>
    (if locked then runBody id (some x.1) body else failOp id body.lockError body.heedsLast).bind
      fun _ => (perform (.dropLock id)).bind fun _ => .ret ()

/-- A task logs its action. -/
theorem reaches_started
    (hr : serverMachine.Reaches (OthersAmong others) (serverStart allowParallel (autoResume body ops)) s)
    (hi : s.threads[i]? = some ⟨.idle, runOperation x.2.command (some x.1) (body x)⟩)
    (hpermits : s.shared.permits ≠ some 0) :
    ∃ t, serverMachine.Reaches (OthersAmong others) (serverStart allowParallel (autoResume body ops)) t ∧
      t.shared = s.shared.takePermit.logStarted i .try x.2.command ∧
      t.threads[i]? = some ⟨.begun .try s.shared.log.nextId (some x.1),
        registering x (body x) s.shared.log.nextId⟩ ∧
      ∀ j, j ≠ i → t.threads[j]? = s.threads[j]? := by
  have hpermit : serverMachine.serve i .tryAcquire s.shared = (true, s.shared.takePermit) :=
    if_neg hpermits
  obtain ⟨t₁, hr₁, hs₁, hi₁, ho₁⟩ := hr.call hi (enabled_of_resuming hr) trivial hpermit
  have hlog : serverMachine.serve i (.logStart .try x.2.command (some x.1)) t₁.shared =
      (s.shared.log.nextId, s.shared.takePermit.logStarted i .try x.2.command) := by
    rw [hs₁]
    rfl
  obtain ⟨t₂, hr₂, hs₂, hi₂, ho₂⟩ := hr₁.call hi₁ (enabled_of_resuming hr₁) trivial hlog
  refine ⟨t₂, hr₂, hs₂, hi₂, fun j hj => ?_⟩
  rw [ho₂ j hj, ho₁ j hj]

/-- **A task whose backup has another operation** comes to its end without its body. -/
theorem reaches_clashed
    (hr : serverMachine.Reaches (OthersAmong others) (serverStart allowParallel (autoResume body ops)) s)
    (hi : s.threads[i]? = some ⟨.idle, runOperation x.2.command (some x.1) (body x)⟩)
    (hnone : ∀ kind id command, .started i kind id command ∉ s.shared.history)
    (hpermits : s.shared.permits ≠ some 0) (hclash : ∃ op ∈ s.shared.ops, op.backupName = some x.1) :
    ∃ s' t, serverMachine.Reaches (OthersAmong others) (serverStart allowParallel (autoResume body ops)) s' ∧
      s'.threads[i]? = some t ∧ t.ended = true ∧ ¬BodyRun i s'.shared.history := by
  let error : Str := "operation already in progress for this backup"
  obtain ⟨t₁, hr₁, hs₁, hi₁, -⟩ := reaches_started hr hi hpermits
  have hconflict : serverMachine.serve i (.insertOp s.shared.log.nextId x.2.command (some x.1)) t₁.shared =
      (true, t₁.shared) := by
    refine if_pos ?_
    obtain ⟨op, hop, hname⟩ := hclash
    rw [hs₁, Option.isSome_some, Bool.true_and, List.any_eq_true]
    exact ⟨op, hop, decide_eq_true hname⟩
  obtain ⟨t₂, hr₂, hs₂, hi₂, -⟩ := hr₁.call hi₁ (enabled_of_resuming hr₁) trivial hconflict
  obtain ⟨t₃, hr₃, hs₃, hi₃, -⟩ := hr₂.call hi₂ (enabled_of_resuming hr₂) trivial rfl
  obtain ⟨t₄, hr₄, hs₄, hi₄, -⟩ := hr₃.call hi₃ (enabled_of_resuming hr₃) trivial rfl
  refine ⟨t₄, _, hr₄, hi₄, rfl, ?_⟩
  have hhistory : t₄.shared.history = s.shared.history ++
      [.started i .try s.shared.log.nextId x.2.command, .failed s.shared.log.nextId error] := by
    rw [hs₄, hs₃, hs₂, hs₁]
    exact List.append_assoc _ [_] [_]
  rw [hhistory]
  refine not_bodyRun_append (resuming_of_reaches hr).1 hnone (fun kind id command h => ?_) fun id h => ?_
  · simp only [List.mem_cons, OpEvent.started.injEq, List.not_mem_nil, or_false, reduceCtorEq] at h
    exact h.2.2.1
  · simp at h

/-- A task without a rival in the registry comes to its lock. -/
theorem reaches_entering
    (hr : serverMachine.Reaches (OthersAmong others) (serverStart allowParallel (autoResume body ops)) s)
    (hi : s.threads[i]? = some ⟨.idle, runOperation x.2.command (some x.1) (body x)⟩)
    (hpermits : s.shared.permits ≠ some 0) (hfree : ∀ op ∈ s.shared.ops, op.backupName ≠ some x.1) :
    ∃ t, serverMachine.Reaches (OthersAmong others) (serverStart allowParallel (autoResume body ops)) t ∧
      t.shared = (s.shared.takePermit.logStarted i .try x.2.command).register
        ⟨s.shared.log.nextId, x.2.command, some x.1, true⟩ ∧
      t.threads[i]? = some ⟨.entering s.shared.log.nextId (some x.1),
        locking x (body x) s.shared.log.nextId⟩ ∧
      ∀ j, j ≠ i → t.threads[j]? = s.threads[j]? := by
  obtain ⟨t₁, hr₁, hs₁, hi₁, ho₁⟩ := reaches_started hr hi hpermits
  have hinsert : serverMachine.serve i (.insertOp s.shared.log.nextId x.2.command (some x.1)) t₁.shared =
      (false, t₁.shared.register ⟨s.shared.log.nextId, x.2.command, some x.1, true⟩) := by
    refine if_neg ?_
    rw [hs₁, Option.isSome_some, Bool.true_and, List.any_eq_true]
    rintro ⟨op, hop, hname⟩
    exact hfree op hop (of_decide_eq_true hname)
  obtain ⟨t₂, hr₂, hs₂, hi₂, ho₂⟩ := hr₁.call hi₁ (enabled_of_resuming hr₁) trivial hinsert
  have hpoll : serverMachine.serve i (.poll s.shared.log.nextId (body x).heedsFirst) t₂.shared =
      (false, t₂.shared) := poll_false hr₂
  obtain ⟨t₃, hr₃, hs₃, hi₃, ho₃⟩ := hr₂.call hi₂ (enabled_of_resuming hr₂) trivial hpoll
  refine ⟨t₃, hr₃, by rw [hs₃, hs₂, hs₁], hi₃, fun j hj => ?_⟩
  rw [ho₃ j hj, ho₂ j hj, ho₁ j hj]

/-- **A task whose lock is refused** comes to its end without its body. -/
theorem reaches_barred
    (hr : serverMachine.Reaches (OthersAmong others) (serverStart allowParallel (autoResume body ops)) s)
    (hi : s.threads[i]? = some ⟨.idle, runOperation x.2.command (some x.1) (body x)⟩)
    (hnone : ∀ kind id command, .started i kind id command ∉ s.shared.history)
    (hpermits : s.shared.permits ≠ some 0) (hfree : ∀ op ∈ s.shared.ops, op.backupName ≠ some x.1)
    (hout : s.shared.lockedOut (resumeLock x) = true) :
    ∃ s' t, serverMachine.Reaches (OthersAmong others) (serverStart allowParallel (autoResume body ops)) s' ∧
      s'.threads[i]? = some t ∧ t.ended = true ∧ ¬BodyRun i s'.shared.history := by
  obtain ⟨t₁, hr₁, hs₁, hi₁, -⟩ := reaches_entering hr hi hpermits hfree
  have hbarred : serverMachine.serve i (.acquireScoped s.shared.log.nextId (resumeLock x)) t₁.shared =
      (false, t₁.shared.dispatched s.shared.log.nextId) := by
    refine if_pos ?_
    rw [hs₁]
    exact hout
  obtain ⟨t₂, hr₂, hs₂, hi₂, -⟩ := hr₁.call hi₁ (enabled_of_resuming hr₁) trivial hbarred
  obtain ⟨t₃, hr₃, hs₃, hi₃, -⟩ := hr₂.call hi₂ (enabled_of_resuming hr₂) trivial rfl
  have hpoll : serverMachine.serve i (.poll s.shared.log.nextId (body x).heedsLast) t₃.shared =
      (false, t₃.shared) := poll_false hr₃
  obtain ⟨t₄, hr₄, hs₄, hi₄, -⟩ := hr₃.call hi₃ (enabled_of_resuming hr₃) trivial hpoll
  obtain ⟨t₅, hr₅, hs₅, hi₅, -⟩ := hr₄.call hi₄ (enabled_of_resuming hr₄) trivial rfl
  obtain ⟨t₆, hr₆, hs₆, hi₆, -⟩ := hr₅.call hi₅ (enabled_of_resuming hr₅) trivial rfl
  refine ⟨t₆, _, hr₆, hi₆, rfl, ?_⟩
  have hhistory : t₆.shared.history = s.shared.history ++
      [.started i .try s.shared.log.nextId x.2.command, .dispatched s.shared.log.nextId,
        .failed s.shared.log.nextId (body x).lockError] := by
    rw [hs₆, hs₅, hs₄, hs₃, hs₂, hs₁]
    simp [AppState.remove, AppState.release, AppState.dispatched, AppState.register,
      AppState.logStarted, AppState.takePermit]
  rw [hhistory]
  refine not_bodyRun_append (resuming_of_reaches hr).1 hnone (fun kind id command h => ?_) fun id h => ?_
  · simp only [List.mem_cons, OpEvent.started.injEq, List.not_mem_nil, or_false, reduceCtorEq] at h
    exact h.2.2.1
  · simp at h

/-- A task that no lock is in the way of takes its own. -/
theorem reaches_locked
    (hr : serverMachine.Reaches (OthersAmong others) (serverStart allowParallel (autoResume body ops)) s)
    (hi : s.threads[i]? = some ⟨.idle, runOperation x.2.command (some x.1) (body x)⟩)
    (hpermits : s.shared.permits ≠ some 0) (hfree : ∀ op ∈ s.shared.ops, op.backupName ≠ some x.1)
    (hout : s.shared.lockedOut (resumeLock x) = false) :
    ∃ t, serverMachine.Reaches (OthersAmong others) (serverStart allowParallel (autoResume body ops)) t ∧
      t.shared = (((s.shared.takePermit.logStarted i .try x.2.command).register
        ⟨s.shared.log.nextId, x.2.command, some x.1, true⟩).dispatched s.shared.log.nextId).lock
          s.shared.log.nextId (resumeLock x) ∧
      t.threads[i]? = some ⟨.locked s.shared.log.nextId (some x.1) (resumeLock x),
        (runBody s.shared.log.nextId (some x.1) (body x)).bind fun _ =>
          (perform (.dropLock s.shared.log.nextId)).bind fun _ => .ret ()⟩ ∧
      ∀ j, j ≠ i → t.threads[j]? = s.threads[j]? := by
  obtain ⟨t₁, hr₁, hs₁, hi₁, ho₁⟩ := reaches_entering hr hi hpermits hfree
  have hlocked : serverMachine.serve i (.acquireScoped s.shared.log.nextId (resumeLock x)) t₁.shared =
      (true, (t₁.shared.dispatched s.shared.log.nextId).lock s.shared.log.nextId (resumeLock x)) := by
    refine if_neg ?_
    rw [hs₁]
    exact fun hlocked => by cases hout.symm.trans hlocked
  obtain ⟨t₂, hr₂, hs₂, hi₂, ho₂⟩ := hr₁.call hi₁ (enabled_of_resuming hr₁) trivial hlocked
  refine ⟨t₂, hr₂, by rw [hs₂, hs₁], hi₂, fun j hj => ?_⟩
  rw [ho₂ j hj, ho₁ j hj]

/-- At the start the task of an operation is idle. -/
theorem idle_at_start (hx : ops[i]? = some x) :
    (serverStart allowParallel (autoResume body ops)).threads[i]? =
      some ⟨.idle, runOperation x.2.command (some x.1) (body x)⟩ := by
  rw [serverStart, autoResume, List.getElem?_map, List.getElem?_map, hx]
  rfl

theorem free_at_start : (AppState.new allowParallel).permits ≠ some 0 := by
  cases allowParallel with
  | true => exact fun h => by cases h
  | false => exact fun h => by cases h

/-- Any task can be the first, and takes its lock. -/
theorem reaches_first (others : List LockScope) (hx : ops[i]? = some x) :
    ∃ t, serverMachine.Reaches (OthersAmong others) (serverStart allowParallel (autoResume body ops)) t ∧
      t.shared = (((((AppState.new allowParallel).takePermit.logStarted i .try x.2.command).register
        ⟨1, x.2.command, some x.1, true⟩).dispatched 1).lock 1 (resumeLock x)) ∧
      t.threads[i]? = some ⟨.locked 1 (some x.1) (resumeLock x),
        (runBody 1 (some x.1) (body x)).bind fun _ => (perform (.dropLock 1)).bind fun _ => .ret ()⟩ ∧
      ∀ j, j ≠ i → t.threads[j]? = (serverStart allowParallel (autoResume body ops)).threads[j]? :=
  reaches_locked .refl (idle_at_start hx) free_at_start (fun _ hop => by cases hop) rfl

/-- The body of any task can be begun. -/
theorem reaches_bodyRun (others : List LockScope) (hx : ops[i]? = some x) :
    ∃ s, serverMachine.Reaches (OthersAmong others) (serverStart allowParallel (autoResume body ops)) s ∧
      BodyRun i s.shared.history := by
  obtain ⟨t₁, hr₁, hs₁, hi₁, -⟩ := @reaches_first allowParallel body ops i x others hx
  obtain ⟨t₂, hr₂, hs₂, -, -⟩ := hr₁.call hi₁ (enabled_of_resuming hr₁) trivial rfl
  refine ⟨t₂, hr₂, .try, 1, x.2.command, ?_, ?_⟩
  · rw [hs₂, hs₁]
    exact List.mem_cons_self
  · rw [hs₂, hs₁]
    exact List.mem_append_right _ List.mem_cons_self

/-- After the first task has taken its lock, a task that it is in the way of comes to its end without its
body. -/
theorem reaches_refused (others : List LockScope) (hx : ops[i]? = some x) (hy : ops[j]? = some y)
    (hne : i ≠ j) (hrival : allowParallel = true → (resumeLock y).blocks (resumeLock x) = true) :
    ∃ s t, serverMachine.Reaches (OthersAmong others) (serverStart allowParallel (autoResume body ops)) s ∧
      s.threads[i]? = some t ∧ t.ended = true ∧ ¬BodyRun i s.shared.history := by
  obtain ⟨s, hr, hs, -, ho⟩ := @reaches_first allowParallel body ops j y others hy
  have hi : s.threads[i]? = some ⟨.idle, runOperation x.2.command (some x.1) (body x)⟩ :=
    (ho i hne).trans (idle_at_start hx)
  have hnone : ∀ kind id command, .started i kind id command ∉ s.shared.history := by
    intro kind id command hmem
    rw [hs] at hmem
    change OpEvent.started i kind id command ∈ [.started j .try 1 y.2.command, .dispatched 1] at hmem
    simp [hne] at hmem
  cases hmode : allowParallel with
  | false =>
    subst hmode
    exact reaches_denied hr hi hnone (by rw [hs]; rfl)
  | true =>
    subst hmode
    have hpermits : s.shared.permits ≠ some 0 := by
      rw [hs]
      exact fun h => by cases h
    have hops : s.shared.ops = [⟨1, y.2.command, some y.1, true⟩] := by
      rw [hs]
      rfl
    by_cases hname : y.1 = x.1
    · refine reaches_clashed hr hi hnone hpermits ⟨_, by rw [hops]; exact List.mem_cons_self, ?_⟩
      exact congrArg some hname
    · refine reaches_barred hr hi hnone hpermits ?_ ?_
      · intro op hop hsame
        rw [hops, List.mem_singleton] at hop
        rw [hop] at hsame
        exact hname (Option.some.inj hsame)
      · have hlocks : s.shared.locks = [(1, resumeLock y)] := by
          rw [hs]
          rfl
        rw [AppState.lockedOut, hlocks, List.any_cons, hrival rfl, Bool.true_or, Bool.true_or]

/-- After another process has taken its lock, a task that it is in the way of comes to its end without its
body. -/
theorem reaches_excluded {held : LockScope} (hheld : held ∈ others)
    (hblocks : held.blocks (resumeLock x) = true) (hx : ops[i]? = some x) :
    ∃ s t, serverMachine.Reaches (OthersAmong others) (serverStart allowParallel (autoResume body ops)) s ∧
      s.threads[i]? = some t ∧ t.ended = true ∧ ¬BodyRun i s.shared.history := by
  let s : ServerThreads := ⟨{ AppState.new allowParallel with others := [held] },
    (serverStart allowParallel (autoResume body ops)).threads⟩
  have hr : serverMachine.Reaches (OthersAmong others) (serverStart allowParallel (autoResume body ops)) s :=
    .step (.inr (.othersTake held)) .refl hheld rfl
  have hi : s.threads[i]? = some ⟨.idle, runOperation x.2.command (some x.1) (body x)⟩ := @idle_at_start allowParallel body ops i x hx
  refine reaches_barred hr hi (fun _ _ _ h => by cases h) free_at_start (fun _ hop => by cases hop) ?_
  change ([held].any fun held => held.blocks (resumeLock x)) = true
  rw [List.any_cons, hblocks, Bool.true_or]

/-- A task that has come to its end begins no body any more. -/
theorem ended_stays {s s' : ServerThreads}
    (hr : serverMachine.Reaches (OthersAmong others) (serverStart allowParallel (autoResume body ops)) s)
    (hr' : serverMachine.Reaches (OthersAmong others) s s')
    {t : Thread ServerCall ServerCall.Reply Stage Str Unit} (hi : s.threads[i]? = some t)
    (hended : t.ended = true) (hnot : ¬BodyRun i s.shared.history) :
    s'.threads[i]? = some t ∧ ¬BodyRun i s'.shared.history := by
  induction hr' with
  | refl => exact ⟨hi, hnot⟩
  | @step s' s'' a hr' _ hs ih =>
    obtain ⟨hi', hnot'⟩ := ih
    cases a with
    | inl j =>
      obtain ⟨l, c, k, hj, -, rfl⟩ := Machine.step_inl_eq_some hs
      by_cases hne : j = i
      · subst hne
        rw [hj] at hi'
        cases hi'
        cases hended
      · obtain ⟨hR, hduty⟩ := resuming_of_reaches (hr.trans hr')
        have hmind : s'.minds[j]? = some l := by
          rw [Threads.minds, List.getElem?_map, hj]
          rfl
        constructor
        · rw [List.getElem?_set_ne hne, hi']
        · have hkept := bodyRun_kept (i := i) hR hmind (transition_of_permits (hduty j _ hj).1.1) (Or.inl hne)
          exact fun hrun => hnot' (hkept.mp hrun)
    | inr e =>
      obtain ⟨shared, hshared, rfl⟩ := Option.map_eq_some_iff.mp hs
      obtain ⟨now, active, taken, rfl⟩ := move_cases hshared
      exact ⟨hi', hnot'⟩

/-- The run comes to its end, and the body was not begun. -/
theorem reaches_ended {t : Thread ServerCall ServerCall.Reply Stage Str Unit}
    (hr : serverMachine.Reaches (OthersAmong others) (serverStart allowParallel (autoResume body ops)) s)
    (hi : s.threads[i]? = some t) (hended : t.ended = true) (hnot : ¬BodyRun i s.shared.history) :
    ∃ s, serverMachine.Reaches (OthersAmong others) (serverStart allowParallel (autoResume body ops)) s ∧
      Ended s ∧ ¬BodyRun i s.shared.history := by
  have hrefl : serverMachine.Reaches (OthersAmong others) s s := .refl
  obtain ⟨s', hr', hall⟩ := hrefl.finish_all fun i s' hr' =>
    ⟨enabled_of_resuming (hr.trans hr'), trivial⟩
  refine ⟨s', hr.trans hr', ⟨(resuming_of_reaches (hr.trans hr')).1.waiting, fun i =>
    Machine.step_eq_none_of_ended hall i⟩, ?_⟩
  exact (ended_stays hr hr' hi hended hnot).2

/-- **A rival can be in the way**: the run comes to its end, and the body was not begun. -/
theorem reaches_ended_of_rival (hx : ops[i]? = some x)
    (hrival : ¬Unrivalled allowParallel others ops x) :
    ∃ s, serverMachine.Reaches (OthersAmong others) (serverStart allowParallel (autoResume body ops)) s ∧
      Ended s ∧ ¬BodyRun i s.shared.history := by
  by_cases hprocesses : ∀ held ∈ others, held.blocks (resumeLock x) = false
  · have hoperations : ¬∀ y ∈ ops, y ≠ x →
        allowParallel = true ∧ (resumeLock y).blocks (resumeLock x) = false :=
      fun hoperations => hrival ⟨hoperations, hprocesses⟩
    push Not at hoperations
    obtain ⟨y, hy, hne, hblocks⟩ := hoperations
    obtain ⟨j, hj⟩ := List.mem_iff_getElem?.mp hy
    have hij : i ≠ j := by
      rintro rfl
      exact hne (Option.some.inj (hj.symm.trans hx))
    obtain ⟨s, t, hr, hi, hended, hnot⟩ := @reaches_refused allowParallel body ops i j x y others hx hj hij
      fun hmode => Bool.not_eq_false _ ▸ hblocks hmode
    exact reaches_ended hr hi hended hnot
  · push Not at hprocesses
    obtain ⟨held, hheld, hblocks⟩ := hprocesses
    obtain ⟨s, t, hr, hi, hended, hnot⟩ := @reaches_excluded allowParallel others body ops i x held hheld
      (Bool.not_eq_false _ ▸ hblocks) hx
    exact reaches_ended hr hi hended hnot

end Runs

/-! ## Exactly the interrupted work -/

/-- The operation was cut off with its state file, and for a restore its parameters, on disk. -/
def Interrupted (useResumableState : Bool) (history : List PastRun) (x : Str × OpType) : Prop :=
  ∃ k r n, (x.1, .state x.2, k) ∈ diskAfter useResumableState history ∧ history[k]? = some r ∧
    r.ending = .cutOff n ∧
      (x.2 = .restore → (diskAfter useResumableState history).has x.1 .restoreParams = true)

/-- **What `auto_resume` should do**: when its tasks are at their ends, the body of every operation
that was cut off has been run, and no body was run for a run that had completed.  Other processes may
take the locks that are listed meanwhile. -/
def ReplaysExactly (useResumableState allowParallel : Bool) (others : List LockScope)
    (history : List PastRun) (dirs : List Str) : Prop :=
  ∀ body s, serverMachine.Reaches (OthersAmong others) (serverStart allowParallel
      (autoResume body (resumable dirs (diskAfter useResumableState history)))) s →
    (Ended s → ∀ x, Interrupted useResumableState history x →
      ∃ i, (resumable dirs (diskAfter useResumableState history))[i]? = some x ∧
        BodyRun i s.shared.history) ∧
    ∀ i x, (resumable dirs (diskAfter useResumableState history))[i]? = some x →
      BodyRun i s.shared.history → ∀ k r, (x.1, x.2.source, k) ∈ diskAfter useResumableState history →
        history[k]? = some r → r.ending ≠ .completed

section Replay

variable {useResumableState allowParallel : Bool} {others : List LockScope} {history : List PastRun}
  {dirs : List Str}

theorem mem_resumable {disk : StateDisk} {x : Str × OpType} :
    x ∈ resumable dirs disk ↔ x.1 ∈ dirs ∧ validateBackupName x.1 = true ∧
      disk.has x.1 (.state x.2) = true ∧ (x.2 = .restore → disk.has x.1 .restoreParams = true) := by
  rw [resumable, List.mem_filter, mem_scan]
  simp only [ne_eq, decide_not, Bool.or_eq_true, Bool.not_eq_eq_eq_not, Bool.not_true,
    decide_eq_false_iff_not, and_assoc, Decidable.imp_iff_not_or]

/-- The files on disk are those of backups with valid names. -/
theorem valid_of_mem {b : Str} {f : ResumeFile} {k : Nat}
    (h : (b, f, k) ∈ diskAfter useResumableState history) : validateBackupName b = true := by
  obtain ⟨r, -, rfl, -, -⟩ := mem_diskAfter.mp h
  exact r.run.backup.property

theorem Interrupted.mem_resumable (hdirs : Lists dirs (diskAfter useResumableState history))
    {x : Str × OpType} (hx : Interrupted useResumableState history x) :
    x ∈ resumable dirs (diskAfter useResumableState history) := by
  obtain ⟨k, r, n, hfile, -, -, hparams⟩ := hx
  refine Chbackup.mem_resumable.mpr ⟨hdirs.covers _ hfile, valid_of_mem hfile, ?_, hparams⟩
  exact StateDisk.has_iff.mpr ⟨k, hfile⟩

theorem resumable_nodup (hdirs : Lists dirs (diskAfter useResumableState history)) :
    (resumable dirs (diskAfter useResumableState history)).Nodup :=
  (scan_nodup hdirs.nodup).filter _

/-- At the end of a run no task has a call left. -/
theorem rest_of_ended {s : ServerThreads} (hend : Ended s) {i : Nat}
    {t : Thread ServerCall ServerCall.Reply Stage Str Unit} (hi : s.threads[i]? = some t) :
    t.ended = true := by
  obtain ⟨l, rest⟩ := t
  cases rest with
  | ret a => rfl
  | fail e => rfl
  | call c k =>
    have henabled : serverMachine.enabled i s.shared = true := by
      change s.shared.waiting.all _ = true
      rw [hend.1]
      rfl
    have hstep := hend.2 i
    simp only [Machine.step, hi, henabled, if_true] at hstep
    cases hstep

/-- The interrupted operations without rivals are replayed. -/
theorem replayed_of_unrivalled (hdirs : Lists dirs (diskAfter useResumableState history))
    {x : Str × OpType} (hx : Interrupted useResumableState history x)
    (hno : Unrivalled allowParallel others (resumable dirs (diskAfter useResumableState history)) x)
    {body : Str × OpType → BodyChoice} {s : ServerThreads}
    (hr : serverMachine.Reaches (OthersAmong others) (serverStart allowParallel
      (autoResume body (resumable dirs (diskAfter useResumableState history)))) s) (hend : Ended s) :
    ∃ i, (resumable dirs (diskAfter useResumableState history))[i]? = some x ∧
      BodyRun i s.shared.history := by
  obtain ⟨i, hi⟩ := List.mem_iff_getElem?.mp (hx.mem_resumable hdirs)
  refine ⟨i, hi, ?_⟩
  have hlt : i < s.threads.length := by
    rw [hr.length_eq, serverStart, autoResume, List.length_map, List.length_map]
    exact (List.getElem?_eq_some_iff.mp hi).1
  have ht := List.getElem?_eq_getElem hlt
  have hended := rest_of_ended hend ht
  have hobeys := bodyRun_of_unrivalled hr (resumable_nodup hdirs) hi hno _ ht
  generalize s.threads[i] = t at hended hobeys
  obtain ⟨l, rest⟩ := t
  cases rest with
  | ret a => exact hobeys
  | fail e => exact hobeys
  | call c k => cases hended

/-- What is left over is found again. -/
theorem Leftover.mem_diskAfter {k : Nat} {r : PastRun} (hk : Leftover useResumableState history k)
    (hr : history[k]? = some r) :
    r.ending = .completed ∧
      (r.run.backup.val, .state .download, k) ∈ diskAfter useResumableState history := by
  obtain ⟨r', hr', hcompleted, hop, hdisks, hresume, hlater⟩ := hk
  obtain rfl : r = r' := Option.some.inj (hr.symm.trans hr')
  refine ⟨hcompleted, Chbackup.mem_diskAfter.mpr ⟨r, hr, rfl, ?_, hlater⟩⟩
  rw [PastRun.steps, hcompleted]
  exact completed_leaves.mpr ⟨rfl, hop, hdisks, hresume⟩

/-- A download that is left over is replayed. -/
theorem not_replaysExactly_of_leftover (hdirs : Lists dirs (diskAfter useResumableState history))
    {k : Nat} (hk : Leftover useResumableState history k) :
    ¬ReplaysExactly useResumableState allowParallel others history dirs := by
  intro hreplays
  have hr : ∃ r, history[k]? = some r := by
    obtain ⟨r, hr, -⟩ := hk
    exact ⟨r, hr⟩
  obtain ⟨r, hr⟩ := hr
  obtain ⟨hcompleted, hfile⟩ := hk.mem_diskAfter hr
  have hmem : (r.run.backup.val, OpType.download) ∈
      resumable dirs (diskAfter useResumableState history) :=
    mem_resumable.mpr ⟨hdirs.covers _ hfile, r.run.backup.property, StateDisk.has_iff.mpr ⟨k, hfile⟩,
      (fun h => by cases h)⟩
  obtain ⟨i, hi⟩ := List.mem_iff_getElem?.mp hmem
  obtain ⟨s, hs, hrun⟩ := @reaches_bodyRun allowParallel (fun _ => undisturbed) _ i _ others hi
  exact (hreplays _ s hs).2 i _ hi hrun k r hfile hr hcompleted

/-- An interrupted operation that has a rival can be refused. -/
theorem unrivalled_of_replaysExactly (hdirs : Lists dirs (diskAfter useResumableState history))
    (hreplays : ReplaysExactly useResumableState allowParallel others history dirs) {x : Str × OpType}
    (hx : Interrupted useResumableState history x) :
    Unrivalled allowParallel others (resumable dirs (diskAfter useResumableState history)) x := by
  by_contra hrival
  obtain ⟨i, hi⟩ := List.mem_iff_getElem?.mp (hx.mem_resumable hdirs)
  obtain ⟨s, hs, hend, hnot⟩ := @reaches_ended_of_rival allowParallel others (fun _ => undisturbed) _ i x hi
    hrival
  obtain ⟨i', hi', hrun⟩ := (hreplays _ s hs).1 hend x hx
  have heq : i = i' := (List.getElem?_inj (List.getElem?_eq_some_iff.mp hi).1 (resumable_nodup hdirs)).mp
    (hi.trans hi'.symm)
  subst heq
  exact hnot hrun

/-- **`auto_resume` replays exactly the interrupted work** if and only if no operation that is found and
no lock of another process is in the way of an interrupted one, and no completed download has left its
state file. -/
theorem auto_resume_replays_exactly (useResumableState allowParallel : Bool) (others : List LockScope)
    (history : List PastRun) (dirs : List Str) (hdirs : Lists dirs (diskAfter useResumableState history)) :
    ReplaysExactly useResumableState allowParallel others history dirs ↔
      (∀ x, Interrupted useResumableState history x →
        Unrivalled allowParallel others (resumable dirs (diskAfter useResumableState history)) x) ∧
      ∀ k, ¬Leftover useResumableState history k := by
  constructor
  · intro hreplays
    refine ⟨fun x hx => unrivalled_of_replaysExactly hdirs hreplays hx, fun k hk => ?_⟩
    exact not_replaysExactly_of_leftover hdirs hk hreplays
  · rintro ⟨hno, hleft⟩ body s hr
    constructor
    · intro hend x hx
      exact replayed_of_unrivalled hdirs hx (hno x hx) hr hend
    · intro i x hi hrun k r hfile hk hcompleted
      exact hleft k (leftover_of_completed hfile hk hcompleted)

/-- An upload of a backup that resumes, with two parts. -/
def uploadRun (b : BackupName) : ResumableRun := ⟨.upload, b, true, 2, true, false, false⟩

/-- Two uploads that were cut off are replayed in a parallel server, while another process has the lock of
a third backup. -/
theorem interrupted_uploads_replayed :
    Lists ["a", "b"]
        (diskAfter true [⟨uploadRun ⟨"a", rfl⟩, .cutOff 1⟩, ⟨uploadRun ⟨"b", rfl⟩, .cutOff 1⟩]) ∧
      ReplaysExactly true true [.backup "c"]
        [⟨uploadRun ⟨"a", rfl⟩, .cutOff 1⟩, ⟨uploadRun ⟨"b", rfl⟩, .cutOff 1⟩] ["a", "b"] := by
  have hdisk : diskAfter true [⟨uploadRun ⟨"a", rfl⟩, .cutOff 1⟩, ⟨uploadRun ⟨"b", rfl⟩, .cutOff 1⟩] =
      [(("a" : Str), .state .upload, 0), ("b", .state .upload, 1)] := rfl
  have hdirs : Lists ["a", "b"]
      (diskAfter true [⟨uploadRun ⟨"a", rfl⟩, .cutOff 1⟩, ⟨uploadRun ⟨"b", rfl⟩, .cutOff 1⟩]) := by
    rw [hdisk]
    exact ⟨by decide, by decide⟩
  refine ⟨hdirs, (auto_resume_replays_exactly true true _ _ _ hdirs).mpr ⟨?_, ?_⟩⟩
  · intro x hx
    have hops : resumable ["a", "b"]
        (diskAfter true [⟨uploadRun ⟨"a", rfl⟩, .cutOff 1⟩, ⟨uploadRun ⟨"b", rfl⟩, .cutOff 1⟩]) =
        [(("a" : Str), .upload), ("b", .upload)] := by
      rw [hdisk]
      decide +kernel
    have hfound := hx.mem_resumable hdirs
    rw [hops] at hfound ⊢
    have hboth : ∀ x ∈ [(("a" : Str), OpType.upload), ("b", .upload)],
        (∀ y ∈ [(("a" : Str), OpType.upload), ("b", .upload)], y ≠ x →
          true = true ∧ (resumeLock y).blocks (resumeLock x) = false) ∧
        ∀ held ∈ [LockScope.backup "c"], held.blocks (resumeLock x) = false := by
      decide +kernel
    exact ⟨(hboth x hfound).1, (hboth x hfound).2⟩
  · rintro k ⟨r, hr, hcompleted, -⟩
    match k, hr with
    | 0, hr =>
      cases hr
      cases hcompleted
    | 1, hr =>
      cases hr
      cases hcompleted

/-- A download that completes without resuming is replayed all the same. -/
theorem completed_download_replayed :
    ¬∀ (useResumableState allowParallel : Bool) (others : List LockScope) (history : List PastRun)
      (dirs : List Str), Lists dirs (diskAfter useResumableState history) →
        ReplaysExactly useResumableState allowParallel others history dirs := by
  intro h
  have hdisk : diskAfter true [⟨⟨.download, ⟨"b", rfl⟩, false, 2, true, false, false⟩, .completed⟩] =
      [(("b" : Str), .state .download, 0)] := rfl
  have hdirs : Lists ["b"]
      (diskAfter true [⟨⟨.download, ⟨"b", rfl⟩, false, 2, true, false, false⟩, .completed⟩]) := by
    rw [hdisk]
    exact ⟨List.nodup_singleton _, fun e he => by simp_all⟩
  refine @not_replaysExactly_of_leftover true false [] _ _ hdirs 0 ?_ (h true false [] _ _ hdirs)
  refine ⟨_, rfl, rfl, rfl, rfl, rfl, ?_⟩
  intro j r hj hr
  cases j with
  | zero => exact absurd hj (Nat.lt_irrefl 0)
  | succ j => cases hr

end Replay

end Chbackup
