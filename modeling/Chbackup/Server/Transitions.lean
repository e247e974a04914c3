import Chbackup.Server.Stages

/-!
# The transitions of the server

Every step of a task is one of the transitions below.  Invariants of the server are checked against
these, and not against the programs.
-/

namespace Chbackup

open CallTree Prog

namespace AppState

variable (s : AppState)

/-- The state after an action was logged. -/
def logStarted (i : Nat) (kind : StartKind) (command : Str) : AppState :=
  let history := s.history ++ [.started i kind s.log.nextId command]
  { s with log := s.log.start command s.now, history := history }

/-- The state after an operation was put into the registry. -/
def register (op : RunningOp) : AppState := { s with ops := s.ops ++ [op] }

/-- The state after an operation was taken out of the registry, its permit kept by the caller. -/
def unregister (id : Nat) : AppState := { s with ops := s.ops.filter fun op => op.id ≠ id }

/-- The state after a permit was stored. -/
def storePermit (id : Nat) : AppState :=
  let ops := s.ops.map fun op => if op.id = id then { op with hasPermit := true } else op
  { s with ops := ops }

/-- A task does not wait any more. -/
def stopWaiting (i : Nat) : AppState := { s with waiting := s.waiting.filter fun w => w.1 ≠ i }

/-- The state after the outcome of an operation was logged. -/
def closed (id : Nat) (status : ActionStatus) (event : OpEvent) : AppState :=
  { s with log := s.log.close id status s.now, history := s.history ++ [event] }

/-- The state after operations were taken by a kill. -/
def kill (taken : RunningOp → Bool) : AppState :=
  let history := s.history ++ (s.ops.filter taken).map fun op => .killed op.id
  { s with ops := s.ops.filter fun op => !taken op, history := history }

/-- The state after operations were marked as killed. -/
def marked (ids : List Nat) : AppState :=
  { s with log := ids.foldl (fun log id => log.kill id s.now) s.log }

/-- The state after the block of an operation was run up to its PID lock. -/
def dispatched (id : Nat) : AppState := { s with history := s.history ++ [.dispatched id] }

/-- The state after a PID lock was taken. -/
def lock (id : Nat) (scope : LockScope) : AppState := { s with locks := s.locks ++ [(id, scope)] }

/-- The state after the PID lock of an operation was dropped. -/
def unlock (id : Nat) : AppState := { s with locks := s.locks.filter fun x => x.1 ≠ id }

/-- The state after the body of an operation began. -/
def begun (id : Nat) (name : Option Str) : AppState :=
  { s with active := s.active ++ [(id, name)], history := s.history ++ [.begun id] }

/-- The state after the body of an operation stopped. -/
def stopped (id : Nat) : AppState := { s with active := s.active.filter fun b => b.1 ≠ id }

end AppState

/-- The outcome of an operation as the log and the history have it. -/
inductive Outcome (id : Nat) : ActionStatus → OpEvent → Prop where
  | finished : Outcome id .completed (.finished id)
  | failed (error : Str) : Outcome id (.failed error) (.failed id error)

/-- A step of the task `i`. -/
inductive Transition (i : Nat) (s : AppState) : Stage → AppState → Stage → Prop where
  | deny : Transition i s .idle s .idle
  | permit (h : s.permits ≠ some 0) : Transition i s .idle s.takePermit .permitted
  | start {l : Stage} (kind : StartKind) (command : Str) (name : Option Str)
      (hl : l = if kind = .try then .permitted else .idle) :
      Transition i s l (s.logStarted i kind command) (.begun kind s.log.nextId name)
  | insert (id : Nat) (command : Str) (name : Option Str)
      (h : ∀ op ∈ s.ops, name.isSome = true → op.backupName ≠ name) :
      Transition i s (.begun .try id name) (s.register ⟨id, command, name, true⟩) (.admitted id name)
  | clash (id : Nat) (name : Option Str) : Transition i s (.begun .try id name) s (.refused id)
  | enqueue (id : Nat) (command : Str) (name : Option Str) :
      Transition i s (.begun .queue id name)
        { s.register ⟨id, command, name, false⟩ with waiting := s.waiting ++ [(i, id)] }
        (.queued id name)
  | grant (id : Nat) (name : Option Str) (h : id ∈ s.cancelled → s.permits ≠ some 0) :
      Transition i s (.queued id name) (s.stopWaiting i).takePermit (.granted id name)
  | unlist (id : Nat) (name : Option Str) (h : id ∈ s.cancelled) :
      Transition i s (.queued id name) (s.stopWaiting i) (.unlisted id)
  | store (id : Nat) (name : Option Str) (hin : ∃ op ∈ s.ops, op.id = id) (hlive : id ∉ s.cancelled)
      (h : ∀ op ∈ s.ops, op.id ≠ id → name.isSome = true → op.backupName ≠ name) :
      Transition i s (.granted id name) (s.storePermit id) (.admitted id name)
  | lost (id : Nat) (name : Option Str) (h : ∀ op ∈ s.ops, op.id ≠ id) :
      Transition i s (.granted id name) s .spare
  | halt (id : Nat) (name : Option Str) (h : id ∈ s.cancelled) :
      Transition i s (.granted id name) (s.unregister id) .spare
  | reject (id : Nat) (name : Option Str) (hin : ∃ op ∈ s.ops, op.id = id) (hlive : id ∉ s.cancelled)
      (h : ∃ op ∈ s.ops, op.id ≠ id ∧ name.isSome = true ∧ op.backupName = name) :
      Transition i s (.granted id name) (s.unregister id) (.refused id)
  | refuse (id : Nat) (error : Str) :
      Transition i s (.refused id) (s.closed id (.failed error) (.failed id error)) .spare
  | discard (id : Nat) : Transition i s (.unlisted id) (s.remove id) .idle
  | remove (id : Nat) : Transition i s (.leaving id) (s.remove id) (.unlocking id)
  | giveBack {l : Stage} (n : Nat) (hl : l = .spare ∧ n = 1 ∨ l = .dropping n) :
      Transition i s l (s.release n) .idle
  | lock (id : Nat) (name : Option Str) (scope : LockScope) (h : s.lockedOut scope = false) :
      Transition i s (.entering id name) ((s.dispatched id).lock id scope) (.locked id name scope)
  | bar (id : Nat) (name : Option Str) (scope : LockScope) (h : s.lockedOut scope = true) :
      Transition i s (.entering id name) (s.dispatched id) (.ended id)
  | begin (id : Nat) (name : Option Str) (scope : LockScope) :
      Transition i s (.locked id name scope) (s.begun id name) (.working id name)
  | stop (id : Nat) (name : Option Str) : Transition i s (.working id name) (s.stopped id) (.ended id)
  | abandon (id : Nat) (name : Option Str) (h : id ∈ s.cancelled) :
      Transition i s (.admitted id name) s .idle
  | desert {l : Stage} (id : Nat) (hl : (∃ name, l = .working id name) ∨ l = .logged id)
      (h : id ∈ s.cancelled) : Transition i s l s (.unlocking id)
  | unlock (id : Nat) : Transition i s (.unlocking id) (s.unlock id) .idle
  | enter (id : Nat) (name : Option Str) :
      Transition i s (.admitted id name) s (.entering id name)
  | leave (id : Nat) : Transition i s (.logged id) s (.leaving id)
  | close {status : ActionStatus} {event : OpEvent} (id : Nat) (h : Outcome id status event) :
      Transition i s (.ended id) (s.closed id status event) (.logged id)
  | take (hit : RunningOp → Bool) (h : s.ops.filter hit ≠ []) :
      Transition i s .idle (s.kill hit) (.taken (s.ops.filter hit))
  | cancel (ops : List RunningOp) :
      Transition i s (.taken ops) { s with cancelled := s.cancelled ++ ops.map RunningOp.id }
        (.marking ops)
  | mark (ops : List RunningOp) :
      Transition i s (.marking ops) (s.marked (ops.map RunningOp.id))
        (.dropping (ops.countP RunningOp.hasPermit))

section Transitions

variable {i : Nat} {s : AppState}

theorem transition_takeOps (target : Option Nat) :
    Transition i s .idle (AppState.serve i (.takeOps target) s).2
      (Stage.learn .idle ⟨.takeOps target, (AppState.serve i (.takeOps target) s).1⟩) := by
  let hit : RunningOp → Bool := fun op => target.all fun id => op.id = id
  by_cases hnone : s.ops.filter hit = []
  · have hlearn : Stage.learn .idle ⟨.takeOps target, (AppState.serve i (.takeOps target) s).1⟩ =
        .idle := if_pos hnone
    have hstate : (AppState.serve i (.takeOps target) s).2 = s := by
      have hops : s.ops.filter (fun op => !hit op) = s.ops := by
        rw [List.filter_eq_self]
        intro op hop
        have := List.filter_eq_nil_iff.mp hnone op hop
        simpa using this
      change s.kill hit = s
      rw [AppState.kill, hnone, hops, List.map_nil, List.append_nil]
    rw [hlearn, hstate]
    exact .deny
  · have hlearn : Stage.learn .idle ⟨.takeOps target, (AppState.serve i (.takeOps target) s).1⟩ =
        .taken (s.ops.filter hit) := if_neg hnone
    rw [hlearn]
    exact .take hit hnone

theorem hasConflict_iff {ops : List RunningOp} {id : Nat} {name : Option Str} :
    AppState.hasConflict ops id name = true ↔
      ∃ op ∈ ops, op.id ≠ id ∧ name.isSome = true ∧ op.backupName = name := by
  rw [AppState.hasConflict, Bool.and_eq_true, List.any_eq_true]
  constructor
  · rintro ⟨hname, op, hop, h⟩
    rw [Bool.and_eq_true, decide_eq_true_eq, decide_eq_true_eq] at h
    exact ⟨op, hop, h.1, hname, h.2⟩
  · rintro ⟨op, hop, hid, hname, h⟩
    exact ⟨hname, op, hop, by simp [hid, h]⟩

theorem transition_storePermit (id : Nat) (name : Option Str) :
    Transition i s (.granted id name) (AppState.serve i (.storePermit id name) s).2
      (Stage.learn (.granted id name)
        ⟨.storePermit id name, (AppState.serve i (.storePermit id name) s).1⟩) := by
  rw [AppState.serve]
  by_cases hin : ∃ op ∈ s.ops, op.id = id
  · have hany : (!s.ops.any fun op => op.id = id) = false := by simpa using hin
    rw [if_neg (by rw [hany]; exact Bool.false_ne_true)]
    by_cases hlive : id ∈ s.cancelled
    · rw [if_pos hlive]
      exact .halt id name hlive
    · rw [if_neg hlive]
      cases hconf : AppState.hasConflict s.ops id name with
      | true =>
        rw [if_pos rfl]
        exact .reject id name hin hlive (hasConflict_iff.mp hconf)
      | false =>
        rw [if_neg Bool.false_ne_true]
        refine .store id name hin hlive fun op hop hid hname heq => ?_
        rw [hasConflict_iff.mpr ⟨op, hop, hid, hname, heq⟩] at hconf
        cases hconf
  · have hany : (!s.ops.any fun op => op.id = id) = true := by simpa using hin
    rw [if_pos hany]
    exact .lost id name fun op hop hid => hin ⟨op, hop, hid⟩

theorem transition_insertOp (id : Nat) (command : Str) (name : Option Str) :
    Transition i s (.begun .try id name) (AppState.serve i (.insertOp id command name) s).2
      (Stage.learn (.begun .try id name)
        ⟨.insertOp id command name, (AppState.serve i (.insertOp id command name) s).1⟩) := by
  rw [AppState.serve]
  by_cases hconf : (name.isSome && s.ops.any fun op => op.backupName = name) = true
  · rw [if_pos hconf]
    exact .clash id name
  · rw [if_neg hconf]
    refine .insert id command name fun op hop hname heq => hconf ?_
    rw [Bool.and_eq_true, List.any_eq_true]
    exact ⟨hname, op, hop, decide_eq_true heq⟩

theorem transition_acquireScoped (id : Nat) (name : Option Str) (scope : LockScope) :
    Transition i s (.entering id name) (AppState.serve i (.acquireScoped id scope) s).2
      (Stage.learn (.entering id name)
        ⟨.acquireScoped id scope, (AppState.serve i (.acquireScoped id scope) s).1⟩) := by
  have hserve : AppState.serve i (.acquireScoped id scope) s =
      if s.lockedOut scope then (false, s.dispatched id) else (true, (s.dispatched id).lock id scope) := rfl
  rw [hserve]
  cases hout : s.lockedOut scope with
  | true => exact .bar id name scope hout
  | false => exact .lock id name scope hout

/-- A task looks at its token. -/
theorem transition_poll {l l' l'' : Stage} {id : Nat} (heeds : Bool)
    (habandon : id ∈ s.cancelled → Transition i s l s l'') (hgo : Transition i s l s l')
    (hlearn : ∀ dropped : Bool, l.learn ⟨.poll id heeds, dropped⟩ = if dropped then l'' else l') :
    Transition i s l (AppState.serve i (.poll id heeds) s).2
      (l.learn ⟨.poll id heeds, (AppState.serve i (.poll id heeds) s).1⟩) := by
  change Transition i s l s (l.learn ⟨.poll id heeds, decide (id ∈ s.cancelled) && heeds⟩)
  rw [hlearn]
  split_ifs with h
  · rw [Bool.and_eq_true, decide_eq_true_eq] at h
    exact habandon h.1
  · exact hgo

/-- **Every section that a stage permits is a transition.** -/
theorem transition_of_permits {l : Stage} {c : ServerCall} (h : l.Permits c) :
    Transition i s l (AppState.serve i c s).2 (l.learn ⟨c, (AppState.serve i c s).1⟩) := by
  cases l with
  | idle =>
    rcases h with rfl | ⟨command, name, rfl⟩ | ⟨target, rfl⟩
    · rw [AppState.serve]
      split_ifs with hp
      · exact .deny
      · exact .permit hp
    · exact .start .queue command name rfl
    · exact transition_takeOps target
  | permitted =>
    obtain ⟨command, name, rfl⟩ := h
    exact .start .try command name rfl
  | begun kind id name =>
    cases kind with
    | «try» =>
      obtain ⟨command, rfl⟩ := h
      exact transition_insertOp id command name
    | queue =>
      obtain ⟨command, rfl⟩ := h
      exact .enqueue id command name
  | queued id name =>
    obtain ⟨cancelFirst, rfl⟩ := h
    rw [AppState.serve]
    split_ifs with hc
    · exact .unlist id name hc.1
    · exact .grant id name fun hmem hp => hc ⟨hmem, Or.inr hp⟩
  | granted id name =>
    obtain rfl := h
    exact transition_storePermit id name
  | refused id =>
    obtain ⟨error, rfl⟩ := h
    exact .refuse id error
  | unlisted id =>
    obtain rfl := h
    exact .discard id
  | spare =>
    obtain rfl := h
    exact .giveBack 1 (Or.inl ⟨rfl, rfl⟩)
  | admitted id name =>
    obtain ⟨heeds, rfl⟩ := h
    refine transition_poll heeds (.abandon id name) (.enter id name) ?_
    intro dropped
    cases dropped with
    | true => rfl
    | false => rfl
  | entering id name =>
    obtain ⟨scope, rfl⟩ := h
    exact transition_acquireScoped id name scope
  | locked id name scope =>
    obtain rfl := h
    exact .begin id name scope
  | working id name =>
    obtain ⟨heeds, rfl⟩ := h
    rw [AppState.serve]
    split_ifs with hc
    · exact .desert id (Or.inl ⟨name, rfl⟩) hc.1
    · exact .stop id name
  | ended id =>
    rcases h with rfl | ⟨error, rfl⟩
    · exact .close id .finished
    · exact .close id (.failed error)
  | logged id =>
    obtain ⟨heeds, rfl⟩ := h
    refine transition_poll heeds (.desert id (Or.inr rfl)) (.leave id) ?_
    intro dropped
    cases dropped with
    | true => rfl
    | false => rfl
  | leaving id =>
    obtain rfl := h
    exact .remove id
  | unlocking id =>
    obtain rfl := h
    exact .unlock id
  | taken ops =>
    obtain rfl := h
    exact .cancel ops
  | marking ops =>
    obtain rfl := h
    exact .mark ops
  | dropping n =>
    obtain rfl := h
    exact .giveBack n (Or.inr rfl)

end Transitions

/-- Wherever the server has come to, its tasks follow the stages. -/
theorem server_obeys {ok : AppState → List Stage → Nat ⊕ ServerMove → Prop} {allowParallel : Bool}
    {requests : List Request} {s : ServerThreads}
    (hr : serverMachine.Reaches ok (serverStart allowParallel requests) s) :
    ∀ t ∈ s.threads, Obeys Stage.learn Stage.Permits AtRest t.mind t.rest :=
  (hr.invariant (I := fun _ _ => True) trivial (serverStart_obeys allowParallel requests)
    (fun _ _ _ _ _ _ _ _ _ _ => trivial) fun _ _ _ _ _ _ _ => trivial).2

/-- **The invariant rule of the server**, from a state that it has come to. -/
theorem server_invariant_from {ok ok' : AppState → List Stage → Nat ⊕ ServerMove → Prop}
    {I : AppState → List Stage → Prop} {allowParallel : Bool} {requests : List Request}
    {s s' : ServerThreads} (hr : serverMachine.Reaches ok (serverStart allowParallel requests) s)
    (hr' : serverMachine.Reaches ok' s s') (hI : I s.shared s.minds)
    (hstep : ∀ i l l' (ls : List Stage) s s', I s ls → ls[i]? = some l →
      serverMachine.enabled i s = true → ok' s ls (.inl i) → Transition i s l s' l' →
        I s' (ls.set i l'))
    (hmove : ∀ e ls s s', I s ls → ok' s ls (.inr e) → serverMachine.move e s ls = some s' → I s' ls) :
    I s'.shared s'.minds := by
  refine (hr'.invariant hI (server_obeys hr) ?_ hmove).1
  intro i c l ls s hI hi hP hen hok
  exact hstep i l _ ls s _ hI hi hen hok (transition_of_permits hP)

/-- **The invariant rule of the server**: what every transition and every move of the environment
keeps holds in every state reached. -/
theorem server_invariant {ok : AppState → List Stage → Nat ⊕ ServerMove → Prop}
    {I : AppState → List Stage → Prop} {allowParallel : Bool} {requests : List Request}
    {s : ServerThreads} (hr : serverMachine.Reaches ok (serverStart allowParallel requests) s)
    (hinit : I (AppState.new allowParallel) (serverStart allowParallel requests).minds)
    (hstep : ∀ i l l' (ls : List Stage) s s', I s ls → ls[i]? = some l →
      serverMachine.enabled i s = true → ok s ls (.inl i) → Transition i s l s' l' → I s' (ls.set i l'))
    (hmove : ∀ e ls s s', I s ls → ok s ls (.inr e) → serverMachine.move e s ls = some s' → I s' ls) :
    I s.shared s.minds :=
  @server_invariant_from ok ok I allowParallel requests _ s .refl hr hinit hstep hmove

end Chbackup
