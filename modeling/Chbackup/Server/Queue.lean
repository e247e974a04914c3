import Chbackup.Server.Permits

/-!
# Queued commands

`POST /backup/actions` queues the commands of a batch one after the other.  A command that has got its
permit is rejected if the registry has another operation on its backup, and the registry has the
commands that wait as well.
-/

namespace Chbackup

open CallTree Prog

/-! ## The commands of a batch -/

/-- The number and the text of a command that the task has queued. -/
def OpEvent.queuedBy (i : Nat) : OpEvent → Option (Nat × Str)
  | started task .queue id command => if task = i then some (id, command) else none
  | _ => none

/-- The commands that a task has queued. -/
def queuedBy (i : Nat) (history : List OpEvent) : List (Nat × Str) :=
  history.filterMap (OpEvent.queuedBy i)

theorem queuedBy_append (i : Nat) (history events : List OpEvent) :
    queuedBy i (history ++ events) = queuedBy i history ++ queuedBy i events :=
  List.filterMap_append

/-- The commands queued so far. -/
def learnQueued (commands : List Str) : ServerEvent → List Str
  | ⟨.logStart .queue command _, _⟩ => commands ++ [command]
  | _ => commands

/-- What a section adds to the history. -/
theorem serve_history (i : Nat) (c : ServerCall) (s : AppState) :
    (∃ kind command name, c = .logStart kind command name ∧
      (AppState.serve i c s).2.history = s.history ++ [.started i kind s.log.nextId command]) ∨
    (∀ kind command name, c ≠ .logStart kind command name) ∧
      ∃ events, (AppState.serve i c s).2.history = s.history ++ events ∧
        ∀ j, queuedBy j events = [] := by
  have hnone : ∃ events, s.history = s.history ++ events ∧ ∀ j, queuedBy j events = [] :=
    ⟨[], (List.append_nil _).symm, fun _ => rfl⟩
  cases c with
  | logStart kind command name => exact Or.inl ⟨kind, command, name, rfl, rfl⟩
  | logFinish id => exact Or.inr ⟨(fun _ _ _ h => by cases h), [_], rfl, fun _ => rfl⟩
  | logFail id error => exact Or.inr ⟨(fun _ _ _ h => by cases h), [_], rfl, fun _ => rfl⟩
  | beginBody id name => exact Or.inr ⟨(fun _ _ _ h => by cases h), [_], rfl, fun _ => rfl⟩
  | acquireScoped id scope =>
    refine Or.inr ⟨(fun _ _ _ h => by cases h), [.dispatched id], ?_, fun _ => rfl⟩
    rw [AppState.serve]
    dsimp only
    split_ifs
    · rfl
    · rfl
  | takeOps target =>
    refine Or.inr ⟨(fun _ _ _ h => by cases h), _, rfl, fun j => ?_⟩
    refine List.filterMap_eq_nil_iff.mpr fun event hevent => ?_
    obtain ⟨op, -, rfl⟩ := List.mem_map.mp hevent
    rfl
  | tryAcquire =>
    refine Or.inr ⟨(fun _ _ _ h => by cases h), ?_⟩
    rw [AppState.serve]
    split_ifs
    · exact hnone
    · exact hnone
  | insertOp id command name =>
    refine Or.inr ⟨(fun _ _ _ h => by cases h), ?_⟩
    rw [AppState.serve]
    split_ifs
    · exact hnone
    · exact hnone
  | acquire id cancelFirst =>
    refine Or.inr ⟨(fun _ _ _ h => by cases h), ?_⟩
    rw [AppState.serve]
    dsimp only
    split_ifs
    · exact hnone
    · exact hnone
  | storePermit id name =>
    refine Or.inr ⟨(fun _ _ _ h => by cases h), ?_⟩
    rw [AppState.serve]
    dsimp only
    split_ifs
    · exact hnone
    · exact hnone
    · exact hnone
    · exact hnone
  | awaitBody id heeds =>
    refine Or.inr ⟨(fun _ _ _ h => by cases h), ?_⟩
    rw [AppState.serve]
    split_ifs
    · exact hnone
    · exact hnone
  | _ => exact Or.inr ⟨(fun _ _ _ h => by cases h), hnone⟩

/-- A task learns the commands that it queues. -/
theorem queuedBy_self (i : Nat) (c : ServerCall) (s : AppState) :
    (queuedBy i (AppState.serve i c s).2.history).map Prod.snd =
      learnQueued ((queuedBy i s.history).map Prod.snd) ⟨c, (AppState.serve i c s).1⟩ := by
  rcases serve_history i c s with ⟨kind, command, name, rfl, h⟩ | ⟨hne, events, h, hnone⟩
  · rw [h, queuedBy_append, List.map_append]
    cases kind with
    | «try» => exact List.append_nil _
    | queue =>
      have hself : queuedBy i [.started i .queue s.log.nextId command] = [(s.log.nextId, command)] := by
        simp [queuedBy, OpEvent.queuedBy]
      rw [hself]
      rfl
  · rw [h, queuedBy_append, hnone, List.append_nil]
    cases c with
    | logStart kind command name => exact absurd rfl (hne kind command name)
    | _ => rfl

/-- Nobody else queues the commands of a task. -/
theorem queuedBy_other {i j : Nat} (hne : j ≠ i) (c : ServerCall) (s : AppState) :
    queuedBy j (AppState.serve i c s).2.history = queuedBy j s.history := by
  rcases serve_history i c s with ⟨kind, command, name, rfl, h⟩ | ⟨-, events, h, hnone⟩
  · have hother : queuedBy j [.started i kind s.log.nextId command] = [] := by
      cases kind with
      | «try» => rfl
      | queue => simp [queuedBy, OpEvent.queuedBy, Ne.symm hne]
    rw [h, queuedBy_append, hother, List.append_nil]
  · rw [h, queuedBy_append, hnone, List.append_nil]

/-- The task ends without an error, and these commands are queued. -/
def QueuedAll (all commands : List Str) (r : Except Str Unit) : Prop := commands = all ∧ r = .ok ()

section Commands

variable {before : List Str} {name : Option Str} {command : Str} {id : Nat}

theorem queues_queueStartOp {cancelFirst : Bool} :
    Obeys learnQueued (fun _ _ => True) (fun commands _ => commands = before ++ [command]) before
      (queueStartOp command name cancelFirst) := by
  refine obeys_perform trivial fun (id : Nat) => ?_
  refine obeys_perform trivial fun _ => ?_
  refine obeys_perform trivial fun (permit : Bool) => ?_
  cases permit with
  | false => exact obeys_perform trivial fun _ => rfl
  | true =>
    refine obeys_perform trivial fun (reply : StoreReply) => ?_
    cases reply with
    | stored => exact rfl
    | killed => exact obeys_perform trivial fun _ => rfl
    | conflict => exact obeys_perform trivial fun _ => obeys_perform trivial fun _ => rfl

theorem queues_removeOp {heeds : Bool} :
    Obeys learnQueued (fun _ _ => True) (QueuedAll before) before
      ((perform (.poll id heeds)).bind fun (dropped : Bool) =>
        if dropped then .ret () else (perform (.removeOp id)).bind fun _ => .ret ()) := by
  refine obeys_perform trivial fun (dropped : Bool) => ?_
  cases dropped with
  | true => exact ⟨rfl, rfl⟩
  | false => exact obeys_perform trivial fun _ => ⟨rfl, rfl⟩

theorem queues_runBody {body : BodyChoice} :
    Obeys learnQueued (fun _ _ => True) (QueuedAll before) before (runBody id name body) := by
  refine obeys_perform trivial fun _ => ?_
  refine obeys_perform trivial fun (killed : Bool) => ?_
  cases killed with
  | true => exact ⟨rfl, rfl⟩
  | false =>
    cases body.outcome with
    | ok _ => exact obeys_perform trivial fun _ => queues_removeOp
    | error e => exact obeys_perform trivial fun _ => queues_removeOp

theorem queues_dropLock {p : ServerProg Unit}
    (hp : Obeys learnQueued (fun _ _ => True) (QueuedAll before) before p) :
    Obeys learnQueued (fun _ _ => True) (QueuedAll before) before
      (p.bind fun _ => (perform (.dropLock id)).bind fun _ => .ret ()) := by
  refine hp.bind (fun commands r hr => ?_) fun commands e he => ?_
  · obtain ⟨rfl, -⟩ := hr
    exact obeys_perform trivial fun _ => ⟨rfl, rfl⟩
  · cases he.2

theorem queues_operate {scope : LockScope} {body : BodyChoice} :
    Obeys learnQueued (fun _ _ => True) (QueuedAll before) before (operate id name scope body) := by
  refine obeys_perform trivial fun (dropped : Bool) => ?_
  cases dropped with
  | true => exact ⟨rfl, rfl⟩
  | false =>
    refine obeys_perform trivial fun (free : Bool) => ?_
    cases free with
    | true => exact queues_dropLock queues_runBody
    | false => exact queues_dropLock (obeys_perform trivial fun _ => queues_removeOp)

/-- One command of a batch is queued once, whatever becomes of it. -/
theorem queues_runQueued (c : QueuedCommand) :
    Obeys learnQueued (fun _ _ => True) (QueuedAll (before ++ [c.command])) before (runQueued c) := by
  refine queues_queueStartOp.attempt.bind (fun commands r hr => ?_) fun commands e he => ?_
  · obtain ⟨x, hx, hcommands⟩ := hr
    cases hx
    cases r with
    | ok id =>
      rw [← hcommands]
      exact queues_operate
    | error e => exact ⟨hcommands, rfl⟩
  · obtain ⟨x, hx, -⟩ := he
    cases hx

/-- A batch queues its commands. -/
theorem queues_batch (cs : List QueuedCommand) :
    Obeys learnQueued (fun _ _ => True)
      (fun commands (_ : Except Str (List Unit)) => commands = before ++ cs.map QueuedCommand.command)
      before (forEach cs runQueued) := by
  induction cs generalizing before with
  | nil => exact (List.append_nil _).symm
  | cons c cs ih =>
    refine (queues_runQueued c).bind (fun commands r hr => ?_) fun commands e he => ?_
    · obtain ⟨rfl, -⟩ := hr
      refine ih.bind (fun commands r hr => ?_) fun commands e he => ?_
      · change commands = _
        rw [hr, List.append_assoc]
        rfl
      · rw [he, List.append_assoc]
        rfl
    · cases he.2

end Commands

/-- A task that has ended has queued the commands of its batch. -/
def QueuesBatch (requests : List Request) (i : Nat) (commands : List Str) (_ : Except Str Unit) :
    Prop :=
  ∀ cs, requests[i]? = some (.batch cs) → commands = cs.map QueuedCommand.command

theorem queues_task (requests : List Request) {i : Nat} {r : Request} (hr : requests[i]? = some r) :
    Obeys learnQueued (fun _ _ => True) (QueuesBatch requests i) [] r.task := by
  cases r with
  | batch cs =>
    have hqueued : ∀ commands (r : Except Str Unit), commands = cs.map QueuedCommand.command →
        QueuesBatch requests i commands r := by
      intro commands r hcommands cs' hcs'
      rw [hr] at hcs'
      cases hcs'
      exact hcommands
    refine (queues_batch cs).bind (fun commands _ h => ?_) fun commands e h => ?_
    · exact hqueued commands _ h
    · exact hqueued commands _ h
  | operation command name body =>
    refine (obeys_true _).imp fun commands _ _ cs hcs => ?_
    rw [hr] at hcs
    cases hcs
  | kill target =>
    refine (obeys_true _).imp fun commands _ _ cs hcs => ?_
    rw [hr] at hcs
    cases hcs

/-- **Every command of a batch has been queued once its task is at the end.** -/
theorem batch_queued {ok : AppState → List Stage → Nat ⊕ ServerMove → Prop} {allowParallel : Bool}
    {requests : List Request} {s : ServerThreads}
    (hr : serverMachine.Reaches ok (serverStart allowParallel requests) s) :
    ∀ i t, s.threads[i]? = some t → Obeys learnQueued (fun _ _ => True) (QueuesBatch requests i)
      ((queuedBy i s.shared.history).map Prod.snd) t.rest := by
  intro i
  refine hr.follow (J := fun _ _ => True) (D := fun _ _ _ => True) (E := fun _ _ _ => True)
    (v := fun s => (queuedBy i s.history).map Prod.snd) (fun _ _ => ⟨trivial, fun _ _ _ => obeys_true _⟩)
    ?_ ?_ ?_ ?_
  · intro c _ _ s _ _ _ _
    exact queuedBy_self i c s
  · intro j c _ _ s hne _ _ _
    exact congrArg (List.map Prod.snd) (queuedBy_other (Ne.symm hne) c s)
  · intro e ls s s' h
    obtain ⟨now, active, others, rfl⟩ := move_cases h
    rfl
  · intro t hi
    rw [serverStart, List.getElem?_map] at hi
    obtain ⟨r, hr, rfl⟩ := Option.map_eq_some_iff.mp hi
    exact queues_task requests hr

/-! ## Dispatching -/

/-- The event is the end of an operation. -/
def OpEvent.isEnd : OpEvent → Bool
  | finished _ => true
  | failed _ _ => true
  | killed _ => true
  | _ => false

theorem queuedBy_ends {events : List OpEvent} (h : ∀ event ∈ events, event.isEnd = true) (j : Nat) :
    queuedBy j events = [] := by
  refine List.filterMap_eq_nil_iff.mpr fun event hevent => ?_
  have hend := h event hevent
  cases event with
  | started task kind id command => cases hend
  | _ => rfl

/-- The operation of the task, if its block has not been run. -/
def Stage.undispatched : Stage → Option Nat
  | begun _ id _ => some id
  | queued id _ => some id
  | granted id _ => some id
  | admitted id _ => some id
  | entering id _ => some id
  | _ => none

/-- The queued command that the task will dispatch. -/
def Stage.pending : Stage → Option Nat
  | begun .queue id _ => some id
  | queued id _ => some id
  | granted id _ => some id
  | admitted id _ => some id
  | entering id _ => some id
  | _ => none

theorem Stage.undispatched_of_pending {l : Stage} {a : Nat} (h : l.pending = some a) :
    l.undispatched = some a := by
  cases l with
  | begun kind id name =>
    cases kind with
    | «try» => cases h
    | queue => exact h
  | _ => exact h

theorem Stage.own_of_undispatched {l : Stage} {a : Nat} (h : l.undispatched = some a) :
    l.own = some a := by
  cases l <;> cases h <;> rfl

/-- The operation is in the way of the task, which is about to store its permit: that of the task is
registered under the same name, and was not killed. -/
def Stage.blockedBy (s : AppState) (op : RunningOp) : Stage → Bool
  | granted id name =>
    (s.ops.any fun own => own.id = id) && id ∉ s.cancelled && name.isSome && op.id ≠ id &&
      op.backupName = name
  | _ => false

theorem Stage.blockedBy_granted {s : AppState} {op : RunningOp} {id : Nat} {name : Option Str} :
    Stage.blockedBy s op (.granted id name) = true ↔
      (∃ own ∈ s.ops, own.id = id) ∧ id ∉ s.cancelled ∧ name.isSome = true ∧ op.id ≠ id ∧
        op.backupName = name := by
  simp only [Stage.blockedBy, Bool.and_eq_true, List.any_eq_true, decide_eq_true_eq, and_assoc]

namespace Transition

variable {i : Nat} {s s' : AppState} {l l' : Stage}

/-- What a transition adds to the history. -/
theorem history_cases (h : Transition i s l s' l') :
    (∃ kind command name, s'.history = s.history ++ [.started i kind s.log.nextId command] ∧
      l' = .begun kind s.log.nextId name ∧ s'.log.nextId = s.log.nextId + 1) ∨
    (∃ a name, s'.history = s.history ++ [.dispatched a] ∧ l = .entering a name) ∨
    (∃ a name scope, s'.history = s.history ++ [.begun a] ∧ l = .locked a name scope) ∨
    ∃ events, s'.history = s.history ++ events ∧ ∀ event ∈ events, event.isEnd = true := by
  have hone : ∀ event : OpEvent, event.isEnd = true → ∀ event' ∈ [event], event'.isEnd = true :=
    fun event h event' hevent => by rw [List.mem_singleton.mp hevent, h]
  cases h with
  | start kind command name hl => exact Or.inl ⟨kind, command, name, rfl, rfl, rfl⟩
  | lock id name scope h => exact Or.inr (Or.inl ⟨id, name, rfl, rfl⟩)
  | bar id name scope h => exact Or.inr (Or.inl ⟨id, name, rfl, rfl⟩)
  | begin id name scope => exact Or.inr (Or.inr (Or.inl ⟨id, name, scope, rfl, rfl⟩))
  | refuse id error => exact Or.inr (Or.inr (Or.inr ⟨[_], rfl, hone _ rfl⟩))
  | close id h =>
    cases h with
    | finished => exact Or.inr (Or.inr (Or.inr ⟨[_], rfl, hone _ rfl⟩))
    | failed error => exact Or.inr (Or.inr (Or.inr ⟨[_], rfl, hone _ rfl⟩))
  | take hit h =>
    refine Or.inr (Or.inr (Or.inr ⟨_, rfl, fun event hevent => ?_⟩))
    obtain ⟨op, -, rfl⟩ := List.mem_map.mp hevent
    rfl
  | _ => exact Or.inr (Or.inr (Or.inr ⟨[], (List.append_nil _).symm, fun _ h => by cases h⟩))

/-- An event of the history was there before, or the transition has added it. -/
theorem added_cases (h : Transition i s l s' l') {event : OpEvent} (hevent : event ∈ s'.history) :
    event ∈ s.history ∨
      (∃ kind command, event = .started i kind s.log.nextId command ∧ s'.log.nextId = s.log.nextId + 1) ∨
      (∃ a, event = .dispatched a) ∨ (∃ a name scope, event = .begun a ∧ l = .locked a name scope) ∨
      event.isEnd = true := by
  rcases h.history_cases with ⟨kind, command, name, hist, -, hnext⟩ | ⟨a, name, hist, -⟩ |
    ⟨a, name, scope, hist, hl⟩ | ⟨events, hist, hends⟩
  · rw [hist, List.mem_append, List.mem_singleton] at hevent
    exact hevent.imp_right fun heq => Or.inl ⟨kind, command, heq, hnext⟩
  · rw [hist, List.mem_append, List.mem_singleton] at hevent
    exact hevent.imp_right fun heq => Or.inr (Or.inl ⟨a, heq⟩)
  · rw [hist, List.mem_append, List.mem_singleton] at hevent
    exact hevent.imp_right fun heq => Or.inr (Or.inr (Or.inl ⟨a, name, scope, heq, hl⟩))
  · rw [hist, List.mem_append] at hevent
    exact hevent.imp_right fun hmem => Or.inr (Or.inr (Or.inr (hends _ hmem)))

/-- A task queues a command when it logs its start. -/
theorem queued_cases (h : Transition i s l s' l') (j : Nat) :
    queuedBy j s'.history = queuedBy j s.history ∨
      ∃ command name, queuedBy j s'.history = queuedBy j s.history ++ [(s.log.nextId, command)] ∧
        l' = .begun .queue s.log.nextId name ∧ s'.log.nextId = s.log.nextId + 1 := by
  rcases h.history_cases with ⟨kind, command, name, hist, hl, hnext⟩ | ⟨a, name, hist, -⟩ |
    ⟨a, name, scope, hist, -⟩ | ⟨events, hist, hends⟩
  · rw [hist, queuedBy_append]
    cases kind with
    | «try» => exact Or.inl (List.append_nil _)
    | queue =>
      by_cases hj : i = j
      · refine Or.inr ⟨command, name, ?_, hl, hnext⟩
        simp [queuedBy, OpEvent.queuedBy, hj]
      · refine Or.inl ?_
        simp [queuedBy, OpEvent.queuedBy, hj]
  · rw [hist, queuedBy_append]
    exact Or.inl (List.append_nil _)
  · rw [hist, queuedBy_append]
    exact Or.inl (List.append_nil _)
  · rw [hist, queuedBy_append, queuedBy_ends hends, List.append_nil]
    exact Or.inl rfl

/-- A block is run in the section of its task. -/
theorem count_cases (h : Transition i s l s' l') (a : Nat) :
    s'.history.count (.dispatched a) = s.history.count (.dispatched a) ∨
      (∃ name, l = .entering a name) ∧
        s'.history.count (.dispatched a) = s.history.count (.dispatched a) + 1 := by
  rcases h.history_cases with ⟨kind, command, name, hist, -⟩ | ⟨b, name, hist, hl⟩ |
    ⟨b, name, scope, hist, -⟩ | ⟨events, hist, hends⟩
  · rw [hist, List.count_append]
    exact Or.inl rfl
  · rw [hist, List.count_append]
    by_cases hb : b = a
    · subst hb
      exact Or.inr ⟨⟨name, hl⟩, by rw [List.count_singleton_self]⟩
    · have hzero : [OpEvent.dispatched b].count (.dispatched a) = 0 :=
        List.count_eq_zero_of_not_mem (by simpa using Ne.symm hb)
      rw [hzero]
      exact Or.inl rfl
  · rw [hist, List.count_append]
    exact Or.inl rfl
  · have hzero : events.count (.dispatched a) = 0 :=
      List.count_eq_zero_of_not_mem fun ha => by cases hends _ ha
    rw [hist, List.count_append, hzero]
    exact Or.inl rfl

/-- An operation whose block has not been run is new, or its block had not been run before. -/
theorem undispatched_cases (h : Transition i s l s' l') {a : Nat} (ha : l'.undispatched = some a) :
    a = s.log.nextId ∨ l.undispatched = some a ∧ ∀ name, l ≠ .entering a name := by
  cases h with
  | start kind command name hl =>
    cases ha
    exact Or.inl rfl
  | insert id command name h => exact Or.inr ⟨ha, fun _ hl => by cases hl⟩
  | enqueue id command name => exact Or.inr ⟨ha, fun _ hl => by cases hl⟩
  | grant id name h => exact Or.inr ⟨ha, fun _ hl => by cases hl⟩
  | store id name hin hlive h => exact Or.inr ⟨ha, fun _ hl => by cases hl⟩
  | enter id name => exact Or.inr ⟨ha, fun _ hl => by cases hl⟩
  | _ => cases ha

/-- A queued command stays, is dispatched, or is lost: its token is cancelled, it is not in the
registry, or another operation is in its way. -/
theorem pending_cases (h : Transition i s l s' l') {a : Nat} (ha : l.pending = some a) :
    l'.pending = some a ∨ s'.history = s.history ++ [.dispatched a] ∨ a ∈ s.cancelled ∨
      ∃ name, l = .granted a name ∧
        ((∀ op ∈ s.ops, op.id ≠ a) ∨ ∃ op ∈ s.ops, l.blockedBy s op = true) := by
  cases h with
  | enqueue id command name => exact Or.inl ha
  | grant id name h => exact Or.inl ha
  | store id name hin hlive h => exact Or.inl ha
  | enter id name => exact Or.inl ha
  | lock id name scope h =>
    cases ha
    exact Or.inr (Or.inl rfl)
  | bar id name scope h =>
    cases ha
    exact Or.inr (Or.inl rfl)
  | unlist id name h =>
    cases ha
    exact Or.inr (Or.inr (Or.inl h))
  | halt id name h =>
    cases ha
    exact Or.inr (Or.inr (Or.inl h))
  | lost id name h =>
    cases ha
    exact Or.inr (Or.inr (Or.inr ⟨name, rfl, Or.inl h⟩))
  | reject id name hin hlive h =>
    cases ha
    obtain ⟨op, hop, hid, hsome, hname⟩ := h
    refine Or.inr (Or.inr (Or.inr ⟨name, rfl, Or.inr ⟨op, hop, ?_⟩⟩))
    rw [Stage.blockedBy_granted]
    exact ⟨hin, hlive, hsome, hid, hname⟩
  | abandon id name h =>
    cases ha
    exact Or.inr (Or.inr (Or.inl h))
  | desert id hl h =>
    rcases hl with ⟨name, rfl⟩ | rfl
    · cases ha
    · cases ha
  | start kind command name hl =>
    subst hl
    cases kind with
    | «try» => cases ha
    | queue => cases ha
  | giveBack n hl =>
    rcases hl with ⟨rfl, -⟩ | rfl
    · cases ha
    · cases ha
  | _ => cases ha

end Transition

/-- Commands are dispatched once at most, and a queued command is dispatched, killed or pending. -/
structure Dispatches (s : AppState) (ls : List Stage) : Prop where
  dispatchedFresh : ∀ a : Nat, .dispatched a ∈ s.history → a < s.log.nextId
  queuedFresh : ∀ (j : Nat), ∀ x ∈ queuedBy j s.history, x.1 < s.log.nextId
  queuedNodup : ∀ j : Nat, ((queuedBy j s.history).map Prod.fst).Nodup
  undispatched : ∀ (j : Nat) (l : Stage) (a : Nat), ls[j]? = some l → l.undispatched = some a →
    .dispatched a ∉ s.history
  tracked : ∀ (j : Nat), ∀ x ∈ queuedBy j s.history, .killed x.1 ∈ s.history ∨
    s.history.count (.dispatched x.1) = 1 ∨
      ∃ (k : Nat) (l : Stage), ls[k]? = some l ∧ l.pending = some x.1

/-- An operation is in the way of a command only if one with a permit is. -/
def OnlyHeldBlock (s : AppState) (ls : List Stage) : Nat ⊕ ServerMove → Prop
  | .inl i => ∀ op ∈ s.ops, ls[i]?.any (Stage.blockedBy s op) = true →
      ∃ op' ∈ s.ops, ls[i]?.any (Stage.blockedBy s op') = true ∧ op'.hasPermit = true
  | .inr _ => True

instance onlyHeldBlockDecidable (s : AppState) (ls : List Stage) :
    (a : Nat ⊕ ServerMove) → Decidable (OnlyHeldBlock s ls a)
  | .inl i => inferInstanceAs (Decidable (∀ op ∈ s.ops, ls[i]?.any (Stage.blockedBy s op) = true →
      ∃ op' ∈ s.ops, ls[i]?.any (Stage.blockedBy s op') = true ∧ op'.hasPermit = true))
  | .inr _ => isTrue trivial

section Dispatches

variable {i : Nat} {s s' : AppState} {l l' : Stage} {ls : List Stage}

/-- In a serial server nothing is in the way of a command that has the permit. -/
theorem not_blocked (hB : Budget 1 s ls) (hok : OnlyHeldBlock s ls (.inl i)) {a : Nat}
    {name : Option Str} (hi : ls[i]? = some (.granted a name)) :
    ∀ op ∈ s.ops, Stage.blockedBy s op (.granted a name) = false := by
  intro op hop
  cases hblocked : Stage.blockedBy s op (.granted a name) with
  | false => rfl
  | true =>
    obtain ⟨op', hop', -, hpermit⟩ := hok op hop (by rw [hi]; exact hblocked)
    obtain ⟨k, -, hsum⟩ := hB
    have hheld : 0 < s.ops.countP RunningOp.hasPermit := List.countP_pos_iff.mpr ⟨op', hop', hpermit⟩
    have hhand := sum_map_set Stage.inHand hi .idle
    change _ + 1 = _ + 0 at hhand
    omega

theorem Dispatches.queuedFresh_step (hD : Dispatches s ls) (h : Transition i s l s' l') (j : Nat) :
    ∀ x ∈ queuedBy j s'.history, x.1 < s'.log.nextId := by
  have hle := Identities.nextId_le h
  intro x hx
  rcases h.queued_cases j with hsame | ⟨command, name, hnew, -, hnext⟩
  · rw [hsame] at hx
    exact Nat.lt_of_lt_of_le (hD.queuedFresh j x hx) hle
  · rw [hnew, List.mem_append, List.mem_singleton] at hx
    rcases hx with hx | rfl
    · exact Nat.lt_of_lt_of_le (hD.queuedFresh j x hx) hle
    · rw [hnext]
      exact Nat.lt_succ_self _

theorem Dispatches.queuedNodup_step (hD : Dispatches s ls) (h : Transition i s l s' l') (j : Nat) :
    ((queuedBy j s'.history).map Prod.fst).Nodup := by
  rcases h.queued_cases j with hsame | ⟨command, name, hnew, -⟩
  · rw [hsame]
    exact hD.queuedNodup j
  · rw [hnew, List.map_append]
    refine (hD.queuedNodup j).append (List.nodup_singleton _) fun a ha ha' => ?_
    obtain ⟨x, hx, rfl⟩ := List.mem_map.mp ha
    have hlt := hD.queuedFresh j x hx
    rw [List.mem_singleton.mp ha'] at hlt
    exact Nat.lt_irrefl _ hlt

/-- A queued command is dispatched, killed or pending, as long as nothing but permits is in the way of
commands. -/
theorem Dispatches.tracked_step (hG : Registry s ls) (hB : Budget 1 s ls) (hD : Dispatches s ls)
    (hi : ls[i]? = some l) (hok : OnlyHeldBlock s ls (.inl i)) (h : Transition i s l s' l') (j : Nat) :
    ∀ x ∈ queuedBy j s'.history, .killed x.1 ∈ s'.history ∨
      s'.history.count (.dispatched x.1) = 1 ∨
        ∃ (k : Nat) (m : Stage), (ls.set i l')[k]? = some m ∧ m.pending = some x.1 := by
  have hself : (ls.set i l')[i]? = some l' :=
    List.getElem?_set_self (List.getElem?_eq_some_iff.mp hi).1
  have hold : ∀ x ∈ queuedBy j s.history, .killed x.1 ∈ s'.history ∨
      s'.history.count (.dispatched x.1) = 1 ∨
        ∃ (k : Nat) (m : Stage), (ls.set i l')[k]? = some m ∧ m.pending = some x.1 := by
    intro x hx
    rcases hD.tracked j x hx with hkilled | hcount | ⟨k, m, hk, hm⟩
    · exact Or.inl (h.history_prefix.subset hkilled)
    · rcases h.count_cases x.1 with hsame | ⟨⟨name, rfl⟩, -⟩
      · exact Or.inr (Or.inl (hsame.trans hcount))
      · have hnot := hD.undispatched i _ x.1 hi rfl
        rw [← List.count_eq_zero] at hnot
        omega
    · by_cases hne : k = i
      · subst hne
        obtain rfl : l = m := Option.some.inj (hi.symm.trans hk)
        rcases h.pending_cases hm with hpending | hist | hcancelled | ⟨name, rfl, hlost⟩
        · exact Or.inr (Or.inr ⟨k, l', hself, hpending⟩)
        · have hnot := hD.undispatched k l x.1 hk (Stage.undispatched_of_pending hm)
          rw [← List.count_eq_zero] at hnot
          refine Or.inr (Or.inl ?_)
          rw [hist, List.count_append, hnot, List.count_singleton_self]
        · exact Or.inl (h.history_prefix.subset (hG.kills.cancelled _ hcancelled))
        · rcases hlost with hgone | ⟨op, hop, hblocked⟩
          · rcases hG.registered k _ x.1 name false hk rfl with hkilled | ⟨op, hop, hid, -⟩
            · exact Or.inl (h.history_prefix.subset hkilled)
            · exact absurd hid (hgone op hop)
          · rw [not_blocked hB hok hi op hop] at hblocked
            cases hblocked
      · refine Or.inr (Or.inr ⟨k, m, ?_, hm⟩)
        rw [List.getElem?_set_ne (Ne.symm hne), hk]
  intro x hx
  rcases h.queued_cases j with hsame | ⟨command, name, hnew, rfl, -⟩
  · rw [hsame] at hx
    exact hold x hx
  · rw [hnew, List.mem_append, List.mem_singleton] at hx
    rcases hx with hx | rfl
    · exact hold x hx
    · exact Or.inr (Or.inr ⟨i, _, hself, rfl⟩)

theorem Dispatches.step (hG : Registry s ls) (hB : Budget 1 s ls) (hD : Dispatches s ls)
    (hi : ls[i]? = some l) (hok : OnlyHeldBlock s ls (.inl i)) (h : Transition i s l s' l') :
    Dispatches s' (ls.set i l') where
  dispatchedFresh a ha := by
    refine Nat.lt_of_lt_of_le ?_ (Identities.nextId_le h)
    rcases h.count_cases a with hsame | ⟨⟨name, rfl⟩, -⟩
    · refine hD.dispatchedFresh a ?_
      rw [← List.count_pos_iff] at ha ⊢
      omega
    · exact hG.identities.owned i _ a hi rfl
  queuedFresh j := hD.queuedFresh_step h j
  queuedNodup j := hD.queuedNodup_step h j
  undispatched j m a hj hm ha := by
    have hbefore : .dispatched a ∈ s.history ∨ ∃ name, l = .entering a name := by
      rcases h.count_cases a with hsame | ⟨hl, -⟩
      · rw [← List.count_pos_iff] at ha ⊢
        exact Or.inl (by omega)
      · exact Or.inr hl
    rcases getElem?_set_cases hj with ⟨rfl, rfl⟩ | ⟨hne, hj⟩
    · rcases h.undispatched_cases hm with rfl | ⟨hl, hnot⟩
      · rcases hbefore with hbefore | ⟨name, rfl⟩
        · exact absurd (hD.dispatchedFresh _ hbefore) (Nat.lt_irrefl _)
        · exact absurd (hG.identities.owned j _ _ hi rfl) (Nat.lt_irrefl _)
      · rcases hbefore with hbefore | ⟨name, hl'⟩
        · exact hD.undispatched j l a hi hl hbefore
        · exact hnot name hl'
    · rcases hbefore with hbefore | ⟨name, rfl⟩
      · exact hD.undispatched j m a hj hm hbefore
      · exact hne (hG.identities.single j i m _ a hj hi (Stage.own_of_undispatched hm) rfl)
  tracked j := hD.tracked_step hG hB hi hok h j

end Dispatches

/-! ## Runs -/

theorem Dispatches.initial (requests : List Request) :
    Dispatches (AppState.new false) (serverStart false requests).minds where
  dispatchedFresh _ ha := absurd ha List.not_mem_nil
  queuedFresh _ _ hx := absurd hx List.not_mem_nil
  queuedNodup _ := List.nodup_nil
  undispatched _ _ _ _ _ := List.not_mem_nil
  tracked _ _ hx := absurd hx List.not_mem_nil

/-- The state of a serial server. -/
theorem dispatches_of_reaches {requests : List Request} {s : ServerThreads}
    (hr : serverMachine.Reaches OnlyHeldBlock (serverStart false requests) s) :
    Dispatches s.shared s.minds := by
  refine (server_invariant (I := fun s ls => Registry s ls ∧ Budget 1 s ls ∧ Dispatches s ls) hr
    ⟨.initial _ _, Budget.initial _, .initial _⟩ ?_ ?_).2.2
  · rintro i l l' ls s s' ⟨hG, hB, hD⟩ hi hen hok h
    refine ⟨hG.step hi h, ?_, hD.step hG hB hi hok h⟩
    exact hB.step hG.identities hG.kills hG.registered hG.queued hi hen h
  · rintro e ls s s' ⟨hG, hB, hD⟩ - h
    refine ⟨hG.move h, ?_⟩
    obtain ⟨now, active, others, rfl⟩ := move_cases h
    exact ⟨hB, hD.dispatchedFresh, hD.queuedFresh, hD.queuedNodup, hD.undispatched, hD.tracked⟩

/-- The task rejects its command because of another operation on the backup, and one of these has a
permit. -/
def RejectsForHeld (i : Nat) (s s' : ServerThreads) : Prop :=
  ∀ id name, s.minds[i]? = some (.granted id name) → s'.minds[i]? = some (.refused id) →
    ∃ op ∈ s.shared.ops, op.id ≠ id ∧ op.backupName = name ∧ op.hasPermit = true

/-- The run has come to its end with no task waiting. -/
def Ended (s : ServerThreads) : Prop :=
  s.shared.waiting = [] ∧ ∀ i, serverMachine.step (.inl i) s = none

/-- The commands of the batches were queued in their order, and each was dispatched once unless it
was killed. -/
def AllDispatched (requests : List Request) (s : ServerThreads) : Prop :=
  ∀ (i : Nat) (cs : List QueuedCommand), requests[i]? = some (.batch cs) →
    (queuedBy i s.shared.history).map Prod.snd = cs.map QueuedCommand.command ∧
      ((queuedBy i s.shared.history).map Prod.fst).Nodup ∧
        ∀ x ∈ queuedBy i s.shared.history,
          .killed x.1 ∈ s.shared.history ∨ s.shared.history.count (.dispatched x.1) = 1

/-- A step of a task is a transition. -/
theorem transition_of_step {ok : AppState → List Stage → Nat ⊕ ServerMove → Prop}
    {allowParallel : Bool} {requests : List Request} {s s' : ServerThreads} {i : Nat}
    (hr : serverMachine.Reaches ok (serverStart allowParallel requests) s)
    (hs : serverMachine.step (.inl i) s = some s') :
    ∃ l l', s.minds[i]? = some l ∧ s'.minds[i]? = some l' ∧ Transition i s.shared l s'.shared l' := by
  obtain ⟨l, c, k, hi, -, rfl⟩ := Machine.step_inl_eq_some hs
  have hobeys := server_obeys hr _ (List.mem_of_getElem? hi)
  refine ⟨l, _, ?_, ?_, transition_of_permits hobeys.1⟩
  · rw [Threads.minds, List.getElem?_map, hi]
    rfl
  · have hlt := (List.getElem?_eq_some_iff.mp hi).1
    rw [Threads.minds, List.getElem?_map, List.getElem?_set_self hlt]
    rfl

/-- At the end every task is idle. -/
theorem Ended.idle {ok : AppState → List Stage → Nat ⊕ ServerMove → Prop} {allowParallel : Bool}
    {requests : List Request} {s : ServerThreads}
    (hr : serverMachine.Reaches ok (serverStart allowParallel requests) s) (hend : Ended s) {i : Nat}
    {t : Thread ServerCall ServerCall.Reply Stage Str Unit} (hi : s.threads[i]? = some t) :
    t.mind = .idle ∧ ∀ c k, t.rest ≠ .call c k := by
  have hobeys := server_obeys hr t (List.mem_of_getElem? hi)
  obtain ⟨l, rest⟩ := t
  cases rest with
  | ret a => exact ⟨hobeys, fun _ _ h => by cases h⟩
  | fail e => exact ⟨hobeys, fun _ _ h => by cases h⟩
  | call c k =>
    have hstep := hend.2 i
    have hen : serverMachine.enabled i s.shared = true := by
      change s.shared.waiting.all _ = true
      rw [hend.1]
      rfl
    rw [Machine.step, hi] at hstep
    dsimp only at hstep
    rw [if_pos hen] at hstep
    cases hstep

/-- **Queued commands are not lost** in a run in which commands are in each other's way only beside
an operation with a permit. -/
theorem queued_commands_not_lost {allowParallel : Bool} {requests : List Request} {s : ServerThreads}
    (hr : serverMachine.Reaches OnlyHeldBlock (serverStart allowParallel requests) s) :
    (∀ i s', OnlyHeldBlock s.shared s.minds (.inl i) → serverMachine.step (.inl i) s = some s' →
      RejectsForHeld i s s') ∧
    (allowParallel = false → Ended s → AllDispatched requests s) := by
  constructor
  · intro i s' hok hs id name hgranted hrefused
    obtain ⟨l, l', hl, hl', h⟩ := transition_of_step hr hs
    obtain rfl : l = .granted id name := Option.some.inj (hl.symm.trans hgranted)
    obtain rfl : l' = .refused id := Option.some.inj (hl'.symm.trans hrefused)
    generalize s'.shared = shared at h
    cases h with
    | reject id name hin hlive h =>
      obtain ⟨op, hop, hid, hsome, hname⟩ := h
      obtain ⟨op', hop', hblocked, hpermit⟩ := hok op hop (by
        rw [hgranted]
        exact Stage.blockedBy_granted.mpr ⟨hin, hlive, hsome, hid, hname⟩)
      rw [hgranted] at hblocked
      obtain ⟨-, -, -, hid', hname'⟩ := Stage.blockedBy_granted.mp hblocked
      exact ⟨op', hop', hid', hname', hpermit⟩
  · rintro rfl hend i cs hcs
    have hD := dispatches_of_reaches hr
    refine ⟨?_, hD.queuedNodup i, fun x hx => ?_⟩
    · have hlt : i < s.threads.length := by
        rw [hr.length_eq, serverStart, List.length_map]
        exact (List.getElem?_eq_some_iff.mp hcs).1
      have hi : s.threads[i]? = some s.threads[i] := List.getElem?_eq_getElem hlt
      have hqueued := batch_queued hr i _ hi
      have hdone := (hend.idle hr hi).2
      cases hrest : s.threads[i].rest with
      | ret a =>
        rw [hrest] at hqueued
        exact hqueued cs hcs
      | fail e =>
        rw [hrest] at hqueued
        exact hqueued cs hcs
      | call c k => exact absurd hrest (hdone c k)
    · rcases hD.tracked i x hx with hkilled | hcount | ⟨k, m, hk, hm⟩
      · exact Or.inl hkilled
      · exact Or.inr hcount
      · rw [Threads.minds, List.getElem?_map] at hk
        obtain ⟨t, ht, rfl⟩ := Option.map_eq_some_iff.mp hk
        rw [(hend.idle hr ht).1] at hm
        cases hm

/-- A command on a backup. -/
def onBackup (op name : Str) : QueuedCommand :=
  ⟨op ++ " " ++ name, op, name, some name, false, undisturbed⟩

/-- Two batches on two backups: the second waits for the first. -/
theorem two_batches_dispatched :
    ∃ s, serverMachine.Reaches OnlyHeldBlock
        (serverStart false [.batch [onBackup "upload" "a"], .batch [onBackup "upload" "b"]]) s ∧
      s.shared.history.length = 8 ∧
      AllDispatched [.batch [onBackup "upload" "a"], .batch [onBackup "upload" "b"]] s := by
  have hrun : ((serverMachine.runWhere OnlyHeldBlock
      ([0, 0, 1, 1, 0, 0, 0, 0, 0, 0, 0, 0, 0, 0, 1, 1, 1, 1, 1, 1, 1, 1, 1, 1].map .inl)
      (serverStart false [.batch [onBackup "upload" "a"], .batch [onBackup "upload" "b"]])).map
        fun s => (s.shared.history.length, s.shared.waiting, s.threads.all Thread.ended)) =
      some (8, [], true) := by
    decide +kernel
  obtain ⟨s, hs, heq⟩ := Option.map_eq_some_iff.mp hrun
  obtain ⟨hlength, hwaiting, hended⟩ : _ ∧ _ ∧ _ := by simpa only [Prod.mk.injEq] using heq
  have hr := Machine.reaches_of_runWhere .refl hs
  have hend : Ended s := ⟨hwaiting, fun i => Machine.step_eq_none_of_ended hended i⟩
  exact ⟨s, hr, hlength, (queued_commands_not_lost hr).2 rfl hend⟩

/-- **Two batches for one backup**: the command of the first batch gets the permit while the command
of the second waits, and is rejected although nobody has a permit. -/
theorem waiting_command_blocks :
    ¬∀ allowParallel requests (s : ServerThreads),
      serverMachine.Reaches (fun _ _ _ => True) (serverStart allowParallel requests) s →
      (∀ i s', serverMachine.step (.inl i) s = some s' → RejectsForHeld i s s') ∧
        (allowParallel = false → Ended s → AllDispatched requests s) := by
  intro hall
  have hrun : ((serverMachine.run
      ([0, 0, 1, 1, 0, 0, 0, 0, 1, 1, 1, 1, 1, 1, 1, 1, 1, 1].map .inl)
      (serverStart false [.batch [onBackup "upload" "b"], .batch [onBackup "restore" "b"]])).map
        fun s => decide ((1, ("upload b" : Str)) ∈ queuedBy 0 s.shared.history ∧
          .killed 1 ∉ s.shared.history ∧ s.shared.history.count (.dispatched 1) = 0 ∧
            s.shared.waiting = [] ∧ s.threads.all Thread.ended = true)) = some true := by
    decide +kernel
  obtain ⟨s, hs, heq⟩ := Option.map_eq_some_iff.mp hrun
  obtain ⟨hqueued, hkilled, hcount, hwaiting, hended⟩ := of_decide_eq_true heq
  have hr := Machine.reaches_of_run .refl (fun _ _ _ _ => trivial) hs
  have hend : Ended s := ⟨hwaiting, fun i => Machine.step_eq_none_of_ended hended i⟩
  have hall := ((hall false _ s hr).2 rfl hend 0 _ rfl).2.2 (1, "upload b") hqueued
  rcases hall with hmem | hone
  · exact hkilled hmem
  · rw [hcount] at hone
    cases hone

end Chbackup
