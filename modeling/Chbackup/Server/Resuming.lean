import Chbackup.Locks.Scopes
import Chbackup.Server.Queue
import Chbackup.Server.StateFiles

/-!
# Resuming after a restart

`scan_resumable_state_files` and `auto_resume` (`src/server/state.rs`).  Every operation that is found
gets a task of its own, and a task whose `try_start_op` or whose PID lock is refused gives up.
-/

namespace Chbackup

open CallTree Prog

/-! ## The operations that are found -/

/-- The file is on disk. -/
def StateDisk.has (disk : StateDisk) (b : Str) (f : ResumeFile) : Bool :=
  disk.any fun e => e.1 = b && e.2.1 = f

/-- `scan_resumable_state_files`, for the directories in the order in which they are listed. -/
def scanResumableStateFiles (dirs : List Str) (disk : StateDisk) : List (Str × OpType) :=
  (dirs.filter validateBackupName).flatMap fun b =>
    ([.upload, .download, .restore] : List OpType).filterMap fun op =>
      if disk.has b (.state op) then some (b, op) else none

/-- The operations that `auto_resume` starts a task for: a restore needs its parameters. -/
def resumable (dirs : List Str) (disk : StateDisk) : List (Str × OpType) :=
  (scanResumableStateFiles dirs disk).filter fun x => x.2 ≠ .restore || disk.has x.1 .restoreParams

/-- The name that an operation is logged with. -/
def OpType.command : OpType → Str
  | upload => "upload"
  | download => "download"
  | restore => "restore"

/-- The PID lock that the task of an operation takes. -/
def resumeLock (x : Str × OpType) : LockScope := lockForCommand x.2.command (some x.1)

/-- `auto_resume`. -/
def autoResume (body : Str × OpType → BodyChoice) (ops : List (Str × OpType)) : List Request :=
  ops.map fun x => .operation x.2.command (some x.1) (body x)

/-- What a listing of the backup directory is: every directory once. -/
structure Lists (dirs : List Str) (disk : StateDisk) : Prop where
  nodup : dirs.Nodup
  covers : ∀ e ∈ disk, e.1 ∈ dirs

theorem StateDisk.has_iff {disk : StateDisk} {b : Str} {f : ResumeFile} :
    disk.has b f = true ↔ ∃ k, (b, f, k) ∈ disk := by
  rw [StateDisk.has, List.any_eq_true]
  constructor
  · rintro ⟨⟨b', f', k⟩, hmem, h⟩
    simp only [Bool.and_eq_true, decide_eq_true_eq] at h
    obtain ⟨rfl, rfl⟩ := h
    exact ⟨k, hmem⟩
  · rintro ⟨k, hmem⟩
    exact ⟨_, hmem, by simp⟩

theorem mem_scan {dirs : List Str} {disk : StateDisk} {x : Str × OpType} :
    x ∈ scanResumableStateFiles dirs disk ↔
      x.1 ∈ dirs ∧ validateBackupName x.1 = true ∧ disk.has x.1 (.state x.2) = true := by
  rw [scanResumableStateFiles, List.mem_flatMap]
  constructor
  · rintro ⟨b, hb, hx⟩
    obtain ⟨op, -, hop⟩ := List.mem_filterMap.mp hx
    split_ifs at hop with hhas
    cases hop
    obtain ⟨hdir, hvalid⟩ := List.mem_filter.mp hb
    exact ⟨hdir, hvalid, hhas⟩
  · rintro ⟨hdir, hvalid, hhas⟩
    refine ⟨x.1, List.mem_filter.mpr ⟨hdir, hvalid⟩, List.mem_filterMap.mpr ⟨x.2, ?_, if_pos hhas⟩⟩
    cases x.2 with
    | upload => simp
    | download => simp
    | restore => simp

/-- An operation is found once. -/
theorem scan_nodup {dirs : List Str} {disk : StateDisk} (h : dirs.Nodup) :
    (scanResumableStateFiles dirs disk).Nodup := by
  rw [scanResumableStateFiles, List.nodup_flatMap]
  constructor
  · intro b _
    refine List.Nodup.filterMap ?_ (by decide)
    intro op op' x hx hx'
    rw [Option.mem_def] at hx hx'
    split_ifs at hx hx'
    cases hx
    cases hx'
    rfl
  · refine (h.filter _).imp fun {b b'} hne x hx hx' => hne ?_
    obtain ⟨op, -, hop⟩ := List.mem_filterMap.mp hx
    obtain ⟨op', -, hop'⟩ := List.mem_filterMap.mp hx'
    split_ifs at hop hop'
    cases hop
    cases hop'
    rfl

/-! ## The PID locks -/

theorem resumeLock_eq (x : Str × OpType) :
    resumeLock x = if x.1 ≠ [] then .backup x.1 else .global := by
  have hcommand : x.2.command ∈ (["create", "upload", "download", "restore", "create_remote",
      "restore_remote", "release-deferred"] : List Str) := by
    cases x.2 with
    | upload => decide
    | download => decide
    | restore => decide
  rw [resumeLock, lockForCommand, if_pos hcommand]

/-- The locks of two operations are in each other's way if they are on one backup. -/
theorem resumeLock_blocks_of_eq {x y : Str × OpType} (h : y.1 = x.1) :
    (resumeLock y).blocks (resumeLock x) = true := by
  rw [resumeLock_eq, resumeLock_eq, h]
  split_ifs
  · simp [LockScope.blocks]
  · rfl

/-- A backup that is named `global` is in the way of all others, since its lock has the file of the global
one. -/
theorem resumeLock_blocks_iff {x y : Str × OpType} (hx : x.1 ≠ []) (hy : y.1 ≠ []) :
    (resumeLock y).blocks (resumeLock x) = true ↔ y.1 = x.1 ∨ y.1 = "global" := by
  rw [resumeLock_eq, resumeLock_eq, if_pos hx, if_pos hy, LockScope.blocks, Bool.or_eq_true,
    decide_eq_true_eq, decide_eq_true_eq]
  have hglobal : LockScope.global.file = (LockScope.backup "global").file := rfl
  constructor
  · rintro (h | h)
    · exact Or.inr (LockScope.backup_file_injective (h.trans hglobal))
    · exact Or.inl (LockScope.backup_file_injective h)
  · rintro (h | h)
    · exact Or.inr (by rw [h])
    · exact Or.inl (by rw [h, hglobal])

/-! ## The tasks of `auto_resume` -/

/-- What the task of an operation may call. -/
def Allowed (x : Option (Str × OpType)) : ServerCall → Prop
  | .takeOps _ => False
  | .logStart kind _ n => kind = .try ∧ x.map (fun x => some x.1) = some n
  | .acquireScoped _ scope => x.map resumeLock = some scope
  | _ => True

section Allowed

variable {α : Type} {l : Stage} {x : Str × OpType}

theorem allowed_removeOp {id : Nat} {heeds : Bool} :
    Obeys Stage.learn (fun _ => Allowed (some x)) (fun _ (_ : Except Str Unit) => True) l
      ((perform (.poll id heeds)).bind fun (dropped : Bool) =>
        if dropped then .ret () else (perform (.removeOp id)).bind fun _ => .ret ()) := by
  refine obeys_perform trivial fun (dropped : Bool) => ?_
  cases dropped with
  | true => trivial
  | false => exact obeys_perform trivial fun _ => trivial

theorem allowed_runBody {id : Nat} {name : Option Str} {body : BodyChoice} :
    Obeys Stage.learn (fun _ => Allowed (some x)) (fun _ (_ : Except Str Unit) => True) l
      (runBody id name body) := by
  refine obeys_perform trivial fun _ => ?_
  refine obeys_perform trivial fun (killed : Bool) => ?_
  cases killed with
  | true => trivial
  | false =>
    cases body.outcome with
    | ok _ => exact obeys_perform trivial fun _ => allowed_removeOp
    | error e => exact obeys_perform trivial fun _ => allowed_removeOp

theorem allowed_dropLock {id : Nat} {p : ServerProg Unit}
    (hp : Obeys Stage.learn (fun _ => Allowed (some x)) (fun _ (_ : Except Str Unit) => True) l p) :
    Obeys Stage.learn (fun _ => Allowed (some x)) (fun _ (_ : Except Str Unit) => True) l
      (p.bind fun _ => (perform (.dropLock id)).bind fun _ => .ret ()) :=
  hp.bind (fun _ _ _ => obeys_perform trivial fun _ => trivial) fun _ _ _ => trivial

theorem allowed_operate {id : Nat} {name : Option Str} {body : BodyChoice} :
    Obeys Stage.learn (fun _ => Allowed (some x)) (fun _ _ => True) l
      (operate id name (resumeLock x) body) := by
  refine obeys_perform trivial fun (dropped : Bool) => ?_
  cases dropped with
  | true => trivial
  | false =>
    refine obeys_perform rfl fun (free : Bool) => ?_
    cases free with
    | true => exact allowed_dropLock allowed_runBody
    | false => exact allowed_dropLock (obeys_perform trivial fun _ => allowed_removeOp)

theorem allowed_tryStartOp :
    Obeys Stage.learn (fun _ => Allowed (some x)) (fun _ _ => True) l
      (tryStartOp x.2.command (some x.1)) := by
  refine obeys_perform trivial fun (permit : Bool) => ?_
  cases permit with
  | false => trivial
  | true =>
    refine obeys_perform ⟨rfl, rfl⟩ fun (id : Nat) => ?_
    refine obeys_perform trivial fun (conflict : Bool) => ?_
    cases conflict with
    | false => trivial
    | true => exact obeys_perform trivial fun _ => obeys_perform trivial fun _ => trivial

theorem allowed_runOperation {body : BodyChoice} :
    Obeys Stage.learn (fun _ => Allowed (some x)) (fun _ _ => True) l
      (runOperation x.2.command (some x.1) body) := by
  refine allowed_tryStartOp.attempt.bind (fun l r _ => ?_) fun _ _ _ => trivial
  cases r with
  | ok id => exact allowed_operate
  | error e => trivial

end Allowed

/-- The stages that a task without kills comes to: it logs its action under its name, and takes its
lock. -/
def Stage.Fits (x : Option (Str × OpType)) : Stage → Prop
  | begun kind _ name => kind = .try ∧ x.map (fun x => some x.1) = some name
  | locked _ _ scope => x.map resumeLock = some scope
  | taken _ => False
  | _ => True

theorem learn_fits {l : Stage} {c : ServerCall} {x : Option (Str × OpType)} (hp : l.Permits c)
    (hc : Allowed x c) (r : c.Reply) : (l.learn ⟨c, r⟩).Fits x := by
  cases l with
  | idle =>
    rcases hp with rfl | ⟨command, name, rfl⟩ | ⟨target, rfl⟩
    · change Bool at r
      cases r with
      | true => trivial
      | false => trivial
    · exact hc
    · cases hc
  | permitted =>
    obtain ⟨command, name, rfl⟩ := hp
    exact hc
  | begun kind id name =>
    cases kind with
    | «try» =>
      obtain ⟨command, rfl⟩ := hp
      change Bool at r
      cases r with
      | true => trivial
      | false => trivial
    | queue =>
      obtain ⟨command, rfl⟩ := hp
      trivial
  | queued id name =>
    obtain ⟨cancelFirst, rfl⟩ := hp
    change Bool at r
    cases r with
    | true => trivial
    | false => trivial
  | granted id name =>
    obtain rfl := hp
    change StoreReply at r
    cases r with
    | stored => trivial
    | killed => trivial
    | conflict => trivial
  | admitted id name =>
    obtain ⟨heeds, rfl⟩ := hp
    change Bool at r
    cases r with
    | true => trivial
    | false => trivial
  | entering id name =>
    obtain ⟨scope, rfl⟩ := hp
    change Bool at r
    cases r with
    | true => exact hc
    | false => trivial
  | working id name =>
    obtain ⟨heeds, rfl⟩ := hp
    change Bool at r
    cases r with
    | true => trivial
    | false => trivial
  | logged id =>
    obtain ⟨heeds, rfl⟩ := hp
    change Bool at r
    cases r with
    | true => trivial
    | false => trivial
  | ended id =>
    rcases hp with rfl | ⟨error, rfl⟩
    · trivial
    · trivial
  | refused id =>
    obtain ⟨error, rfl⟩ := hp
    trivial
  | _ =>
    obtain rfl := hp
    trivial

/-! ## The server while it resumes -/

/-- The locks that other processes may take while the server resumes. -/
def OthersAmong (others : List LockScope) (_ : AppState) (_ : List Stage) : Nat ⊕ ServerMove → Prop
  | .inr (.othersTake scope) => scope ∈ others
  | _ => True

/-- The state of a server that runs the tasks of `auto_resume`. -/
structure Resuming (allowParallel : Bool) (others : List LockScope) (ops : List (Str × OpType))
    (s : AppState) (ls : List Stage) : Prop where
  registry : Registry s ls
  serial : allowParallel = false → Budget 1 s ls
  parallel : allowParallel = true → s.permits = none
  unkilled : ∀ a : Nat, .killed a ∉ s.history
  waiting : s.waiting = []
  length : ls.length = ops.length
  fits : ∀ (j : Nat) (l : Stage), ls[j]? = some l → l.Fits ops[j]?
  refused : ∀ (j a : Nat), ls[j]? = some (.refused a) → ∀ op ∈ s.ops, op.id ≠ a
  owners : ∀ op ∈ s.ops, ∃ (j : Nat) (l : Stage) (x : Str × OpType), ls[j]? = some l ∧
    l.own = some op.id ∧ ops[j]? = some x ∧ op.backupName = some x.1
  /-- A lock is held by a task that has not dropped it yet. -/
  locks : ∀ held ∈ s.locks, ∃ (j : Nat) (l : Stage) (x : Str × OpType), ls[j]? = some l ∧
    l.holds = some held.1 ∧ ops[j]? = some x ∧ held.2 = resumeLock x
  others : s.others ⊆ others
  begunBy : ∀ (j : Nat) (l : Stage) (a : Nat), ls[j]? = some l → l.own = some a →
    ∃ kind command, .started j kind a command ∈ s.history
  startedFresh : ∀ j kind (a : Nat) command, .started j kind a command ∈ s.history → a < s.log.nextId
  startedOnce : ∀ j j' kind kind' a command command', .started j kind a command ∈ s.history →
    .started j' kind' a command' ∈ s.history → j = j'
  begunFresh : ∀ a : Nat, .begun a ∈ s.history → a < s.log.nextId

namespace Resuming

variable {allowParallel : Bool} {others : List LockScope} {ops : List (Str × OpType)} {i : Nat}
  {s s' : AppState} {l l' : Stage} {ls : List Stage}

/-- No token is cancelled. -/
theorem not_cancelled (hR : Resuming allowParallel others ops s ls) (a : Nat) : a ∉ s.cancelled :=
  fun ha => hR.unkilled a (hR.registry.kills.cancelled a ha)

theorem unkilled_step (hR : Resuming allowParallel others ops s ls) (h : Transition i s l s' l')
    (hfits : l'.Fits ops[i]?) (a : Nat) : .killed a ∉ s'.history := by
  intro ha
  rcases h.killed_cases ha with ha | ⟨hit, op, -, -, -, -, rfl⟩
  · exact hR.unkilled a ha
  · exact hfits

/-- A step keeps the operation of the task, unless it is not in the registry any more. -/
theorem own_kept (hR : Resuming allowParallel others ops s ls) (hi : ls[i]? = some l)
    (h : Transition i s l s' l') {op : RunningOp} (hop : op ∈ s'.ops) (hown : l.own = some op.id)
    (hmem : ∃ op' ∈ s.ops, op'.id = op.id) : l'.own = some op.id := by
  obtain ⟨op', hop', hid⟩ := hmem
  cases h with
  | lost id name h =>
    cases hown
    exact absurd hid (h op' hop')
  | halt id name h => exact absurd h (hR.not_cancelled id)
  | abandon id name h => exact absurd h (hR.not_cancelled id)
  | desert id hl h => exact absurd h (hR.not_cancelled id)
  | refuse id error =>
    cases hown
    exact absurd hid (hR.refused i _ hi op' hop')
  | discard id =>
    cases hown
    exact absurd rfl (of_decide_eq_true (List.mem_filter.mp hop).2 : op.id ≠ op.id)
  | remove id =>
    cases hown
    exact absurd rfl (of_decide_eq_true (List.mem_filter.mp hop).2 : op.id ≠ op.id)
  | unlock id => cases hown
  | start kind command name hl =>
    subst hl
    cases kind with
    | «try» => cases hown
    | queue => cases hown
  | giveBack n hl =>
    rcases hl with ⟨rfl, -⟩ | rfl
    · cases hown
    · cases hown
  | deny => cases hown
  | permit h => cases hown
  | take hit h => cases hown
  | cancel ops => cases hown
  | mark ops => cases hown
  | _ => exact hown

/-- An operation in the registry was there before under its name, or the task has just registered
it. -/
theorem registered_cases (h : Transition i s l s' l') {op : RunningOp} (hop : op ∈ s'.ops) :
    (∃ kind, l = .begun kind op.id op.backupName ∧ l'.own = some op.id) ∨
      ∃ op' ∈ s.ops, op'.id = op.id ∧ op'.backupName = op.backupName := by
  cases h with
  | insert id command name h =>
    rcases List.mem_append.mp hop with hop | hop
    · exact Or.inr ⟨op, hop, rfl, rfl⟩
    · rw [List.mem_singleton.mp hop]
      exact Or.inl ⟨.try, rfl, rfl⟩
  | enqueue id command name =>
    rcases List.mem_append.mp hop with hop | hop
    · exact Or.inr ⟨op, hop, rfl, rfl⟩
    · rw [List.mem_singleton.mp hop]
      exact Or.inl ⟨.queue, rfl, rfl⟩
  | store id name hin hlive h =>
    obtain ⟨op', hop', rfl⟩ := List.mem_map.mp hop
    refine Or.inr ⟨op', hop', ?_⟩
    split_ifs
    · exact ⟨rfl, rfl⟩
    · exact ⟨rfl, rfl⟩
  | halt id name h => exact Or.inr ⟨op, (List.mem_filter.mp hop).1, rfl, rfl⟩
  | reject id name hin hlive h => exact Or.inr ⟨op, (List.mem_filter.mp hop).1, rfl, rfl⟩
  | discard id => exact Or.inr ⟨op, (List.mem_filter.mp hop).1, rfl, rfl⟩
  | remove id => exact Or.inr ⟨op, (List.mem_filter.mp hop).1, rfl, rfl⟩
  | take hit h => exact Or.inr ⟨op, (List.mem_filter.mp hop).1, rfl, rfl⟩
  | _ => exact Or.inr ⟨op, hop, rfl, rfl⟩

theorem owners_step (hR : Resuming allowParallel others ops s ls) (hi : ls[i]? = some l)
    (h : Transition i s l s' l') : ∀ op ∈ s'.ops, ∃ (j : Nat) (m : Stage) (x : Str × OpType),
      (ls.set i l')[j]? = some m ∧ m.own = some op.id ∧ ops[j]? = some x ∧ op.backupName = some x.1 := by
  have hself : (ls.set i l')[i]? = some l' :=
    List.getElem?_set_self (List.getElem?_eq_some_iff.mp hi).1
  intro op hop
  rcases registered_cases h hop with ⟨kind, rfl, hown⟩ | ⟨op', hop', hid, hname⟩
  · obtain ⟨x, hx, hname⟩ := Option.map_eq_some_iff.mp (hR.fits i _ hi).2
    exact ⟨i, l', x, hself, hown, hx, hname.symm⟩
  · obtain ⟨j, m, x, hj, hown, hx, hfits⟩ := hR.owners op' hop'
    rw [hid] at hown
    rw [hname] at hfits
    by_cases hne : j = i
    · subst hne
      obtain rfl : l = m := Option.some.inj (hi.symm.trans hj)
      exact ⟨j, l', x, hself, hR.own_kept hi h hop hown ⟨op', hop', hid⟩, hx, hfits⟩
    · exact ⟨j, m, x, by rw [List.getElem?_set_ne (Ne.symm hne), hj], hown, hx, hfits⟩

/-- A task holds its lock until it drops it. -/
theorem holds_kept (h : Transition i s l s' l') {a : Nat} (ha : l.holds = some a) :
    l'.holds = some a ∨ s'.locks = s.locks.filter fun held => held.1 ≠ a := by
  cases h with
  | begin id name scope => exact Or.inl ha
  | stop id name => exact Or.inl ha
  | desert id hl h =>
    rcases hl with ⟨name, rfl⟩ | rfl
    · exact Or.inl ha
    · exact Or.inl ha
  | close id h => exact Or.inl ha
  | leave id => exact Or.inl ha
  | remove id => exact Or.inl ha
  | unlock id =>
    cases ha
    exact Or.inr rfl
  | start kind command name hl =>
    subst hl
    cases kind with
    | «try» => cases ha
    | queue => cases ha
  | giveBack n hl =>
    rcases hl with ⟨rfl, -⟩ | rfl
    · cases ha
    · cases ha
  | _ => cases ha

/-- A lock was held before, or the task has just taken it. -/
theorem locks_cases (h : Transition i s l s' l') {held : Nat × LockScope} (hheld : held ∈ s'.locks) :
    held ∈ s.locks ∨ ∃ name, l' = .locked held.1 name held.2 := by
  cases h with
  | lock id name scope h =>
    rcases List.mem_append.mp hheld with hheld | hheld
    · exact Or.inl hheld
    · rw [List.mem_singleton.mp hheld]
      exact Or.inr ⟨name, rfl⟩
  | unlock id => exact Or.inl (List.mem_filter.mp hheld).1
  | _ => exact Or.inl hheld

theorem locks_step (hR : Resuming allowParallel others ops s ls) (hi : ls[i]? = some l)
    (h : Transition i s l s' l') (hfits : l'.Fits ops[i]?) :
    ∀ held ∈ s'.locks, ∃ (j : Nat) (m : Stage) (x : Str × OpType), (ls.set i l')[j]? = some m ∧
      m.holds = some held.1 ∧ ops[j]? = some x ∧ held.2 = resumeLock x := by
  have hself : (ls.set i l')[i]? = some l' :=
    List.getElem?_set_self (List.getElem?_eq_some_iff.mp hi).1
  intro held hheld
  rcases locks_cases h hheld with hbefore | ⟨name, rfl⟩
  · obtain ⟨j, m, x, hj, hholds, hx, hscope⟩ := hR.locks held hbefore
    by_cases hne : j = i
    · subst hne
      obtain rfl : l = m := Option.some.inj (hi.symm.trans hj)
      rcases holds_kept h hholds with hkept | hdropped
      · exact ⟨j, l', x, hself, hkept, hx, hscope⟩
      · rw [hdropped, List.mem_filter] at hheld
        exact absurd rfl (of_decide_eq_true hheld.2 : held.1 ≠ held.1)
    · exact ⟨j, m, x, by rw [List.getElem?_set_ne (Ne.symm hne), hj], hholds, hx, hscope⟩
  · obtain ⟨x, hx, hscope⟩ := Option.map_eq_some_iff.mp hfits
    exact ⟨i, _, x, hself, rfl, hx, hscope.symm⟩

/-- A rejected operation is not in the registry. -/
theorem refused_step (hR : Resuming allowParallel others ops s ls) (hi : ls[i]? = some l)
    (h : Transition i s l s' l') {j a : Nat} (hj : (ls.set i l')[j]? = some (.refused a)) :
    ∀ op ∈ s'.ops, op.id ≠ a := by
  intro op hop
  rcases getElem?_set_cases hj with ⟨rfl, rfl⟩ | ⟨hne, hj⟩
  · cases h with
    | clash id name => exact hR.registry.identities.unregistered j _ _ name hi op hop
    | reject id name hin hlive h => exact of_decide_eq_true (List.mem_filter.mp hop).2
  · rcases registered_cases h hop with ⟨kind, rfl, -⟩ | ⟨op', hop', hid, -⟩
    · intro hid
      exact hne (hR.registry.identities.single j i _ _ a hj hi rfl (by rw [← hid]; rfl))
    · rw [← hid]
      exact hR.refused j a hj op' hop'

/-- A task logs its actions itself. -/
theorem started_cases (h : Transition i s l s' l') {j : Nat} {kind : StartKind} {a : Nat} {command : Str}
    (ha : .started j kind a command ∈ s'.history) :
    .started j kind a command ∈ s.history ∨ (j = i ∧ a = s.log.nextId ∧
      s'.log.nextId = s.log.nextId + 1) := by
  rcases h.added_cases ha with hold | ⟨kind, command, heq, hnext⟩ | ⟨b, heq⟩ | ⟨b, name, scope, heq, -⟩ | hend
  · exact Or.inl hold
  · cases heq
    exact Or.inr ⟨rfl, rfl, hnext⟩
  · cases heq
  · cases heq
  · cases hend

/-- A body begins in the section of its task. -/
theorem begun_cases (h : Transition i s l s' l') {a : Nat} (ha : .begun a ∈ s'.history) :
    .begun a ∈ s.history ∨ ∃ name scope, l = .locked a name scope := by
  rcases h.added_cases ha with hold | ⟨kind, command, heq, -⟩ | ⟨b, heq⟩ | ⟨b, name, scope, heq, hl⟩ | hend
  · exact Or.inl hold
  · cases heq
  · cases heq
  · cases heq
    exact Or.inr ⟨name, scope, hl⟩
  · cases hend

theorem begunBy_step (hR : Resuming allowParallel others ops s ls) (hi : ls[i]? = some l)
    (h : Transition i s l s' l') {j a : Nat} {m : Stage} (hj : (ls.set i l')[j]? = some m)
    (hown : m.own = some a) : ∃ kind command, .started j kind a command ∈ s'.history := by
  rcases getElem?_set_cases hj with ⟨rfl, rfl⟩ | ⟨-, hj⟩
  · rcases h.nextId_cases with ⟨-, hnone | hsame⟩ | ⟨-, -, -, kind, name, rfl⟩
    · rw [hnone] at hown
      cases hown
    · rw [hsame] at hown
      obtain ⟨kind, command, hmem⟩ := hR.begunBy j l a hi hown
      exact ⟨kind, command, h.history_prefix.subset hmem⟩
    · cases hown
      cases h with
      | start kind command name hl => exact ⟨kind, command, List.mem_append_right _ List.mem_cons_self⟩
  · obtain ⟨kind, command, hmem⟩ := hR.begunBy j m a hj hown
    exact ⟨kind, command, h.history_prefix.subset hmem⟩

/-- **A step of a task of `auto_resume`.** -/
theorem step (hR : Resuming allowParallel others ops s ls) (hi : ls[i]? = some l)
    (hen : serverMachine.enabled i s = true) (h : Transition i s l s' l') (hfits : l'.Fits ops[i]?) :
    Resuming allowParallel others ops s' (ls.set i l') where
  registry := hR.registry.step hi h
  serial hserial := by
    have hG := hR.registry
    exact (hR.serial hserial).step hG.identities hG.kills hG.registered hG.queued hi hen h
  parallel hparallel := by
    have hfree := hR.parallel hparallel
    cases h with
    | permit h => exact congrArg (Option.map _) hfree
    | grant id name h => exact congrArg (Option.map _) hfree
    | discard id => exact congrArg (Option.map _) hfree
    | remove id => exact congrArg (Option.map _) hfree
    | giveBack n hl => exact congrArg (Option.map _) hfree
    | _ => exact hfree
  unkilled := hR.unkilled_step h hfits
  waiting := by
    have hnone := hR.waiting
    cases h with
    | enqueue id command name => cases (hR.fits i _ hi).1
    | grant id name h => exact congrArg (List.filter _) hnone
    | unlist id name h => exact congrArg (List.filter _) hnone
    | _ => exact hnone
  length := by rw [List.length_set, hR.length]
  fits j m hj := by
    rcases getElem?_set_cases hj with ⟨rfl, rfl⟩ | ⟨-, hj⟩
    · exact hfits
    · exact hR.fits j m hj
  refused _ _ hj := hR.refused_step hi h hj
  owners := hR.owners_step hi h
  locks := hR.locks_step hi h hfits
  others := by
    cases h with
    | _ => exact hR.others
  begunBy _ _ _ hj hown := hR.begunBy_step hi h hj hown
  startedFresh j kind a command ha := by
    have hle := Identities.nextId_le h
    rcases started_cases h ha with ha | ⟨-, rfl, hnext⟩
    · exact Nat.lt_of_lt_of_le (hR.startedFresh j kind a command ha) hle
    · omega
  startedOnce j j' kind kind' a command command' ha ha' := by
    rcases started_cases h ha with ha | ⟨rfl, rfl, -⟩
    · rcases started_cases h ha' with ha' | ⟨rfl, rfl, -⟩
      · exact hR.startedOnce j j' kind kind' a command command' ha ha'
      · exact absurd (hR.startedFresh j kind _ command ha) (Nat.lt_irrefl _)
    · rcases started_cases h ha' with ha' | ⟨rfl, -, -⟩
      · exact absurd (hR.startedFresh j' kind' _ command' ha') (Nat.lt_irrefl _)
      · rfl
  begunFresh a ha := by
    refine Nat.lt_of_lt_of_le ?_ (Identities.nextId_le h)
    rcases begun_cases h ha with ha | ⟨name, scope, rfl⟩
    · exact hR.begunFresh a ha
    · exact hR.registry.identities.owned i _ a hi rfl

theorem initial {requests : List Request} (h : requests.length = ops.length) :
    Resuming allowParallel others ops (AppState.new allowParallel)
      (serverStart allowParallel requests).minds where
  registry := .initial _ _
  serial := by
    rintro rfl
    exact Budget.initial requests
  parallel := by
    rintro rfl
    rfl
  unkilled _ := List.not_mem_nil
  waiting := rfl
  length := by
    rw [Threads.minds, serverStart, List.length_map, List.length_map, h]
  fits j l hj := by
    rw [serverStart_idle hj]
    trivial
  refused j a hj := by cases serverStart_idle hj
  owners op hop := absurd hop List.not_mem_nil
  locks held hheld := absurd hheld List.not_mem_nil
  others := List.nil_subset _
  begunBy j l a hj hown := by
    rw [serverStart_idle hj] at hown
    cases hown
  startedFresh _ _ _ _ ha := absurd ha List.not_mem_nil
  startedOnce _ _ _ _ _ _ _ ha := absurd ha List.not_mem_nil
  begunFresh _ ha := absurd ha List.not_mem_nil

theorem others_move {e : ServerMove} (hsub : s.others ⊆ others)
    (hok : OthersAmong others s ls (.inr e)) (h : serverMachine.move e s ls = some s') :
    s'.others ⊆ others := by
  cases e with
  | tick now =>
    cases h
    exact hsub
  | stopTasks id =>
    change (if id ∈ s.cancelled then _ else none) = _ at h
    split_ifs at h
    cases h
    exact hsub
  | othersTake scope =>
    change (if s.lockedOut scope = true then none else _) = _ at h
    split_ifs at h
    cases h
    exact List.cons_subset.mpr ⟨hok, hsub⟩
  | othersDrop scope =>
    cases h
    exact fun held hheld => hsub (List.mem_of_mem_erase hheld)

theorem move {e : ServerMove} (hR : Resuming allowParallel others ops s ls)
    (hok : OthersAmong others s ls (.inr e)) (h : serverMachine.move e s ls = some s') :
    Resuming allowParallel others ops s' ls := by
  have hregistry := hR.registry.move h
  have hothers := others_move hR.others hok h
  obtain ⟨now, active, taken, rfl⟩ := move_cases h
  exact ⟨hregistry, hR.serial, hR.parallel, hR.unkilled, hR.waiting, hR.length, hR.fits, hR.refused,
    hR.owners, hR.locks, hothers, hR.begunBy, hR.startedFresh, hR.startedOnce, hR.begunFresh⟩

end Resuming

/-- The duties of the tasks of `auto_resume`. -/
def ResumeDuty (ops : List (Str × OpType)) (i : Nat) (l : Stage) (c : ServerCall) : Prop :=
  l.Permits c ∧ Allowed ops[i]? c

theorem getElem?_autoResume {allowParallel : Bool} {body : Str × OpType → BodyChoice}
    {ops : List (Str × OpType)} {i : Nat} {t : Thread ServerCall ServerCall.Reply Stage Str Unit}
    (hi : (serverStart allowParallel (autoResume body ops)).threads[i]? = some t) :
    ∃ x, ops[i]? = some x ∧ t = ⟨.idle, runOperation x.2.command (some x.1) (body x)⟩ := by
  rw [serverStart, autoResume, List.getElem?_map, List.getElem?_map] at hi
  obtain ⟨r, hr, rfl⟩ := Option.map_eq_some_iff.mp hi
  obtain ⟨x, hx, rfl⟩ := Option.map_eq_some_iff.mp hr
  exact ⟨x, hx, rfl⟩

/-- **The server while it resumes**: its state and the duties of its tasks. -/
theorem resuming_of_reaches {allowParallel : Bool} {others : List LockScope}
    {body : Str × OpType → BodyChoice} {ops : List (Str × OpType)} {s : ServerThreads}
    (hr : serverMachine.Reaches (OthersAmong others) (serverStart allowParallel (autoResume body ops)) s) :
    Resuming allowParallel others ops s.shared s.minds ∧
      ∀ i t, s.threads[i]? = some t →
        Obeys Stage.learn (ResumeDuty ops i) (fun l _ => l = .idle ∧ True) t.mind t.rest := by
  refine hr.invariant_each (P := ResumeDuty ops) (Q := fun _ l _ => l = .idle ∧ True)
    (.initial ?_) ?_ ?_ ?_
  · rw [autoResume, List.length_map]
  · intro i t hi
    obtain ⟨x, hx, rfl⟩ := getElem?_autoResume hi
    have hduty : ResumeDuty ops i = fun l c => l.Permits c ∧ Allowed (some x) c := by
      rw [← hx]
      rfl
    rw [hduty]
    exact (obeys_start obeys_tryStartOp).and allowed_runOperation
  · intro i c l ls s hR hi hduty hen _
    exact hR.step hi hen (transition_of_permits hduty.1) (learn_fits hduty.1 hduty.2 _)
  · intro e ls s s' hR hok h
    exact hR.move hok h

end Chbackup
