import Chbackup.Server.Identities

/-!
# Permits

Where the permits of the semaphore are, and what the registry says about the operation of a task.
-/

namespace Chbackup

open CallTree

/-! ## The operation of a task -/

namespace Transition

variable {i : Nat} {s s' : AppState} {l l' : Stage}

/-- A step leaves the operations of other tasks in the registry as they are, or kills them. -/
theorem op_kept (h : Transition i s l s' l') {op : RunningOp} (hop : op ∈ s.ops)
    (hne : l.own ≠ some op.id) : op ∈ s'.ops ∨ .killed op.id ∈ s'.history := by
  have hfilter : ∀ id : Nat, l.own = some id → op ∈ s.ops.filter fun op => op.id ≠ id := by
    intro id hid
    refine List.mem_filter.mpr ⟨hop, ?_⟩
    rw [decide_eq_true_eq]
    rintro rfl
    exact hne hid
  cases h with
  | insert id command name h => exact Or.inl (List.mem_append_left _ hop)
  | enqueue id command name => exact Or.inl (List.mem_append_left _ hop)
  | store id name hin hlive h =>
    refine Or.inl (List.mem_map.mpr ⟨op, hop, if_neg ?_⟩)
    rintro rfl
    exact hne rfl
  | halt id name h => exact Or.inl (hfilter id rfl)
  | reject id name hin hlive h => exact Or.inl (hfilter id rfl)
  | discard id => exact Or.inl (hfilter id rfl)
  | remove id => exact Or.inl (hfilter id rfl)
  | take hit h =>
    by_cases hhit : hit op = true
    · refine Or.inr (List.mem_append_right _ (List.mem_map.mpr ⟨op, ?_, rfl⟩))
      exact List.mem_filter.mpr ⟨hop, hhit⟩
    · exact Or.inl (List.mem_filter.mpr ⟨hop, by simpa using hhit⟩)
  | _ => exact Or.inl hop

end Transition

/-- What the registry should say about the operation of a task: its number, its name, and whether it
has its permit. -/
def Stage.registers : Stage → Option (Nat × Option Str × Bool)
  | queued id name => some (id, name, false)
  | granted id name => some (id, name, false)
  | admitted id name => some (id, name, true)
  | entering id name => some (id, name, true)
  | locked id name _ => some (id, name, true)
  | working id name => some (id, name, true)
  | _ => none

theorem Stage.own_of_registers {l : Stage} {a : Nat} {name : Option Str} {permit : Bool}
    (h : l.registers = some (a, name, permit)) : l.own = some a := by
  cases l <;> cases h <;> rfl

/-- The operation of a task is in the registry, unless it was killed. -/
def Registered (s : AppState) (ls : List Stage) : Prop :=
  ∀ (j : Nat) (l : Stage) (a : Nat) (name : Option Str) (permit : Bool), ls[j]? = some l →
    l.registers = some (a, name, permit) → .killed a ∈ s.history ∨
      ∃ op ∈ s.ops, op.id = a ∧ op.backupName = name ∧ op.hasPermit = permit

section Registered

variable {i : Nat} {s s' : AppState} {l l' : Stage} {ls : List Stage}

/-- The task that makes the step. -/
theorem Registered.self (hR : Registered s ls) (hi : ls[i]? = some l) (h : Transition i s l s' l')
    {a : Nat} {name : Option Str} {permit : Bool} (hreg : l'.registers = some (a, name, permit)) :
    .killed a ∈ s'.history ∨ ∃ op ∈ s'.ops, op.id = a ∧ op.backupName = name ∧
      op.hasPermit = permit := by
  cases h with
  | insert id command name h =>
    cases hreg
    exact Or.inr ⟨_, List.mem_append_right _ List.mem_cons_self, rfl, rfl, rfl⟩
  | enqueue id command name =>
    cases hreg
    exact Or.inr ⟨_, List.mem_append_right _ List.mem_cons_self, rfl, rfl, rfl⟩
  | grant id name h => exact hR i _ _ _ _ hi hreg
  | store id name hin hlive h =>
    cases hreg
    rcases hR i _ _ _ _ hi rfl with hkilled | ⟨op, hop, hid, hname, -⟩
    · exact Or.inl hkilled
    · refine Or.inr ⟨_, List.mem_map_of_mem hop, ?_⟩
      rw [if_pos hid]
      exact ⟨hid, hname, rfl⟩
  | enter id name => exact hR i _ _ _ _ hi hreg
  | lock id name scope h =>
    rcases hR i _ _ _ _ hi hreg with hkilled | hop
    · exact Or.inl (List.mem_append_left _ hkilled)
    · exact Or.inr hop
  | begin id name scope =>
    rcases hR i _ _ _ _ hi hreg with hkilled | hop
    · exact Or.inl (List.mem_append_left _ hkilled)
    · exact Or.inr hop
  | _ => cases hreg

theorem Registered.step (hI : Identities s ls) (hR : Registered s ls) (hi : ls[i]? = some l)
    (h : Transition i s l s' l') : Registered s' (ls.set i l') := by
  intro j m a name permit hj hreg
  rcases getElem?_set_cases hj with ⟨rfl, rfl⟩ | ⟨hne, hj⟩
  · exact hR.self hi h hreg
  · rcases hR j m a name permit hj hreg with hkilled | ⟨op, hop, rfl, hname, hpermit⟩
    · exact Or.inl (h.history_prefix.subset hkilled)
    · have hother : l.own ≠ some op.id := fun hown =>
        hne (hI.single j i m l op.id hj hi (Stage.own_of_registers hreg) hown)
      rcases h.op_kept hop hother with hkept | hkilled
      · exact Or.inr ⟨op, hkept, rfl, hname, hpermit⟩
      · exact Or.inl hkilled

theorem Registered.initial (allowParallel : Bool) (requests : List Request) :
    Registered (AppState.new allowParallel) (serverStart allowParallel requests).minds := by
  intro j l a name permit hj hreg
  rw [serverStart_idle hj] at hreg
  cases hreg

/-- What the registry has under the number of a task is the operation of the task. -/
theorem Registered.op_eq (hI : Identities s ls) (hK : Kills s ls) (hR : Registered s ls) {j a : Nat}
    {name : Option Str} {permit : Bool} (hj : ls[j]? = some l)
    (hreg : l.registers = some (a, name, permit)) {op : RunningOp} (hop : op ∈ s.ops)
    (hid : op.id = a) : op.backupName = name ∧ op.hasPermit = permit := by
  rcases hR j l a name permit hj hreg with hkilled | ⟨op', hop', hid', hname, hpermit⟩
  · exact absurd hid (hK.gone a hkilled op hop)
  · obtain rfl : op = op' := List.inj_on_of_nodup_map hI.opsNodup hop hop' (hid.trans hid'.symm)
    exact ⟨hname, hpermit⟩

end Registered

/-! ## The budget -/

/-- The permits that a task has in hand. -/
def Stage.inHand : Stage → Nat
  | permitted => 1
  | begun .try _ _ => 1
  | granted _ _ => 1
  | refused _ => 1
  | spare => 1
  | taken ops => ops.countP RunningOp.hasPermit
  | marking ops => ops.countP RunningOp.hasPermit
  | dropping n => n
  | _ => 0

/-- The permits that are not free. -/
def permitsHeld (s : AppState) (l : Stage) : Nat := s.ops.countP RunningOp.hasPermit + l.inHand

theorem countP_unregister {ops : List RunningOp} {id : Nat}
    (h : ∀ op ∈ ops, op.id = id → op.hasPermit = false) :
    (ops.filter fun op => op.id ≠ id).countP RunningOp.hasPermit = ops.countP RunningOp.hasPermit := by
  rw [List.countP_filter]
  refine List.countP_congr fun op hop => ?_
  constructor
  · intro hp
    exact (Bool.and_eq_true_iff.mp hp).1
  · intro hp
    rw [hp, Bool.true_and, decide_eq_true_eq]
    intro hid
    rw [h op hop hid] at hp
    cases hp

theorem countP_storePermit {ops : List RunningOp} {id : Nat} (hnodup : (ops.map RunningOp.id).Nodup)
    (hin : ∃ op ∈ ops, op.id = id) (h : ∀ op ∈ ops, op.id = id → op.hasPermit = false) :
    (ops.map fun op => if op.id = id then { op with hasPermit := true } else op).countP
      RunningOp.hasPermit = ops.countP RunningOp.hasPermit + 1 := by
  induction ops with
  | nil =>
    obtain ⟨op, hop, -⟩ := hin
    cases hop
  | cons op ops ih =>
    rw [List.map_cons, List.nodup_cons] at hnodup
    rw [List.map_cons, List.countP_cons, List.countP_cons]
    by_cases hid : op.id = id
    · have hrest : (ops.map fun op => if op.id = id then { op with hasPermit := true } else op) = ops := by
        refine (List.map_congr_left fun op' hop' => if_neg fun hid' => hnodup.1 ?_).trans
          (List.map_id'' (fun _ => rfl) ops)
        rw [hid, ← hid']
        exact List.mem_map_of_mem hop'
      rw [hrest, if_pos hid, h op List.mem_cons_self hid]
      rfl
    · obtain ⟨op', hop', hid'⟩ := hin
      have hmem : op' ∈ ops := by
        rcases List.mem_cons.mp hop' with rfl | hop'
        · exact absurd hid' hid
        · exact hop'
      rw [if_neg hid, ih hnodup.2 ⟨op', hmem, hid'⟩ fun op hop => h op (List.mem_cons_of_mem _ hop)]
      omega

/-- The permit of an operation that is removed is free again. -/
theorem permits_remove {s : AppState} (id : Nat) {k : Nat} (hk : s.permits = some k) :
    (s.remove id).permits =
      some (k + (s.ops.filter fun op => op.id = id).countP RunningOp.hasPermit) := by
  rw [AppState.remove, AppState.release, hk]
  rfl

theorem countP_remove {s : AppState} (id k : Nat) :
    k + (s.ops.filter fun op => op.id = id).countP RunningOp.hasPermit +
      ((s.remove id).ops.countP RunningOp.hasPermit + 0) = k + (s.ops.countP RunningOp.hasPermit + 0) := by
  have hsplit := List.countP_eq_countP_filter_add s.ops RunningOp.hasPermit fun op => op.id = id
  change _ + ((s.ops.filter fun op => op.id ≠ id).countP _ + 0) = _
  rw [hsplit]
  simp only [ne_eq, decide_not]
  omega

/-- A step moves permits around. -/
theorem Transition.permits_step {i : Nat} {s s' : AppState} {l l' : Stage}
    (h : Transition i s l s' l') (hnodup : (s.ops.map RunningOp.id).Nodup)
    (hgranted : ∀ id name, l = .granted id name → ∀ op ∈ s.ops, op.id = id → op.hasPermit = false)
    (hqueued : ∀ id name, l = .queued id name → id ∈ s.cancelled ∨ s.permits ≠ some 0)
    {k : Nat} (hk : s.permits = some k) :
    ∃ k', s'.permits = some k' ∧ k' + permitsHeld s' l' = k + permitsHeld s l := by
  cases h with
  | permit h =>
    have hpos : k ≠ 0 := fun h0 => h (by rw [hk, h0])
    refine ⟨k - 1, by rw [AppState.takePermit, hk]; rfl, ?_⟩
    change k - 1 + (s.ops.countP _ + 1) = k + (s.ops.countP _ + 0)
    omega
  | start kind command name hl =>
    refine ⟨k, hk, ?_⟩
    subst hl
    cases kind with
    | «try» => rfl
    | queue => rfl
  | insert id command name h =>
    refine ⟨k, hk, ?_⟩
    change k + ((s.ops ++ [_]).countP _ + 0) = k + (s.ops.countP _ + 1)
    rw [List.countP_append]
    rfl
  | enqueue id command name =>
    refine ⟨k, hk, ?_⟩
    change k + ((s.ops ++ [_]).countP _ + 0) = k + (s.ops.countP _ + 0)
    rw [List.countP_append]
    rfl
  | grant id name h =>
    have hpos : k ≠ 0 := by
      rintro rfl
      rcases hqueued id name rfl with hcancelled | hfree
      · exact h hcancelled hk
      · exact hfree hk
    refine ⟨k - 1, by rw [AppState.takePermit, AppState.stopWaiting, hk]; rfl, ?_⟩
    change k - 1 + (s.ops.countP _ + 1) = k + (s.ops.countP _ + 0)
    omega
  | store id name hin hlive h =>
    refine ⟨k, hk, ?_⟩
    change k + ((s.storePermit id).ops.countP _ + 0) = k + (s.ops.countP _ + 1)
    rw [AppState.storePermit, countP_storePermit hnodup hin (hgranted id name rfl)]
  | halt id name h =>
    refine ⟨k, hk, ?_⟩
    change k + ((s.unregister id).ops.countP _ + 1) = k + (s.ops.countP _ + 1)
    rw [AppState.unregister, countP_unregister (hgranted id name rfl)]
  | reject id name hin hlive h =>
    refine ⟨k, hk, ?_⟩
    change k + ((s.unregister id).ops.countP _ + 1) = k + (s.ops.countP _ + 1)
    rw [AppState.unregister, countP_unregister (hgranted id name rfl)]
  | discard id => exact ⟨_, permits_remove id hk, countP_remove id k⟩
  | remove id => exact ⟨_, permits_remove id hk, countP_remove id k⟩
  | giveBack n hl =>
    refine ⟨k + n, by rw [AppState.release, hk]; rfl, ?_⟩
    have hhand : l.inHand = n := by
      rcases hl with ⟨rfl, rfl⟩ | rfl
      · rfl
      · rfl
    change k + n + (s.ops.countP _ + 0) = k + (s.ops.countP _ + l.inHand)
    omega
  | desert id hl h =>
    refine ⟨k, hk, ?_⟩
    rcases hl with ⟨name, rfl⟩ | rfl
    · rfl
    · rfl
  | take hit h =>
    refine ⟨k, hk, ?_⟩
    have hsplit := List.countP_eq_countP_filter_add s.ops RunningOp.hasPermit hit
    change k + ((s.ops.filter fun op => !hit op).countP _ + (s.ops.filter hit).countP _) =
      k + (s.ops.countP _ + 0)
    omega
  | _ => exact ⟨k, hk, rfl⟩

/-- A task that waits for a permit is known to wait. -/
def Queued (s : AppState) (ls : List Stage) : Prop :=
  ∀ (j id : Nat) (name : Option Str), ls[j]? = some (.queued id name) → (j, id) ∈ s.waiting

/-- All permits are there: they are free, in the registry, or in the hands of tasks. -/
def Budget (n : Nat) (s : AppState) (ls : List Stage) : Prop :=
  ∃ k, s.permits = some k ∧
    k + s.ops.countP RunningOp.hasPermit + (ls.map Stage.inHand).sum = n

section Budget

variable {i n : Nat} {s s' : AppState} {l l' : Stage} {ls : List Stage}

/-- Only the task that waits stops waiting. -/
theorem Transition.waiting_kept (h : Transition i s l s' l') {w : Nat × Nat} (hw : w ∈ s.waiting)
    (hne : w.1 ≠ i) : w ∈ s'.waiting := by
  cases h with
  | enqueue id command name => exact List.mem_append_left _ hw
  | grant id name h => exact List.mem_filter.mpr ⟨hw, by simpa using hne⟩
  | unlist id name h => exact List.mem_filter.mpr ⟨hw, by simpa using hne⟩
  | _ => exact hw

theorem Queued.step (hQ : Queued s ls) (h : Transition i s l s' l') : Queued s' (ls.set i l') := by
  intro j id name hj
  rcases getElem?_set_cases hj with ⟨rfl, rfl⟩ | ⟨hne, hj⟩
  · cases h with
    | enqueue id command name => exact List.mem_append_right _ List.mem_cons_self
  · exact h.waiting_kept (hQ j id name hj) hne

theorem Queued.initial (allowParallel : Bool) (requests : List Request) :
    Queued (AppState.new allowParallel) (serverStart allowParallel requests).minds := by
  intro j id name hj
  cases serverStart_idle hj

/-- A task that waits goes on when there is a permit or when its token is cancelled. -/
theorem Queued.enabled (hQ : Queued s ls) {id : Nat} {name : Option Str}
    (hi : ls[i]? = some (.queued id name)) (hen : serverMachine.enabled i s = true) :
    id ∈ s.cancelled ∨ s.permits ≠ some 0 := by
  have h := List.all_eq_true.mp hen _ (hQ i id name hi)
  simp only [ne_eq, not_true_eq_false, decide_false, Bool.false_or, Bool.or_eq_true,
    decide_eq_true_eq, List.contains_iff_mem] at h
  exact h.symm

theorem Budget.step (hI : Identities s ls) (hK : Kills s ls) (hR : Registered s ls)
    (hQ : Queued s ls) (hB : Budget n s ls) (hi : ls[i]? = some l)
    (hen : serverMachine.enabled i s = true) (h : Transition i s l s' l') :
    Budget n s' (ls.set i l') := by
  obtain ⟨k, hk, hsum⟩ := hB
  obtain ⟨k', hk', hmoved⟩ := h.permits_step hI.opsNodup
    (fun id name hl op hop hid => (hR.op_eq hI hK (hl ▸ hi) rfl hop hid).2)
    (fun id name hl => hQ.enabled (hl ▸ hi) hen) hk
  refine ⟨k', hk', ?_⟩
  have hset := sum_map_set Stage.inHand hi l'
  rw [permitsHeld, permitsHeld] at hmoved
  omega

theorem Budget.initial (requests : List Request) :
    Budget 1 (AppState.new false) (serverStart false requests).minds := by
  refine ⟨1, rfl, ?_⟩
  have hnone : ((serverStart false requests).minds.map Stage.inHand).sum = 0 := by
    rw [List.sum_eq_zero_iff]
    intro x hx
    obtain ⟨l, hl, rfl⟩ := List.mem_map.mp hx
    obtain ⟨j, hj⟩ := List.mem_iff_getElem?.mp hl
    rw [serverStart_idle hj]
    rfl
  rw [hnone]
  rfl

end Budget

/-! ## The server with its permits -/

/-- The registry of the server. -/
structure Registry (s : AppState) (ls : List Stage) : Prop where
  identities : Identities s ls
  kills : Kills s ls
  registered : Registered s ls
  queued : Queued s ls

namespace Registry

variable {i : Nat} {s s' : AppState} {l l' : Stage} {ls : List Stage}

theorem initial (allowParallel : Bool) (requests : List Request) :
    Registry (AppState.new allowParallel) (serverStart allowParallel requests).minds :=
  ⟨.initial _ _, .initial _ _, .initial _ _, .initial _ _⟩

theorem step (hG : Registry s ls) (hi : ls[i]? = some l) (h : Transition i s l s' l') :
    Registry s' (ls.set i l') where
  identities := hG.identities.step hi h
  kills := hG.kills.step hG.identities hi h
  registered := hG.registered.step hG.identities hi h
  queued := hG.queued.step h

theorem move {e : ServerMove} (hG : Registry s ls) (h : serverMachine.move e s ls = some s') :
    Registry s' ls where
  identities := hG.identities.move h
  kills := hG.kills.move h
  registered := by
    obtain ⟨now, active, others, rfl⟩ := move_cases h
    exact hG.registered
  queued := by
    obtain ⟨now, active, others, rfl⟩ := move_cases h
    exact hG.queued

end Registry

end Chbackup
