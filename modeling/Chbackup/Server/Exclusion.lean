import Chbackup.Server.Permits

/-!
# One body per backup

Operations with one backup name are kept apart by the registry, and all operations of a serial
server by its permit.  `kill_op` gives both back at once, while the body of the operation, or a task
that it has spawned, may go on.
-/

namespace Chbackup

open CallTree

/-! ## One permit per name -/

/-- Of the operations with one name, at most one has a permit. -/
def OnePermit (ops : List RunningOp) : Prop :=
  ∀ op ∈ ops, ∀ op' ∈ ops, op.hasPermit = true → op'.hasPermit = true →
    op.backupName.isSome = true → op.backupName = op'.backupName → op.id = op'.id

theorem OnePermit.sublist {ops ops' : List RunningOp} (h : OnePermit ops) (hsub : ops' ⊆ ops) :
    OnePermit ops' := fun op hop op' hop' => h op (hsub hop) op' (hsub hop')

/-- An operation without a permit may be added. -/
theorem OnePermit.append {ops : List RunningOp} {op : RunningOp} (h : OnePermit ops)
    (hnew : op.hasPermit = true → ∀ op' ∈ ops, op.backupName.isSome = true →
      op'.backupName ≠ op.backupName) : OnePermit (ops ++ [op]) := by
  intro op₁ h₁ op₂ h₂ hp₁ hp₂ hsome hname
  rw [List.mem_append, List.mem_singleton] at h₁ h₂
  rcases h₁ with h₁ | rfl
  · rcases h₂ with h₂ | rfl
    · exact h op₁ h₁ op₂ h₂ hp₁ hp₂ hsome hname
    · exact absurd hname (hnew hp₂ op₁ h₁ (hname ▸ hsome))
  · rcases h₂ with h₂ | rfl
    · exact absurd hname.symm (hnew hp₁ op₂ h₂ hsome)
    · rfl

/-- A permit may be stored if no other operation has the name. -/
theorem OnePermit.store {ops : List RunningOp} {id : Nat} {name : Option Str} (h : OnePermit ops)
    (hname : ∀ op ∈ ops, op.id = id → op.backupName = name)
    (hother : ∀ op ∈ ops, op.id ≠ id → name.isSome = true → op.backupName ≠ name) :
    OnePermit (ops.map fun op => if op.id = id then { op with hasPermit := true } else op) := by
  -- an operation of the new list has the number and the name of one of the old list
  have hold : ∀ op ∈ ops.map fun op => if op.id = id then { op with hasPermit := true } else op,
      ∃ op' ∈ ops, op'.id = op.id ∧ op'.backupName = op.backupName ∧
        (op.id ≠ id → op'.hasPermit = op.hasPermit) := by
    intro op hop
    obtain ⟨op', hop', rfl⟩ := List.mem_map.mp hop
    refine ⟨op', hop', ?_⟩
    split_ifs with hid
    · exact ⟨rfl, rfl, fun hne => absurd hid hne⟩
    · exact ⟨rfl, rfl, fun _ => rfl⟩
  intro op₁ h₁ op₂ h₂ hp₁ hp₂ hsome heq
  obtain ⟨op₁', hmem₁, hid₁, hname₁, hpermit₁⟩ := hold op₁ h₁
  obtain ⟨op₂', hmem₂, hid₂, hname₂, hpermit₂⟩ := hold op₂ h₂
  by_cases he₁ : op₁.id = id
  · by_cases he₂ : op₂.id = id
    · exact he₁.trans he₂.symm
    · have hn := hname op₁' hmem₁ (hid₁.trans he₁)
      refine absurd ?_ (hother op₂' hmem₂ (hid₂ ▸ he₂) (hn ▸ hname₁ ▸ hsome))
      rw [hname₂, ← heq, ← hname₁, hn]
  · by_cases he₂ : op₂.id = id
    · have hn := hname op₂' hmem₂ (hid₂.trans he₂)
      refine absurd ?_ (hother op₁' hmem₁ (hid₁ ▸ he₁) ?_)
      · rw [hname₁, heq, ← hname₂, hn]
      · rw [← hn, hname₂, ← heq]
        exact hsome
    · rw [← hid₁, ← hid₂]
      refine h op₁' hmem₁ op₂' hmem₂ ?_ ?_ (hname₁ ▸ hsome) ?_
      · rw [hpermit₁ he₁, hp₁]
      · rw [hpermit₂ he₂, hp₂]
      · rw [hname₁, hname₂, heq]

section OnePermit

variable {i : Nat} {s s' : AppState} {l l' : Stage} {ls : List Stage}

theorem OnePermit.step (hG : Registry s ls) (hO : OnePermit s.ops) (hi : ls[i]? = some l)
    (h : Transition i s l s' l') : OnePermit s'.ops := by
  cases h with
  | insert id command name h => exact hO.append fun _ => h
  | enqueue id command name => exact hO.append fun hp => by cases hp
  | store id name hin hlive h =>
    refine hO.store (fun op hop hid => ?_) h
    exact (hG.registered.op_eq hG.identities hG.kills hi rfl hop hid).1
  | halt id name h => exact hO.sublist List.filter_sublist.subset
  | reject id name hin hlive h => exact hO.sublist List.filter_sublist.subset
  | discard id => exact hO.sublist List.filter_sublist.subset
  | remove id => exact hO.sublist List.filter_sublist.subset
  | take hit h => exact hO.sublist List.filter_sublist.subset
  | _ => exact hO

end OnePermit

/-! ## Bodies -/

/-- Two operations that must not be active at once. -/
def Conflicting (allowParallel : Bool) (name name' : Option Str) : Prop :=
  allowParallel = false ∨ name.isSome = true ∧ name = name'

instance conflictingDecidable (allowParallel : Bool) (name name' : Option Str) :
    Decidable (Conflicting allowParallel name name') :=
  inferInstanceAs (Decidable (_ ∨ _))

/-- No two conflicting operations are active. -/
def OneBody (allowParallel : Bool) (s : AppState) : Prop :=
  s.active.Pairwise fun b b' => ¬Conflicting allowParallel b.2 b'.2

/-- The operation that begins its body in the next section of the task. -/
def Stage.begins : Stage → List (Nat × Option Str)
  | locked id name _ => [(id, name)]
  | _ => []

/-- No operation begins its body beside the body of a conflicting operation, one of the two being
killed. -/
def NoneLingers (allowParallel : Bool) (s : AppState) (ls : List Stage) : Nat ⊕ ServerMove → Prop
  | .inl i => ∀ x ∈ ls[i]?.elim [] Stage.begins, ∀ b ∈ s.active, Conflicting allowParallel b.2 x.2 →
      .killed b.1 ∉ s.history ∧ .killed x.1 ∉ s.history
  | .inr _ => True

instance noneLingersDecidable (allowParallel : Bool) (s : AppState) (ls : List Stage) :
    (a : Nat ⊕ ServerMove) → Decidable (NoneLingers allowParallel s ls a)
  | .inl i => inferInstanceAs (Decidable (∀ x ∈ ls[i]?.elim [] Stage.begins, ∀ b ∈ s.active,
      Conflicting allowParallel b.2 x.2 → .killed b.1 ∉ s.history ∧ .killed x.1 ∉ s.history))
  | .inr _ => isTrue trivial

/-- A body that is active is that of a task, or of a killed operation. -/
def Attended (s : AppState) (ls : List Stage) : Prop :=
  ∀ b ∈ s.active, .killed b.1 ∈ s.history ∨ ∃ j : Nat, ls[j]? = some (.working b.1 b.2)

section Bodies

variable {i : Nat} {s s' : AppState} {l l' : Stage} {ls : List Stage} {allowParallel : Bool}

/-- A body begins, stops, or goes on. -/
theorem Transition.active_cases (h : Transition i s l s' l') :
    (∃ id name scope, l = .locked id name scope ∧ l' = .working id name ∧ s'.active = s.active ++ [(id, name)]) ∨
    (∃ id name, l = .working id name ∧ s'.active = s.active.filter fun b => b.1 ≠ id) ∨
    (s'.active = s.active ∧ ((∃ id name, l = .working id name ∧ id ∈ s.cancelled) ∨
      ∀ id name, l ≠ .working id name)) := by
  cases h with
  | begin id name scope => exact Or.inl ⟨id, name, scope, rfl, rfl, rfl⟩
  | stop id name => exact Or.inr (Or.inl ⟨id, name, rfl, rfl⟩)
  | desert id hl h =>
    rcases hl with ⟨name, rfl⟩ | rfl
    · exact Or.inr (Or.inr ⟨rfl, Or.inl ⟨id, name, rfl, h⟩⟩)
    · exact Or.inr (Or.inr ⟨rfl, Or.inr fun _ _ hl => by cases hl⟩)
  | start kind command name hl =>
    subst hl
    cases kind with
    | «try» => exact Or.inr (Or.inr ⟨rfl, Or.inr fun _ _ hl => by cases hl⟩)
    | queue => exact Or.inr (Or.inr ⟨rfl, Or.inr fun _ _ hl => by cases hl⟩)
  | giveBack n hl =>
    rcases hl with ⟨rfl, -⟩ | rfl
    · exact Or.inr (Or.inr ⟨rfl, Or.inr fun _ _ hl => by cases hl⟩)
    · exact Or.inr (Or.inr ⟨rfl, Or.inr fun _ _ hl => by cases hl⟩)
  | _ => exact Or.inr (Or.inr ⟨rfl, Or.inr fun _ _ hl => by cases hl⟩)

theorem Attended.step (hK : Kills s ls) (hA : Attended s ls) (hi : ls[i]? = some l)
    (h : Transition i s l s' l') : Attended s' (ls.set i l') := by
  have hself : (ls.set i l')[i]? = some l' :=
    List.getElem?_set_self (List.getElem?_eq_some_iff.mp hi).1
  -- a body of before that is not the one of this task
  have hold : ∀ b ∈ s.active, (∀ id name, l = .working id name → id ≠ b.1) →
      .killed b.1 ∈ s'.history ∨ ∃ j : Nat, (ls.set i l')[j]? = some (.working b.1 b.2) := by
    intro b hb hne
    rcases hA b hb with hkilled | ⟨j, hj⟩
    · exact Or.inl (h.history_prefix.subset hkilled)
    · refine Or.inr ⟨j, ?_⟩
      rw [List.getElem?_set_ne, hj]
      rintro rfl
      exact hne _ _ (Option.some.inj (hi.symm.trans hj)) rfl
  intro b hb
  rcases h.active_cases with ⟨id, name, scope, rfl, rfl, hact⟩ | ⟨id, name, rfl, hact⟩ | ⟨hact, hl⟩
  · rw [hact, List.mem_append, List.mem_singleton] at hb
    rcases hb with hb | rfl
    · exact hold b hb fun _ _ hl => by cases hl
    · exact Or.inr ⟨i, hself⟩
  · rw [hact] at hb
    obtain ⟨hb, hne⟩ := List.mem_filter.mp hb
    refine hold b hb fun id' name' hl => ?_
    cases hl
    exact Ne.symm (of_decide_eq_true hne)
  · rw [hact] at hb
    rcases hl with ⟨id, name, rfl, hcancelled⟩ | hl
    · by_cases hid : id = b.1
      · subst hid
        exact Or.inl (h.history_prefix.subset (hK.cancelled _ hcancelled))
      · refine hold b hb fun id' name' hl => ?_
        cases hl
        exact hid
    · exact hold b hb fun id name heq => absurd heq (hl id name)

/-- Two operations with permits are two permits. -/
theorem two_le_countP {ops : List RunningOp} {op op' : RunningOp} (hop : op ∈ ops) (hop' : op' ∈ ops)
    (hne : op.id ≠ op'.id) (hp : op.hasPermit = true) (hp' : op'.hasPermit = true) :
    2 ≤ ops.countP RunningOp.hasPermit := by
  induction ops with
  | nil => cases hop
  | cons x ops ih =>
    rw [List.countP_cons]
    rcases List.mem_cons.mp hop with rfl | hmem
    · rcases List.mem_cons.mp hop' with rfl | hmem'
      · exact absurd rfl hne
      · have hpos : 0 < ops.countP RunningOp.hasPermit := List.countP_pos_iff.mpr ⟨op', hmem', hp'⟩
        rw [if_pos hp]
        omega
    · rcases List.mem_cons.mp hop' with rfl | hmem'
      · have hpos : 0 < ops.countP RunningOp.hasPermit := List.countP_pos_iff.mpr ⟨op, hmem, hp⟩
        rw [if_pos hp']
        omega
      · have := ih hmem hmem'
        omega

/-- **Two operations that are registered with permits do not conflict**, if a serial server has one
permit. -/
theorem not_conflicting (hG : Registry s ls) (hO : OnePermit s.ops)
    (hB : allowParallel = false → Budget 1 s ls) {j k a a' : Nat} {name name' : Option Str} {m m' : Stage}
    (hj : ls[j]? = some m) (hk : ls[k]? = some m') (hm : m.registers = some (a, name, true))
    (hm' : m'.registers = some (a', name', true)) (hne : a ≠ a') (hlive : .killed a ∉ s.history)
    (hlive' : .killed a' ∉ s.history) : ¬Conflicting allowParallel name name' := by
  obtain ⟨op, hop, rfl, rfl, hp⟩ := (hG.registered j m a name true hj hm).resolve_left hlive
  obtain ⟨op', hop', rfl, rfl, hp'⟩ := (hG.registered k m' a' name' true hk hm').resolve_left hlive'
  rintro (hserial | ⟨hsome, hname⟩)
  · obtain ⟨free, -, hsum⟩ := hB hserial
    have htwo := two_le_countP hop hop' hne hp hp'
    omega
  · exact hne (hO op hop op' hop' hp hp' hsome hname)

/-- The body of an operation begins beside bodies that it does not conflict with. -/
theorem OneBody.step (hG : Registry s ls) (hO : OnePermit s.ops) (hA : Attended s ls)
    (hB : allowParallel = false → Budget 1 s ls) (hbody : OneBody allowParallel s)
    (hi : ls[i]? = some l) (hok : NoneLingers allowParallel s ls (.inl i))
    (h : Transition i s l s' l') : OneBody allowParallel s' := by
  rcases h.active_cases with ⟨id, name, scope, rfl, rfl, hact⟩ | ⟨id, name, rfl, hact⟩ | ⟨hact, -⟩
  · rw [OneBody, hact, List.pairwise_append]
    refine ⟨hbody, List.pairwise_singleton _ _, fun b hb b' hb' => ?_⟩
    obtain rfl := List.mem_singleton.mp hb'
    intro hconf
    obtain ⟨hlive, hlive'⟩ := hok (id, name) (by rw [hi]; exact List.mem_cons_self) b hb hconf
    obtain ⟨j, hj⟩ := (hA b hb).resolve_left hlive
    refine not_conflicting hG hO hB hj hi rfl rfl ?_ hlive hlive' hconf
    intro hid
    have hij := hG.identities.single j i _ _ id hj hi (by rw [hid]; rfl) rfl
    subst hij
    cases hi.symm.trans hj
  · rw [OneBody, hact]
    exact hbody.sublist List.filter_sublist
  · rw [OneBody, hact]
    exact hbody

end Bodies

/-! ## Runs -/

/-- The bodies of the server are kept apart. -/
structure Separate (allowParallel : Bool) (s : AppState) (ls : List Stage) : Prop where
  registry : Registry s ls
  onePermit : OnePermit s.ops
  attended : Attended s ls
  budget : allowParallel = false → Budget 1 s ls
  oneBody : OneBody allowParallel s

theorem Separate.move {allowParallel : Bool} {e : ServerMove} {s s' : AppState} {ls : List Stage}
    (hS : Separate allowParallel s ls) (h : serverMachine.move e s ls = some s') :
    Separate allowParallel s' ls := by
  have hregistry := hS.registry.move h
  cases e with
  | tick now =>
    cases h
    exact ⟨hregistry, hS.onePermit, hS.attended, hS.budget, hS.oneBody⟩
  | stopTasks id =>
    change (if id ∈ s.cancelled then _ else none) = _ at h
    split_ifs at h
    cases h
    refine ⟨hregistry, hS.onePermit, fun b hb => ?_, hS.budget, hS.oneBody.sublist List.filter_sublist⟩
    exact hS.attended b (List.mem_filter.mp hb).1
  | othersTake scope =>
    change (if s.lockedOut scope = true then none else _) = _ at h
    split_ifs at h
    cases h
    exact ⟨hregistry, hS.onePermit, hS.attended, hS.budget, hS.oneBody⟩
  | othersDrop scope =>
    cases h
    exact ⟨hregistry, hS.onePermit, hS.attended, hS.budget, hS.oneBody⟩

/-- **At most one body per backup**, and in all in a serial server, in every run in which no
operation begins beside a conflicting body when one of the two was killed. -/
theorem one_body_per_backup {allowParallel : Bool} {requests : List Request} {s : ServerThreads}
    (hr : serverMachine.Reaches (NoneLingers allowParallel) (serverStart allowParallel requests) s) :
    OneBody allowParallel s.shared := by
  have hseparate : Separate allowParallel s.shared s.minds := by
    refine server_invariant hr ⟨.initial _ _, ?_, ?_, ?_, List.Pairwise.nil⟩ ?_ ?_
    · intro op hop
      cases hop
    · intro b hb
      cases hb
    · rintro rfl
      exact Budget.initial requests
    · intro i l l' ls s s' hS hi hen hok h
      have hR := hS.registry
      refine ⟨hR.step hi h, hS.onePermit.step hR hi h, hS.attended.step hR.kills hi h, ?_, ?_⟩
      · intro hserial
        exact (hS.budget hserial).step hR.identities hR.kills hR.registered hR.queued hi hen h
      · exact hS.oneBody.step hR hS.onePermit hS.attended hS.budget hi hok h
    · intro e ls s s' hS _ h
      exact hS.move h
  exact hseparate.oneBody

/-- Two uploads of one backup: the second is refused while the first is active. -/
theorem second_upload_refused :
    ∃ s, serverMachine.Reaches (NoneLingers true) (serverStart true
        [.operation "upload" (some "b") undisturbed, .operation "upload" (some "b") undisturbed]) s ∧
      s.shared.active = [(1, some ("b" : Str))] ∧ s.minds = [.working 1 (some "b"), .refused 2] ∧
      OneBody true s.shared := by
  have hrun : ((serverMachine.runWhere (NoneLingers true) ([0, 0, 0, 0, 0, 0, 1, 1, 1].map .inl)
      (serverStart true [.operation "upload" (some "b") undisturbed,
        .operation "upload" (some "b") undisturbed])).map fun s => (s.shared.active, s.minds)) =
      some ([(1, some ("b" : Str))], [.working 1 (some "b"), .refused 2]) := by
    decide +kernel
  obtain ⟨s, hs, heq⟩ := Option.map_eq_some_iff.mp hrun
  obtain ⟨hactive, hminds⟩ : _ ∧ _ := by simpa only [Prod.mk.injEq] using heq
  have hr := Machine.reaches_of_runWhere .refl hs
  exact ⟨s, hr, hactive, hminds, one_body_per_backup hr⟩

/-- **A kill lets a second body in**: an upload is killed, and its permit, its registry entry and its PID
lock are given back; while the task that it has spawned goes on, a second upload of the backup begins. -/
theorem killed_body_lingers :
    ¬∀ allowParallel requests (s : ServerThreads),
      serverMachine.Reaches (fun _ _ _ => True) (serverStart allowParallel requests) s →
      OneBody allowParallel s.shared := by
  intro hall
  have hrun : ((serverMachine.run ([0, 0, 0, 0, 0, 0, 1, 1, 1, 1, 0, 0, 2, 2, 2, 2, 2, 2].map .inl)
      (serverStart false [.operation "upload" (some "b") undisturbed, .kill none,
        .operation "upload" (some "b") undisturbed])).map fun s => s.shared.active) =
      some [(1, some ("b" : Str)), (2, some ("b" : Str))] := by
    decide +kernel
  obtain ⟨s, hs, hactive⟩ := Option.map_eq_some_iff.mp hrun
  have hr := Machine.reaches_of_run .refl (fun _ _ _ _ => trivial) hs
  have hbody := hall false _ s hr
  rw [OneBody, hactive] at hbody
  exact List.rel_of_pairwise_cons hbody List.mem_cons_self (Or.inl rfl)

end Chbackup
