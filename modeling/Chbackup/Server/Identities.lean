import Chbackup.Server.Transitions

/-!
# Numbers and kills

Two invariants of the server that the others rest on: every operation has its own number and at most
one task, and an operation that a kill has taken never comes back into the registry.
-/

namespace Chbackup

open CallTree

/-- The environment reads the clock, stops tasks, and has locks of its own. -/
theorem move_cases {e : ServerMove} {s s' : AppState} {ls : List Stage}
    (h : serverMachine.move e s ls = some s') :
    ∃ now active others, s' = { s with now := now, active := active, others := others } := by
  cases e with
  | tick now =>
    cases h
    exact ⟨now, s.active, s.others, rfl⟩
  | stopTasks id =>
    change (if id ∈ s.cancelled then _ else none) = _ at h
    split_ifs at h
    cases h
    exact ⟨s.now, _, s.others, rfl⟩
  | othersTake scope =>
    change (if s.lockedOut scope = true then none else _) = _ at h
    split_ifs at h
    cases h
    exact ⟨s.now, s.active, _, rfl⟩
  | othersDrop scope =>
    cases h
    exact ⟨s.now, s.active, _, rfl⟩

/-! ## Numbers -/

namespace Transition

variable {i : Nat} {s s' : AppState} {l l' : Stage}

/-- A transition hands out the next number, or keeps the numbers. -/
theorem nextId_cases (h : Transition i s l s' l') :
    s'.log.nextId = s.log.nextId ∧ (l'.own = none ∨ l'.own = l.own) ∨
      s'.log.nextId = s.log.nextId + 1 ∧ l'.own = some s.log.nextId ∧ s'.ops = s.ops ∧
        ∃ kind name, l' = .begun kind s.log.nextId name := by
  cases h with
  | start kind command name hl => exact Or.inr ⟨rfl, rfl, rfl, kind, name, rfl⟩
  | deny => exact Or.inl ⟨rfl, Or.inl rfl⟩
  | permit h => exact Or.inl ⟨rfl, Or.inl rfl⟩
  | insert id command name h => exact Or.inl ⟨rfl, Or.inr rfl⟩
  | clash id name => exact Or.inl ⟨rfl, Or.inr rfl⟩
  | enqueue id command name => exact Or.inl ⟨rfl, Or.inr rfl⟩
  | grant id name h => exact Or.inl ⟨rfl, Or.inr rfl⟩
  | unlist id name h => exact Or.inl ⟨rfl, Or.inr rfl⟩
  | store id name hin hlive h => exact Or.inl ⟨rfl, Or.inr rfl⟩
  | lost id name h => exact Or.inl ⟨rfl, Or.inl rfl⟩
  | halt id name h => exact Or.inl ⟨rfl, Or.inl rfl⟩
  | reject id name hin hlive h => exact Or.inl ⟨rfl, Or.inr rfl⟩
  | refuse id error => exact Or.inl ⟨rfl, Or.inl rfl⟩
  | discard id => exact Or.inl ⟨rfl, Or.inl rfl⟩
  | remove id => exact Or.inl ⟨rfl, Or.inl rfl⟩
  | giveBack n hl => exact Or.inl ⟨rfl, Or.inl rfl⟩
  | lock id name scope h => exact Or.inl ⟨rfl, Or.inr rfl⟩
  | bar id name scope h => exact Or.inl ⟨rfl, Or.inr rfl⟩
  | begin id name scope => exact Or.inl ⟨rfl, Or.inr rfl⟩
  | stop id name => exact Or.inl ⟨rfl, Or.inr rfl⟩
  | abandon id name h => exact Or.inl ⟨rfl, Or.inl rfl⟩
  | desert id hl h => exact Or.inl ⟨rfl, Or.inl rfl⟩
  | unlock id => exact Or.inl ⟨rfl, Or.inl rfl⟩
  | enter id name => exact Or.inl ⟨rfl, Or.inr rfl⟩
  | leave id => exact Or.inl ⟨rfl, Or.inr rfl⟩
  | close id h => exact Or.inl ⟨rfl, Or.inr rfl⟩
  | take hit h => exact Or.inl ⟨rfl, Or.inl rfl⟩
  | cancel ops => exact Or.inl ⟨rfl, Or.inl rfl⟩
  | mark ops =>
    refine Or.inl ⟨?_, Or.inl rfl⟩
    rw [AppState.marked]
    generalize ops.map RunningOp.id = ids
    dsimp only
    generalize s.log = log
    induction ids generalizing log with
    | nil => rfl
    | cons id ids ih => exact ih _

/-- An operation in the registry was there before, or it is the one that the task registers. -/
theorem ops_cases (h : Transition i s l s' l') :
    (∃ id kind command name permit, l = .begun kind id name ∧
      s'.ops = s.ops ++ [⟨id, command, name, permit⟩]) ∨
    (s'.ops.map RunningOp.id).Sublist (s.ops.map RunningOp.id) := by
  have hsame : ∀ s' : AppState, s'.ops = s.ops →
      (s'.ops.map RunningOp.id).Sublist (s.ops.map RunningOp.id) := fun s' h => by rw [h]
  have hfilter : ∀ (p : RunningOp → Bool) (s' : AppState), s'.ops = s.ops.filter p →
      (s'.ops.map RunningOp.id).Sublist (s.ops.map RunningOp.id) := fun p s' h => by
    rw [h]
    exact List.filter_sublist.map _
  cases h with
  | insert id command name h => exact Or.inl ⟨id, .try, command, name, true, rfl, rfl⟩
  | enqueue id command name => exact Or.inl ⟨id, .queue, command, name, false, rfl, rfl⟩
  | store id name hin hlive h =>
    have hids : (s.storePermit id).ops.map RunningOp.id = s.ops.map RunningOp.id := by
      rw [AppState.storePermit, List.map_map]
      refine List.map_congr_left fun op _ => ?_
      dsimp only [Function.comp]
      split_ifs
      · rfl
      · rfl
    exact Or.inr (by rw [hids])
  | halt id name h => exact Or.inr (hfilter _ _ rfl)
  | reject id name hin hlive h => exact Or.inr (hfilter _ _ rfl)
  | discard id => exact Or.inr (hfilter _ _ rfl)
  | remove id => exact Or.inr (hfilter _ _ rfl)
  | take hit h => exact Or.inr (hfilter _ _ rfl)
  | start kind command name hl => exact Or.inr (hsame _ rfl)
  | deny => exact Or.inr (hsame _ rfl)
  | permit h => exact Or.inr (hsame _ rfl)
  | clash id name => exact Or.inr (hsame _ rfl)
  | grant id name h => exact Or.inr (hsame _ rfl)
  | unlist id name h => exact Or.inr (hsame _ rfl)
  | lost id name h => exact Or.inr (hsame _ rfl)
  | refuse id error => exact Or.inr (hsame _ rfl)
  | giveBack n hl => exact Or.inr (hsame _ rfl)
  | lock id name scope h => exact Or.inr (hsame _ rfl)
  | bar id name scope h => exact Or.inr (hsame _ rfl)
  | begin id name scope => exact Or.inr (hsame _ rfl)
  | stop id name => exact Or.inr (hsame _ rfl)
  | abandon id name h => exact Or.inr (hsame _ rfl)
  | desert id hl h => exact Or.inr (hsame _ rfl)
  | unlock id => exact Or.inr (hsame _ rfl)
  | enter id name => exact Or.inr (hsame _ rfl)
  | leave id => exact Or.inr (hsame _ rfl)
  | close id h => exact Or.inr (hsame _ rfl)
  | cancel ops => exact Or.inr (hsame _ rfl)
  | mark ops => exact Or.inr (hsame _ rfl)

/-- A task that has just logged an action got a new number. -/
theorem begun_cases {kind : StartKind} {id : Nat} {name : Option Str}
    (h : Transition i s l s' (.begun kind id name)) : id = s.log.nextId ∧ s'.ops = s.ops := by
  cases h with
  | start kind command name hl => exact ⟨rfl, rfl⟩

end Transition

/-- Every operation has its own number, and at most one task. -/
structure Identities (s : AppState) (ls : List Stage) : Prop where
  owned : ∀ (j : Nat) (l : Stage) (a : Nat), ls[j]? = some l → l.own = some a → a < s.log.nextId
  single : ∀ (j k : Nat) (l l' : Stage) (a : Nat), ls[j]? = some l → ls[k]? = some l' →
    l.own = some a → l'.own = some a → j = k
  opsFresh : ∀ op ∈ s.ops, op.id < s.log.nextId
  opsNodup : (s.ops.map RunningOp.id).Nodup
  unregistered : ∀ (j : Nat) (kind : StartKind) (a : Nat) (name : Option Str),
    ls[j]? = some (.begun kind a name) → ∀ op ∈ s.ops, op.id ≠ a

namespace Identities

variable {i : Nat} {s s' : AppState} {l l' : Stage} {ls : List Stage}

theorem initial (allowParallel : Bool) (requests : List Request) :
    Identities (AppState.new allowParallel) (serverStart allowParallel requests).minds where
  owned j l a hj ha := by
    rw [serverStart_idle hj] at ha
    cases ha
  single j k l l' a hj _ ha _ := by
    rw [serverStart_idle hj] at ha
    cases ha
  opsFresh op hop := absurd hop List.not_mem_nil
  opsNodup := List.nodup_nil
  unregistered j kind a name hj op hop := absurd hop List.not_mem_nil

theorem nextId_le (h : Transition i s l s' l') : s.log.nextId ≤ s'.log.nextId := by
  rcases h.nextId_cases with ⟨hn, -⟩ | ⟨hn, -⟩
  · omega
  · omega

theorem opsFresh_step (hI : Identities s ls) (hi : ls[i]? = some l) (h : Transition i s l s' l') :
    ∀ op ∈ s'.ops, op.id < s'.log.nextId := by
  intro op hop
  have hle := nextId_le h
  rcases h.ops_cases with ⟨id, kind, command, name, permit, rfl, hops⟩ | hsub
  · rw [hops, List.mem_append, List.mem_singleton] at hop
    rcases hop with hop | rfl
    · exact Nat.lt_of_lt_of_le (hI.opsFresh op hop) hle
    · exact Nat.lt_of_lt_of_le (hI.owned i _ id hi rfl) hle
  · obtain ⟨op', hop', hid⟩ := List.mem_map.mp (hsub.subset (List.mem_map_of_mem hop))
    rw [← hid]
    exact Nat.lt_of_lt_of_le (hI.opsFresh op' hop') hle

theorem opsNodup_step (hI : Identities s ls) (hi : ls[i]? = some l) (h : Transition i s l s' l') :
    (s'.ops.map RunningOp.id).Nodup := by
  rcases h.ops_cases with ⟨id, kind, command, name, permit, rfl, hops⟩ | hsub
  · rw [hops, List.map_append, List.map_singleton]
    refine hI.opsNodup.append (List.nodup_singleton _) fun a ha ha' => ?_
    obtain ⟨op, hop, rfl⟩ := List.mem_map.mp ha
    exact hI.unregistered i kind id name hi op hop (List.mem_singleton.mp ha')
  · exact hI.opsNodup.sublist hsub

/-- The number of a task after a step is new, or it was its number before. -/
theorem own_step (hI : Identities s ls) (hi : ls[i]? = some l) (h : Transition i s l s' l') {a : Nat}
    (ha : l'.own = some a) :
    a < s'.log.nextId ∧ ∀ j k, j ≠ i → ls[j]? = some k → k.own ≠ some a := by
  rcases h.nextId_cases with ⟨hn, hown⟩ | ⟨hn, hown, -⟩
  · rcases hown with hown | hown
    · rw [hown] at ha
      cases ha
    · rw [hown] at ha
      refine ⟨hn ▸ hI.owned i l a hi ha, fun j k hj hk hown' => hj ?_⟩
      exact hI.single j i k l a hk hi hown' ha
  · rw [hown] at ha
    cases ha
    refine ⟨by omega, fun j k _ hk hown' => ?_⟩
    exact absurd (hI.owned j k _ hk hown') (Nat.lt_irrefl _)

theorem step (hI : Identities s ls) (hi : ls[i]? = some l) (h : Transition i s l s' l') :
    Identities s' (ls.set i l') where
  owned := by
    intro j k a hj
    refine forall_getElem?_set (p := fun _ (l : Stage) => l.own = some a → a < s'.log.nextId)
      (fun ha => (hI.own_step hi h ha).1) (fun j k _ hk ha => ?_) j k hj
    exact Nat.lt_of_lt_of_le (hI.owned j k a hk ha) (nextId_le h)
  single := by
    have hnew : ∀ k l'' a, (ls.set i l')[k]? = some l'' → l'.own = some a → l''.own = some a → i = k := by
      refine fun k l'' a hk ha => forall_getElem?_set (p := fun k l'' => l''.own = some a → i = k)
        (fun _ => rfl) (fun k m hne hm hm' => ?_) k l'' hk
      exact absurd hm' ((hI.own_step hi h ha).2 k m hne hm)
    intro j k m m' a hj hk hm hm'
    refine forall_getElem?_set (p := fun j m => m.own = some a → j = k) (fun hm => ?_)
      (fun j m hne hj hm => ?_) j m hj hm
    · exact hnew k m' a hk hm hm'
    · refine forall_getElem?_set (p := fun k m' => m'.own = some a → j = k) (fun hm' => ?_)
        (fun k m' _ hk hm' => hI.single j k m m' a hj hk hm hm') k m' hk hm'
      exact absurd hm ((hI.own_step hi h hm').2 j m hne hj)
  opsFresh := hI.opsFresh_step hi h
  opsNodup := hI.opsNodup_step hi h
  unregistered := by
    refine fun j kind a name hj op hop => ?_
    rcases getElem?_set_cases hj with ⟨-, rfl⟩ | ⟨hji, hj⟩
    · obtain ⟨rfl, hops⟩ := h.begun_cases
      rw [hops] at hop
      exact Nat.ne_of_lt (hI.opsFresh op hop)
    · rcases h.ops_cases with ⟨id, kind', command, name', permit, rfl, hops⟩ | hsub
      · rw [hops, List.mem_append, List.mem_singleton] at hop
        rcases hop with hop | rfl
        · exact hI.unregistered j kind a name hj op hop
        · intro hid
          exact hji (hI.single j i _ _ a hj hi rfl (by rw [← hid]; rfl))
      · obtain ⟨op', hop', hid⟩ := List.mem_map.mp (hsub.subset (List.mem_map_of_mem hop))
        rw [← hid]
        exact hI.unregistered j kind a name hj op' hop'

theorem move {e : ServerMove} (hI : Identities s ls) (h : serverMachine.move e s ls = some s') :
    Identities s' ls := by
  obtain ⟨now, active, others, rfl⟩ := move_cases h
  exact ⟨hI.owned, hI.single, hI.opsFresh, hI.opsNodup, hI.unregistered⟩

end Identities

/-! ## Kills -/

namespace Transition

variable {i : Nat} {s s' : AppState} {l l' : Stage}

/-- The history grows. -/
theorem history_prefix (h : Transition i s l s' l') : s.history <+: s'.history := by
  cases h with
  | start kind command name hl => exact List.prefix_append _ _
  | refuse id error => exact List.prefix_append _ _
  | lock id name scope h => exact List.prefix_append _ _
  | bar id name scope h => exact List.prefix_append _ _
  | begin id name scope => exact List.prefix_append _ _
  | close id h => exact List.prefix_append _ _
  | take hit h => exact List.prefix_append _ _
  | _ => exact List.prefix_refl _

/-- Operations are killed by a kill that finds them in the registry. -/
theorem killed_cases (h : Transition i s l s' l') {a : Nat} (ha : .killed a ∈ s'.history) :
    .killed a ∈ s.history ∨ ∃ hit op, op ∈ s.ops ∧ hit op = true ∧ op.id = a ∧ s' = s.kill hit ∧
      l' = .taken (s.ops.filter hit) := by
  have happend : ∀ event : OpEvent, event ≠ .killed a → .killed a ∈ s.history ++ [event] →
      .killed a ∈ s.history := fun event hne hmem => by
    rw [List.mem_append, List.mem_singleton] at hmem
    exact hmem.resolve_right (Ne.symm hne)
  cases h with
  | start kind command name hl => exact Or.inl (happend _ (by simp) ha)
  | refuse id error => exact Or.inl (happend _ (by simp) ha)
  | lock id name scope h => exact Or.inl (happend _ (by simp) ha)
  | bar id name scope h => exact Or.inl (happend _ (by simp) ha)
  | begin id name scope => exact Or.inl (happend _ (by simp) ha)
  | close id h =>
    cases h with
    | finished => exact Or.inl (happend _ (by simp) ha)
    | failed error => exact Or.inl (happend _ (by simp) ha)
  | take hit h =>
    rcases List.mem_append.mp ha with ha | ha
    · exact Or.inl ha
    · obtain ⟨op, hop, heq⟩ := List.mem_map.mp ha
      obtain ⟨hmem, hhit⟩ := List.mem_filter.mp hop
      exact Or.inr ⟨hit, op, hmem, hhit, by simpa using heq, rfl, rfl⟩
  | _ => exact Or.inl ha

/-- A token is cancelled by the kill that took its operation. -/
theorem cancelled_cases (h : Transition i s l s' l') {a : Nat} (ha : a ∈ s'.cancelled) :
    a ∈ s.cancelled ∨ ∃ op ∈ l.unmarked, op.id = a := by
  cases h with
  | cancel ops =>
    rcases List.mem_append.mp ha with ha | ha
    · exact Or.inl ha
    · exact Or.inr (List.mem_map.mp ha)
  | _ => exact Or.inl ha

/-- A task has taken the operations of its kill out of the registry. -/
theorem unmarked_cases (h : Transition i s l s' l') {op : RunningOp} (hop : op ∈ l'.unmarked) :
    op ∈ l.unmarked ∨ .killed op.id ∈ s'.history := by
  cases h with
  | cancel ops => exact Or.inl hop
  | take hit h => exact Or.inr (List.mem_append_right _ (List.mem_map_of_mem hop))
  | _ => cases hop

/-- A task stops waiting without a permit because its token is cancelled. -/
theorem unlisted_cases {a : Nat} (h : Transition i s l s' (.unlisted a)) : a ∈ s.cancelled := by
  cases h with
  | unlist id name h => exact h

end Transition

/-- An operation that a kill has taken is not in the registry. -/
structure Kills (s : AppState) (ls : List Stage) : Prop where
  fresh : ∀ a : Nat, .killed a ∈ s.history → a < s.log.nextId
  gone : ∀ a : Nat, .killed a ∈ s.history → ∀ op ∈ s.ops, op.id ≠ a
  unregistered : ∀ (j : Nat) (kind : StartKind) (a : Nat) (name : Option Str),
    ls[j]? = some (.begun kind a name) → .killed a ∉ s.history
  cancelled : ∀ a ∈ s.cancelled, .killed a ∈ s.history
  unmarked : ∀ (j : Nat) (l : Stage), ls[j]? = some l → ∀ op ∈ l.unmarked, .killed op.id ∈ s.history
  unlisted : ∀ (j : Nat) (a : Nat), ls[j]? = some (.unlisted a) → .killed a ∈ s.history

namespace Kills

variable {i : Nat} {s s' : AppState} {l l' : Stage} {ls : List Stage}

theorem initial (allowParallel : Bool) (requests : List Request) :
    Kills (AppState.new allowParallel) (serverStart allowParallel requests).minds where
  fresh a ha := absurd ha List.not_mem_nil
  gone a ha := absurd ha List.not_mem_nil
  unregistered j kind a name hj := List.not_mem_nil
  cancelled a ha := absurd ha List.not_mem_nil
  unmarked j l hj op hop := by
    rw [serverStart_idle hj] at hop
    cases hop
  unlisted j a hj := by cases serverStart_idle hj

theorem gone_step (hI : Identities s ls) (hK : Kills s ls) (hi : ls[i]? = some l)
    (h : Transition i s l s' l') {a : Nat} (ha : .killed a ∈ s'.history) :
    ∀ op ∈ s'.ops, op.id ≠ a := by
  intro op hop
  rcases h.killed_cases ha with ha | ⟨hit, op', hop', hhit, rfl, rfl, -⟩
  · rcases h.ops_cases with ⟨id, kind, command, name, permit, rfl, hops⟩ | hsub
    · rw [hops, List.mem_append, List.mem_singleton] at hop
      rcases hop with hop | rfl
      · exact hK.gone a ha op hop
      · rintro rfl
        exact hK.unregistered i kind id name hi ha
    · obtain ⟨op', hop', hid⟩ := List.mem_map.mp (hsub.subset (List.mem_map_of_mem hop))
      rw [← hid]
      exact hK.gone a ha op' hop'
  · obtain ⟨hmem, hnot⟩ := List.mem_filter.mp hop
    intro hid
    have hsame : op = op' := List.inj_on_of_nodup_map hI.opsNodup hmem hop' hid
    rw [hsame, hhit] at hnot
    cases hnot

theorem step (hI : Identities s ls) (hK : Kills s ls) (hi : ls[i]? = some l)
    (h : Transition i s l s' l') : Kills s' (ls.set i l') where
  fresh a ha := by
    refine Nat.lt_of_lt_of_le ?_ (Identities.nextId_le h)
    rcases h.killed_cases ha with ha | ⟨hit, op, hop, -, rfl, -⟩
    · exact hK.fresh a ha
    · exact hI.opsFresh op hop
  gone a ha := hK.gone_step hI hi h ha
  unregistered j kind a name hj ha := by
    have hsplit := getElem?_set_cases hj
    rcases h.killed_cases ha with ha | ⟨hit, op, hop, -, rfl, -, rfl⟩
    · rcases hsplit with ⟨-, rfl⟩ | ⟨-, hj⟩
      · obtain ⟨rfl, -⟩ := h.begun_cases
        exact absurd (hK.fresh _ ha) (Nat.lt_irrefl _)
      · exact hK.unregistered j kind a name hj ha
    · rcases hsplit with ⟨-, heq⟩ | ⟨-, hj⟩
      · cases heq
      · exact hI.unregistered j kind _ name hj op hop rfl
  cancelled a ha := by
    rcases h.cancelled_cases ha with ha | ⟨op, hop, rfl⟩
    · exact h.history_prefix.subset (hK.cancelled a ha)
    · exact h.history_prefix.subset (hK.unmarked i l hi op hop)
  unmarked j m hj op hop := by
    rcases getElem?_set_cases hj with ⟨-, rfl⟩ | ⟨-, hj⟩
    · rcases h.unmarked_cases hop with hop | hop
      · exact h.history_prefix.subset (hK.unmarked i l hi op hop)
      · exact hop
    · exact h.history_prefix.subset (hK.unmarked j m hj op hop)
  unlisted j a hj := by
    rcases getElem?_set_cases hj with ⟨-, rfl⟩ | ⟨-, hj⟩
    · exact h.history_prefix.subset (hK.cancelled a h.unlisted_cases)
    · exact h.history_prefix.subset (hK.unlisted j a hj)

theorem move {e : ServerMove} (hK : Kills s ls) (h : serverMachine.move e s ls = some s') :
    Kills s' ls := by
  obtain ⟨now, active, others, rfl⟩ := move_cases h
  exact ⟨hK.fresh, hK.gone, hK.unregistered, hK.cancelled, hK.unmarked, hK.unlisted⟩

end Kills

end Chbackup
