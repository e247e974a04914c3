import Chbackup.Server.Identities

/-!
# The action log

What the log says about an operation, and what happened to it.  `ActionLog::finish` and
`ActionLog::fail` leave a killed entry alone; `ActionLog::kill` overwrites whatever it finds.
-/

namespace Chbackup

open CallTree

/-! ## Entries -/

namespace ActionLog

variable (log : ActionLog)

/-- The entry of a killed action. -/
def killedEntry (now : Nat) (e : ActionEntry) : ActionEntry :=
  { e with finish := some now, status := .killed }

theorem mem_update {log : ActionLog} {id : Nat} {f : ActionEntry → ActionEntry} {e' : ActionEntry} :
    e' ∈ (log.update id f).entries ↔ ∃ e ∈ log.entries, e' = if e.id = id then f e else e := by
  rw [update, List.mem_map]
  exact exists_congr fun e => and_congr_right fun _ => eq_comm

theorem entries_kill (ids : List Nat) (now : Nat) :
    (ids.foldl (fun log id => log.kill id now) log).entries =
      log.entries.map fun e => if e.id ∈ ids then killedEntry now e else e := by
  induction ids generalizing log with
  | nil => simp
  | cons id ids ih =>
    rw [List.foldl_cons, ih, kill, update, List.map_map]
    refine List.map_congr_left fun e _ => ?_
    by_cases h : e.id = id
    · subst h
      simp [killedEntry]
    · simp [h]

theorem map_id_update {id : Nat} {f : ActionEntry → ActionEntry} (hf : ∀ e, (f e).id = e.id) :
    (log.update id f).entries.map ActionEntry.id = log.entries.map ActionEntry.id := by
  rw [update, List.map_map]
  refine List.map_congr_left fun e _ => ?_
  dsimp only [Function.comp]
  split_ifs
  · exact hf e
  · rfl

theorem map_id_kill (ids : List Nat) (now : Nat) :
    (ids.foldl (fun log id => log.kill id now) log).entries.map ActionEntry.id =
      log.entries.map ActionEntry.id := by
  rw [entries_kill, List.map_map]
  refine List.map_congr_left fun e _ => ?_
  dsimp only [Function.comp]
  split_ifs
  · rfl
  · rfl

end ActionLog

/-- In its next section the task logs a rejection or marks operations as killed. -/
def Stage.closing : Stage → Bool
  | refused _ => true
  | marking _ => true
  | _ => false

/-- The outcome of the operation of the task is logged. -/
def Stage.told : Stage → Bool
  | logged _ => true
  | leaving _ => true
  | _ => false

/-- The event is the end of the operation. -/
def OpEvent.ends (a : Nat) : OpEvent → Bool
  | finished id => id = a
  | failed id _ => id = a
  | killed id => id = a
  | _ => false

/-- What a transition does to the log and to the history. -/
inductive LogStep (i : Nat) (s : AppState) (l : Stage) (s' : AppState) (l' : Stage) : Prop where
  | same (hlog : s'.log = s.log)
      (hhistory : s'.history = s.history ∨
        ∃ event, s'.history = s.history ++ [event] ∧ ∀ a, event.ends a = false)
      (hl : l.closing = false)
  | start (kind : StartKind) (command : Str) (name : Option Str) (hs : s' = s.logStarted i kind command)
      (hl : l' = .begun kind s.log.nextId name) (hl₀ : l.closing = false)
  | close (a : Nat) (status : ActionStatus) (event : OpEvent) (hown : l.own = some a)
      (hunsaid : l.told = false) (h : Outcome a status event) (hs : s' = s.closed a status event)
      (hl : l' = .logged a ∨ l' = .spare)
  | take (hit : RunningOp → Bool) (hs : s' = s.kill hit) (hl : l' = .taken (s.ops.filter hit))
      (hl₀ : l.closing = false)
  | mark (ops : List RunningOp) (hs : s' = s.marked (ops.map RunningOp.id)) (hl : l = .marking ops)
      (hl' : l' = .dropping (ops.countP RunningOp.hasPermit))

theorem Transition.logStep {i : Nat} {s s' : AppState} {l l' : Stage} (h : Transition i s l s' l') :
    LogStep i s l s' l' := by
  cases h with
  | start kind command name hl =>
    refine .start kind command name rfl rfl ?_
    rw [hl]
    split_ifs
    · rfl
    · rfl
  | refuse id error =>
    exact .close id _ _ rfl rfl (.failed error) rfl (Or.inr rfl)
  | close id h => exact .close id _ _ rfl rfl h rfl (Or.inl rfl)
  | take hit h => exact .take hit rfl rfl rfl
  | mark ops => exact .mark ops rfl rfl rfl
  | lock id name scope h => exact .same rfl (Or.inr ⟨_, rfl, fun _ => rfl⟩) rfl
  | bar id name scope h => exact .same rfl (Or.inr ⟨_, rfl, fun _ => rfl⟩) rfl
  | begin id name scope => exact .same rfl (Or.inr ⟨_, rfl, fun _ => rfl⟩) rfl
  | giveBack n hl =>
    rcases hl with ⟨rfl, -⟩ | rfl
    · exact .same rfl (Or.inl rfl) rfl
    · exact .same rfl (Or.inl rfl) rfl
  | desert id hl h =>
    rcases hl with ⟨name, rfl⟩ | rfl
    · exact .same rfl (Or.inl rfl) rfl
    · exact .same rfl (Or.inl rfl) rfl
  | _ => exact .same rfl (Or.inl rfl) rfl

/-- A task whose outcome is logged, and that still has its operation, logged it in this step or
before. -/
theorem Transition.told_cases {i a : Nat} {s s' : AppState} {l l' : Stage}
    (h : Transition i s l s' l') (hown : l'.own = some a) (htold : l'.told = true) :
    (l.own = some a ∧ l.told = true ∧ s' = s) ∨
      ∃ status event, Outcome a status event ∧ s' = s.closed a status event := by
  cases h with
  | close id h =>
    cases hown
    exact Or.inr ⟨_, _, h, rfl⟩
  | leave id => exact Or.inl ⟨hown, rfl, rfl⟩
  | _ => cases htold

/-- A task whose outcome is logged leaves its operation, or stays so. -/
theorem Transition.told_kept {i a : Nat} {s s' : AppState} {l l' : Stage}
    (h : Transition i s l s' l') (htold : l.told = true) (hown : l'.own = some a) :
    l'.told = true := by
  cases h with
  | leave id => rfl
  | start kind command name hl =>
    subst hl
    cases kind with
    | «try» => cases htold
    | queue => cases htold
  | remove id => cases hown
  | giveBack n hl => cases hown
  | desert id hl h => cases hown
  | _ => cases htold

/-! ## What the log should say -/

/-- How an operation first ended. -/
def firstOutcome (history : List OpEvent) (a : Nat) : Option OpEvent := history.find? (OpEvent.ends a)

/-- The status that an operation should have.  One that was killed while it ran may still be
running, or may have come to its end. -/
def Told (history : List OpEvent) (e : ActionEntry) : Prop :=
  match firstOutcome history e.id with
  | some (.finished _) => e.status = .completed
  | some (.failed _ error) => e.status = .failed error
  | some _ => True
  | none => e.status = .running

theorem firstOutcome_append_of_some {history events : List OpEvent} {a : Nat} {event : OpEvent}
    (h : firstOutcome history a = some event) : firstOutcome (history ++ events) a = some event := by
  rw [firstOutcome, List.find?_append]
  rw [firstOutcome] at h
  rw [h]
  rfl

theorem firstOutcome_append_of_not {history events : List OpEvent} {a : Nat}
    (h : ∀ event ∈ events, event.ends a = false) :
    firstOutcome (history ++ events) a = firstOutcome history a := by
  have hnone : events.find? (OpEvent.ends a) = none := by
    rw [List.find?_eq_none]
    intro event hevent
    rw [h event hevent]
    exact Bool.false_ne_true
  rw [firstOutcome, List.find?_append, hnone, Option.or_none]
  rfl

theorem firstOutcome_append_of_none {history events : List OpEvent} {a : Nat}
    (h : firstOutcome history a = none) :
    firstOutcome (history ++ events) a = firstOutcome events a := by
  rw [firstOutcome, List.find?_append]
  rw [firstOutcome] at h
  rw [h]
  rfl

theorem Told.append_of_not {history events : List OpEvent} {e : ActionEntry} (h : Told history e)
    (hnot : ∀ event ∈ events, event.ends e.id = false) : Told (history ++ events) e := by
  rw [Told, firstOutcome_append_of_not hnot]
  exact h

/-- A kill can change what should be said only of the operations that it takes while they run. -/
theorem Told.append_killed {history : List OpEvent} {e : ActionEntry} (h : Told history e)
    (ids : List Nat) : Told (history ++ ids.map OpEvent.killed) e := by
  rw [Told] at h ⊢
  cases hfirst : firstOutcome history e.id with
  | some event =>
    rw [hfirst] at h
    rw [firstOutcome_append_of_some hfirst]
    exact h
  | none =>
    rw [hfirst] at h
    rw [firstOutcome_append_of_none hfirst]
    cases hkill : firstOutcome (ids.map OpEvent.killed) e.id with
    | none => exact h
    | some event =>
      have hmem := List.mem_of_find?_eq_some hkill
      obtain ⟨id, -, rfl⟩ := List.mem_map.mp hmem
      exact trivial

/-- An outcome is what should be said, unless the operation was killed before. -/
theorem Told.close {history : List OpEvent} {e : ActionEntry} {status : ActionStatus} {event : OpEvent}
    (now : Nat) (h : Told history e) (hopen : e.status = .running ∨ e.status = .killed)
    (hout : Outcome e.id status event) :
    Told (history ++ [event])
      (if e.status = .killed then e else { e with finish := some now, status := status }) := by
  have hends : event.ends e.id = true := by
    cases hout with
    | finished => exact decide_eq_true rfl
    | failed error => exact decide_eq_true rfl
  rw [Told] at h
  cases hfirst : firstOutcome history e.id with
  | none =>
    rw [hfirst] at h
    have hlast : firstOutcome (history ++ [event]) e.id = some event := by
      rw [firstOutcome_append_of_none hfirst, firstOutcome, List.find?_cons_of_pos hends]
    rw [if_neg (by rw [h]; exact fun hkilled => by cases hkilled), Told, hlast]
    cases hout with
    | finished => rfl
    | failed error => rfl
  | some first =>
    rw [hfirst] at h
    have hkept := @firstOutcome_append_of_some _ [event] _ _ hfirst
    cases first with
    | finished id =>
      rw [show e.status = .completed from h] at hopen
      rcases hopen with hopen | hopen <;> cases hopen
    | failed id error =>
      rw [show e.status = .failed error from h] at hopen
      rcases hopen with hopen | hopen <;> cases hopen
    | killed id =>
      split_ifs
      · rw [Told, hkept]
        exact trivial
      · rw [Told, hkept]
        exact trivial
    | started task kind id command => cases List.find?_some hfirst
    | dispatched id => cases List.find?_some hfirst
    | begun id => cases List.find?_some hfirst

/-- A running entry may be marked once its operation was killed. -/
theorem Told.kill {history : List OpEvent} {e : ActionEntry} (now : Nat) (h : Told history e)
    (hrunning : e.status = .running) (hkilled : .killed e.id ∈ history) :
    Told history (ActionLog.killedEntry now e) := by
  rw [Told, hrunning] at h
  change match firstOutcome history e.id with
    | some (.finished _) => ActionStatus.killed = .completed
    | some (.failed _ error) => ActionStatus.killed = .failed error
    | some _ => True
    | none => ActionStatus.killed = .running
  cases hfirst : firstOutcome history e.id with
  | none =>
    have hnot := List.find?_eq_none.mp hfirst _ hkilled
    exact absurd (decide_eq_true rfl) hnot
  | some first =>
    rw [hfirst] at h
    cases first with
    | finished id => cases h
    | failed id error => cases h
    | _ => exact trivial

/-! ## The invariant -/

/-- The task is about to register an operation, or about to log its rejection. -/
def Stage.announces (a : Nat) : Stage → Prop
  | begun _ id _ => id = a
  | refused id => id = a
  | _ => False

/-- Somebody answers for a running entry: a start in progress, the registry, or a kill that has yet
to mark it. -/
def Covered (s : AppState) (ls : List Stage) (a : Nat) : Prop :=
  (∃ (j : Nat) (l : Stage), ls[j]? = some l ∧ l.announces a) ∨ (∃ op ∈ s.ops, op.id = a) ∨
    ∃ (j : Nat) (l : Stage), ls[j]? = some l ∧ ∃ op ∈ l.unmarked, op.id = a

/-- The operations that the task will mark in its next section. -/
def Stage.marks : Stage → List Nat
  | marking ops => ops.map RunningOp.id
  | _ => []

/-- A kill marks entries that are running. -/
def MarksRunning (s : AppState) (ls : List Stage) : Nat ⊕ ServerMove → Prop
  | .inl i => ∀ e ∈ s.log.entries, e.id ∈ ls[i]?.elim [] Stage.marks → e.status = .running
  | .inr _ => True

instance marksRunningDecidable (s : AppState) (ls : List Stage) :
    (a : Nat ⊕ ServerMove) → Decidable (MarksRunning s ls a)
  | .inl i => inferInstanceAs
      (Decidable (∀ e ∈ s.log.entries, e.id ∈ ls[i]?.elim [] Stage.marks → e.status = .running))
  | .inr _ => isTrue trivial

/-- The log tells the truth. -/
structure Truthful (s : AppState) (ls : List Stage) : Prop where
  fresh : ∀ e ∈ s.log.entries, e.id < s.log.nextId
  nodup : (s.log.entries.map ActionEntry.id).Nodup
  endedFresh : ∀ event ∈ s.history, ∀ a : Nat, event.ends a = true → a < s.log.nextId
  told : ∀ e ∈ s.log.entries, Told s.history e
  unsaid : ∀ (j : Nat) (l : Stage) (a : Nat), ls[j]? = some l → l.own = some a → l.told = false →
    ∀ e ∈ s.log.entries, e.id = a → e.status = .running ∨ e.status = .killed
  said : ∀ (j : Nat) (l : Stage) (a : Nat), ls[j]? = some l → l.own = some a → l.told = true →
    ∀ e ∈ s.log.entries, e.id = a → e.status ≠ .running
  covered : ∀ e ∈ s.log.entries, e.status = .running → Covered s ls e.id

section Entries

variable {i : Nat} {s s' : AppState} {l l' : Stage} {ls : List Stage}

/-- What one section can do to an entry. -/
inductive EntryStep (s : AppState) (l : Stage) (s' : AppState) (l' : Stage) (e' : ActionEntry) :
    Prop where
  | kept (h : e' ∈ s.log.entries)
  | new (hid : e'.id = s.log.nextId) (hnext : s'.log.nextId = s.log.nextId + 1)
      (h : e'.status = .running)
  | closed (e : ActionEntry) (he : e ∈ s.log.entries) (hid : e'.id = e.id) (hown : l.own = some e.id)
      (hunsaid : l.told = false) (hl : l' = .logged e.id ∨ l' = .spare) (h : e'.status ≠ .running)
      (hkept : e.status = .killed → e' = e)
  | marked (e : ActionEntry) (he : e ∈ s.log.entries) (hid : e'.id = e.id) (ops : List RunningOp)
      (hl : l = .marking ops) (hop : e.id ∈ ops.map RunningOp.id) (h : e'.status = .killed)

/-- An entry after a step is an entry of before, or the step has written it. -/
theorem Transition.entryStep (h : Transition i s l s' l') {e' : ActionEntry}
    (he' : e' ∈ s'.log.entries) : EntryStep s l s' l' e' := by
  cases h.logStep with
  | same hlog _ _ =>
    rw [hlog] at he'
    exact .kept he'
  | start kind command name hs hl _ =>
    rw [hs] at he'
    rcases List.mem_append.mp he' with he' | he'
    · refine .kept ?_
      split_ifs at he'
      · exact List.mem_of_mem_drop he'
      · exact he'
    · have hnext : s'.log.nextId = s.log.nextId + 1 := by
        rw [hs]
        rfl
      rw [List.mem_singleton.mp he']
      exact .new rfl hnext rfl
  | close a status event hown hunsaid hout hs hl =>
    rw [hs] at he'
    obtain ⟨e, he, rfl⟩ := ActionLog.mem_update.mp he'
    by_cases ha : e.id = a
    · subst ha
      rw [if_pos rfl]
      by_cases hkilled : e.status = .killed
      · rw [if_pos hkilled]
        exact .kept he
      · rw [if_neg hkilled]
        refine .closed e he rfl hown hunsaid hl ?_ fun h => absurd h hkilled
        cases hout with
        | finished => exact fun h => by cases h
        | failed error => exact fun h => by cases h
    · rw [if_neg ha]
      exact .kept he
  | take hit hs hl _ =>
    rw [hs] at he'
    exact .kept he'
  | mark ops hs hl hl' =>
    rw [hs, AppState.marked, ActionLog.entries_kill] at he'
    obtain ⟨e, he, rfl⟩ := List.mem_map.mp he'
    split_ifs with hop
    · exact .marked e he rfl ops hl hop rfl
    · exact .kept he

/-- Two entries of one operation are the same. -/
theorem Truthful.eq_of_id (hT : Truthful s ls) {e e' : ActionEntry} (he : e ∈ s.log.entries)
    (he' : e' ∈ s.log.entries) (hid : e'.id = e.id) : e' = e :=
  List.inj_on_of_nodup_map hT.nodup he' he hid

/-- **A closed entry stays as it is**, if kills mark entries that are running. -/
theorem Truthful.entry_step (hT : Truthful s ls) (hi : ls[i]? = some l)
    (hok : MarksRunning s ls (.inl i)) (h : Transition i s l s' l') {e e' : ActionEntry}
    (he : e ∈ s.log.entries) (hclosed : e.status ≠ .running) (he' : e' ∈ s'.log.entries)
    (hid : e'.id = e.id) : e' = e := by
  cases h.entryStep he' with
  | kept hkept => exact hT.eq_of_id he hkept hid
  | new hnew _ _ =>
    have hlt := hT.fresh e he
    omega
  | closed e₀ he₀ hid₀ hown hunsaid _ hstatus hkept =>
    obtain rfl : e₀ = e := hT.eq_of_id he he₀ (hid₀.symm.trans hid)
    have hkilled := (hT.unsaid i l e₀.id hi hown hunsaid e₀ he rfl).resolve_left hclosed
    exact hkept hkilled
  | marked e₀ he₀ hid₀ ops hl hop hstatus =>
    obtain rfl : e₀ = e := hT.eq_of_id he he₀ (hid₀.symm.trans hid)
    subst hl
    exact absurd (hok e₀ he (by rw [hi]; exact hop)) hclosed

/-- Entries keep their numbers, and a new entry has a new number. -/
theorem Truthful.nodup_step (hT : Truthful s ls) (h : Transition i s l s' l') :
    (s'.log.entries.map ActionEntry.id).Nodup := by
  cases h.logStep with
  | same hlog _ _ =>
    rw [hlog]
    exact hT.nodup
  | start kind command name hs hl _ =>
    rw [hs]
    have hkept : (if s.log.capacity ≤ s.log.entries.length then s.log.entries.drop 1
        else s.log.entries).Sublist s.log.entries := by
      split_ifs
      · exact List.drop_sublist _ _
      · exact List.Sublist.refl _
    change ((_ ++ [_] : List ActionEntry).map ActionEntry.id).Nodup
    rw [List.map_append, List.map_singleton]
    refine (hT.nodup.sublist (hkept.map _)).append (List.nodup_singleton _) fun a ha ha' => ?_
    obtain ⟨e, he, rfl⟩ := List.mem_map.mp ha
    have hlt := hT.fresh e (hkept.subset he)
    rw [List.mem_singleton.mp ha'] at hlt
    exact Nat.lt_irrefl _ hlt
  | close a status event hown hunsaid hout hs hl =>
    have hids : s'.log.entries.map ActionEntry.id = s.log.entries.map ActionEntry.id := by
      rw [hs]
      refine ActionLog.map_id_update _ fun e => ?_
      split_ifs
      · rfl
      · rfl
    rw [hids]
    exact hT.nodup
  | take hit hs hl _ =>
    rw [hs]
    exact hT.nodup
  | mark ops hs hl hl' =>
    rw [hs, AppState.marked, ActionLog.map_id_kill]
    exact hT.nodup

theorem Truthful.fresh_step (hT : Truthful s ls) (h : Transition i s l s' l') :
    ∀ e ∈ s'.log.entries, e.id < s'.log.nextId := by
  intro e' he'
  have hle := Identities.nextId_le h
  cases h.entryStep he' with
  | kept hkept => exact Nat.lt_of_lt_of_le (hT.fresh e' hkept) hle
  | new hid hnext _ => omega
  | closed e he hid hown hunsaid _ hstatus hkept =>
    rw [hid]
    exact Nat.lt_of_lt_of_le (hT.fresh e he) hle
  | marked e he hid ops hl hop hstatus =>
    rw [hid]
    exact Nat.lt_of_lt_of_le (hT.fresh e he) hle

theorem Truthful.endedFresh_step (hI : Identities s ls) (hT : Truthful s ls) (hi : ls[i]? = some l)
    (h : Transition i s l s' l') :
    ∀ event ∈ s'.history, ∀ a : Nat, event.ends a = true → a < s'.log.nextId := by
  intro event hevent a ha
  refine Nat.lt_of_lt_of_le ?_ (Identities.nextId_le h)
  cases h.logStep with
  | same _ hhistory _ =>
    rcases hhistory with hhistory | ⟨silent, hhistory, hsilent⟩
    · rw [hhistory] at hevent
      exact hT.endedFresh event hevent a ha
    · rw [hhistory, List.mem_append, List.mem_singleton] at hevent
      rcases hevent with hevent | rfl
      · exact hT.endedFresh event hevent a ha
      · rw [hsilent a] at ha
        cases ha
  | start kind command name hs hl _ =>
    rw [hs] at hevent
    rcases List.mem_append.mp hevent with hevent | hevent
    · exact hT.endedFresh event hevent a ha
    · rw [List.mem_singleton.mp hevent] at ha
      cases ha
  | close b status event' hown hunsaid hout hs hl =>
    rw [hs] at hevent
    rcases List.mem_append.mp hevent with hevent | hevent
    · exact hT.endedFresh event hevent a ha
    · rw [List.mem_singleton.mp hevent] at ha
      have hb : b = a := by
        cases hout with
        | finished => exact of_decide_eq_true ha
        | failed error => exact of_decide_eq_true ha
      subst hb
      exact hI.owned i l b hi hown
  | take hit hs hl _ =>
    rw [hs] at hevent
    rcases List.mem_append.mp hevent with hevent | hevent
    · exact hT.endedFresh event hevent a ha
    · obtain ⟨op, hop, rfl⟩ := List.mem_map.mp hevent
      rw [← show op.id = a from of_decide_eq_true ha]
      exact hI.opsFresh op (List.mem_filter.mp hop).1
  | mark ops hs hl hl' =>
    rw [hs] at hevent
    exact hT.endedFresh event hevent a ha

/-- An operation keeps a running or killed entry until its outcome is logged. -/
theorem Truthful.unsaid_step (hI : Identities s ls) (hT : Truthful s ls) (hi : ls[i]? = some l)
    (h : Transition i s l s' l') {j a : Nat} {m : Stage} (hj : (ls.set i l')[j]? = some m)
    (hown : m.own = some a) (hunsaid : m.told = false) {e' : ActionEntry} (he' : e' ∈ s'.log.entries)
    (hid : e'.id = a) : e'.status = .running ∨ e'.status = .killed := by
  cases h.entryStep he' with
  | new _ _ hrunning => exact Or.inl hrunning
  | marked _ _ _ _ _ _ hkilled => exact Or.inr hkilled
  | kept hkept =>
    rcases getElem?_set_cases hj with ⟨rfl, rfl⟩ | ⟨-, hj⟩
    · rcases h.nextId_cases with ⟨-, hnone | hsame⟩ | ⟨-, hnew, -⟩
      · rw [hnone] at hown
        cases hown
      · rw [hsame] at hown
        refine hT.unsaid j l a hi hown ?_ e' hkept hid
        cases htold : l.told with
        | false => rfl
        | true =>
          rw [h.told_kept htold (hsame.trans hown)] at hunsaid
          cases hunsaid
      · rw [hnew] at hown
        cases hown
        exact absurd (hT.fresh e' hkept) (by omega)
    · exact hT.unsaid j m a hj hown hunsaid e' hkept hid
  | closed e he hid' hown' hunsaid' hl hstatus hkept =>
    rcases getElem?_set_cases hj with ⟨rfl, rfl⟩ | ⟨hne, hj⟩
    · rcases hl with rfl | rfl
      · cases hunsaid
      · cases hown
    · have hsame : m.own = some e.id := by rw [hown, ← hid, hid']
      exact absurd (hI.single j i m l e.id hj hi hsame hown') hne

/-- After its outcome was logged, the entry of an operation is not running. -/
theorem Truthful.said_step (hI : Identities s ls) (hT : Truthful s ls) (hi : ls[i]? = some l)
    (h : Transition i s l s' l') {j a : Nat} {m : Stage} (hj : (ls.set i l')[j]? = some m)
    (hown : m.own = some a) (htold : m.told = true) {e' : ActionEntry} (he' : e' ∈ s'.log.entries)
    (hid : e'.id = a) : e'.status ≠ .running := by
  rcases getElem?_set_cases hj with ⟨rfl, rfl⟩ | ⟨-, hj⟩
  · rcases h.told_cases hown htold with ⟨hown, htold, rfl⟩ | ⟨status, event, hout, rfl⟩
    · exact hT.said j l a hi hown htold e' he' hid
    obtain ⟨e, he, rfl⟩ := ActionLog.mem_update.mp he'
    have hstatus : status ≠ .running := by
      cases hout with
      | finished => exact fun h => by cases h
      | failed error => exact fun h => by cases h
    have hea : e.id = a := by
      split_ifs at hid <;> exact hid
    rw [if_pos hea]
    split_ifs with hkilled
    · rw [hkilled]
      exact fun h => by cases h
    · exact hstatus
  · cases h.entryStep he' with
    | kept hkept => exact hT.said j m a hj hown htold e' hkept hid
    | new hnew _ _ =>
      have hlt := hI.owned j m a hj hown
      omega
    | closed _ _ _ _ _ _ hstatus _ => exact hstatus
    | marked _ _ _ _ _ _ hkilled =>
      rw [hkilled]
      exact fun h => by cases h

/-- The log agrees with what happened first. -/
theorem Truthful.told_step (hK : Kills s ls) (hT : Truthful s ls) (hi : ls[i]? = some l)
    (hok : MarksRunning s ls (.inl i)) (h : Transition i s l s' l') :
    ∀ e ∈ s'.log.entries, Told s'.history e := by
  intro e' he'
  cases h.logStep with
  | same hlog hhistory _ =>
    rw [hlog] at he'
    have htold := hT.told e' he'
    rcases hhistory with hhistory | ⟨silent, hhistory, hsilent⟩
    · rw [hhistory]
      exact htold
    · rw [hhistory]
      exact htold.append_of_not (by simp [hsilent])
  | start kind command name hs hl _ =>
    have hnot : ∀ event ∈ [OpEvent.started i kind s.log.nextId command], event.ends e'.id = false := by
      simp [OpEvent.ends]
    rw [hs] at he' ⊢
    change Told (s.history ++ [_]) e'
    rcases List.mem_append.mp he' with he' | he'
    · refine (hT.told e' ?_).append_of_not hnot
      split_ifs at he'
      · exact List.mem_of_mem_drop he'
      · exact he'
    · refine Told.append_of_not ?_ hnot
      have hfirst : firstOutcome s.history s.log.nextId = none := by
        refine List.find?_eq_none.mpr fun event hevent hends => ?_
        exact absurd (hT.endedFresh event hevent _ hends) (Nat.lt_irrefl _)
      rw [List.mem_singleton.mp he', Told, hfirst]
  | close b status event hown hunsaid hout hs hl =>
    rw [hs] at he' ⊢
    obtain ⟨e, he, rfl⟩ := ActionLog.mem_update.mp he'
    change Told (s.history ++ [event]) _
    by_cases hb : e.id = b
    · subst hb
      rw [if_pos rfl]
      exact (hT.told e he).close s.now (hT.unsaid i l e.id hi hown hunsaid e he rfl) hout
    · rw [if_neg hb]
      refine (hT.told e he).append_of_not ?_
      cases hout with
      | finished => simpa [OpEvent.ends] using Ne.symm hb
      | failed error => simpa [OpEvent.ends] using Ne.symm hb
  | take hit hs hl _ =>
    rw [hs] at he' ⊢
    have := (hT.told e' he').append_killed ((s.ops.filter hit).map RunningOp.id)
    rwa [List.map_map] at this
  | mark ops hs hl hl' =>
    rw [hs, AppState.marked, ActionLog.entries_kill] at he'
    rw [hs]
    obtain ⟨e, he, rfl⟩ := List.mem_map.mp he'
    subst hl
    split_ifs with hop
    · obtain ⟨op, hmem, hid⟩ := List.mem_map.mp hop
      have hkilled := hK.unmarked i _ hi op hmem
      rw [hid] at hkilled
      exact (hT.told e he).kill s.now (hok e he (by rw [hi]; exact hop)) hkilled
    · exact hT.told e he

/-- An operation leaves the registry when it is rejected, when its outcome is logged, or when it is
killed. -/
theorem Transition.ops_kept (h : Transition i s l s' l') {op : RunningOp} (hop : op ∈ s.ops) :
    (∃ op' ∈ s'.ops, op'.id = op.id) ∨ op.id ∈ s.cancelled ∨ l' = .refused op.id ∨
      l = .unlisted op.id ∨ l = .leaving op.id ∨ op ∈ l'.unmarked := by
  cases h with
  | insert id command name h => exact Or.inl ⟨op, List.mem_append_left _ hop, rfl⟩
  | enqueue id command name => exact Or.inl ⟨op, List.mem_append_left _ hop, rfl⟩
  | store id name hin hlive h =>
    refine Or.inl ⟨_, List.mem_map_of_mem hop, ?_⟩
    split_ifs
    · rfl
    · rfl
  | halt id name h =>
    by_cases hid : op.id = id
    · subst hid
      exact Or.inr (Or.inl h)
    · exact Or.inl ⟨op, List.mem_filter.mpr ⟨hop, by simpa using hid⟩, rfl⟩
  | reject id name hin hlive h =>
    by_cases hid : op.id = id
    · subst hid
      exact Or.inr (Or.inr (Or.inl rfl))
    · exact Or.inl ⟨op, List.mem_filter.mpr ⟨hop, by simpa using hid⟩, rfl⟩
  | discard id =>
    by_cases hid : op.id = id
    · subst hid
      exact Or.inr (Or.inr (Or.inr (Or.inl rfl)))
    · exact Or.inl ⟨op, List.mem_filter.mpr ⟨hop, by simpa using hid⟩, rfl⟩
  | remove id =>
    by_cases hid : op.id = id
    · subst hid
      exact Or.inr (Or.inr (Or.inr (Or.inr (Or.inl rfl))))
    · exact Or.inl ⟨op, List.mem_filter.mpr ⟨hop, by simpa using hid⟩, rfl⟩
  | take hit h =>
    by_cases hhit : hit op = true
    · exact Or.inr (Or.inr (Or.inr (Or.inr (Or.inr (List.mem_filter.mpr ⟨hop, hhit⟩)))))
    · exact Or.inl ⟨op, List.mem_filter.mpr ⟨hop, by simpa using hhit⟩, rfl⟩
  | _ => exact Or.inl ⟨op, hop, rfl⟩

/-- A start in progress registers its operation, or its rejection is logged. -/
theorem Transition.announces_cases (h : Transition i s l s' l') {a : Nat} (ha : l.announces a) :
    l'.announces a ∨ (∃ op ∈ s'.ops, op.id = a) ∨ l = .refused a := by
  cases h with
  | insert id command name h => exact Or.inr (Or.inl ⟨_, List.mem_append_right _ List.mem_cons_self, ha⟩)
  | enqueue id command name =>
    exact Or.inr (Or.inl ⟨_, List.mem_append_right _ List.mem_cons_self, ha⟩)
  | clash id name => exact Or.inl ha
  | refuse id error => exact Or.inr (Or.inr (by rw [show id = a from ha]))
  | start kind command name hl =>
    cases kind with
    | «try» =>
      subst hl
      cases ha
    | queue =>
      subst hl
      cases ha
  | giveBack n hl =>
    rcases hl with ⟨rfl, -⟩ | rfl
    · cases ha
    · cases ha
  | desert id hl h =>
    rcases hl with ⟨name, rfl⟩ | rfl
    · cases ha
    · cases ha
  | _ => cases ha

/-- The operations of a kill stay with it until they are marked. -/
theorem Transition.unmarked_kept (h : Transition i s l s' l') {op : RunningOp}
    (hop : op ∈ l.unmarked) : op ∈ l'.unmarked ∨ ∃ ops, l = .marking ops ∧ op ∈ ops := by
  cases h with
  | cancel ops => exact Or.inl hop
  | mark ops => exact Or.inr ⟨ops, rfl, hop⟩
  | start kind command name hl =>
    cases kind with
    | «try» =>
      subst hl
      cases hop
    | queue =>
      subst hl
      cases hop
  | giveBack n hl =>
    rcases hl with ⟨rfl, -⟩ | rfl
    · cases hop
    · cases hop
  | desert id hl h =>
    rcases hl with ⟨name, rfl⟩ | rfl
    · cases hop
    · cases hop
  | _ => cases hop

/-- Who answers for an operation answers for it after a step, unless the step has closed its entry. -/
theorem Covered.step (hK : Kills s ls) (hi : ls[i]? = some l) (h : Transition i s l s' l') {a : Nat}
    (ha : Covered s ls a) :
    Covered s' (ls.set i l') a ∨ l = .refused a ∨ l = .leaving a ∨
      ∃ ops, l = .marking ops ∧ a ∈ ops.map RunningOp.id := by
  have hself : (ls.set i l')[i]? = some l' :=
    List.getElem?_set_self (List.getElem?_eq_some_iff.mp hi).1
  have hother : ∀ j, j ≠ i → (ls.set i l')[j]? = ls[j]? := fun j hne =>
    List.getElem?_set_ne (Ne.symm hne)
  rcases ha with ⟨j, m, hj, ha⟩ | ⟨op, hop, rfl⟩ | ⟨j, m, hj, op, hop, rfl⟩
  · by_cases hne : j = i
    · subst hne
      obtain rfl : l = m := Option.some.inj (hi.symm.trans hj)
      rcases h.announces_cases ha with ha | ha | ha
      · exact Or.inl (Or.inl ⟨j, l', hself, ha⟩)
      · exact Or.inl (Or.inr (Or.inl ha))
      · exact Or.inr (Or.inl ha)
    · exact Or.inl (Or.inl ⟨j, m, (hother j hne).trans hj, ha⟩)
  · rcases h.ops_kept hop with hkept | hcancelled | rfl | rfl | hleaving | hunmarked
    · exact Or.inl (Or.inr (Or.inl hkept))
    · exact absurd rfl (hK.gone _ (hK.cancelled _ hcancelled) op hop)
    · exact Or.inl (Or.inl ⟨i, _, hself, rfl⟩)
    · exact absurd rfl (hK.gone _ (hK.unlisted i _ hi) op hop)
    · exact Or.inr (Or.inr (Or.inl hleaving))
    · exact Or.inl (Or.inr (Or.inr ⟨i, l', hself, op, hunmarked, rfl⟩))
  · by_cases hne : j = i
    · subst hne
      obtain rfl : l = m := Option.some.inj (hi.symm.trans hj)
      rcases h.unmarked_kept hop with hkept | ⟨ops, hl, hmem⟩
      · exact Or.inl (Or.inr (Or.inr ⟨j, l', hself, op, hkept, rfl⟩))
      · exact Or.inr (Or.inr (Or.inr ⟨ops, hl, List.mem_map_of_mem hmem⟩))
    · exact Or.inl (Or.inr (Or.inr ⟨j, m, (hother j hne).trans hj, op, hop, rfl⟩))

/-- A running entry is new, or it was running before and the step is not about it. -/
theorem Transition.running_cases (h : Transition i s l s' l') {e' : ActionEntry}
    (he' : e' ∈ s'.log.entries) (hrunning : e'.status = .running) :
    (e' ∈ s.log.entries ∧ l ≠ .refused e'.id ∧
      ∀ ops, l = .marking ops → e'.id ∉ ops.map RunningOp.id) ∨ l'.announces e'.id := by
  have hopen : l.closing = false → l ≠ .refused e'.id ∧
      ∀ ops, l = .marking ops → e'.id ∉ ops.map RunningOp.id := by
    intro hclosing
    constructor
    · rintro rfl
      cases hclosing
    · rintro ops rfl
      cases hclosing
  cases h.logStep with
  | same hlog _ hl =>
    rw [hlog] at he'
    exact Or.inl ⟨he', hopen hl⟩
  | start kind command name hs hl hl₀ =>
    rw [hs] at he'
    rcases List.mem_append.mp he' with he' | he'
    · refine Or.inl ⟨?_, hopen hl₀⟩
      split_ifs at he'
      · exact List.mem_of_mem_drop he'
      · exact he'
    · rw [List.mem_singleton.mp he', hl]
      exact Or.inr rfl
  | close a status event hown hunsaid hout hs hl =>
    rw [hs] at he'
    obtain ⟨e, he, rfl⟩ := ActionLog.mem_update.mp he'
    by_cases ha : e.id = a
    · rw [if_pos ha] at hrunning
      split_ifs at hrunning with hkilled
      · rw [hkilled] at hrunning
        cases hrunning
      · cases hout with
        | finished => cases hrunning
        | failed error => cases hrunning
    · rw [if_neg ha]
      refine Or.inl ⟨he, ?_, ?_⟩
      · rintro rfl
        exact ha (Option.some.inj hown)
      · rintro ops rfl
        cases hown
  | take hit hs hl hl₀ =>
    rw [hs] at he'
    exact Or.inl ⟨he', hopen hl₀⟩
  | mark ops hs hl hl' =>
    rw [hs, AppState.marked, ActionLog.entries_kill] at he'
    obtain ⟨e, he, rfl⟩ := List.mem_map.mp he'
    subst hl
    by_cases hop : e.id ∈ ops.map RunningOp.id
    · rw [if_pos hop] at hrunning
      cases hrunning
    · rw [if_neg hop]
      refine Or.inl ⟨he, ?_, ?_⟩
      · intro h
        cases h
      · intro ops' hops
        cases hops
        exact hop

theorem Truthful.covered_step (hK : Kills s ls) (hT : Truthful s ls) (hi : ls[i]? = some l)
    (h : Transition i s l s' l') :
    ∀ e ∈ s'.log.entries, e.status = .running → Covered s' (ls.set i l') e.id := by
  intro e' he' hrunning
  rcases h.running_cases he' hrunning with ⟨he, hrefused, hmarking⟩ | hnew
  · rcases (hT.covered e' he hrunning).step hK hi h with hcov | hl | hl | ⟨ops, hl, hop⟩
    · exact hcov
    · exact absurd hl hrefused
    · subst hl
      exact absurd hrunning (hT.said i _ e'.id hi rfl rfl e' he rfl)
    · exact absurd hop (hmarking ops hl)
  · have hself : (ls.set i l')[i]? = some l' :=
      List.getElem?_set_self (List.getElem?_eq_some_iff.mp hi).1
    exact Or.inl ⟨i, l', hself, hnew⟩

/-- **A section keeps the log truthful**, if it is not a kill that marks a closed entry. -/
theorem Truthful.step (hI : Identities s ls) (hK : Kills s ls) (hT : Truthful s ls)
    (hi : ls[i]? = some l) (hok : MarksRunning s ls (.inl i)) (h : Transition i s l s' l') :
    Truthful s' (ls.set i l') where
  fresh := hT.fresh_step h
  nodup := hT.nodup_step h
  endedFresh := hT.endedFresh_step hI hi h
  told := hT.told_step hK hi hok h
  unsaid _ _ _ hj hown hunsaid _ he hid := hT.unsaid_step hI hi h hj hown hunsaid he hid
  said _ _ _ hj hown htold _ he hid := hT.said_step hI hi h hj hown htold he hid
  covered := hT.covered_step hK hi h

theorem Truthful.initial (allowParallel : Bool) (requests : List Request) :
    Truthful (AppState.new allowParallel) (serverStart allowParallel requests).minds where
  fresh _ he := absurd he List.not_mem_nil
  nodup := List.nodup_nil
  endedFresh _ hevent := absurd hevent List.not_mem_nil
  told _ he := absurd he List.not_mem_nil
  unsaid _ _ _ _ _ _ _ he := absurd he List.not_mem_nil
  said _ _ _ _ _ _ _ he := absurd he List.not_mem_nil
  covered _ he := absurd he List.not_mem_nil

theorem Truthful.move {e : ServerMove} (hT : Truthful s ls) (h : serverMachine.move e s ls = some s') :
    Truthful s' ls := by
  obtain ⟨now, active, others, rfl⟩ := move_cases h
  exact ⟨hT.fresh, hT.nodup, hT.endedFresh, hT.told, hT.unsaid, hT.said, hT.covered⟩

end Entries

/-! ## Runs -/

/-- The server together with the truth of its log. -/
structure Honest (s : AppState) (ls : List Stage) : Prop where
  identities : Identities s ls
  kills : Kills s ls
  truthful : Truthful s ls

theorem Honest.step {i : Nat} {s s' : AppState} {l l' : Stage} {ls : List Stage} (hH : Honest s ls)
    (hi : ls[i]? = some l) (hok : MarksRunning s ls (.inl i)) (h : Transition i s l s' l') :
    Honest s' (ls.set i l') where
  identities := hH.identities.step hi h
  kills := hH.kills.step hH.identities hi h
  truthful := hH.truthful.step hH.identities hH.kills hi hok h

theorem Honest.move {e : ServerMove} {s s' : AppState} {ls : List Stage} (hH : Honest s ls)
    (h : serverMachine.move e s ls = some s') : Honest s' ls where
  identities := hH.identities.move h
  kills := hH.kills.move h
  truthful := hH.truthful.move h

/-- Whatever the server has been asked for, its log is truthful. -/
theorem honest_of_reaches {allowParallel : Bool} {requests : List Request} {s : ServerThreads}
    (hr : serverMachine.Reaches MarksRunning (serverStart allowParallel requests) s) :
    Honest s.shared s.minds := by
  refine server_invariant hr ⟨Identities.initial _ _, Kills.initial _ _, Truthful.initial _ _⟩ ?_ ?_
  · intro i l l' ls s s' hH hi _ hok h
    exact hH.step hi hok h
  · intro e ls s s' hH _ h
    exact hH.move h

/-- A closed entry stays as it is, over any number of steps. -/
theorem entry_kept {allowParallel : Bool} {requests : List Request} {s s' : ServerThreads}
    (hr : serverMachine.Reaches MarksRunning (serverStart allowParallel requests) s)
    (hr' : serverMachine.Reaches MarksRunning s s') {e e' : ActionEntry}
    (he : e ∈ s.shared.log.entries) (hclosed : e.status ≠ .running)
    (he' : e' ∈ s'.shared.log.entries) (hid : e'.id = e.id) : e' = e := by
  have hH := honest_of_reaches hr
  -- the entry may have left the log, and then its number is not used again
  have hkept := server_invariant_from hr hr'
    (I := fun s ls => Honest s ls ∧ e.id < s.log.nextId ∧ ∀ e' ∈ s.log.entries, e'.id = e.id → e' = e)
    ⟨hH, hH.truthful.fresh e he, fun e' he' hid => hH.truthful.eq_of_id he he' hid⟩ ?_ ?_
  · exact hkept.2.2 e' he' hid
  · rintro i l l' ls s s' ⟨hH, hlt, hsame⟩ hi - hok h
    refine ⟨hH.step hi hok h, Nat.lt_of_lt_of_le hlt (Identities.nextId_le h), fun e' he' hid => ?_⟩
    cases h.entryStep he' with
    | kept hkept => exact hsame e' hkept hid
    | new hnew _ _ => omega
    | closed e₀ he₀ hid₀ _ _ _ _ _ =>
      obtain rfl := hsame e₀ he₀ (hid₀.symm.trans hid)
      exact hH.truthful.entry_step hi hok h he₀ hclosed he' hid
    | marked e₀ he₀ hid₀ _ _ _ _ =>
      obtain rfl := hsame e₀ he₀ (hid₀.symm.trans hid)
      exact hH.truthful.entry_step hi hok h he₀ hclosed he' hid
  · rintro e ls s s' ⟨hH, hlt, hsame⟩ - h
    refine ⟨hH.move h, ?_⟩
    obtain ⟨now, active, others, rfl⟩ := move_cases h
    exact ⟨hlt, hsame⟩

/-- The task is in `try_start_op` or `queue_start_op`. -/
def Stage.starting : Stage → Bool
  | permitted => true
  | begun _ _ _ => true
  | queued _ _ => true
  | granted _ _ => true
  | refused _ => true
  | unlisted _ => true
  | spare => true
  | _ => false

theorem Stage.starting_of_announces {l : Stage} {a : Nat} (h : l.announces a) : l.starting = true := by
  cases l with
  | begun kind id name => rfl
  | refused id => rfl
  | _ => cases h

/-- Closed entries stay as they are, and an operation that finished or failed before it was killed
is told to have done so. -/
structure LogTells (s s' : AppState) : Prop where
  kept : ∀ e ∈ s.log.entries, e.status ≠ .running → ∀ e' ∈ s'.log.entries, e'.id = e.id → e' = e
  finished : ∀ e ∈ s'.log.entries, firstOutcome s'.history e.id = some (.finished e.id) →
    e.status = .completed
  failed : ∀ e ∈ s'.log.entries, ∀ error, firstOutcome s'.history e.id = some (.failed e.id error) →
    e.status = .failed error

/-- No entry is running. -/
def AllClosed (s : AppState) : Prop := ∀ e ∈ s.log.entries, e.status ≠ .running

/-- No kill has taken an operation whose entry is running, and has yet to mark it. -/
def KillsClosed (s : AppState) (ls : List Stage) : Prop :=
  ∀ l ∈ ls, ∀ op ∈ l.unmarked, ∀ e ∈ s.log.entries, e.id = op.id → e.status ≠ .running

/-- **The action log tells the truth** in every run in which kills mark entries that are running; and
when nothing is registered and nothing starts, an entry is running only while a kill is about to
mark it. -/
theorem action_log_tells_truth {allowParallel : Bool} {requests : List Request} {s s' : ServerThreads}
    (hr : serverMachine.Reaches MarksRunning (serverStart allowParallel requests) s)
    (hr' : serverMachine.Reaches MarksRunning s s') :
    LogTells s.shared s'.shared ∧
      (s'.shared.ops = [] → (∀ l ∈ s'.minds, l.starting = false) →
        (AllClosed s'.shared ↔ KillsClosed s'.shared s'.minds)) := by
  have hH : Honest s'.shared s'.minds := by
    refine server_invariant_from hr hr' (honest_of_reaches hr) ?_ fun e ls s s' hH _ h => hH.move h
    intro i l l' ls s s' hH hi _ hok h
    exact hH.step hi hok h
  refine ⟨⟨?_, ?_, ?_⟩, fun hops hstart => ⟨?_, ?_⟩⟩
  · intro e he hclosed e' he' hid
    exact entry_kept hr hr' he hclosed he' hid
  · intro e he hfirst
    have htold := hH.truthful.told e he
    rwa [Told, hfirst] at htold
  · intro e he error hfirst
    have htold := hH.truthful.told e he
    rwa [Told, hfirst] at htold
  · intro hclosed l _ op _ e he _
    exact hclosed e he
  · intro hkills e he hrunning
    rcases hH.truthful.covered e he hrunning with ⟨j, l, hj, ha⟩ | ⟨op, hop, -⟩ | ⟨j, l, hj, op, hop, hid⟩
    · have hnot := hstart l (List.mem_of_getElem? hj)
      rw [Stage.starting_of_announces ha] at hnot
      cases hnot
    · rw [hops] at hop
      cases hop
    · exact hkills l (List.mem_of_getElem? hj) op hop e he hid.symm hrunning

/-- An upload is killed while it runs, and stays killed. -/
theorem killed_upload_stays_killed :
    ∃ s s', serverMachine.Reaches MarksRunning
        (serverStart false [.operation "upload" (some "b") undisturbed, .kill none]) s ∧
      serverMachine.Reaches MarksRunning s s' ∧
      s.shared.log.entries.map ActionEntry.status = [.killed] ∧ LogTells s.shared s'.shared ∧
      AllClosed s'.shared := by
  have hrun : ((serverMachine.runWhere MarksRunning ([0, 0, 0, 0, 0, 0, 1, 1, 1].map .inl)
      (serverStart false [.operation "upload" (some "b") undisturbed, .kill none])).bind fun s =>
        (serverMachine.runWhere MarksRunning ([1, 0, 0].map .inl) s).map fun s' =>
          (s.shared.log.entries.map ActionEntry.status, s'.shared.ops, s'.minds)) =
        some ([.killed], [], [.idle, .idle]) := by
    decide +kernel
  obtain ⟨s, hs, hrest⟩ := Option.bind_eq_some_iff.mp hrun
  obtain ⟨s', hs', heq⟩ := Option.map_eq_some_iff.mp hrest
  obtain ⟨hstatus, hops, hminds⟩ : _ ∧ _ ∧ _ := by simpa only [Prod.mk.injEq] using heq
  have hr := Machine.reaches_of_runWhere .refl hs
  have hr' := Machine.reaches_of_runWhere .refl hs'
  have htrue := action_log_tells_truth hr hr'
  refine ⟨s, s', hr, hr', hstatus, htrue.1, (htrue.2 hops ?_).mpr ?_⟩
  · rw [hminds]
    decide
  · rw [hminds]
    intro l hl op hop
    have hidle : l = .idle := by simpa using hl
    rw [hidle] at hop
    cases hop

/-- **A kill overwrites an outcome**: the upload logs that it is finished; the kill takes it before
it is removed from the registry, and marks it as killed. -/
theorem kill_overwrites_finished :
    ¬∀ allowParallel requests (s s' : ServerThreads),
      serverMachine.Reaches (fun _ _ _ => True) (serverStart allowParallel requests) s →
      serverMachine.Reaches (fun _ _ _ => True) s s' →
      LogTells s.shared s'.shared ∧
        (s'.shared.ops = [] → (∀ l ∈ s'.minds, l.starting = false) → AllClosed s'.shared) := by
  intro hall
  have hrun : ((serverMachine.run ([0, 0, 0, 0, 0, 0, 0, 0].map .inl)
      (serverStart false [.operation "upload" (some "b") undisturbed, .kill none])).bind fun s =>
        (serverMachine.run ([1, 1, 1].map .inl) s).map fun s' =>
          (s.shared.log.entries, s'.shared.log.entries)) =
        some ([⟨1, "upload", 0, some 0, .completed⟩], [⟨1, "upload", 0, some 0, .killed⟩]) := by
    decide +kernel
  obtain ⟨s, hs, hrest⟩ := Option.bind_eq_some_iff.mp hrun
  obtain ⟨s', hs', heq⟩ := Option.map_eq_some_iff.mp hrest
  obtain ⟨hbefore, hafter⟩ : _ ∧ _ := by simpa only [Prod.mk.injEq] using heq
  have hr := Machine.reaches_of_run .refl (fun _ _ _ _ => trivial) hs
  have hr' := Machine.reaches_of_run .refl (fun _ _ _ _ => trivial) hs'
  have hkept := (hall false _ s s' hr hr').1.kept
  rw [hbefore, hafter] at hkept
  have hsame := hkept _ List.mem_cons_self (fun h => by cases h) _ List.mem_cons_self rfl
  cases hsame

end Chbackup
