import Chbackup.Deferred.Listed

/-!
# What an upload has claimed

An upload claims the record of its backup before it starts to copy: from then on the record names its
process as the owner.  A reaper that comes across the record reads it under the lock of the backup and
asks for its owner before it releases a table, so that it leaves the tables alone, even when the upload
has lost its lock and the terms of the freeze have run out.

This is so as long as two things are avoided (`keepsToLocks`).  A command that releases tables without
asking (`releasingCommands`) is not started on a backup on which an upload works that has lost its lock;
and no upload loses its lock before the copying has started.
-/

namespace Chbackup

open CallTree Prog

/-- A command that releases tables without asking is only started where no upload works that has lost
its lock, and only uploads that have started to copy lose their locks. -/
def keepsToLocks (w : DeferredWorld) (ls : List DeferredMind) : Nat ⊕ DeferredMove → Bool
  | .inl i =>
    ls[i]?.all fun l => l.started || l.command ∉ releasingCommands ||
      ls.zipIdx.all fun x => x.2 = i || w.isOver x.2 x.1.me ||
        x.1.locked.all fun y => (y.2, x.2) ∈ w.locks || !y.2.overlaps l.scope
  | .inr (.detach j) => ls[j]?.all (·.worked)
  | .inr _ => true

/-- The threads and what the uploads among them have claimed. -/
structure Claimed (ts : List DeferredThread) (w : DeferredWorld) (ls : List DeferredMind) : Prop
    extends Orderly ts w ls where
  uploads : ∀ (j : Nat) (l : DeferredMind), ls[j]? = some l → l.isUpload = true →
    ∀ x ∈ l.locked, x.1 ∈ releasingCommands
  attached : ∀ (j : Nat) (l : DeferredMind), ls[j]? = some l → w.isOver j l.me = false → l.worked = false →
    w.Holds j l
  alone : ∀ (i j : Nat) (l l' : DeferredMind), i ≠ j → ls[i]? = some l → ls[j]? = some l' →
    w.isOver i l.me = false → w.isOver j l'.me = false → ∀ b, l.LockedBy b → ¬l'.LockedBy b
  own : ∀ (j : Nat) (l : DeferredMind) (b : Str), ls[j]? = some l → w.isOver j l.me = false →
    l.claimed = some b → l.LockedBy b ∧ w.procs l.me.pid = some l.me.token ∧
      ∀ r, w.backups.get? b = some (.holds r) → r.ownedBy l.me = true
  spared : ∀ (i j : Nat) (l l' : DeferredMind) (b : Str), i ≠ j → ls[i]? = some l → ls[j]? = some l' →
    w.isOver i l.me = false → w.isOver j l'.me = false → l'.claimed = some b →
    (∃ x ∈ l.locked, x.2 = .backup b) → l.cleared ≠ some b ∧
      ∀ r, l.judging = some (b, r) → r.ownedBy l'.me = true ∧ l.alive = true

/-! ## What calls do -/

section Calls

variable {w : DeferredWorld} {i : Nat} {l : DeferredMind} {b : Str}

/-- A call that leaves a record leaves the one that was there, unless it writes it. -/
theorem DeferredWorld.record_serve {c : DeferredCall} {r : DeferredFreezeRecord}
    (hr : (serve i c w).2.backups.get? b = some (.holds r)) :
    w.backups.get? b = some (.holds r) ∨ ∃ first, c = .publish first b r ∧ w.fault = .none := by
  have hinsert : ∀ {b' : Str} {x : StateFile DeferredFreezeRecord}, x = .absent →
      (w.backups.insert b' x).get? b = some (.holds r) → w.backups.get? b = some (.holds r) := by
    rintro b' x rfl h
    rw [SortedMap.get?_insert] at h
    split_ifs at h
    · cases h
    · exact h
  cases c with
  | publish first b' r' =>
    rw [serve] at hr
    split_ifs at hr with hfault
    · simp only [write, SortedMap.get?_insert] at hr
      split_ifs at hr with hb
      · cases hr
        subst hb
        exact .inr ⟨first, rfl, hfault⟩
      · exact .inl hr
    · exact .inl hr
  | removeRecord b' =>
    rw [serve] at hr
    split_ifs at hr
    · exact .inl (hinsert rfl hr)
    · exact .inl hr
  | unfreeze b' info =>
    rw [serve] at hr
    cases hfault : w.fault with
    | none =>
      rw [hfault] at hr
      exact .inl hr
    | refused =>
      rw [hfault] at hr
      exact .inl hr
    | lost =>
      rw [hfault] at hr
      exact .inl hr
  | createDir b' =>
    rw [serve] at hr
    split_ifs at hr
    · exact .inl (hinsert rfl hr)
    · exact .inl hr
  | removeDir b' =>
    rw [serve] at hr
    split_ifs at hr
    · exact .inl hr
    · cases hfault : w.fault with
      | none =>
        rw [hfault] at hr
        simp only [SortedMap.get?_erase] at hr
        split_ifs at hr
        exact .inl hr
      | refused =>
        rw [hfault] at hr
        exact .inl hr
      | lost =>
        rw [hfault] at hr
        exact .inl (hinsert rfl hr)
  | acquire command scope =>
    rw [serve] at hr
    split_ifs at hr
    · exact .inl hr
    · exact .inl hr
  | _ => exact .inl hr

/-- A thread claims a backup in reading or writing its record, which is then its own; else it has
claimed it before. -/
theorem DeferredWorld.claimed_call {c : DeferredCall} (hc : (l.learn ⟨c, (serve i c w).1⟩).claimed = some b) :
    (l.isUpload = true ∧ l.worked = false ∧ (c = .loadRecord b ∨ ∃ first r, c = .publish first b r) ∧
      ∀ r, (serve i c w).2.backups.get? b = some (.holds r) → r.ownedBy l.me = true) ∨
    (l.claimed = some b ∧ (∀ scope, c ≠ .release scope) ∧
      ∀ first r, c = .publish first b r → w.fault ≠ .none) := by
  have hkept : ∀ {p : Prop}, l.claimed = some b → (∀ scope, c ≠ .release scope) →
      (∀ first r, c ≠ .publish first b r) → p ∨ (l.claimed = some b ∧ (∀ scope, c ≠ .release scope) ∧
        ∀ first r, c = .publish first b r → w.fault ≠ .none) :=
    fun h hrelease hpublish => .inr ⟨h, hrelease, fun first r heq => absurd heq (hpublish first r)⟩
  have howns : ∀ {b' r}, l.owns b' r = true → l.isUpload = true ∧ l.worked = false ∧ r.ownedBy l.me = true := by
    intro b' r h
    simp only [DeferredMind.owns, Bool.and_eq_true, Bool.not_eq_true'] at h
    exact ⟨h.1.1.1, h.1.1.2, h.2⟩
  cases c with
  | loadRecord b' =>
    by_cases hfault : w.fault = .none
    · cases hfile : w.file b' with
      | absent =>
        simp only [serve, if_pos hfault, hfile, loadStateFile, DeferredMind.learn] at hc
        exact hkept hc (fun _ h => (by cases h)) fun _ _ h => (by cases h)
      | unreadable e =>
        simp only [serve, if_pos hfault, hfile, loadStateFile, DeferredMind.learn] at hc
        exact hkept hc (fun _ h => (by cases h)) fun _ _ h => (by cases h)
      | holds r =>
        simp only [serve, if_pos hfault, hfile, loadStateFile, DeferredMind.learn] at hc
        split_ifs at hc with hown
        · cases hc
          obtain ⟨hup, hworked, howner⟩ := howns hown
          refine .inl ⟨hup, hworked, .inl rfl, fun r' hr' => ?_⟩
          have hr'' : w.backups.get? b = some (.holds r') := hr'
          rw [file, hr''] at hfile
          cases hfile
          exact howner
        · exact hkept hc (fun _ h => (by cases h)) fun _ _ h => (by cases h)
    · simp only [serve, if_neg hfault, DeferredMind.learn] at hc
      exact hkept hc (fun _ h => (by cases h)) fun _ _ h => (by cases h)
  | publish first b' r =>
    by_cases hfault : w.fault = .none
    · simp only [serve, if_pos hfault, DeferredMind.learn, if_true] at hc ⊢
      split_ifs at hc with hown
      cases hc
      obtain ⟨hup, hworked, howner⟩ := howns hown
      refine .inl ⟨hup, hworked, .inr ⟨first, r, rfl⟩, fun r' hr' => ?_⟩
      simp only [write, SortedMap.get?_insert, if_true] at hr'
      cases hr'
      exact howner
    · have hreply : (serve i (.publish first b' r) w).1 = false := by simp [serve, hfault]
      rw [hreply] at hc
      exact .inr ⟨hc, fun _ h => (by cases h), fun _ _ _ => hfault⟩
  | recordExists b' =>
    refine hkept ?_ (fun _ h => (by cases h)) fun _ _ h => (by cases h)
    cases hreply : (serve i (.recordExists b') w).1 with
    | true =>
      rw [hreply] at hc
      exact hc
    | false =>
      rw [hreply] at hc
      exact hc
  | unfreeze b' info =>
    refine hkept ?_ (fun _ h => (by cases h)) fun _ _ h => (by cases h)
    cases hreply : (serve i (.unfreeze b' info) w).1 with
    | true =>
      rw [hreply] at hc
      exact hc
    | false =>
      rw [hreply] at hc
      exact hc
  | startToken pid =>
    refine hkept ?_ (fun _ h => (by cases h)) fun _ _ h => (by cases h)
    unfold DeferredMind.learn at hc
    cases hjudging : l.judging with
    | none =>
      simp only [hjudging] at hc
      exact hc
    | some x =>
      simp only [hjudging] at hc
      split_ifs at hc
      · exact hc
      · exact hc
  | release scope => cases hc
  | awaitWork b' => cases hc
  | _ => exact hkept hc (fun _ h => (by cases h)) fun _ _ h => (by cases h)

/-- A thread releases tables by the lock that it has taken before, or by one that was free. -/
theorem DeferredWorld.lockedBy_call {c : DeferredCall} (hb : (l.learn ⟨c, (serve i c w).1⟩).LockedBy b) :
    l.LockedBy b ∨ ∃ command scope, c = .acquire command scope ∧ command ∈ releasingCommands ∧
      scope.covers b = true ∧ ∀ x ∈ w.locks, x.1.blocks scope = false := by
  obtain ⟨x, hx, hcovers, hcommand⟩ := hb
  by_cases hc : c.isLock = false
  · rw [DeferredMind.locked_learn_of_noLock hc] at hx
    exact .inl ⟨x, hx, hcovers, hcommand⟩
  · cases c with
    | acquire command scope =>
      rw [serve] at hx
      split_ifs at hx with hfree
      · rcases List.mem_cons.mp hx with rfl | hx
        · exact .inr ⟨command, scope, rfl, hcommand, hcovers,
            fun y hy => Bool.eq_false_iff.mpr (List.any_eq_false.mp hfree.2.1 y hy)⟩
        · exact .inl ⟨x, hx, hcovers, hcommand⟩
      · exact .inl ⟨x, hx, hcovers, hcommand⟩
    | release scope => exact .inl ⟨x, (List.mem_filter.mp hx).1, hcovers, hcommand⟩
    | _ => exact absurd rfl hc

theorem DeferredMind.LockedBy.learn {c : DeferredCall} {r : c.Reply} (h : l.LockedBy b)
    (hc : ∀ scope, c ≠ .release scope) : (l.learn ⟨c, r⟩).LockedBy b := by
  obtain ⟨x, hx, hcovers, hcommand⟩ := h
  exact ⟨x, locked_learn hx (hc _), hcovers, hcommand⟩

/-- The copying does not start again. -/
theorem DeferredMind.worked_of_learn {c : DeferredCall} {r : c.Reply} (h : (l.learn ⟨c, r⟩).worked = false) :
    l.worked = false := by
  cases c with
  | startToken pid =>
    unfold learn at h
    cases hjudging : l.judging with
    | none =>
      simp only [hjudging] at h
      exact h
    | some x =>
      simp only [hjudging] at h
      split_ifs at h
      · exact h
      · exact h
  | recordExists b =>
    revert h
    cases (show Bool from r) <;> exact id
  | loadRecord b =>
    match r with
    | .error _ => exact h
    | .ok none => exact h
    | .ok (some _) => exact h
  | publish first b r' =>
    revert h
    cases (show Bool from r) <;> exact id
  | unfreeze b info =>
    revert h
    cases (show Bool from r) <;> exact id
  | startWork b => cases h
  | _ => exact h

/-- A reaper that reads the record of a running owner does not clear it. -/
theorem DeferredWorld.spared_call {c : DeferredCall} {owner : Process} (hduty : l.Duty c)
    (hprocs : w.procs owner.pid = some owner.token)
    (hrecord : ∀ r, w.backups.get? b = some (.holds r) → r.ownedBy owner = true)
    (hspared : c.isLock = false → l.cleared ≠ some b ∧
      ∀ r, l.judging = some (b, r) → r.ownedBy owner = true ∧ l.alive = true) :
    (l.learn ⟨c, (serve i c w).1⟩).cleared ≠ some b ∧
      ∀ r, (l.learn ⟨c, (serve i c w).1⟩).judging = some (b, r) →
        r.ownedBy owner = true ∧ (l.learn ⟨c, (serve i c w).1⟩).alive = true := by
  cases c with
  | acquire command scope => exact ⟨fun h => (by cases h), fun r h => (by cases h)⟩
  | release scope => exact ⟨fun h => (by cases h), fun r h => (by cases h)⟩
  | loadRecord b' =>
    obtain ⟨hcleared, -⟩ := hspared rfl
    by_cases hfault : w.fault = .none
    · cases hfile : w.file b' with
      | absent =>
        simp only [serve, if_pos hfault, hfile, loadStateFile, DeferredMind.learn]
        exact ⟨hcleared, fun r h => (by cases h)⟩
      | unreadable e =>
        simp only [serve, if_pos hfault, hfile, loadStateFile, DeferredMind.learn]
        exact ⟨hcleared, fun r h => (by cases h)⟩
      | holds r =>
        simp only [serve, if_pos hfault, hfile, loadStateFile, DeferredMind.learn]
        refine ⟨hcleared, fun r' h => ?_⟩
        cases h
        refine ⟨hrecord r ?_, trivial⟩
        rw [file] at hfile
        cases hget : w.backups.get? b with
        | none =>
          rw [hget] at hfile
          cases hfile
        | some x =>
          rw [hget] at hfile
          exact congrArg some hfile
    · simp only [serve, if_neg hfault, DeferredMind.learn]
      exact ⟨hcleared, fun r h => (by cases h)⟩
  | pidAlive pid =>
    obtain ⟨hcleared, hjudging⟩ := hspared rfl
    refine ⟨hcleared, fun r h => ?_⟩
    obtain ⟨howner, -⟩ := hjudging r h
    obtain rfl : r.ownerPid = pid := hduty b r h
    refine ⟨howner, ?_⟩
    have hpid := (DeferredFreezeRecord.ownedBy_iff.mp howner).1
    simp [serve, DeferredMind.learn, hpid, hprocs, Nat.pos_iff_ne_zero.mp owner.isProcess]
  | startToken pid =>
    obtain ⟨hcleared, hjudging⟩ := hspared rfl
    unfold DeferredMind.learn
    cases hj : l.judging with
    | none =>
      dsimp only
      exact ⟨hcleared, fun r h => by rw [hj] at h; cases h⟩
    | some x =>
      obtain ⟨b', r⟩ := x
      dsimp only
      split_ifs with hdead
      · obtain ⟨rfl, hlive⟩ := hdead
        refine ⟨fun h => ?_, fun r' h => hjudging r' (hj.trans h)⟩
        cases h
        obtain ⟨howner, halive⟩ := hjudging r hj
        have hpid := (DeferredFreezeRecord.ownedBy_iff.mp howner).1
        have htoken : (serve i (.startToken r.ownerPid) w).1 = owner.token := by
          simp [serve, hpid, hprocs]
        rw [htoken, halive, DeferredFreezeRecord.livenessFrom_of_ownedBy howner] at hlive
        cases hlive
      · exact ⟨hcleared, hjudging⟩
  | recordExists b' =>
    obtain ⟨hcleared, hjudging⟩ := hspared rfl
    cases hreply : (serve i (.recordExists b') w).1 <;> exact ⟨hcleared, hjudging⟩
  | publish first b' r =>
    obtain ⟨hcleared, hjudging⟩ := hspared rfl
    cases hreply : (serve i (.publish first b' r) w).1 <;> exact ⟨hcleared, hjudging⟩
  | unfreeze b' info =>
    obtain ⟨hcleared, hjudging⟩ := hspared rfl
    cases hreply : (serve i (.unfreeze b' info) w).1 <;> exact ⟨hcleared, hjudging⟩
  | _ => exact hspared rfl

/-- A process that has not ended runs on. -/
theorem DeferredWorld.procs_move {w' : DeferredWorld} {ls : List DeferredMind} {e : DeferredMove} {j : Nat}
    {me : Process} (hw : w.move ls e = some w') (hprocs : w.procs me.pid = some me.token)
    (hover : w'.isOver j me = false) : w'.procs me.pid = some me.token := by
  cases e with
  | fault f =>
    cases hw
    exact hprocs
  | setClock now =>
    cases hw
    exact hprocs
  | detach thread =>
    rw [DeferredWorld.move] at hw
    split at hw
    · split_ifs at hw
      cases hw
      exact hprocs
    · cases hw
  | stop thread =>
    cases hw
    exact hprocs
  | exit pid =>
    rw [DeferredWorld.move] at hw
    split at hw
    · rename_i token htoken
      cases hw
      have hpid : me.pid ≠ pid := by
        rintro rfl
        rw [hprocs] at htoken
        cases htoken
        simp [isOver, dropLocks] at hover
      simp [dropLocks, hpid, hprocs]
    · cases hw
  | spawn pid token =>
    rw [DeferredWorld.move] at hw
    split_ifs at hw with hfree
    cases hw
    have hpid : me.pid ≠ pid := by
      rintro rfl
      rw [hprocs] at hfree
      cases hfree.1
    simp [hpid, hprocs]

end Calls

/-! ## The invariant -/

namespace Claimed

variable {ts : List DeferredThread} {w : DeferredWorld} {ls : List DeferredMind} {i j : Nat} {l l' : DeferredMind}
  {b : Str}

/-- Nobody else may touch what an upload has claimed. -/
theorem not_mayTouch (h : Claimed ts w ls) (hne : i ≠ j) (hi : ls[i]? = some l) (hj : ls[j]? = some l')
    (hover : w.isOver i l.me = false) (hover' : w.isOver j l'.me = false) (hclaimed : l'.claimed = some b) :
    ¬l.MayTouch b := by
  rintro (hlocked | ⟨hcleared, hlock⟩)
  · exact h.alone i j l l' hne hi hj hover hover' b hlocked (h.own j l' b hj hover' hclaimed).1
  · exact (h.spared i j l l' b hne hi hj hover hover' hclaimed hlock).1 hcleared

/-- An upload touches its backup by its own lock. -/
theorem lockedBy_of_mayTouch (h : Claimed ts w ls) (hi : ls[i]? = some l) (hup : l.isUpload = true)
    (htouch : l.MayTouch b) : l.LockedBy b := by
  rcases htouch with hlocked | ⟨-, x, hx, hscope⟩
  · exact hlocked
  · exact ⟨x, hx, by simp [hscope, LockScope.covers], h.uploads i l hi hup x hx⟩

/-- A command that releases tables does not come to share a backup with another one. -/
theorem newcomer (h : Claimed ts w ls) (hi : ls[i]? = some l) {c : DeferredCall} (hduty : l.Duty c)
    (hover : w.isOver i l.me = false) (hok : keepsToLocks w ls (.inl i) = true) (hne : j ≠ i)
    (hj : ls[j]? = some l') (hover' : w.isOver j l'.me = false) (hb : l'.LockedBy b) :
    ¬(l.learn ⟨c, (DeferredWorld.serve i c w).1⟩).LockedBy b := by
  intro hnew
  rcases DeferredWorld.lockedBy_call hnew with hold | ⟨command, scope, rfl, hcommand, hcovers, hfree⟩
  · exact h.alone i j l l' (Ne.symm hne) hi hj hover hover' b hold hb
  · obtain ⟨y, hy, hycovers, -⟩ := hb
    have hoverlaps := LockScope.overlaps_of_covers hycovers hcovers
    have hblocks := LockScope.blocks_of_covers hycovers hcovers
    rcases hduty with ⟨rfl, -⟩ | ⟨hstarted, rfl, rfl⟩
    · exact absurd hcommand (by decide)
    · rw [keepsToLocks, hi, Option.all_some] at hok
      simp only [hstarted, hcommand, not_true_eq_false, decide_false, Bool.false_or] at hok
      have hthread := List.all_eq_true.mp hok (l', j) (List.mem_zipIdx_iff_getElem?.mpr hj)
      simp only [hover', hne, decide_false, Bool.false_or] at hthread
      have hlock := List.all_eq_true.mp hthread y hy
      simp only [hoverlaps, Bool.not_true, Bool.or_false, decide_eq_true_eq] at hlock
      rw [hfree _ hlock] at hblocks
      cases hblocks

/-- A call of a thread. -/
theorem call (h : Claimed ts w ls) (hi : ls[i]? = some l) {c : DeferredCall} (hduty : l.Duty c)
    (hover : w.isOver i l.me = false) (hprocs : w.procs l.me.pid = some l.me.token)
    (hok : keepsToLocks w ls (.inl i) = true) :
    Claimed ts (DeferredWorld.serve i c w).2 (ls.set i (l.learn ⟨c, (DeferredWorld.serve i c w).1⟩)) where
  toOrderly := h.toOrderly.call hi c
  uploads := by
    refine forall_getElem?_set (fun hup x hx => ?_) fun j l' _ => h.uploads j l'
    rw [DeferredMind.isSame_learn.isUpload] at hup
    by_cases hc : c.isLock = false
    · rw [DeferredMind.locked_learn_of_noLock hc] at hx
      exact h.uploads i l hi hup x hx
    · cases c with
      | acquire command scope =>
        rw [DeferredWorld.serve] at hx
        split_ifs at hx
        · rcases List.mem_cons.mp hx with rfl | hx
          · rcases hduty with ⟨-, hno⟩ | ⟨-, rfl, -⟩
            · rw [hup] at hno
              cases hno
            · obtain ⟨t, -, -, hkind, hcommand⟩ := h.mine i l hi
              rw [hup] at hkind
              cases hwork : t.work with
              | upload b' deleteAfter =>
                rw [hcommand, hwork]
                exact (show ("upload" : Str) ∈ releasingCommands by decide)
              | _ =>
                rw [hwork] at hkind
                cases hkind
          · exact h.uploads i l hi hup x hx
        · exact h.uploads i l hi hup x hx
      | release scope => exact h.uploads i l hi hup x (List.mem_filter.mp hx).1
      | _ => exact absurd rfl hc
  attached := by
    refine forall_getElem?_set (fun hover' hworked => ?_) fun j l' hne hj hover' hworked => ?_
    · exact (h.attached i l hi hover (DeferredMind.worked_of_learn hworked)).call_self c
    · rw [DeferredWorld.isOver_serve] at hover'
      exact (h.attached j l' hj hover' hworked).call_other hne c
  alone j k l₁ l₂ hne hj hk hover₁ hover₂ b hb hb' := by
    rw [DeferredWorld.isOver_serve] at hover₁ hover₂
    rcases getElem?_set_cases hj with ⟨rfl, rfl⟩ | ⟨hji, hreader⟩
    · rcases getElem?_set_cases hk with ⟨rfl, rfl⟩ | ⟨hki, hk⟩
      · exact hne rfl
      · exact h.newcomer hi hduty hover hok hki hk hover₂ hb' hb
    · rcases getElem?_set_cases hk with ⟨rfl, rfl⟩ | ⟨hki, hk⟩
      · exact h.newcomer hi hduty hover hok hji hreader hover₁ hb hb'
      · exact h.alone j k l₁ l₂ hne hreader hk hover₁ hover₂ b hb hb'
  own := by
    obtain ⟨-, -, hsame⟩ := DeferredWorld.serve_same i c w
    intro j l' b hj hover' hclaimed
    rw [DeferredWorld.isOver_serve] at hover'
    rcases getElem?_set_cases hj with ⟨rfl, rfl⟩ | ⟨hne, hother⟩
    · rw [DeferredMind.isSame_learn.me, hsame]
      rcases DeferredWorld.claimed_call hclaimed with ⟨hup, -, hc, hrecord⟩ | ⟨hold, hrelease, hpublish⟩
      · refine ⟨?_, hprocs, hrecord⟩
        rcases hc with rfl | ⟨first, r, rfl⟩
        · exact (hduty hup).learn fun _ h => by cases h
        · cases first with
          | true =>
            rw [hduty.1] at hup
            cases hup
          | false => exact (h.lockedBy_of_mayTouch hi hup hduty.1).learn fun _ h => by cases h
      · obtain ⟨hlocked, -, hrecord⟩ := h.own j l b hi hover hold
        refine ⟨hlocked.learn hrelease, hprocs, fun r hr => ?_⟩
        rcases DeferredWorld.record_serve hr with hr | ⟨first, hc, hfault⟩
        · exact hrecord r hr
        · exact absurd hfault (hpublish first r hc)
    · obtain ⟨hlocked, hprocs', hrecord⟩ := h.own j l' b hother hover' hclaimed
      rw [hsame]
      refine ⟨hlocked, hprocs', fun r hr => ?_⟩
      rcases DeferredWorld.record_serve hr with hr | ⟨first, rfl, -⟩
      · exact hrecord r hr
      · cases first with
        | true => exact absurd hlocked (h.alone i j l l' (Ne.symm hne) hi hother hover hover' b hduty.2.1)
        | false => exact absurd hduty.1 (h.not_mayTouch (Ne.symm hne) hi hother hover hover' hclaimed)
  spared j k l₁ l₂ b hne hj hk hover₁ hover₂ hclaimed hlock := by
    rw [DeferredWorld.isOver_serve] at hover₁ hover₂
    rcases getElem?_set_cases hj with ⟨rfl, rfl⟩ | ⟨hji, hreader⟩
    · rcases getElem?_set_cases hk with ⟨rfl, rfl⟩ | ⟨hki, hk⟩
      · exact absurd rfl hne
      · -- the reader makes the call
        obtain ⟨-, hprocs', hrecord⟩ := h.own k l₂ b hk hover₂ hclaimed
        refine DeferredWorld.spared_call hduty hprocs' hrecord fun hc => ?_
        rw [DeferredMind.locked_learn_of_noLock hc] at hlock
        exact h.spared j k l l₂ b hne hi hk hover hover₂ hclaimed hlock
    · rcases getElem?_set_cases hk with ⟨rfl, rfl⟩ | ⟨hki, hk⟩
      · rcases DeferredWorld.claimed_call hclaimed with ⟨hup, hworked, hc, -⟩ | ⟨hold, -⟩
        · -- a new claim is made under the lock of the backup, so no reaper has that lock
          exfalso
          have hlocked : l.LockedBy b := by
            rcases hc with rfl | ⟨first, r, rfl⟩
            · exact hduty hup
            · cases first with
              | true => exact hduty.2.1
              | false => exact h.lockedBy_of_mayTouch hi hup hduty.1
          obtain ⟨x, hx, hscope⟩ := hlock
          have hcovers : x.2.covers b = true := by simp [hscope, LockScope.covers]
          obtain ⟨y, hy, hycovers, -⟩ := id hlocked
          cases hup' : l₁.isUpload with
          | true =>
            have hreleasing := h.uploads j l₁ hreader hup' x hx
            exact h.alone j k l₁ l hne hreader hi hover₁ hover b ⟨x, hx, hcovers, hreleasing⟩ hlocked
          | false =>
            have hmine := h.holds j l₁ hreader hover₁ hup' x hx
            exact hne (h.unique hmine (h.attached k l hi hover hworked y hy) hcovers hycovers)
        · rw [DeferredMind.isSame_learn.me]
          exact h.spared j k l₁ l b hne hreader hi hover₁ hover hold hlock
      · exact h.spared j k l₁ l₂ b hne hreader hk hover₁ hover₂ hclaimed hlock

/-- A move. -/
theorem move (h : Claimed ts w ls) {e : DeferredMove} {w' : DeferredWorld} (hok : keepsToLocks w ls (.inr e) = true)
    (hw : w.move ls e = some w') : Claimed ts w' ls where
  toOrderly := h.toOrderly.move hw
  uploads := h.uploads
  attached j l hj hover hworked := by
    obtain ⟨-, -, -, -, hstill⟩ := DeferredWorld.same_move hw
    refine (h.attached j l hj (hstill j _ hover) hworked).move hw hj hover ?_
    rintro rfl
    rw [keepsToLocks, hj, Option.all_some, hworked] at hok
    cases hok
  alone i j l l' hne hi hj hover hover' := by
    obtain ⟨-, -, -, -, hstill⟩ := DeferredWorld.same_move hw
    exact h.alone i j l l' hne hi hj (hstill i _ hover) (hstill j _ hover')
  own j l b hj hover hclaimed := by
    obtain ⟨hbackups, -, -, -, hstill⟩ := DeferredWorld.same_move hw
    obtain ⟨hlocked, hprocs, hrecord⟩ := h.own j l b hj (hstill j _ hover) hclaimed
    rw [hbackups]
    exact ⟨hlocked, DeferredWorld.procs_move hw hprocs hover, hrecord⟩
  spared i j l l' b hne hi hj hover hover' := by
    obtain ⟨-, -, -, -, hstill⟩ := DeferredWorld.same_move hw
    exact h.spared i j l l' b hne hi hj (hstill i _ hover) (hstill j _ hover')

end Claimed

/-- The threads before their first calls. -/
theorem claimed_start (ts : List DeferredThread) {w : DeferredWorld} (hw : w.locks = []) :
    Claimed ts w (deferredStart ts w).minds := by
  have hmind : ∀ {j : Nat} {l : DeferredMind}, (deferredStart ts w).minds[j]? = some l →
      ∃ t : DeferredThread, l = t.mind := by
    intro j l hj
    simp only [Threads.minds, deferredStart, List.map_map, List.getElem?_map, Option.map_eq_some_iff] at hj
    obtain ⟨t, -, rfl⟩ := hj
    exact ⟨t, rfl⟩
  refine { toOrderly := orderly_start ts hw, uploads := ?_, attached := ?_, alone := ?_, own := ?_, spared := ?_ }
  · intro j l hj _ x hx
    obtain ⟨t, rfl⟩ := hmind hj
    exact absurd hx List.not_mem_nil
  · intro j l hj _ _ x hx
    obtain ⟨t, rfl⟩ := hmind hj
    exact absurd hx List.not_mem_nil
  · rintro i j l l' - hi - - - b ⟨x, hx, -⟩
    obtain ⟨t, rfl⟩ := hmind hi
    exact absurd hx List.not_mem_nil
  · intro j l b hj _ hclaimed
    obtain ⟨t, rfl⟩ := hmind hj
    cases hclaimed
  · intro i j l l' b _ _ hj _ _ hclaimed
    obtain ⟨t, rfl⟩ := hmind hj
    cases hclaimed

/-- **What an upload has claimed is left alone.**  In any run in which the commands that release tables
without asking keep to the locks, also those that uploads have lost, no other thread is about to release
a table of a backup, or to write its record, while an upload copies that has claimed the backup. -/
theorem claimed_left_alone {ts : List DeferredThread} {w : DeferredWorld} {s : DeferredThreads} {i j : Nat}
    {t u : Thread DeferredCall DeferredCall.Reply DeferredMind DeferredError Unit} {b : Str}
    (hlocks : w.locks = [])
    (hr : (deferredMachine ts).Reaches (fun w ls a => keepsToLocks w ls a = true) (deferredStart ts w) s)
    (hne : i ≠ j) (hi : s.threads[i]? = some t) (hj : s.threads[j]? = some u)
    (hover : s.shared.isOver i t.mind.me = false) (hover' : s.shared.isOver j u.mind.me = false)
    (hclaimed : u.mind.claimed = some b) :
    (∀ info k, t.rest ≠ .call (.unfreeze b info) k) ∧ ∀ first r k, t.rest ≠ .call (.publish first b r) k := by
  have hrun := hr.invariant (P := DeferredMind.Duty) (Q := fun _ _ => True) (I := Claimed ts)
    (claimed_start ts hlocks) ?_ ?_ ?_
  · obtain ⟨hI, hobeys⟩ := hrun
    have hminds : ∀ {k : Nat} {x : Thread DeferredCall DeferredCall.Reply DeferredMind DeferredError Unit},
        s.threads[k]? = some x → s.minds[k]? = some x.mind := by
      intro k x hk
      rw [Threads.minds, List.getElem?_map, hk]
      rfl
    have hno := hI.not_mayTouch (b := b) hne (hminds hi) (hminds hj) hover hover' hclaimed
    have hduty := hobeys t (List.mem_of_getElem? hi)
    obtain ⟨l, rest⟩ := t
    constructor
    · rintro info k rfl
      exact hno hduty.1
    · rintro first r k rfl
      cases first with
      | true => exact hno (.inl hduty.1.2.1)
      | false => exact hno hduty.1.1
  · intro t ht
    obtain ⟨t', -, rfl⟩ := List.mem_map.mp ht
    exact obeys_program t'
  · intro i c l ls shared hI hi hduty hen hok
    obtain ⟨t, ht, hme, -⟩ := hI.mine i l hi
    simp only [deferredMachine, ht, Bool.and_eq_true, Bool.not_eq_true', decide_eq_true_eq] at hen
    rw [← hme] at hen
    exact hI.call hi hduty hen.1 hen.2 hok
  · intro e ls shared shared' hI hok hmove
    exact hI.move hok hmove

/-- Beside the upload of one backup, another one is created. -/
def createBeside : List DeferredThread :=
  createAndUpload ++ [⟨⟨1, some "1000", Nat.one_pos⟩, .create "b" ["a"] ⟨[], [], 10⟩⟩]

/-- The reaper looks at the record of an upload that has lost its lock, long after the freeze has run out. -/
theorem detached_upload_left_alone :
    ∃ s t u, (deferredMachine createBeside).Reaches (fun w ls a => keepsToLocks w ls a = true)
        (deferredStart createBeside quietWorld) s ∧
      s.threads[2]? = some t ∧ s.threads[1]? = some u ∧ u.mind.claimed = some "a".toList ∧
      t.mind.judging.isSome = true ∧ s.shared.locks = [(.backup "b", 2)] ∧ s.shared.clock = 1000 ∧
      (∀ info k, t.rest ≠ .call (.unfreeze "a" info) k) ∧ ∀ first r k, t.rest ≠ .call (.publish first "a" r) k := by
  have hrun : ((deferredMachine createBeside).runWhere (fun w ls a => keepsToLocks w ls a = true)
      (List.replicate 11 (.inl 0) ++ List.replicate 7 (.inl 1) ++ [.inr (.detach 1), .inr (.setClock 1000)] ++
        List.replicate 6 (.inl 2))
      (deferredStart createBeside quietWorld)).map (fun s => (s.shared.locks, s.shared.clock,
        (s.threads[1]?.map fun u => decide (u.mind.claimed = some "a".toList) && !s.shared.isOver 1 u.mind.me),
        s.threads[2]?.map fun t => t.mind.judging.isSome && !s.shared.isOver 2 t.mind.me)) =
      some ([(.backup "b", 2)], 1000, some true, some true) := by
    decide +kernel
  obtain ⟨s, hs, heq⟩ := Option.map_eq_some_iff.mp hrun
  simp only [Prod.mk.injEq] at heq
  obtain ⟨hlocks, hclock, hupload, hreaper⟩ := heq
  obtain ⟨u, hu, hclaimed⟩ := Option.map_eq_some_iff.mp hupload
  obtain ⟨t, ht, hjudging⟩ := Option.map_eq_some_iff.mp hreaper
  simp only [Bool.and_eq_true, decide_eq_true_eq, Bool.not_eq_true'] at hclaimed hjudging
  have hr := Machine.reaches_of_runWhere .refl hs
  exact ⟨s, t, u, hr, ht, hu, hclaimed.1, hjudging.1, hlocks, hclock,
    claimed_left_alone rfl hr (by decide) ht hu hjudging.2 hclaimed.2 hclaimed.1⟩

end Chbackup
