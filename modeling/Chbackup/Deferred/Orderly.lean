import Chbackup.Deferred.Duties

/-!
# Threads and their locks

A thread that is not over has the locks that it has taken, unless it is an upload, which may have lost
its own.  Two locks that cover one backup are never held together, so the threads that hold a lock on
what they work on are alone with it.
-/

namespace Chbackup

open CallTree Prog

theorem LockScope.covers_iff {a : LockScope} {b : Str} : a.covers b = true ↔ a = .backup b ∨ a = .global := by
  rw [covers, Bool.or_eq_true, decide_eq_true_eq, decide_eq_true_eq]

/-- Two scopes that cover one backup are in each other's way. -/
theorem LockScope.blocks_of_covers {a a' : LockScope} {b : Str} (h : a.covers b = true)
    (h' : a'.covers b = true) : a.blocks a' = true := by
  rcases covers_iff.mp h with rfl | rfl
  · rcases covers_iff.mp h' with rfl | rfl
    · simp [blocks]
    · rfl
  · rcases covers_iff.mp h' with rfl | rfl
    · simp [blocks]
    · rfl

theorem LockScope.overlaps_of_covers {a a' : LockScope} {b : Str} (h : a.covers b = true)
    (h' : a'.covers b = true) : a.overlaps a' = true := by
  rcases covers_iff.mp h with rfl | rfl
  · rcases covers_iff.mp h' with rfl | rfl
    · simp [overlaps]
    · rfl
  · rcases covers_iff.mp h' with rfl | rfl
    · rfl
    · rfl

/-- A thread has the locks that it has taken. -/
def DeferredWorld.Holds (w : DeferredWorld) (j : Nat) (l : DeferredMind) : Prop := ∀ x ∈ l.locked, (x.2, j) ∈ w.locks

/-- The threads are those that were started, no lock was in the way of one that was taken later, and a thread that
is not over has the locks that it has taken, unless it is an upload. -/
structure Orderly (ts : List DeferredThread) (w : DeferredWorld) (ls : List DeferredMind) : Prop where
  mine : ∀ (j : Nat) (l : DeferredMind), ls[j]? = some l →
    ∃ t, ts[j]? = some t ∧ l.me = t.process ∧ l.isUpload = t.work.isUpload ∧ l.command = t.work.command
  apart : w.locks.Pairwise fun later earlier => earlier.1.blocks later.1 = false
  holds : ∀ (j : Nat) (l : DeferredMind), ls[j]? = some l → w.isOver j l.me = false → l.isUpload = false →
    w.Holds j l

namespace DeferredWorld

variable {w w' : DeferredWorld} {i : Nat} {c : DeferredCall}

/-- A call ends no thread and no process. -/
theorem serve_same (i : Nat) (c : DeferredCall) (w : DeferredWorld) :
    (serve i c w).2.stopped = w.stopped ∧ (serve i c w).2.gone = w.gone ∧ (serve i c w).2.procs = w.procs := by
  cases c with
  | publish first b r =>
    rw [serve]
    split_ifs <;> exact ⟨rfl, rfl, rfl⟩
  | removeRecord b =>
    rw [serve]
    split_ifs <;> exact ⟨rfl, rfl, rfl⟩
  | unfreeze b info =>
    rw [serve]
    cases w.fault <;> exact ⟨rfl, rfl, rfl⟩
  | createDir b =>
    rw [serve]
    split_ifs <;> exact ⟨rfl, rfl, rfl⟩
  | removeDir b =>
    rw [serve]
    split_ifs
    · exact ⟨rfl, rfl, rfl⟩
    · cases w.fault <;> exact ⟨rfl, rfl, rfl⟩
  | acquire command scope =>
    rw [serve]
    split_ifs <;> exact ⟨rfl, rfl, rfl⟩
  | _ => exact ⟨rfl, rfl, rfl⟩

theorem isOver_serve (j : Nat) (me : Process) : (serve i c w).2.isOver j me = w.isOver j me := by
  obtain ⟨hstopped, hgone, -⟩ := serve_same i c w
  rw [isOver, isOver, hstopped, hgone]

/-- A call that is about no lock leaves the locks alone. -/
theorem locks_serve (hc : c.isLock = false) : (serve i c w).2.locks = w.locks := by
  cases c with
  | publish first b r =>
    rw [serve]
    split_ifs <;> rfl
  | removeRecord b =>
    rw [serve]
    split_ifs <;> rfl
  | unfreeze b info =>
    rw [serve]
    cases w.fault <;> rfl
  | createDir b =>
    rw [serve]
    split_ifs <;> rfl
  | removeDir b =>
    rw [serve]
    split_ifs
    · rfl
    · cases w.fault <;> rfl
  | acquire command scope => cases hc
  | release scope => cases hc
  | _ => rfl

/-- A thread has the locks that it has taken after its calls. -/
theorem Holds.call_self {l : DeferredMind} (h : w.Holds i l) (c : DeferredCall) :
    (serve i c w).2.Holds i (l.learn ⟨c, (serve i c w).1⟩) := by
  intro x hx
  by_cases hc : c.isLock = false
  · rw [DeferredMind.locked_learn_of_noLock hc] at hx
    rw [locks_serve hc]
    exact h x hx
  · cases c with
    | acquire command scope =>
      rw [serve] at hx ⊢
      split_ifs at hx ⊢
      · rcases List.mem_cons.mp hx with rfl | hx
        · exact List.mem_cons_self
        · exact List.mem_cons_of_mem _ (h x hx)
      · exact h x hx
    | release scope =>
      obtain ⟨hx, hne⟩ := List.mem_filter.mp hx
      refine List.mem_filter.mpr ⟨h x hx, ?_⟩
      have hne' : x.2 ≠ scope := of_decide_eq_true hne
      exact decide_eq_true fun heq => hne' (Prod.ext_iff.mp heq).1
    | _ => exact absurd rfl hc

/-- A thread has the locks that it has taken after the calls of the others. -/
theorem Holds.call_other {j : Nat} {l : DeferredMind} (h : w.Holds j l) (hne : j ≠ i) (c : DeferredCall) :
    (serve i c w).2.Holds j l := by
  intro x hx
  by_cases hc : c.isLock = false
  · rw [locks_serve hc]
    exact h x hx
  · cases c with
    | acquire command scope =>
      rw [serve]
      split_ifs
      · exact List.mem_cons_of_mem _ (h x hx)
      · exact h x hx
    | release scope =>
      refine List.mem_filter.mpr ⟨h x hx, decide_eq_true fun heq => hne ?_⟩
      exact (Prod.ext_iff.mp heq).2
    | _ => exact absurd rfl hc

/-- A thread that is not over has the locks that it has taken when others are dropped. -/
theorem Holds.dropLocks {ls : List DeferredMind} {j : Nat} {l : DeferredMind} (h : w.Holds j l)
    (hlocks : w'.locks = w.locks) (hj : ls[j]? = some l) (hover : w'.isOver j l.me = false) :
    (w'.dropLocks ls).Holds j l := by
  intro x hx
  refine List.mem_filter.mpr ⟨?_, ?_⟩
  · rw [hlocks]
    exact h x hx
  · simp [hj, hover]

/-- A thread that has not lost its locks has those that it has taken. -/
theorem Holds.move {ls : List DeferredMind} {e : DeferredMove} {j : Nat} {l : DeferredMind} (h : w.Holds j l)
    (hw : w.move ls e = some w') (hj : ls[j]? = some l) (hover : w'.isOver j l.me = false) (he : e ≠ .detach j) :
    w'.Holds j l := by
  cases e with
  | fault f =>
    cases hw
    exact h
  | setClock now =>
    cases hw
    exact h
  | detach thread =>
    rw [DeferredWorld.move] at hw
    split at hw
    · split_ifs at hw
      cases hw
      refine fun x hx => List.mem_filter.mpr ⟨h x hx, decide_eq_true ?_⟩
      rintro rfl
      exact he rfl
    · cases hw
  | stop thread =>
    cases hw
    exact h.dropLocks rfl hj hover
  | exit pid =>
    rw [DeferredWorld.move] at hw
    split at hw
    · cases hw
      exact h.dropLocks rfl hj hover
    · cases hw
  | spawn pid token =>
    rw [DeferredWorld.move] at hw
    split_ifs at hw
    cases hw
    exact h

/-- A move ends threads but starts none again, and leaves the backups alone. -/
theorem same_move {ls : List DeferredMind} {e : DeferredMove} (hw : w.move ls e = some w') :
    w'.backups = w.backups ∧ w'.held = w.held ∧ w'.terms = w.terms ∧ w'.locks.Sublist w.locks ∧
      ∀ j me, w'.isOver j me = false → w.isOver j me = false := by
  cases e with
  | fault f =>
    cases hw
    exact ⟨rfl, rfl, rfl, List.Sublist.refl _, fun _ _ h => h⟩
  | setClock now =>
    cases hw
    exact ⟨rfl, rfl, rfl, List.Sublist.refl _, fun _ _ h => h⟩
  | detach thread =>
    rw [DeferredWorld.move] at hw
    split at hw
    · split_ifs at hw
      cases hw
      exact ⟨rfl, rfl, rfl, List.filter_sublist, fun _ _ h => h⟩
    · cases hw
  | stop thread =>
    cases hw
    refine ⟨rfl, rfl, rfl, List.filter_sublist, fun j me h => ?_⟩
    simp only [isOver, dropLocks, List.mem_cons, Bool.or_eq_false_iff, decide_eq_false_iff_not, not_or] at h ⊢
    exact ⟨h.1.2, h.2⟩
  | exit pid =>
    rw [DeferredWorld.move] at hw
    split at hw
    · cases hw
      refine ⟨rfl, rfl, rfl, List.filter_sublist, fun j me h => ?_⟩
      simp only [isOver, dropLocks, List.mem_cons, Bool.or_eq_false_iff, decide_eq_false_iff_not, not_or] at h ⊢
      exact ⟨h.1, h.2.2⟩
    · cases hw
  | spawn pid token =>
    rw [DeferredWorld.move] at hw
    split_ifs at hw
    cases hw
    exact ⟨rfl, rfl, rfl, List.Sublist.refl _, fun _ _ h => h⟩

end DeferredWorld

namespace Orderly

variable {ts : List DeferredThread} {w : DeferredWorld} {ls : List DeferredMind} {i : Nat} {l : DeferredMind}

/-- Two locks that cover one backup are one thread's. -/
theorem unique (h : Orderly ts w ls) {a a' : LockScope} {j : Nat} {b : Str} (hi : (a, i) ∈ w.locks)
    (hj : (a', j) ∈ w.locks) (ha : a.covers b = true) (ha' : a'.covers b = true) : i = j := by
  by_contra hne
  have : Std.Symm fun x y : LockScope × Nat => ¬(x.1.covers b = true ∧ y.1.covers b = true) :=
    { symm := fun _ _ hxy hyx => hxy hyx.symm }
  have hapart : w.locks.Pairwise fun x y => ¬(x.1.covers b = true ∧ y.1.covers b = true) := by
    refine h.apart.imp fun hfree hcovers => ?_
    rw [LockScope.blocks_of_covers hcovers.2 hcovers.1] at hfree
    cases hfree
  exact hapart.forall hi hj (fun heq => hne (Prod.ext_iff.mp heq).2) ⟨ha, ha'⟩

/-- A call of a thread. -/
theorem call (h : Orderly ts w ls) (hi : ls[i]? = some l) (c : DeferredCall) :
    Orderly ts (DeferredWorld.serve i c w).2
      (ls.set i (l.learn ⟨c, (DeferredWorld.serve i c w).1⟩)) where
  mine := by
    refine forall_getElem?_set ?_ fun j l' _ => h.mine j l'
    rw [DeferredMind.isSame_learn.me, DeferredMind.isSame_learn.isUpload, DeferredMind.isSame_learn.command]
    exact h.mine i l hi
  apart := by
    by_cases hc : c.isLock = false
    · rw [DeferredWorld.locks_serve hc]
      exact h.apart
    · cases c with
      | acquire command scope =>
        rw [DeferredWorld.serve]
        split_ifs with hfree
        · refine List.pairwise_cons.mpr ⟨fun x hx => ?_, h.apart⟩
          exact Bool.eq_false_iff.mpr (List.any_eq_false.mp hfree.2.1 x hx)
        · exact h.apart
      | release scope => exact h.apart.filter _
      | _ => exact absurd rfl hc
  holds := by
    refine forall_getElem?_set (fun hover hup => ?_) fun j l' hne hj hover hup => ?_
    · rw [DeferredMind.isSame_learn.me, DeferredWorld.isOver_serve] at hover
      rw [DeferredMind.isSame_learn.isUpload] at hup
      exact (h.holds i l hi hover hup).call_self c
    · rw [DeferredWorld.isOver_serve] at hover
      exact (h.holds j l' hj hover hup).call_other hne c

/-- A move. -/
theorem move (h : Orderly ts w ls) {e : DeferredMove} {w' : DeferredWorld} (hw : w.move ls e = some w') :
    Orderly ts w' ls where
  mine := h.mine
  apart := h.apart.sublist (DeferredWorld.same_move hw).2.2.2.1
  holds j l hj hover hup := by
    obtain ⟨-, -, -, -, hstill⟩ := DeferredWorld.same_move hw
    refine (h.holds j l hj (hstill j _ hover) hup).move hw hj hover ?_
    rintro rfl
    rw [DeferredWorld.move, hj] at hw
    simp [hup] at hw

end Orderly

/-- The threads before their first calls. -/
theorem orderly_start (ts : List DeferredThread) {w : DeferredWorld} (hw : w.locks = []) :
    Orderly ts w (deferredStart ts w).minds where
  mine j l hj := by
    simp only [Threads.minds, deferredStart, List.map_map, List.getElem?_map, Option.map_eq_some_iff] at hj
    obtain ⟨t, ht, rfl⟩ := hj
    exact ⟨t, ht, rfl, rfl, rfl⟩
  apart := by
    rw [hw]
    exact List.Pairwise.nil
  holds j l hj _ _ x hx := by
    simp only [Threads.minds, deferredStart, List.map_map, List.getElem?_map, Option.map_eq_some_iff] at hj
    obtain ⟨t, ht, rfl⟩ := hj
    exact absurd hx List.not_mem_nil

end Chbackup
