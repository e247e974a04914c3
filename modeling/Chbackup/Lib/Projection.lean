import Chbackup.Lib.World

/-!
# Runs seen from one task

In a run of parallel tasks, the calls that only one of the tasks makes are the calls of that kind in
a run of the task alone, in the same order (`Runs.own_of_par`).  A world seen from a part of its state
is a smaller world (`World.Legal.project`), in which the events that do not concern the part can be
left out (`World.legal_filter_iff`).
-/

namespace CallTree

variable {C : Type} {R : C → Type} {ε α : Type}

/-- The events that a set of calls allows. -/
def ofCalls (K : C → Bool) (t : List (Event C R)) : List (Event C R) := t.filter fun ev => K ev.1

variable {K : C → Bool}

theorem ofCalls_append (t u : List (Event C R)) : ofCalls K (t ++ u) = ofCalls K t ++ ofCalls K u :=
  List.filter_append t u

theorem ofCalls_cons (ev : Event C R) (t : List (Event C R)) :
    ofCalls K (ev :: t) = ofCalls K [ev] ++ ofCalls K t := ofCalls_append [ev] t

/-- A run of a program that makes none of the calls. -/
theorem ofCalls_eq_nil {p : Prog C R ε α} {t : List (Event C R)} {e : End ε α}
    (hp : Within (fun c => K c = false) (fun _ => True) p) (h : Runs p t e) : ofCalls K t = [] := by
  refine List.filter_eq_nil_iff.mpr fun ev hev hK => ?_
  have hfalse := (hp.runs h).1 ev hev
  rw [hfalse] at hK
  cases hK

/-- One task makes all calls of a kind. -/
def OnlyTask (K : C → Bool) (i : Nat) (ts : List (Prog C R Empty α)) : Prop :=
  ∀ (j : Nat) (q : Prog C R Empty α), j ≠ i → ts[j]? = some q →
    Within (fun c => K c = false) (fun _ => True) q

/-- The task at a position ran by itself: its events are among those of the run, and those of the
kind are the same. -/
def RanAlone (K : C → Bool) (t : List (Event C R)) (p : Prog C R Empty α) (a : α) : Prop :=
  ∃ u, Runs p u (.returned a) ∧ (∀ ev ∈ u, ev ∈ t) ∧ ofCalls K t = ofCalls K u

theorem ofCalls_sequence_eq_nil {ts : List (Prog C R Empty α)} {t : List (Event C R)} {as : List α}
    (hts : ∀ q ∈ ts, Within (fun c => K c = false) (fun _ => True) q)
    (h : Runs (Prog.sequence ts : Prog C R ε (List α)) t (.returned as)) : ofCalls K t = [] := by
  induction ts generalizing t as with
  | nil =>
    cases h
    rfl
  | cons p ts ih =>
    obtain ⟨a, t₁, t₂, rfl, h₁, h₂⟩ := h.returned_of_bind
    obtain ⟨as', t₃, t₄, rfl, h₃, h₄⟩ := h₂.returned_of_bind
    cases h₄
    rw [ofCalls_append, ofCalls_eq_nil (hts p List.mem_cons_self) h₁.of_mapError, List.append_nil,
      ih (fun q hq => hts q (List.mem_cons_of_mem _ hq)) h₃]
    rfl

theorem Runs.own_of_sequence {ts : List (Prog C R Empty α)} {as : List α} {t : List (Event C R)}
    (h : Runs (Prog.sequence ts : Prog C R ε (List α)) t (.returned as)) {i : Nat}
    {p : Prog C R Empty α} (hi : ts[i]? = some p) (honly : OnlyTask K i ts) :
    ∃ a, as[i]? = some a ∧ RanAlone K t p a := by
  induction ts generalizing t as i with
  | nil => cases hi
  | cons q ts ih =>
    obtain ⟨b, t₁, t₂, rfl, h₁, h₂⟩ := h.returned_of_bind
    obtain ⟨as', t₃, t₄, rfl, h₃, h₄⟩ := h₂.returned_of_bind
    cases h₄
    rw [List.append_nil]
    cases i with
    | zero =>
      cases hi
      have hrest : ofCalls K t₃ = [] := by
        refine ofCalls_sequence_eq_nil (fun q hq => ?_) h₃
        obtain ⟨j, hj⟩ := List.getElem?_of_mem hq
        exact honly (j + 1) q (Nat.succ_ne_zero j) hj
      refine ⟨b, rfl, t₁, h₁.of_mapError, fun ev hev => List.mem_append_left _ hev, ?_⟩
      rw [ofCalls_append, hrest, List.append_nil]
    | succ i =>
      have hfirst : ofCalls K t₁ = [] :=
        ofCalls_eq_nil (honly 0 q (Nat.succ_ne_zero i).symm rfl) h₁.of_mapError
      obtain ⟨a, ha, u, hu, hmem, heq⟩ :=
        ih h₃ hi fun j q hj hq => honly (j + 1) q (fun h => hj (Nat.succ.inj h)) hq
      refine ⟨a, ha, u, hu, fun ev hev => List.mem_append_right _ (hmem ev hev), ?_⟩
      rw [ofCalls_append, hfirst, List.nil_append, heq]

/-- The tasks after a call of one of them. -/
theorem OnlyTask.set {ts : List (Prog C R Empty α)} {i j : Nat} {c : C} {k : R c → Prog C R Empty α}
    (h : OnlyTask K i ts) (hj : ts[j]? = some (.call c k)) (r : R c) : OnlyTask K i (ts.set j (k r)) := by
  intro l q hl hq
  by_cases hjl : j = l
  · subst hjl
    rw [List.getElem?_set_self (List.getElem?_eq_some_iff.mp hj).1] at hq
    cases hq
    exact (h j _ hl hj).of_call.2 r
  · rw [List.getElem?_set_ne hjl] at hq
    exact h l q hl hq

/-- **In a run of parallel tasks the calls of one task are those of a run of its own.** -/
theorem Runs.own_of_par {schedule : List Nat} {ts : List (Prog C R Empty α)} {as : List α}
    {t : List (Event C R)} (h : Runs (Prog.par schedule ts : Prog C R ε (List α)) t (.returned as))
    {i : Nat} {p : Prog C R Empty α} (hi : ts[i]? = some p) (honly : OnlyTask K i ts) :
    ∃ a, as[i]? = some a ∧ RanAlone K t p a := by
  induction schedule generalizing ts t p with
  | nil => exact h.own_of_sequence hi honly
  | cons j schedule ih =>
    rw [Prog.par] at h
    split at h
    · rename_i c k hj
      cases h with
      | @call _ _ t _ r h =>
        have hlt := (List.getElem?_eq_some_iff.mp hj).1
        by_cases hij : j = i
        · subst hij
          rw [hi] at hj
          cases hj
          obtain ⟨a, ha, u, hu, hmem, heq⟩ :=
            ih h (List.getElem?_set_self hlt) (honly.set hi r)
          refine ⟨a, ha, ⟨c, r⟩ :: u, Runs.call r hu, ?_, ?_⟩
          · intro ev hev
            rcases List.mem_cons.mp hev with rfl | hev
            · exact List.mem_cons_self
            · exact List.mem_cons_of_mem _ (hmem ev hev)
          · rw [ofCalls_cons, heq, ← ofCalls_cons]
        · obtain ⟨a, ha, u, hu, hmem, heq⟩ :=
            ih h ((List.getElem?_set_ne hij).trans hi) (honly.set hj r)
          have hc : ofCalls K [(⟨c, r⟩ : Event C R)] = [] := by
            have hfalse := (honly j _ hij hj).of_call.1
            exact List.filter_eq_nil_iff.mpr fun ev hev => by
              rw [List.mem_singleton.mp hev, hfalse]
              exact Bool.false_ne_true
          refine ⟨a, ha, u, hu, fun ev hev => List.mem_cons_of_mem _ (hmem ev hev), ?_⟩
          rw [ofCalls_cons, hc, List.nil_append, heq]
    · exact ih h hi honly

namespace World

variable {σ τ : Type} {w : World C R σ} {v : World C R τ} {f : σ → τ}

/-- **A part of the state is a world of its own.** -/
theorem Legal.project (hf : ∀ s ev, w.allows s ev → v.allows (f s) ev ∧ f (w.next s ev) = v.next (f s) ev)
    {s : σ} {t : List (Event C R)} (h : w.Legal s t) :
    v.Legal (f s) t ∧ f (w.after s t) = v.after (f s) t := by
  induction t generalizing s with
  | nil => exact ⟨trivial, rfl⟩
  | cons ev t ih =>
    obtain ⟨hallows, hnext⟩ := hf s ev h.1
    obtain ⟨hlegal, hafter⟩ := ih h.2
    rw [hnext] at hlegal hafter
    exact ⟨⟨hallows, hlegal⟩, hafter⟩

/-- Events that a world always allows and that change nothing can be left out. -/
theorem legal_ofCalls_iff (hK : ∀ s ev, K ev.1 = false → v.allows s ev ∧ v.next s ev = s) {s : τ}
    {t : List (Event C R)} :
    (v.Legal s (ofCalls K t) ↔ v.Legal s t) ∧ v.after s (ofCalls K t) = v.after s t := by
  induction t generalizing s with
  | nil => exact ⟨Iff.rfl, rfl⟩
  | cons ev t ih =>
    cases hev : K ev.1 with
    | true =>
      have hcons : ofCalls K (ev :: t) = ev :: ofCalls K t := List.filter_cons_of_pos hev
      rw [hcons]
      exact ⟨and_congr_right fun _ => ih.1, ih.2⟩
    | false =>
      have hcons : ofCalls K (ev :: t) = ofCalls K t :=
        List.filter_cons_of_neg (by simp [hev])
      obtain ⟨hallows, hnext⟩ := hK s ev hev
      rw [hcons, after_cons, hnext]
      refine ⟨ih.1.trans ⟨fun h => ⟨hallows, ?_⟩, fun h => ?_⟩, ih.2⟩
      · rwa [hnext]
      · have hrest := h.2
        rwa [hnext] at hrest

end World

end CallTree
