import Chbackup.Lib.World

/-!
# Contracts with a condition for every moment

A program meets a contract from a state of a world if three things hold of each legal run of it.  Every
state that the run comes through satisfies `I`, so that `I` also holds where the process dies.  Every call
is permitted in the state it is made in.  And at the end `A` holds of the value, or `E` of the error, and of
the state.

The rules follow the program; `Meets.runs` says what a contract means for a run.  A contract may also
speak of what has happened before: `World.recording` is a world together with its history.
-/

namespace CallTree.World

open Prog

variable {C : Type} {R : C → Type} {σ ε ε' α β : Type} (w : World C R σ) (I : σ → Prop) (P : σ → C → Prop)

/-- The contract: `I` at every moment, `P` of every call, `A` of the value and `E` of the error. -/
def Meets (A : α → σ → Prop) (E : ε → σ → Prop) : σ → Prog C R ε α → Prop
  | s, .ret a => I s ∧ A a s
  | s, .fail e => I s ∧ E e s
  | s, .call c k => I s ∧ P s c ∧ ∀ r, w.allows s ⟨c, r⟩ → Meets A E (w.next s ⟨c, r⟩) (k r)

variable {w I P} {A A' : α → σ → Prop} {B : β → σ → Prop} {E E' : ε → σ → Prop} {F : ε' → σ → Prop} {s : σ}
  {p : Prog C R ε α}

theorem meets_ret {a : α} (hs : I s) (h : A a s) : w.Meets I P A E s (.ret a) := ⟨hs, h⟩

theorem meets_fail {e : ε} (hs : I s) (h : E e s) : w.Meets I P A E s (.fail e) := ⟨hs, h⟩

theorem meets_perform {c : C} {f : R c → Prog C R ε α} (hs : I s) (hc : P s c)
    (h : ∀ r, w.allows s ⟨c, r⟩ → w.Meets I P A E (w.next s ⟨c, r⟩) (f r)) :
    w.Meets I P A E s ((perform c).bind f) := ⟨hs, hc, h⟩

/-- The first state is one of the states. -/
theorem Meets.start (h : w.Meets I P A E s p) : I s := by
  cases p with
  | ret a => exact h.1
  | fail e => exact h.1
  | call c k => exact h.1

/-- The rule of consequence. -/
theorem Meets.imp (h : w.Meets I P A E s p) (hA : ∀ a s', I s' → A a s' → A' a s')
    (hE : ∀ e s', I s' → E e s' → E' e s') : w.Meets I P A' E' s p := by
  induction p generalizing s with
  | ret a => exact ⟨h.1, hA _ _ h.1 h.2⟩
  | fail e => exact ⟨h.1, hE _ _ h.1 h.2⟩
  | call c k ih => exact ⟨h.1, h.2.1, fun r hr => ih r (h.2.2 r hr)⟩

/-- The rule of sequence. -/
theorem Meets.bind {f : α → Prog C R ε β} (h : w.Meets I P A E s p)
    (hf : ∀ a s', I s' → A a s' → w.Meets I P B E s' (f a)) : w.Meets I P B E s (p.bind f) := by
  induction p generalizing s with
  | ret a => exact hf _ _ h.1 h.2
  | fail e => exact h
  | call c k ih => exact ⟨h.1, h.2.1, fun r hr => ih r (h.2.2 r hr)⟩

/-- The rule of an error that the caller looks at. -/
theorem Meets.attempt (h : w.Meets I P A E s p) :
    w.Meets I P (fun r s' => (∀ a, r = .ok a → A a s') ∧ ∀ e, r = .error e → E e s') F s p.attempt := by
  induction p generalizing s with
  | ret a =>
    refine ⟨h.1, fun b hb => ?_, fun e he => ?_⟩
    · cases hb
      exact h.2
    · cases he
  | fail e =>
    refine ⟨h.1, fun b hb => ?_, fun e' he => ?_⟩
    · cases hb
    · cases he
      exact h.2
  | call c k ih => exact ⟨h.1, h.2.1, fun r hr => ih r (h.2.2 r hr)⟩

/-- The rule of an error that is rewritten. -/
theorem Meets.mapError {f : ε → ε'} (h : w.Meets I P A E s p) (hE : ∀ e s', I s' → E e s' → F (f e) s') :
    w.Meets I P A F s (p.mapError f) := by
  induction p generalizing s with
  | ret a => exact h
  | fail e => exact ⟨h.1, hE _ _ h.1 h.2⟩
  | call c k ih => exact ⟨h.1, h.2.1, fun r hr => ih r (h.2.2 r hr)⟩

/-- The rule of a loop: `J` holds of the elements that are done, and of their values. -/
theorem meets_forEach {J : List α → List β → σ → Prop} {xs : List α} {f : α → Prog C R ε β} (hs : I s)
    (hJ : J [] [] s) (hstep : ∀ done x rest bs s', xs = done ++ x :: rest → I s' → J done bs s' →
      w.Meets I P (fun b s'' => J (done ++ [x]) (bs ++ [b]) s'') E s' (f x)) :
    w.Meets I P (fun bs s' => J xs bs s') E s (forEach xs f) := by
  have hall : ∀ done bs rest s', xs = done ++ rest → I s' → J done bs s' →
      w.Meets I P (fun bs' s'' => J xs (bs ++ bs') s'') E s' (forEach rest f) := by
    intro done bs rest
    induction rest generalizing done bs with
    | nil =>
      intro s' hxs hI h
      rw [List.append_nil] at hxs
      refine meets_ret hI ?_
      rwa [List.append_nil, hxs]
    | cons x rest ih =>
      intro s' hxs hI h
      refine (hstep done x rest bs s' hxs hI h).bind fun b s'' hI' h' => ?_
      refine (ih (done ++ [x]) (bs ++ [b]) s'' (by rw [hxs, List.append_assoc]; rfl) hI' h').bind
        fun bs' s''' hI'' h'' => meets_ret hI'' ?_
      rwa [List.append_assoc] at h''
  exact hall [] [] xs s rfl hs hJ

/-- **A program whose calls keep an invariant meets a contract** that the invariant is enough for. -/
theorem meets_of_within {J : σ → Prop} {K : C → Prop} {V : α → Prop} (hp : Within K V p) (hs : J s)
    (hI : ∀ s, J s → I s) (hP : ∀ s c, J s → K c → P s c)
    (hstep : ∀ s ev, J s → K ev.1 → w.allows s ev → J (w.next s ev)) :
    w.Meets I P (fun a s' => J s' ∧ V a) (fun _ _ => True) s p := by
  induction p generalizing s with
  | ret a => exact ⟨hI s hs, hs, hp []⟩
  | fail e => exact ⟨hI s hs, trivial⟩
  | call c k ih =>
    obtain ⟨hc, hk⟩ := hp.of_call
    exact ⟨hI s hs, hP s c hs hc, fun r hr => ih r (hk r) (hstep s ⟨c, r⟩ hs hc hr)⟩

/-- What an end says about a state. -/
def EndsWith (A : α → σ → Prop) (E : ε → σ → Prop) (s : σ) : End ε α → Prop
  | .returned a => A a s
  | .failed e => E e s
  | .cut => True

/-- **What a contract means for a run.** -/
theorem Meets.runs {t : List (Event C R)} {e : End ε α} (h : w.Meets I P A E s p) (ht : Runs p t e)
    (hl : w.Legal s t) :
    I (w.after s t) ∧ EndsWith A E (w.after s t) e ∧
      ∀ t₁ c r t₂, t = t₁ ++ ⟨c, r⟩ :: t₂ → P (w.after s t₁) c := by
  have hnil : ∀ t₁ c r t₂, ([] : List (Event C R)) = t₁ ++ ⟨c, r⟩ :: t₂ → P (w.after s t₁) c := by
    intro t₁ c r t₂ heq
    simp at heq
  induction ht generalizing s with
  | ret a => exact ⟨h.1, h.2, hnil⟩
  | fail x => exact ⟨h.1, h.2, hnil⟩
  | cut p => exact ⟨h.start, trivial, hnil⟩
  | @call c k t e r _ ih =>
    obtain ⟨hI, hend, hcalls⟩ := ih (h.2.2 r hl.1) hl.2 (fun t₁ c r t₂ heq => by simp at heq)
    refine ⟨hI, hend, fun t₁ c' r' t₂ heq => ?_⟩
    cases t₁ with
    | nil =>
      cases heq
      exact h.2.1
    | cons ev t₁ =>
      cases heq
      exact hcalls t₁ c' r' t₂ rfl

/-! ## Histories -/

variable (w)

/-- The world together with what has happened in it. -/
def recording : World C R (σ × List (Event C R)) where
  allows s ev := w.allows s.1 ev
  next s ev := (w.next s.1 ev, s.2 ++ [ev])

theorem recording_after (s : σ) (h t : List (Event C R)) : w.recording.after (s, h) t = (w.after s t, h ++ t) := by
  induction t generalizing s h with
  | nil => rw [after_nil, after_nil, List.append_nil]
  | cons ev t ih =>
    have hstep : w.recording.next (s, h) ev = (w.next s ev, h ++ [ev]) := rfl
    rw [after_cons, after_cons, hstep, ih, List.append_assoc, List.singleton_append]

theorem recording_legal {s : σ} {t : List (Event C R)} (h : List (Event C R)) (hl : w.Legal s t) :
    w.recording.Legal (s, h) t := by
  induction t generalizing s h with
  | nil => trivial
  | cons ev t ih => exact ⟨hl.1, ih _ hl.2⟩

theorem mem_recording_next {x : σ × List (Event C R)} {ev ev' : Event C R} :
    ev' ∈ (w.recording.next x ev).2 ↔ ev' ∈ x.2 ∨ ev' = ev := by
  show ev' ∈ x.2 ++ [ev] ↔ _
  rw [List.mem_append, List.mem_singleton]

theorem countP_recording_next (x : σ × List (Event C R)) (ev : Event C R) (q : Event C R → Bool) :
    (w.recording.next x ev).2.countP q = x.2.countP q + (q ev).toNat := by
  show (x.2 ++ [ev]).countP q = _
  rw [List.countP_append, List.countP_singleton]
  cases q ev with
  | false => rfl
  | true => rfl

/-- A world that answers anything, for what holds of a program whatever it is answered. -/
def anyWorld : World C R Unit where
  allows _ _ := True
  next s _ := s

theorem legal_anyWorld (t : List (Event C R)) : (anyWorld : World C R Unit).Legal () t := by
  induction t with
  | nil => trivial
  | cons ev t ih => exact ⟨trivial, ih⟩

end CallTree.World
