import Chbackup.Lib.World

/-!
# What a program ensures in a world

A program ensures a postcondition from a state if every legal run that returns ends in it.  The rules
follow the program: a value, a failure, a call, a sequence, a loop.
-/

namespace CallTree.World

variable {C : Type} {R : C → Type} {σ ε α β : Type} (w : World C R σ)

/-- Every legal run from the state that returns a value ends with the postcondition. -/
def Ensures (s : σ) (p : Prog C R ε α) (Q : α → σ → Prop) : Prop :=
  ∀ t a, Runs p t (.returned a) → w.Legal s t → Q a (w.after s t)

variable {w} {s : σ} {Q Q' : α → σ → Prop}

theorem ensures_ret {a : α} (h : Q a s) : w.Ensures s (.ret a : Prog C R ε α) Q := by
  intro t b ht _
  cases ht
  exact h

theorem ensures_fail (e : ε) : w.Ensures s (.fail e : Prog C R ε α) Q := by
  intro t b ht _
  cases ht

theorem ensures_call {c : C} {k : R c → Prog C R ε α}
    (h : ∀ r, w.allows s ⟨c, r⟩ → w.Ensures (w.next s ⟨c, r⟩) (k r) Q) : w.Ensures s (.call c k) Q := by
  intro t a ht hl
  cases ht with
  | call r ht => exact h r hl.1 _ a ht hl.2

theorem Ensures.bind {p : Prog C R ε α} {f : α → Prog C R ε β} {Q : β → σ → Prop}
    (h : w.Ensures s p fun a s' => w.Ensures s' (f a) Q) : w.Ensures s (p.bind f) Q := by
  intro t b ht hl
  obtain ⟨a, t₁, t₂, rfl, h₁, h₂⟩ := ht.returned_of_bind
  obtain ⟨hl₁, hl₂⟩ := legal_append.mp hl
  rw [after_append]
  exact h t₁ a h₁ hl₁ t₂ b h₂ hl₂

theorem ensures_perform {c : C} {f : R c → Prog C R ε α}
    (h : ∀ r, w.allows s ⟨c, r⟩ → w.Ensures (w.next s ⟨c, r⟩) (f r) Q) :
    w.Ensures s ((Prog.perform c).bind f) Q := ensures_call h

theorem Ensures.imp {p : Prog C R ε α} (h : w.Ensures s p Q) (hQ : ∀ a s', Q a s' → Q' a s') :
    w.Ensures s p Q' := fun t a ht hl => hQ a _ (h t a ht hl)

theorem ensures_ofExcept {x : Except ε α} (h : ∀ a, x = .ok a → Q a s) :
    w.Ensures s (Prog.ofExcept x : Prog C R ε α) Q := by
  cases x with
  | ok a => exact ensures_ret (h a rfl)
  | error e => exact ensures_fail e

/-- A loop ensures what its body keeps. -/
theorem ensures_forEach {I : σ → Prop} {xs : List β} {f : β → Prog C R ε α} (hs : I s)
    (h : ∀ x ∈ xs, ∀ s', I s' → w.Ensures s' (f x) fun _ s'' => I s'') :
    w.Ensures s (Prog.forEach xs f) fun _ s' => I s' := by
  induction xs generalizing s with
  | nil => exact ensures_ret hs
  | cons x xs ih =>
    refine Ensures.bind ((h x List.mem_cons_self s hs).imp fun _ s' hs' => Ensures.bind ?_)
    exact (ih hs' fun y hy => h y (List.mem_cons_of_mem _ hy)).imp fun _ s'' hs'' => ensures_ret hs''

end CallTree.World
