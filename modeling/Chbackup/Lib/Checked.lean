import Mathlib

/-!
# Computations that may abort

A computation returns a value, fails with an error that its caller sees, or aborts the process: an
index out of range, an addition that overflows, an allocation that cannot be satisfied.  A checked
version of a computation that never aborts is the computation (`ofExcept`).
-/

universe u v w

/-- The result of a computation that may abort. -/
inductive Checked (ε : Type u) (α : Type v) where
  | ok (a : α)
  | fail (e : ε)
  | abort
  deriving DecidableEq

namespace Checked

variable {ε : Type u} {α β γ : Type v}

/-- The second computation runs on the value of the first. -/
def bind : Checked ε α → (α → Checked ε β) → Checked ε β
  | ok a, f => f a
  | fail e, _ => fail e
  | abort, _ => abort

/-- A computation that does not abort. -/
def ofExcept : Except ε α → Checked ε α
  | .ok a => ok a
  | .error e => fail e

/-- An element of a list; an index out of range aborts. -/
def index (xs : List α) (i : Nat) : Checked ε α :=
  match xs[i]? with
  | some x => ok x
  | none => abort

/-- A value that is absent aborts. -/
def demand : Option α → Checked ε α
  | some a => ok a
  | none => abort

/-- A subtraction of unsigned numbers; a negative difference aborts. -/
def sub (a b : Nat) : Checked ε Nat := if b ≤ a then ok (a - b) else abort

/-- An addition of machine numbers; an overflow aborts. -/
def add (bits : Nat) (a b : Nat) : Checked ε Nat := if a + b < 2 ^ bits then ok (a + b) else abort

/-- A condition without which the computation aborts. -/
def require (p : Prop) [Decidable p] : Checked ε Unit := if p then ok () else abort

@[simp] theorem ok_bind (a : α) (f : α → Checked ε β) : (ok a : Checked ε α).bind f = f a := rfl

@[simp] theorem fail_bind (e : ε) (f : α → Checked ε β) :
    (fail e : Checked ε α).bind f = fail e := rfl

@[simp] theorem abort_bind (f : α → Checked ε β) : (abort : Checked ε α).bind f = abort := rfl

theorem bind_assoc (x : Checked ε α) (f : α → Checked ε β) (g : β → Checked ε γ) :
    (x.bind f).bind g = x.bind fun a => (f a).bind g := by
  cases x with
  | ok a => rfl
  | fail e => rfl
  | abort => rfl

@[simp] theorem ofExcept_ok (a : α) : ofExcept (.ok a : Except ε α) = ok a := rfl

@[simp] theorem ofExcept_error (e : ε) : ofExcept (.error e : Except ε α) = fail e := rfl

theorem ofExcept_bind (x : Except ε α) (f : α → Except ε β) :
    ofExcept (x >>= f) = (ofExcept x).bind fun a => ofExcept (f a) := by
  cases x with
  | ok a => rfl
  | error e => rfl

theorem ofExcept_ne_abort (x : Except ε α) : ofExcept x ≠ abort := by
  cases x with
  | ok a => exact fun h => by cases h
  | error e => exact fun h => by cases h

theorem index_of_getElem? {xs : List α} {i : Nat} {x : α} (h : xs[i]? = some x) :
    (index xs i : Checked ε α) = ok x := by
  show (match xs[i]? with | some x => ok x | none => abort : Checked ε α) = ok x
  rw [h]

theorem index_of_lt {xs : List α} {i : Nat} (h : i < xs.length) :
    (index xs i : Checked ε α) = ok xs[i] :=
  index_of_getElem? (List.getElem?_eq_getElem h)

@[simp] theorem demand_some (a : α) : (demand (some a) : Checked ε α) = ok a := rfl

@[simp] theorem demand_none : (demand none : Checked ε α) = abort := rfl

theorem sub_of_le {a b : Nat} (h : b ≤ a) : (sub a b : Checked ε Nat) = ok (a - b) := if_pos h

theorem add_of_lt {bits a b : Nat} (h : a + b < 2 ^ bits) :
    (add bits a b : Checked ε Nat) = ok (a + b) := if_pos h

theorem require_of {p : Prop} [Decidable p] (h : p) : (require p : Checked ε Unit) = ok () := if_pos h

theorem require_of_not {p : Prop} [Decidable p] (h : ¬p) :
    (require p : Checked ε Unit) = abort := if_neg h

/-! ## Loops -/

/-- A loop goes on or has ended. -/
inductive Step (σ : Type v) where
  | next (s : σ)
  | done (s : σ)

/-- The steps a loop was given are used up. -/
inductive Unfinished where
  | unfinished
  deriving DecidableEq

/-- A loop that may take a number of steps. -/
def loop {σ : Type v} (step : σ → Checked Unfinished (Step σ)) : Nat → σ → Checked Unfinished σ
  | 0, _ => fail .unfinished
  | n + 1, s => (step s).bind fun
    | .next s' => loop step n s'
    | .done s' => ok s'

variable {σ : Type v} {step : σ → Checked Unfinished (Step σ)} {s s' : σ}

theorem loop_next (h : step s = ok (.next s')) (n : Nat) : loop step (n + 1) s = loop step n s' := by
  rw [loop, h]
  rfl

theorem loop_done (h : step s = ok (.done s')) (n : Nat) : loop step (n + 1) s = ok s' := by
  rw [loop, h]
  rfl

theorem loop_abort (h : step s = abort) (n : Nat) : loop step (n + 1) s = abort := by
  rw [loop, h]
  rfl

end Checked
