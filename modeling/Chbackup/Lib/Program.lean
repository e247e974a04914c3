import Mathlib

/-!
# Programs that talk to an outside they do not control

A program of type `Prog C R ε α` makes calls `c : C`, receives to each a reply of type `R c`
that it cannot predict, and ends by returning an `α` or by failing with an `ε`.  It is the
well-founded tree of its calls: one branch per possible reply.  A property of *every* pattern
of replies is therefore a property of the whole tree, and no oracle has to be quantified over.

* `Runs p t e`: the program `p` can produce the trace `t`, a list of calls with the replies
  they got, and end in `e`.  The end `cut` stands for a process that dies between two calls,
  so every prefix of a run is a run.
* `Safe P Q h p`: after the history `h`, every call of `p` satisfies `P` (which may look at
  everything that happened before it) and every returned value satisfies `Q`.  `Within P Q p` is
  the case in which nothing depends on the history.
* `Yields L p a`: with replies from `L` only, `p` can return `a`; `Reaches p c`: some pattern of
  replies makes `p` call `c`.
* `par`: tasks interleaved call by call along a schedule.  A property that survives what the
  *other* tasks do holds of the composition as soon as it holds of each task (`Safe.par`), and a
  run of the composition is a shuffle of runs of the tasks (`Runs.of_par`).
* `exec`: running a program against a handler that keeps a state.
-/

namespace CallTree

universe u

/-- A program: it returns, it fails, or it makes a call and goes on with the reply. -/
inductive Prog (C : Type) (R : C → Type) (ε : Type) (α : Type) : Type where
  | ret (a : α) : Prog C R ε α
  | fail (e : ε) : Prog C R ε α
  | call (c : C) (k : R c → Prog C R ε α) : Prog C R ε α

/-- A call together with the reply it received. -/
abbrev Event (C : Type) (R : C → Type) : Type := (c : C) × R c

/-- How a run ends: with a value, with an error, or because the process died. -/
inductive End (ε α : Type) : Type where
  | returned (a : α) : End ε α
  | failed (e : ε) : End ε α
  | cut : End ε α
  deriving DecidableEq

variable {C : Type} {R : C → Type} {ε ε' α β γ : Type}

namespace Prog

/-! ## Sequencing -/

/-- Run a program, then another on its value; a failure skips the second. -/
def bind : Prog C R ε α → (α → Prog C R ε β) → Prog C R ε β
  | ret a, f => f a
  | fail e, _ => fail e
  | call c k, f => call c fun r => (k r).bind f

instance : Monad (Prog C R ε) where
  pure := ret
  bind := bind

/-- The program that makes one call and returns its reply. -/
def perform (c : C) : Prog C R ε (R c) := call c ret

/-- A computed result, failing where the computation did. -/
def ofExcept : Except ε α → Prog C R ε α
  | .ok a => ret a
  | .error e => fail e

/-- Rewrite the error a program fails with. -/
def mapError (f : ε → ε') : Prog C R ε α → Prog C R ε' α
  | ret a => ret a
  | fail e => fail (f e)
  | call c k => call c fun r => (k r).mapError f

/-- Run a program and return how it ended, so that the caller can go on after an error. -/
def attempt : Prog C R ε α → Prog C R ε' (Except ε α)
  | ret a => ret (.ok a)
  | fail e => ret (.error e)
  | call c k => call c fun r => (k r).attempt

/-- One program per element of a list, in order, stopping at the first failure. -/
def forEach (xs : List α) (f : α → Prog C R ε β) : Prog C R ε (List β) :=
  match xs with
  | [] => ret []
  | x :: xs => (f x).bind fun b => (forEach xs f).bind fun bs => ret (b :: bs)

/-- Tasks run to their ends, one after the other.  A task cannot fail; a failure the caller is
to see is part of the value of the task. -/
def sequence : List (Prog C R Empty α) → Prog C R ε (List α)
  | [] => ret []
  | t :: ts => (t.mapError Empty.elim).bind fun a => (sequence ts).bind fun as => ret (a :: as)

/-- Tasks interleaved call by call.  The schedule says which task makes the next call; what is
left when it ends runs in order, and an entry that names no unfinished task is passed over, so
every interleaving has a schedule. -/
def par : List Nat → List (Prog C R Empty α) → Prog C R ε (List α)
  | [], ts => sequence ts
  | i :: schedule, ts =>
    match ts[i]? with
    | some (call c k) => call c fun r => par schedule (ts.set i (k r))
    | _ => par schedule ts

@[simp] theorem pure_eq_ret (a : α) : (pure a : Prog C R ε α) = ret a := rfl

@[simp] theorem bind_eq_bind (p : Prog C R ε α) (f : α → Prog C R ε β) :
    (p >>= f) = p.bind f := rfl

@[simp] theorem ret_bind (a : α) (f : α → Prog C R ε β) : (ret a).bind f = f a := rfl

@[simp] theorem fail_bind (e : ε) (f : α → Prog C R ε β) :
    (fail e : Prog C R ε α).bind f = fail e := rfl

@[simp] theorem call_bind (c : C) (k : R c → Prog C R ε α) (f : α → Prog C R ε β) :
    (call c k).bind f = call c fun r => (k r).bind f := rfl

@[simp] theorem perform_bind (c : C) (f : R c → Prog C R ε β) :
    (perform c).bind f = call c f := rfl

theorem bind_assoc (p : Prog C R ε α) (f : α → Prog C R ε β) {γ : Type} (g : β → Prog C R ε γ) :
    (p.bind f).bind g = p.bind fun a => (f a).bind g := by
  induction p with
  | ret a => rfl
  | fail e => rfl
  | call c k ih =>
    rw [call_bind, call_bind, call_bind]
    exact congrArg _ (funext ih)

end Prog

open Prog

/-! ## Runs -/

/-- `Runs p t e`: the program can make the calls of `t`, receive the replies of `t`, and end
in `e`.  A run may be cut before any call. -/
inductive Runs : Prog C R ε α → List (Event C R) → End ε α → Prop where
  | ret (a : α) : Runs (ret a) [] (.returned a)
  | fail (e : ε) : Runs (fail e) [] (.failed e)
  | cut (p : Prog C R ε α) : Runs p [] .cut
  | call {c : C} {k : R c → Prog C R ε α} {t : List (Event C R)} {e : End ε α} (r : R c) :
      Runs (k r) t e → Runs (call c k) (⟨c, r⟩ :: t) e

/-- A run of a sequence is a run of the first program that did not return, or a run of both. -/
theorem Runs.of_bind {p : Prog C R ε α} {f : α → Prog C R ε β} {t : List (Event C R)}
    {e : End ε β} (h : Runs (p.bind f) t e) :
    (∃ a t₁ t₂, t = t₁ ++ t₂ ∧ Runs p t₁ (.returned a) ∧ Runs (f a) t₂ e) ∨
      (e = .cut ∧ Runs p t .cut) ∨ ∃ x, e = .failed x ∧ Runs p t (.failed x) := by
  induction p generalizing t with
  | ret a => exact Or.inl ⟨a, [], t, rfl, Runs.ret a, h⟩
  | fail x =>
    cases h with
    | fail => exact Or.inr (Or.inr ⟨x, rfl, Runs.fail x⟩)
    | cut => exact Or.inr (Or.inl ⟨rfl, Runs.cut _⟩)
  | call c k ih =>
    cases h with
    | cut => exact Or.inr (Or.inl ⟨rfl, Runs.cut _⟩)
    | call r h =>
      rcases ih r h with ⟨a, t₁, t₂, rfl, h₁, h₂⟩ | ⟨he, h₁⟩ | ⟨x, he, h₁⟩
      · exact Or.inl ⟨a, _ :: t₁, t₂, rfl, Runs.call r h₁, h₂⟩
      · exact Or.inr (Or.inl ⟨he, Runs.call r h₁⟩)
      · exact Or.inr (Or.inr ⟨x, he, Runs.call r h₁⟩)

/-- A run of a sequence up to its value is a run of both programs. -/
theorem Runs.returned_of_bind {p : Prog C R ε α} {f : α → Prog C R ε β} {t : List (Event C R)}
    {b : β} (h : Runs (p.bind f) t (.returned b)) :
    ∃ a t₁ t₂, t = t₁ ++ t₂ ∧ Runs p t₁ (.returned a) ∧ Runs (f a) t₂ (.returned b) := by
  rcases h.of_bind with h | ⟨he, -⟩ | ⟨x, he, -⟩
  · exact h
  · cases he
  · cases he

/-- A run of a program that starts with a call is cut at once or gets a reply. -/
theorem Runs.of_perform {c : C} {f : R c → Prog C R ε α} {t : List (Event C R)} {e : End ε α}
    (h : Runs ((perform c).bind f) t e) :
    e = .cut ∨ ∃ r t', t = ⟨c, r⟩ :: t' ∧ Runs (f r) t' e := by
  cases h with
  | cut => exact Or.inl rfl
  | call r h => exact Or.inr ⟨r, _, rfl, h⟩

/-- Runs compose. -/
theorem Runs.bind {p : Prog C R ε α} {f : α → Prog C R ε β} {t₁ t₂ : List (Event C R)} {a : α}
    {e : End ε β} (h₁ : Runs p t₁ (.returned a)) (h₂ : Runs (f a) t₂ e) :
    Runs (p.bind f) (t₁ ++ t₂) e := by
  induction p generalizing t₁ with
  | ret b =>
    cases h₁ with
    | ret => exact h₂
  | fail x => cases h₁
  | call c k ih =>
    cases h₁ with
    | call r h₁ => exact Runs.call r (ih r h₁)

/-- A run of a caught program is a run of the program. -/
theorem Runs.of_attempt {p : Prog C R ε α} {t : List (Event C R)} {e : End ε' (Except ε α)}
    (h : Runs p.attempt t e) :
    (∃ a, e = .returned (.ok a) ∧ Runs p t (.returned a)) ∨
      (∃ x, e = .returned (.error x) ∧ Runs p t (.failed x)) ∨ e = .cut ∧ Runs p t .cut := by
  induction p generalizing t with
  | ret a =>
    cases h with
    | ret => exact Or.inl ⟨a, rfl, Runs.ret a⟩
    | cut => exact Or.inr (Or.inr ⟨rfl, Runs.cut _⟩)
  | fail x =>
    cases h with
    | ret => exact Or.inr (Or.inl ⟨x, rfl, Runs.fail x⟩)
    | cut => exact Or.inr (Or.inr ⟨rfl, Runs.cut _⟩)
  | call c k ih =>
    cases h with
    | cut => exact Or.inr (Or.inr ⟨rfl, Runs.cut _⟩)
    | call r h =>
      rcases ih r h with ⟨a, he, h⟩ | ⟨x, he, h⟩ | ⟨he, h⟩
      · exact Or.inl ⟨a, he, Runs.call r h⟩
      · exact Or.inr (Or.inl ⟨x, he, Runs.call r h⟩)
      · exact Or.inr (Or.inr ⟨he, Runs.call r h⟩)

/-- A failure of a program with its error rewritten is a rewritten error. -/
theorem Runs.failed_of_mapError {f : ε → ε'} {p : Prog C R ε α} {t : List (Event C R)} {x : ε'}
    (h : Runs (p.mapError f) t (.failed x)) : ∃ y, x = f y := by
  induction p generalizing t with
  | ret => cases h
  | fail y =>
    cases h
    exact ⟨y, rfl⟩
  | call c k ih =>
    cases h with
    | call r h => exact ih r h

/-- A run of a program with its error rewritten, up to a value, is a run of the program. -/
theorem Runs.of_mapError {f : ε → ε'} {p : Prog C R ε α} {t : List (Event C R)} {a : α}
    (h : Runs (p.mapError f) t (.returned a)) : Runs p t (.returned a) := by
  induction p generalizing t with
  | ret =>
    cases h with
    | ret => exact Runs.ret _
  | fail x => cases h
  | call c k ih =>
    cases h with
    | call r h => exact Runs.call r (ih r h)

/-- A run of one task per element, up to its value, is the runs of the tasks one after the
other, each up to its own value. -/
theorem Runs.values_of_forEach {xs : List α} {f : α → Prog C R ε β} {t : List (Event C R)} {bs : List β}
    (h : Runs (forEach xs f) t (.returned bs)) :
    ∃ us : List (List (Event C R) × β), t = (us.map Prod.fst).flatten ∧ bs = us.map Prod.snd ∧
      List.Forall₂ (fun x u => Runs (f x) u.1 (.returned u.2)) xs us := by
  induction xs generalizing t bs with
  | nil =>
    cases h
    exact ⟨[], rfl, rfl, List.Forall₂.nil⟩
  | cons x xs ih =>
    obtain ⟨b, t₁, t₂, rfl, h₁, h₂⟩ := h.returned_of_bind
    obtain ⟨bs, t₃, t₄, rfl, h₃, h₄⟩ := h₂.returned_of_bind
    cases h₄
    obtain ⟨us, rfl, rfl, hus⟩ := ih h₃
    refine ⟨(t₁, b) :: us, ?_, rfl, List.Forall₂.cons h₁ hus⟩
    rw [List.append_nil, List.map_cons, List.flatten_cons]

/-- A run of one task per element, up to its value, is the runs of the tasks one after the
other. -/
theorem Runs.of_forEach {xs : List α} {f : α → Prog C R ε β} {t : List (Event C R)} {bs : List β}
    (h : Runs (forEach xs f) t (.returned bs)) :
    ∃ us : List (List (Event C R)), t = us.flatten ∧
      List.Forall₂ (fun x u => ∃ b, Runs (f x) u (.returned b)) xs us := by
  obtain ⟨us, rfl, -, hus⟩ := h.values_of_forEach
  refine ⟨us.map Prod.fst, rfl, ?_⟩
  rw [List.forall₂_map_right_iff]
  exact hus.imp fun _ u hu => ⟨u.2, hu⟩

/-- One task per element fails only if one of the tasks does. -/
theorem Runs.failed_of_forEach {xs : List α} {f : α → Prog C R ε β} {t : List (Event C R)} {x : ε}
    (h : Runs (forEach xs f) t (.failed x)) : ∃ y ∈ xs, ∃ t', Runs (f y) t' (.failed x) := by
  induction xs generalizing t with
  | nil => cases h
  | cons y xs ih =>
    rcases h.of_bind with ⟨b, t₁, t₂, -, -, h₂⟩ | ⟨he, -⟩ | ⟨z, he, h₁⟩
    · rcases h₂.of_bind with ⟨bs, t₃, t₄, -, -, h₄⟩ | ⟨he, -⟩ | ⟨z, he, h₃⟩
      · cases h₄
      · cases he
      · cases he
        obtain ⟨y', hy', ht'⟩ := ih h₃
        exact ⟨y', List.mem_cons_of_mem _ hy', ht'⟩
    · cases he
    · cases he
      exact ⟨y, List.mem_cons_self, t, h₁⟩

/-! ## What a program can do -/

/-- With replies from `L` only, the program can return the value. -/
def Yields (L : Event C R → Prop) (p : Prog C R ε α) (a : α) : Prop :=
  ∃ t, Runs p t (.returned a) ∧ ∀ ev ∈ t, L ev

/-- Some pattern of replies makes the program issue the call. -/
def Reaches (p : Prog C R ε α) (c : C) : Prop :=
  ∃ t e, Runs p t e ∧ ∃ ev ∈ t, ev.1 = c

section Yields

variable {L : Event C R → Prop}

theorem yields_ret (a : α) : Yields L (.ret a : Prog C R ε α) a :=
  ⟨[], Runs.ret a, fun _ h => absurd h List.not_mem_nil⟩

theorem Yields.call {c : C} {k : R c → Prog C R ε α} {a : α} (r : R c) (hr : L ⟨c, r⟩)
    (h : Yields L (k r) a) : Yields L (.call c k) a := by
  obtain ⟨t, ht, hL⟩ := h
  refine ⟨⟨c, r⟩ :: t, Runs.call r ht, fun ev hev => ?_⟩
  rcases List.mem_cons.mp hev with rfl | hev
  · exact hr
  · exact hL ev hev

theorem Yields.bind {p : Prog C R ε α} {f : α → Prog C R ε β} {a : α} {b : β}
    (hp : Yields L p a) (hf : Yields L (f a) b) : Yields L (p.bind f) b := by
  obtain ⟨t₁, h₁, hL₁⟩ := hp
  obtain ⟨t₂, h₂, hL₂⟩ := hf
  refine ⟨t₁ ++ t₂, h₁.bind h₂, fun ev hev => ?_⟩
  rcases List.mem_append.mp hev with hev | hev
  · exact hL₁ ev hev
  · exact hL₂ ev hev

theorem Yields.attempt {p : Prog C R ε α} {a : α} (h : Yields L p a) :
    Yields L (p.attempt : Prog C R ε' (Except ε α)) (.ok a) := by
  obtain ⟨t, ht, hL⟩ := h
  refine ⟨t, ?_, hL⟩
  clear hL
  induction p generalizing t with
  | ret b =>
    cases ht with
    | ret => exact Runs.ret _
  | fail => cases ht
  | call c k ih =>
    cases ht with
    | call r ht => exact Runs.call r (ih r _ ht)

theorem Yields.mapError {f : ε → ε'} {p : Prog C R ε α} {a : α} (h : Yields L p a) :
    Yields L (p.mapError f) a := by
  obtain ⟨t, ht, hL⟩ := h
  refine ⟨t, ?_, hL⟩
  clear hL
  induction p generalizing t with
  | ret b =>
    cases ht with
    | ret => exact Runs.ret _
  | fail => cases ht
  | call c k ih =>
    cases ht with
    | call r ht => exact Runs.call r (ih r _ ht)

theorem yields_forEach {xs : List α} {f : α → Prog C R ε β} {g : α → β}
    (h : ∀ x ∈ xs, Yields L (f x) (g x)) : Yields L (forEach xs f) (xs.map g) := by
  induction xs with
  | nil => exact yields_ret _
  | cons x xs ih =>
    refine Yields.bind (h x List.mem_cons_self) (Yields.bind (ih fun y hy => ?_) (yields_ret _))
    exact h y (List.mem_cons_of_mem _ hy)

theorem yields_sequence {ts : List (Prog C R Empty α)} {as : List α}
    (h : List.Forall₂ (Yields L) ts as) : Yields L (sequence ts : Prog C R ε (List α)) as := by
  induction h with
  | nil => exact yields_ret _
  | cons h _ ih => exact Yields.bind h.mapError (Yields.bind ih (yields_ret _))

theorem forall₂_set {S : α → β → Prop} {xs : List α} {ys : List β} (h : List.Forall₂ S xs ys)
    {i : Nat} {x : α} (hx : ∀ y, ys[i]? = some y → S x y) :
    List.Forall₂ S (xs.set i x) ys := by
  induction h generalizing i with
  | nil => exact List.Forall₂.nil
  | cons hab h ih =>
    cases i with
    | zero => exact List.Forall₂.cons (hx _ rfl) h
    | succ i => exact List.Forall₂.cons hab (ih fun y hy => hx y hy)

theorem forall₂_set_set {S : α → β → Prop} {xs : List α} {ys : List β}
    (h : List.Forall₂ S xs ys) {i : Nat} {x : α} {y : β} (hxy : S x y) :
    List.Forall₂ S (xs.set i x) (ys.set i y) := by
  induction h generalizing i with
  | nil => exact List.Forall₂.nil
  | cons hab h ih =>
    cases i with
    | zero => exact List.Forall₂.cons hxy h
    | succ i => exact List.Forall₂.cons hab ih

theorem forall₂_getElem? {S : α → β → Prop} {xs : List α} {ys : List β}
    (h : List.Forall₂ S xs ys) {i : Nat} {x : α} {y : β} (hx : xs[i]? = some x)
    (hy : ys[i]? = some y) : S x y := by
  induction h generalizing i with
  | nil => cases hx
  | cons hab h ih =>
    cases i with
    | zero =>
      cases hx
      cases hy
      exact hab
    | succ i => exact ih hx hy

theorem exists_of_forall₂ {α β : Type} {S : α → β → Prop} {xs : List α} {ys : List β}
    (h : List.Forall₂ S xs ys) {y : β} (hy : y ∈ ys) : ∃ x ∈ xs, S x y := by
  induction h with
  | nil => cases hy
  | cons hxy _ ih =>
    rcases List.mem_cons.mp hy with rfl | hy
    · exact ⟨_, List.mem_cons_self, hxy⟩
    · obtain ⟨x, hx, hxy⟩ := ih hy
      exact ⟨x, List.mem_cons_of_mem _ hx, hxy⟩

theorem yields_par {schedule : List Nat} {ts : List (Prog C R Empty α)} {as : List α}
    (h : List.Forall₂ (Yields L) ts as) : Yields L (par schedule ts : Prog C R ε (List α)) as := by
  induction schedule generalizing ts with
  | nil => exact yields_sequence h
  | cons i schedule ih =>
    rw [par]
    split
    · rename_i c k hi
      obtain ⟨a, ha⟩ : ∃ a, as[i]? = some a := by
        have hlt := (List.getElem?_eq_some_iff.mp hi).1
        rw [h.length_eq] at hlt
        exact ⟨_, List.getElem?_eq_getElem hlt⟩
      obtain ⟨t, ht, hL⟩ := forall₂_getElem? h hi ha
      cases ht with
      | @call _ _ t _ r ht =>
        refine Yields.call r (hL _ List.mem_cons_self) (ih (forall₂_set h fun a' ha' => ?_))
        rw [ha] at ha'
        cases ha'
        exact ⟨t, ht, fun ev hev => hL ev (List.mem_cons_of_mem _ hev)⟩
    · exact ih h

theorem Reaches.call_self (c : C) (k : R c → Prog C R ε α) (r : R c) : Reaches (.call c k) c :=
  ⟨[⟨c, r⟩], .cut, Runs.call r (Runs.cut _), ⟨c, r⟩, List.mem_singleton_self _, rfl⟩

theorem Reaches.call {c c' : C} {k : R c → Prog C R ε α} (r : R c) (h : Reaches (k r) c') :
    Reaches (.call c k) c' := by
  obtain ⟨t, e, ht, ev, hev, hc⟩ := h
  exact ⟨⟨c, r⟩ :: t, e, Runs.call r ht, ev, List.mem_cons_of_mem _ hev, hc⟩

theorem reaches_perform {c c' : C} {f : R c → Prog C R ε α} (r : R c) (h : Reaches (f r) c') :
    Reaches ((perform c).bind f) c' := Reaches.call r h

/-- A call of the second program is reached once the first can return. -/
theorem Reaches.bind {p : Prog C R ε α} {f : α → Prog C R ε β} {a : α} {c : C}
    (hp : Yields L p a) (hf : Reaches (f a) c) : Reaches (p.bind f) c := by
  obtain ⟨t₁, h₁, -⟩ := hp
  obtain ⟨t, e, ht, ev, hev, hc⟩ := hf
  exact ⟨t₁ ++ t, e, h₁.bind ht, ev, List.mem_append_right _ hev, hc⟩

/-- A call of the first program is a call of the sequence. -/
theorem Reaches.of_left {p : Prog C R ε α} {f : α → Prog C R ε β} {c : C} (hp : Reaches p c) :
    Reaches (p.bind f) c := by
  obtain ⟨t, e, ht, ev, hev, hc⟩ := hp
  induction ht with
  | ret => cases hev
  | fail => cases hev
  | cut => cases hev
  | @call c' k t e r ht ih =>
    rcases List.mem_cons.mp hev with rfl | hev
    · exact hc ▸ Reaches.call_self _ _ r
    · exact Reaches.call r (ih hev)

theorem Reaches.mapError {f : ε → ε'} {p : Prog C R ε α} {c : C} (hp : Reaches p c) :
    Reaches (p.mapError f) c := by
  obtain ⟨t, e, ht, ev, hev, hc⟩ := hp
  induction ht with
  | ret => cases hev
  | fail => cases hev
  | cut => cases hev
  | @call c' k t e r ht ih =>
    rcases List.mem_cons.mp hev with rfl | hev
    · exact hc ▸ Reaches.call_self _ _ r
    · exact Reaches.call r (ih hev)

theorem Reaches.attempt {p : Prog C R ε α} {c : C} (hp : Reaches p c) :
    Reaches (p.attempt : Prog C R ε' (Except ε α)) c := by
  obtain ⟨t, e, ht, ev, hev, hc⟩ := hp
  induction ht with
  | ret => cases hev
  | fail => cases hev
  | cut => cases hev
  | @call c' k t e r ht ih =>
    rcases List.mem_cons.mp hev with rfl | hev
    · exact hc ▸ Reaches.call_self _ _ r
    · exact Reaches.call r (ih hev)

/-- A call of a task per element is reached if the tasks before it can return. -/
theorem reaches_forEach {xs : List α} {f : α → Prog C R ε β} {x : α} {c : C}
    (h : ∀ y ∈ xs, ∃ b, Yields L (f y) b) (hx : x ∈ xs) (hc : Reaches (f x) c) :
    Reaches (forEach xs f) c := by
  induction xs with
  | nil => cases hx
  | cons y xs ih =>
    rcases List.mem_cons.mp hx with rfl | hx
    · exact hc.of_left
    · obtain ⟨b, hb⟩ := h y List.mem_cons_self
      exact Reaches.bind hb (ih (fun z hz => h z (List.mem_cons_of_mem _ hz)) hx).of_left

theorem Reaches.of_call {c c' : C} {k : R c → Prog C R ε α} (h : Reaches (.call c k) c') :
    c = c' ∨ ∃ r, Reaches (k r) c' := by
  obtain ⟨t, e, ht, ev, hev, hc⟩ := h
  cases ht with
  | cut => cases hev
  | @call _ _ t _ r ht =>
    rcases List.mem_cons.mp hev with rfl | hev
    · exact Or.inl hc
    · exact Or.inr ⟨r, t, e, ht, ev, hev, hc⟩

theorem reaches_sequence {ts : List (Prog C R Empty α)} {j : Nat} {t : Prog C R Empty α} {c : C}
    (h : ∀ i t', i ≠ j → ts[i]? = some t' → ∃ a, Yields L t' a) (hj : ts[j]? = some t)
    (hc : Reaches t c) : Reaches (sequence ts : Prog C R ε (List α)) c := by
  induction ts generalizing j with
  | nil => cases hj
  | cons u ts ih =>
    cases j with
    | zero =>
      cases hj
      exact hc.mapError.of_left
    | succ j =>
      obtain ⟨a, ha⟩ := h 0 u (Nat.succ_ne_zero j).symm rfl
      refine Reaches.bind ha.mapError (ih (fun i t' hi ht' => ?_) hj).of_left
      exact h (i + 1) t' (fun h => hi (Nat.succ.inj h)) ht'

/-- A call of one of several parallel tasks is reached, along any schedule, if the other tasks
can return. -/
theorem reaches_par {schedule : List Nat} {ts : List (Prog C R Empty α)} {j : Nat}
    {t : Prog C R Empty α} {c : C}
    (h : ∀ i t', i ≠ j → ts[i]? = some t' → ∃ a, Yields L t' a) (hj : ts[j]? = some t)
    (hc : Reaches t c) : Reaches (par schedule ts : Prog C R ε (List α)) c := by
  induction schedule generalizing ts t with
  | nil => exact reaches_sequence h hj hc
  | cons i schedule ih =>
    rw [par]
    split
    · rename_i c' k hi
      have hlt := (List.getElem?_eq_some_iff.mp hi).1
      by_cases hij : i = j
      · -- the task itself is next
        subst hij
        rw [hi] at hj
        cases hj
        rcases hc.of_call with rfl | ⟨r, hr⟩
        · obtain ⟨t, e, ht, ev, hev, -⟩ := hc
          cases ht with
          | cut => cases hev
          | call r _ => exact Reaches.call_self _ _ r
        · refine Reaches.call r (ih (fun i' t' hi' ht' => ?_) (List.getElem?_set_self hlt) hr)
          rw [List.getElem?_set_ne (Ne.symm hi')] at ht'
          exact h i' t' hi' ht'
      · obtain ⟨a, t', ht', hL⟩ := h i _ hij hi
        cases ht' with
        | @call _ _ t' _ r ht' =>
          refine Reaches.call r (ih (fun i' u hi' hu => ?_) ?_ hc)
          · by_cases hii : i = i'
            · subst hii
              rw [List.getElem?_set_self hlt] at hu
              cases hu
              exact ⟨a, t', ht', fun ev hev => hL ev (List.mem_cons_of_mem _ hev)⟩
            · rw [List.getElem?_set_ne hii] at hu
              exact h i' u hi' hu
          · rw [List.getElem?_set_ne hij]
            exact hj
    · exact ih h hj hc

end Yields

/-! ## Safety relative to a history -/

/-- After the history `h`, every call the program makes satisfies `P` and every value it
returns satisfies `Q`, whatever the replies. -/
def Safe (P : List (Event C R) → C → Prop) (Q : List (Event C R) → α → Prop) :
    List (Event C R) → Prog C R ε α → Prop
  | h, .ret a => Q h a
  | _, .fail _ => True
  | h, .call c k => P h c ∧ ∀ r, Safe P Q (h ++ [⟨c, r⟩]) (k r)

section Safe

variable {P : List (Event C R) → C → Prop} {Q Q' : List (Event C R) → α → Prop}
  {S : List (Event C R) → β → Prop} {h : List (Event C R)}

@[simp] theorem safe_ret (a : α) : Safe (ε := ε) P Q h (.ret a) ↔ Q h a := Iff.rfl

@[simp] theorem safe_fail (e : ε) : Safe P Q h (.fail e) := trivial

/-- A weaker demand on the value. -/
theorem Safe.imp {p : Prog C R ε α} (hp : Safe P Q h p)
    (hQ : ∀ t a, Q (h ++ t) a → Q' (h ++ t) a) : Safe P Q' h p := by
  induction p generalizing h with
  | ret a => simpa using hQ [] a (by simpa using hp)
  | fail => trivial
  | call c k ih =>
    refine ⟨hp.1, fun r => ih r (hp.2 r) fun t a ha => ?_⟩
    rw [List.append_assoc] at ha ⊢
    exact hQ _ a ha

/-- The rule for sequences. -/
theorem Safe.bind {p : Prog C R ε α} {f : α → Prog C R ε β} (hp : Safe P Q h p)
    (hf : ∀ t a, Q (h ++ t) a → Safe P S (h ++ t) (f a)) : Safe P S h (p.bind f) := by
  induction p generalizing h with
  | ret a => simpa using hf [] a (by simpa using hp)
  | fail => trivial
  | call c k ih =>
    refine ⟨hp.1, fun r => ih r (hp.2 r) fun t a ha => ?_⟩
    rw [List.append_assoc] at ha ⊢
    exact hf _ a ha

/-- The rule for a program whose failure the caller looks at. -/
theorem Safe.attempt {p : Prog C R ε α} (hp : Safe P Q h p) :
    Safe (ε := ε') P (fun h r => ∀ a, r = .ok a → Q h a) h p.attempt := by
  induction p generalizing h with
  | ret a =>
    intro b hb
    rw [← Except.ok.inj hb]
    exact hp
  | fail => exact fun _ h => nomatch h
  | call c k ih => exact ⟨hp.1, fun r => ih r (hp.2 r)⟩

/-- **What safety says about a run.**  Every call of the run satisfied `P` at the moment it was
made, and a returned value satisfies `Q` after the whole run. -/
theorem Safe.runs {p : Prog C R ε α} {t : List (Event C R)} {e : End ε α} (hp : Safe P Q h p)
    (ht : Runs p t e) :
    (∀ t₁ c r t₂, t = t₁ ++ ⟨c, r⟩ :: t₂ → P (h ++ t₁) c) ∧
      ∀ a, e = .returned a → Q (h ++ t) a := by
  induction ht generalizing h with
  | ret a =>
    refine ⟨fun t₁ c r t₂ ht => by simp at ht, fun b hb => ?_⟩
    cases hb
    simpa using hp
  | fail x => exact ⟨fun t₁ c r t₂ ht => by simp at ht, fun b hb => nomatch hb⟩
  | cut p => exact ⟨fun t₁ c r t₂ ht => by simp at ht, fun b hb => nomatch hb⟩
  | @call c k t e r _ ih =>
    obtain ⟨ih₁, ih₂⟩ := ih (hp.2 r)
    constructor
    · intro t₁ c' r' t₂ ht
      cases t₁ with
      | nil =>
        cases ht
        simpa using hp.1
      | cons x t₁ =>
        cases ht
        simpa using ih₁ t₁ c' r' t₂ rfl
    · intro a ha
      simpa using ih₂ a ha

theorem Safe.mapError {f : ε → ε'} {p : Prog C R ε α} (hp : Safe P Q h p) :
    Safe P Q h (p.mapError f) := by
  induction p generalizing h with
  | ret => exact hp
  | fail => trivial
  | call c k ih => exact ⟨hp.1, fun r => ih r (hp.2 r)⟩

/-- A demand that survives further events in the history is still met after them. -/
theorem Safe.mono (hP : ∀ h h' c, h.Sublist h' → P h c → P h' c)
    (hQ : ∀ h h' a, h.Sublist h' → Q h a → Q h' a) {p : Prog C R ε α} {h' : List (Event C R)}
    (hp : Safe P Q h p) (hh : h.Sublist h') : Safe P Q h' p := by
  induction p generalizing h h' with
  | ret a => exact hQ h h' a hh hp
  | fail => trivial
  | call c k ih =>
    exact ⟨hP h h' c hh hp.1, fun r => ih r (hp.2 r) (hh.append (List.Sublist.refl _))⟩

end Safe

theorem safe_perform {c : C} {f : R c → Prog C R ε α} (hc : P h c)
    (hf : ∀ r, Safe P Q (h ++ [⟨c, r⟩]) (f r)) : Safe P Q h ((perform c).bind f) := ⟨hc, hf⟩

/-- The rule for one task per element: what a task achieves survives the tasks after it. -/
theorem safe_forEach {S : γ → List (Event C R) → β → Prop}
    (hS : ∀ x h h' b, h.Sublist h' → S x h b → S x h' b) {xs : List γ}
    {f : γ → Prog C R ε β} (hf : ∀ x ∈ xs, ∀ t, Safe P (S x) (h ++ t) (f x)) :
    Safe P (fun h ys => List.Forall₂ (fun x b => S x h b) xs ys) h (forEach xs f) := by
  induction xs generalizing h with
  | nil => exact List.Forall₂.nil
  | cons x xs ih =>
    have hx := hf x List.mem_cons_self []
    rw [List.append_nil] at hx
    refine Safe.bind hx fun t b hb => ?_
    refine Safe.bind (ih fun y hy t' => ?_) fun t' bs hbs => List.Forall₂.cons ?_ hbs
    · rw [List.append_assoc]
      exact hf y (List.mem_cons_of_mem _ hy) _
    · exact hS x _ _ b (List.sublist_append_left _ _) hb

/-! ## Tasks in parallel -/

section Par

variable {P : List (Event C R) → C → Prop} {Q : γ → List (Event C R) → α → Prop}
  {h : List (Event C R)}

theorem safe_sequence (hP : ∀ h h' c, h.Sublist h' → P h c → P h' c)
    (hQ : ∀ x h h' a, h.Sublist h' → Q x h a → Q x h' a) {xs : List γ}
    {ts : List (Prog C R Empty α)} (hts : List.Forall₂ (fun x t => Safe P (Q x) h t) xs ts) :
    Safe P (fun h as => List.Forall₂ (fun x a => Q x h a) xs as) h
      (sequence ts : Prog C R ε (List α)) := by
  induction ts generalizing h xs with
  | nil =>
    cases hts
    exact List.Forall₂.nil
  | cons t ts ih =>
    cases hts with
    | @cons x _ xs _ ht hts =>
      refine Safe.bind ht.mapError fun u a ha => ?_
      refine Safe.bind (ih ?_) fun v as has => List.Forall₂.cons ?_ has
      · exact hts.imp fun _ _ hx => hx.mono hP (hQ _) (List.sublist_append_left _ _)
      · exact hQ x _ _ a (List.sublist_append_left _ _) ha

/-- **The rule for tasks in parallel.**  What survives the calls of the other tasks may be
proved of each task alone. -/
theorem Safe.par (hP : ∀ h h' c, h.Sublist h' → P h c → P h' c)
    (hQ : ∀ x h h' a, h.Sublist h' → Q x h a → Q x h' a) {schedule : List Nat} {xs : List γ}
    {ts : List (Prog C R Empty α)} (hts : List.Forall₂ (fun x t => Safe P (Q x) h t) xs ts) :
    Safe P (fun h as => List.Forall₂ (fun x a => Q x h a) xs as) h
      (par schedule ts : Prog C R ε (List α)) := by
  induction schedule generalizing h ts with
  | nil => exact safe_sequence hP hQ hts
  | cons i schedule ih =>
    rw [Prog.par]
    split
    · rename_i c k hi
      obtain ⟨x, hx⟩ : ∃ x, xs[i]? = some x := by
        have hlt := (List.getElem?_eq_some_iff.mp hi).1
        rw [← hts.length_eq] at hlt
        exact ⟨_, List.getElem?_eq_getElem hlt⟩
      have hk := forall₂_getElem? hts hx hi
      refine ⟨hk.1, fun r => ih ?_⟩
      have hrest := hts.imp fun _ _ hs =>
        hs.mono hP (hQ _) (List.sublist_append_left h [⟨c, r⟩])
      refine (forall₂_set hrest.flip fun y hy => ?_).flip
      rw [hx] at hy
      cases hy
      exact hk.2 r
    · exact ih hts

theorem Runs.of_sequence {ts : List (Prog C R Empty α)} {as : List α} {t : List (Event C R)}
    (h : Runs (sequence ts : Prog C R ε (List α)) t (.returned as)) :
    as.length = ts.length ∧ ∃ us : List (List (Event C R)), t.Perm us.flatten ∧
      List.Forall₂ (fun p u => Runs p.1 u (.returned p.2)) (ts.zip as) us := by
  induction ts generalizing t as with
  | nil =>
    cases h
    exact ⟨rfl, [], List.Perm.refl _, List.Forall₂.nil⟩
  | cons p ts ih =>
    obtain ⟨a, t₁, t₂, rfl, h₁, h₂⟩ := h.returned_of_bind
    obtain ⟨as, t₃, t₄, rfl, h₃, h₄⟩ := h₂.returned_of_bind
    cases h₄
    obtain ⟨hlen, us, hperm, hus⟩ := ih h₃
    refine ⟨congrArg (· + 1) hlen, t₁ :: us, ?_, List.Forall₂.cons h₁.of_mapError hus⟩
    rw [List.append_nil, List.flatten_cons]
    exact hperm.append_left t₁

/-- Putting an event in front of one of several traces puts it in front of them all, up to
order. -/
theorem perm_flatten_set {us : List (List (Event C R))} {i : Nat} {u : List (Event C R)}
    (hu : us[i]? = some u) (ev : Event C R) :
    (ev :: us.flatten).Perm (us.set i (ev :: u)).flatten := by
  induction us generalizing i with
  | nil => cases hu
  | cons v us ih =>
    cases i with
    | zero =>
      cases hu
      exact List.Perm.refl _
    | succ i =>
      rw [List.set_cons_succ, List.flatten_cons, List.flatten_cons]
      exact List.perm_middle.symm.trans ((ih hu).append_left v)

/-- **A run of parallel tasks is a shuffle of their runs.** -/
theorem Runs.of_par {schedule : List Nat} {ts : List (Prog C R Empty α)} {as : List α}
    {t : List (Event C R)} (h : Runs (par schedule ts : Prog C R ε (List α)) t (.returned as)) :
    as.length = ts.length ∧ ∃ us : List (List (Event C R)), t.Perm us.flatten ∧
      List.Forall₂ (fun p u => Runs p.1 u (.returned p.2)) (ts.zip as) us := by
  induction schedule generalizing ts t with
  | nil => exact h.of_sequence
  | cons i schedule ih =>
    rw [Prog.par] at h
    split at h
    · rename_i c k hi
      cases h with
      | @call _ _ t _ r h =>
        obtain ⟨hlen, us, hperm, hus⟩ := ih h
        rw [List.length_set] at hlen
        have hlt := (List.getElem?_eq_some_iff.mp hi).1
        obtain ⟨a, ha⟩ : ∃ a, as[i]? = some a := ⟨_, List.getElem?_eq_getElem (hlen ▸ hlt)⟩
        have hzip : ((ts.set i (k r)).zip as)[i]? = some (k r, a) := by
          rw [List.getElem?_zip_eq_some]
          exact ⟨by rw [List.getElem?_set_self hlt], ha⟩
        obtain ⟨u, hu⟩ : ∃ u, us[i]? = some u := by
          have hlt' := (List.getElem?_eq_some_iff.mp hzip).1
          rw [hus.length_eq] at hlt'
          exact ⟨_, List.getElem?_eq_getElem hlt'⟩
        refine ⟨hlen, us.set i (⟨c, r⟩ :: u), (hperm.cons _).trans (perm_flatten_set hu _), ?_⟩
        have hset : ts.zip as = ((ts.set i (k r)).zip as).set i (.call c k, a) := by
          refine List.ext_getElem? fun j => ?_
          by_cases hj : i = j
          · subst hj
            rw [List.getElem?_set_self (by
              rw [List.length_zip, List.length_set]
              omega), List.getElem?_zip_eq_some]
            exact ⟨hi, ha⟩
          · rw [List.getElem?_set_ne hj]
            simp only [List.zip_eq_zipWith, List.getElem?_zipWith, List.getElem?_set_ne hj]
        rw [hset]
        exact forall₂_set_set hus (Runs.call r (forall₂_getElem? hus hzip hu))
    · exact ih h

theorem forall₂_zip_values {S : α → β → List γ → Prop} {xs : List α} {as : List β}
    {us : List (List γ)} (hlen : as.length = xs.length)
    (h : List.Forall₂ (fun p u => S p.1 p.2 u) (xs.zip as) us) :
    ∃ vs : List (List γ × β), us = vs.map Prod.fst ∧ as = vs.map Prod.snd ∧
      List.Forall₂ (fun x v => S x v.2 v.1) xs vs := by
  induction xs generalizing as us with
  | nil =>
    obtain rfl := List.length_eq_zero_iff.mp hlen
    cases h
    exact ⟨[], rfl, rfl, List.Forall₂.nil⟩
  | cons x xs ih =>
    cases as with
    | nil => cases hlen
    | cons a as =>
      cases h with
      | @cons _ u _ us hu hus =>
        obtain ⟨vs, rfl, rfl, hvs⟩ := ih (Nat.succ.inj hlen) hus
        exact ⟨(u, a) :: vs, rfl, rfl, List.Forall₂.cons hu hvs⟩

/-- A run of parallel tasks is a shuffle of their runs, each up to its own value. -/
theorem Runs.values_of_par {schedule : List Nat} {ts : List (Prog C R Empty α)} {as : List α}
    {t : List (Event C R)} (h : Runs (par schedule ts : Prog C R ε (List α)) t (.returned as)) :
    ∃ us : List (List (Event C R) × α), t.Perm (us.map Prod.fst).flatten ∧ as = us.map Prod.snd ∧
      List.Forall₂ (fun p u => Runs p u.1 (.returned u.2)) ts us := by
  obtain ⟨hlen, us, hperm, hus⟩ := h.of_par
  obtain ⟨vs, rfl, has, hvs⟩ :=
    forall₂_zip_values (S := fun p a u => Runs p u (.returned a)) hlen hus
  exact ⟨vs, hperm, has, hvs⟩

/-- Runs of caught tasks that all succeeded are runs of the tasks. -/
theorem Runs.values_of_attempt {xs : List γ} {f : γ → Prog C R ε α} {as : List α}
    {us : List (List (Event C R) × Except ε α)} (has : as.map .ok = us.map Prod.snd)
    (h : List.Forall₂ (fun x u => Runs ((f x).attempt : Prog C R ε' (Except ε α)) u.1
      (.returned u.2)) xs us) :
    ∃ vs : List (List (Event C R) × α), us.map Prod.fst = vs.map Prod.fst ∧ as = vs.map Prod.snd ∧
      List.Forall₂ (fun x v => Runs (f x) v.1 (.returned v.2)) xs vs := by
  induction h generalizing as with
  | nil =>
    obtain rfl := List.map_eq_nil_iff.mp has
    exact ⟨[], rfl, rfl, List.Forall₂.nil⟩
  | @cons x u xs us hu _ ih =>
    cases as with
    | nil => cases has
    | cons a as =>
      obtain ⟨ha, has⟩ := List.cons.inj has
      obtain ⟨vs, hfst, rfl, hvs⟩ := ih has
      refine ⟨(u.1, a) :: vs, congrArg (u.1 :: ·) hfst, rfl, List.Forall₂.cons ?_ hvs⟩
      rw [← ha] at hu
      rcases hu.of_attempt with ⟨a', ha', hrun⟩ | ⟨x', hx', -⟩ | ⟨hx', -⟩
      · cases ha'
        exact hrun
      · cases hx'
      · cases hx'

/-- The shuffle, task by task. -/
theorem Runs.tasks_of_par {schedule : List Nat} {ts : List (Prog C R Empty α)} {as : List α}
    {t : List (Event C R)} (h : Runs (par schedule ts : Prog C R ε (List α)) t (.returned as)) :
    ∃ us : List (List (Event C R)), t.Perm us.flatten ∧
      List.Forall₂ (fun p u => ∃ a ∈ as, Runs p u (.returned a)) ts us := by
  obtain ⟨us, hperm, rfl, hus⟩ := h.values_of_par
  refine ⟨us.map Prod.fst, hperm, List.forall₂_map_right_iff.mpr ?_⟩
  have hmem := (List.forall₂_and_left (p := fun u => u ∈ us) us ts).mpr ⟨fun u hu => hu, hus.flip⟩
  exact hmem.flip.imp fun p u hu => ⟨u.2, List.mem_map.mpr ⟨u, hu.1, rfl⟩, hu.2⟩

end Par

/-! ## Safety without a history -/

/-- Every call the program can make satisfies `P` and every value it can return satisfies `Q`. -/
def Within (P : C → Prop) (Q : α → Prop) (p : Prog C R ε α) : Prop :=
  ∀ h, Safe (fun _ c => P c) (fun _ a => Q a) h p

section Within

variable {P P' : C → Prop} {Q Q' : α → Prop} {S : β → Prop}

theorem within_ret {a : α} (h : Q a) : Within P Q (.ret a : Prog C R ε α) := fun _ => h

theorem within_fail (e : ε) : Within P Q (.fail e : Prog C R ε α) := fun _ => trivial

theorem within_call {c : C} {k : R c → Prog C R ε α} (hc : P c) (hk : ∀ r, Within P Q (k r)) :
    Within P Q (.call c k) := fun _ => ⟨hc, fun r => hk r _⟩

theorem Within.of_call {c : C} {k : R c → Prog C R ε α} (h : Within P Q (.call c k)) :
    P c ∧ ∀ r, Within P Q (k r) := by
  have hforget : ∀ (p : Prog C R ε α) (t t' : List (Event C R)),
      Safe (fun _ => P) (fun _ => Q) t p → Safe (fun _ => P) (fun _ => Q) t' p := by
    intro p
    induction p with
    | ret a => exact fun _ _ hp => hp
    | fail e => exact fun _ _ _ => trivial
    | call c k ih => exact fun _ _ hp => ⟨hp.1, fun r => ih r _ _ (hp.2 r)⟩
  exact ⟨(h []).1, fun r t => hforget _ _ _ ((h []).2 r)⟩

theorem within_perform {c : C} {f : R c → Prog C R ε α} (hc : P c) (hf : ∀ r, Within P Q (f r)) :
    Within P Q ((perform c).bind f) := within_call hc hf

/-- A weaker demand on the calls. -/
theorem Within.weaken {p : Prog C R ε α} (hp : Within P Q p) (h : ∀ c, P c → P' c) :
    Within P' Q p := by
  intro hist
  have hs := hp hist
  clear hp
  induction p generalizing hist with
  | ret => exact hs
  | fail => trivial
  | call c k ih => exact ⟨h c hs.1, fun r => ih r _ (hs.2 r)⟩

theorem within_any (p : Prog C R ε α) : Within (fun _ => True) (fun _ => True) p := by
  intro h
  induction p generalizing h with
  | ret => trivial
  | fail => trivial
  | call c k ih => exact ⟨trivial, fun r => ih r _⟩

theorem Within.imp {p : Prog C R ε α} (hp : Within P Q p) (hQ : ∀ a, Q a → Q' a) :
    Within P Q' p := fun h => (hp h).imp fun _ a => hQ a

theorem Within.bind {p : Prog C R ε α} {f : α → Prog C R ε β} (hp : Within P Q p)
    (hf : ∀ a, Q a → Within P S (f a)) : Within P S (p.bind f) :=
  fun h => (hp h).bind fun _ a ha => hf a ha _

theorem Within.attempt {p : Prog C R ε α} (hp : Within P Q p) :
    Within P (fun r => ∀ a, r = .ok a → Q a) (p.attempt : Prog C R ε' (Except ε α)) :=
  fun h => (hp h).attempt

theorem Within.mapError {f : ε → ε'} {p : Prog C R ε α} (hp : Within P Q p) :
    Within P Q (p.mapError f) := fun h => (hp h).mapError

theorem within_forEach {Q : α → β → Prop} {xs : List α} {f : α → Prog C R ε β}
    (h : ∀ x ∈ xs, Within P (Q x) (f x)) :
    Within P (fun ys => List.Forall₂ Q xs ys) (forEach xs f) := by
  induction xs with
  | nil => exact within_ret List.Forall₂.nil
  | cons x xs ih =>
    refine (h x List.mem_cons_self).bind fun b hb => ?_
    exact (ih fun y hy => h y (List.mem_cons_of_mem _ hy)).bind fun bs hbs =>
      within_ret (List.Forall₂.cons hb hbs)

theorem within_par {Q : γ → α → Prop} {schedule : List Nat} {xs : List γ}
    {ts : List (Prog C R Empty α)} (h : List.Forall₂ (fun x t => Within P (Q x) t) xs ts) :
    Within P (fun as => List.Forall₂ Q xs as) (par schedule ts : Prog C R ε (List α)) := by
  refine fun hist => Safe.par (fun _ _ _ _ hc => hc) (fun _ _ _ _ _ ha => ha) ?_
  exact h.imp fun _ _ ht => ht hist

/-- Every call of a run was within the set, and so is its value. -/
theorem Within.runs {p : Prog C R ε α} {t : List (Event C R)} {e : End ε α} (hp : Within P Q p)
    (ht : Runs p t e) : (∀ ev ∈ t, P ev.1) ∧ ∀ a, e = .returned a → Q a := by
  obtain ⟨hcalls, hval⟩ := (hp []).runs ht
  refine ⟨fun ev hev => ?_, hval⟩
  obtain ⟨t₁, t₂, rfl⟩ := List.append_of_mem hev
  exact hcalls t₁ ev.1 ev.2 t₂ rfl

/-- What holds without a history holds with one. -/
theorem Within.safe {P' : List (Event C R) → C → Prop} {h : List (Event C R)} {p : Prog C R ε α}
    (hp : Within P Q p) (hP : ∀ c, P c → ∀ h, P' h c) : Safe P' (fun _ a => Q a) h p := by
  have hs := hp h
  clear hp
  induction p generalizing h with
  | ret => exact hs
  | fail => trivial
  | call c k ih => exact ⟨hP c hs.1 h, fun r => ih r (hs.2 r)⟩

end Within

/-! ## Running on fixed answers -/

/-- The trace of a program to which every call is answered by a function of the call. -/
def traceOn (answer : (c : C) → R c) : Prog C R ε α → List (Event C R)
  | .ret _ => []
  | .fail _ => []
  | .call c k => ⟨c, answer c⟩ :: traceOn answer (k (answer c))

/-- How the program ends then. -/
def endOn (answer : (c : C) → R c) : Prog C R ε α → End ε α
  | .ret a => .returned a
  | .fail e => .failed e
  | .call c k => endOn answer (k (answer c))

theorem runs_on (answer : (c : C) → R c) (p : Prog C R ε α) :
    Runs p (traceOn answer p) (endOn answer p) := by
  induction p with
  | ret a => exact Runs.ret a
  | fail e => exact Runs.fail e
  | call c k ih => exact Runs.call _ (ih _)

theorem snd_of_mem_traceOn (answer : (c : C) → R c) (p : Prog C R ε α) {ev : Event C R}
    (h : ev ∈ traceOn answer p) : ev.2 = answer ev.1 := by
  induction p with
  | ret a => cases h
  | fail e => cases h
  | call c k ih =>
    rcases List.mem_cons.mp h with rfl | h
    · rfl
    · exact ih _ h

/-! ## Running against a handler -/

/-- Run a program against a handler that answers each call and updates its own state. -/
def exec {σ : Type} (serve : (c : C) → σ → R c × σ) :
    Prog C R ε α → σ → Except ε α × σ
  | .ret a, s => (.ok a, s)
  | .fail e, s => (.error e, s)
  | .call c k, s => exec serve (k (serve c s).1) (serve c s).2

section Exec

variable {σ : Type} (serve : (c : C) → σ → R c × σ)

@[simp] theorem exec_ret (a : α) (s : σ) :
    exec serve (.ret a : Prog C R ε α) s = (.ok a, s) := rfl

@[simp] theorem exec_fail (e : ε) (s : σ) :
    exec serve (.fail e : Prog C R ε α) s = (.error e, s) := rfl

@[simp] theorem exec_call (c : C) (k : R c → Prog C R ε α) (s : σ) :
    exec serve (.call c k) s = exec serve (k (serve c s).1) (serve c s).2 := rfl

/-- The second program of a sequence starts in the state the first one left. -/
theorem exec_bind (p : Prog C R ε α) (f : α → Prog C R ε β) (s : σ) :
    exec serve (p.bind f) s =
      match exec serve p s with
      | (.ok a, s') => exec serve (f a) s'
      | (.error e, s') => (.error e, s') := by
  induction p generalizing s with
  | ret a => rfl
  | fail e => rfl
  | call c k ih => exact ih _ _

/-- Rewriting the error changes nothing else. -/
theorem exec_mapError (f : ε → ε') (p : Prog C R ε α) (s : σ) :
    exec serve (p.mapError f) s = ((exec serve p s).1.mapError f, (exec serve p s).2) := by
  induction p generalizing s with
  | ret a => rfl
  | fail e => rfl
  | call c k ih => exact ih _ _

/-- The state after a program whose failure the caller looks at. -/
@[simp] theorem exec_attempt (p : Prog C R ε α) (s : σ) :
    exec serve (p.attempt : Prog C R ε' (Except ε α)) s =
      (.ok (exec serve p s).1, (exec serve p s).2) := by
  induction p generalizing s with
  | ret a => rfl
  | fail e => rfl
  | call c k ih => exact ih _ _

/-- Looking at the value changes nothing. -/
theorem exec_bind_ret (p : Prog C R ε α) (f : α → β) (s : σ) :
    (exec serve (p.bind fun a => .ret (f a)) s).2 = (exec serve p s).2 := by
  induction p generalizing s with
  | ret a => rfl
  | fail e => rfl
  | call c k ih => exact ih _ _

/-- The events of a program that runs against a handler. -/
def execTrace {σ : Type} (serve : (c : C) → σ → R c × σ) :
    Prog C R ε α → σ → List (Event C R)
  | .ret _, _ => []
  | .fail _, _ => []
  | .call c k, s => ⟨c, (serve c s).1⟩ :: execTrace serve (k (serve c s).1) (serve c s).2

/-- How a run ends that is not cut. -/
def End.ofExcept : Except ε α → End ε α
  | .ok a => .returned a
  | .error e => .failed e

theorem runs_execTrace (serve : (c : C) → σ → R c × σ) (p : Prog C R ε α) (s : σ) :
    Runs p (execTrace serve p s) (End.ofExcept (exec serve p s).1) := by
  induction p generalizing s with
  | ret a => exact Runs.ret a
  | fail e => exact Runs.fail e
  | call c k ih => exact Runs.call _ (ih _ _)

end Exec

end CallTree
