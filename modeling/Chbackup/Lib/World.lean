import Chbackup.Lib.Program

/-!
# Worlds that answer

A program says what it calls; a world says which replies it may get.  A world has states, a
relation that allows an event in a state, and the state that an event leads to.  A trace is legal
from a state when each of its events is allowed in the state that the events before it led to.

Rules for the proofs about runs in a world: an invariant of the legal events holds after a legal
trace (`Legal.invariant`), also if that depends on the history (`Legal.invariant_along`); and a
world in which every call has some allowed reply lets every program run to its end
(`exists_legal_run`).  `Returns` and `Can` say what a program may bring about in a world, with a
value or by dying on the way.
-/

namespace CallTree

/-- A world: which events it allows, and what they lead to. -/
structure World (C : Type) (R : C → Type) (σ : Type) where
  allows : σ → Event C R → Prop
  next : σ → Event C R → σ

namespace World

variable {C : Type} {R : C → Type} {σ ε α β : Type} (w : World C R σ)

/-- The state after a trace. -/
def after (s : σ) (t : List (Event C R)) : σ := t.foldl w.next s

/-- Each event of the trace is allowed in the state it occurs in. -/
def Legal : σ → List (Event C R) → Prop
  | _, [] => True
  | s, ev :: t => w.allows s ev ∧ Legal (w.next s ev) t

instance decidableLegal [∀ s ev, Decidable (w.allows s ev)] (s : σ) :
    (t : List (Event C R)) → Decidable (w.Legal s t)
  | [] => .isTrue trivial
  | ev :: t =>
    have := decidableLegal (w.next s ev) t
    inferInstanceAs (Decidable (w.allows s ev ∧ w.Legal (w.next s ev) t))

@[simp] theorem after_nil (s : σ) : w.after s [] = s := rfl

@[simp] theorem after_cons (s : σ) (ev : Event C R) (t : List (Event C R)) :
    w.after s (ev :: t) = w.after (w.next s ev) t := rfl

theorem after_append (s : σ) (t₁ t₂ : List (Event C R)) :
    w.after s (t₁ ++ t₂) = w.after (w.after s t₁) t₂ := List.foldl_append

variable {w}

theorem legal_append {s : σ} {t₁ t₂ : List (Event C R)} :
    w.Legal s (t₁ ++ t₂) ↔ w.Legal s t₁ ∧ w.Legal (w.after s t₁) t₂ := by
  induction t₁ generalizing s with
  | nil => exact ⟨fun h => ⟨trivial, h⟩, And.right⟩
  | cons ev t₁ ih =>
    rw [List.cons_append]
    exact (and_congr_right fun _ => ih).trans and_assoc.symm

/-- **The invariant rule.**  What the allowed events among `P` preserve holds after a legal trace
of such events, and before each of them. -/
theorem Legal.invariant {I : σ → Prop} {P : Event C R → Prop}
    (hstep : ∀ s ev, I s → P ev → w.allows s ev → I (w.next s ev)) {s : σ}
    {t : List (Event C R)} (hs : I s) (hP : ∀ ev ∈ t, P ev) (h : w.Legal s t) :
    I (w.after s t) ∧ ∀ ev ∈ t, ∃ s', I s' ∧ w.allows s' ev := by
  induction t generalizing s with
  | nil => exact ⟨hs, fun _ hev => nomatch hev⟩
  | cons ev t ih =>
    have hnext := hstep s ev hs (hP ev List.mem_cons_self) h.1
    obtain ⟨hend, hall⟩ := ih hnext (fun ev' hev' => hP ev' (List.mem_cons_of_mem _ hev')) h.2
    refine ⟨hend, fun ev' hev' => ?_⟩
    rcases List.mem_cons.mp hev' with rfl | hev'
    · exact ⟨s, hs, h.1⟩
    · exact hall ev' hev'

/-- A trace is legal if its events are allowed wherever an invariant holds that they preserve. -/
theorem legal_of_invariant {I : σ → Prop} {t : List (Event C R)}
    (h : ∀ s, I s → ∀ ev ∈ t, w.allows s ev ∧ I (w.next s ev)) {s : σ} (hs : I s) :
    w.Legal s t := by
  induction t generalizing s with
  | nil => trivial
  | cons ev t ih =>
    obtain ⟨hallows, hnext⟩ := h s hs ev List.mem_cons_self
    exact ⟨hallows, ih (fun s' hs' ev' hev' => h s' hs' ev' (List.mem_cons_of_mem _ hev')) hnext⟩

/-- **A world that always has an answer lets every program run to its end.** -/
theorem exists_legal_run (hw : ∀ s c, ∃ r, w.allows s ⟨c, r⟩) (p : Prog C R ε α) (s : σ) :
    ∃ t e, Runs p t e ∧ e ≠ .cut ∧ w.Legal s t := by
  induction p generalizing s with
  | ret a => exact ⟨[], .returned a, Runs.ret a, fun h => (nomatch h), trivial⟩
  | fail e => exact ⟨[], .failed e, Runs.fail e, fun h => (nomatch h), trivial⟩
  | call c k ih =>
    obtain ⟨r, hr⟩ := hw s c
    obtain ⟨t, e, ht, he, hl⟩ := ih r (w.next s ⟨c, r⟩)
    exact ⟨⟨c, r⟩ :: t, e, Runs.call r ht, he, hr, hl⟩

/-- **The invariant rule with a history.**  That an event keeps the invariant may depend on the
events before it and on the states they led through. -/
theorem Legal.invariant_along {I : σ → Prop} {s : σ} {t : List (Event C R)} (hs : I s)
    (hl : w.Legal s t)
    (hstep : ∀ t₁ c r t₂, t = t₁ ++ ⟨c, r⟩ :: t₂ → w.Legal s t₁ →
      (∀ u, u <+: t₁ → I (w.after s u)) → w.allows (w.after s t₁) ⟨c, r⟩ →
        I (w.next (w.after s t₁) ⟨c, r⟩)) :
    ∀ u, u <+: t → I (w.after s u) := by
  have halong : ∀ u, u <+: t → ∀ v, v <+: u → I (w.after s v) := by
    intro u
    induction u using List.reverseRecOn with
    | nil =>
      intro _ v hv
      rw [List.prefix_nil.mp hv]
      exact hs
    | append_singleton u ev ih =>
      intro hu v hv
      obtain ⟨t₂, ht⟩ := hu
      rw [List.append_assoc, List.singleton_append] at ht
      have hu : u <+: t := ⟨_, ht⟩
      rcases List.prefix_concat_iff.mp hv with rfl | hv
      · rw [← ht] at hl
        obtain ⟨hlu, hallows, -⟩ := legal_append.mp hl
        rw [after_append]
        exact hstep u ev.1 ev.2 t₂ ht.symm hlu (ih hu) hallows
      · exact ih hu v hv
  exact fun u hu => halong u hu u List.prefix_rfl

/-! ## What a program may bring about -/

variable (w) in
/-- Some run returns a value and leaves the world in a state. -/
def Returns (s : σ) (p : Prog C R ε α) (a : α) (s' : σ) : Prop :=
  ∃ t, Runs p t (.returned a) ∧ w.Legal s t ∧ w.after s t = s'

variable (w) in
/-- Some run, cut short or not, leaves the world in a state with a property. -/
def Can (s : σ) (p : Prog C R ε α) (P : σ → Prop) : Prop :=
  ∃ t e, Runs p t e ∧ w.Legal s t ∧ P (w.after s t)

theorem returns_ret (s : σ) (a : α) : w.Returns s (.ret a : Prog C R ε α) a s :=
  ⟨[], Runs.ret a, trivial, rfl⟩

theorem Returns.call {c : C} {k : R c → Prog C R ε α} {s s' : σ} {a : α} (r : R c)
    (hr : w.allows s ⟨c, r⟩) (h : w.Returns (w.next s ⟨c, r⟩) (k r) a s') :
    w.Returns s (.call c k) a s' := by
  obtain ⟨t, ht, hl, hs⟩ := h
  exact ⟨⟨c, r⟩ :: t, Runs.call r ht, ⟨hr, hl⟩, hs⟩

theorem Returns.bind {p : Prog C R ε α} {f : α → Prog C R ε β} {s s' s'' : σ} {a : α} {b : β}
    (hp : w.Returns s p a s') (hf : w.Returns s' (f a) b s'') : w.Returns s (p.bind f) b s'' := by
  obtain ⟨t, ht, hl, rfl⟩ := hp
  obtain ⟨u, hu, hl', rfl⟩ := hf
  exact ⟨t ++ u, ht.bind hu, legal_append.mpr ⟨hl, hl'⟩, after_append w s t u⟩

theorem Returns.can {p : Prog C R ε α} {P : σ → Prop} {s s' : σ} {a : α} (h : w.Returns s p a s')
    (hP : P s') : w.Can s p P := by
  obtain ⟨t, ht, hl, rfl⟩ := h
  exact ⟨t, _, ht, hl, hP⟩

/-- A handler whose replies a world allows is one of its behaviours. -/
theorem legal_execTrace {τ : Type} {serve : (c : C) → τ → R c × τ} {f : τ → σ}
    (hserve : ∀ c s, w.allows (f s) ⟨c, (serve c s).1⟩ ∧
      w.next (f s) ⟨c, (serve c s).1⟩ = f (serve c s).2) (p : Prog C R ε α) (s : τ) :
    w.Legal (f s) (execTrace serve p s) ∧
      w.after (f s) (execTrace serve p s) = f (exec serve p s).2 := by
  induction p generalizing s with
  | ret a => exact ⟨trivial, rfl⟩
  | fail e => exact ⟨trivial, rfl⟩
  | call c k ih =>
    obtain ⟨hallows, hnext⟩ := hserve c s
    obtain ⟨hl, hafter⟩ := ih (serve c s).1 (serve c s).2
    rw [← hnext] at hl hafter
    exact ⟨⟨hallows, hl⟩, hafter⟩

theorem returns_of_exec {τ : Type} {serve : (c : C) → τ → R c × τ} {f : τ → σ}
    (hserve : ∀ c s, w.allows (f s) ⟨c, (serve c s).1⟩ ∧
      w.next (f s) ⟨c, (serve c s).1⟩ = f (serve c s).2) {p : Prog C R ε α} {s s' : τ} {a : α}
    (h : exec serve p s = (.ok a, s')) : w.Returns (f s) p a (f s') := by
  obtain ⟨hl, hafter⟩ := legal_execTrace hserve p s
  have hrun := runs_execTrace serve p s
  rw [h] at hafter hrun
  exact ⟨_, hrun, hl, hafter⟩

theorem can_cut {p : Prog C R ε α} {P : σ → Prop} {s : σ} (hs : P s) : w.Can s p P :=
  ⟨[], .cut, Runs.cut p, trivial, hs⟩

theorem Can.call {c : C} {k : R c → Prog C R ε α} {P : σ → Prop} {s : σ} (r : R c)
    (hr : w.allows s ⟨c, r⟩) (h : w.Can (w.next s ⟨c, r⟩) (k r) P) : w.Can s (.call c k) P := by
  obtain ⟨t, e, ht, hl, hs⟩ := h
  exact ⟨⟨c, r⟩ :: t, e, Runs.call r ht, ⟨hr, hl⟩, hs⟩

theorem Can.bind {p : Prog C R ε α} {f : α → Prog C R ε β} {P : σ → Prop} {s s' : σ} {a : α}
    (hp : w.Returns s p a s') (hf : w.Can s' (f a) P) : w.Can s (p.bind f) P := by
  obtain ⟨t, ht, hl, rfl⟩ := hp
  obtain ⟨u, e, hu, hl', hP⟩ := hf
  exact ⟨t ++ u, e, ht.bind hu, legal_append.mpr ⟨hl, hl'⟩, by rwa [after_append]⟩

/-- What the first of two programs can bring about, dying at its end if need be. -/
theorem Can.of_left {p : Prog C R ε α} {f : α → Prog C R ε β} {P : σ → Prop} {s : σ}
    (hp : w.Can s p P) : w.Can s (p.bind f) P := by
  induction p generalizing s with
  | ret a =>
    obtain ⟨t, e, ht, -, hP⟩ := hp
    have : t = [] := by cases ht <;> rfl
    subst this
    exact can_cut hP
  | fail x =>
    obtain ⟨t, e, ht, -, hP⟩ := hp
    have : t = [] := by cases ht <;> rfl
    subst this
    exact can_cut hP
  | call c k ih =>
    obtain ⟨t, e, ht, hl, hP⟩ := hp
    cases ht with
    | cut => exact can_cut hP
    | call r ht => exact Can.call r hl.1 (ih r ⟨_, e, ht, hl.2, hP⟩)

/-- A loop may bring about what its body can at one of the values, if the values before it change
nothing. -/
theorem can_forEach {xs : List α} {f : α → Prog C R ε β} {P : σ → Prop} {s : σ} {x : α}
    (hx : x ∈ xs) (hbefore : ∀ y ∈ xs, ∃ b, w.Returns s (f y) b s) (h : w.Can s (f x) P) :
    w.Can s (Prog.forEach xs f) P := by
  induction xs with
  | nil => cases hx
  | cons y ys ih =>
    rcases List.mem_cons.mp hx with rfl | hx
    · exact Can.of_left h
    · obtain ⟨b, hb⟩ := hbefore y List.mem_cons_self
      refine Can.bind hb (Can.of_left (ih hx fun z hz => hbefore z (List.mem_cons_of_mem _ hz)))

end World

end CallTree
