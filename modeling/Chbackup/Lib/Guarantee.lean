import Chbackup.Lib.World

/-!
# What every step of a program guarantees

A program guarantees a relation from a state if every step of every legal run makes it, also of a
run that dies on the way.  `World.Ensures` speaks of the end of a run that returns; a guarantee speaks
of each of its steps, and so of what a run that dies has left behind.

The runs are those whose events satisfy a condition `L`, on which a guarantee may rely.  As in
`World.Ensures`, the rules follow the program; `guarantees_of_within` does a whole program at once
whose calls keep an invariant.
-/

namespace CallTree

section Runs

variable {C : Type} {R : C → Type} {ε α β : Type} {P : C → Prop} {Q : α → Prop}

/-- A process may die after any of its calls. -/
theorem Runs.cut_earlier {p : Prog C R ε α} {t t' : List (Event C R)} {e : End ε α}
    (h : Runs p t e) (hle : t' <+: t) : Runs p t' .cut := by
  induction t' generalizing p t with
  | nil => exact Runs.cut p
  | cons ev t' ih =>
    obtain ⟨rest, rfl⟩ := hle
    cases h with
    | call r h => exact Runs.call r (ih h (List.prefix_append _ _))

/-- A run of a loop, wherever it ends, is the runs of some first tasks, one after the other. -/
theorem Runs.parts_of_forEach {xs : List α} {f : α → Prog C R ε β} {t : List (Event C R)}
    {e : End ε (List β)} (h : Runs (Prog.forEach xs f) t e) :
    ∃ us : List (α × List (Event C R) × End ε β), t = us.flatMap (fun u => u.2.1) ∧
      us.map Prod.fst <+: xs ∧ (∀ u ∈ us, Runs (f u.1) u.2.1 u.2.2) ∧
        ∀ bs, e = .returned bs → us.map Prod.fst = xs ∧
          us.map (fun u => u.2.2) = bs.map End.returned := by
  induction xs generalizing t e with
  | nil =>
    refine ⟨[], ?_, List.prefix_rfl, fun u hu => absurd hu List.not_mem_nil, fun bs hbs => ?_⟩
    · cases h <;> rfl
    · subst hbs
      cases h
      exact ⟨rfl, rfl⟩
  | cons x xs ih =>
    have hone : ∀ e', Runs (f x) t e' → (∀ bs, e ≠ .returned bs) →
        ∃ us : List (α × List (Event C R) × End ε β), t = us.flatMap (fun u => u.2.1) ∧
          us.map Prod.fst <+: x :: xs ∧ (∀ u ∈ us, Runs (f u.1) u.2.1 u.2.2) ∧
            ∀ bs, e = .returned bs → us.map Prod.fst = x :: xs ∧
              us.map (fun u => u.2.2) = bs.map End.returned := by
      intro e' hrun hne
      refine ⟨[(x, t, e')], (List.append_nil t).symm, ⟨xs, rfl⟩, fun u hu => ?_, fun bs hbs =>
        absurd hbs (hne bs)⟩
      rw [List.mem_singleton.mp hu]
      exact hrun
    rcases h.of_bind with ⟨b, t₁, t₂, rfl, h₁, h₂⟩ | ⟨rfl, h₁⟩ | ⟨z, rfl, h₁⟩
    · have hrest : ∃ e', Runs (Prog.forEach xs f) t₂ e' ∧
          ∀ bs, e = .returned bs → ∃ bs', e' = .returned bs' ∧ bs = b :: bs' := by
        rcases h₂.of_bind with ⟨bs', t₃, t₄, rfl, h₃, h₄⟩ | ⟨rfl, h₃⟩ | ⟨z, rfl, h₃⟩
        · have ht₄ : t₄ = [] := by cases h₄ <;> rfl
          rw [ht₄, List.append_nil]
          refine ⟨_, h₃, fun bs hbs => ⟨bs', rfl, ?_⟩⟩
          subst hbs
          cases h₄
          rfl
        · exact ⟨_, h₃, fun bs hbs => by cases hbs⟩
        · exact ⟨_, h₃, fun bs hbs => by cases hbs⟩
      obtain ⟨e', h₃, he'⟩ := hrest
      obtain ⟨us, rfl, hkeys, hruns, hend⟩ := ih h₃
      refine ⟨(x, t₁, .returned b) :: us, rfl, ?_, fun u hu => ?_, fun bs hbs => ?_⟩
      · rw [List.map_cons]
        exact List.cons_prefix_cons.mpr ⟨rfl, hkeys⟩
      · rcases List.mem_cons.mp hu with rfl | hu
        · exact h₁
        · exact hruns u hu
      · obtain ⟨bs', hbs', rfl⟩ := he' bs hbs
        obtain ⟨hxs, hvalues⟩ := hend bs' hbs'
        exact ⟨by rw [List.map_cons, hxs], by rw [List.map_cons, hvalues, List.map_cons]⟩
    · exact hone _ h₁ fun bs hbs => by cases hbs
    · exact hone _ h₁ fun bs hbs => by cases hbs

/-- The end with another value. -/
def End.map (f : α → β) : End ε α → End ε β
  | .returned a => .returned (f a)
  | .failed e => .failed e
  | .cut => .cut

/-- A program whose value is computed from that of another has its runs. -/
theorem Runs.of_bind_ret {p : Prog C R ε α} {f : α → β} {g : β → α} (hg : ∀ a, g (f a) = a)
    {t : List (Event C R)} {e : End ε β} (h : Runs (p.bind fun a => .ret (f a)) t e) :
    Runs p t (e.map g) ∧ ∀ b, e = .returned b → f (g b) = b := by
  rcases h.of_bind with ⟨a, t₁, t₂, rfl, h₁, h₂⟩ | ⟨rfl, h₁⟩ | ⟨z, rfl, h₁⟩
  · cases h₂ with
    | ret =>
      rw [List.append_nil]
      refine ⟨?_, fun b hb => ?_⟩
      · show Runs p t₁ (.returned (g (f a)))
        rw [hg]
        exact h₁
      · cases hb
        rw [hg]
    | cut =>
      rw [List.append_nil]
      exact ⟨h₁.cut_earlier List.prefix_rfl, fun b hb => by cases hb⟩
  · exact ⟨h₁, fun b hb => by cases hb⟩
  · exact ⟨h₁, fun b hb => by cases hb⟩

/-- A program keeps its history within the calls that it makes. -/
theorem Within.safe_history {p : Prog C R ε α} (hp : Within P Q p) {h : List (Event C R)}
    (hh : ∀ ev ∈ h, P ev.1) :
    Safe (fun h _ => ∀ ev ∈ h, P ev.1) (fun h a => (∀ ev ∈ h, P ev.1) ∧ Q a) h p := by
  induction p generalizing h with
  | ret a => exact ⟨hh, hp h⟩
  | fail e => trivial
  | call c k ih =>
    refine ⟨hh, fun r => ih r (hp.of_call.2 r) fun ev hev => ?_⟩
    rcases List.mem_append.mp hev with hev | hev
    · exact hh ev hev
    · rw [List.mem_singleton.mp hev]
      exact hp.of_call.1

end Runs

namespace World

variable {C : Type} {R : C → Type} {σ ε α β : Type} (w : World C R σ)

/-- Each event of the trace makes a step of the relation. -/
def Follows (G : σ → σ → Prop) : σ → List (Event C R) → Prop
  | _, [] => True
  | s, ev :: t => G s (w.next s ev) ∧ Follows G (w.next s ev) t

/-- Every legal run from the state makes steps of `G`, and has the postcondition if it returns. -/
def Guarantees (L : Event C R → Prop) (G : σ → σ → Prop) (s : σ) (p : Prog C R ε α)
    (Q : α → σ → Prop) : Prop :=
  ∀ t e, Runs p t e → w.Legal s t → (∀ ev ∈ t, L ev) →
    w.Follows G s t ∧ ∀ a, e = .returned a → Q a (w.after s t)

variable {w} {L : Event C R → Prop} {G : σ → σ → Prop} {s : σ} {Q Q' : α → σ → Prop}

theorem follows_append {t₁ t₂ : List (Event C R)} :
    w.Follows G s (t₁ ++ t₂) ↔ w.Follows G s t₁ ∧ w.Follows G (w.after s t₁) t₂ := by
  induction t₁ generalizing s with
  | nil => exact ⟨fun h => ⟨trivial, h⟩, And.right⟩
  | cons ev t₁ ih =>
    show G s (w.next s ev) ∧ w.Follows G (w.next s ev) (t₁ ++ t₂) ↔ _
    rw [ih]
    exact and_assoc.symm

/-- A relation that composes leads from the beginning to the end. -/
theorem Follows.trans {t : List (Event C R)} (h : w.Follows G s t) (hrefl : ∀ s, G s s)
    (htrans : ∀ s₁ s₂ s₃, G s₁ s₂ → G s₂ s₃ → G s₁ s₃) : G s (w.after s t) := by
  induction t generalizing s with
  | nil => exact hrefl s
  | cons ev t ih => exact htrans _ _ _ h.1 (ih h.2)

theorem guarantees_ret {a : α} (h : Q a s) : w.Guarantees L G s (.ret a : Prog C R ε α) Q := by
  intro t e ht _ _
  cases ht with
  | ret =>
    refine ⟨trivial, fun b hb => ?_⟩
    cases hb
    exact h
  | cut => exact ⟨trivial, fun b hb => by cases hb⟩

theorem guarantees_call {c : C} {k : R c → Prog C R ε α}
    (h : ∀ r, w.allows s ⟨c, r⟩ → L ⟨c, r⟩ →
      G s (w.next s ⟨c, r⟩) ∧ w.Guarantees L G (w.next s ⟨c, r⟩) (k r) Q) :
    w.Guarantees L G s (.call c k) Q := by
  intro t e ht hl hL
  cases ht with
  | cut => exact ⟨trivial, fun b hb => by cases hb⟩
  | call r ht =>
    obtain ⟨hstep, hrest⟩ := h r hl.1 (hL _ List.mem_cons_self)
    obtain ⟨hfollows, hend⟩ := hrest _ e ht hl.2 fun ev hev => hL ev (List.mem_cons_of_mem _ hev)
    exact ⟨⟨hstep, hfollows⟩, hend⟩

theorem guarantees_perform {c : C} {f : R c → Prog C R ε α}
    (h : ∀ r, w.allows s ⟨c, r⟩ → L ⟨c, r⟩ →
      G s (w.next s ⟨c, r⟩) ∧ w.Guarantees L G (w.next s ⟨c, r⟩) (f r) Q) :
    w.Guarantees L G s ((Prog.perform c).bind f) Q := guarantees_call h

theorem Guarantees.bind {p : Prog C R ε α} {f : α → Prog C R ε β} {Q : β → σ → Prop}
    (h : w.Guarantees L G s p fun a s' => w.Guarantees L G s' (f a) Q) :
    w.Guarantees L G s (p.bind f) Q := by
  intro t e ht hl hL
  rcases ht.of_bind with ⟨a, t₁, t₂, rfl, h₁, h₂⟩ | ⟨rfl, h₁⟩ | ⟨x, rfl, h₁⟩
  · obtain ⟨hl₁, hl₂⟩ := legal_append.mp hl
    obtain ⟨hfollows, hend⟩ := h t₁ _ h₁ hl₁ fun ev hev => hL ev (List.mem_append_left _ hev)
    obtain ⟨hrest, hlast⟩ := hend a rfl t₂ e h₂ hl₂ fun ev hev => hL ev (List.mem_append_right _ hev)
    rw [after_append]
    exact ⟨follows_append.mpr ⟨hfollows, hrest⟩, hlast⟩
  · exact ⟨(h t _ h₁ hl hL).1, fun b hb => by cases hb⟩
  · exact ⟨(h t _ h₁ hl hL).1, fun b hb => by cases hb⟩

theorem Guarantees.imp {p : Prog C R ε α} (h : w.Guarantees L G s p Q)
    (hQ : ∀ a s', Q a s' → Q' a s') : w.Guarantees L G s p Q' := by
  intro t e ht hl hL
  obtain ⟨hfollows, hend⟩ := h t e ht hl hL
  exact ⟨hfollows, fun a ha => hQ a _ (hend a ha)⟩

/-- **A program whose calls keep an invariant and make the steps.** -/
theorem guarantees_of_within {I : σ → Prop} {P : C → Prop} {V : α → Prop} {p : Prog C R ε α}
    (hp : Within P V p) (hs : I s)
    (hstep : ∀ s ev, I s → P ev.1 → w.allows s ev → L ev → G s (w.next s ev) ∧ I (w.next s ev)) :
    w.Guarantees L G s p fun a s' => I s' ∧ V a := by
  intro t e ht hl hL
  obtain ⟨hcalls, hvalue⟩ := hp.runs ht
  have hall : w.Follows G s t ∧ I (w.after s t) := by
    clear ht
    induction t generalizing s with
    | nil => exact ⟨trivial, hs⟩
    | cons ev t ih =>
      obtain ⟨hG, hI⟩ := hstep s ev hs (hcalls ev List.mem_cons_self) hl.1 (hL ev List.mem_cons_self)
      obtain ⟨hfollows, hend⟩ := ih hI hl.2 (fun ev' hev' => hL ev' (List.mem_cons_of_mem _ hev'))
        fun ev' hev' => hcalls ev' (List.mem_cons_of_mem _ hev')
      exact ⟨⟨hG, hfollows⟩, hend⟩
  exact ⟨hall.1, fun a ha => ⟨hall.2, hvalue a ha⟩⟩

end World

end CallTree
