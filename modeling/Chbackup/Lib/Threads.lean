import Chbackup.Lib.Program

/-!
# Threads over a shared state

Threads run programs whose calls act on a shared state, one call at a time, in any order.  Besides
the rest of its program a thread has a *mind*: what it has learnt from the replies so far.  Minds
are not part of the programs; they are what an invariant can say about a thread without looking at
its program.

* `Obeys`: a program makes a call only in a mind that permits it.  This is checked once per
  program, by rules that follow its text.
* `Machine.Reaches`: the states that threads and their environment lead to.
* `Machine.Reaches.invariant`: an invariant of the shared state and the minds, kept by every
  permitted call and every move of the environment, holds in every state reached.
-/

namespace CallTree

open Prog

variable {C : Type} {R : C → Type} {σ L M ε ε' α β : Type}

/-! ## Programs that mind what they learn -/

/-- Every call is permitted by the mind it is made in, and the mind at the end satisfies `Q`
together with the value or the error. -/
def Obeys (learn : L → Event C R → L) (P : L → C → Prop) (Q : L → Except ε α → Prop) :
    L → Prog C R ε α → Prop
  | l, .ret a => Q l (.ok a)
  | l, .fail e => Q l (.error e)
  | l, .call c k => P l c ∧ ∀ r, Obeys learn P Q (learn l ⟨c, r⟩) (k r)

section Obeys

variable {learn : L → Event C R → L} {P : L → C → Prop} {Q Q' : L → Except ε α → Prop}
  {S : L → Except ε β → Prop} {l : L}

theorem Obeys.imp {p : Prog C R ε α} (hp : Obeys learn P Q l p) (hQ : ∀ l r, Q l r → Q' l r) :
    Obeys learn P Q' l p := by
  induction p generalizing l with
  | ret a => exact hQ _ _ hp
  | fail e => exact hQ _ _ hp
  | call c k ih => exact ⟨hp.1, fun r => ih r (hp.2 r)⟩

/-- The rule of sequence. -/
theorem Obeys.bind {p : Prog C R ε α} {f : α → Prog C R ε β} (hp : Obeys learn P Q l p)
    (hf : ∀ l a, Q l (.ok a) → Obeys learn P S l (f a))
    (he : ∀ l e, Q l (.error e) → S l (.error e)) : Obeys learn P S l (p.bind f) := by
  induction p generalizing l with
  | ret a => exact hf _ _ hp
  | fail e => exact he _ _ hp
  | call c k ih => exact ⟨hp.1, fun r => ih r (hp.2 r)⟩

/-- The rule of a failure that the caller looks at. -/
theorem Obeys.attempt {p : Prog C R ε α} (hp : Obeys learn P Q l p) :
    Obeys learn P (fun l (r : Except ε' (Except ε α)) => ∃ x, r = .ok x ∧ Q l x) l p.attempt := by
  induction p generalizing l with
  | ret a => exact ⟨_, rfl, hp⟩
  | fail e => exact ⟨_, rfl, hp⟩
  | call c k ih => exact ⟨hp.1, fun r => ih r (hp.2 r)⟩

/-- Every program obeys what forbids nothing. -/
theorem obeys_true (p : Prog C R ε α) : Obeys learn (fun _ _ => True) (fun _ _ => True) l p := by
  induction p generalizing l with
  | ret a => trivial
  | fail e => trivial
  | call c k ih => exact ⟨trivial, fun r => ih r⟩

/-- What a program obeys of two kinds, it obeys together. -/
theorem Obeys.and {P' : L → C → Prop} {p : Prog C R ε α} (hp : Obeys learn P Q l p)
    (hp' : Obeys learn P' Q' l p) :
    Obeys learn (fun l c => P l c ∧ P' l c) (fun l r => Q l r ∧ Q' l r) l p := by
  induction p generalizing l with
  | ret a => exact ⟨hp, hp'⟩
  | fail e => exact ⟨hp, hp'⟩
  | call c k ih => exact ⟨⟨hp.1, hp'.1⟩, fun r => ih r (hp.2 r) (hp'.2 r)⟩

theorem obeys_perform {c : C} {f : R c → Prog C R ε α} (hc : P l c)
    (hf : ∀ r, Obeys learn P Q (learn l ⟨c, r⟩) (f r)) : Obeys learn P Q l ((perform c).bind f) :=
  ⟨hc, hf⟩

/-- The rule of a loop. -/
theorem obeys_forEach {I : L → Prop} {xs : List β} {f : β → Prog C R ε α}
    (hf : ∀ x ∈ xs, ∀ l, I l → Obeys learn P (fun l _ => I l) l (f x)) (hl : I l) :
    Obeys learn P (fun l _ => I l) l (forEach xs f) := by
  induction xs generalizing l with
  | nil => exact hl
  | cons x xs ih =>
    refine (hf x List.mem_cons_self l hl).bind (fun l' a hl' => ?_) fun _ _ h => h
    refine (ih (fun y hy => hf y (List.mem_cons_of_mem _ hy)) hl').bind (fun _ _ h => h)
      fun _ _ h => h

end Obeys

/-- What holds of one mind and of all others holds of all minds. -/
theorem forall_getElem?_set {ls : List L} {i : Nat} {x : L} {p : Nat → L → Prop} (hx : p i x)
    (h : ∀ j l, j ≠ i → ls[j]? = some l → p j l) : ∀ j l, (ls.set i x)[j]? = some l → p j l := by
  intro j l hj
  rw [List.getElem?_set] at hj
  split at hj
  · rename_i hij
    subst hij
    split at hj
    · cases hj
      exact hx
    · cases hj
  · rename_i hij
    exact h j l (Ne.symm hij) hj

/-- A mind after a step is the new one or one of the others. -/
theorem getElem?_set_cases {ls : List L} {i j : Nat} {x l : L} (h : (ls.set i x)[j]? = some l) :
    (j = i ∧ x = l) ∨ (j ≠ i ∧ ls[j]? = some l) :=
  forall_getElem?_set (p := fun j l => (j = i ∧ x = l) ∨ (j ≠ i ∧ ls[j]? = some l)) (Or.inl ⟨rfl, rfl⟩)
    (fun _ _ hne hj => Or.inr ⟨hne, hj⟩) j l h

/-- What a new mind holds takes the place of what the old one held. -/
theorem sum_map_set (f : L → Nat) {ls : List L} {i : Nat} {l : L} (hi : ls[i]? = some l) (x : L) :
    ((ls.set i x).map f).sum + f l = (ls.map f).sum + f x := by
  induction ls generalizing i with
  | nil => cases hi
  | cons m ms ih =>
    cases i with
    | zero =>
      cases hi
      simp only [List.set_cons_zero, List.map_cons, List.sum_cons]
      omega
    | succ i =>
      have := ih hi
      simp only [List.set_cons_succ, List.map_cons, List.sum_cons]
      omega

/-! ## Machines -/

/-- A thread: its mind and the rest of its program. -/
structure Thread (C : Type) (R : C → Type) (L ε α : Type) where
  mind : L
  rest : Prog C R ε α

/-- The thread has come to the end of its program. -/
def Thread.ended (t : Thread C R L ε α) : Bool :=
  match t.rest with
  | .call _ _ => false
  | _ => true

/-- Threads with their shared state. -/
structure Threads (C : Type) (R : C → Type) (σ L ε α : Type) where
  shared : σ
  threads : List (Thread C R L ε α)

/-- The minds of the threads. -/
def Threads.minds (s : Threads C R σ L ε α) : List L := s.threads.map Thread.mind

/-- What calls do to the shared state, by the number of the thread that makes them, what a thread
learns, which threads can take a step, and the moves of the environment. -/
structure Machine (C : Type) (R : C → Type) (σ L M : Type) where
  serve : Nat → (c : C) → σ → R c × σ
  learn : L → Event C R → L
  enabled : Nat → σ → Bool
  move : M → σ → List L → Option σ

namespace Machine

variable (m : Machine C R σ L M)

/-- One step of a thread or of the environment. -/
def step : Nat ⊕ M → Threads C R σ L ε α → Option (Threads C R σ L ε α)
  | .inl i, s =>
    match s.threads[i]? with
    | some ⟨l, .call c k⟩ =>
      if m.enabled i s.shared then
        let r := m.serve i c s.shared
        some ⟨r.2, s.threads.set i ⟨m.learn l ⟨c, r.1⟩, k r.1⟩⟩
      else none
    | _ => none
  | .inr e, s => (m.move e s.shared s.minds).map fun shared => { s with shared := shared }

/-- Several steps. -/
def run : List (Nat ⊕ M) → Threads C R σ L ε α → Option (Threads C R σ L ε α)
  | [], s => some s
  | a :: rest, s => (m.step a s).bind (run rest)

/-- The states that steps lead to, each of which meets a condition on the state before it. -/
inductive Reaches (ok : σ → List L → Nat ⊕ M → Prop) (s : Threads C R σ L ε α) :
    Threads C R σ L ε α → Prop where
  | refl : Reaches ok s s
  | step {s' s'' : Threads C R σ L ε α} (a : Nat ⊕ M) (hr : Reaches ok s s')
      (hok : ok s'.shared s'.minds a) (hs : m.step a s' = some s'') : Reaches ok s s''

variable {m}

/-- A step of a thread. -/
theorem step_inl_eq_some {i : Nat} {s s' : Threads C R σ L ε α} (h : m.step (.inl i) s = some s') :
    ∃ l c k, s.threads[i]? = some ⟨l, .call c k⟩ ∧ m.enabled i s.shared = true ∧
      s' = ⟨(m.serve i c s.shared).2,
        s.threads.set i ⟨m.learn l ⟨c, (m.serve i c s.shared).1⟩, k (m.serve i c s.shared).1⟩⟩ := by
  rw [step] at h
  split at h
  · rename_i l c k hi
    split at h
    · exact ⟨l, c, k, hi, ‹_›, (Option.some.inj h).symm⟩
    · cases h
  · cases h

/-- A thread makes its next call, and the others stay where they are. -/
theorem Reaches.call {ok : σ → List L → Nat ⊕ M → Prop} {s₀ s : Threads C R σ L ε α} {i : Nat}
    {l : L} {c : C} {k : R c → Prog C R ε α} {r : R c} {shared : σ} (hr : m.Reaches ok s₀ s)
    (hi : s.threads[i]? = some ⟨l, .call c k⟩) (hen : m.enabled i s.shared = true)
    (hok : ok s.shared s.minds (.inl i)) (hserve : m.serve i c s.shared = (r, shared)) :
    ∃ s', m.Reaches ok s₀ s' ∧ s'.shared = shared ∧
      s'.threads[i]? = some ⟨m.learn l ⟨c, r⟩, k r⟩ ∧
        ∀ j, j ≠ i → s'.threads[j]? = s.threads[j]? := by
  refine ⟨⟨shared, s.threads.set i ⟨m.learn l ⟨c, r⟩, k r⟩⟩, .step (.inl i) hr hok ?_, rfl, ?_, ?_⟩
  · rw [Machine.step, hi]
    dsimp only
    rw [if_pos hen, hserve]
  · have hlt := (List.getElem?_eq_some_iff.mp hi).1
    simp [hlt]
  · intro j hj
    simp [Ne.symm hj]

/-- A run that can be computed. -/
theorem reaches_of_run {ok : σ → List L → Nat ⊕ M → Prop} {as : List (Nat ⊕ M)}
    {s s' s'' : Threads C R σ L ε α} (hr : m.Reaches ok s s')
    (hok : ∀ a ∈ as, ∀ shared ls, ok shared ls a) (h : m.run as s' = some s'') : m.Reaches ok s s'' := by
  induction as generalizing s' with
  | nil =>
    cases h
    exact hr
  | cons a as ih =>
    obtain ⟨t, ht, hrest⟩ := Option.bind_eq_some_iff.mp h
    exact ih (.step a hr (hok a List.mem_cons_self _ _) ht)
      (fun b hb => hok b (List.mem_cons_of_mem _ hb)) hrest

/-- Several steps that all meet a condition on the state before them. -/
def runWhere (m : Machine C R σ L M) (ok : σ → List L → Nat ⊕ M → Prop)
    [∀ shared ls a, Decidable (ok shared ls a)] :
    List (Nat ⊕ M) → Threads C R σ L ε α → Option (Threads C R σ L ε α)
  | [], s => some s
  | a :: rest, s => if ok s.shared s.minds a then (m.step a s).bind (runWhere m ok rest) else none

/-- A run of which the condition can be computed as well. -/
theorem reaches_of_runWhere {ok : σ → List L → Nat ⊕ M → Prop}
    [∀ shared ls a, Decidable (ok shared ls a)] {as : List (Nat ⊕ M)}
    {s s' s'' : Threads C R σ L ε α} (hr : m.Reaches ok s s') (h : m.runWhere ok as s' = some s'') :
    m.Reaches ok s s'' := by
  induction as generalizing s' with
  | nil =>
    cases h
    exact hr
  | cons a as ih =>
    rw [runWhere] at h
    split_ifs at h with hok
    obtain ⟨t, ht, hrest⟩ := Option.bind_eq_some_iff.mp h
    exact ih (.step a hr hok ht) hrest

/-- Threads neither come nor go. -/
theorem Reaches.length_eq {ok : σ → List L → Nat ⊕ M → Prop} {s s' : Threads C R σ L ε α}
    (hr : m.Reaches ok s s') : s'.threads.length = s.threads.length := by
  induction hr with
  | refl => rfl
  | @step s' s'' a _ _ hs ih =>
    cases a with
    | inl i =>
      obtain ⟨l, c, k, -, -, rfl⟩ := step_inl_eq_some hs
      rw [List.length_set, ih]
    | inr e =>
      obtain ⟨shared, -, rfl⟩ := Option.map_eq_some_iff.mp hs
      exact ih

/-- Runs follow one another. -/
theorem Reaches.trans {ok : σ → List L → Nat ⊕ M → Prop} {s s' s'' : Threads C R σ L ε α}
    (h : m.Reaches ok s s') (h' : m.Reaches ok s' s'') : m.Reaches ok s s'' := by
  induction h' with
  | refl => exact h
  | step a _ hok hs ih => exact .step a ih hok hs

/-- A thread that is never held up comes to its end. -/
theorem Reaches.finish {ok : σ → List L → Nat ⊕ M → Prop} {s₀ s : Threads C R σ L ε α} {i : Nat}
    {l : L} {p : Prog C R ε α} (hr : m.Reaches ok s₀ s) (hi : s.threads[i]? = some ⟨l, p⟩)
    (hgo : ∀ s', m.Reaches ok s₀ s' → m.enabled i s'.shared = true ∧ ok s'.shared s'.minds (.inl i)) :
    ∃ s' t, m.Reaches ok s₀ s' ∧ s'.threads[i]? = some t ∧ t.ended = true ∧
      ∀ j, j ≠ i → s'.threads[j]? = s.threads[j]? := by
  induction p generalizing s l with
  | ret a => exact ⟨s, _, hr, hi, rfl, fun _ _ => rfl⟩
  | fail e => exact ⟨s, _, hr, hi, rfl, fun _ _ => rfl⟩
  | call c k ih =>
    obtain ⟨s', hr', -, hi', hother⟩ := hr.call hi (hgo s hr).1 (hgo s hr).2 rfl
    obtain ⟨s'', t, hr'', ht, hended, hother'⟩ := ih _ hr' hi'
    exact ⟨s'', t, hr'', ht, hended, fun j hj => (hother' j hj).trans (hother j hj)⟩

/-- **Threads that are never held up come to their ends.** -/
theorem Reaches.finish_all {ok : σ → List L → Nat ⊕ M → Prop} {s₀ s : Threads C R σ L ε α}
    (hr : m.Reaches ok s₀ s)
    (hgo : ∀ i s', m.Reaches ok s₀ s' → m.enabled i s'.shared = true ∧ ok s'.shared s'.minds (.inl i)) :
    ∃ s', m.Reaches ok s₀ s' ∧ s'.threads.all Thread.ended = true := by
  have hupTo : ∀ n, ∃ s', m.Reaches ok s₀ s' ∧
      ∀ (j : Nat) (t : Thread C R L ε α), j < n → s'.threads[j]? = some t → t.ended = true := by
    intro n
    induction n with
    | zero => exact ⟨s, hr, fun j t hj => absurd hj (Nat.not_lt_zero j)⟩
    | succ n ih =>
      obtain ⟨s', hr', hended⟩ := ih
      cases hn : s'.threads[n]? with
      | none =>
        refine ⟨s', hr', fun j t hj ht => hended j t ?_ ht⟩
        have hlt := (List.getElem?_eq_some_iff.mp ht).1
        have hge := List.getElem?_eq_none_iff.mp hn
        omega
      | some t₀ =>
        obtain ⟨s'', t', hr'', ht', hend, hother⟩ := hr'.finish hn (hgo n)
        refine ⟨s'', hr'', fun j t hj ht => ?_⟩
        by_cases hjn : j = n
        · subst hjn
          rw [ht'] at ht
          cases ht
          exact hend
        · rw [hother j hjn] at ht
          exact hended j t (by omega) ht
  obtain ⟨s', hr', hended⟩ := hupTo s.threads.length
  refine ⟨s', hr', List.all_eq_true.mpr fun t ht => ?_⟩
  obtain ⟨j, hj⟩ := List.mem_iff_getElem?.mp ht
  refine hended j t ?_ hj
  rw [hr.length_eq, ← hr'.length_eq]
  exact (List.getElem?_eq_some_iff.mp hj).1

/-- **The invariant rule for threads**, where each thread has its own duties. -/
theorem Reaches.invariant_each {ok : σ → List L → Nat ⊕ M → Prop} {P : Nat → L → C → Prop}
    {Q : Nat → L → Except ε α → Prop} {I : σ → List L → Prop} {s s' : Threads C R σ L ε α}
    (hr : m.Reaches ok s s') (hI : I s.shared s.minds)
    (hobeys : ∀ i t, s.threads[i]? = some t → Obeys m.learn (P i) (Q i) t.mind t.rest)
    (hcall : ∀ i c l ls shared, I shared ls → ls[i]? = some l → P i l c → m.enabled i shared = true →
      ok shared ls (.inl i) → I (m.serve i c shared).2 (ls.set i (m.learn l ⟨c, (m.serve i c shared).1⟩)))
    (hmove : ∀ e ls shared shared', I shared ls → ok shared ls (.inr e) →
      m.move e shared ls = some shared' → I shared' ls) :
    I s'.shared s'.minds ∧
      ∀ i t, s'.threads[i]? = some t → Obeys m.learn (P i) (Q i) t.mind t.rest := by
  induction hr with
  | refl => exact ⟨hI, hobeys⟩
  | @step s' s'' a _ hok hs ih =>
    obtain ⟨hI', hobeys'⟩ := ih
    cases a with
    | inl i =>
      obtain ⟨l, c, k, hi, hen, rfl⟩ := step_inl_eq_some hs
      obtain ⟨hP, hk⟩ := hobeys' i _ hi
      have hmind : s'.minds[i]? = some l := by
        rw [Threads.minds, List.getElem?_map, hi]
        rfl
      constructor
      · have h := hcall i c l s'.minds s'.shared hI' hmind hP hen hok
        rw [Threads.minds] at h ⊢
        rwa [List.map_set]
      · intro j t hj
        rcases getElem?_set_cases hj with ⟨rfl, rfl⟩ | ⟨-, hj⟩
        · exact hk _
        · exact hobeys' j t hj
    | inr e =>
      obtain ⟨shared, hshared, rfl⟩ := Option.map_eq_some_iff.mp hs
      exact ⟨hmove e _ _ _ hI' hok hshared, hobeys'⟩

/-- **The invariant rule for threads.** -/
theorem Reaches.invariant {ok : σ → List L → Nat ⊕ M → Prop} {P : L → C → Prop}
    {Q : L → Except ε α → Prop} {I : σ → List L → Prop} {s s' : Threads C R σ L ε α}
    (hr : m.Reaches ok s s') (hI : I s.shared s.minds)
    (hobeys : ∀ t ∈ s.threads, Obeys m.learn P Q t.mind t.rest)
    (hcall : ∀ i c l ls shared, I shared ls → ls[i]? = some l → P l c → m.enabled i shared = true →
      ok shared ls (.inl i) → I (m.serve i c shared).2 (ls.set i (m.learn l ⟨c, (m.serve i c shared).1⟩)))
    (hmove : ∀ e ls shared shared', I shared ls → ok shared ls (.inr e) →
      m.move e shared ls = some shared' → I shared' ls) :
    I s'.shared s'.minds ∧ ∀ t ∈ s'.threads, Obeys m.learn P Q t.mind t.rest := by
  obtain ⟨hI', hobeys'⟩ := hr.invariant_each (P := fun _ => P) (Q := fun _ => Q) hI
    (fun i t hi => hobeys t (List.mem_of_getElem? hi)) hcall hmove
  refine ⟨hI', fun t ht => ?_⟩
  obtain ⟨i, hi⟩ := List.mem_iff_getElem?.mp ht
  exact hobeys' i t hi

/-- Threads that have come to their ends take no step. -/
theorem step_eq_none_of_ended {s : Threads C R σ L ε α} (h : s.threads.all Thread.ended = true)
    (i : Nat) : m.step (.inl i) s = none := by
  cases hs : m.step (.inl i) s with
  | none => rfl
  | some s' =>
    obtain ⟨l, c, k, hi, -, -⟩ := step_inl_eq_some hs
    have hended := List.all_eq_true.mp h _ (List.mem_of_getElem? hi)
    cases hended

/-- **Following a thread by what it leaves in the shared state.**  If every call of the thread changes
a view of the shared state as the call is learnt, and no other thread changes the view, the view can
take the place of a mind.  Calls are made in states that satisfy an invariant, by threads that have
their duties. -/
theorem Reaches.follow {ok : σ → List L → Nat ⊕ M → Prop} {J : σ → List L → Prop}
    {D : Nat → L → C → Prop} {E : Nat → L → Except ε α → Prop} {K : Type} {learn : K → Event C R → K}
    {v : σ → K} {P : K → C → Prop} {Q : K → Except ε α → Prop} {s s' : Threads C R σ L ε α} {i : Nat}
    (hr : m.Reaches ok s s')
    (hJ : ∀ s', m.Reaches ok s s' → J s'.shared s'.minds ∧
      ∀ j t, s'.threads[j]? = some t → Obeys m.learn (D j) (E j) t.mind t.rest)
    (hself : ∀ c l ls shared, J shared ls → ls[i]? = some l → D i l c → P (v shared) c →
      v (m.serve i c shared).2 = learn (v shared) ⟨c, (m.serve i c shared).1⟩)
    (hother : ∀ j c l ls shared, j ≠ i → J shared ls → ls[j]? = some l → D j l c →
      v (m.serve j c shared).2 = v shared)
    (hmove : ∀ e ls shared shared', m.move e shared ls = some shared' → v shared' = v shared)
    (hobeys : ∀ t, s.threads[i]? = some t → Obeys learn P Q (v s.shared) t.rest) :
    ∀ t, s'.threads[i]? = some t → Obeys learn P Q (v s'.shared) t.rest := by
  induction hr with
  | refl => exact hobeys
  | @step s' s'' a hr' _ hs ih =>
    obtain ⟨hJ', hD⟩ := hJ s' hr'
    cases a with
    | inl j =>
      obtain ⟨l, c, k, hj, -, rfl⟩ := step_inl_eq_some hs
      have hmind : s'.minds[j]? = some l := by
        rw [Threads.minds, List.getElem?_map, hj]
        rfl
      intro t ht
      rcases getElem?_set_cases ht with ⟨rfl, rfl⟩ | ⟨hne, ht⟩
      · obtain ⟨hP, hk⟩ := ih _ hj
        rw [hself c l s'.minds s'.shared hJ' hmind (hD i _ hj).1 hP]
        exact hk _
      · rw [hother j c l s'.minds s'.shared (Ne.symm hne) hJ' hmind (hD j _ hj).1]
        exact ih t ht
    | inr e =>
      obtain ⟨shared, hshared, rfl⟩ := Option.map_eq_some_iff.mp hs
      intro t ht
      rw [hmove e _ _ _ hshared]
      exact ih t ht

end Machine

end CallTree
