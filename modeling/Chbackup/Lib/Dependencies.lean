import Mathlib

/-!
# Lists in dependency order

`Before l a b`: in the list `l`, the element `a` comes before `b`.  A list is topological if what its
elements depend on comes before them, and closed among some keys if it has every key whose
dependencies it has.

An element of a topological list cannot reach a cycle (`Topological.not_reachesCycle`), and what a
closed list lacks can (`Closed.reachesCycle`).  So a list that is both has exactly the keys that reach no
cycle.
-/

namespace List

variable {α : Type}

/-- `a` comes before `b`. -/
def Before (l : List α) (a b : α) : Prop := [a, b].Sublist l

instance [DecidableEq α] (l : List α) (a b : α) : Decidable (Before l a b) :=
  inferInstanceAs (Decidable ([a, b].Sublist l))

variable {l l₁ l₂ : List α} {a b : α}

theorem before_append_of_mem (ha : a ∈ l₁) (hb : b ∈ l₂) : Before (l₁ ++ l₂) a b :=
  (singleton_sublist.mpr ha).append (singleton_sublist.mpr hb)

theorem Before.append_left (h : Before l₂ a b) (l₁ : List α) : Before (l₁ ++ l₂) a b :=
  h.trans (sublist_append_right _ _)

theorem Before.append_right (h : Before l₁ a b) (l₂ : List α) : Before (l₁ ++ l₂) a b :=
  h.trans (sublist_append_left _ _)

/-- What does not occur in the first list comes in the second. -/
theorem before_of_append_left [DecidableEq α] (h : Before (l₁ ++ l₂) a b) (ha : a ∉ l₁) (hb : b ∉ l₁) :
    Before l₂ a b := by
  have hfilter := h.filter (· ∉ l₁)
  have hnone : l₁.filter (· ∉ l₁) = [] := filter_eq_nil_iff.mpr fun x hx => by simpa using hx
  have hpair : [a, b].filter (· ∉ l₁) = [a, b] := by simp [ha, hb]
  rw [hpair, filter_append, hnone, nil_append] at hfilter
  exact hfilter.trans filter_sublist

theorem before_or_before (ha : a ∈ l) (hb : b ∈ l) (hne : a ≠ b) : Before l a b ∨ Before l b a := by
  obtain ⟨s, t, rfl⟩ := append_of_mem ha
  rcases mem_append.mp hb with hb | hb
  · exact .inr (before_append_of_mem hb mem_cons_self)
  · rcases mem_cons.mp hb with rfl | hb
    · exact absurd rfl hne
    · exact .inl (Before.append_left ((singleton_sublist.mpr hb).cons_cons a) s)

/-- In a list without repetition only one of two elements comes first. -/
theorem Before.asymm (hl : l.Nodup) (h : Before l a b) : ¬Before l b a := by
  induction l with
  | nil => exact fun _ => by cases h
  | cons c l ih =>
    obtain ⟨hc, hl⟩ := nodup_cons.mp hl
    intro h'
    cases h with
    | cons _ h =>
      cases h' with
      | cons _ h' => exact ih hl h h'
      | cons_cons _ h' => exact hc (h.subset (mem_cons_of_mem _ mem_cons_self))
    | cons_cons _ h =>
      cases h' with
      | cons _ h' => exact hc (h'.subset (mem_cons_of_mem _ mem_cons_self))
      | cons_cons _ h' => exact hc (singleton_sublist.mp h)

theorem before_filter_iff {p : α → Bool} (ha : p a = true) (hb : p b = true) :
    Before (l.filter p) a b ↔ Before l a b := by
  constructor
  · exact fun h => h.trans (filter_sublist)
  · intro h
    have hfilter := h.filter p
    rwa [filter_cons_of_pos ha, filter_cons_of_pos hb, filter_nil] at hfilter

/-- **A stable sort** puts one element before another if its key is smaller, or the same and it came
first. -/
theorem before_mergeSort_iff {key : α → Nat} (hl : l.Nodup) (ha : a ∈ l) (hb : b ∈ l) (hne : a ≠ b) :
    Before (l.mergeSort fun x y => decide (key x ≤ key y)) a b ↔
      key a < key b ∨ key a = key b ∧ Before l a b := by
  have htrans : ∀ x y z : α, decide (key x ≤ key y) = true → decide (key y ≤ key z) = true →
      decide (key x ≤ key z) = true := by
    intro x y z hxy hyz
    rw [decide_eq_true_eq] at *
    omega
  have htotal : ∀ x y : α, (decide (key x ≤ key y) || decide (key y ≤ key x)) = true := by
    intro x y
    rw [Bool.or_eq_true, decide_eq_true_eq, decide_eq_true_eq]
    omega
  have hsorted := pairwise_mergeSort htrans htotal l
  have hnodup : (l.mergeSort fun x y => decide (key x ≤ key y)).Nodup :=
    (mergeSort_perm l _).nodup_iff.mpr hl
  have hle : ∀ {x y}, Before (l.mergeSort fun x y => decide (key x ≤ key y)) x y → key x ≤ key y := by
    intro x y h
    have hpair := hsorted.sublist h
    rw [pairwise_pair, decide_eq_true_eq] at hpair
    exact hpair
  have hmem : ∀ {x}, x ∈ l → x ∈ l.mergeSort fun x y => decide (key x ≤ key y) := mem_mergeSort.mpr
  constructor
  · intro h
    rcases Nat.lt_or_eq_of_le (hle h) with hlt | heq
    · exact .inl hlt
    · refine .inr ⟨heq, ?_⟩
      rcases before_or_before ha hb hne with h' | h'
      · exact h'
      · exact absurd (pair_sublist_mergeSort htrans htotal (decide_eq_true heq.ge) h') (h.asymm hnodup)
  · rintro (hlt | ⟨heq, h⟩)
    · rcases before_or_before (hmem ha) (hmem hb) hne with h' | h'
      · exact h'
      · exact absurd (hle h') (by omega)
    · exact pair_sublist_mergeSort htrans htotal (decide_eq_true heq.le) h

/-! ## Dependencies -/

section Dependencies

variable (deps : α → List α)

/-- What an element depends on comes before it. -/
def Topological (l : List α) : Prop := ∀ l₁ a l₂, l = l₁ ++ a :: l₂ → deps a ⊆ l₁

/-- The list has the keys whose dependencies it has. -/
def Closed (keys l : List α) : Prop := ∀ k ∈ keys, deps k ⊆ l → k ∈ l

/-- `b` depends on `a`, directly or not. -/
abbrev Reaches : α → α → Prop := Relation.ReflTransGen fun b a => a ∈ deps b

/-- The dependencies of an element lead to a cycle. -/
def ReachesCycle (a : α) : Prop :=
  ∃ c, Reaches deps a c ∧ Relation.TransGen (fun b a => a ∈ deps b) c c

variable {deps} {keys : List α}

theorem topological_nil : Topological deps [] := fun l₁ a l₂ h => by simp at h

theorem Topological.append_singleton (h : Topological deps l) (ha : deps a ⊆ l) :
    Topological deps (l ++ [a]) := by
  intro l₁ b l₂ heq
  rcases eq_nil_or_concat' l₂ with rfl | ⟨l₂, c, rfl⟩
  · obtain ⟨rfl, hab⟩ := append_inj' heq rfl
    cases hab
    exact ha
  · rw [← cons_append, ← append_assoc] at heq
    obtain ⟨heq, -⟩ := append_inj' heq rfl
    exact h l₁ b l₂ heq

theorem Topological.before (h : Topological deps l) (hb : b ∈ l) (ha : a ∈ deps b) :
    Before l a b := by
  obtain ⟨l₁, l₂, rfl⟩ := append_of_mem hb
  exact before_append_of_mem (h l₁ b l₂ rfl ha) mem_cons_self

/-- What an element of a topological list depends on lies in the list before it. -/
theorem Topological.reaches_mem (h : Topological deps (l₁ ++ a :: l₂)) {c : α}
    (hc : Relation.TransGen (fun b a => a ∈ deps b) a c) : c ∈ l₁ := by
  induction hc with
  | single hdep => exact h l₁ a l₂ rfl hdep
  | tail _ hdep ih =>
    obtain ⟨s, t, rfl⟩ := append_of_mem ih
    rw [append_assoc, cons_append] at h
    exact mem_append_left _ (h s _ _ rfl hdep)

theorem Topological.not_reachesCycle (h : Topological deps l) (hl : l.Nodup) (ha : a ∈ l) :
    ¬ReachesCycle deps a := by
  rintro ⟨c, hac, hcc⟩
  have hc : c ∈ l := by
    obtain ⟨l₁, l₂, rfl⟩ := append_of_mem ha
    rcases Relation.reflTransGen_iff_eq_or_transGen.mp hac with rfl | htrans
    · exact ha
    · exact mem_append_left _ (h.reaches_mem htrans)
  obtain ⟨l₁, l₂, rfl⟩ := append_of_mem hc
  exact (nodup_append.mp hl).2.2 _ (h.reaches_mem hcc) _ mem_cons_self rfl

/-- **A walk that never ends in a finite set meets a cycle.** -/
theorem reachesCycle_of_no_end {s : List α} (h : ∀ x ∈ s, ∃ y ∈ s, y ∈ deps x) (ha : a ∈ s) :
    ReachesCycle deps a := by
  classical
  let next : {x // x ∈ s} → {x // x ∈ s} := fun x =>
    ⟨(h x.1 x.2).choose, (h x.1 x.2).choose_spec.1⟩
  have hnext : ∀ x, (next x).1 ∈ deps x.1 := fun x => (h x.1 x.2).choose_spec.2
  have hwalk : ∀ n (x : {x // x ∈ s}), Relation.TransGen (fun b a => a ∈ deps b) x.1
      (next^[n + 1] x).1 := by
    intro n
    induction n with
    | zero => exact fun x => .single (hnext x)
    | succ n ih =>
      intro x
      rw [Function.iterate_succ_apply]
      exact .head (hnext x) (ih (next x))
  obtain ⟨i, j, hij, heq⟩ := Finite.exists_ne_map_eq_of_infinite fun n => next^[n] ⟨a, ha⟩
  wlog hlt : i < j generalizing i j
  · exact this j i hij.symm heq.symm (by omega)
  refine ⟨(next^[i] ⟨a, ha⟩).1, ?_, ?_⟩
  · cases i with
    | zero => exact .refl
    | succ i => exact (hwalk i ⟨a, ha⟩).to_reflTransGen
  · have hcycle := hwalk (j - i - 1) (next^[i] ⟨a, ha⟩)
    rw [← Function.iterate_add_apply, show j - i - 1 + 1 + i = j by omega] at hcycle
    rwa [← heq] at hcycle

theorem Closed.reachesCycle [DecidableEq α] (h : Closed deps keys l) (hdeps : ∀ k, deps k ⊆ keys)
    (ha : a ∈ keys) (hno : a ∉ l) : ReachesCycle deps a := by
  refine reachesCycle_of_no_end (s := keys.filter (· ∉ l)) (fun x hx => ?_)
    (mem_filter.mpr ⟨ha, decide_eq_true hno⟩)
  obtain ⟨hx, hxl⟩ := mem_filter.mp hx
  obtain ⟨y, hy, hyl⟩ : ∃ y ∈ deps x, y ∉ l := by
    by_contra hall
    refine of_decide_eq_true hxl (h x hx fun y hy => ?_)
    by_contra hyl
    exact hall ⟨y, hy, hyl⟩
  exact ⟨y, mem_filter.mpr ⟨hdeps x hy, decide_eq_true hyl⟩, hy⟩

end Dependencies

end List
