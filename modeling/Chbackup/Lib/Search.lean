import Chbackup.Lib.BytePositions

/-!
# Searching texts that are put together

Where a text is found in a text that consists of two parts: in the first part, across the border, or in the
second part.
-/

namespace Str

variable {needle a b s : Str}

/-- A text that begins nowhere in the first part is searched for in the second part. -/
theorem cut_append_of_apart (h : ∀ a', a' ≠ [] → a' <:+ a → ¬needle <+: a' ++ b) :
    cut needle (a ++ b) = (cut needle b).map fun p => (a ++ p.1, p.2) := by
  induction a with
  | nil =>
    rw [List.nil_append]
    cases cut needle b <;> rfl
  | cons x a ih =>
    have hx : ¬needle.isPrefixOf (x :: (a ++ b)) = true := fun hp =>
      h (x :: a) (List.cons_ne_nil _ _) List.suffix_rfl (List.isPrefixOf_iff_prefix.mp hp)
    rw [List.cons_append, cut, if_neg hx, ih fun a' hne hsuf => h a' hne (hsuf.trans (List.suffix_cons _ _)),
      Option.map_map]
    rfl

/-- A text is found in the second part if its first character is not in the first part. -/
theorem cut_append_of_notMem {x : Char} (hx : x ∉ a) :
    cut (x :: needle) (a ++ b) = (cut (x :: needle) b).map fun p => (a ++ p.1, p.2) := by
  refine cut_append_of_apart fun a' hne hsuf hp => ?_
  obtain ⟨y, a', rfl⟩ := List.exists_cons_of_ne_nil hne
  obtain ⟨rfl, -⟩ := List.cons_prefix_cons.mp hp
  exact hx (hsuf.subset List.mem_cons_self)

/-- What begins in the first part and is not a part of it goes beyond its end. -/
theorem prefix_of_overlap {a' : Str} (hnot : ¬needle <:+: a) (hsuf : a' <:+ a)
    (hp : needle <+: a' ++ b) : a' <+: needle := by
  rcases List.prefix_or_prefix_of_prefix hp (List.prefix_append a' b) with h | h
  · exact absurd (h.isInfix.trans hsuf.isInfix) hnot
  · exact h

/-- A text is found in the second part if it is not in the first, whose last character it does not have. -/
theorem cut_append_of_last {x : Char} (hnot : ¬needle <:+: a) (hlast : [x] <:+ a) (hx : x ∉ needle) :
    cut needle (a ++ b) = (cut needle b).map fun p => (a ++ p.1, p.2) := by
  refine cut_append_of_apart fun a' hne hsuf hp => hx ?_
  have hlast' : [x] <:+ a' := by
    refine List.suffix_of_suffix_length_le hlast hsuf ?_
    exact List.length_pos_of_ne_nil hne
  exact (prefix_of_overlap hnot hsuf hp).subset (hlast'.subset List.mem_cons_self)

theorem cut_self (needle b : Str) : cut needle (needle ++ b) = some ([], b) := by
  cases h : needle ++ b with
  | nil =>
    obtain ⟨rfl, rfl⟩ := List.append_eq_nil_iff.mp h
    rfl
  | cons x s =>
    have hp : needle.isPrefixOf (x :: s) = true := by
      rw [← h, List.isPrefixOf_iff_prefix]
      exact List.prefix_append needle b
    rw [cut, if_pos hp, ← h, List.drop_left]

/-- A text whose first character occurs only once in it is found where it is put, if not before. -/
theorem cut_append_self {x : Char} (hnot : ¬(x :: needle) <:+: a) (hx : x ∉ needle) :
    cut (x :: needle) (a ++ (x :: needle ++ b)) = some (a, b) := by
  rw [cut_append_of_apart ?_, cut_self, Option.map_some, List.append_nil]
  intro a' hne hsuf hp
  -- what begins before would have the first character again where the text is put
  obtain ⟨t, ht⟩ := prefix_of_overlap hnot hsuf hp
  obtain ⟨y, a', rfl⟩ := List.exists_cons_of_ne_nil hne
  rw [List.cons_append] at ht
  obtain ⟨rfl, rfl⟩ := List.cons.inj ht
  cases t with
  | nil =>
    rw [List.append_nil] at hnot
    exact hnot hsuf.isInfix
  | cons z t =>
    have hz : z :: t <+: y :: (a' ++ z :: t) ++ b := by
      refine (List.prefix_append_right_inj (y :: a')).mp ?_
      simpa using hp
    obtain ⟨rfl, -⟩ := List.cons_prefix_cons.mp hz
    exact hx (List.mem_append_right _ List.mem_cons_self)

theorem cutWhere_append_of_forall {p : Char → Bool} (ha : ∀ x ∈ a, p x = false) :
    cutWhere p (a ++ s) = (cutWhere p s).map fun r => (a ++ r.1, r.2) := by
  induction a with
  | nil =>
    rw [List.nil_append]
    cases cutWhere p s <;> rfl
  | cons x a ih =>
    have hx : ¬p x = true := by simp [ha x List.mem_cons_self]
    rw [List.cons_append, cutWhere, if_neg hx, ih fun y hy => ha y (List.mem_cons_of_mem _ hy),
      Option.map_map]
    rfl

/-! ## The first place -/

/-- What follows another place follows the first place too. -/
theorem suffix_of_cut {u v rest : Str} (h : cut needle (u ++ (needle ++ v)) = some (a, rest)) : v <:+ rest := by
  induction u generalizing a with
  | nil =>
    rw [List.nil_append, cut_self] at h
    cases h
    exact List.suffix_rfl
  | cons x u ih =>
    rw [List.cons_append, cut] at h
    by_cases hp : needle.isPrefixOf (x :: (u ++ (needle ++ v))) = true
    · rw [if_pos hp] at h
      cases h
      have hv : v <:+ x :: (u ++ (needle ++ v)) := ⟨x :: (u ++ needle), by simp⟩
      refine List.suffix_of_suffix_length_le hv (List.drop_suffix _ _) ?_
      · rw [List.length_drop, List.length_cons, List.length_append, List.length_append]
        omega
    · rw [if_neg hp] at h
      obtain ⟨⟨a', rest'⟩, h', heq⟩ := Option.map_eq_some_iff.mp h
      cases heq
      exact ih h'

theorem suffix_of_splitOnce {c : Char} {u v rest : Str} (h : splitOnce c (u ++ c :: v) = some (a, rest)) :
    v <:+ rest := by
  obtain ⟨heq, hc⟩ := splitOnce_eq_some_iff.mp h
  rcases List.append_eq_append_iff.mp heq with ⟨d, rfl, hd⟩ | ⟨d, rfl, hd⟩
  · cases d with
    | nil => exact ⟨[], (List.cons.inj hd).2.symm ▸ rfl⟩
    | cons x d => exact absurd (by simp [← (List.cons.inj hd).1]) hc
  · cases d with
    | nil => exact ⟨[], (List.cons.inj hd).2 ▸ rfl⟩
    | cons x d => exact ⟨d ++ [c], by simp [(List.cons.inj hd).2]⟩

end Str
