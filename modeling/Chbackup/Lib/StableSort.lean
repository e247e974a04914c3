import Mathlib

/-!
# Stable sorting and filtering

Insertion sort keeps the order of elements that compare as equal, so it does not matter whether a list
is filtered before or after it is sorted.
-/

namespace List

variable {α : Type} {r : α → α → Prop} [DecidableRel r]

/-- Inserting into a sorted list and filtering. -/
theorem filter_orderedInsert [IsTrans α r] (p : α → Bool) (a : α) {l : List α} (hl : l.Pairwise r) :
    (l.orderedInsert r a).filter p = if p a then (l.filter p).orderedInsert r a else l.filter p := by
  induction l with
  | nil => cases ha : p a <;> simp [ha]
  | cons b l ih =>
    obtain ⟨hb, hl⟩ := pairwise_cons.mp hl
    by_cases hab : r a b
    · rw [orderedInsert_cons_of_le r l hab]
      cases ha : p a with
      | false => simp [ha]
      | true =>
        -- what is left of the list after `b` stands after `a` as well
        have hafter : ∀ x ∈ l.filter p, r a x := fun x hx =>
          IsTrans.trans a b x hab (hb x (mem_of_mem_filter hx))
        have hinsert : (l.filter p).orderedInsert r a = a :: l.filter p := by
          cases hf : l.filter p with
          | nil => rfl
          | cons x xs =>
            rw [hf] at hafter
            exact orderedInsert_cons_of_le r xs (hafter x mem_cons_self)
        cases hpb : p b with
        | false => simp [ha, hpb, hinsert]
        | true => simp [ha, hpb, hab]
    · rw [orderedInsert_of_not_le r l hab]
      cases hpb : p b with
      | false => rw [filter_cons_of_neg (by simp [hpb]), filter_cons_of_neg (by simp [hpb]), ih hl]
      | true =>
        rw [filter_cons_of_pos hpb, filter_cons_of_pos hpb, ih hl]
        cases ha : p a with
        | false => simp
        | true => simp [hab]

/-- **Filtering commutes with sorting.** -/
theorem filter_insertionSort [IsTrans α r] [Std.Total r] (p : α → Bool) (l : List α) :
    (l.insertionSort r).filter p = (l.filter p).insertionSort r := by
  induction l with
  | nil => rfl
  | cons a l ih =>
    rw [insertionSort_cons, filter_orderedInsert p a (pairwise_insertionSort r l), ih]
    cases ha : p a with
    | false => simp [ha]
    | true => simp [ha]

end List
