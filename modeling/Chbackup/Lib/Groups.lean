import Mathlib
import Chbackup.Lib.Tiles

/-!
# Cutting a list into groups of one size

The groups that a list is cut into from its front are full, but for the last one.  What has been cut so
far and what is left over are enough to go on: appending to the list cuts what is left over together
with what is new.
-/

namespace Groups

variable {α : Type}

/-- The groups of full size. -/
def full (c : Nat) (xs : List α) : List (List α) :=
  (List.range (xs.length / c)).map fun i => (xs.drop (i * c)).take c

/-- What is left over. -/
def rest (c : Nat) (xs : List α) : List α := xs.drop (xs.length / c * c)

/-- All groups, of which the last one may be smaller. -/
def groups (c : Nat) (xs : List α) : List (List α) := full c xs ++ if rest c xs = [] then [] else [rest c xs]

variable {c : Nat} {xs ys : List α}

theorem full_of_lt (h : xs.length < c) : full c xs = [] := by
  rw [full, Nat.div_eq_of_lt h]
  rfl

theorem rest_of_lt (h : xs.length < c) : rest c xs = xs := by
  rw [rest, Nat.div_eq_of_lt h, Nat.zero_mul, List.drop_zero]

@[simp] theorem full_nil (c : Nat) : full c ([] : List α) = [] := by
  rw [full, List.length_nil, Nat.zero_div]
  rfl

@[simp] theorem rest_nil (c : Nat) : rest c ([] : List α) = [] := List.drop_nil

/-- The first group is cut off. -/
theorem full_of_le (hc : 0 < c) (h : c ≤ xs.length) : full c xs = xs.take c :: full c (xs.drop c) := by
  have hdiv : xs.length / c = (xs.drop c).length / c + 1 := by
    rw [List.length_drop, ← Nat.add_div_right _ hc, Nat.sub_add_cancel h]
  rw [full, hdiv, List.range_succ_eq_map, List.map_cons, List.map_map, Nat.zero_mul, List.drop_zero, full]
  congr 1
  refine List.map_congr_left fun i _ => ?_
  rw [Function.comp_apply, List.drop_drop, Nat.succ_mul, Nat.add_comm]

theorem rest_of_le (hc : 0 < c) (h : c ≤ xs.length) : rest c xs = rest c (xs.drop c) := by
  have hdiv : xs.length / c = (xs.drop c).length / c + 1 := by
    rw [List.length_drop, ← Nat.add_div_right _ hc, Nat.sub_add_cancel h]
  rw [rest, hdiv, rest, List.drop_drop, Nat.succ_mul, Nat.add_comm]

theorem length_rest (c : Nat) (xs : List α) : (rest c xs).length = xs.length % c := by
  rw [rest, List.length_drop, Nat.mod_eq_sub_div_mul]

theorem length_of_mem_full {m : List α} (hm : m ∈ full c xs) : m.length = c := by
  obtain ⟨i, hi, rfl⟩ := List.mem_map.mp hm
  have hle : (i + 1) * c ≤ xs.length :=
    (Nat.mul_le_mul_right c (List.mem_range.mp hi)).trans (Nat.div_mul_le_self _ _)
  rw [Nat.add_mul, Nat.one_mul] at hle
  rw [List.length_take, List.length_drop]
  omega

/-- The groups read the list. -/
theorem flatten_full_append_rest (hc : 0 < c) (xs : List α) : (full c xs).flatten ++ rest c xs = xs := by
  induction hn : xs.length using Nat.strongRecOn generalizing xs with
  | _ n ih =>
    by_cases h : xs.length < c
    · rw [full_of_lt h, rest_of_lt h, List.flatten_nil, List.nil_append]
    · have hle : c ≤ xs.length := Nat.le_of_not_lt h
      have hdrop : (xs.drop c).length < n := by
        rw [List.length_drop]
        omega
      rw [full_of_le hc hle, rest_of_le hc hle, List.flatten_cons, List.append_assoc, ih _ hdrop _ rfl,
        List.take_append_drop]

theorem flatten_groups (hc : 0 < c) (xs : List α) : (groups c xs).flatten = xs := by
  have h := flatten_full_append_rest hc xs
  rw [groups]
  split_ifs with hnil
  · rw [hnil, List.append_nil] at h
    rwa [List.append_nil]
  · rwa [List.flatten_append, List.flatten_singleton]

/-- **Appending goes on from what is left over.** -/
theorem full_append (hc : 0 < c) (xs ys : List α) :
    full c (xs ++ ys) = full c xs ++ full c (rest c xs ++ ys) ∧ rest c (xs ++ ys) = rest c (rest c xs ++ ys) := by
  induction hn : xs.length using Nat.strongRecOn generalizing xs with
  | _ n ih =>
    by_cases h : xs.length < c
    · rw [full_of_lt h, rest_of_lt h]
      exact ⟨rfl, rfl⟩
    · have hle : c ≤ xs.length := Nat.le_of_not_lt h
      have hle' : c ≤ (xs ++ ys).length := by
        rw [List.length_append]
        omega
      have hdrop : (xs.drop c).length < n := by
        rw [List.length_drop]
        omega
      obtain ⟨hfull, hrest⟩ := ih _ hdrop _ rfl
      rw [full_of_le hc hle, rest_of_le hc hle, full_of_le hc hle', rest_of_le hc hle',
        List.drop_append_of_le_length hle, List.take_append_of_le_length hle, hfull, hrest]
      exact ⟨rfl, rfl⟩

theorem groups_eq_nil (h : groups c xs = []) (hc : 0 < c) : xs = [] := by
  rw [← flatten_groups hc xs, h]
  rfl

/-- No group is empty. -/
theorem nil_notMem_groups (hc : 0 < c) : [] ∉ groups c xs := by
  intro h
  rcases List.mem_append.mp h with h | h
  · have hlength := length_of_mem_full h
    rw [List.length_nil] at hlength
    omega
  · split_ifs at h with hnil
    · cases h
    · exact hnil (List.mem_singleton.mp h).symm

theorem length_of_mem_dropLast_groups {m : List α} (hm : m ∈ (groups c xs).dropLast) : m.length = c := by
  rw [groups] at hm
  split_ifs at hm
  · rw [List.append_nil] at hm
    exact length_of_mem_full (List.dropLast_subset _ hm)
  · rw [List.dropLast_concat] at hm
    exact length_of_mem_full hm

/-- The groups are the pieces of the interval of the positions. -/
theorem groups_eq_map_pieces (hc : 0 < c) (xs : List α) :
    groups c xs = (Tiles.pieces xs.length c).map fun r => (xs.drop r.1).take (r.2 - r.1) := by
  have hpiece : ∀ i, (xs.drop (i * c)).take c =
      (xs.drop (Tiles.piece xs.length c i).1).take ((Tiles.piece xs.length c i).2 - (Tiles.piece xs.length c i).1) := by
    intro i
    have hsucc : (i + 1) * c = i * c + c := by rw [Nat.add_mul, Nat.one_mul]
    show (xs.drop (i * c)).take c = (xs.drop (i * c)).take (min ((i + 1) * c) xs.length - i * c)
    by_cases h : (i + 1) * c ≤ xs.length
    · rw [Nat.min_eq_left h, hsucc, Nat.add_sub_cancel_left]
    · rw [Nat.min_eq_right (by omega), List.take_of_length_le, List.take_of_length_le]
      · rw [List.length_drop]
      · rw [List.length_drop]
        omega
  have hmod := Nat.div_add_mod xs.length c
  have hcomm := Nat.mul_comm c (xs.length / c)
  have hfull : full c xs = (List.range (xs.length / c)).map fun i => (xs.drop (i * c)).take c := rfl
  rw [Tiles.pieces, List.map_map, groups, Tiles.divCeil, hfull]
  split_ifs with hrest hdiv hdiv
  · rw [rest, List.drop_eq_nil_iff] at hrest
    omega
  · rw [List.append_nil]
    exact List.map_congr_left fun i _ => hpiece i
  · rw [List.range_succ, List.map_append]
    refine congrArg₂ (· ++ ·) (List.map_congr_left fun i _ => hpiece i) ?_
    rw [List.map_singleton, Function.comp_apply, ← hpiece, rest, List.take_of_length_le]
    rw [List.length_drop]
    have := Nat.mod_lt xs.length hc
    omega
  · rw [rest, List.drop_eq_nil_iff] at hrest
    omega

end Groups
