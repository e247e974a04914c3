import Mathlib

/-!
# Consecutive intervals

Lists of half-open intervals of natural numbers that follow each other without a gap, and the
division of an interval into pieces of one size.  An interval is the pair of its bounds.
-/

namespace Tiles

/-- Consecutive intervals, none of them empty, that fill `[a, b)`. -/
def Fill : Nat → Nat → List (Nat × Nat) → Prop
  | a, b, [] => a = b
  | a, b, r :: rest => r.1 = a ∧ r.1 < r.2 ∧ Fill r.2 b rest

variable {a b : Nat} {rs : List (Nat × Nat)}

theorem Fill.le (h : Fill a b rs) : a ≤ b := by
  induction rs generalizing a with
  | nil => exact Nat.le_of_eq h
  | cons r rest ih =>
    obtain ⟨hstart, hlt, hrest⟩ := h
    have := ih hrest
    omega

/-- The intervals that fill `[a, b)` cover it and nothing else. -/
theorem Fill.covers (h : Fill a b rs) (i : Nat) :
    (a ≤ i ∧ i < b) ↔ ∃ r ∈ rs, r.1 ≤ i ∧ i < r.2 := by
  induction rs generalizing a with
  | nil =>
    have hab : a = b := h
    simp only [List.not_mem_nil, false_and, exists_false, iff_false]
    omega
  | cons r rest ih =>
    obtain ⟨hstart, hlt, hrest⟩ := h
    have hle := hrest.le
    simp only [List.mem_cons, exists_eq_or_imp]
    rw [← ih hrest]
    omega

theorem Fill.start_le (h : Fill a b rs) : ∀ r ∈ rs, a ≤ r.1 := by
  induction rs generalizing a with
  | nil => exact fun r hr => absurd hr List.not_mem_nil
  | cons r rest ih =>
    obtain ⟨hstart, hlt, hrest⟩ := h
    rw [List.forall_mem_cons]
    refine ⟨by omega, fun s hs => ?_⟩
    have := ih hrest s hs
    omega

/-- No two of them meet. -/
theorem Fill.pairwise_disjoint (h : Fill a b rs) :
    rs.Pairwise fun r s => Disjoint (Set.Ico r.1 r.2) (Set.Ico s.1 s.2) := by
  induction rs generalizing a with
  | nil => exact List.Pairwise.nil
  | cons r rest ih =>
    obtain ⟨-, -, hrest⟩ := h
    refine List.Pairwise.cons (fun s hs => ?_) (ih hrest)
    have hle := hrest.start_le s hs
    rw [Set.disjoint_left]
    rintro i ⟨-, hi⟩ ⟨hi', -⟩
    omega

/-! ## Pieces of one size -/

/-- Division rounding up, as the quotient and the remainder give it. -/
def divCeil (n d : Nat) : Nat := if 0 < n % d then n / d + 1 else n / d

theorem lt_divCeil_iff {n d : Nat} (hd : 0 < d) (i : Nat) : i < divCeil n d ↔ i * d < n := by
  have hdiv := Nat.div_add_mod n d
  have hmod := Nat.mod_lt n hd
  rw [divCeil]
  split_ifs with hr
  · rw [Nat.lt_succ_iff, Nat.le_div_iff_mul_le hd]
    constructor
    · intro hle
      -- a multiple of the divisor is not the number itself, which leaves a remainder
      refine lt_of_le_of_ne hle fun heq => ?_
      rw [← heq, Nat.mul_mod_left] at hr
      exact absurd hr (Nat.lt_irrefl 0)
    · exact Nat.le_of_lt
  · have hzero : n % d = 0 := by omega
    rw [hzero, Nat.add_zero, Nat.mul_comm] at hdiv
    conv_rhs => rw [← hdiv]
    exact (Nat.mul_lt_mul_right hd).symm

theorem divCeil_le_iff {n d : Nat} (hd : 0 < d) (k : Nat) : divCeil n d ≤ k ↔ n ≤ k * d := by
  have h := lt_divCeil_iff (n := n) hd k
  omega

theorem le_divCeil_mul (n : Nat) {d : Nat} (hd : 0 < d) : n ≤ divCeil n d * d :=
  (divCeil_le_iff hd _).mp (Nat.le_refl _)

/-- The `i`th piece of size `d` of `[0, n)`. -/
def piece (n d i : Nat) : Nat × Nat := (i * d, min ((i + 1) * d) n)

/-- All pieces, in order. -/
def pieces (n d : Nat) : List (Nat × Nat) := (List.range (divCeil n d)).map (piece n d)

theorem fill_pieces_from {n d : Nat} (hd : 0 < d) (k : Nat) (count : Nat) :
    k + count = divCeil n d → 0 < count →
      Fill (k * d) n ((List.range' k count).map (piece n d)) := by
  induction count generalizing k with
  | zero => exact fun _ h => absurd h (Nat.lt_irrefl 0)
  | succ count ih =>
    intro hcount _
    have hlt : k * d < n := (lt_divCeil_iff hd k).mp (by omega)
    rw [List.range'_succ, List.map_cons]
    refine ⟨rfl, ?_, ?_⟩
    · show k * d < min ((k + 1) * d) n
      rw [Nat.add_mul]
      omega
    · show Fill (min ((k + 1) * d) n) n _
      by_cases hlast : count = 0
      · subst hlast
        have hle := le_divCeil_mul n hd
        rw [← hcount] at hle
        rw [Nat.min_eq_right hle]
        rfl
      · have hnext : (k + 1) * d < n := (lt_divCeil_iff hd (k + 1)).mp (by omega)
        rw [Nat.min_eq_left (Nat.le_of_lt hnext)]
        exact ih (k + 1) (by omega) (by omega)

/-- **The pieces of an interval fill it.** -/
theorem fill_pieces {n d : Nat} (hd : 0 < d) (hn : 0 < n) : Fill 0 n (pieces n d) := by
  have hpos : 0 < divCeil n d := (lt_divCeil_iff hd 0).mpr (by omega)
  have h := fill_pieces_from (n := n) hd 0 (divCeil n d) (Nat.zero_add _) hpos
  rwa [Nat.zero_mul, ← List.range_eq_range'] at h

theorem size_le_of_mem_pieces {n d : Nat} {r : Nat × Nat} (h : r ∈ pieces n d) : r.2 - r.1 ≤ d := by
  obtain ⟨i, -, rfl⟩ := List.mem_map.mp h
  show min ((i + 1) * d) n - i * d ≤ d
  rw [Nat.add_mul]
  omega

/-- Every piece but the last has the full size. -/
theorem size_eq_of_mem_dropLast {n d : Nat} (hd : 0 < d) {r : Nat × Nat}
    (h : r ∈ (pieces n d).dropLast) : r.2 - r.1 = d := by
  rw [pieces, ← List.map_dropLast, List.mem_map] at h
  obtain ⟨i, hi, rfl⟩ := h
  rw [List.dropLast_eq_take, List.take_range, List.mem_range, List.length_range] at hi
  have hnext : (i + 1) * d < n := (lt_divCeil_iff hd (i + 1)).mp (by omega)
  show min ((i + 1) * d) n - i * d = d
  rw [Nat.min_eq_left (Nat.le_of_lt hnext), Nat.add_mul]
  omega

end Tiles
