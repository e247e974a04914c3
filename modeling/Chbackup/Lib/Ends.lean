import Chbackup.Lib.Text

/-!
# Cutting texts

What trimming leaves at the end of a text, and where a text is cut at a character.
-/

namespace Str

variable {s : Str}

theorem not_suffix_trimEnd (c : Char) (s : Str) : ¬[c] <:+ s.trimEnd c := by
  rw [Str.trimEnd, ← List.reverse_prefix, List.reverse_reverse]
  rintro ⟨rest, hrest⟩
  have hhead : (s.reverse.dropWhile (· = c)).head? = some c := by
    rw [← hrest]
    rfl
  have := List.head?_dropWhile_not (fun x => decide (x = c)) s.reverse
  rw [hhead] at this
  simp at this

theorem trimEnd_eq_self {c : Char} (h : ¬[c] <:+ s) : s.trimEnd c = s := by
  rw [Str.trimEnd]
  cases hs : s.reverse with
  | nil => rw [List.reverse_eq_nil_iff.mp hs]; rfl
  | cons x rest =>
    have hx : x ≠ c := by
      rintro rfl
      refine h (List.reverse_prefix.mp ?_)
      rw [hs]
      exact ⟨rest, rfl⟩
    rw [List.dropWhile_cons_of_neg (by simp [hx]), ← hs, List.reverse_reverse]

/-- What is trimmed is cut off one by one. -/
theorem trimEnd_append_self (c : Char) (s : Str) : Str.trimEnd c (s ++ [c]) = s.trimEnd c := by
  rw [Str.trimEnd, Str.trimEnd, List.reverse_append]
  show ((c :: s.reverse).dropWhile _).reverse = _
  rw [List.dropWhile_cons_of_pos (by simp)]

theorem length_trimEnd_le (c : Char) (s : Str) : (s.trimEnd c).length ≤ s.length := by
  rw [Str.trimEnd, List.length_reverse]
  calc (s.reverse.dropWhile (· = c)).length ≤ s.reverse.length := (List.dropWhile_suffix _).length_le
    _ = s.length := List.length_reverse

theorem mem_of_mem_trimEnd {c x : Char} (h : x ∈ s.trimEnd c) : x ∈ s := by
  rw [Str.trimEnd, List.mem_reverse] at h
  exact List.mem_reverse.mp ((List.dropWhile_suffix _).subset h)

theorem mem_of_mem_trimMatches {c x : Char} (h : x ∈ s.trimMatches c) : x ∈ s :=
  (List.dropWhile_suffix _).subset (mem_of_mem_trimEnd h)

/-- A text is cut at the first occurrence of a character in one way. -/
theorem append_cons_inj {c : Char} {a b t u : Str} (ha : c ∉ a) (hb : c ∉ b)
    (h : a ++ c :: t = b ++ c :: u) : a = b ∧ t = u := by
  have h₁ : splitOnce c (a ++ c :: t) = some (a, t) := splitOnce_eq_some_iff.mpr ⟨rfl, ha⟩
  have h₂ : splitOnce c (a ++ c :: t) = some (b, u) := splitOnce_eq_some_iff.mpr ⟨h, hb⟩
  rw [h₁, Option.some.injEq, Prod.mk.injEq] at h₂
  exact h₂

/-! ## Pieces from the end -/

/-- The last piece is cut off at the last occurrence. -/
theorem rsplitN_append {c : Char} {b : Str} (hb : c ∉ b) (n : Nat) (a : Str) :
    rsplitN (n + 1) c (a ++ c :: b) = b :: rsplitN n c a := by
  have hcut : splitOnce c (a ++ c :: b).reverse = some (b.reverse, a.reverse) :=
    splitOnce_eq_some_iff.mpr ⟨by simp, by simpa using hb⟩
  rw [rsplitN, splitN, hcut]
  simp [rsplitN]

theorem rsplitN_of_notMem {c : Char} (hs : c ∉ s) (n : Nat) : rsplitN n c s = [s] := by
  cases n with
  | zero => simp [rsplitN, splitN]
  | succ n =>
    have hcut : splitOnce c s.reverse = none := splitOnce_eq_none_iff.mpr (by simpa using hs)
    rw [rsplitN, splitN, hcut]
    simp

/-- A text is cut at the last occurrence of a character in one way. -/
theorem append_cons_inj_right {c : Char} {a b t u : Str} (ht : c ∉ t) (hu : c ∉ u)
    (h : a ++ c :: t = b ++ c :: u) : a = b ∧ t = u := by
  have hreverse : t.reverse ++ c :: a.reverse = u.reverse ++ c :: b.reverse := by
    simpa using congrArg List.reverse h
  obtain ⟨htu, hab⟩ := append_cons_inj (by simpa using ht) (by simpa using hu) hreverse
  exact ⟨List.reverse_injective hab, List.reverse_injective htu⟩

/-- The last occurrence of a character. -/
theorem exists_last {c : Char} (hs : c ∈ s) : ∃ a b, s = a ++ c :: b ∧ c ∉ b := by
  obtain ⟨b, a, hcut⟩ : ∃ b a, splitOnce c s.reverse = some (b, a) := by
    cases hcut : splitOnce c s.reverse with
    | none => exact absurd (List.mem_reverse.mpr hs) (splitOnce_eq_none_iff.mp hcut)
    | some p => exact ⟨p.1, p.2, rfl⟩
  obtain ⟨heq, hb⟩ := splitOnce_eq_some_iff.mp hcut
  refine ⟨a.reverse, b.reverse, ?_, by simpa using hb⟩
  rw [← List.reverse_reverse s, heq]
  simp

/-! ## Decimal numbers -/

theorem parseUnsigned_lt {bits n : Nat} (h : parseUnsigned bits s = some n) : n < 2 ^ bits := by
  unfold parseUnsigned at h
  dsimp only at h
  split_ifs at h with hcond
  cases h
  exact hcond.2.2

theorem parseUnsigned_toDigits {bits n : Nat} (h : n < 2 ^ bits) :
    parseUnsigned bits (Nat.toDigits 10 n) = some n := by
  have hdigit : ∀ c ∈ Nat.toDigits 10 n, c.isDigit = true := fun c hc =>
    Nat.isDigit_of_mem_toDigits (by decide) (by decide) hc
  have hvalue : (Nat.toDigits 10 n).foldl (fun n c => 10 * n + (c.toNat - '0'.toNat)) 0 = n := by
    have hten := @Nat.ofDigitChars_ten_toDigits n
    rwa [Nat.ofDigitChars_eq_foldl] at hten
  have hne := @Nat.toDigits_ne_nil n 10
  cases hcs : Nat.toDigits 10 n with
  | nil => exact absurd hcs hne
  | cons c cs =>
    have hc : c ≠ '+' := by
      rintro rfl
      have := hdigit '+' (by rw [hcs]; exact List.mem_cons_self)
      cases this
    rw [hcs] at hdigit hvalue
    rw [parseUnsigned]
    · simp only [hvalue]
      exact if_pos ⟨List.cons_ne_nil c cs, List.all_eq_true.mpr hdigit, h⟩
    · intro rest heq
      cases heq
      exact hc rfl

end Str
