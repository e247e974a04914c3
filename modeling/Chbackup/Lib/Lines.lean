import Chbackup.Lib.Ends

/-!
# Lines and white space

What stands in the pieces of a text, the lines of a text that ends every line, and the white space
that trimming takes off.
-/

namespace Str

variable {s t : Str} {c x : Char}

/-! ## Pieces -/

/-- A piece has characters of the text only, and not the one it was cut at. -/
theorem mem_of_mem_splitOn {piece : Str} (h : piece ∈ s.splitOn x) (hc : c ∈ piece) : c ∈ s ∧ c ≠ x := by
  induction s generalizing piece with
  | nil =>
    rw [List.mem_singleton.mp h] at hc
    exact absurd hc List.not_mem_nil
  | cons y s ih =>
    have hne := List.splitOn_ne_nil x s
    rw [List.splitOn_cons_eq_if_modifyHead] at h
    split_ifs at h with hy
    · rcases List.mem_cons.mp h with rfl | h
      · exact absurd hc List.not_mem_nil
      · exact ⟨List.mem_cons_of_mem _ (ih h hc).1, (ih h hc).2⟩
    · cases hs : s.splitOn x with
      | nil => exact absurd hs hne
      | cons first rest =>
        rw [hs] at h ih
        rw [List.modifyHead_cons] at h
        rcases List.mem_cons.mp h with rfl | h
        · rcases List.mem_cons.mp hc with rfl | hc
          · exact ⟨List.mem_cons_self, fun heq => hy (by simp [heq])⟩
          · have := ih List.mem_cons_self hc
            exact ⟨List.mem_cons_of_mem _ this.1, this.2⟩
        · have := ih (List.mem_cons_of_mem _ h) hc
          exact ⟨List.mem_cons_of_mem _ this.1, this.2⟩

/-- A text has at most one piece more than it has characters, and no piece is longer than it. -/
theorem length_splitOn_le (x : Char) (s : Str) :
    (s.splitOn x).length ≤ s.length + 1 ∧ ∀ piece ∈ s.splitOn x, piece.length ≤ s.length := by
  induction s with
  | nil =>
    refine ⟨Nat.le_refl _, fun piece hpiece => ?_⟩
    obtain rfl := List.mem_singleton.mp hpiece
    exact Nat.le_refl _
  | cons y s ih =>
    obtain ⟨hcount, hpieces⟩ := ih
    rw [List.splitOn_cons_eq_if_modifyHead]
    split_ifs with hy
    · refine ⟨by rw [List.length_cons, List.length_cons]; omega, fun piece hpiece => ?_⟩
      rcases List.mem_cons.mp hpiece with rfl | hpiece
      · exact Nat.zero_le _
      · exact (hpieces piece hpiece).trans (Nat.le_succ _)
    · refine ⟨by rw [List.length_modifyHead, List.length_cons]; omega, fun piece hpiece => ?_⟩
      cases hs : s.splitOn x with
      | nil => exact absurd hs (List.splitOn_ne_nil x s)
      | cons first rest =>
        rw [hs] at hpiece hpieces
        rw [List.modifyHead_cons] at hpiece
        rcases List.mem_cons.mp hpiece with rfl | hpiece
        · have := hpieces first List.mem_cons_self
          rw [List.length_cons, List.length_cons]
          omega
        · have := hpieces piece (List.mem_cons_of_mem _ hpiece)
          rw [List.length_cons]
          omega

/-- A text of ended lines is cut into them. -/
theorem splitOn_flatMap {ls : List Str} (h : ∀ l ∈ ls, x ∉ l) :
    (ls.flatMap fun l => l ++ [x]).splitOn x = ls ++ [[]] := by
  induction ls with
  | nil => rfl
  | cons l ls ih =>
    rw [List.flatMap_cons, List.append_assoc, List.singleton_append, List.splitOn_append_cons_self,
      List.splitOn_eq_singleton (h l List.mem_cons_self), ih fun l' hl' => h l' (List.mem_cons_of_mem _ hl')]
    rfl

/-! ## Lines -/

theorem stripSuffix?_of_notMem (h : x ∉ s) : stripSuffix? [x] s = none := by
  rw [stripSuffix?, if_neg]
  intro hsuffix
  exact h ((List.isSuffixOf_iff_suffix.mp hsuffix).subset (List.mem_singleton_self x))

theorem length_stripSuffix?_le (post line : Str) :
    ((stripSuffix? post line).getD line).length ≤ line.length := by
  rw [stripSuffix?]
  split_ifs
  · rw [Option.getD_some, List.length_take]
    omega
  · exact Nat.le_refl _

/-- A text has at most one line more than it has characters, and no line is longer than it. -/
theorem length_lines_le (s : Str) :
    (lines s).length ≤ s.length + 1 ∧ ∀ line ∈ lines s, line.length ≤ s.length := by
  obtain ⟨hcount, hpieces⟩ := length_splitOn_le '\n' s
  rw [lines]
  constructor
  · have hlast : ((s.splitOn '\n').getLast?.toList.filter (· ≠ [])).length ≤ 1 := by
      refine (List.length_filter_le _ _).trans ?_
      cases (s.splitOn '\n').getLast? <;> simp
    have hne : 0 < (s.splitOn '\n').length := List.length_pos_iff.mpr (List.splitOn_ne_nil _ _)
    rw [List.length_append, List.length_map, List.length_dropLast]
    omega
  · intro line hline
    rcases List.mem_append.mp hline with hline | hline
    · obtain ⟨piece, hpiece, rfl⟩ := List.mem_map.mp hline
      exact (length_stripSuffix?_le _ _).trans (hpieces _ (List.mem_of_mem_dropLast hpiece))
    · obtain ⟨hline, -⟩ := List.mem_filter.mp hline
      exact hpieces _ (List.mem_of_getLast? (Option.mem_toList.mp hline))

/-- **The lines of a text of ended lines.** -/
theorem lines_flatMap {ls : List Str} (h : ∀ l ∈ ls, '\n' ∉ l ∧ '\r' ∉ l) :
    lines (ls.flatMap fun l => l ++ ['\n']) = ls := by
  rw [lines, splitOn_flatMap fun l hl => (h l hl).1]
  rw [List.dropLast_concat, List.getLast?_concat]
  have hmap : (ls.map fun line => (stripSuffix? ['\r'] line).getD line) = ls := by
    conv_rhs => rw [← List.map_id ls]
    refine List.map_congr_left fun l hl => ?_
    rw [stripSuffix?_of_notMem (h l hl).2]
    rfl
  rw [hmap]
  exact List.append_nil ls

/-- A line has characters of the text only, and no line feed. -/
theorem mem_of_mem_lines {l : Str} (h : l ∈ lines s) (hc : c ∈ l) : c ∈ s ∧ c ≠ '\n' := by
  rw [lines] at h
  rcases List.mem_append.mp h with h | h
  · obtain ⟨piece, hpiece, rfl⟩ := List.mem_map.mp h
    refine mem_of_mem_splitOn (List.mem_of_mem_dropLast hpiece) ?_
    rw [stripSuffix?] at hc
    split_ifs at hc with hend
    · exact List.mem_of_mem_take hc
    · exact hc
  · have hlast := (List.mem_filter.mp h).1
    exact mem_of_mem_splitOn (List.mem_of_getLast? (Option.mem_toList.mp hlast)) hc

/-! ## White space -/

theorem mem_of_mem_trim (h : c ∈ s.trim) : c ∈ s := by
  rw [trim, List.mem_reverse] at h
  exact (List.dropWhile_suffix _).subset (List.mem_reverse.mp ((List.dropWhile_suffix _).subset h))

/-- The first and the last character of a text are no white space. -/
structure Trimmed (s : Str) : Prop where
  first : ∀ c ∈ s.head?, isWhitespace c = false
  last : ∀ c ∈ s.getLast?, isWhitespace c = false

theorem dropWhile_eq_self {p : Char → Bool} (h : ∀ c ∈ s.head?, p c = false) : s.dropWhile p = s := by
  cases s with
  | nil => rfl
  | cons c s => rw [List.dropWhile_cons_of_neg]; simp [h c rfl]

theorem Trimmed.trim_eq (h : Trimmed s) : s.trim = s := by
  rw [trim, trimStart, dropWhile_eq_self h.first, dropWhile_eq_self, List.reverse_reverse]
  rw [List.head?_reverse]
  exact h.last

theorem head?_dropWhile {p : Char → Bool} (hc : c ∈ (s.dropWhile p).head?) : p c = false := by
  have := List.head?_dropWhile_not p s
  rw [Option.mem_def.mp hc] at this
  simpa using this

/-- Trimming leaves a trimmed text. -/
theorem trimmed_trim (s : Str) : Trimmed s.trim := by
  constructor
  · intro c hc
    -- what is dropped at the end leaves the first character in place
    rw [trim, List.head?_reverse] at hc
    obtain ⟨dropped, hdropped⟩ := @List.dropWhile_suffix _ (trimStart s).reverse isWhitespace
    have hfirst := congrArg List.getLast? hdropped
    rw [List.getLast?_append, Option.mem_def.mp hc, List.getLast?_reverse, trimStart] at hfirst
    exact head?_dropWhile (Option.mem_def.mpr hfirst.symm)
  · intro c hc
    rw [trim, List.getLast?_reverse] at hc
    exact head?_dropWhile hc

/-- A text without white space is trimmed. -/
theorem trimmed_of_all (h : ∀ c ∈ s, isWhitespace c = false) : Trimmed s :=
  ⟨fun c hc => h c (List.mem_of_mem_head? hc), fun c hc => h c (List.mem_of_getLast? hc)⟩

/-- A text that starts without white space and ends trimmed is trimmed. -/
theorem Trimmed.append (hs : ∀ c ∈ s, isWhitespace c = false) (hne : s ≠ []) (ht : Trimmed t) :
    Trimmed (s ++ t) := by
  constructor
  · intro c hc
    rw [List.head?_append_of_ne_nil _ hne] at hc
    exact hs c (List.mem_of_mem_head? hc)
  · intro c hc
    rw [List.getLast?_append] at hc
    cases hlast : t.getLast? with
    | none =>
      rw [hlast] at hc
      exact hs c (List.mem_of_getLast? hc)
    | some d =>
      rw [hlast] at hc
      exact ht.last c (hlast.trans hc)

/-! ## Decimal numbers -/

theorem isWhitespace_of_isDigit (h : c.isDigit = true) : isWhitespace c = false := by
  rw [Char.isDigit, Bool.and_eq_true, decide_eq_true_eq, decide_eq_true_eq] at h
  have hlow : 48 ≤ c.toNat := h.1
  have hhigh : c.toNat ≤ 57 := h.2
  rw [isWhitespace]
  simp only [Bool.or_eq_false_iff, Bool.and_eq_false_iff, decide_eq_false_iff_not]
  omega

theorem isDigit_of_mem_toDigits {n : Nat} (h : c ∈ Nat.toDigits 10 n) : c.isDigit = true :=
  Nat.isDigit_of_mem_toDigits (by decide) (by decide) h

theorem trim_toDigits (n : Nat) : trim (Nat.toDigits 10 n) = Nat.toDigits 10 n :=
  (trimmed_of_all fun _ hc => isWhitespace_of_isDigit (isDigit_of_mem_toDigits hc)).trim_eq

theorem notMem_toDigits (h : x.isDigit = false) (n : Nat) : x ∉ Nat.toDigits 10 n := by
  intro hx
  rw [isDigit_of_mem_toDigits hx] at h
  cases h

end Str
