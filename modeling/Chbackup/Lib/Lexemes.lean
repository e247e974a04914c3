import Chbackup.Lib.Quoting
import Chbackup.Lib.Search

/-!
# SQL statements as lexemes

A statement as the sequence of what its lexer reads, each lexeme as it is written: with the quotes of a
quoted text and with the comments and white space between.
-/

namespace Sql

inductive LexemeKind where
  | space
  | comment
  | word
  | number
  | identifier
  | literal
  | symbol
  deriving DecidableEq

/-- What follows an opening quote is a quoted text up to its closing quote: a backslash takes the next
character with it, and two quotes stand for one. -/
def closes (q : Char) : Str → Bool
  | [] => false
  | [c] => c = q
  | c :: d :: s =>
    if c = '\\' then closes q s
    else if c = q then d = q && closes q s
    else closes q (d :: s)

/-- A text is a comment: it ends where it says. -/
def isComment (s : Str) : Bool :=
  (['-', '-'].isPrefixOf s && Str.cut ['\n'] s = some (s.dropLast, [])) ||
    (['/', '*'].isPrefixOf s && Str.cut ['*', '/'] (s.drop 2) = some ((s.drop 2).dropLast.dropLast, []))

/-- What the lexemes of a kind look like. -/
def LexemeKind.admits : LexemeKind → Str → Bool
  | space, s => !s.isEmpty && s.all Str.isWhitespace
  | comment, s => isComment s
  | word, c :: s => isWordStart c && s.all isWordChar
  | number, c :: s => c.isDigit && s.all fun d => isWordChar d || d = '.'
  | identifier, c :: s => (c = identifierQuote || c = '"') && closes c s
  | literal, c :: s => c = literalQuote && closes c s
  | symbol, [c] => !Str.isWhitespace c && !isWordChar c && c ≠ identifierQuote && c ≠ '"' && c ≠ literalQuote
  | _, _ => false

/-- A lexeme as it is written. -/
structure Lexeme where
  kind : LexemeKind
  text : Str
  proper : kind.admits text = true

/-- Lexemes one after the other. -/
def textOf (lexemes : List Lexeme) : Str := lexemes.flatMap Lexeme.text

/-- White space and comments are passed over. -/
def Lexeme.isGap (l : Lexeme) : Bool := l.kind = .space || l.kind = .comment

/-- What may stand between two lexemes. -/
structure Gap where
  lexemes : List Lexeme
  blank : lexemes.all Lexeme.isGap = true

def Gap.text (g : Gap) : Str := textOf g.lexemes

def Gap.comments (g : Gap) : List Str := (g.lexemes.filter fun l => l.kind = .comment).map Lexeme.text

/-- The lexemes begin, after a gap, with a literal. -/
def startsWithLiteral (lexemes : List Lexeme) : Bool :=
  (lexemes.dropWhile Lexeme.isGap).head?.any fun l => l.kind = .literal

/-- The lexemes are one argument of a call, inside of `depth` brackets: the brackets close, and no comma stands
outside of them. -/
def isSingle : Nat → List Lexeme → Bool
  | depth, [] => depth = 0
  | depth, l :: ls =>
    if l.text = ['('] ∨ l.text = ['['] then isSingle (depth + 1) ls
    else if l.text = [')'] ∨ l.text = [']'] then depth ≠ 0 && isSingle (depth - 1) ls
    else if l.text = [','] then depth ≠ 0 && isSingle depth ls
    else isSingle depth ls

/-- A text begins with a character of a word. -/
def beginsWord (s : Str) : Bool := s.head?.any isWordChar

/-- A text ends with a character of a word. -/
def endsWord (s : Str) : Bool := s.getLast?.any isWordChar

/-- No word runs from one text into the one that follows it. -/
def standApart (s t : Str) : Bool := !(endsWord s && beginsWord t)

/-- A literal, without its quotes. -/
structure Literal where
  raw : Str
  closed : closes literalQuote (raw ++ [literalQuote]) = true

/-! ## Where a lexeme begins -/

theorem Lexeme.ne_nil (l : Lexeme) : l.text ≠ [] := by
  have h := l.proper
  rintro hnil
  rw [hnil] at h
  cases hk : l.kind <;> rw [hk] at h <;> exact absurd h (by decide)

/-- A word consists of the characters of words. -/
theorem Lexeme.all_isWordChar {l : Lexeme} (h : l.kind = .word) : l.text.all isWordChar = true := by
  have hproper := l.proper
  obtain ⟨c, t, hc⟩ := List.exists_cons_of_ne_nil l.ne_nil
  rw [h, hc, LexemeKind.admits, Bool.and_eq_true] at hproper
  rw [hc, List.all_cons, Bool.and_eq_true]
  refine ⟨?_, hproper.2⟩
  have hstart := hproper.1
  simp only [isWordStart, Bool.or_eq_true, decide_eq_true_eq] at hstart
  simp only [isWordChar, Char.isAlphanum, Bool.or_eq_true, decide_eq_true_eq]
  exact hstart.imp_left .inl

theorem isComment_head {c : Char} {s : Str} (h : isComment (c :: s) = true) : c = '-' ∨ c = '/' := by
  simp only [isComment, Bool.or_eq_true, Bool.and_eq_true, List.isPrefixOf_iff_prefix] at h
  rcases h with ⟨h, -⟩ | ⟨h, -⟩
  · exact .inl (List.cons_prefix_cons.mp h).1.symm
  · exact .inr (List.cons_prefix_cons.mp h).1.symm

/-- A gap does not begin with a quote. -/
theorem Lexeme.head_of_isGap {l : Lexeme} (h : l.isGap = true) {c : Char} {s : Str} (hc : l.text = c :: s) :
    c ≠ literalQuote := by
  have hproper := l.proper
  rw [hc] at hproper
  rintro rfl
  simp only [Lexeme.isGap, Bool.or_eq_true, decide_eq_true_eq] at h
  rcases h with h | h
  · rw [h, LexemeKind.admits, Bool.and_eq_true, List.all_cons, Bool.and_eq_true] at hproper
    exact absurd hproper.2.1 (by decide)
  · rw [h] at hproper
    rcases isComment_head hproper with h | h <;> exact absurd h (by decide)

theorem isWhitespace_of_isWordChar {c : Char} (h : isWordChar c = true) : Str.isWhitespace c = false := by
  rw [Bool.eq_false_iff]
  intro hspace
  simp only [Str.isWhitespace, Bool.or_eq_true, Bool.and_eq_true, decide_eq_true_eq, Char.toNat] at hspace
  rw [isWordChar, Bool.or_eq_true, decide_eq_true_eq] at h
  rcases h with h | rfl
  · simp only [Char.isAlphanum, Char.isAlpha, Char.isUpper, Char.isLower, Char.isDigit, Bool.or_eq_true,
      Bool.and_eq_true, decide_eq_true_eq, ge_iff_le, UInt32.le_iff_toNat_le, Char.reduceVal,
      UInt32.reduceToNat] at h
    omega
  · exact absurd hspace (by decide)

/-- A gap does not begin with a word. -/
theorem Gap.not_beginsWord (g : Gap) : beginsWord g.text = false := by
  rw [Gap.text, textOf]
  cases hg : g.lexemes with
  | nil => rfl
  | cons l ls =>
    have hl : l.isGap = true := by
      have := g.blank
      rw [hg, List.all_cons, Bool.and_eq_true] at this
      exact this.1
    have hproper := l.proper
    obtain ⟨d, t, hd⟩ := List.exists_cons_of_ne_nil l.ne_nil
    rw [List.flatMap_cons, hd]
    rw [hd] at hproper
    show isWordChar d = false
    rw [Bool.eq_false_iff]
    intro hword
    simp only [Lexeme.isGap, Bool.or_eq_true, decide_eq_true_eq] at hl
    rcases hl with hl | hl
    · rw [hl, LexemeKind.admits, Bool.and_eq_true, List.all_cons, Bool.and_eq_true] at hproper
      rw [isWhitespace_of_isWordChar hword] at hproper
      exact absurd hproper.2.1 Bool.false_ne_true
    · rw [hl] at hproper
      rcases isComment_head hproper with rfl | rfl <;> exact absurd hword (by decide)

theorem Gap.head_ne (g : Gap) {c : Char} {s : Str} (hc : c ≠ literalQuote) :
    (g.text ++ c :: s).head? ≠ some literalQuote := by
  rw [Gap.text, textOf]
  cases hg : g.lexemes with
  | nil => simpa using hc
  | cons l ls =>
    have hl : l.isGap = true := by
      have := g.blank
      rw [hg, List.all_cons, Bool.and_eq_true] at this
      exact this.1
    obtain ⟨d, t, hd⟩ := List.exists_cons_of_ne_nil l.ne_nil
    rw [List.flatMap_cons, hd]
    simpa using Lexeme.head_of_isGap hl hd

/-! ## Words that stand apart -/

section Apart

variable {s t t' : Str}

theorem standApart_of_not_beginsWord (h : beginsWord t = false) : standApart s t = true := by
  rw [standApart, h, Bool.and_false, Bool.not_false]

theorem standApart_of_not_endsWord (h : endsWord s = false) : standApart s t = true := by
  rw [standApart, h, Bool.false_and, Bool.not_false]

theorem standApart_congr (h : beginsWord t' = beginsWord t) : standApart s t' = standApart s t := by
  rw [standApart, standApart, h]

theorem beginsWord_append_congr (h : beginsWord t' = beginsWord t) :
    beginsWord (s ++ t') = beginsWord (s ++ t) := by
  cases s with
  | nil => exact h
  | cons c s => rfl

theorem beginsWord_append (h : s ≠ []) : beginsWord (s ++ t) = beginsWord s := by
  obtain ⟨c, s, rfl⟩ := List.exists_cons_of_ne_nil h
  rfl

theorem endsWord_append (h : t ≠ []) : endsWord (s ++ t) = endsWord t := by
  rw [endsWord, endsWord, List.getLast?_append_of_ne_nil _ h]

theorem Lexeme.endsWord {l : Lexeme} (h : l.kind = .word) : endsWord l.text = true := by
  rw [Sql.endsWord, List.getLast?_eq_some_getLast l.ne_nil]
  exact List.all_eq_true.mp (l.all_isWordChar h) _ (List.getLast_mem l.ne_nil)

theorem not_beginsWord_of_prefix (hs : beginsWord s = false) (h : t <+: s) : beginsWord t = false := by
  cases t with
  | nil => rfl
  | cons c t =>
    obtain ⟨u, rfl⟩ := h
    exact hs

end Apart

end Sql
