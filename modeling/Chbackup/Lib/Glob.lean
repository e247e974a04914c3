import Chbackup.Lib.Text

/-!
# Glob patterns

The part of the glob syntax that is built from single characters and stars: a character that has no meaning
of its own, such a character in square brackets, and `*` for any sequence of characters.  Two stars in a row
mean something else and are left out.

`reader` reads and matches such patterns and rejects all others.
-/

/-- A token of a glob pattern. -/
inductive GlobToken where
  | literal (c : Char)
  | anySequence
  deriving DecidableEq

namespace GlobToken

/-- The characters with a meaning of their own. -/
def Meta (c : Char) : Prop := c = '*' ∨ c = '?' ∨ c = '[' ∨ c = ']'

instance (c : Char) : Decidable (Meta c) := inferInstanceAs (Decidable (_ ∨ _))

/-- A token as it is written. -/
def text : GlobToken → Str
  | literal c => if Meta c then ['[', c, ']'] else [c]
  | anySequence => ['*']

/-- A text has the form that the tokens describe. -/
def Matches : List GlobToken → Str → Prop
  | [], s => s = []
  | literal c :: tokens, s => ∃ rest, s = c :: rest ∧ Matches tokens rest
  | anySequence :: tokens, s => ∃ a rest, s = a ++ rest ∧ Matches tokens rest

/-- No two stars stand next to each other. -/
def Apart (tokens : List GlobToken) : Prop :=
  tokens.IsChain fun t t' => ¬(t = anySequence ∧ t' = anySequence)

end GlobToken

/-- A library of glob patterns implements the syntax. -/
structure GlobSyntax (compile : Str → Option (Str → Bool)) : Prop where
  accepts : ∀ tokens, GlobToken.Apart tokens → ∃ glob, compile (tokens.flatMap GlobToken.text) = some glob ∧
    ∀ s, glob s = true ↔ GlobToken.Matches tokens s

namespace GlobToken

theorem matches_literals_append {t s : Str} {tokens : List GlobToken} :
    Matches (t.map literal ++ tokens) s ↔ ∃ rest, s = t ++ rest ∧ Matches tokens rest := by
  induction t generalizing s with
  | nil => exact ⟨fun h => ⟨s, rfl, h⟩, fun ⟨rest, hs, h⟩ => hs ▸ h⟩
  | cons c t ih =>
    constructor
    · rintro ⟨rest, rfl, h⟩
      obtain ⟨rest', rfl, h'⟩ := ih.mp h
      exact ⟨rest', rfl, h'⟩
    · rintro ⟨rest, rfl, h⟩
      exact ⟨t ++ rest, rfl, ih.mpr ⟨rest, rfl, h⟩⟩

/-! ## A reader -/

/-- Read a pattern. -/
def read : Str → Option (List GlobToken)
  | [] => some []
  | '*' :: '*' :: _ => none
  | '*' :: s => (read s).map (anySequence :: ·)
  | '[' :: c :: ']' :: s => if Meta c then (read s).map (literal c :: ·) else none
  | c :: s => if Meta c then none else (read s).map (literal c :: ·)

/-- Match a text. -/
def matchesAll : List GlobToken → Str → Bool
  | [], s => s.isEmpty
  | literal _ :: _, [] => false
  | literal c :: tokens, d :: s => d = c && matchesAll tokens s
  | anySequence :: tokens, s => s.tails.any (matchesAll tokens)

/-- A glob library. -/
def reader (pattern : Str) : Option (Str → Bool) := (read pattern).map matchesAll

theorem matchesAll_iff (tokens : List GlobToken) (s : Str) :
    matchesAll tokens s = true ↔ Matches tokens s := by
  induction tokens generalizing s with
  | nil => exact List.isEmpty_iff
  | cons token tokens ih =>
    cases token with
    | literal c =>
      cases s with
      | nil => exact ⟨fun h => absurd h Bool.false_ne_true, fun ⟨_, h, _⟩ => absurd h (List.cons_ne_nil _ _).symm⟩
      | cons d s =>
        rw [matchesAll, Bool.and_eq_true, decide_eq_true_eq, ih]
        constructor
        · rintro ⟨rfl, h⟩
          exact ⟨s, rfl, h⟩
        · rintro ⟨rest, heq, h⟩
          obtain ⟨rfl, rfl⟩ := List.cons.inj heq
          exact ⟨rfl, h⟩
    | anySequence =>
      rw [matchesAll, List.any_eq_true]
      constructor
      · rintro ⟨rest, hrest, h⟩
        obtain ⟨a, rfl⟩ := (List.mem_tails _ _).mp hrest
        exact ⟨a, rest, rfl, (ih rest).mp h⟩
      · rintro ⟨a, rest, rfl, h⟩
        exact ⟨rest, (List.mem_tails _ _).mpr (List.suffix_append a rest), (ih rest).mpr h⟩

/-- No token but the star is written with a star in front. -/
theorem read_star {tokens : List GlobToken} (h : ∀ t ∈ tokens.head?, t ≠ anySequence) :
    read ('*' :: tokens.flatMap text) = (read (tokens.flatMap text)).map (anySequence :: ·) := by
  cases tokens with
  | nil => rfl
  | cons token tokens =>
    cases token with
    | anySequence => exact absurd rfl (h _ rfl)
    | literal c =>
      rw [List.flatMap_cons, text]
      split_ifs with hc
      · rfl
      · have hstar : c ≠ '*' := fun h => hc (.inl h)
        rw [List.cons_append, read]
        rintro _ heq
        exact hstar (List.cons.inj heq).1

theorem read_literal (c : Char) (s : Str) :
    read (text (literal c) ++ s) = (read s).map (literal c :: ·) := by
  rw [text]
  split_ifs with hc
  · show read ('[' :: c :: ']' :: s) = _
    rw [read, if_pos hc]
  · show read (c :: s) = _
    have hstar : c ≠ '*' := fun h => hc (.inl h)
    have hopen : c ≠ '[' := fun h => hc (.inr (.inr (.inl h)))
    rw [read, if_neg hc]
    · rintro _ rfl
      exact absurd rfl hstar
    · rintro rfl
      exact absurd rfl hstar
    · rintro _ _ rfl
      exact absurd rfl hopen

/-- Reading undoes writing. -/
theorem read_flatMap {tokens : List GlobToken} (h : Apart tokens) :
    read (tokens.flatMap text) = some tokens := by
  induction tokens with
  | nil => rfl
  | cons token tokens ih =>
    have hrest := ih h.tail
    cases token with
    | literal c => rw [List.flatMap_cons, read_literal, hrest, Option.map_some]
    | anySequence =>
      have hhead : ∀ t ∈ tokens.head?, t ≠ anySequence := fun t ht heq =>
        (List.isChain_cons.mp h).1 t ht ⟨rfl, heq⟩
      rw [List.flatMap_cons, text, List.singleton_append, read_star hhead, hrest, Option.map_some]

theorem globSyntax_reader : GlobSyntax reader :=
  ⟨fun tokens h => ⟨matchesAll tokens, by rw [reader, read_flatMap h, Option.map_some],
    matchesAll_iff tokens⟩⟩

end GlobToken
