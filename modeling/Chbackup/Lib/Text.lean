import Mathlib

/-!
# Texts as lists of characters

The text operations of the standard library of the source language, on lists of characters.
Positions in a text are not used: an operation that cuts a text returns the pieces.
-/

/-- A text. -/
abbrev Str : Type := List Char

instance instCoeText : Coe String (List Char) := ⟨String.toList⟩

instance instLawfulBEqText : LawfulBEq (List Char) := inferInstance

namespace Str

/-- The text before and after the first occurrence of a character. -/
def splitOnce (c : Char) : Str → Option (Str × Str)
  | [] => none
  | x :: s => if x = c then some ([], s) else (splitOnce c s).map fun p => (x :: p.1, p.2)

/-- The UTF-8 bytes of a text. -/
def utf8 (s : Str) : List UInt8 := s.flatMap String.utf8EncodeChar

/-- A number in base 16 with the given digits for ten to fifteen, padded with zeros. -/
def hex (upper : Bool) (width n : Nat) : Str :=
  let digits := (Nat.toDigits 16 n).map fun c => if upper then c.toUpper else c
  List.replicate (width - digits.length) '0' ++ digits

/-- `s` without every `c` at its end. -/
def trimEnd (c : Char) (s : Str) : Str := (s.reverse.dropWhile (· = c)).reverse

/-- What follows a given beginning. -/
def stripPrefix? (pre s : Str) : Option Str :=
  if pre.isPrefixOf s then some (s.drop pre.length) else none

/-- What precedes a given end. -/
def stripSuffix? (post s : Str) : Option Str :=
  if post.isSuffixOf s then some (s.take (s.length - post.length)) else none

/-- Joining path components: an absolute second component replaces the first. -/
def pathJoin (a b : Str) : Str :=
  if ['/'].isPrefixOf b then b
  else if a = [] || ['/'].isSuffixOf a then a ++ b
  else a ++ '/' :: b

/-- The characters with the Unicode property `White_Space`. -/
def isWhitespace (c : Char) : Bool :=
  let n := c.toNat
  (9 ≤ n && n ≤ 13) || n = 32 || n = 0x85 || n = 0xA0 || n = 0x1680 ||
    (0x2000 ≤ n && n ≤ 0x200A) || n = 0x2028 || n = 0x2029 || n = 0x202F || n = 0x205F || n = 0x3000

/-- A text without the white space at its start. -/
def trimStart (s : Str) : Str := s.dropWhile isWhitespace

/-- A text without the white space at either end. -/
def trim (s : Str) : Str := ((trimStart s).reverse.dropWhile isWhitespace).reverse

/-- The text before and after the first occurrence of a text. -/
def cut (needle : Str) : Str → Option (Str × Str)
  | [] => if needle = [] then some ([], []) else none
  | c :: s =>
    if needle.isPrefixOf (c :: s) then some ([], (c :: s).drop needle.length)
    else (cut needle s).map fun p => (c :: p.1, p.2)

/-- Whether a text occurs in a text. -/
def contains (needle s : Str) : Bool := (cut needle s).isSome

/-- The first occurrence of a text replaced by another text. -/
def replaceFirst (needle new s : Str) : Str :=
  match cut needle s with
  | some (a, b) => a ++ new ++ b
  | none => s

/-- The occurrences of a text from left to right replaced by another text, when `skip`
characters are left of the occurrence just replaced.  The text that is replaced is not empty. -/
def replaceAllFrom (needle new : Str) : Nat → Str → Str
  | _, [] => []
  | skip + 1, _ :: s => replaceAllFrom needle new skip s
  | 0, c :: s =>
    if needle.isPrefixOf (c :: s) then new ++ replaceAllFrom needle new (needle.length - 1) s
    else c :: replaceAllFrom needle new 0 s

/-- Every occurrence of a text replaced by another text. -/
def replaceAll (needle new s : Str) : Str := replaceAllFrom needle new 0 s

/-- At most `n + 1` pieces between occurrences of a character. -/
def splitN : Nat → Char → Str → List Str
  | 0, _, s => [s]
  | n + 1, c, s =>
    match splitOnce c s with
    | some (a, b) => a :: splitN n c b
    | none => [s]

/-- At most `n + 1` pieces between occurrences of a character, taken from the end of the text;
the last piece comes first. -/
def rsplitN (n : Nat) (c : Char) (s : Str) : List Str :=
  (splitN n c s.reverse).map List.reverse

/-- An unsigned decimal number below `2 ^ bits`, with an optional plus sign. -/
def parseUnsigned (bits : Nat) (s : Str) : Option Nat :=
  let digits : Str := match s with
    | '+' :: rest => rest
    | _ => s
  let n := digits.foldl (fun n c => 10 * n + (c.toNat - '0'.toNat)) 0
  if digits ≠ [] ∧ digits.all Char.isDigit ∧ n < 2 ^ bits then some n else none

/-- `s` without every `c` at either end. -/
def trimMatches (c : Char) (s : Str) : Str := trimEnd c (s.dropWhile (· = c))

/-- The lines of a text.  A line ends with a line feed, or with a carriage return and a line feed;
the last line may have no end. -/
def lines (s : Str) : List Str :=
  let pieces := s.splitOn '\n'
  let ended := pieces.dropLast.map fun line => (stripSuffix? ['\r'] line).getD line
  ended ++ pieces.getLast?.toList.filter (· ≠ [])

theorem splitOnce_eq_some_iff {c : Char} {s a b : Str} :
    splitOnce c s = some (a, b) ↔ s = a ++ c :: b ∧ c ∉ a := by
  induction s generalizing a with
  | nil => simp [splitOnce]
  | cons x s ih =>
    rw [splitOnce]
    by_cases hx : x = c
    · rw [if_pos hx, Option.some.injEq, Prod.mk.injEq]
      constructor
      · rintro ⟨rfl, rfl⟩
        exact ⟨by rw [hx, List.nil_append], by simp⟩
      · rintro ⟨h, hc⟩
        cases a with
        | nil => exact ⟨rfl, (List.cons.inj h).2⟩
        | cons y a => exact absurd ((List.cons.inj h).1 ▸ hx) fun hy => hc (by simp [hy])
    · rw [if_neg hx, Option.map_eq_some_iff]
      constructor
      · rintro ⟨⟨a', b'⟩, h, hab⟩
        cases hab
        obtain ⟨rfl, hc⟩ := ih.mp h
        exact ⟨rfl, by simpa [Ne.symm hx] using hc⟩
      · rintro ⟨h, hc⟩
        cases a with
        | nil => exact absurd (List.cons.inj h).1 hx
        | cons y a =>
          obtain ⟨rfl, rfl⟩ := List.cons.inj h
          exact ⟨(a, b), ih.mpr ⟨rfl, fun hm => hc (List.mem_cons_of_mem _ hm)⟩, rfl⟩

theorem splitOnce_eq_none_iff {c : Char} {s : Str} : splitOnce c s = none ↔ c ∉ s := by
  induction s with
  | nil => simp [splitOnce]
  | cons x s ih =>
    rw [splitOnce]
    by_cases hx : x = c
    · simp [hx]
    · rw [if_neg hx, Option.map_eq_none_iff, ih, List.mem_cons, not_or]
      exact ⟨fun h => ⟨Ne.symm hx, h⟩, fun h => h.2⟩

/-- Two texts that end at the first occurrence of a character and continue alike are alike. -/
theorem append_cons_prefix_inj {c : Char} {a b s : Str} (ha : c ∉ a) (hb : c ∉ b)
    (has : a ++ [c] <+: s) (hbs : b ++ [c] <+: s) : a = b := by
  obtain ⟨x, rfl⟩ := has
  obtain ⟨y, hy⟩ := hbs
  have h₁ : splitOnce c (a ++ c :: x) = some (a, x) := splitOnce_eq_some_iff.mpr ⟨rfl, ha⟩
  have h₂ : splitOnce c (a ++ c :: x) = some (b, y) :=
    splitOnce_eq_some_iff.mpr ⟨by simpa using hy.symm, hb⟩
  rw [h₁] at h₂
  exact congrArg Prod.fst (Option.some.inj h₂)

theorem cut_eq_some {needle s a b : Str} (h : cut needle s = some (a, b)) :
    s = a ++ needle ++ b := by
  induction s generalizing a with
  | nil =>
    rw [cut] at h
    split_ifs at h with hn
    cases h
    rw [hn, List.append_nil, List.append_nil]
  | cons c s ih =>
    rw [cut] at h
    by_cases hp : needle.isPrefixOf (c :: s) = true
    · rw [if_pos hp] at h
      cases h
      rw [List.nil_append]
      exact (List.prefix_iff_eq_append.mp (List.isPrefixOf_iff_prefix.mp hp)).symm
    · rw [if_neg hp] at h
      obtain ⟨⟨a', b'⟩, h', hab⟩ := Option.map_eq_some_iff.mp h
      cases hab
      rw [ih h']
      rfl

/-- **A text occurs iff it is a part.** -/
theorem contains_iff {needle s : Str} : contains needle s = true ↔ needle <:+: s := by
  constructor
  · intro h
    obtain ⟨⟨a, b⟩, hab⟩ := Option.isSome_iff_exists.mp h
    exact ⟨a, b, (cut_eq_some hab).symm⟩
  · intro h
    induction s with
    | nil =>
      rw [List.infix_nil] at h
      subst h
      rfl
    | cons c s ih =>
      rw [contains, cut]
      by_cases hp : needle.isPrefixOf (c :: s) = true
      · rw [if_pos hp]
        rfl
      · rw [if_neg hp, Option.isSome_map]
        refine ih ((List.infix_cons_iff.mp h).resolve_left fun h' => ?_)
        exact hp (List.isPrefixOf_iff_prefix.mpr h')

theorem cut_eq_none {needle s : Str} (h : ¬ needle <:+: s) : cut needle s = none := by
  cases hc : cut needle s with
  | none => rfl
  | some p => exact absurd (contains_iff.mp (by rw [contains, hc]; rfl)) h

end Str
