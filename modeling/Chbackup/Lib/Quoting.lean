import Chbackup.Lib.Text

/-!
# SQL texts as tokens

A lexer for the SQL of a server that reads a doubled quote inside a quoted text as one quote and a
backslash as the beginning of an escape sequence.  What an escape sequence denotes, and how comments,
numbers and operators are read, is left open (`Lexer`).

`render` writes a list of tokens with doubled quotes and nothing else.  Reading a rendered list gives it back
exactly if no quoted text contains a backslash (`lex_render_iff`): a token with a backslash takes
more to write than `render` writes.
-/

namespace Sql

/-- The quote of identifiers. -/
def identifierQuote : Char := Char.ofNat 96

/-- The quote of literals. -/
def literalQuote : Char := '\''

/-- What a lexer does besides words, white space, dots and quoted texts. -/
structure Lexer where
  /-- The character denoted by what follows a backslash, and the rest. -/
  escape : Str → Option (Char × Str)
  /-- A token of another kind, and the rest. -/
  other : Str → Option (Str × Str)
  escape_lt : ∀ {s r : Str} {c : Char}, escape s = some (c, r) → r.length < s.length
  other_lt : ∀ {s t r : Str}, other s = some (t, r) → r.length < s.length

inductive Token where
  | word (s : Str)
  | space (s : Str)
  | dot
  | identifier (value : Str)
  | literal (value : Str)
  | other (s : Str)
  deriving DecidableEq

def isWordStart (c : Char) : Bool := c.isAlpha || c = '_'

def isWordChar (c : Char) : Bool := c.isAlphanum || c = '_'

namespace Lexer

variable (L : Lexer)

/-- The value of a quoted text after its first quote, and what follows its last one. -/
def readQuoted (q : Char) : Nat → Str → Option (Str × Str)
  | 0, _ => none
  | _ + 1, [] => none
  | fuel + 1, c :: s =>
    if c = q then
      if s.head? = some q then (readQuoted q fuel s.tail).map fun p => (q :: p.1, p.2)
      else some ([], s)
    else if c = '\\' then
      (L.escape s).bind fun x => (readQuoted q fuel x.2).map fun p => (x.1 :: p.1, p.2)
    else (readQuoted q fuel s).map fun p => (c :: p.1, p.2)

/-- The first token, and the rest. -/
def next (c : Char) (s : Str) : Option (Token × Str) :=
  if c = identifierQuote then
    (L.readQuoted identifierQuote s.length s).map fun p => (.identifier p.1, p.2)
  else if c = literalQuote then
    (L.readQuoted literalQuote s.length s).map fun p => (.literal p.1, p.2)
  else if c = '.' then some (.dot, s)
  else if c.isWhitespace then
    some (.space (c :: s.takeWhile Char.isWhitespace), s.dropWhile Char.isWhitespace)
  else if isWordStart c then some (.word (c :: s.takeWhile isWordChar), s.dropWhile isWordChar)
  else (L.other (c :: s)).map fun p => (.other p.1, p.2)

def lexAll : Nat → Str → Option (List Token)
  | _, [] => some []
  | 0, _ :: _ => none
  | fuel + 1, c :: s => (L.next c s).bind fun p => (lexAll fuel p.2).map (p.1 :: ·)

/-- The tokens of a text.  Every token takes a character, so there is fuel enough. -/
def lex (s : Str) : Option (List Token) := L.lexAll s.length s

end Lexer

/-! ## Writing tokens -/

/-- A text with its quotes doubled. -/
def double (q : Char) (s : Str) : Str := s.flatMap fun c => if c = q then [q, q] else [c]

namespace Token

/-- A token as it is written. -/
def render : Token → Str
  | word s | space s | other s => s
  | dot => ['.']
  | identifier v => identifierQuote :: (double identifierQuote v ++ [identifierQuote])
  | literal v => literalQuote :: (double literalQuote v ++ [literalQuote])

/-- The value of a quoted token. -/
def value : Token → Str
  | identifier v | literal v => v
  | _ => []

/-- What a lexer must have read for a token: a quote and a backslash take two characters. -/
def cost : Token → Nat
  | word s | space s => s.length
  | dot => 1
  | identifier v => v.length + v.count identifierQuote + v.count '\\' + 2
  | literal v => v.length + v.count literalQuote + v.count '\\' + 2
  | other _ => 0

/-- A token that is written as it is read. -/
def proper : Token → Bool
  | word [] | space [] => false
  | word (c :: s) => isWordStart c && s.all isWordChar
  | space (c :: s) => c.isWhitespace && s.all Char.isWhitespace
  | other _ => false
  | _ => true

/-- Two tokens that stay apart when one is written after the other. -/
def apart : Token → Token → Bool
  | word _, word _ | space _, space _ | identifier _, identifier _ | literal _, literal _ => false
  | _, _ => true

end Token

/-- The tokens are read back when they are written. -/
def separated : List Token → Bool
  | [] => true
  | [t] => t.proper
  | t :: u :: ts => t.proper && t.apart u && separated (u :: ts)

open Token

variable {L : Lexer} {q : Char} {v s r : Str}

/-! ## What a token takes -/

theorem Lexer.cost_readQuoted (hq : q ≠ '\\') {fuel : Nat} (h : L.readQuoted q fuel s = some (v, r)) :
    v.length + v.count q + v.count '\\' + 1 + r.length ≤ s.length := by
  induction fuel generalizing s v with
  | zero => exact absurd h (by simp [readQuoted])
  | succ fuel ih =>
    cases s with
    | nil => exact absurd h (by simp [readQuoted])
    | cons c s =>
      rw [readQuoted] at h
      rw [List.length_cons]
      split_ifs at h with hc hhead hslash
      · -- a doubled quote
        obtain ⟨⟨v', r'⟩, h', hv⟩ := Option.map_eq_some_iff.mp h
        obtain ⟨rfl, rfl⟩ := Prod.mk.inj hv
        have hlen : s.tail.length + 1 = s.length := by
          cases s with
          | nil => cases hhead
          | cons d s => rfl
        have hrest := ih h'
        dsimp only at hrest ⊢
        rw [List.length_cons, List.count_cons_self, List.count_cons_of_ne hq]
        omega
      · -- the last quote
        obtain ⟨rfl, rfl⟩ := Prod.mk.inj (Option.some.inj h)
        simp only [List.length_nil, List.count_nil]
        omega
      · -- an escape sequence denotes one character and takes two at least
        obtain ⟨⟨x, s'⟩, hescape, h⟩ := Option.bind_eq_some_iff.mp h
        obtain ⟨⟨v', r'⟩, h', hv⟩ := Option.map_eq_some_iff.mp h
        obtain ⟨rfl, rfl⟩ := Prod.mk.inj hv
        have hlt := L.escape_lt hescape
        have hrest := ih h'
        have hcount : (x :: v').count q + (x :: v').count '\\' ≤ v'.count q + v'.count '\\' + 1 := by
          by_cases hxq : x = q
          · subst hxq
            rw [List.count_cons_self, List.count_cons_of_ne hq]
            omega
          · rw [List.count_cons_of_ne hxq, List.count_cons]
            split <;> omega
        dsimp only at hrest ⊢
        rw [List.length_cons]
        omega
      · obtain ⟨⟨v', r'⟩, h', hv⟩ := Option.map_eq_some_iff.mp h
        obtain ⟨rfl, rfl⟩ := Prod.mk.inj hv
        have hrest := ih h'
        dsimp only at hrest ⊢
        rw [List.length_cons, List.count_cons_of_ne hc, List.count_cons_of_ne hslash]
        omega

theorem Lexer.cost_next {c : Char} {t : Token} (h : L.next c s = some (t, r)) :
    t.cost + r.length ≤ s.length + 1 := by
  rw [next] at h
  have hspan : ∀ p : Char → Bool, (s.takeWhile p).length + (s.dropWhile p).length = s.length := by
    intro p
    rw [← List.length_append, List.takeWhile_append_dropWhile]
  split_ifs at h
  · obtain ⟨⟨v, r'⟩, h', hv⟩ := Option.map_eq_some_iff.mp h
    obtain ⟨rfl, rfl⟩ := Prod.mk.inj hv
    have hread := cost_readQuoted (by decide) h'
    show v.length + v.count identifierQuote + v.count '\\' + 2 + r'.length ≤ _
    omega
  · obtain ⟨⟨v, r'⟩, h', hv⟩ := Option.map_eq_some_iff.mp h
    obtain ⟨rfl, rfl⟩ := Prod.mk.inj hv
    have hread := cost_readQuoted (by decide) h'
    show v.length + v.count literalQuote + v.count '\\' + 2 + r'.length ≤ _
    omega
  · obtain ⟨rfl, rfl⟩ := Prod.mk.inj (Option.some.inj h)
    show 1 + _ ≤ _
    omega
  · obtain ⟨rfl, rfl⟩ := Prod.mk.inj (Option.some.inj h)
    have hlen := hspan Char.isWhitespace
    show (c :: _).length + _ ≤ _
    rw [List.length_cons]
    omega
  · obtain ⟨rfl, rfl⟩ := Prod.mk.inj (Option.some.inj h)
    have hlen := hspan isWordChar
    show (c :: _).length + _ ≤ _
    rw [List.length_cons]
    omega
  · obtain ⟨⟨t', r'⟩, h', hv⟩ := Option.map_eq_some_iff.mp h
    obtain ⟨rfl, rfl⟩ := Prod.mk.inj hv
    have hlt := L.other_lt h'
    rw [List.length_cons] at hlt
    show 0 + r'.length ≤ _
    omega

theorem Lexer.cost_lexAll {fuel : Nat} {ts : List Token} (h : L.lexAll fuel s = some ts) :
    (ts.map Token.cost).sum ≤ s.length := by
  induction fuel generalizing s ts with
  | zero =>
    cases s with
    | nil =>
      cases h
      exact Nat.le_refl 0
    | cons c s => cases h
  | succ fuel ih =>
    cases s with
    | nil =>
      cases h
      exact Nat.le_refl 0
    | cons c s =>
      obtain ⟨⟨t, r⟩, hnext, h⟩ := Option.bind_eq_some_iff.mp h
      obtain ⟨ts', h', rfl⟩ := Option.map_eq_some_iff.mp h
      have hcost := cost_next hnext
      have hrest := ih h'
      dsimp only at hrest ⊢
      rw [List.map_cons, List.sum_cons, List.length_cons]
      omega

/-! ## What is written is read -/

theorem length_double (q : Char) (v : Str) : (double q v).length = v.length + v.count q := by
  induction v with
  | nil => rfl
  | cons c v ih =>
    rw [double] at ih ⊢
    rw [List.flatMap_cons, List.length_append, ih, List.length_cons]
    by_cases hc : c = q
    · subst hc
      rw [if_pos rfl, List.count_cons_self]
      show 2 + _ = _
      omega
    · rw [if_neg hc, List.count_cons_of_ne hc]
      show 1 + _ = _
      omega

theorem length_render {t : Token} (h : t.proper = true) :
    t.render.length + t.value.count '\\' = t.cost := by
  cases t with
  | word s => rfl
  | space s => rfl
  | dot => rfl
  | identifier v =>
    simp only [render, value, cost, List.length_cons, List.length_append, List.length_nil,
      length_double]
    omega
  | literal v =>
    simp only [render, value, cost, List.length_cons, List.length_append, List.length_nil,
      length_double]
    omega
  | other s => cases h

/-- A quoted text without a backslash is read back. -/
theorem Lexer.readQuoted_double {rest : Str} (hv : '\\' ∉ v) (hrest : rest.head? ≠ some q)
    {fuel : Nat} (hfuel : (double q v).length < fuel) :
    L.readQuoted q fuel (double q v ++ q :: rest) = some (v, rest) := by
  induction v generalizing fuel with
  | nil =>
    obtain ⟨fuel, rfl⟩ := Nat.exists_eq_add_one_of_ne_zero (Nat.ne_zero_of_lt hfuel)
    show L.readQuoted q (fuel + 1) (q :: rest) = _
    rw [readQuoted, if_pos rfl, if_neg hrest]
  | cons c v ih =>
    obtain ⟨hc, hv⟩ := not_or.mp (mt List.mem_cons.mpr hv)
    obtain ⟨fuel, rfl⟩ := Nat.exists_eq_add_one_of_ne_zero (Nat.ne_zero_of_lt hfuel)
    rw [double, List.flatMap_cons, List.length_append] at hfuel
    by_cases hq : c = q
    · subst hq
      rw [if_pos rfl] at hfuel
      have hless : (double c v).length < fuel := by
        rw [double]
        simp only [List.length_cons, List.length_nil] at hfuel
        omega
      have hread := ih hv hless
      have hcons : double c (c :: v) ++ c :: rest = c :: c :: (double c v ++ c :: rest) := by
        rw [double, List.flatMap_cons, if_pos rfl]
        rfl
      rw [hcons, readQuoted, if_pos rfl, List.head?_cons, if_pos rfl, List.tail_cons, hread]
      rfl
    · rw [if_neg hq] at hfuel
      have hless : (double q v).length < fuel := by
        rw [double]
        simp only [List.length_cons, List.length_nil] at hfuel
        omega
      have hread := ih hv hless
      have hcons : double q (c :: v) ++ q :: rest = c :: (double q v ++ q :: rest) := by
        rw [double, List.flatMap_cons, if_neg hq]
        rfl
      rw [hcons, readQuoted, if_neg hq, if_neg (Ne.symm hc), hread]
      rfl

/-- The characters that may follow a token. -/
def Token.follows : Token → Char → Bool
  | .word _, d => !isWordChar d
  | .space _, d => !d.isWhitespace
  | .identifier _, d => d ≠ identifierQuote
  | .literal _, d => d ≠ literalQuote
  | _, _ => true

theorem wordStart_ne {c : Char} (h : isWordStart c = true) :
    c ≠ identifierQuote ∧ c ≠ literalQuote ∧ c ≠ '.' ∧ c.isWhitespace = false := by
  refine ⟨?_, ?_, ?_, ?_⟩
  · rintro rfl
    exact absurd h (by decide)
  · rintro rfl
    exact absurd h (by decide)
  · rintro rfl
    exact absurd h (by decide)
  · by_contra hspace
    rw [Bool.not_eq_false, Char.isWhitespace] at hspace
    simp only [Bool.or_eq_true, decide_eq_true_eq] at hspace
    rcases hspace with ((rfl | rfl) | rfl) | rfl <;> exact absurd h (by decide)

theorem whitespace_ne {c : Char} (h : c.isWhitespace = true) :
    c ≠ identifierQuote ∧ c ≠ literalQuote ∧ c ≠ '.' ∧ isWordChar c = false := by
  rw [Char.isWhitespace] at h
  simp only [Bool.or_eq_true, decide_eq_true_eq] at h
  rcases h with ((rfl | rfl) | rfl) | rfl <;> decide

theorem Token.follows_of_apart {t u : Token} (hu : u.proper = true) (h : t.apart u = true) {d : Char}
    {rest : Str} (hd : (u.render ++ rest).head? = some d) : t.follows d = true := by
  cases u with
  | word s =>
    cases s with
    | nil => cases hu
    | cons c s =>
      cases hd
      have hc := wordStart_ne (Bool.and_eq_true_iff.mp hu).1
      cases t with
      | word s' => cases h
      | space s' => rw [follows, hc.2.2.2]; rfl
      | identifier v => exact decide_eq_true hc.1
      | literal v => exact decide_eq_true hc.2.1
      | _ => rfl
  | space s =>
    cases s with
    | nil => cases hu
    | cons c s =>
      cases hd
      have hc := whitespace_ne (Bool.and_eq_true_iff.mp hu).1
      cases t with
      | word s' => rw [follows, hc.2.2.2]; rfl
      | space s' => cases h
      | identifier v => exact decide_eq_true hc.1
      | literal v => exact decide_eq_true hc.2.1
      | _ => rfl
  | dot =>
    cases hd
    cases t <;> rfl
  | identifier v =>
    cases hd
    cases t with
    | identifier v' => cases h
    | _ => rfl
  | literal v =>
    cases hd
    cases t with
    | literal v' => cases h
    | _ => rfl
  | other s => cases hu

theorem span_append {p : Char → Bool} {rest : Str} (hs : s.all p = true)
    (hrest : ∀ d, rest.head? = some d → p d = false) :
    (s ++ rest).takeWhile p = s ∧ (s ++ rest).dropWhile p = rest := by
  have hall : ∀ c ∈ s, p c = true := List.all_eq_true.mp hs
  rw [List.takeWhile_append_of_pos hall, List.dropWhile_append_of_pos hall]
  cases rest with
  | nil => exact ⟨List.append_nil s, rfl⟩
  | cons d rest =>
    have hd : ¬p d = true := by rw [hrest d rfl]; exact Bool.false_ne_true
    rw [List.takeWhile_cons_of_neg hd, List.dropWhile_cons_of_neg hd]
    exact ⟨List.append_nil s, rfl⟩

/-- A token without a backslash is read back, whatever may follow it. -/
theorem Lexer.next_render {t : Token} {c : Char} {rest : Str} (ht : t.proper = true)
    (hback : '\\' ∉ t.value) (hfollows : ∀ d, rest.head? = some d → t.follows d = true)
    (hrender : t.render ++ rest = c :: s) : L.next c s = some (t, rest) := by
  have hquoted : ∀ {q : Char} {v : Str}, '\\' ∉ v → (∀ d, rest.head? = some d → d ≠ q) →
      L.readQuoted q (double q v ++ q :: rest).length (double q v ++ q :: rest) = some (v, rest) := by
    intro q v hv hd
    refine readQuoted_double hv (fun h => hd q h rfl) ?_
    rw [List.length_append, List.length_cons]
    omega
  cases t with
  | word w =>
    cases w with
    | nil => cases ht
    | cons c' w =>
      obtain ⟨hc, hw⟩ := Bool.and_eq_true_iff.mp ht
      obtain ⟨rfl, rfl⟩ := List.cons.inj hrender
      obtain ⟨h₁, h₂, h₃, h₄⟩ := wordStart_ne hc
      obtain ⟨htake, hdrop⟩ := span_append hw fun d hd => by simpa [follows] using hfollows d hd
      rw [next, if_neg h₁, if_neg h₂, if_neg h₃, if_neg (Bool.eq_false_iff.mp h₄), if_pos hc]
      show some (Token.word (c' :: (w ++ rest).takeWhile isWordChar), _) = _
      rw [htake]
      exact congrArg _ (congrArg _ hdrop)
  | space w =>
    cases w with
    | nil => cases ht
    | cons c' w =>
      obtain ⟨hc, hw⟩ := Bool.and_eq_true_iff.mp ht
      obtain ⟨rfl, rfl⟩ := List.cons.inj hrender
      obtain ⟨h₁, h₂, h₃, -⟩ := whitespace_ne hc
      obtain ⟨htake, hdrop⟩ := span_append hw fun d hd => by simpa [follows] using hfollows d hd
      rw [next, if_neg h₁, if_neg h₂, if_neg h₃, if_pos hc]
      show some (Token.space (c' :: (w ++ rest).takeWhile Char.isWhitespace), _) = _
      rw [htake]
      exact congrArg _ (congrArg _ hdrop)
  | dot =>
    obtain ⟨rfl, rfl⟩ := List.cons.inj hrender
    rfl
  | identifier v =>
    have hs : s = double identifierQuote v ++ identifierQuote :: rest := by
      rw [← (List.cons.inj hrender).2]
      simp
    obtain ⟨rfl, -⟩ := List.cons.inj hrender
    rw [next, if_pos rfl, hs,
      @hquoted identifierQuote v hback fun d hd => of_decide_eq_true (hfollows d hd)]
    rfl
  | literal v =>
    have hs : s = double literalQuote v ++ literalQuote :: rest := by
      rw [← (List.cons.inj hrender).2]
      simp
    obtain ⟨rfl, -⟩ := List.cons.inj hrender
    rw [next, if_neg (by decide), if_pos rfl, hs,
      @hquoted literalQuote v hback fun d hd => of_decide_eq_true (hfollows d hd)]
    rfl
  | other w => cases ht

theorem separated_cons {t : Token} {ts : List Token} (h : separated (t :: ts) = true) :
    t.proper = true ∧ separated ts = true ∧ ∀ u ∈ ts.head?, t.apart u = true := by
  cases ts with
  | nil => exact ⟨h, rfl, fun u hu => by cases hu⟩
  | cons u ts =>
    obtain ⟨h, hts⟩ := Bool.and_eq_true_iff.mp h
    obtain ⟨ht, hapart⟩ := Bool.and_eq_true_iff.mp h
    refine ⟨ht, hts, fun u' hu' => ?_⟩
    cases hu'
    exact hapart

theorem render_ne_nil {t : Token} (h : t.proper = true) : t.render ≠ [] := by
  cases t with
  | word s =>
    rintro rfl
    cases h
  | space s =>
    rintro rfl
    cases h
  | other s => cases h
  | _ => exact List.cons_ne_nil _ _

/-- **Tokens without a backslash are read back.** -/
theorem Lexer.lexAll_render {ts : List Token} (h : separated ts = true)
    (hback : ∀ t ∈ ts, '\\' ∉ t.value) {fuel : Nat} (hfuel : ts.length ≤ fuel) :
    L.lexAll fuel (ts.flatMap render) = some ts := by
  induction ts generalizing fuel with
  | nil => cases fuel <;> rfl
  | cons t ts ih =>
    obtain ⟨ht, hts, hapart⟩ := separated_cons h
    obtain ⟨fuel, rfl⟩ := Nat.exists_eq_add_one_of_ne_zero (Nat.ne_zero_of_lt hfuel)
    have hrest := ih hts (fun u hu => hback u (List.mem_cons_of_mem _ hu)) (Nat.le_of_succ_le_succ hfuel)
    have hfollows : ∀ d, (ts.flatMap render).head? = some d → t.follows d = true := by
      intro d hd
      cases ts with
      | nil => cases hd
      | cons u ts =>
        rw [List.flatMap_cons] at hd
        exact follows_of_apart (separated_cons hts).1 (hapart u rfl) hd
    rw [List.flatMap_cons]
    cases hrender : t.render ++ ts.flatMap render with
    | nil => exact absurd (List.append_eq_nil_iff.mp hrender).1 (render_ne_nil ht)
    | cons c s =>
      rw [lexAll, next_render ht (hback t List.mem_cons_self) hfollows hrender]
      dsimp only [Option.bind_some]
      rw [hrest]
      rfl

theorem length_le_of_separated {ts : List Token} (h : separated ts = true) :
    ts.length ≤ (ts.flatMap render).length ∧
      (ts.flatMap render).length + (ts.map fun t => t.value.count '\\').sum =
        (ts.map Token.cost).sum := by
  induction ts with
  | nil => exact ⟨Nat.le_refl 0, rfl⟩
  | cons t ts ih =>
    obtain ⟨ht, hts, -⟩ := separated_cons h
    obtain ⟨hlen, hsum⟩ := ih hts
    have hrender := length_render ht
    have hpos : 0 < t.render.length := List.length_pos_iff.mpr (render_ne_nil ht)
    rw [List.flatMap_cons, List.length_append, List.length_cons, List.map_cons, List.sum_cons,
      List.map_cons, List.sum_cons]
    omega

/-- **Written tokens are read back exactly if no quoted text contains a backslash.** -/
theorem lex_render_iff (L : Lexer) {ts : List Token} (h : separated ts = true) :
    L.lex (ts.flatMap render) = some ts ↔ ∀ t ∈ ts, '\\' ∉ t.value := by
  obtain ⟨hlen, hsum⟩ := length_le_of_separated h
  constructor
  · intro hlex t ht hmem
    have hcost := Lexer.cost_lexAll hlex
    have hzero : (ts.map fun t => t.value.count '\\').sum = 0 := by omega
    have hcount := List.sum_eq_zero_iff.mp hzero _ (List.mem_map_of_mem ht)
    exact List.count_eq_zero.mp hcount hmem
  · exact fun hback => Lexer.lexAll_render h hback hlen

end Sql
