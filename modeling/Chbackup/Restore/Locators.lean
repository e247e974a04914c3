import Chbackup.Lib.Ends
import Chbackup.Lib.Lexemes
import Chbackup.Restore.Ddl

/-!
# The three locators of the ZooKeeper path

Which literal of a CREATE TABLE statement `parse_replicated_params`, `rewrite_replicated_zk_path` and
`replicated_zk_path_span` take for the ZooKeeper path.  The first two look for the word `Replicated`
wherever it stands and know no escapes; the third looks for `ENGINE =` outside of literals.
-/

namespace Chbackup

open Sql (Gap Lexeme Literal)

/-! ## Statements -/

/-- The parameters of an engine. -/
inductive EngineParams where
  | absent
  /-- Parameters of which the first is not a literal, or none. -/
  | short (before : Gap) (args : List Lexeme) (starts : Sql.startsWithLiteral args = false)
  /-- A path and a replica, and what stands after them in the parentheses. -/
  | explicit (before opening : Gap) (path : Literal) (beforeComma afterComma : Gap) (replica : Literal)
      (rest : List Lexeme)

/-- A CREATE TABLE statement with its ENGINE clause. -/
structure CreateTable where
  /-- The header and the columns. -/
  before : List Lexeme
  keyword : Str
  isKeyword : keyword.map Char.toUpper = "ENGINE"
  beforeEquals : Gap
  /-- The sign of equality may be left out. -/
  equals : Bool
  beforeName : Gap
  engine : Str
  isWord : Sql.LexemeKind.word.admits engine = true
  params : EngineParams
  after : List Lexeme

def EngineParams.text : EngineParams → Str
  | absent => []
  | short before args _ => before.text ++ '(' :: Sql.textOf args ++ [')']
  | explicit before opening path beforeComma afterComma replica rest =>
    before.text ++ '(' :: opening.text ++ quote :: path.raw ++ quote :: beforeComma.text ++
      ',' :: afterComma.text ++ quote :: replica.raw ++ quote :: Sql.textOf rest ++ [')']

/-- A literal in a statement: what stands before it with its opening quote, and what follows it with its
closing quote. -/
structure ZkPath where
  before : Str
  path : Str
  after : Str
  replica : Str

namespace CreateTable

variable (s : CreateTable)

/-- The statement up to the name of its engine. -/
def opening : Str :=
  Sql.textOf s.before ++ s.keyword ++ s.beforeEquals.text ++ (if s.equals then ['='] else []) ++
    s.beforeName.text ++ s.engine

def text : Str := s.opening ++ s.params.text ++ Sql.textOf s.after

/-- The first argument of the Replicated engine, if it has explicit arguments. -/
def zkPath? : Option ZkPath :=
  match s.params with
  | .explicit before opening path beforeComma afterComma replica rest =>
    if isReplicatedEngine s.engine then
      some
        { before := s.opening ++ before.text ++ '(' :: opening.text ++ [quote]
          path := path.raw
          after := quote :: beforeComma.text ++ ',' :: afterComma.text ++ quote :: replica.raw ++
            quote :: Sql.textOf rest ++ ')' :: Sql.textOf s.after
          replica := replica.raw }
    else none
  | _ => none

/-- The statement with another ZooKeeper path. -/
def withZkPath (path : Str) : Str := s.zkPath?.elim s.text fun p => p.before ++ path ++ p.after

end CreateTable

/-! ## Places in a text -/

/-- The word that marks an engine. -/
def marker : Str := ['R', 'e', 'p', 'l', 'i', 'c', 'a', 't', 'e', 'd']

/-- A text from the first place on where a text stands. -/
def firstPlace (needle s : Str) : Option Str := s.tails.find? fun t => needle.isPrefixOf t

/-- The places of a text that are not between quotes. -/
def outside : ScanMode → Str → List Str
  | _, [] => []
  | .code, c :: s => (c :: s) :: outside (if c = quote then .literal else .code) s
  | .literal, c :: s => outside (if c = backslash then .escaped else if c = quote then .code else .literal) s
  | .escaped, _ :: s => outside .literal s

/-- A text begins with `ENGINE` and a sign of equality. -/
def beginsClause (s : Str) : Bool :=
  ("ENGINE" : Str).isPrefixOf s && ['='].isPrefixOf (Str.trimStart (s.drop 6))

/-- A text of white space. -/
def Blank (s : Str) : Prop := s.all Str.isWhitespace = true

/-- Somewhere in the text `Replicated` stands before a parenthesis and two quotes. -/
def LooksReplicated (s : Str) : Prop :=
  ∃ u v w p t, s = u ++ (marker ++ (v ++ '(' :: (w ++ quote :: (p ++ quote :: t))))

section Met

variable (isAlphanumeric : Char → Bool)

/-- The searches meet the path. -/
structure ZkPath.Met (text : Str) (p : ZkPath) : Prop where
  /-- There is no quote in the path. -/
  plain : quote ∉ p.path
  /-- No quote stands between the path and the first parenthesis after the first `Replicated`, and that
  parenthesis is not closed at once. -/
  marked : ∃ v w, firstPlace marker text = some (marker ++ (v ++ '(' :: (w ++ quote :: (p.path ++ p.after)))) ∧
    '(' ∉ v ∧ quote ∉ w ∧ ¬[')'] <+: Str.trimStart w
  /-- The replica is what stands between the next two quotes. -/
  replica : ∃ x t, p.after = quote :: (x ++ quote :: (p.replica ++ quote :: t)) ∧ quote ∉ x ∧ quote ∉ p.replica
  /-- After the first `ENGINE =` that is not between quotes stand only the name of a Replicated engine,
  white space and a parenthesis, and no quote or parenthesis between it and the path. -/
  clause : ∃ g₁ g₂ name g₃ w, (outside .code text).find? beginsClause =
      some ("ENGINE".toList ++ (g₁ ++ '=' :: (g₂ ++ (name ++ (g₃ ++ '(' :: (w ++ quote :: (p.path ++ p.after))))))) ∧
    Blank g₁ ∧ Blank g₂ ∧ Blank g₃ ∧ marker <+: name ∧ (∀ c ∈ name, isAlphanumeric c = true ∨ c = '_') ∧
    quote ∉ w ∧ ')' ∉ w

/-- The searches meet the path of the statement, or they find nothing where there is none. -/
def CreateTable.SearchesMeet (s : CreateTable) : Prop :=
  s.zkPath?.elim (¬LooksReplicated s.text) (ZkPath.Met isAlphanumeric s.text)

/-- **The three locators agree** on the first argument of the engine. -/
structure LocatorsAgree (s : CreateTable) : Prop where
  rewrites : ∀ dstDb dstTable template, rewriteReplicatedZkPath s.text dstDb dstTable template =
    s.withZkPath (Str.replaceAll "\x7btable\x7d" dstTable (Str.replaceAll "\x7bdatabase\x7d" dstDb template))
  spans : replicatedZkPathSpan isAlphanumeric s.text = s.zkPath?.map fun p => (p.before, p.path, p.after)
  parses : parseReplicatedParams s.text = s.zkPath?.map fun p => (p.path, p.replica)

end Met

/-- The table of the alphabetic and numeric characters agrees with ASCII and has no white space. -/
structure AlphanumericTable (isAlphanumeric : Char → Bool) : Prop where
  ascii : ∀ c, c.toNat < 128 → isAlphanumeric c = c.isAlphanum
  space : ∀ c, Str.isWhitespace c = true → isAlphanumeric c = false

/-! ## Searches -/

section Searches

variable {s needle : Str}

theorem firstPlace_eq (needle s : Str) :
    firstPlace needle s = (Str.cut needle s).map fun r => needle ++ r.2 := by
  rw [firstPlace]
  induction s with
  | nil =>
    cases needle with
    | nil => rfl
    | cons c needle => rfl
  | cons c s ih =>
    rw [List.tails_cons, List.find?_cons, Str.cut]
    by_cases h : needle.isPrefixOf (c :: s) = true
    · rw [if_pos h, h, Option.map_some]
      exact congrArg some (List.prefix_iff_eq_append.mp (List.isPrefixOf_iff_prefix.mp h)).symm
    · rw [if_neg h, Bool.eq_false_iff.mpr h, ih, Option.map_map]
      rfl

/-- What stands before the first place. -/
theorem eq_append_of_firstPlace {t : Str} (h : firstPlace needle s = some t) :
    ∃ u rest, Str.cut needle s = some (u, rest) ∧ t = needle ++ rest ∧ s = u ++ t := by
  rw [firstPlace_eq, Option.map_eq_some_iff] at h
  obtain ⟨⟨u, rest⟩, hcut, rfl⟩ := h
  exact ⟨u, rest, hcut, rfl, by rw [Str.cut_eq_some hcut, List.append_assoc]⟩

/-- The name of the clause that a text begins with. -/
def clauseName (s : Str) : Str := Str.trimStart ((Str.trimStart (s.drop 6)).drop 1)

/-- What a place that is not between quotes is tried for. -/
theorem tryClause_eq (s : Str) :
    ((Str.stripPrefix? "ENGINE" s).bind fun after => Str.stripPrefix? ['='] after.trimStart).map Str.trimStart =
      if beginsClause s then some (clauseName s) else none := by
  rw [Str.stripPrefix?, beginsClause]
  by_cases h : ("ENGINE" : Str).isPrefixOf s = true
  · rw [if_pos h, h, Bool.true_and, Option.bind_some, Str.stripPrefix?]
    show Option.map Str.trimStart (if ['='].isPrefixOf (Str.trimStart (s.drop 6)) = true then _ else _) = _
    split_ifs <;> rfl
  · rw [if_neg h, Bool.eq_false_iff.mpr h]
    rfl

/-- The scan for the clause tries the places that are not between quotes. -/
theorem engineClause_eq (mode : ScanMode) (s : Str) :
    engineClause mode s = ((outside mode s).find? beginsClause).map clauseName := by
  induction s generalizing mode with
  | nil => cases mode <;> rfl
  | cons c s ih =>
    cases mode with
    | escaped => exact ih .literal
    | literal =>
      rw [engineClause, outside]
      by_cases hb : c = backslash
      · rw [if_pos hb, if_pos hb]
        exact ih .escaped
      by_cases hq : c = quote
      · rw [if_neg hb, if_neg hb, if_pos hq, if_pos hq]
        by_cases hd : [quote].isPrefixOf s = true
        · -- between two quotes that stand for one no clause begins
          rw [if_pos hd, ih .escaped]
          obtain ⟨t, rfl⟩ := List.isPrefixOf_iff_prefix.mp hd
          rfl
        · rw [if_neg hd]
          exact ih .code
      · rw [if_neg hb, if_neg hb, if_neg hq, if_neg hq]
        exact ih .literal
    | code =>
      have htry := tryClause_eq (c :: s)
      rw [engineClause, outside, List.find?_cons]
      cases hclause : beginsClause (c :: s) with
      | true =>
        rw [hclause, if_pos rfl] at htry
        obtain ⟨name, hname, htrim⟩ := Option.map_eq_some_iff.mp htry
        rw [hname]
        exact congrArg some htrim
      | false =>
        rw [hclause, if_neg Bool.false_ne_true, Option.map_eq_none_iff] at htry
        rw [htry]
        by_cases hq : c = quote
        · rw [if_pos hq, if_pos hq]
          exact ih .literal
        · rw [if_neg hq, if_neg hq]
          exact ih .code

theorem splitOnce_append {c : Char} {a b : Str} (h : c ∉ a) : Str.splitOnce c (a ++ c :: b) = some (a, b) :=
  Str.splitOnce_eq_some_iff.mpr ⟨rfl, h⟩

/-- What the search by the marker finds. -/
theorem firstReplicatedLiteral_eq_some_iff {b p a : Str} :
    firstReplicatedLiteral s = some (b, p, a) ↔
      ∃ v w t, firstPlace marker s = some (marker ++ (v ++ '(' :: (w ++ quote :: (p ++ quote :: t)))) ∧
        '(' ∉ v ∧ quote ∉ w ∧ quote ∉ p ∧ a = quote :: t ∧ s = b ++ (p ++ a) := by
  rw [firstReplicatedLiteral]
  constructor
  · intro h
    obtain ⟨⟨u, rest⟩, hcut, hrest⟩ := Option.bind_eq_some_iff.mp h
    obtain ⟨⟨v, args⟩, hparen, hargs⟩ := Option.bind_eq_some_iff.mp hrest
    obtain ⟨⟨w, literal⟩, hopen, hliteral⟩ := Option.bind_eq_some_iff.mp hargs
    obtain ⟨⟨path, t⟩, hclose, hall⟩ := Option.bind_eq_some_iff.mp hliteral
    obtain ⟨rfl, hv⟩ := Str.splitOnce_eq_some_iff.mp hparen
    obtain ⟨rfl, hw⟩ := Str.splitOnce_eq_some_iff.mp hopen
    obtain ⟨rfl, hp⟩ := Str.splitOnce_eq_some_iff.mp hclose
    obtain ⟨rfl, rfl, rfl⟩ : u ++ marker ++ v ++ '(' :: w ++ [quote] = b ∧ path = p ∧ quote :: t = a := by
      have heq := Option.some.inj hall
      rw [Prod.mk.injEq, Prod.mk.injEq] at heq
      exact heq
    have hmarked : Str.cut marker s = some (u, v ++ '(' :: (w ++ quote :: (path ++ quote :: t))) := hcut
    refine ⟨v, w, t, by rw [firstPlace_eq, hmarked]; rfl, hv, hw, hp, rfl, ?_⟩
    rw [Str.cut_eq_some hmarked]
    simp
  · rintro ⟨v, w, t, hplace, hv, hw, hp, rfl, hs⟩
    obtain ⟨u, rest, hcut, hrest, hu⟩ := eq_append_of_firstPlace hplace
    obtain rfl := List.append_cancel_left hrest
    have hb : b = u ++ marker ++ v ++ '(' :: w ++ [quote] := by
      have hcancel : b ++ (p ++ quote :: t) = u ++ marker ++ v ++ '(' :: w ++ [quote] ++ (p ++ quote :: t) := by
        rw [← hs, hu]
        simp
      exact List.append_cancel_right hcancel
    subst hb
    exact Option.bind_eq_some_iff.mpr ⟨(u, _), hcut, Option.bind_eq_some_iff.mpr ⟨(v, _), splitOnce_append hv,
      Option.bind_eq_some_iff.mpr ⟨(w, _), splitOnce_append hw,
        Option.bind_eq_some_iff.mpr ⟨(p, _), splitOnce_append hp, rfl⟩⟩⟩⟩

/-- What a search for a character finds, when the character stands somewhere. -/
theorem splitOnce_of_suffix {c : Char} {v rest : Str} (h : c :: v <:+ rest) :
    ∃ a b, Str.splitOnce c rest = some (a, b) ∧ v <:+ b := by
  obtain ⟨u, rfl⟩ := h
  cases hs : Str.splitOnce c (u ++ c :: v) with
  | none => exact absurd (List.mem_append_right _ List.mem_cons_self) (Str.splitOnce_eq_none_iff.mp hs)
  | some r => exact ⟨r.1, r.2, rfl, Str.suffix_of_splitOnce hs⟩

/-- The search by the marker finds something exactly where a statement looks replicated. -/
theorem firstReplicatedLiteral_eq_none_iff : firstReplicatedLiteral s = none ↔ ¬LooksReplicated s := by
  rw [← Option.not_isSome_iff_eq_none, not_iff_not]
  constructor
  · intro h
    obtain ⟨⟨b, p, a⟩, hfound⟩ := Option.isSome_iff_exists.mp h
    obtain ⟨v, w, t, hplace, -⟩ := firstReplicatedLiteral_eq_some_iff.mp hfound
    obtain ⟨u, -, -, -, hs⟩ := eq_append_of_firstPlace hplace
    exact ⟨u, v, w, p, t, hs⟩
  · rintro ⟨u, v, w, p, t, rfl⟩
    -- each search succeeds no later than at the given place
    have hmarker : marker <:+: u ++ (marker ++ (v ++ '(' :: (w ++ quote :: (p ++ quote :: t)))) :=
      ⟨u, _, by rw [List.append_assoc]⟩
    obtain ⟨⟨u', rest⟩, hcut⟩ := Option.isSome_iff_exists.mp (Str.contains_iff.mpr hmarker)
    have hrest := Str.suffix_of_cut hcut
    obtain ⟨v', args, hparen, hargs⟩ := splitOnce_of_suffix ((List.suffix_append _ _).trans hrest)
    obtain ⟨w', literal, hopen, hliteral⟩ := splitOnce_of_suffix ((List.suffix_append _ _).trans hargs)
    obtain ⟨p', t', hclose, -⟩ := splitOnce_of_suffix ((List.suffix_append _ _).trans hliteral)
    rw [Option.isSome_iff_exists]
    exact ⟨_, Option.bind_eq_some_iff.mpr ⟨(u', rest), hcut, Option.bind_eq_some_iff.mpr ⟨(v', args), hparen,
      Option.bind_eq_some_iff.mpr ⟨(w', literal), hopen, Option.bind_eq_some_iff.mpr ⟨(p', t'), hclose, rfl⟩⟩⟩⟩⟩

/-- A parenthesis that is closed at once is closed before the first quote. -/
theorem closes_at_once_iff {w t : Str} :
    [')'].isPrefixOf (Str.trimStart (w ++ quote :: t)) = true ↔ [')'] <+: Str.trimStart w := by
  rw [List.isPrefixOf_iff_prefix, Str.trimStart, Str.trimStart]
  induction w with
  | nil =>
    rw [List.nil_append, List.dropWhile_cons_of_neg (by decide)]
    simp [quote]
  | cons c w ih =>
    by_cases hc : Str.isWhitespace c = true
    · rw [List.cons_append, List.dropWhile_cons_of_pos hc, List.dropWhile_cons_of_pos hc]
      exact ih
    · rw [List.cons_append, List.dropWhile_cons_of_neg hc, List.dropWhile_cons_of_neg hc]
      simp

/-- What `parse_replicated_params` returns. -/
theorem parseReplicatedParams_eq_some_iff {path replica : Str} :
    parseReplicatedParams s = some (path, replica) ↔
      ∃ v w x t, firstPlace marker s = some (marker ++ (v ++ '(' :: (w ++ quote :: (path ++ quote ::
          (x ++ quote :: (replica ++ quote :: t)))))) ∧
        '(' ∉ v ∧ quote ∉ w ∧ ¬[')'] <+: Str.trimStart w ∧ quote ∉ path ∧ quote ∉ x ∧ quote ∉ replica := by
  rw [parseReplicatedParams]
  constructor
  · intro h
    obtain ⟨⟨u, rest⟩, hcut, hrest⟩ := Option.bind_eq_some_iff.mp h
    obtain ⟨⟨v, args⟩, hparen, hargs⟩ := Option.bind_eq_some_iff.mp hrest
    dsimp only at hargs
    split_ifs at hargs with hclosed
    obtain ⟨⟨w, literal⟩, hopen, hliteral⟩ := Option.bind_eq_some_iff.mp hargs
    obtain ⟨⟨zkPath, afterFirst⟩, hclose, hfirst⟩ := Option.bind_eq_some_iff.mp hliteral
    obtain ⟨⟨x, literal₂⟩, hopen₂, hsecond⟩ := Option.bind_eq_some_iff.mp hfirst
    obtain ⟨⟨replica', t⟩, hclose₂, hall⟩ := Option.bind_eq_some_iff.mp hsecond
    obtain ⟨rfl, hv⟩ := Str.splitOnce_eq_some_iff.mp hparen
    obtain ⟨rfl, hw⟩ := Str.splitOnce_eq_some_iff.mp hopen
    obtain ⟨rfl, hp⟩ := Str.splitOnce_eq_some_iff.mp hclose
    obtain ⟨rfl, hx⟩ := Str.splitOnce_eq_some_iff.mp hopen₂
    obtain ⟨rfl, hr⟩ := Str.splitOnce_eq_some_iff.mp hclose₂
    obtain ⟨rfl, rfl⟩ : zkPath = path ∧ replica' = replica := by
      have heq := Option.some.inj hall
      rwa [Prod.mk.injEq] at heq
    have hmarked : Str.cut marker s = some (u, _) := hcut
    exact ⟨v, w, x, t, by rw [firstPlace_eq, hmarked]; rfl, hv, hw, fun hw' => hclosed (closes_at_once_iff.mpr hw'),
      hp, hx, hr⟩
  · rintro ⟨v, w, x, t, hplace, hv, hw, hclosed, hp, hx, hr⟩
    obtain ⟨u, rest, hcut, hrest, -⟩ := eq_append_of_firstPlace hplace
    obtain rfl := List.append_cancel_left hrest
    refine Option.bind_eq_some_iff.mpr ⟨(u, _), hcut, Option.bind_eq_some_iff.mpr ⟨(v, _), splitOnce_append hv, ?_⟩⟩
    dsimp only
    rw [if_neg fun h => hclosed (closes_at_once_iff.mp h)]
    exact Option.bind_eq_some_iff.mpr ⟨(w, _), splitOnce_append hw,
      Option.bind_eq_some_iff.mpr ⟨(path, _), splitOnce_append hp,
        Option.bind_eq_some_iff.mpr ⟨(x, _), splitOnce_append hx,
          Option.bind_eq_some_iff.mpr ⟨(replica, _), splitOnce_append hr, rfl⟩⟩⟩⟩

/-! ## The anchored scan -/

theorem stringLiteral_eq_append {escaped : Bool} {p a : Str} (h : stringLiteral escaped s = some (p, a)) :
    s = p ++ a ∧ ∃ t, a = quote :: t := by
  induction s generalizing escaped p with
  | nil => cases h
  | cons c s ih =>
    have htake : ∀ {e : Bool}, (stringLiteral e s).map (fun r => (c :: r.1, r.2)) = some (p, a) →
        c :: s = p ++ a ∧ ∃ t, a = quote :: t := by
      intro e he
      obtain ⟨⟨p', a'⟩, hs, heq⟩ := Option.map_eq_some_iff.mp he
      cases heq
      obtain ⟨rfl, ht⟩ := ih hs
      exact ⟨rfl, ht⟩
    rw [stringLiteral] at h
    dsimp only at h
    by_cases he : escaped = true
    · rw [if_pos he] at h
      exact htake h
    rw [if_neg he] at h
    by_cases hb : c = backslash
    · rw [if_pos hb] at h
      exact htake h
    rw [if_neg hb] at h
    by_cases hq : c = quote
    · rw [if_pos hq] at h
      split_ifs at h
      · exact htake h
      · cases h
        exact ⟨rfl, s, by rw [hq]⟩
    · rw [if_neg hq] at h
      exact htake h

theorem stringLiteral_escaped (d : Char) (s : Str) :
    stringLiteral true (d :: s) = (stringLiteral false s).map fun r => (d :: r.1, r.2) := by
  rw [stringLiteral]
  dsimp only
  rw [if_pos rfl]

theorem stringLiteral_escape (d : Char) (s : Str) : stringLiteral false (backslash :: d :: s) =
    (stringLiteral false s).map fun r => (backslash :: d :: r.1, r.2) := by
  rw [stringLiteral]
  dsimp only
  rw [if_neg Bool.false_ne_true, if_pos rfl, stringLiteral_escaped, Option.map_map]
  rfl

theorem stringLiteral_doubled (s : Str) : stringLiteral false (quote :: quote :: s) =
    (stringLiteral false s).map fun r => (quote :: quote :: r.1, r.2) := by
  rw [stringLiteral]
  dsimp only
  rw [if_neg Bool.false_ne_true, if_neg (by decide), if_pos rfl, if_pos (by simp), stringLiteral_escaped,
    Option.map_map]
  rfl

theorem stringLiteral_plain {c : Char} (hb : c ≠ backslash) (hq : c ≠ quote) (s : Str) :
    stringLiteral false (c :: s) = (stringLiteral false s).map fun r => (c :: r.1, r.2) := by
  rw [stringLiteral]
  dsimp only
  rw [if_neg Bool.false_ne_true, if_neg hb, if_neg hq]

/-- The scan of a literal ends where the literal does. -/
theorem stringLiteral_raw {rest : Str} (hrest : rest.head? ≠ some quote) : ∀ raw : Str,
    Sql.closes Sql.literalQuote (raw ++ [Sql.literalQuote]) = true →
      stringLiteral false (raw ++ quote :: rest) = some (raw, quote :: rest)
  | [], _ => by
    have hnot : ¬[quote].isPrefixOf rest = true := by
      rw [List.isPrefixOf_iff_prefix]
      rintro ⟨t, rfl⟩
      exact hrest rfl
    rw [List.nil_append, stringLiteral]
    dsimp only
    rw [if_neg Bool.false_ne_true, if_neg (by decide), if_pos rfl, if_neg hnot]
  | [c], h => by
    have ih := stringLiteral_raw hrest [] rfl
    rw [List.singleton_append, Sql.closes] at h
    split_ifs at h with hb hq
    · cases h
    · simp [Sql.closes] at h
    · rw [List.singleton_append, stringLiteral_plain hb hq]
      rw [List.nil_append] at ih
      rw [ih]
      rfl
  | c :: d :: raw, h => by
    rw [List.cons_append, List.cons_append, Sql.closes] at h
    rw [List.cons_append, List.cons_append]
    split_ifs at h with hb hq
    · rw [show c = backslash from hb, stringLiteral_escape, stringLiteral_raw hrest raw h]
      rfl
    · rw [Bool.and_eq_true, decide_eq_true_eq] at h
      rw [show c = quote from hq, show d = quote from h.1, stringLiteral_doubled,
        stringLiteral_raw hrest raw h.2]
      rfl
    · rw [stringLiteral_plain hb hq, ← List.cons_append, stringLiteral_raw hrest (d :: raw) h]
      rfl

theorem nextArgument_eq_some_iff {literal : Str} :
    nextArgument s = some literal ↔ ∃ w, s = w ++ quote :: literal ∧ quote ∉ w ∧ ')' ∉ w := by
  induction s with
  | nil => simp [nextArgument]
  | cons c s ih =>
    rw [nextArgument]
    by_cases hq : c = quote
    · rw [if_pos hq, Option.some.injEq]
      constructor
      · rintro rfl
        exact ⟨[], by rw [hq]; rfl, List.not_mem_nil, List.not_mem_nil⟩
      · rintro ⟨w, hw, hquote, -⟩
        cases w with
        | nil => exact (List.cons.inj hw).2
        | cons d w => exact absurd (by rw [← (List.cons.inj hw).1, hq]; exact List.mem_cons_self) hquote
    rw [if_neg hq]
    by_cases hc : c = ')'
    · rw [if_pos hc]
      refine ⟨fun h => (by cases h), ?_⟩
      rintro ⟨w, hw, -, hclose⟩
      cases w with
      | nil => exact absurd (List.cons.inj hw).1 hq
      | cons d w => exact absurd (by rw [← (List.cons.inj hw).1, hc]; exact List.mem_cons_self) hclose
    rw [if_neg hc, ih]
    constructor
    · rintro ⟨w, rfl, hquote, hclose⟩
      refine ⟨c :: w, rfl, ?_, ?_⟩
      · simp [hquote, Ne.symm hq]
      · simp [hclose, Ne.symm hc]
    · rintro ⟨w, hw, hquote, hclose⟩
      cases w with
      | nil => exact absurd (List.cons.inj hw).1 hq
      | cons d w =>
        exact ⟨w, (List.cons.inj hw).2, fun h => hquote (List.mem_cons_of_mem _ h),
          fun h => hclose (List.mem_cons_of_mem _ h)⟩

theorem trimStart_blank {g : Str} (hg : Blank g) {c : Char} {t : Str} (hc : Str.isWhitespace c = false) :
    Str.trimStart (g ++ c :: t) = c :: t := by
  rw [Str.trimStart, List.dropWhile_append_of_pos fun a ha => List.all_eq_true.mp hg a ha,
    List.dropWhile_cons_of_neg (Bool.eq_false_iff.mp hc)]

theorem exists_blank (s : Str) : ∃ g, Blank g ∧ s = g ++ Str.trimStart s := by
  refine ⟨s.takeWhile Str.isWhitespace, ?_, List.takeWhile_append_dropWhile.symm⟩
  rw [Blank, List.all_eq_true]
  exact fun c hc => List.mem_takeWhile_imp hc

/-- The text after the clause's sign of equality begins with the engine. -/
theorem clause_of_begins {t : Str} (h : beginsClause t = true) :
    ∃ g₁ g₂, t = "ENGINE".toList ++ (g₁ ++ '=' :: (g₂ ++ clauseName t)) ∧ Blank g₁ ∧ Blank g₂ := by
  rw [beginsClause, Bool.and_eq_true, List.isPrefixOf_iff_prefix, List.isPrefixOf_iff_prefix] at h
  obtain ⟨⟨r, rfl⟩, r', hr'⟩ := h
  have hdrop : ("ENGINE".toList ++ r).drop 6 = r := rfl
  rw [hdrop] at hr'
  obtain ⟨g₁, hg₁, hr⟩ := exists_blank r
  obtain ⟨g₂, hg₂, hname⟩ := exists_blank r'
  refine ⟨g₁, g₂, ?_, hg₁, hg₂⟩
  rw [clauseName, hdrop, ← hr']
  show _ = "ENGINE".toList ++ (g₁ ++ '=' :: (g₂ ++ Str.trimStart r'))
  rw [← hname]
  exact congrArg ("ENGINE".toList ++ ·) (hr.trans (by rw [← hr']; rfl))

theorem clauseName_eq {g₁ g₂ name : Str} {c : Char} (hg₁ : Blank g₁) (hg₂ : Blank g₂)
    (hc : Str.isWhitespace c = false) :
    clauseName ("ENGINE".toList ++ (g₁ ++ '=' :: (g₂ ++ c :: name))) = c :: name := by
  have hdrop : ("ENGINE".toList ++ (g₁ ++ '=' :: (g₂ ++ c :: name))).drop 6 = g₁ ++ '=' :: (g₂ ++ c :: name) := rfl
  rw [clauseName, hdrop, trimStart_blank hg₁ (by decide)]
  exact trimStart_blank hg₂ hc

section Alphanumeric

variable {isAlphanumeric : Char → Bool}

theorem AlphanumericTable.marker_prefix (h : AlphanumericTable isAlphanumeric) {s : Str} (hs : marker <+: s) :
    marker <+: s.takeWhile fun c => isAlphanumeric c || c = '_' := by
  have hmarker : ∀ c ∈ marker, (isAlphanumeric c || c = '_') = true := by
    intro c hc
    have hascii : c.toNat < 128 ∧ c.isAlphanum = true := by
      simp only [marker, List.mem_cons, List.not_mem_nil, or_false] at hc
      rcases hc with rfl | rfl | rfl | rfl | rfl | rfl | rfl | rfl | rfl | rfl <;> decide
    rw [h.ascii c hascii.1, hascii.2, Bool.true_or]
  obtain ⟨t, rfl⟩ := hs
  rw [List.takeWhile_append_of_pos hmarker]
  exact List.prefix_append _ _

/-- The name of the engine ends before white space or a parenthesis. -/
theorem AlphanumericTable.dropWhile_name (h : AlphanumericTable isAlphanumeric) {name g : Str} (args : Str)
    (hname : ∀ c ∈ name, isAlphanumeric c = true ∨ c = '_') (hg : Blank g) :
    (name ++ (g ++ '(' :: args)).dropWhile (fun c => isAlphanumeric c || c = '_') = g ++ '(' :: args := by
  rw [List.dropWhile_append_of_pos fun c hc => by simpa using hname c hc]
  cases g with
  | nil =>
    refine List.dropWhile_cons_of_neg ?_
    rw [h.ascii '(' (by decide)]
    decide
  | cons c g =>
    have hc : Str.isWhitespace c = true := by
      rw [Blank, List.all_cons, Bool.and_eq_true] at hg
      exact hg.1
    refine List.dropWhile_cons_of_neg ?_
    rw [h.space c hc, Bool.false_or, decide_eq_true_eq]
    rintro rfl
    exact absurd hc (by decide)

/-- Where the scan finds the parameters of a Replicated engine. -/
theorem replicatedArguments_eq_some_iff (h : AlphanumericTable isAlphanumeric) {args : Str} :
    replicatedArguments isAlphanumeric s = some args ↔
      ∃ g₁ g₂ name g₃, (outside .code s).find? beginsClause =
          some ("ENGINE".toList ++ (g₁ ++ '=' :: (g₂ ++ (name ++ (g₃ ++ '(' :: args))))) ∧
        Blank g₁ ∧ Blank g₂ ∧ Blank g₃ ∧ marker <+: name ∧ ∀ c ∈ name, isAlphanumeric c = true ∨ c = '_' := by
  rw [replicatedArguments, engineClause_eq]
  constructor
  · intro hargs
    obtain ⟨name, hname, hparams⟩ := Option.bind_eq_some_iff.mp hargs
    obtain ⟨t, hfind, rfl⟩ := Option.map_eq_some_iff.mp hname
    obtain ⟨g₁, g₂, ht, hg₁, hg₂⟩ := clause_of_begins (List.find?_some hfind)
    split_ifs at hparams with hrep
    have hmarker : marker <+: clauseName t := List.isPrefixOf_iff_prefix.mp hrep
    rw [Str.stripPrefix?] at hparams
    split_ifs at hparams with hopen
    obtain ⟨args', hargs'⟩ := List.isPrefixOf_iff_prefix.mp hopen
    rw [← hargs'] at hparams
    obtain rfl : args' = args := Option.some.inj hparams
    obtain ⟨g₃, hg₃, hrest⟩ := exists_blank ((clauseName t).dropWhile fun c => isAlphanumeric c || c = '_')
    rw [← hargs'] at hrest
    refine ⟨g₁, g₂, (clauseName t).takeWhile fun c => isAlphanumeric c || c = '_', g₃, ?_, hg₁, hg₂, hg₃,
      h.marker_prefix hmarker, fun c hc => by simpa using List.mem_takeWhile_imp hc⟩
    have hsplit : clauseName t = ((clauseName t).takeWhile fun c => isAlphanumeric c || c = '_') ++
        (g₃ ++ '(' :: args') := by
      rw [show '(' :: args' = ['('] ++ args' from rfl, ← hrest, List.takeWhile_append_dropWhile]
    rw [hfind]
    refine congrArg some (ht.trans ?_)
    exact congrArg (fun name => "ENGINE".toList ++ (g₁ ++ '=' :: (g₂ ++ name))) hsplit
  · rintro ⟨g₁, g₂, name, g₃, hfind, hg₁, hg₂, hg₃, hmarker, hname⟩
    have hopen : Str.stripPrefix? ['('] ('(' :: args) = some args := by simp [Str.stripPrefix?]
    have hdrop := h.dropWhile_name args hname hg₃
    have hprefix := List.isPrefixOf_iff_prefix.mpr (hmarker.trans (List.prefix_append name (g₃ ++ '(' :: args)))
    obtain ⟨n, hn⟩ := hmarker
    have hclause : clauseName ("ENGINE".toList ++ (g₁ ++ '=' :: (g₂ ++ (name ++ (g₃ ++ '(' :: args))))) =
        name ++ (g₃ ++ '(' :: args) := by
      rw [← hn]
      exact clauseName_eq hg₁ hg₂ (by decide)
    rw [hfind, Option.map_some, hclause]
    show (if marker.isPrefixOf (name ++ (g₃ ++ '(' :: args)) = true then _ else _) = _
    rw [if_pos hprefix, hdrop, trimStart_blank hg₃ (by decide), hopen]

/-- **What the anchored scan finds.** -/
theorem replicatedZkPathSpan_eq_some_iff (h : AlphanumericTable isAlphanumeric) {b p a : Str} :
    replicatedZkPathSpan isAlphanumeric s = some (b, p, a) ↔
      ∃ g₁ g₂ name g₃ w literal, (outside .code s).find? beginsClause =
          some ("ENGINE".toList ++ (g₁ ++ '=' :: (g₂ ++ (name ++ (g₃ ++ '(' :: (w ++ quote :: literal)))))) ∧
        Blank g₁ ∧ Blank g₂ ∧ Blank g₃ ∧ marker <+: name ∧ (∀ c ∈ name, isAlphanumeric c = true ∨ c = '_') ∧
        quote ∉ w ∧ ')' ∉ w ∧ stringLiteral false literal = some (p, a) ∧ b = s.take (s.length - literal.length) := by
  rw [replicatedZkPathSpan]
  constructor
  · intro hspan
    obtain ⟨args, hargs, hspan⟩ := Option.bind_eq_some_iff.mp hspan
    obtain ⟨literal, hnext, hspan⟩ := Option.bind_eq_some_iff.mp hspan
    obtain ⟨⟨path, after⟩, hliteral, hall⟩ := Option.bind_eq_some_iff.mp hspan
    obtain ⟨g₁, g₂, name, g₃, hfind, hg₁, hg₂, hg₃, hmarker, hname⟩ := (replicatedArguments_eq_some_iff h).mp hargs
    obtain ⟨w, rfl, hquote, hclose⟩ := nextArgument_eq_some_iff.mp hnext
    cases hall
    exact ⟨g₁, g₂, name, g₃, w, literal, hfind, hg₁, hg₂, hg₃, hmarker, hname, hquote, hclose, hliteral, rfl⟩
  · rintro ⟨g₁, g₂, name, g₃, w, literal, hfind, hg₁, hg₂, hg₃, hmarker, hname, hquote, hclose, hliteral, rfl⟩
    exact Option.bind_eq_some_iff.mpr ⟨_, (replicatedArguments_eq_some_iff h).mpr
      ⟨g₁, g₂, name, g₃, hfind, hg₁, hg₂, hg₃, hmarker, hname⟩, Option.bind_eq_some_iff.mpr
        ⟨literal, nextArgument_eq_some_iff.mpr ⟨w, rfl, hquote, hclose⟩, Option.bind_eq_some_iff.mpr
          ⟨(p, a), hliteral, rfl⟩⟩⟩

end Alphanumeric

end Searches

/-! ## Agreement -/

section Agreement

variable {s : CreateTable} {p : ZkPath}

/-- The statement around its path. -/
theorem CreateTable.text_eq (h : s.zkPath? = some p) : s.text = p.before ++ (p.path ++ p.after) := by
  rw [zkPath?] at h
  rw [text]
  cases hparams : s.params with
  | absent =>
    rw [hparams] at h
    cases h
  | short before args starts =>
    rw [hparams] at h
    cases h
  | explicit before opening path beforeComma afterComma replica rest =>
    rw [hparams] at h
    dsimp only at h
    split_ifs at h
    cases h
    simp [EngineParams.text]

/-- The scan of the path ends where the path does. -/
theorem CreateTable.stringLiteral_path (h : s.zkPath? = some p) :
    stringLiteral false (p.path ++ p.after) = some (p.path, p.after) := by
  rw [zkPath?] at h
  cases hparams : s.params with
  | absent =>
    rw [hparams] at h
    cases h
  | short before args starts =>
    rw [hparams] at h
    cases h
  | explicit before opening path beforeComma afterComma replica rest =>
    rw [hparams] at h
    dsimp only at h
    split_ifs at h
    cases h
    have hend := stringLiteral_raw (beforeComma.head_ne (c := ',') (s := afterComma.text ++ quote :: (replica.raw ++
      quote :: (Sql.textOf rest ++ ')' :: Sql.textOf s.after))) (by decide)) path.raw path.closed
    simpa using hend

/-- Texts in which the same insertions give the same are cut at the same place. -/
theorem eq_of_insert {b b' a a' : Str} (hnil : b ++ a = b' ++ a')
    (h : ∀ c : Char, b ++ [c] ++ a = b' ++ [c] ++ a') : b = b' ∧ a = a' := by
  have hcut : ∀ {u v d : Str}, (∀ c : Char, u ++ [c] ++ (d ++ v) = u ++ d ++ [c] ++ v) → d = [] := by
    intro u v d hd
    have hhead : ∀ c : Char, c :: d = d ++ [c] := by
      intro c
      have := hd c
      rw [List.append_assoc, List.append_assoc, List.append_assoc, List.append_cancel_left_eq,
        ← List.append_assoc, ← List.append_assoc, List.append_cancel_right_eq] at this
      exact this
    cases d with
    | nil => rfl
    | cons x d =>
      have hx := (List.cons.inj (hhead 'x')).1
      have hy := (List.cons.inj (hhead 'y')).1
      exact absurd (hx.trans hy.symm) (by decide)
  rcases List.append_eq_append_iff.mp hnil with ⟨d, rfl, rfl⟩ | ⟨d, rfl, rfl⟩
  · obtain rfl := hcut h
    simp
  · obtain rfl := hcut fun c => (h c).symm
    simp

/-- A template without placeholders is used as it is. -/
theorem filled_eq_self {t : Str} (h : t.length ≤ 1) :
    Str.replaceAll "\x7btable\x7d" [] (Str.replaceAll "\x7bdatabase\x7d" [] t) = t := by
  have hshort : ∀ needle : Str, 1 < needle.length → Str.replaceAll needle [] t = t := by
    intro needle hneedle
    cases t with
    | nil => rfl
    | cons c t =>
      obtain rfl : t = [] := List.length_eq_zero_iff.mp (Nat.le_zero.mp (Nat.le_of_succ_le_succ h))
      have hnot : ¬needle.isPrefixOf [c] = true := fun hp =>
        absurd (List.isPrefixOf_iff_prefix.mp hp).length_le (Nat.not_le_of_lt hneedle)
      rw [Str.replaceAll, Str.replaceAllFrom, if_neg hnot]
      rfl
  rw [hshort "\x7bdatabase\x7d" (by decide), hshort "\x7btable\x7d" (by decide)]

/-- The rewriting replaces the path exactly if its search finds the path. -/
theorem rewrites_iff (s : CreateTable) :
    (∀ dstDb dstTable template, rewriteReplicatedZkPath s.text dstDb dstTable template =
      s.withZkPath (Str.replaceAll "\x7btable\x7d" dstTable
        (Str.replaceAll "\x7bdatabase\x7d" dstDb template))) ↔
      firstReplicatedLiteral s.text = s.zkPath?.map fun p => (p.before, p.path, p.after) := by
  constructor
  · intro h
    -- what the search finds is replaced by every short template
    have hnone : firstReplicatedLiteral s.text = none → ∀ t : Str, t.length ≤ 1 → s.text = s.withZkPath t := by
      intro hfound t ht
      have hrewritten := h [] [] t
      rwa [filled_eq_self ht, rewriteReplicatedZkPath, hfound] at hrewritten
    have hsome : ∀ {b q a : Str}, firstReplicatedLiteral s.text = some (b, q, a) →
        ∀ t : Str, t.length ≤ 1 → b ++ t ++ a = s.withZkPath t := by
      intro b q a hfound t ht
      have hrewritten := h [] [] t
      rw [rewriteReplicatedZkPath, hfound] at hrewritten
      dsimp only at hrewritten
      rwa [filled_eq_self ht] at hrewritten
    cases hpath : s.zkPath? with
    | none =>
      have hsame : ∀ t, s.withZkPath t = s.text := fun t => by rw [CreateTable.withZkPath, hpath]; rfl
      cases hfound : firstReplicatedLiteral s.text with
      | none => rfl
      | some r =>
        obtain ⟨b, q, a⟩ := r
        have hlong := congrArg List.length ((hsome hfound ['x'] (by decide)).trans (hsame _))
        rw [← (hsome hfound [] (by decide)).trans (hsame _)] at hlong
        simp only [List.length_append, List.length_cons, List.length_nil] at hlong
        omega
    | some p =>
      have hwith : ∀ t, s.withZkPath t = p.before ++ t ++ p.after := fun t => by
        rw [CreateTable.withZkPath, hpath]
        rfl
      cases hfound : firstReplicatedLiteral s.text with
      | none =>
        have hlong := congrArg List.length ((hnone hfound ['x'] (by decide)).trans (hwith _))
        rw [(hnone hfound [] (by decide)).trans (hwith _)] at hlong
        simp only [List.length_append, List.length_cons, List.length_nil] at hlong
        omega
      | some r =>
        obtain ⟨b, q, a⟩ := r
        have hnil := (hsome hfound [] (by decide)).trans (hwith _)
        rw [List.append_nil, List.append_nil] at hnil
        obtain ⟨rfl, rfl⟩ := eq_of_insert hnil fun c => (hsome hfound [c] (Nat.le_refl 1)).trans (hwith [c])
        obtain ⟨-, -, -, -, -, -, -, -, htext⟩ := firstReplicatedLiteral_eq_some_iff.mp hfound
        rw [CreateTable.text_eq hpath, List.append_cancel_left_eq, List.append_cancel_right_eq] at htext
        rw [← htext]
        rfl
  · intro h dstDb dstTable template
    rw [rewriteReplicatedZkPath, h, CreateTable.withZkPath]
    cases s.zkPath? with
    | none => rfl
    | some p => rfl

theorem suffix_of_mem_outside {mode : ScanMode} {text t : Str} (h : t ∈ outside mode text) : t <:+ text := by
  induction text generalizing mode with
  | nil => cases mode <;> cases h
  | cons c text ih =>
    cases mode with
    | escaped => exact (ih h).trans (List.suffix_cons c text)
    | literal => exact (ih h).trans (List.suffix_cons c text)
    | code =>
      rcases List.mem_cons.mp h with rfl | h
      · exact List.suffix_rfl
      · exact (ih h).trans (List.suffix_cons c text)

/-- A statement in which the anchored scan finds a path looks replicated. -/
theorem looksReplicated_of_span {isAlphanumeric : Char → Bool} (h : AlphanumericTable isAlphanumeric)
    {text b q a : Str} (hspan : replicatedZkPathSpan isAlphanumeric text = some (b, q, a)) :
    LooksReplicated text := by
  obtain ⟨g₁, g₂, name, g₃, w, literal, hfind, -, -, -, ⟨n, rfl⟩, -, -, -, hliteral, -⟩ :=
    (replicatedZkPathSpan_eq_some_iff h).mp hspan
  obtain ⟨rfl, t, rfl⟩ := stringLiteral_eq_append hliteral
  obtain ⟨u, hu⟩ := suffix_of_mem_outside (List.mem_of_find?_eq_some hfind)
  refine ⟨u ++ "ENGINE".toList ++ g₁ ++ '=' :: g₂, n ++ g₃, w, q, t, hu.symm.trans ?_⟩
  simp

theorem looksReplicated_of_params {text : Str} {r : Str × Str} (hparams : parseReplicatedParams text = some r) :
    LooksReplicated text := by
  obtain ⟨v, w, x, t, hplace, -⟩ := parseReplicatedParams_eq_some_iff.mp hparams
  obtain ⟨u, -, -, -, htext⟩ := eq_append_of_firstPlace hplace
  exact ⟨u, v, w, r.1, _, htext⟩

/-- A statement without a path. -/
theorem agree_iff_of_none {isAlphanumeric : Char → Bool} (h : AlphanumericTable isAlphanumeric) (hpath : s.zkPath? = none) :
    LocatorsAgree isAlphanumeric s ↔ ¬LooksReplicated s.text := by
  have hrewrites := rewrites_iff s
  rw [hpath, Option.map_none, firstReplicatedLiteral_eq_none_iff] at hrewrites
  constructor
  · exact fun hagree => hrewrites.mp hagree.rewrites
  · intro hnot
    refine ⟨hrewrites.mpr hnot, ?_, ?_⟩
    · rw [hpath, Option.map_none, Option.eq_none_iff_forall_ne_some]
      exact fun r hr => hnot (looksReplicated_of_span h hr)
    · rw [hpath, Option.map_none, Option.eq_none_iff_forall_ne_some]
      exact fun r hr => hnot (looksReplicated_of_params hr)

/-- A statement with a path. -/
theorem agree_iff_of_some {isAlphanumeric : Char → Bool} (h : AlphanumericTable isAlphanumeric) (hpath : s.zkPath? = some p) :
    LocatorsAgree isAlphanumeric s ↔ p.Met isAlphanumeric s.text := by
  have htext := CreateTable.text_eq hpath
  have hrewrites := rewrites_iff s
  rw [hpath, Option.map_some, firstReplicatedLiteral_eq_some_iff] at hrewrites
  constructor
  · intro hagree
    obtain ⟨v, w, t, hplace, hv, hw, hplain, hafter, -⟩ := hrewrites.mp hagree.rewrites
    have hparams := hagree.parses
    rw [hpath, Option.map_some, parseReplicatedParams_eq_some_iff] at hparams
    obtain ⟨v', w', x, t', hplace', hv', hw', hclosed, -, hx, hreplica⟩ := hparams
    -- both searches by the marker have passed the same texts
    rw [hplace, Option.some.injEq, List.append_cancel_left_eq] at hplace'
    obtain ⟨rfl, hargs⟩ := Str.append_cons_inj hv hv' hplace'
    obtain ⟨rfl, hpaths⟩ := Str.append_cons_inj hw hw' hargs
    rw [List.append_cancel_left_eq, ← hafter] at hpaths
    have hspan := hagree.spans
    rw [hpath, Option.map_some, replicatedZkPathSpan_eq_some_iff h] at hspan
    obtain ⟨g₁, g₂, name, g₃, w', literal, hfind, hg₁, hg₂, hg₃, hmarker, hname, hquote, hclose, hliteral, -⟩ := hspan
    obtain ⟨rfl, -⟩ := stringLiteral_eq_append hliteral
    exact
      { plain := hplain
        marked := ⟨v, w, by rw [hafter]; exact hplace, hv, hw, hclosed⟩
        replica := ⟨x, t', hpaths, hx, hreplica⟩
        clause := ⟨g₁, g₂, name, g₃, w', hfind, hg₁, hg₂, hg₃, hmarker, hname, hquote, hclose⟩ }
  · intro hmet
    obtain ⟨v, w, hplace, hv, hw, hclosed⟩ := hmet.marked
    obtain ⟨x, t, hafter, hx, hreplica⟩ := hmet.replica
    obtain ⟨g₁, g₂, name, g₃, w', hfind, hg₁, hg₂, hg₃, hmarker, hname, hquote, hclose⟩ := hmet.clause
    refine ⟨hrewrites.mpr ⟨v, w, _, by rw [← hafter]; exact hplace, hv, hw, hmet.plain, hafter, htext⟩, ?_, ?_⟩
    · rw [hpath, Option.map_some, replicatedZkPathSpan_eq_some_iff h]
      refine ⟨g₁, g₂, name, g₃, w', p.path ++ p.after, hfind, hg₁, hg₂, hg₃, hmarker, hname, hquote, hclose,
        CreateTable.stringLiteral_path hpath, ?_⟩
      rw [htext, List.length_append, Nat.add_sub_cancel, List.take_left]
    · rw [hpath, Option.map_some, parseReplicatedParams_eq_some_iff]
      exact ⟨v, w, x, t, by rw [← hafter]; exact hplace, hv, hw, hclosed, hmet.plain, hx, hreplica⟩

/-- **The locators agree exactly where their searches meet the path**, or find nothing in a statement that
has none. -/
theorem locators_agree_iff {isAlphanumeric : Char → Bool} (h : AlphanumericTable isAlphanumeric)
    (s : CreateTable) : LocatorsAgree isAlphanumeric s ↔ s.SearchesMeet isAlphanumeric := by
  rw [CreateTable.SearchesMeet]
  cases hpath : s.zkPath? with
  | none => exact agree_iff_of_none h hpath
  | some p => exact agree_iff_of_some h hpath

end Agreement

/-! ## Statements in which the searches meet the path, or do not -/

/-- The table of ASCII. -/
theorem alphanumericTable_ascii : AlphanumericTable Char.isAlphanum where
  ascii _ _ := rfl
  space c hc := by
    rw [Bool.eq_false_iff]
    intro halpha
    have hword : Sql.isWordChar c = true := by rw [Sql.isWordChar, halpha, Bool.true_or]
    rw [Sql.isWhitespace_of_isWordChar hword] at hc
    cases hc

def blank : Lexeme := { kind := .space, text := " ", proper := rfl }

def openParen : Lexeme := { kind := .symbol, text := "(", proper := rfl }

def closeParen : Lexeme := { kind := .symbol, text := ")", proper := rfl }

/-- One blank. -/
def oneBlank : Gap := { lexemes := [blank], blank := rfl }

def noGap : Gap := { lexemes := [], blank := rfl }

/-- `CREATE TABLE t (id Int8) ENGINE = ReplicatedMergeTree('/t', '{replica}') ORDER BY id`. -/
def replicatedTable : CreateTable where
  before :=
    [{ kind := .word, text := "CREATE", proper := rfl }, blank, { kind := .word, text := "TABLE", proper := rfl },
      blank, { kind := .word, text := "t", proper := rfl }, blank, openParen,
      { kind := .word, text := "id", proper := rfl }, blank, { kind := .word, text := "Int8", proper := rfl },
      closeParen, blank]
  keyword := "ENGINE"
  isKeyword := rfl
  beforeEquals := oneBlank
  equals := true
  beforeName := oneBlank
  engine := "ReplicatedMergeTree"
  isWord := rfl
  params := .explicit noGap noGap { raw := "/t", closed := rfl } noGap oneBlank
    { raw := "\x7breplica\x7d", closed := rfl } []
  after :=
    [blank, { kind := .word, text := "ORDER", proper := rfl }, blank, { kind := .word, text := "BY", proper := rfl },
      blank, { kind := .word, text := "id", proper := rfl }]

theorem locators_agree_on_replicated_table : LocatorsAgree Char.isAlphanum replicatedTable := by
  refine (locators_agree_iff alphanumericTable_ascii replicatedTable).mpr ?_
  have hletters : ("ReplicatedMergeTree".toList).all Char.isAlphanum = true := by decide
  exact
    { plain := by decide +kernel
      marked := ⟨"MergeTree", [], by decide +kernel, by decide +kernel, by decide +kernel, by decide +kernel⟩
      replica := ⟨", ", ") ORDER BY id", by decide +kernel, by decide +kernel, by decide +kernel⟩
      clause := ⟨" ", " ", "ReplicatedMergeTree", [], [], by decide +kernel, rfl, rfl, rfl, by decide +kernel,
        fun c hc => .inl (List.all_eq_true.mp hletters c hc), List.not_mem_nil, List.not_mem_nil⟩ }

/-- `CREATE TABLE t (ReplicatedId String DEFAULT f('a', 'b')) ENGINE = MergeTree`. -/
def misleadingColumn : CreateTable where
  before :=
    [{ kind := .word, text := "CREATE", proper := rfl }, blank, { kind := .word, text := "TABLE", proper := rfl },
      blank, { kind := .word, text := "t", proper := rfl }, blank, openParen,
      { kind := .word, text := "ReplicatedId", proper := rfl }, blank,
      { kind := .word, text := "String", proper := rfl }, blank,
      { kind := .word, text := "DEFAULT", proper := rfl }, blank,
      { kind := .word, text := "f", proper := rfl }, openParen, { kind := .literal, text := "'a'", proper := rfl },
      { kind := .symbol, text := ",", proper := rfl }, blank, { kind := .literal, text := "'b'", proper := rfl },
      closeParen, closeParen, blank]
  keyword := "ENGINE"
  isKeyword := rfl
  beforeEquals := oneBlank
  equals := true
  beforeName := oneBlank
  engine := "MergeTree"
  isWord := rfl
  params := .absent
  after := []

/-- The name of a column and the arguments of a default are taken for an engine and its parameters. -/
theorem column_is_taken_for_engine : ¬LocatorsAgree Char.isAlphanum misleadingColumn := by
  intro h
  have hparams : parseReplicatedParams misleadingColumn.text = none := h.parses
  revert hparams
  decide +kernel

end Chbackup
