import Chbackup.Restore.CreateStatement

/-!
# Rewriting touches only its targets

Every step of the rewriting looks for a text and edits the statement there.  Where that text stands first in
the target of the step, the step gives the statement with the target edited, and so does the whole.
-/

namespace Chbackup

open Sql (Gap Lexeme Literal)

/-! ## The steps -/

/-- The old name is found in the header, and the new one is written in its way. -/
inductive RenamesTo (r : Rename) (s : CreateStatement) : CreateStatement → Prop
  | quoted {name : ObjectName} (hold : s.name.text = quotedName r.srcDb r.srcTable)
      (hnew : name.text = quotedName r.dstDb r.dstTable) (hdenotes : name.Denotes r.dstDb r.dstTable)
      (hplace : firstPlace (quotedName r.srcDb r.srcTable) s.text = some (s.name.text ++ s.tail)) :
      RenamesTo r s { s with name := name }
  | plain {name : ObjectName} (hold : s.name.text = plainName r.srcDb r.srcTable)
      (hnew : name.text = plainName r.dstDb r.dstTable) (hdenotes : name.Denotes r.dstDb r.dstTable)
      (hquoted : ¬quotedName r.srcDb r.srcTable <:+: s.text)
      (hplace : firstPlace (plainName r.srcDb r.srcTable) s.text = some (s.name.text ++ s.tail))
      (hapart : Sql.standApart s.head name.text = true ∧ Sql.standApart name.text s.tail = true) :
      RenamesTo r s { s with name := name }
  /-- The statement has the new name already. -/
  | absent (hdenotes : s.name.Denotes r.dstDb r.dstTable) (hquoted : ¬quotedName r.srcDb r.srcTable <:+: s.text)
      (hplain : ¬plainName r.srcDb r.srcTable <:+: s.text) : RenamesTo r s s

/-- The beginning of a UUID clause. -/
def uuidMarker : Str := ['U', 'U', 'I', 'D', ' ', quote]

/-- A text without the white space at its end. -/
def trimmedEnd (s : Str) : Str := (s.reverse.dropWhile Str.isWhitespace).reverse

/-- What is put in place of a UUID clause and of all that follows it. -/
def withoutUuid (before rest : Str) : Str :=
  trimmedEnd before ++ (if Str.trimStart rest = [] then [] else ' ' :: Str.trimStart rest)

/-- The UUID clause is found in the header, and the gaps around it become one with their comments. -/
inductive DropsUuid (s : CreateStatement) : CreateStatement → Prop
  | untouched (hnone : ∀ u t, Str.cut uuidMarker s.text = some (u, t) → quote ∉ t) : DropsUuid s s
  | present {u : UuidClause} {gap : Gap} (huuid : s.uuid = some u) (hkeyword : u.keyword = "UUID")
      (hbetween : u.between.text = " ") (hquote : quote ∉ u.uuid.raw)
      (hplace : firstPlace uuidMarker s.text =
        some (uuidMarker ++ (u.uuid.raw ++ quote :: (s.beforeBody.text ++ s.body.text))))
      (hgap : gap.text ++ s.body.text = withoutUuid u.before.text (s.beforeBody.text ++ s.body.text))
      (hcomments : gap.comments = u.before.comments ++ s.beforeBody.comments) :
      DropsUuid s { s with uuid := none, beforeBody := gap }

/-- What is found first as a path of a replicated engine is the path of the engine or its beginning, up to a
quote that stands for itself, or has the new text already. -/
inductive MovesPath (path : Str) (s : CreateStatement) : CreateStatement → Prop
  | untouched (hsame : ∀ u old t, firstReplicatedLiteral s.text = some (u, old, t) → old = path) : MovesPath path s s
  | found {columns : List Lexeme} {clause : EngineClause} {isReplicated : isReplicatedEngine clause.engine = true}
      {opening : Gap} {old new : Literal} {after : List Lexeme} {v w p rest t : Str}
      (hbody : s.body = .replicated columns clause isReplicated opening old after) (hold : old.raw = p ++ rest)
      (hnew : new.raw = path ++ rest) (hrest : rest ++ quote :: Sql.textOf after = quote :: t)
      (hplace : firstPlace marker s.text = some (marker ++ (v ++ '(' :: (w ++ quote :: (p ++ quote :: t)))))
      (hv : '(' ∉ v) (hw : quote ∉ w) (hp : quote ∉ p) :
      MovesPath path s { s with body := .replicated columns clause isReplicated opening new after }

/-- A text begins with the name of a Distributed engine and a parenthesis. -/
def beginsDistributed (s : Str) : Bool :=
  ("Distributed" : Str).isPrefixOf s && ['('].isPrefixOf (Str.trimStart (s.drop 11))

/-- A text from the first place on where a Distributed engine may be meant. -/
def distributedPlace (s : Str) : Option Str := s.tails.find? beginsDistributed

/-- What follows the parenthesis at the first place where a Distributed engine may be meant. -/
def distributedInner (s : Str) : Option Str :=
  (distributedPlace s).bind fun t => (Str.splitOnce '(' (t.drop 11)).map Prod.snd

/-- The engine of the statement is Distributed, with these arguments, and it is found. -/
structure DistributedFound (s : CreateStatement) (columns : List Lexeme) (clause : EngineClause)
    (isDistributed : clause.engine = "Distributed") (args : DistributedArgs) (after : List Lexeme) : Prop where
  body : s.body = .distributed columns clause isDistributed args after
  blank : Blank clause.beforeParams.text
  place : distributedPlace s.text =
    some ("Distributed".toList ++ (clause.beforeParams.text ++ '(' :: (args.text ++ ')' :: Sql.textOf after)))

/-- The second and the third argument name a table, as they are read between the commas. -/
structure NamesTable (args : Str) (db table : Str) (cluster database tableArg : Str) (more : List Str) : Prop where
  split : Str.splitN 3 ',' args = cluster :: database :: tableArg :: more
  db : stripQuotes (Str.trim database) = db
  table : stripQuotes (Str.trim tableArg) = table

/-- The table behind a Distributed engine is found, if it is the table itself that is renamed. -/
inductive RetargetsEngine (r : Rename) (s : CreateStatement) : CreateStatement → Prop
  | untouched (hother : ∀ inner args after cluster database table more, distributedInner s.text = some inner →
      matchingParen 0 false inner = some (args, after) →
      ¬NamesTable args r.srcDb r.srcTable cluster database table more) : RetargetsEngine r s s
  | found {columns : List Lexeme} {clause : EngineClause} {isDistributed : clause.engine = "Distributed"}
      {args args' : DistributedArgs} {after : List Lexeme} {cluster database table : Str} {more : List Str}
      (hfound : DistributedFound s columns clause isDistributed args after)
      (hcloses : matchingParen 0 false (args.text ++ ')' :: Sql.textOf after) = some (args.text, ')' :: Sql.textOf after))
      (hnames : NamesTable args.text r.srcDb r.srcTable cluster database table more)
      (hnew : args'.text = cluster ++ ',' :: requoteArgument (Str.trim database) r.dstDb ++
        ',' :: requoteArgument (Str.trim table) r.dstTable ++ more.flatMap (',' :: ·))
      (hmore : args'.more = args.more) :
      RetargetsEngine r s { s with body := .distributed columns clause isDistributed args' after }

/-- `IF NOT EXISTS`, as it is put into a statement. -/
def guardClause : IfNotExistsClause where
  before := oneBlank
  ifWord := "IF"
  isIf := rfl
  beforeNot := oneBlank
  notWord := "NOT"
  isNot := rfl
  beforeExists := oneBlank
  existsWord := "EXISTS"
  isExists := rfl
  apart := ⟨List.cons_ne_nil _ _, List.cons_ne_nil _ _, List.cons_ne_nil _ _⟩

/-- The keywords of the header are the first that are looked for and stand in the statement, or none of them
does. -/
inductive GuardsCreate (s : CreateStatement) : CreateStatement → Prop
  | present (h : ("IF NOT EXISTS" : Str) <:+: s.text) : GuardsCreate s s
  | unknown (h : (objectKeywords.find? fun keyword => Str.contains keyword s.text) = none) : GuardsCreate s s
  | absent (hnone : ¬("IF NOT EXISTS" : Str) <:+: s.text) (hclause : s.ifNotExists = none)
      (hkeywords : (objectKeywords.find? fun keyword => Str.contains keyword s.text) = some s.keywords.text) :
      GuardsCreate s { s with ifNotExists := some guardClause }

/-- What stands first between quotes after the parenthesis is in the first three arguments, or is the name of
the cluster already. -/
inductive ReclustersEngine (cluster : Str) (s : CreateStatement) : CreateStatement → Prop
  | untouched (hsame : ∀ a old b, distributedInner s.text = some (a ++ quote :: (old ++ quote :: b)) →
      quote ∉ a → quote ∉ old → old = cluster) : ReclustersEngine cluster s s
  | found {columns : List Lexeme} {clause : EngineClause} {isDistributed : clause.engine = "Distributed"}
      {args args' : DistributedArgs} {after : List Lexeme} {a old b : Str}
      (hfound : DistributedFound s columns clause isDistributed args after)
      (hold : args.text = a ++ quote :: (old ++ quote :: b)) (hnew : args'.text = a ++ quote :: (cluster ++ quote :: b))
      (ha : quote ∉ a) (hquote : quote ∉ old) (hmore : args'.more = args.more) :
      ReclustersEngine cluster s { s with body := .distributed columns clause isDistributed args' after }

/-- A name is read up to its end, before the text that follows it. -/
inductive ReadsName (rest : Str) : Str → Prop
  | quoted {part : Str} (hpart : backquote ∉ part) (hrest : rest.head? ≠ some '.') :
      ReadsName rest (backquote :: part ++ [backquote])
  | plain {name : Str} (hname : name.all isNameChar = true) (hne : name ≠ [])
      (hrest : ∀ c, rest.head? = some c → isNameChar c = false) : ReadsName rest name
  | qualified {part name : Str} (hpart : backquote ∉ part) (hname : ReadsName rest name) :
      ReadsName rest (backquote :: part ++ [backquote, '.'] ++ name)

/-- `ON CLUSTER` with a literal, as it is put into a statement. -/
def clusterClause (cluster : Literal) : OnClusterClause where
  before := oneBlank
  onWord := "ON"
  isOn := rfl
  beforeCluster := oneBlank
  clusterWord := "CLUSTER"
  isCluster := rfl
  beforeName := oneBlank
  name := .literal cluster
  apart := ⟨List.cons_ne_nil _ _, .inr rfl⟩

/-- The cluster clause is put after the name. -/
inductive AddsCluster (cluster : Str) (s : CreateStatement) : CreateStatement → Prop
  | present (h : ("ON CLUSTER" : Str) <:+: s.text) : AddsCluster cluster s s
  | unknown (h : (clusterPrefixes.find? fun keyword => keyword.isPrefixOf s.text) = none) : AddsCluster cluster s s
  | added {literal : Literal} (hraw : literal.raw = cluster) (hnone : ¬("ON CLUSTER" : Str) <:+: s.text)
      (hclause : s.onCluster = none)
      (hkeywords : (clusterPrefixes.find? fun keyword => keyword.isPrefixOf s.text) =
        some (s.keywords.text ++ s.ifNotExists.elim [] IfNotExistsClause.text))
      (hblank : Blank s.beforeName.text) (hname : ReadsName s.tail s.name.text) :
      AddsCluster cluster s { s with onCluster := some (clusterClause literal) }

/-- A rename edits the name, the UUID clause and the arguments of the engine. -/
inductive Renames (r : Rename) (s : CreateStatement) : CreateStatement → Prop
  | steps {s₁ s₂ s₃ s₄ : CreateStatement} (hname : RenamesTo r s s₁) (huuid : DropsUuid s₁ s₂)
      (hpath : MovesPath (Str.replaceAll "\x7btable\x7d" r.dstTable
        (Str.replaceAll "\x7bdatabase\x7d" r.dstDb r.defaultReplicaPath)) s₂ s₃)
      (hengine : RetargetsEngine r s₃ s₄) : Renames r s s₄

/-- Each step of the rewriting finds its target. -/
structure RewriteOptions.FindsTargets (o : RewriteOptions) (s s' : CreateStatement) : Prop where
  steps : ∃ s₁ s₂ s₃, (∀ r, o.rename = some r → Renames r s s₁) ∧ (o.rename = none → s₁ = s) ∧
    GuardsCreate s₁ s₂ ∧ (o.distributedCluster ≠ [] → ReclustersEngine o.distributedCluster s₂ s₃) ∧
    (o.distributedCluster = [] → s₃ = s₂) ∧ (∀ cluster, o.onCluster = some cluster → AddsCluster cluster s₃ s') ∧
    (o.onCluster = none → s' = s₃)

/-! ## Names and clauses -/

section Searches

variable {needle new text u t : Str}

theorem cut_of_firstPlace (h : firstPlace needle text = some (needle ++ t)) (htext : text = u ++ (needle ++ t)) :
    Str.cut needle text = some (u, t) := by
  obtain ⟨u', rest, hcut, hrest, htext'⟩ := eq_append_of_firstPlace h
  obtain rfl := List.append_cancel_left hrest
  obtain rfl := List.append_cancel_right (htext.symm.trans htext')
  exact hcut

/-- What is replaced is what stands at the first place. -/
theorem replaceFirst_of_firstPlace (h : firstPlace needle text = some (needle ++ t))
    (htext : text = u ++ (needle ++ t)) : Str.replaceFirst needle new text = u ++ new ++ t := by
  rw [Str.replaceFirst, cut_of_firstPlace h htext]

theorem contains_of_firstPlace (h : firstPlace needle text = some t) : Str.contains needle text = true := by
  obtain ⟨u, rest, hcut, -, -⟩ := eq_append_of_firstPlace h
  rw [Str.contains, hcut]
  rfl

theorem not_contains (h : ¬needle <:+: text) : Str.contains needle text = false := by
  rw [Bool.eq_false_iff, Ne, Str.contains_iff]
  exact h

end Searches

section Retouched

variable {s s' t : CreateStatement}

theorem CreateStatement.Retouched.refl (s : CreateStatement) : s.Retouched s :=
  ⟨rfl, fun _ h => h, fun _ h => h, rfl, fun h => h, .same _⟩

theorem StatementBody.Retouched.trans {b c d : StatementBody} (h : b.Retouched c) (h' : c.Retouched d) :
    b.Retouched d := by
  cases h with
  | same => exact h'
  | replicated columns clause isReplicated opening path path' after =>
    cases h' with
    | same => exact .replicated ..
    | replicated => exact .replicated ..
  | distributed columns clause isDistributed hmore after =>
    cases h' with
    | same => exact .distributed columns clause isDistributed hmore after
    | distributed _ _ _ hmore' => exact .distributed columns clause isDistributed (hmore'.trans hmore) after

theorem CreateStatement.Retouched.trans (h : s.Retouched s') (h' : s'.Retouched t) : s.Retouched t :=
  ⟨h'.keywords.trans h.keywords, fun c hc => h'.ifNotExists c (h.ifNotExists c hc),
    fun c hc => h'.onCluster c (h.onCluster c hc), h'.comments.trans h.comments, fun hs => h'.apart (h.apart hs),
    h.body.trans h'.body⟩

theorem StatementBody.Retouched.beginsWord {b c : StatementBody} (h : b.Retouched c) :
    Sql.beginsWord c.text = Sql.beginsWord b.text := by
  cases h with
  | same => rfl
  | replicated => simp [Sql.beginsWord, StatementBody.text, List.head?_append]
  | distributed => simp [Sql.beginsWord, StatementBody.text, List.head?_append]

/-- The body may be retouched where it stands. -/
theorem CreateStatement.retouched_body {b : StatementBody} (h : s.body.Retouched b) :
    s.Retouched { s with body := b } := by
  have hafter : Sql.beginsWord { s with body := b }.afterCluster = Sql.beginsWord s.afterCluster :=
    Sql.beginsWord_append_congr (Sql.beginsWord_append_congr h.beginsWord)
  refine ⟨rfl, fun _ h => h, fun _ h => h, rfl, fun hs => ⟨hs.name, ?_, fun c hc => ?_⟩, h⟩
  · exact (Sql.standApart_congr (Sql.beginsWord_append_congr hafter)).trans hs.tail
  · exact (Sql.standApart_congr hafter).trans (hs.cluster c hc)

end Retouched

section Steps

variable {r : Rename} {s s' : CreateStatement}

theorem RenamesTo.text_eq (h : RenamesTo r s s') :
    rewriteTableName s.text r.srcDb r.srcTable r.dstDb r.dstTable = s'.text := by
  have htext : s.text = s.head ++ (s.name.text ++ s.tail) := rfl
  rw [rewriteTableName]
  cases h with
  | quoted hold hnew hdenotes hplace =>
    rw [hold] at hplace htext
    rw [if_pos (contains_of_firstPlace hplace), replaceFirst_of_firstPlace hplace htext, ← hnew, List.append_assoc]
    rfl
  | plain hold hnew hdenotes hquoted hplace hapart =>
    rw [hold] at hplace htext
    rw [not_contains hquoted, if_neg Bool.false_ne_true, if_pos (contains_of_firstPlace hplace),
      replaceFirst_of_firstPlace hplace htext, ← hnew, List.append_assoc]
    rfl
  | absent hdenotes hquoted hplain =>
    rw [not_contains hquoted, if_neg Bool.false_ne_true, not_contains hplain, if_neg Bool.false_ne_true]

theorem RenamesTo.retouched (h : RenamesTo r s s') : s.Retouched s' := by
  cases h with
  | @quoted name hold hnew =>
    have hbegins : Sql.beginsWord name.text = false := by
      rw [hnew]
      rfl
    have hends : Sql.endsWord name.text = false := by
      rw [hnew, quotedName, Sql.endsWord_append (List.cons_ne_nil _ _)]
      rfl
    refine ⟨rfl, fun _ h => h, fun _ h => h, rfl, fun hs => ⟨?_, ?_, hs.cluster⟩, .same _⟩
    · exact Sql.standApart_of_not_beginsWord hbegins
    · exact Sql.standApart_of_not_endsWord hends
  | plain hold hnew hdenotes hquoted hplace hapart =>
    exact ⟨rfl, fun _ h => h, fun _ h => h, rfl, fun hs => ⟨hapart.1, hapart.2, hs.cluster⟩, .same _⟩
  | absent => exact .refl s

theorem RenamesTo.denotes (h : RenamesTo r s s') : s'.name.Denotes r.dstDb r.dstTable := by
  cases h with
  | quoted hold hnew hdenotes => exact hdenotes
  | plain hold hnew hdenotes => exact hdenotes
  | absent hdenotes => exact hdenotes

/-- A quoted text ends with its quote. -/
theorem closes_last {q : Char} : ∀ {t : Str}, Sql.closes q t = true → ∃ a, t = a ++ [q]
  | [], h => by cases h
  | [c], h => ⟨[], by rw [of_decide_eq_true (show decide (c = q) = true from h)]; rfl⟩
  | c :: d :: t, h => by
    rw [Sql.closes] at h
    split_ifs at h with hb hq
    · obtain ⟨a, rfl⟩ := closes_last h
      exact ⟨c :: d :: a, rfl⟩
    · rw [Bool.and_eq_true] at h
      obtain ⟨a, rfl⟩ := closes_last h.2
      exact ⟨c :: d :: a, rfl⟩
    · obtain ⟨a, ha⟩ := closes_last h
      exact ⟨c :: a, by rw [ha]; rfl⟩

/-- A name does not end with white space. -/
theorem Ident.ends_dark (n : Ident) : ∃ a c, n.text = a ++ [c] ∧ Str.isWhitespace c = false := by
  have hnamed := n.named
  rw [Bool.or_eq_true, decide_eq_true_eq, decide_eq_true_eq] at hnamed
  rcases hnamed with hkind | hkind
  · obtain ⟨a, c, hlast⟩ := (List.eq_nil_or_concat' n.lexeme.text).resolve_left n.lexeme.ne_nil
    have hword := List.all_eq_true.mp (n.lexeme.all_isWordChar hkind) c (by simp [hlast])
    exact ⟨a, c, hlast, Sql.isWhitespace_of_isWordChar hword⟩
  · have hproper := n.lexeme.proper
    obtain ⟨x, t, ht⟩ := List.exists_cons_of_ne_nil n.lexeme.ne_nil
    rw [ht, hkind, Sql.LexemeKind.admits, Bool.and_eq_true, Bool.or_eq_true, decide_eq_true_eq,
      decide_eq_true_eq] at hproper
    obtain ⟨a, rfl⟩ := closes_last hproper.2
    refine ⟨x :: a, x, ht, ?_⟩
    rcases hproper.1 with rfl | rfl <;> decide

theorem ObjectName.ends_dark (n : ObjectName) : ∃ a c, n.text = a ++ [c] ∧ Str.isWhitespace c = false := by
  obtain ⟨a, c, hname, hc⟩ := n.table.ends_dark
  exact ⟨_ ++ a, c, by rw [ObjectName.text, hname, List.append_assoc], hc⟩

theorem ClusterName.ends_dark (n : ClusterName) : ∃ a c, n.text = a ++ [c] ∧ Str.isWhitespace c = false := by
  cases n with
  | ident name => exact name.ends_dark
  | literal name => exact ⟨quote :: name.raw, quote, rfl, by decide⟩

/-- The header does not end with white space before a UUID clause. -/
theorem CreateStatement.header_ends_dark (s : CreateStatement) : ∃ a c,
    s.head ++ (s.name.text ++ s.onCluster.elim [] OnClusterClause.text) = a ++ [c] ∧ Str.isWhitespace c = false := by
  cases hclause : s.onCluster with
  | none =>
    obtain ⟨a, c, hname, hc⟩ := s.name.ends_dark
    exact ⟨s.head ++ a, c, by rw [hname]; simp, hc⟩
  | some clause =>
    obtain ⟨a, c, hname, hc⟩ := clause.name.ends_dark
    exact ⟨_, c, by rw [Option.elim_some, OnClusterClause.text, hname, ← List.append_assoc, ← List.append_assoc,
      ← List.append_assoc], hc⟩

/-- Only what follows the last character that is no white space is trimmed. -/
theorem trimmedEnd_append {u g : Str} {c : Char} (hc : Str.isWhitespace c = false) :
    trimmedEnd (u ++ [c] ++ g) = u ++ [c] ++ trimmedEnd g := by
  have hdark : ¬Str.isWhitespace c = true := Bool.eq_false_iff.mp hc
  rw [trimmedEnd, trimmedEnd, List.reverse_append, List.dropWhile_append]
  split_ifs with h
  · rw [List.isEmpty_iff.mp h, List.reverse_append, List.reverse_singleton, List.singleton_append,
      List.dropWhile_cons_of_neg hdark]
    simp
  · simp

theorem DropsUuid.text_eq (h : DropsUuid s s') : removeUuidClause s.text = s'.text := by
  rw [removeUuidClause]
  cases h with
  | untouched hnone =>
    cases hcut : Str.cut "UUID '" s.text with
    | none => rfl
    | some parts =>
      obtain ⟨u, t⟩ := parts
      dsimp only
      rw [Str.splitOnce_eq_none_iff.mpr (hnone u t hcut)]
  | @present u gap huuid hkeyword hbetween hquote hplace hgap hcomments =>
    obtain ⟨a, c, hheader, hc⟩ := s.header_ends_dark
    have htext : s.text = a ++ [c] ++ u.before.text ++
        (uuidMarker ++ (u.uuid.raw ++ quote :: (s.beforeBody.text ++ s.body.text))) := by
      rw [CreateStatement.text, CreateStatement.tail, huuid, ← hheader]
      simp [UuidClause.text, hkeyword, hbetween, uuidMarker]
    have hcut : Str.cut "UUID '" s.text = some (a ++ [c] ++ u.before.text, _) := cut_of_firstPlace hplace htext
    have hkept : ((a ++ [c] ++ u.before.text).reverse.dropWhile Str.isWhitespace).reverse =
        a ++ [c] ++ trimmedEnd u.before.text := trimmedEnd_append hc
    have hresult : { s with uuid := none, beforeBody := gap }.text = a ++ [c] ++ (gap.text ++ s.body.text) := by
      rw [← hheader]
      simp [CreateStatement.text, CreateStatement.tail, CreateStatement.head]
    rw [hcut]
    dsimp only
    rw [splitOnce_append hquote]
    dsimp only
    rw [hkept, hresult, hgap, withoutUuid]
    split_ifs <;> simp

/-- What is put in place of a UUID clause does not begin with a word. -/
theorem not_beginsWord_withoutUuid (before : Gap) (rest : Str) :
    Sql.beginsWord (withoutUuid before.text rest) = false := by
  have hprefix : trimmedEnd before.text <+: before.text := by
    rw [trimmedEnd, ← List.reverse_suffix, List.reverse_reverse]
    exact List.dropWhile_suffix _
  have htrimmed := Sql.not_beginsWord_of_prefix before.not_beginsWord hprefix
  rw [withoutUuid]
  by_cases hempty : trimmedEnd before.text = []
  · rw [hempty, List.nil_append]
    split_ifs <;> rfl
  · rw [Sql.beginsWord_append hempty, htrimmed]

theorem OnClusterClause.text_ne_nil (c : OnClusterClause) : c.text ≠ [] := by
  intro h
  have hon := c.isOn
  simp only [OnClusterClause.text, List.append_eq_nil_iff] at h
  rw [h.1.1.1.1.2] at hon
  cases hon

/-- A comment is not blank. -/
theorem comments_of_blank {g : Gap} (h : Blank g.text) : g.comments = [] := by
  rw [Gap.comments, List.map_eq_nil_iff, List.filter_eq_nil_iff]
  intro l hl hkind
  rw [decide_eq_true_eq] at hkind
  have hproper := l.proper
  obtain ⟨c, t, hc⟩ := List.exists_cons_of_ne_nil l.ne_nil
  rw [hkind, hc] at hproper
  have hmem : c ∈ g.text := List.mem_flatMap.mpr ⟨l, hl, by rw [hc]; exact List.mem_cons_self⟩
  have hspace := List.all_eq_true.mp h c hmem
  rcases Sql.isComment_head hproper with rfl | rfl <;> exact absurd hspace (by decide)

theorem DropsUuid.retouched (h : DropsUuid s s') : s.Retouched s' := by
  cases h with
  | untouched => exact .refl s
  | @present u gap huuid hkeyword hbetween hquote hplace hgap hcomments =>
    have hafter : Sql.beginsWord (gap.text ++ s.body.text) = false := by
      rw [hgap]
      exact not_beginsWord_withoutUuid _ _
    refine ⟨rfl, fun _ h => h, fun _ h => h, ?_, fun hs => ⟨hs.name, ?_, fun c hc => ?_⟩, .same _⟩
    · have hnone : u.between.comments = [] := comments_of_blank (by rw [hbetween]; rfl)
      simp [CreateStatement.comments, CreateStatement.gaps, huuid, UuidClause.gaps, hnone, hcomments]
    · show Sql.standApart s.name.text (s.onCluster.elim [] OnClusterClause.text ++ (gap.text ++ s.body.text)) = true
      cases hclause : s.onCluster with
      | none => exact Sql.standApart_of_not_beginsWord hafter
      | some c =>
        have htail := hs.tail
        rw [CreateStatement.tail, hclause] at htail
        rw [← htail]
        refine Sql.standApart_congr ?_
        rw [Option.elim_some, Sql.beginsWord_append c.text_ne_nil, Sql.beginsWord_append c.text_ne_nil]
    · exact Sql.standApart_of_not_beginsWord hafter

theorem MovesPath.text_eq {template : Str} (h : MovesPath (Str.replaceAll "\x7btable\x7d" r.dstTable
    (Str.replaceAll "\x7bdatabase\x7d" r.dstDb template)) s s') :
    rewriteReplicatedZkPath s.text r.dstDb r.dstTable template = s'.text := by
  rw [rewriteReplicatedZkPath]
  cases h with
  | untouched hsame =>
    cases hfound : firstReplicatedLiteral s.text with
    | none => rfl
    | some parts =>
      obtain ⟨u, old, t⟩ := parts
      obtain ⟨-, -, -, -, -, -, -, -, htext⟩ := firstReplicatedLiteral_eq_some_iff.mp hfound
      dsimp only
      rw [← hsame u old t hfound, htext, List.append_assoc]
  | @found columns clause isReplicated opening old new after v w p rest t hbody hold hnew hrest hplace hv hw hp =>
    have htext : ∀ path : Literal, { s with body := .replicated columns clause isReplicated opening path after }.text =
        s.head ++ (s.name.text ++ (s.onCluster.elim [] OnClusterClause.text ++ (s.uuid.elim [] UuidClause.text ++
          (s.beforeBody.text ++ (Sql.textOf columns ++ (clause.text ++ '(' :: (opening.text ++ [quote]))))))) ++
        (path.raw ++ (quote :: Sql.textOf after)) := by
      intro path
      simp [CreateStatement.text, CreateStatement.tail, CreateStatement.head, StatementBody.text]
    have hs : s = { s with body := .replicated columns clause isReplicated opening old after } := by
      rw [← hbody]
    have hold' : old.raw ++ quote :: Sql.textOf after = p ++ quote :: t := by
      rw [hold, List.append_assoc, hrest]
    have hfound := firstReplicatedLiteral_eq_some_iff.mpr
      ⟨v, w, t, hplace, hv, hw, hp, rfl, (congrArg CreateStatement.text hs).trans ((htext old).trans (by rw [hold']))⟩
    rw [hfound]
    dsimp only
    rw [htext new, hnew, List.append_assoc, List.append_assoc _ rest, hrest]

theorem MovesPath.retouched {path : Str} (h : MovesPath path s s') : s.Retouched s' := by
  cases h with
  | untouched => exact .refl s
  | found hbody =>
    refine CreateStatement.retouched_body ?_
    rw [hbody]
    exact .replicated ..

end Steps

/-! ## Distributed engines -/

/-- Before the engine the scan passes over what it has read of another word. -/
theorem findDistributedEngine_eq {text : Str} {skip : Nat} (hskip : ∀ x ∈ text.take skip, x ≠ 'D') :
    findDistributedEngine skip text = (distributedPlace text).map fun t =>
      (text.take (text.length - t.length), t.drop 11) := by
  induction text generalizing skip with
  | nil => cases skip <;> rfl
  | cons c text ih =>
    -- a place in the rest of the text
    have hlater : ∀ {k : Nat}, (∀ x ∈ text.take k, x ≠ 'D') →
        (findDistributedEngine k text).map (fun p => (c :: p.1, p.2)) = (distributedPlace text).map fun t =>
          ((c :: text).take ((c :: text).length - t.length), t.drop 11) := by
      intro k hk
      rw [ih hk, Option.map_map]
      refine Option.map_congr fun t ht => ?_
      have hle : t.length ≤ text.length := ((List.mem_tails t text).mp (List.mem_of_find?_eq_some ht)).length_le
      rw [List.length_cons, Nat.succ_sub hle]
      rfl
    have hplace : beginsDistributed (c :: text) = false → distributedPlace (c :: text) = distributedPlace text := by
      intro hnot
      rw [distributedPlace, List.tails_cons, List.find?_cons, hnot]
      rfl
    cases skip with
    | succ skip =>
      have hc : c ≠ 'D' := hskip c (by simp)
      have hnot : beginsDistributed (c :: text) = false := by
        simp [beginsDistributed, Ne.symm hc]
      rw [findDistributedEngine, hplace hnot]
      exact hlater fun x hx => hskip x (List.mem_cons_of_mem _ hx)
    | zero =>
      rw [findDistributedEngine]
      by_cases hmarker : ("Distributed" : Str).isPrefixOf (c :: text) = true
      · rw [if_pos hmarker]
        by_cases hopen : ['('].isPrefixOf (Str.trimStart ((c :: text).drop 11)) = true
        · have hbegins : beginsDistributed (c :: text) = true := by
            rw [beginsDistributed, hmarker, hopen]
            rfl
          have hfirst : distributedPlace (c :: text) = some (c :: text) := by
            rw [distributedPlace, List.tails_cons, List.find?_cons, hbegins]
          rw [hfirst, Option.map_some, Nat.sub_self]
          exact if_pos hopen
        · have hnot : beginsDistributed (c :: text) = false := by
            rw [beginsDistributed, Bool.eq_false_iff.mpr hopen, Bool.and_false]
          rw [hplace hnot]
          refine (if_neg hopen).trans (hlater ?_)
          -- no `D` stands in the rest of the word
          have hword : "Distributed".toList = 'D' :: ['i', 's', 't', 'r', 'i', 'b', 'u', 't', 'e', 'd'] := rfl
          rw [hword] at hmarker
          obtain ⟨rest, hrest⟩ := List.isPrefixOf_iff_prefix.mp hmarker
          have hten : ("Distributed" : Str).length - 1 = 10 := rfl
          rw [hten, ← (List.cons.inj hrest).2, List.append_eq, List.take_append_of_le_length (by rfl)]
          rintro x hx rfl
          exact absurd (List.mem_of_mem_take hx) (by decide)
      · have hnot : beginsDistributed (c :: text) = false := by
          rw [beginsDistributed, Bool.eq_false_iff.mpr hmarker, Bool.false_and]
        rw [if_neg hmarker, hplace hnot]
        exact hlater fun x hx => absurd hx (by simp)

/-- An ENGINE clause up to the name. -/
def EngineClause.opening (e : EngineClause) : Str :=
  e.keyword ++ e.beforeEquals.text ++ (if e.equals then ['='] else []) ++ e.beforeName.text

/-- A statement up to the name of its engine. -/
def CreateStatement.upToEngine (s : CreateStatement) (columns : List Lexeme) (clause : EngineClause) : Str :=
  s.head ++ (s.name.text ++ (s.onCluster.elim [] OnClusterClause.text ++ (s.uuid.elim [] UuidClause.text ++
    (s.beforeBody.text ++ (Sql.textOf columns ++ clause.opening)))))

section Distributed

variable {r : Rename} {s s' : CreateStatement} {columns after : List Lexeme} {clause : EngineClause}
  {isDistributed : clause.engine = "Distributed"} {args : DistributedArgs}

theorem CreateStatement.text_distributed (s : CreateStatement) (isDistributed : clause.engine = "Distributed")
    (args : DistributedArgs) : { s with body := .distributed columns clause isDistributed args after }.text =
      s.upToEngine columns clause ++ ("Distributed".toList ++ (clause.beforeParams.text ++
        '(' :: (args.text ++ ')' :: Sql.textOf after))) := by
  simp [text, tail, head, StatementBody.text, EngineClause.text, upToEngine, EngineClause.opening, isDistributed]

theorem notMem_blank {g : Str} (hg : Blank g) {c : Char} (hc : Str.isWhitespace c = false) : c ∉ g := by
  intro hmem
  rw [List.all_eq_true.mp hg c hmem] at hc
  cases hc

/-- The scan finds the engine. -/
theorem DistributedFound.find (h : DistributedFound s columns clause isDistributed args after) :
    findDistributedEngine 0 s.text = some (s.upToEngine columns clause,
      clause.beforeParams.text ++ '(' :: (args.text ++ ')' :: Sql.textOf after)) := by
  have htext : s.text = s.upToEngine columns clause ++ ("Distributed".toList ++ (clause.beforeParams.text ++
      '(' :: (args.text ++ ')' :: Sql.textOf after))) := by
    rw [← s.text_distributed isDistributed args, ← h.body]
  rw [findDistributedEngine_eq fun x hx => absurd hx (by simp), h.place, Option.map_some, htext,
    List.length_append, Nat.add_sub_cancel, List.take_left]
  rfl

theorem DistributedFound.splitOnce (h : DistributedFound s columns clause isDistributed args after) (inner : Str) :
    Str.splitOnce '(' (clause.beforeParams.text ++ '(' :: inner) = some (clause.beforeParams.text, inner) :=
  splitOnce_append (notMem_blank h.blank (by decide))

/-- What the scan leaves, with its first parenthesis. -/
theorem distributedInner_of_find {text before rest gap inner : Str}
    (hfind : findDistributedEngine 0 text = some (before, rest)) (hsplit : Str.splitOnce '(' rest = some (gap, inner)) :
    distributedInner text = some inner ∧ text = before ++ ("Distributed".toList ++ (gap ++ '(' :: inner)) := by
  rw [findDistributedEngine_eq fun x hx => absurd hx (by simp), Option.map_eq_some_iff] at hfind
  obtain ⟨t, hplace, hparts⟩ := hfind
  obtain ⟨rfl, rfl⟩ := Prod.mk.inj hparts
  refine ⟨by rw [distributedInner, hplace, Option.bind_some, hsplit]; rfl, ?_⟩
  obtain ⟨u, rfl⟩ := (List.mem_tails t text).mp (List.mem_of_find?_eq_some hplace)
  have hbegins := List.find?_some hplace
  rw [beginsDistributed, Bool.and_eq_true, List.isPrefixOf_iff_prefix] at hbegins
  obtain ⟨rest, rfl⟩ := hbegins.1
  obtain ⟨hrest, -⟩ := Str.splitOnce_eq_some_iff.mp hsplit
  rw [List.length_append, Nat.add_sub_cancel, List.take_left, ← hrest]
  rfl

theorem RetargetsEngine.text_eq (h : RetargetsEngine r s s') :
    rewriteDistributedEngine s.text r.srcDb r.srcTable r.dstDb r.dstTable = s'.text := by
  cases h with
  | untouched hother =>
    rw [rewriteDistributedEngine]
    cases hfind : findDistributedEngine 0 s.text with
    | none => rfl
    | some found =>
      obtain ⟨before, rest⟩ := found
      dsimp only [Option.bind_eq_bind, Option.bind_some]
      cases hsplit : Str.splitOnce '(' rest with
      | none => rfl
      | some parts =>
        obtain ⟨gap, inner⟩ := parts
        dsimp only [Option.bind_some]
        cases hparen : matchingParen 0 false inner with
        | none => rfl
        | some closed =>
          obtain ⟨args, after⟩ := closed
          dsimp only [Option.bind_some]
          have hnot : ∀ {cluster database table more}, Str.splitN 3 ',' args = cluster :: database :: table :: more →
              ¬(stripQuotes (Str.trim database) = r.srcDb ∧ stripQuotes (Str.trim table) = r.srcTable) :=
            fun hargs hnames => hother inner args after _ _ _ _ (distributedInner_of_find hfind hsplit).1 hparen
              ⟨hargs, hnames.1, hnames.2⟩
          split
          · rename_i hargs
            rw [if_neg (hnot hargs)]
            rfl
          · rfl
  | @found columns clause isDistributed args args' after cluster database table more hfound hcloses hnames hnew hmore =>
    rw [s.text_distributed isDistributed, rewriteDistributedEngine, hfound.find]
    dsimp only [Option.bind_eq_bind, Option.bind_some]
    rw [hfound.splitOnce]
    dsimp only [Option.bind_some]
    rw [hcloses]
    dsimp only [Option.bind_some]
    rw [hnames.split]
    dsimp only
    rw [if_pos ⟨hnames.db, hnames.table⟩, hnew]
    simp

theorem retouched_distributed {args' : DistributedArgs}
    (hbody : s.body = .distributed columns clause isDistributed args after) (hmore : args'.more = args.more) :
    s.Retouched { s with body := .distributed columns clause isDistributed args' after } := by
  refine CreateStatement.retouched_body ?_
  rw [hbody]
  exact .distributed columns clause isDistributed hmore after

theorem RetargetsEngine.retouched (h : RetargetsEngine r s s') : s.Retouched s' := by
  cases h with
  | untouched => exact .refl s
  | found hfound hcloses hnames hnew hmore => exact retouched_distributed hfound.body hmore

theorem ReclustersEngine.text_eq {cluster : Str} (h : ReclustersEngine cluster s s') :
    rewriteDistributedCluster s.text cluster = s'.text := by
  cases h with
  | untouched hsame =>
    rw [rewriteDistributedCluster]
    cases hfind : findDistributedEngine 0 s.text with
    | none => rfl
    | some found =>
      obtain ⟨before, rest⟩ := found
      dsimp only [Option.bind_eq_bind, Option.bind_some]
      cases hsplit : Str.splitOnce '(' rest with
      | none => rfl
      | some parts =>
        obtain ⟨gap, inner⟩ := parts
        dsimp only [Option.bind_some]
        cases hopen : Str.splitOnce quote inner with
        | none => rfl
        | some opened =>
          obtain ⟨a, literal⟩ := opened
          dsimp only [Option.bind_some]
          cases hclose : Str.splitOnce quote literal with
          | none => rfl
          | some closed =>
            obtain ⟨old, b⟩ := closed
            obtain ⟨rfl, ha⟩ := Str.splitOnce_eq_some_iff.mp hopen
            obtain ⟨rfl, hquote⟩ := Str.splitOnce_eq_some_iff.mp hclose
            obtain ⟨hinner, htext⟩ := distributedInner_of_find hfind hsplit
            dsimp only [Option.bind_some]
            rw [← hsame a old b hinner ha hquote]
            refine Eq.trans ?_ htext.symm
            simp
  | @found columns clause isDistributed args args' after a old b hfound hold hnew ha hquote hmore =>
    have hinner : args.text ++ ')' :: Sql.textOf after =
        a ++ quote :: (old ++ quote :: (b ++ ')' :: Sql.textOf after)) := by
      rw [hold]
      simp
    rw [s.text_distributed isDistributed, rewriteDistributedCluster, hfound.find]
    dsimp only [Option.bind_eq_bind, Option.bind_some]
    rw [hfound.splitOnce]
    dsimp only [Option.bind_some]
    rw [hinner, splitOnce_append ha]
    dsimp only [Option.bind_some]
    rw [splitOnce_append hquote]
    dsimp only [Option.bind_some]
    rw [hnew]
    simp

theorem ReclustersEngine.retouched {cluster : Str} (h : ReclustersEngine cluster s s') : s.Retouched s' := by
  cases h with
  | untouched => exact .refl s
  | found hfound hold hnew ha hquote hmore => exact retouched_distributed hfound.body hmore

end Distributed

/-! ## The header -/

section Header

variable {s s' : CreateStatement}

theorem GuardsCreate.text_eq (h : GuardsCreate s s') : ensureIfNotExistsTable s.text = s'.text := by
  rw [ensureIfNotExistsTable]
  cases h with
  | present h => rw [if_pos (Str.contains_iff.mpr h)]
  | unknown h =>
    rw [h]
    split_ifs <;> rfl
  | absent hnone hclause hkeywords =>
    have hs : s.text = s.keywords.text ++ (s.beforeName.text ++ (s.name.text ++ s.tail)) := by
      rw [CreateStatement.text, CreateStatement.head, hclause]
      simp
    rw [not_contains hnone, if_neg Bool.false_ne_true, hkeywords]
    dsimp only
    rw [hs, Str.replaceFirst, Str.cut_self, CreateStatement.text, CreateStatement.head]
    show [] ++ (s.keywords.text ++ " IF NOT EXISTS".toList) ++ _ =
      s.keywords.text ++ (" IF NOT EXISTS".toList ++ s.beforeName.text) ++ (s.name.text ++ s.tail)
    simp

/-- The keywords end with a word. -/
theorem CreateKeywords.endsWord (k : CreateKeywords) : Sql.endsWord k.text = true := by
  obtain ⟨l, hlast, hgap⟩ := (Option.any_eq_true ..).mp k.ends
  obtain ⟨ls, hls⟩ := List.getLast?_eq_some_iff.mp hlast
  have hword := List.all_eq_true.mp k.words l (by rw [hls]; simp)
  rw [Bool.not_eq_true'] at hgap
  rw [hgap, Bool.false_or, decide_eq_true_eq] at hword
  have htext : k.text = Sql.textOf ls ++ l.text := by
    rw [CreateKeywords.text, hls, Sql.textOf, List.flatMap_append, List.flatMap_singleton]
    rfl
  rw [htext, Sql.endsWord_append l.ne_nil, l.endsWord hword]

theorem GuardsCreate.retouched (h : GuardsCreate s s') : s.Retouched s' := by
  cases h with
  | present => exact .refl s
  | unknown => exact .refl s
  | absent hnone hclause =>
    refine ⟨rfl, fun c hc => ?_, fun _ h => h, ?_, fun hs => ⟨?_, hs.tail, hs.cluster⟩, .same _⟩
    · rw [hclause] at hc
      cases hc
    · rw [CreateStatement.comments, CreateStatement.comments, CreateStatement.gaps, CreateStatement.gaps, hclause]
      rfl
    · -- the keywords end with a word, and so does the clause
      have hname := hs.name
      rw [CreateStatement.head, hclause] at hname
      show Sql.standApart (s.keywords.text ++ (guardClause.text ++ s.beforeName.text)) s.name.text = true
      by_cases hgap : s.beforeName.text = []
      · rw [Option.elim_none, List.nil_append, hgap, List.append_nil, Sql.standApart, s.keywords.endsWord,
          Bool.true_and, Bool.not_eq_true'] at hname
        exact Sql.standApart_of_not_beginsWord hname
      · rw [← hname, Sql.standApart, Sql.standApart, Option.elim_none, List.nil_append, Sql.endsWord_append hgap,
          ← List.append_assoc, Sql.endsWord_append hgap]

/-- A quoted part of a name is read up to its closing quote. -/
theorem skipObjectName_quoted {part rest : Str} (h : backquote ∉ part) :
    skipObjectName .quoted (part ++ backquote :: rest) =
      (part ++ backquote :: (skipObjectName .closed rest).1, (skipObjectName .closed rest).2) := by
  induction part with
  | nil => rfl
  | cons c part ih =>
    have hc : c ≠ backquote := fun hc => h (by rw [hc]; exact List.mem_cons_self)
    have hstep : NameMode.quoted.step c = some .quoted := if_neg hc
    rw [List.cons_append, skipObjectName, hstep]
    dsimp only
    rw [ih fun hmem => h (List.mem_cons_of_mem _ hmem)]
    rfl

theorem skipObjectName_bare {name rest : Str} (h : name.all isNameChar = true)
    (hrest : ∀ c, rest.head? = some c → isNameChar c = false) :
    skipObjectName .bare (name ++ rest) = (name, rest) := by
  induction name with
  | nil =>
    cases rest with
    | nil => rfl
    | cons c rest =>
      have hstep : NameMode.bare.step c = none := if_neg (by rw [hrest c rfl]; decide)
      rw [List.nil_append, skipObjectName, hstep]
  | cons c name ih =>
    rw [List.all_cons, Bool.and_eq_true] at h
    have hstep : NameMode.bare.step c = some .bare := if_pos h.1
    rw [List.cons_append, skipObjectName, hstep]
    dsimp only
    rw [ih h.2]

/-- The name of the object is read up to its end. -/
theorem ReadsName.skip {rest name : Str} (h : ReadsName rest name) :
    skipObjectName .start (name ++ rest) = (name, rest) := by
  have hopen : ∀ t, skipObjectName .start (backquote :: t) =
      (backquote :: (skipObjectName .quoted t).1, (skipObjectName .quoted t).2) := fun _ => rfl
  induction h with
  | @quoted part hpart hrest =>
    have hclosed : skipObjectName .closed rest = ([], rest) := by
      cases rest with
      | nil => rfl
      | cons c rest =>
        have hc : c ≠ '.' := fun hc => hrest (by rw [hc]; rfl)
        have hstep : NameMode.closed.step c = none := if_neg hc
        rw [skipObjectName, hstep]
    rw [List.cons_append, List.cons_append, List.append_assoc, List.singleton_append, hopen,
      skipObjectName_quoted hpart, hclosed]
  | @plain name hname hne hrest =>
    obtain ⟨c, t, rfl⟩ := List.exists_cons_of_ne_nil hne
    rw [List.all_cons, Bool.and_eq_true] at hname
    have hback : c ≠ backquote := by
      rintro rfl
      exact absurd hname.1 (by decide)
    have hstep : NameMode.start.step c = some .bare := by
      rw [NameMode.step, if_neg hback, if_pos hname.1]
    rw [List.cons_append, skipObjectName, hstep]
    dsimp only
    rw [skipObjectName_bare hname.2 hrest]
  | @qualified part name hpart hname ih =>
    have hdot : ∀ t, skipObjectName .closed ('.' :: t) =
        ('.' :: (skipObjectName .start t).1, (skipObjectName .start t).2) := fun _ => rfl
    have hparts : backquote :: part ++ [backquote, '.'] ++ name ++ rest =
        backquote :: (part ++ backquote :: '.' :: (name ++ rest)) := by simp
    rw [hparts, hopen, skipObjectName_quoted hpart, hdot, ih]
    simp

/-- A name does not begin with white space. -/
theorem ReadsName.starts_dark {rest name : Str} (h : ReadsName rest name) :
    ∃ c t, name = c :: t ∧ Str.isWhitespace c = false := by
  cases h with
  | quoted => exact ⟨backquote, _, rfl, by decide⟩
  | plain hname hne =>
    obtain ⟨c, t, rfl⟩ := List.exists_cons_of_ne_nil hne
    rw [List.all_cons, Bool.and_eq_true] at hname
    refine ⟨c, t, rfl, Bool.eq_false_iff.mpr fun hspace => ?_⟩
    have hc := hname.1
    rw [isNameChar, alphanumericTable_ascii.space c hspace, Bool.false_or, Bool.or_eq_true, decide_eq_true_eq,
      decide_eq_true_eq] at hc
    rcases hc with rfl | rfl <;> exact absurd hspace (by decide)
  | qualified => exact ⟨backquote, _, rfl, by decide⟩

theorem AddsCluster.text_eq {cluster : Str} (h : AddsCluster cluster s s') :
    addOnClusterClause s.text cluster = s'.text := by
  rw [addOnClusterClause]
  cases h with
  | present h => rw [if_pos (Str.contains_iff.mpr h)]
  | unknown h =>
    rw [h]
    split_ifs <;> rfl
  | @added literal hraw hnone hclause hkeywords hblank hname =>
    obtain ⟨d, t, hd, hdark⟩ := hname.starts_dark
    have hs : s.text = (s.keywords.text ++ s.ifNotExists.elim [] IfNotExistsClause.text) ++
        (s.beforeName.text ++ (s.name.text ++ s.tail)) := by
      rw [CreateStatement.text, CreateStatement.head]
      simp
    have htrim : Str.trimStart (s.beforeName.text ++ (s.name.text ++ s.tail)) = s.name.text ++ s.tail := by
      rw [hd, List.cons_append]
      exact trimStart_blank hblank hdark
    have hspace : (s.beforeName.text ++ (s.name.text ++ s.tail)).takeWhile Str.isWhitespace = s.beforeName.text := by
      rw [hd, List.takeWhile_append_of_pos fun c hc => List.all_eq_true.mp hblank c hc, List.cons_append,
        List.takeWhile_cons_of_neg (Bool.eq_false_iff.mp hdark), List.append_nil]
    have hinserted : (clusterClause literal).text = " ON CLUSTER '".toList ++ cluster ++ [quote] := by
      rw [← hraw]
      simp [OnClusterClause.text, ClusterName.text, clusterClause, oneBlank, blank, Gap.text, Sql.textOf, quote]
    rw [not_contains hnone, if_neg Bool.false_ne_true, hkeywords]
    dsimp only
    rw [hs, List.drop_left, htrim, hspace, hname.skip]
    dsimp only
    show _ = s.keywords.text ++ (s.ifNotExists.elim [] IfNotExistsClause.text ++ s.beforeName.text) ++
      (s.name.text ++ ((clusterClause literal).text ++
        (s.uuid.elim [] UuidClause.text ++ (s.beforeBody.text ++ s.body.text))))
    rw [hinserted, CreateStatement.tail, hclause]
    simp

theorem AddsCluster.retouched {cluster : Str} (h : AddsCluster cluster s s') : s.Retouched s' := by
  cases h with
  | present => exact .refl s
  | unknown => exact .refl s
  | @added literal hraw hnone hclause =>
    refine ⟨rfl, fun _ h => h, fun c hc => ?_, ?_, fun hs => ⟨hs.name, ?_, fun c hc => ?_⟩, .same _⟩
    · rw [hclause] at hc
      cases hc
    · rw [CreateStatement.comments, CreateStatement.comments, CreateStatement.gaps, CreateStatement.gaps, hclause]
      simp [OnClusterClause.gaps, clusterClause]
      rfl
    · exact Sql.standApart_of_not_beginsWord rfl
    · obtain rfl := Option.some.inj hc
      refine Sql.standApart_of_not_endsWord ?_
      show Sql.endsWord (_ ++ (quote :: literal.raw ++ [quote])) = false
      rw [← List.append_assoc, Sql.endsWord_append (List.cons_ne_nil _ _)]
      rfl

end Header

/-! ## The whole rewriting -/

section Whole

variable {r : Rename} {s s' : CreateStatement}

theorem Renames.text_eq (h : Renames r s s') :
    rewriteCreateTableDdl s.text r.srcDb r.srcTable r.dstDb r.dstTable r.defaultReplicaPath = s'.text := by
  obtain ⟨hname, huuid, hpath, hengine⟩ := h
  rw [rewriteCreateTableDdl, hname.text_eq, huuid.text_eq, hpath.text_eq, hengine.text_eq]

theorem Renames.retouched (h : Renames r s s') : s.Retouched s' := by
  obtain ⟨hname, huuid, hpath, hengine⟩ := h
  exact ((hname.retouched.trans huuid.retouched).trans hpath.retouched).trans hengine.retouched

/-- The steps after the first keep the name. -/
theorem Renames.denotes (h : Renames r s s') : s'.name.Denotes r.dstDb r.dstTable := by
  obtain ⟨hname, huuid, hpath, hengine⟩ := h
  have hdenotes := hname.denotes
  cases huuid <;> cases hpath <;> cases hengine <;> exact hdenotes

/-- **Rewriting touches only its targets** where each step finds its target. -/
theorem rewriting_touches_only_targets (o : RewriteOptions) {s s' : CreateStatement} (h : o.FindsTargets s s') :
    o.TouchesOnlyTargets s := by
  obtain ⟨s₁, s₂, s₃, hrenames, hsame, hguards, hreclusters, hkeeps, hadds, hends⟩ := h.steps
  have hfirst : o.renamed s.text = s₂.text ∧ s.Retouched s₁ ∧ o.NameIs s s₁.name := by
    rw [RewriteOptions.renamed, RewriteOptions.NameIs]
    cases hr : o.rename with
    | none =>
      obtain rfl := hsame hr
      exact ⟨hguards.text_eq, .refl _, rfl⟩
    | some r =>
      have hren := hrenames r hr
      dsimp only
      rw [hren.text_eq]
      exact ⟨hguards.text_eq, hren.retouched, hren.denotes⟩
  have hsecond : o.reclustered s₂.text = s₃.text ∧ s₂.Retouched s₃ ∧ s₃.name = s₂.name := by
    rw [RewriteOptions.reclustered]
    by_cases hc : o.distributedCluster = []
    · obtain rfl := hkeeps hc
      exact ⟨if_pos hc, .refl _, rfl⟩
    · have hrec := hreclusters hc
      refine ⟨(if_neg hc).trans hrec.text_eq, hrec.retouched, ?_⟩
      cases hrec <;> rfl
  have hthird : o.distributed s₃.text = s'.text ∧ s₃.Retouched s' ∧ s'.name = s₃.name := by
    rw [RewriteOptions.distributed]
    cases hc : o.onCluster with
    | none =>
      obtain rfl := hends hc
      exact ⟨rfl, .refl _, rfl⟩
    | some cluster =>
      have hadd := hadds cluster hc
      refine ⟨hadd.text_eq, hadd.retouched, ?_⟩
      cases hadd <;> rfl
  have hname : s₂.name = s₁.name := by
    cases hguards <;> rfl
  refine ⟨s', ?_, ((hfirst.2.1.trans hguards.retouched).trans hsecond.2.1).trans hthird.2.1, ?_⟩
  · rw [RewriteOptions.rewrite, hfirst.1, hsecond.1, hthird.1]
  · rw [hthird.2.2, hsecond.2.2, hname]
    exact hfirst.2.2

end Whole

/-! ## Statements whose targets are found, or not -/

/-- A word of a statement. -/
def wordOf (text : Str) : Lexeme :=
  if h : Sql.LexemeKind.word.admits text = true then { kind := .word, text := text, proper := h } else blank

def identOf (text : Str) : Ident :=
  if h : ((wordOf text).kind = .word || (wordOf text).kind = .identifier) = true then
    { lexeme := wordOf text, named := h }
  else { lexeme := { kind := .word, text := ['a'], proper := rfl }, named := rfl }

/-- The header of a statement of a table with a name and a body. -/
def tableStatement (db table : Str) (body : StatementBody) : CreateStatement where
  keywords :=
    { lexemes := [wordOf "CREATE", blank, wordOf "TABLE"]
      starts := by decide +kernel
      words := by decide +kernel
      ends := by decide +kernel }
  ifNotExists := none
  beforeName := oneBlank
  name := { db := some (identOf db), table := identOf table }
  onCluster := none
  uuid := none
  beforeBody := oneBlank
  body := body

/-- A literal of a statement. -/
def literalOf (text : Str) : Lexeme :=
  if h : Sql.LexemeKind.literal.admits text = true then { kind := .literal, text := text, proper := h } else blank

/-- A comment of a statement. -/
def commentOf (text : Str) : Lexeme :=
  if h : Sql.LexemeKind.comment.admits text = true then { kind := .comment, text := text, proper := h } else blank

/-- `CREATE TABLE db.t UUID 'u' /* c */ ENGINE Log`. -/
def movedTable : CreateStatement :=
  { tableStatement "db" "t" (.plain [wordOf "ENGINE", blank, wordOf "Log"]) with
    uuid := some
      { before := oneBlank
        keyword := "UUID"
        isKeyword := rfl
        between := oneBlank
        uuid := { raw := "u", closed := rfl } }
    beforeBody := { lexemes := [blank, commentOf "/* c */", blank], blank := by decide +kernel } }

/-- The table becomes `new.t`, on a cluster `c`. -/
def movedOptions : RewriteOptions where
  rename := some { srcDb := "db", srcTable := "t", dstDb := "new", dstTable := "t", defaultReplicaPath := "/x" }
  distributedCluster := []
  onCluster := some "c"

theorem moved_table_touches_only_targets : movedOptions.TouchesOnlyTargets movedTable := by
  let r : Rename := { srcDb := "db", srcTable := "t", dstDb := "new", dstTable := "t", defaultReplicaPath := "/x" }
  let s₁ : CreateStatement := { movedTable with name := { db := some (identOf "new"), table := identOf "t" } }
  let s₂ : CreateStatement := { s₁ with uuid := none, beforeBody := movedTable.beforeBody }
  let s₃ : CreateStatement := { s₂ with ifNotExists := some guardClause }
  let s₄ : CreateStatement := { s₃ with onCluster := some (clusterClause { raw := "c", closed := rfl }) }
  have hname : RenamesTo r movedTable s₁ :=
    .plain (by decide +kernel) (by decide +kernel) ⟨by decide +kernel, by decide +kernel⟩ (by decide +kernel)
      (by decide +kernel) (by decide +kernel)
  have huuid : DropsUuid s₁ s₂ :=
    .present rfl rfl (by decide +kernel) (by decide +kernel) (by decide +kernel) (by decide +kernel)
      (by decide +kernel)
  have hpath : MovesPath "/x" s₂ s₂ := by
    have hnone : firstReplicatedLiteral s₂.text = none := by decide +kernel
    refine .untouched fun u old t h => ?_
    rw [hnone] at h
    cases h
  have hengine : RetargetsEngine r s₂ s₂ := by
    have hnone : distributedInner s₂.text = none := by decide +kernel
    refine .untouched fun inner args after cluster database table more h => ?_
    rw [hnone] at h
    cases h
  have hrename : Renames r movedTable s₂ := .steps hname huuid hpath hengine
  have hguards : GuardsCreate s₂ s₃ := .absent (by decide +kernel) rfl (by decide +kernel)
  have hspace : s₃.tail.head? = some ' ' := by decide +kernel
  have hadds : AddsCluster "c" s₃ s₄ := by
    refine .added rfl (by decide +kernel) rfl (by decide +kernel) rfl
      (.plain (by decide +kernel) (by decide +kernel) fun c hc => ?_)
    obtain rfl : ' ' = c := Option.some.inj (hspace.symm.trans hc)
    decide
  refine rewriting_touches_only_targets movedOptions (show movedOptions.FindsTargets movedTable s₄ from
    ⟨⟨s₂, s₃, s₃, ?_, ?_, hguards, ?_, ?_, ?_, ?_⟩⟩)
  · rintro r' hr
    obtain rfl : r = r' := Option.some.inj hr
    exact hrename
  · rintro ⟨⟩
  · exact fun h => absurd rfl h
  · exact fun _ => rfl
  · rintro cluster hc
    obtain rfl : "c".toList = cluster := Option.some.inj hc
    exact hadds
  · rintro ⟨⟩

/-- A statement with a comment on its table. -/
def commentedTable : CreateStatement :=
  tableStatement "db" "t" (.plain [wordOf "ENGINE", blank, wordOf "Log", blank, wordOf "COMMENT", blank,
    literalOf "'see CREATE MATERIALIZED VIEW v'"])

/-- The keywords of another kind of object are found in the comment. -/
theorem comment_is_rewritten :
    ¬RewriteOptions.TouchesOnlyTargets { rename := none, distributedCluster := [], onCluster := none } commentedTable := by
  rintro ⟨s', htext, hretouched, -⟩
  have hbody : s'.body = commentedTable.body := by
    have h := hretouched.body
    generalize s'.body = b at h
    cases h
    rfl
  have hsuffix : commentedTable.body.text <:+ s'.text := by
    rw [← hbody]
    exact ⟨s'.head ++ (s'.name.text ++ (s'.onCluster.elim [] OnClusterClause.text ++ (s'.uuid.elim [] UuidClause.text ++
      s'.beforeBody.text))), by simp [CreateStatement.text, CreateStatement.tail]⟩
  rw [← htext] at hsuffix
  revert hsuffix
  decide +kernel

end Chbackup
