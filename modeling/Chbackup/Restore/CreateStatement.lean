import Chbackup.Restore.Locators
import Chbackup.Restore.Schema

/-!
# CREATE statements and what a restore may change in them

A CREATE statement in its parts: the keywords, `IF NOT EXISTS`, the name, the clauses of the header, and the
rest with the arguments of a Replicated or a Distributed engine.  A restore may change the name, the clauses
and these arguments; `Retouched` says that everything else is as it was.
-/

namespace Chbackup

open Sql (Gap Lexeme Literal)

/-! ## Names -/

/-- The text that a quoted identifier denotes: two quotes stand for one, and a backslash for the character
that follows it. -/
def unescape (q : Char) : Str → Str
  | [] => []
  | [c] => [c]
  | c :: d :: s =>
    if c = backslash then d :: unescape q s
    else if c = q ∧ d = q then c :: unescape q s
    else c :: unescape q (d :: s)

/-- An identifier, quoted or not. -/
structure Ident where
  lexeme : Lexeme
  named : (lexeme.kind = .word || lexeme.kind = .identifier) = true

namespace Ident

def text (n : Ident) : Str := n.lexeme.text

/-- The name that an identifier denotes. -/
def value (n : Ident) : Str :=
  if n.lexeme.kind = .word then n.text
  else match n.text with
    | [] => []
    | q :: s => unescape q s.dropLast

end Ident

/-- The name of an object, with its database if it is written. -/
structure ObjectName where
  db : Option Ident
  table : Ident

namespace ObjectName

def text (n : ObjectName) : Str := (n.db.elim [] fun db => db.text ++ ['.']) ++ n.table.text

/-- The name denotes a table of a database. -/
def Denotes (n : ObjectName) (db table : Str) : Prop :=
  n.db.map Ident.value = some db ∧ n.table.value = table

end ObjectName

/-! ## Clauses of the header -/

/-- `CREATE` and the kind of the object, which may take several words. -/
structure CreateKeywords where
  lexemes : List Lexeme
  starts : (lexemes.head?.any fun l => l.text.map Char.toUpper = "CREATE".toList) = true
  words : (lexemes.all fun l => l.isGap || l.kind = .word) = true
  /-- The gap after them is that of the next clause. -/
  ends : (lexemes.getLast?.any fun l => !l.isGap) = true

def CreateKeywords.text (k : CreateKeywords) : Str := Sql.textOf k.lexemes

/-- An `IF NOT EXISTS` clause, with the gap before it. -/
structure IfNotExistsClause where
  before : Gap
  ifWord : Str
  isIf : ifWord.map Char.toUpper = "IF"
  beforeNot : Gap
  notWord : Str
  isNot : notWord.map Char.toUpper = "NOT"
  beforeExists : Gap
  existsWord : Str
  isExists : existsWord.map Char.toUpper = "EXISTS"
  /-- The words stand apart. -/
  apart : before.lexemes ≠ [] ∧ beforeNot.lexemes ≠ [] ∧ beforeExists.lexemes ≠ []

namespace IfNotExistsClause

def text (c : IfNotExistsClause) : Str :=
  c.before.text ++ c.ifWord ++ c.beforeNot.text ++ c.notWord ++ c.beforeExists.text ++ c.existsWord

def gaps (c : IfNotExistsClause) : List Gap := [c.before, c.beforeNot, c.beforeExists]

end IfNotExistsClause

/-- The name of a cluster: an identifier, or a literal with or without macros. -/
inductive ClusterName where
  | ident (name : Ident)
  | literal (name : Literal)

namespace ClusterName

def text : ClusterName → Str
  | ident name => name.text
  | literal name => quote :: name.raw ++ [quote]

/-- The name begins with a quote. -/
def quoted : ClusterName → Bool
  | ident name => name.lexeme.kind = .identifier
  | literal _ => true

end ClusterName

/-- An `ON CLUSTER` clause, with the gap before it. -/
structure OnClusterClause where
  before : Gap
  onWord : Str
  isOn : onWord.map Char.toUpper = "ON"
  beforeCluster : Gap
  clusterWord : Str
  isCluster : clusterWord.map Char.toUpper = "CLUSTER"
  beforeName : Gap
  name : ClusterName
  /-- The words stand apart. -/
  apart : beforeCluster.lexemes ≠ [] ∧ (beforeName.lexemes ≠ [] ∨ name.quoted = true)

namespace OnClusterClause

def text (c : OnClusterClause) : Str :=
  c.before.text ++ c.onWord ++ c.beforeCluster.text ++ c.clusterWord ++ c.beforeName.text ++ c.name.text

def gaps (c : OnClusterClause) : List Gap := [c.before, c.beforeCluster, c.beforeName]

end OnClusterClause

/-- A UUID clause, with the gap before it. -/
structure UuidClause where
  before : Gap
  keyword : Str
  isKeyword : keyword.map Char.toUpper = "UUID"
  between : Gap
  uuid : Literal

namespace UuidClause

def text (u : UuidClause) : Str :=
  u.before.text ++ u.keyword ++ u.between.text ++ quote :: u.uuid.raw ++ [quote]

def gaps (u : UuidClause) : List Gap := [u.before, u.between]

end UuidClause

/-! ## Engines -/

/-- An ENGINE clause up to its parameters. -/
structure EngineClause where
  keyword : Str
  isKeyword : keyword.map Char.toUpper = "ENGINE"
  beforeEquals : Gap
  equals : Bool
  beforeName : Gap
  engine : Str
  isWord : Sql.LexemeKind.word.admits engine = true
  beforeParams : Gap

def EngineClause.text (e : EngineClause) : Str :=
  e.keyword ++ e.beforeEquals.text ++ (if e.equals then ['='] else []) ++ e.beforeName.text ++ e.engine ++
    e.beforeParams.text

/-- One argument of an engine, with the gaps around it. -/
structure EngineArgument where
  lexemes : List Lexeme
  written : (lexemes.any fun l => !l.isGap) = true
  single : Sql.isSingle 0 lexemes = true

def EngineArgument.text (a : EngineArgument) : Str := Sql.textOf a.lexemes

/-- The arguments of a Distributed engine. -/
structure DistributedArgs where
  cluster : EngineArgument
  database : EngineArgument
  table : EngineArgument
  /-- What follows the table, with its comma. -/
  more : List Lexeme

def DistributedArgs.text (a : DistributedArgs) : Str :=
  a.cluster.text ++ ',' :: a.database.text ++ ',' :: a.table.text ++ Sql.textOf a.more

/-! ## Statements -/

/-- What follows the header. -/
inductive StatementBody where
  /-- A statement with another engine or without one. -/
  | plain (lexemes : List Lexeme)
  /-- The first argument of a Replicated engine, and what follows it. -/
  | replicated (columns : List Lexeme) (clause : EngineClause) (isReplicated : isReplicatedEngine clause.engine = true)
      (opening : Gap) (path : Literal) (after : List Lexeme)
  | distributed (columns : List Lexeme) (clause : EngineClause) (isDistributed : clause.engine = "Distributed")
      (args : DistributedArgs) (after : List Lexeme)

def StatementBody.text : StatementBody → Str
  | plain lexemes => Sql.textOf lexemes
  | replicated columns clause _ opening path after =>
    Sql.textOf columns ++ clause.text ++ '(' :: opening.text ++ quote :: path.raw ++ quote :: Sql.textOf after
  | distributed columns clause _ args after =>
    Sql.textOf columns ++ clause.text ++ '(' :: args.text ++ ')' :: Sql.textOf after

/-- A CREATE statement. -/
structure CreateStatement where
  keywords : CreateKeywords
  ifNotExists : Option IfNotExistsClause
  beforeName : Gap
  name : ObjectName
  onCluster : Option OnClusterClause
  uuid : Option UuidClause
  beforeBody : Gap
  body : StatementBody

namespace CreateStatement

/-- The statement up to its name. -/
def head (s : CreateStatement) : Str :=
  s.keywords.text ++ (s.ifNotExists.elim [] IfNotExistsClause.text ++ s.beforeName.text)

/-- The statement after its name. -/
def tail (s : CreateStatement) : Str :=
  s.onCluster.elim [] OnClusterClause.text ++
    (s.uuid.elim [] UuidClause.text ++ (s.beforeBody.text ++ s.body.text))

def text (s : CreateStatement) : Str := s.head ++ (s.name.text ++ s.tail)

/-- What stands between the words of the header. -/
def gaps (s : CreateStatement) : List Gap :=
  s.ifNotExists.elim [] IfNotExistsClause.gaps ++ s.beforeName :: s.onCluster.elim [] OnClusterClause.gaps ++
    s.uuid.elim [] UuidClause.gaps ++ [s.beforeBody]

/-- The statement after its `ON CLUSTER` clause. -/
def afterCluster (s : CreateStatement) : Str :=
  s.uuid.elim [] UuidClause.text ++ (s.beforeBody.text ++ s.body.text)

/-- The name and the cluster of the header stand apart from what surrounds them. -/
structure Apart (s : CreateStatement) : Prop where
  name : Sql.standApart s.head s.name.text = true
  tail : Sql.standApart s.name.text s.tail = true
  cluster : ∀ c, s.onCluster = some c → Sql.standApart c.text s.afterCluster = true

/-- The comments of the header. -/
def comments (s : CreateStatement) : List Str := s.gaps.flatMap Gap.comments

end CreateStatement

/-- Everything but the first argument of a Replicated engine and the first three of a Distributed engine is
the same. -/
inductive StatementBody.Retouched : StatementBody → StatementBody → Prop
  | same (b : StatementBody) : Retouched b b
  | replicated (columns : List Lexeme) (clause : EngineClause) (isReplicated : isReplicatedEngine clause.engine = true)
      (opening : Gap) (path path' : Literal) (after : List Lexeme) :
      Retouched (.replicated columns clause isReplicated opening path after)
        (.replicated columns clause isReplicated opening path' after)
  | distributed (columns : List Lexeme) (clause : EngineClause) (isDistributed : clause.engine = "Distributed")
      {args args' : DistributedArgs} (hmore : args'.more = args.more) (after : List Lexeme) :
      Retouched (.distributed columns clause isDistributed args after)
        (.distributed columns clause isDistributed args' after)

/-- Everything but the name, the clauses of the header and the arguments of the engine is the same.  Of the
clauses, `IF NOT EXISTS` and `ON CLUSTER` may come in, but stay where they are, and no words run together. -/
structure CreateStatement.Retouched (s s' : CreateStatement) : Prop where
  keywords : s'.keywords = s.keywords
  ifNotExists : ∀ c, s.ifNotExists = some c → s'.ifNotExists = some c
  onCluster : ∀ c, s.onCluster = some c → s'.onCluster = some c
  comments : s'.comments = s.comments
  apart : s.Apart → s'.Apart
  body : s.body.Retouched s'.body

/-! ## What `create_tables` does with a statement -/

/-- A rename of an object. -/
structure Rename where
  srcDb : Str
  srcTable : Str
  dstDb : Str
  dstTable : Str
  defaultReplicaPath : Str

/-- What decides how a statement is rewritten. -/
structure RewriteOptions where
  rename : Option Rename
  /-- `restore_distributed_cluster`. -/
  distributedCluster : Str
  onCluster : Option Str

namespace RewriteOptions

variable (o : RewriteOptions)

/-- The statement under its new name, if it has one. -/
def renamed (ddl : Str) : Str :=
  match o.rename with
  | some r => ensureIfNotExistsTable
      (rewriteCreateTableDdl ddl r.srcDb r.srcTable r.dstDb r.dstTable r.defaultReplicaPath)
  | none => ensureIfNotExistsTable ddl

/-- The statement with the cluster of its Distributed engine. -/
def reclustered (ddl : Str) : Str :=
  if o.distributedCluster = [] then ddl else rewriteDistributedCluster ddl o.distributedCluster

/-- The statement with the cluster it runs on. -/
def distributed (ddl : Str) : Str :=
  match o.onCluster with
  | some cluster => addOnClusterClause ddl cluster
  | none => ddl

/-- The rewriting of a statement in `create_tables`, up to the UUID macro: the steps of `tableDdl`. -/
def rewrite (ddl : Str) : Str := o.distributed (o.reclustered (o.renamed ddl))

/-- The name that the result must have: the destination, or the old name where nothing is renamed. -/
def NameIs (s : CreateStatement) (name : ObjectName) : Prop :=
  match o.rename with
  | some r => name.Denotes r.dstDb r.dstTable
  | none => name = s.name

/-- **Rewriting touches only its targets.** -/
def TouchesOnlyTargets (s : CreateStatement) : Prop :=
  ∃ s' : CreateStatement, o.rewrite s.text = s'.text ∧ s.Retouched s' ∧ o.NameIs s s'.name

end RewriteOptions

end Chbackup
