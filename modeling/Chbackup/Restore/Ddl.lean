import Chbackup.Lib.Text

/-!
# Rewriting CREATE statements

The text operations a restore applies to the CREATE statement of a table before it executes it
(`src/restore/remap.rs`, `src/restore/schema.rs`).  None of them parses the statement: each looks
for a marker and edits the text around its first occurrence.  The one exception is the scanner
behind the UUID macro (`replicatedZkPathSpan`), which starts from the `ENGINE =` clause and steps
over string literals.
-/

namespace Chbackup

/-- The single quote. -/
def quote : Char := Char.ofNat 39

/-- The character that quotes identifiers. -/
def backquote : Char := Char.ofNat 96

/-- The escape character of string literals. -/
def backslash : Char := Char.ofNat 92

/-! ## Names -/

/-- A table name with both parts quoted. -/
def quotedName (db table : Str) : Str :=
  backquote :: db ++ [backquote, '.', backquote] ++ table ++ [backquote]

/-- A table name with no part quoted. -/
def plainName (db table : Str) : Str := db ++ '.' :: table

/-- `rewrite_table_name`: the first occurrence of the source name, in its quoted form if that
occurs anywhere. -/
def rewriteTableName (ddl srcDb srcTable dstDb dstTable : Str) : Str :=
  if Str.contains (quotedName srcDb srcTable) ddl then
    Str.replaceFirst (quotedName srcDb srcTable) (quotedName dstDb dstTable) ddl
  else if Str.contains (plainName srcDb srcTable) ddl then
    Str.replaceFirst (plainName srcDb srcTable) (plainName dstDb dstTable) ddl
  else ddl

/-- `remove_uuid_clause`. -/
def removeUuidClause (ddl : Str) : Str :=
  match Str.cut "UUID '" ddl with
  | none => ddl
  | some (before, afterMarker) =>
    match Str.splitOnce quote afterMarker with
    | none => ddl
    | some (_, rest) =>
      let kept := (before.reverse.dropWhile Str.isWhitespace).reverse
      let after := rest.trimStart
      if after = [] then kept else kept ++ ' ' :: after

/-- `rewrite_create_database_ddl`. -/
def rewriteCreateDatabaseDdl (ddl srcDb dstDb : Str) : Str :=
  if srcDb = dstDb then ddl
  else
    let quotedSrc := backquote :: srcDb ++ [backquote]
    let quotedDst := backquote :: dstDb ++ [backquote]
    if Str.contains quotedSrc ddl then Str.replaceAll quotedSrc quotedDst ddl
    else if Str.contains ("CREATE DATABASE IF NOT EXISTS ".toList ++ srcDb) ddl then
      Str.replaceFirst ("CREATE DATABASE IF NOT EXISTS ".toList ++ srcDb)
        ("CREATE DATABASE IF NOT EXISTS ".toList ++ dstDb) ddl
    else if Str.contains ("CREATE DATABASE ".toList ++ srcDb) ddl then
      Str.replaceFirst ("CREATE DATABASE ".toList ++ srcDb) ("CREATE DATABASE ".toList ++ dstDb) ddl
    else ddl

/-! ## Engine parameters -/

/-- What stands between the first two quotes after the first opening bracket that follows the
first `Replicated`: the text up to and including the opening quote, the text between, and the
text from the closing quote on. -/
def firstReplicatedLiteral (ddl : Str) : Option (Str × Str × Str) := do
  let (before, rest) ← Str.cut "Replicated" ddl
  let (name, args) ← Str.splitOnce '(' rest
  let (skipped, literal) ← Str.splitOnce quote args
  let (path, after) ← Str.splitOnce quote literal
  return (before ++ "Replicated" ++ name ++ '(' :: skipped ++ [quote], path, quote :: after)

/-- `rewrite_replicated_zk_path`. -/
def rewriteReplicatedZkPath (ddl dstDb dstTable defaultReplicaPath : Str) : Str :=
  match firstReplicatedLiteral ddl with
  | none => ddl
  | some (before, _, after) =>
    before ++ Str.replaceAll "\x7btable\x7d" dstTable
      (Str.replaceAll "\x7bdatabase\x7d" dstDb defaultReplicaPath) ++ after

/-- `parse_replicated_params`. -/
def parseReplicatedParams (ddl : Str) : Option (Str × Str) := do
  let (_, rest) ← Str.cut "Replicated" ddl
  let (_, args) ← Str.splitOnce '(' rest
  if [')'].isPrefixOf args.trimStart then none
  else
    let (_, literal) ← Str.splitOnce quote args
    let (zkPath, afterFirst) ← Str.splitOnce quote literal
    let (_, literal₂) ← Str.splitOnce quote afterFirst
    let (replica, _) ← Str.splitOnce quote literal₂
    return (zkPath, replica)

/-- `resolve_zk_macros`, with the macros in the order in which the hash map yields them. -/
def resolveZkMacros (template : Str) (macros : List (Str × Str)) : Str :=
  macros.foldl (fun s m => Str.replaceAll ('\x7b' :: m.1 ++ ['\x7d']) m.2 s) template

/-- `find_matching_paren`: the text before the closing bracket that matches, when `depth`
brackets are open and `inQuote` tells whether a single-quoted text is. -/
def matchingParen : Nat → Bool → Str → Option (Str × Str)
  | _, _, [] => none
  | depth, inQuote, c :: s =>
    let continue_ (depth : Nat) (inQuote : Bool) :=
      (matchingParen depth inQuote s).map fun p => (c :: p.1, p.2)
    if c = quote then continue_ depth (!inQuote)
    else if inQuote then continue_ depth inQuote
    else if c = '(' then continue_ (depth + 1) inQuote
    else if c = ')' then
      match depth with
      | 0 => some ([], c :: s)
      | depth + 1 => continue_ depth inQuote
    else continue_ depth inQuote

/-- `find_distributed_engine`: the text up to `Distributed` and the text after it, at the first
occurrence that an opening bracket follows.  `skip` is the number of characters left of an
occurrence that none follows. -/
def findDistributedEngine : Nat → Str → Option (Str × Str)
  | _, [] => none
  | skip + 1, c :: s => (findDistributedEngine skip s).map fun p => (c :: p.1, p.2)
  | 0, c :: s =>
    let marker : Str := "Distributed"
    if marker.isPrefixOf (c :: s) then
      if ['('].isPrefixOf (Str.trimStart ((c :: s).drop marker.length)) then
        some ([], (c :: s).drop marker.length)
      else (findDistributedEngine (marker.length - 1) s).map fun p => (c :: p.1, p.2)
    else (findDistributedEngine 0 s).map fun p => (c :: p.1, p.2)

/-- `strip_quotes`. -/
def stripQuotes (s : Str) : Str :=
  let s := s.trim
  if [quote].isPrefixOf s ∧ [quote].isSuffixOf s ∧ 2 ≤ s.length then (s.drop 1).dropLast else s

/-- An argument of a Distributed engine with a new value, quoted as the old one was. -/
def requoteArgument (old new : Str) : Str :=
  if [quote].isPrefixOf old then ' ' :: quote :: new ++ [quote] else ' ' :: new

/-- `rewrite_distributed_engine`: the arguments are rewritten if they name the table itself. -/
def rewriteDistributedEngine (ddl srcDb srcTable dstDb dstTable : Str) : Str :=
  (do
    let (before, rest) ← findDistributedEngine 0 ddl
    let (gap, inner) ← Str.splitOnce '(' rest
    let (args, after) ← matchingParen 0 false inner
    match Str.splitN 3 ',' args with
    | cluster :: dbArg :: tableArg :: more =>
      if stripQuotes dbArg.trim = srcDb ∧ stripQuotes tableArg.trim = srcTable then
        return before ++ "Distributed" ++ gap ++ '(' :: cluster ++
          ',' :: requoteArgument dbArg.trim dstDb ++ ',' :: requoteArgument tableArg.trim dstTable ++
          more.flatMap (',' :: ·) ++ after
      else none
    | _ => none).getD ddl

/-- `rewrite_distributed_cluster`. -/
def rewriteDistributedCluster (ddl newCluster : Str) : Str :=
  (do
    let (before, rest) ← findDistributedEngine 0 ddl
    let (gap, inner) ← Str.splitOnce '(' rest
    let (skipped, literal) ← Str.splitOnce quote inner
    let (_, after) ← Str.splitOnce quote literal
    return before ++ "Distributed" ++ gap ++ '(' :: skipped ++ quote :: newCluster ++
      quote :: after).getD ddl

/-- `rewrite_create_table_ddl`. -/
def rewriteCreateTableDdl (ddl srcDb srcTable dstDb dstTable defaultReplicaPath : Str) : Str :=
  let named := rewriteTableName ddl srcDb srcTable dstDb dstTable
  let anonymous := removeUuidClause named
  let replicated := rewriteReplicatedZkPath anonymous dstDb dstTable defaultReplicaPath
  rewriteDistributedEngine replicated srcDb srcTable dstDb dstTable

/-! ## Clauses -/

/-- `ensure_if_not_exists_database`. -/
def ensureIfNotExistsDatabase (ddl : Str) : Str :=
  if Str.contains "IF NOT EXISTS" ddl then ddl
  else Str.replaceFirst "CREATE DATABASE" "CREATE DATABASE IF NOT EXISTS" ddl

/-- The object kinds in the order in which `ensure_if_not_exists_table` looks for them. -/
def objectKeywords : List Str :=
  ["CREATE MATERIALIZED VIEW", "CREATE LIVE VIEW", "CREATE WINDOW VIEW", "CREATE TABLE",
    "CREATE VIEW", "CREATE DICTIONARY"]

/-- `ensure_if_not_exists_table`. -/
def ensureIfNotExistsTable (ddl : Str) : Str :=
  if Str.contains "IF NOT EXISTS" ddl then ddl
  else match objectKeywords.find? fun keyword => Str.contains keyword ddl with
    | some keyword => Str.replaceFirst keyword (keyword ++ " IF NOT EXISTS") ddl
    | none => ddl

/-- A character of an unquoted name, the dot included. -/
def isNameChar (c : Char) : Bool := c.isAlphanum || c = '_' || c = '.'

/-- Where the reading of an object name stands: at the start of a part, inside a quoted part, at
its end, or inside an unquoted part. -/
inductive NameMode where
  | start
  | quoted
  | closed
  | bare
  deriving DecidableEq

/-- How a character continues an object name, if it does.  An unquoted part takes its dots with
it, so a quoted part is not read after one. -/
def NameMode.step : NameMode → Char → Option NameMode
  | .start, c => if c = backquote then some .quoted else if isNameChar c then some .bare else none
  | .quoted, c => if c = backquote then some .closed else some .quoted
  | .closed, c => if c = '.' then some .start else none
  | .bare, c => if isNameChar c then some .bare else none

/-- `skip_object_name`: the object name at the start of a text, and what follows it. -/
def skipObjectName : NameMode → Str → Str × Str
  | _, [] => ([], [])
  | mode, c :: s =>
    match mode.step c with
    | some mode => (c :: (skipObjectName mode s).1, (skipObjectName mode s).2)
    | none => ([], c :: s)

/-- The statements that `add_on_cluster_clause` knows, in the order in which it tries them. -/
def clusterPrefixes : List Str :=
  ["CREATE TABLE IF NOT EXISTS", "CREATE TABLE", "CREATE MATERIALIZED VIEW IF NOT EXISTS",
    "CREATE MATERIALIZED VIEW", "CREATE VIEW IF NOT EXISTS", "CREATE VIEW",
    "CREATE DICTIONARY IF NOT EXISTS", "CREATE DICTIONARY", "CREATE DATABASE IF NOT EXISTS",
    "CREATE DATABASE", "DROP TABLE IF EXISTS", "DROP TABLE", "DROP DATABASE IF EXISTS",
    "DROP DATABASE"]

/-- `add_on_cluster_clause`. -/
def addOnClusterClause (ddl cluster : Str) : Str :=
  if Str.contains "ON CLUSTER" ddl then ddl
  else match clusterPrefixes.find? fun keyword => keyword.isPrefixOf ddl with
    | none => ddl
    | some keyword =>
      let after := ddl.drop keyword.length
      let space := after.takeWhile Str.isWhitespace
      let (name, rest) := skipObjectName .start (Str.trimStart after)
      keyword ++ space ++ name ++ " ON CLUSTER '" ++ cluster ++ quote :: rest

/-! ## The anchored scanner -/

/-- The content of a string literal whose opening quote has been read, and the text from its
closing quote on (`string_literal_end`).  A backslash escapes the next character and two quotes
stand for one. -/
def stringLiteral : (escaped : Bool) → Str → Option (Str × Str)
  | _, [] => none
  | escaped, c :: s =>
    let take (escaped : Bool) := (stringLiteral escaped s).map fun p => (c :: p.1, p.2)
    if escaped then take false
    else if c = backslash then take true
    else if c = quote then
      if [quote].isPrefixOf s then take true else some ([], c :: s)
    else take false

/-- Where the scan of a statement stands. -/
inductive ScanMode where
  | code
  | literal
  | escaped
  deriving DecidableEq

/-- The text that follows the first `ENGINE =` outside of string literals. -/
def engineClause : ScanMode → Str → Option Str
  | _, [] => none
  | .escaped, _ :: s => engineClause .literal s
  | .literal, c :: s =>
    if c = backslash then engineClause .escaped s
    else if c = quote then
      if [quote].isPrefixOf s then engineClause .escaped s else engineClause .code s
    else engineClause .literal s
  | .code, c :: s =>
    match (Str.stripPrefix? "ENGINE" (c :: s)).bind fun after =>
        Str.stripPrefix? ['='] after.trimStart with
    | some name => some name.trimStart
    | none => if c = quote then engineClause .literal s else engineClause .code s

/-- The text after the opening quote of the first literal before a closing bracket. -/
def nextArgument : Str → Option Str
  | [] => none
  | c :: s => if c = quote then some s else if c = ')' then none else nextArgument s

section Scanner

variable (isAlphanumeric : Char → Bool)

/-- The parameter list of a replicated engine, without its opening bracket. -/
def replicatedArguments (ddl : Str) : Option Str := do
  let name ← engineClause .code ddl
  if ("Replicated" : Str).isPrefixOf name then
    Str.stripPrefix? ['('] (Str.trimStart (name.dropWhile fun c => isAlphanumeric c || c = '_'))
  else none

/-- `replicated_zk_path_span`: the statement up to the ZooKeeper path, the path, and the rest. -/
def replicatedZkPathSpan (ddl : Str) : Option (Str × Str × Str) := do
  let args ← replicatedArguments isAlphanumeric ddl
  let literal ← nextArgument args
  let (path, after) ← stringLiteral false literal
  return (ddl.take (ddl.length - literal.length), path, after)

/-- `replace_uuid_macro`. -/
def replaceUuidMacro (ddl : Str) (tableUuid : Option Str) : Str :=
  match tableUuid.filter fun uuid => uuid ≠ [] with
  | none => ddl
  | some uuid =>
    match replicatedZkPathSpan isAlphanumeric ddl with
    | none => ddl
    | some (before, path, after) => before ++ Str.replaceAll "\x7buuid\x7d" uuid path ++ after

end Scanner

/-- `is_replicated_engine`. -/
def isReplicatedEngine (engine : Str) : Bool := ("Replicated" : Str).isPrefixOf engine

end Chbackup
