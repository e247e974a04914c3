import Chbackup.Lib.SortedMap
import Chbackup.Lib.Text

/-!
# The names of watched backups

The name template of the watch loop (`src/watch/mod.rs`): `resolve_name_template` fills it in,
`build_type_glob` turns it into a pattern, and `classify_backup_type` matches a name against the
patterns of a full and of an incremental backup.  The formatting of times and the glob patterns are
library code and are parameters.
-/

namespace Chbackup

/-- The two types of a backup. -/
inductive BackupType where
  | full
  | incr
  deriving DecidableEq

/-- The word for a type, in names and in patterns. -/
def BackupType.word : BackupType → Str
  | full => "full"
  | incr => "incr"

/-- A piece of a template. -/
inductive TemplatePiece where
  | static (c : Char)
  | placeholder (content : Str)
  /-- A brace that is never closed, with all that follows it. -/
  | unclosed (content : Str)
  deriving DecidableEq

/-- The loop over the characters of a template, with the content of the open brace. -/
def templatePieces : Option Str → Str → List TemplatePiece
  | none, [] => []
  | some content, [] => [.unclosed content]
  | none, c :: rest =>
    if c = '{' then templatePieces (some []) rest else .static c :: templatePieces none rest
  | some content, c :: rest =>
    if c = '}' then .placeholder content :: templatePieces none rest
    else templatePieces (some (content ++ [c])) rest

section Templates

variable (strftime : Str → Int → Str) (globPattern : Str → Option (Str → Bool)) (template : Str)

/-- What a placeholder stands for; one that is not known is left as it is. -/
def resolveMacro (backupType : BackupType) (now : Int) (macros : SortedMap Str Str) (content : Str) :
    Str :=
  if content = "type" then backupType.word
  else
    match Str.stripPrefix? "time:" content with
    | some format => strftime format now
    | none =>
      match macros.get? content with
      | some value => value
      | none => '{' :: content ++ ['}']

/-- `resolve_name_template`. -/
def resolveNameTemplate (backupType : BackupType) (now : Int) (macros : SortedMap Str Str) : Str :=
  (templatePieces none template).flatMap fun
    | .static c => [c]
    | .placeholder content => resolveMacro strftime backupType now macros content
    | .unclosed content => '{' :: content

/-- `push_escaped_glob_char`. -/
def escapedGlobChar (c : Char) : Str :=
  if c = '*' ∨ c = '?' ∨ c = '[' ∨ c = ']' then ['[', c, ']'] else [c]

/-- What a placeholder is in a pattern; a format after a colon is not looked at. -/
def globMacro (candidate content : Str) : Str :=
  if content.takeWhile (· ≠ ':') = "type" then candidate.flatMap escapedGlobChar else ['*']

/-- `build_type_glob`. -/
def buildTypeGlob (candidate : Str) : Option (Str → Bool) :=
  globPattern ((templatePieces none template).flatMap fun
    | .static c => escapedGlobChar c
    | .placeholder content => globMacro candidate content
    | .unclosed content => globMacro candidate content)

/-- A name matches the pattern of a type. -/
def matchesType (type : BackupType) (name : Str) : Bool :=
  ((buildTypeGlob globPattern template type.word).map fun glob => glob name).getD false

/-- `classify_backup_type`. -/
def classifyBackupType (name : Str) : Option BackupType :=
  if !Str.contains "{type}" template then none
  else
    match matchesType globPattern template .full name, matchesType globPattern template .incr name with
    | true, false => some .full
    | false, true => some .incr
    | _, _ => none

/-- `resolve_template_prefix`. -/
def resolveTemplatePrefix : Str := template.takeWhile (· ≠ '{')

/-- The name of a backup that the watch loop could have made from this template and these macros. -/
def OwnName (macros : SortedMap Str Str) (name : Str) : Prop :=
  ∃ backupType now, name = resolveNameTemplate strftime template backupType now macros

end Templates

/-- The pattern of the shipped template. -/
example : (templatePieces none "shard{shard}-{type}-{time:%Y%m%d}").flatMap (fun
    | .static c => escapedGlobChar c
    | .placeholder content => globMacro "full" content
    | .unclosed content => globMacro "full" content) = "shard*-full-*".toList := by
  decide +kernel

end Chbackup
