import Chbackup.Lib.Glob
import Chbackup.Watch.Names

/-!
# Recognising the backups of the watch loop

Two scanners read the name template (`src/watch/mod.rs`): `resolve_name_template` makes a name of it, and
`build_type_glob` a pattern that should match the names made for a type.  They read alike a template in
which every brace is closed and every placeholder whose name is `type` is `{type}` itself; and the pattern
is one of single stars if no two of the other placeholders stand next to each other.  From such a template
the loop recognises every name it has made, unless the same name has the form of the other type.
-/

namespace Chbackup

/-! ## What a name can have been made for -/

/-- The name has the form of the template for a type, with some text for each of the other placeholders. -/
def HasForm (type : BackupType) : List TemplatePiece → Str → Prop
  | [], name => name = []
  | .static c :: pieces, name => ∃ rest, name = c :: rest ∧ HasForm type pieces rest
  | .placeholder content :: pieces, name =>
    ∃ text rest, name = text ++ rest ∧ (content = "type" → text = type.word) ∧ HasForm type pieces rest
  | .unclosed content :: pieces, name => ∃ rest, name = '\x7b' :: content ++ rest ∧ HasForm type pieces rest

/-- The placeholder in a piece, other than that of the type. -/
def TemplatePiece.other? : TemplatePiece → Option Str
  | .placeholder content => if content = "type" then none else some content
  | _ => none

/-- The placeholders other than that of the type. -/
def otherPlaceholders (pieces : List TemplatePiece) : List Str := pieces.filterMap TemplatePiece.other?

/-- A piece, when every placeholder has its own text. -/
def pieceWith (type : BackupType) (text : Str → Str) : TemplatePiece → Str
  | .static c => [c]
  | .placeholder content => if content = "type" then type.word else text content
  | .unclosed content => '\x7b' :: content

/-- The name could have been made for a type, with some text for the other placeholders. -/
structure CouldBe (type : BackupType) (pieces : List TemplatePiece) (name : Str) : Prop where
  form : HasForm type pieces name
  /-- Where no placeholder comes twice, each of them stands for one text. -/
  texts : (otherPlaceholders pieces).Nodup → ∃ text, name = pieces.flatMap (pieceWith type text)

/-- The loop recognises a name that it has made. -/
def Recognised (strftime : Str → Int → Str) (globPattern : Str → Option (Str → Bool)) (template : Str)
    (type : BackupType) (now : Int) (macros : SortedMap Str Str) : Prop :=
  classifyBackupType globPattern template (resolveNameTemplate strftime template type now macros) =
      some type ∨
    classifyBackupType globPattern template (resolveNameTemplate strftime template type now macros) = none ∧
      ∃ other, other ≠ type ∧
        CouldBe other (templatePieces none template) (resolveNameTemplate strftime template type now macros)

/-- A placeholder that a pattern has a star for. -/
def TemplatePiece.Star : TemplatePiece → Prop
  | .placeholder content => content ≠ "type"
  | _ => False

/-- Both scanners read the template alike. -/
structure ReadAlike (pieces : List TemplatePiece) : Prop where
  closed : ∀ content, TemplatePiece.unclosed content ∉ pieces
  exactType : ∀ content, TemplatePiece.placeholder content ∈ pieces →
    content.takeWhile (· ≠ ':') = "type" → content = "type"
  apart : pieces.IsChain fun p q => ¬(p.Star ∧ q.Star)

/-! ## Forms and texts -/

section Forms

variable {type : BackupType} {pieces : List TemplatePiece} {name : Str}

theorem HasForm.texts (h : HasForm type pieces name) (hnodup : (otherPlaceholders pieces).Nodup) :
    ∃ text, name = pieces.flatMap (pieceWith type text) := by
  induction pieces generalizing name with
  | nil => exact ⟨fun _ => [], h⟩
  | cons piece pieces ih =>
    cases piece with
    | static c =>
      obtain ⟨rest, rfl, hrest⟩ := h
      obtain ⟨text, rfl⟩ := ih hrest hnodup
      exact ⟨text, rfl⟩
    | unclosed content =>
      obtain ⟨rest, rfl, hrest⟩ := h
      obtain ⟨text, rfl⟩ := ih hrest hnodup
      exact ⟨text, rfl⟩
    | placeholder content =>
      obtain ⟨own, rest, rfl, hown, hrest⟩ := h
      by_cases htype : content = "type"
      · have hnone : (TemplatePiece.placeholder content).other? = none := if_pos htype
        rw [otherPlaceholders, List.filterMap_cons_none hnone] at hnodup
        obtain ⟨text, rfl⟩ := ih hrest hnodup
        refine ⟨text, ?_⟩
        rw [List.flatMap_cons, pieceWith, if_pos htype, hown htype]
      · have hsome : (TemplatePiece.placeholder content).other? = some content := if_neg htype
        rw [otherPlaceholders, List.filterMap_cons_some hsome] at hnodup
        obtain ⟨hfresh, hnodup⟩ := List.nodup_cons.mp hnodup
        obtain ⟨text, rfl⟩ := ih hrest hnodup
        refine ⟨Function.update text content own, ?_⟩
        rw [List.flatMap_cons, pieceWith, if_neg htype, Function.update_self]
        -- the other placeholders have other names
        refine congrArg (own ++ ·) (List.flatMap_congr fun piece hpiece => ?_)
        cases piece with
        | static c => rfl
        | unclosed c => rfl
        | placeholder c =>
          by_cases hc : c = "type"
          · rw [pieceWith, pieceWith, if_pos hc, if_pos hc]
          · have hne : c ≠ content := by
              rintro rfl
              exact hfresh (List.mem_filterMap.mpr ⟨_, hpiece, if_neg hc⟩)
            rw [pieceWith, pieceWith, if_neg hc, if_neg hc, Function.update_of_ne hne]

theorem HasForm.couldBe (h : HasForm type pieces name) : CouldBe type pieces name := ⟨h, h.texts⟩

/-- A name has the form of the template for the type it was made for. -/
theorem hasForm_resolved (strftime : Str → Int → Str) (template : Str) (type : BackupType) (now : Int)
    (macros : SortedMap Str Str) :
    HasForm type (templatePieces none template) (resolveNameTemplate strftime template type now macros) := by
  rw [resolveNameTemplate]
  induction templatePieces none template with
  | nil => rfl
  | cons piece pieces ih =>
    rw [List.flatMap_cons]
    cases piece with
    | static c => exact ⟨_, rfl, ih⟩
    | unclosed content => exact ⟨_, rfl, ih⟩
    | placeholder content => exact ⟨_, _, rfl, fun htype => if_pos htype, ih⟩

end Forms

/-! ## The pattern of a type -/

section Pattern

variable {pieces : List TemplatePiece}

/-- A piece in the pattern of a type. -/
def pieceTokens (type : BackupType) : TemplatePiece → List GlobToken
  | .static c => [.literal c]
  | .placeholder content =>
    if content = "type" then type.word.map GlobToken.literal else [.anySequence]
  | .unclosed content => ('\x7b' :: content).map GlobToken.literal

theorem matches_pieceTokens {type : BackupType} {name : Str} :
    GlobToken.Matches (pieces.flatMap (pieceTokens type)) name ↔ HasForm type pieces name := by
  induction pieces generalizing name with
  | nil => exact Iff.rfl
  | cons piece pieces ih =>
    rw [List.flatMap_cons]
    cases piece with
    | static c => exact exists_congr fun rest => and_congr_right fun _ => ih
    | unclosed content =>
      exact GlobToken.matches_literals_append.trans (exists_congr fun rest => and_congr_right fun _ => ih)
    | placeholder content =>
      rw [pieceTokens, HasForm]
      by_cases htype : content = "type"
      · rw [if_pos htype, GlobToken.matches_literals_append]
        constructor
        · rintro ⟨rest, rfl, h⟩
          exact ⟨_, rest, rfl, fun _ => rfl, ih.mp h⟩
        · rintro ⟨text, rest, rfl, htext, h⟩
          exact ⟨rest, by rw [htext htype], ih.mpr h⟩
      · rw [if_neg htype]
        constructor
        · rintro ⟨text, rest, rfl, h⟩
          exact ⟨text, rest, rfl, fun h => absurd h htype, ih.mp h⟩
        · rintro ⟨text, rest, rfl, -, h⟩
          exact ⟨text, rest, rfl, ih.mpr h⟩

theorem apart_literals_append {t : Str} {tokens : List GlobToken} (h : GlobToken.Apart tokens) :
    GlobToken.Apart (t.map GlobToken.literal ++ tokens) := by
  induction t with
  | nil => exact h
  | cons c t ih =>
    refine List.isChain_cons.mpr ⟨fun token _ hboth => ?_, ih⟩
    cases hboth.1

/-- The stars of the pattern stand apart. -/
theorem apart_pieceTokens (type : BackupType) (h : pieces.IsChain fun p q => ¬(p.Star ∧ q.Star)) :
    GlobToken.Apart (pieces.flatMap (pieceTokens type)) := by
  induction pieces with
  | nil => exact List.isChain_nil
  | cons piece pieces ih =>
    have hrest := ih h.tail
    rw [List.flatMap_cons]
    cases piece with
    | static c => exact apart_literals_append (t := [c]) hrest
    | unclosed content => exact apart_literals_append hrest
    | placeholder content =>
      rw [pieceTokens]
      split_ifs with htype
      · exact apart_literals_append hrest
      · refine List.isChain_cons.mpr ⟨fun token htoken hboth => ?_, hrest⟩
        -- the piece after a star is not a star
        cases pieces with
        | nil => cases htoken
        | cons next pieces =>
          have hnext : ¬next.Star := fun hstar => (List.isChain_cons_cons.mp h).1 ⟨htype, hstar⟩
          rw [hboth.2] at htoken
          cases next with
          | static c => cases htoken
          | unclosed content => cases htoken
          | placeholder content =>
            have hcontent : content = "type" := not_not.mp hnext
            rw [List.flatMap_cons, pieceTokens, if_pos hcontent] at htoken
            cases type <;> cases htoken

theorem escapedGlobChar_eq (c : Char) : escapedGlobChar c = (GlobToken.literal c).text :=
  if_congr Iff.rfl rfl rfl

/-- `build_type_glob` writes the tokens of the pieces. -/
theorem buildTypeGlob_eq (globPattern : Str → Option (Str → Bool)) {template : Str}
    (h : ReadAlike (templatePieces none template)) (type : BackupType) :
    buildTypeGlob globPattern template type.word =
      globPattern (((templatePieces none template).flatMap (pieceTokens type)).flatMap GlobToken.text) := by
  rw [buildTypeGlob, List.flatMap_assoc]
  have hword : ∀ word : Str, word.flatMap escapedGlobChar =
      (word.map GlobToken.literal).flatMap GlobToken.text := fun word => by
    rw [List.flatMap_map]
    exact List.flatMap_congr fun c _ => escapedGlobChar_eq c
  refine congrArg globPattern (List.flatMap_congr fun piece hpiece => ?_)
  cases piece with
  | static c => exact (escapedGlobChar_eq c).trans (List.append_nil _).symm
  | unclosed content => exact absurd hpiece (h.closed content)
  | placeholder content =>
    have hkey : content.takeWhile (· ≠ ':') = "type" ↔ content = "type" := by
      refine ⟨h.exactType content hpiece, ?_⟩
      rintro rfl
      decide
    show globMacro type.word content = (pieceTokens type (.placeholder content)).flatMap GlobToken.text
    rw [globMacro, pieceTokens]
    by_cases htype : content = "type"
    · rw [if_pos htype, if_pos (hkey.mpr htype), hword]
    · rw [if_neg htype, if_neg fun h => htype (hkey.mp h)]
      rfl

/-- A name matches the pattern of a type if it has the form of the template for that type. -/
theorem matchesType_iff {globPattern : Str → Option (Str → Bool)} (hglob : GlobSyntax globPattern)
    {template : Str} (h : ReadAlike (templatePieces none template)) (type : BackupType) (name : Str) :
    matchesType globPattern template type name = true ↔
      HasForm type (templatePieces none template) name := by
  obtain ⟨glob, hcompile, hmatches⟩ := hglob.accepts _ (apart_pieceTokens type h.apart)
  rw [matchesType, buildTypeGlob_eq globPattern h, hcompile, Option.map_some, Option.getD_some, hmatches,
    matches_pieceTokens]

end Pattern

/-! ## Templates with a type -/

/-- A piece as it is written. -/
def TemplatePiece.written : TemplatePiece → Str
  | .static c => [c]
  | .placeholder content => '\x7b' :: content ++ ['\x7d']
  | .unclosed content => '\x7b' :: content

theorem flatMap_written (template : Str) :
    (templatePieces none template).flatMap TemplatePiece.written = template ∧
      ∀ content, (templatePieces (some content) template).flatMap TemplatePiece.written =
        '\x7b' :: content ++ template := by
  induction template with
  | nil => exact ⟨rfl, fun content => rfl⟩
  | cons c rest ih =>
    refine ⟨?_, fun content => ?_⟩
    · rw [templatePieces]
      split_ifs with hc
      · rw [ih.2 [], hc]
        rfl
      · rw [List.flatMap_cons, ih.1]
        rfl
    · rw [templatePieces]
      split_ifs with hc
      · rw [List.flatMap_cons, ih.1, hc]
        simp [TemplatePiece.written]
      · rw [ih.2]
        simp

theorem contains_type {template : Str}
    (h : TemplatePiece.placeholder "type" ∈ templatePieces none template) :
    Str.contains "\x7btype\x7d" template = true := by
  rw [Str.contains_iff]
  obtain ⟨before, after, hsplit⟩ := List.append_of_mem h
  have htext := (flatMap_written template).1
  rw [hsplit, List.flatMap_append, List.flatMap_cons] at htext
  exact ⟨before.flatMap TemplatePiece.written, after.flatMap TemplatePiece.written,
    (List.append_assoc _ _ _).trans htext⟩

end Chbackup
