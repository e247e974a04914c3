import Chbackup.Lib.Checked
import Chbackup.Lib.Lines
import Chbackup.ObjectDisk

/-!
# What parsing a metadata file asks of the machine

`parse_metadata` (`src/object_disk.rs`) once more, with every index, every addition of machine
numbers and every reservation of room checked.  The parser is run over every file of a part
directory, so the text is arbitrary.  Room is counted in bytes: 16 for a piece of a text, of which
a vector that grows holds up to twice as many as it needs, and 32 for an object.

The indices and the additions are in range for every text.  The room for the objects is reserved
for the number that the header line announces, before the parser looks whether the lines are there;
this is the only request that the length of the text does not bound.
-/

namespace Chbackup

/-- The room a vector of pieces takes when it is filled one by one. -/
def piecesRoom (n : Nat) : Nat := 16 * max 4 (2 * n)

/-- The room of a number of objects. -/
def objectsRoom (n : Nat) : Nat := 32 * n

section Machine

-- The bytes the machine can allocate.
variable (available : Nat)

/-- The pieces of a line, collected. -/
def collectPieces (line : Str) : Checked Str (List Str) :=
  (Checked.require (piecesRoom (line.splitOn '\t').length ≤ available)).bind fun _ =>
    .ok (line.splitOn '\t')

/-- The first two pieces of a line; a line with one piece is refused. -/
def readTwoFields (line refusal : Str) : Checked Str (Str × Str) :=
  (collectPieces available line).bind fun parts =>
    if parts.length < 2 then .fail refusal
    else (Checked.index parts 0).bind fun a => (Checked.index parts 1).bind fun b => .ok (a, b)

/-- The object lines from `i` on; `left` of `count` are left. -/
def readObjectLines (lines : List Str) (count : Nat) : Nat → Nat → Checked Str (List ObjectRef)
  | 0, _ => .ok []
  | left + 1, i =>
    (Checked.add 64 2 i).bind fun lineIdx =>
      if lines.length ≤ lineIdx then
        .fail ("Metadata file truncated: expected ".toList ++ decimal count ++
          " objects, got ".toList ++ decimal i)
      else
        (Checked.index lines lineIdx).bind fun line =>
        (readTwoFields available line ("Invalid object line: '".toList ++ line ++ "'".toList)).bind
          fun parts =>
        (Checked.ofExcept (parseField 64 parts.1 "Failed to parse object size")).bind fun size =>
        (readObjectLines lines count left (i + 1)).bind fun rest =>
          .ok (⟨parts.2.trim, size⟩ :: rest)

/-- What stands in the first two lines: the version, the number of objects and the total size. -/
def readHeader (content : Str) : Checked Str (Nat × Nat × Nat) :=
  let lines := Str.lines content
  (Checked.require (piecesRoom lines.length ≤ available)).bind fun _ =>
    if lines.length = 0 then .fail "Empty metadata file"
    else
      (Checked.index lines 0).bind fun line0 =>
      (Checked.ofExcept (parseField 32 line0 "Failed to parse metadata version")).bind fun version =>
        if version < 1 ∨ 5 < version then
          .fail ("Unsupported metadata version: ".toList ++ decimal version)
        else if lines.length < 3 then
          .fail ("Metadata file too short: expected at least 3 lines, got ".toList ++
            decimal lines.length)
        else
          (Checked.index lines 1).bind fun header =>
          (readTwoFields available header
            ("Invalid metadata header line: '".toList ++ header ++ "'".toList)).bind fun parts =>
          (Checked.ofExcept (parseField 64 parts.1 "Failed to parse object count")).bind
            fun objectCount =>
          (Checked.ofExcept (parseField 64 parts.2 "Failed to parse total size")).bind
            fun totalSize => .ok (version, objectCount, totalSize)

/-- A line that may not be there, read at a checked position. -/
def readLine? (lines : List Str) (offset count : Nat) : Checked Str (Option Str) :=
  (Checked.add 64 offset count).bind fun idx =>
    if idx < lines.length then (Checked.index lines idx).bind fun line => .ok (some line)
    else .ok none

/-- The lines below the header: room for the objects is reserved first. -/
def readBody (content : Str) (version count total : Nat) : Checked Str ObjectDiskMetadata :=
  let lines := Str.lines content
  (Checked.require (objectsRoom count ≤ available)).bind fun _ =>
  (readObjectLines available lines count count 0).bind fun objects =>
  (readLine? lines 2 count).bind fun refLine =>
  (match refLine with
    | some line => Checked.ofExcept (parseField 32 line "Failed to parse ref_count")
    | none => .ok 0).bind fun refCount =>
  (readLine? lines 3 count).bind fun flagLine =>
  (readLine? lines 4 count).bind fun dataLine =>
    .ok ⟨version, objects, total, refCount, 3 ≤ version && (flagLine.map Str.trim = some ['1']),
      if 4 ≤ version then dataLine.filter (· ≠ []) else none⟩

/-- `parse_metadata` on a machine. -/
def readMetadata (content : Str) : Checked Str ObjectDiskMetadata :=
  (readHeader available content).bind fun header =>
    readBody available content header.1 header.2.1 header.2.2

end Machine

/-- The header as the parser of the model reads it. -/
def parseHeader (content : Str) : Except Str (Nat × Nat × Nat) := do
  let lines := Str.lines content
  let some line0 := lines[0]?
    | .error "Empty metadata file"
  let version ← parseField 32 line0 "Failed to parse metadata version"
  if version < 1 ∨ 5 < version then
    .error ("Unsupported metadata version: ".toList ++ decimal version)
  if lines.length < 3 then
    .error ("Metadata file too short: expected at least 3 lines, got ".toList ++ decimal lines.length)
  let header := lines[1]?.getD []
  let some (count, total) := parseTwoFields header
    | .error ("Invalid metadata header line: '".toList ++ header ++ "'".toList)
  let objectCount ← parseField 64 count "Failed to parse object count"
  let totalSize ← parseField 64 total "Failed to parse total size"
  return (version, objectCount, totalSize)

/-- The lines below the header as the parser of the model reads them. -/
def parseBody (content : Str) (version count total : Nat) : Except Str ObjectDiskMetadata := do
  let lines := Str.lines content
  let objects ← parseObjectLines lines count count 0
  let refCount ← parseRefCount lines count
  return ⟨version, objects, total, refCount, parseReadOnly lines version count,
    parseInlineData lines version count⟩

/-- The number of objects that a header announces, if the parser gets to the objects. -/
def announcedCount (content : Str) : Option Nat :=
  (parseHeader content).toOption.map fun header => header.2.1

/-- A machine on which parsing comes to an end, with the result of the model. -/
def ParsesOn (available : Nat) (content : Str) : Prop :=
  readMetadata available content = Checked.ofExcept (parseMetadata content)

theorem parseMetadata_eq (content : Str) : parseMetadata content =
    (parseHeader content).bind fun header =>
      parseBody content header.1 header.2.1 header.2.2 := by
  rw [parseMetadata, parseHeader]
  dsimp only [bind, Except.bind]
  cases (Str.lines content)[0]? with
  | none => rfl
  | some line =>
    dsimp only
    cases parseField 32 line "Failed to parse metadata version" with
    | error e => rfl
    | ok version =>
      dsimp only
      by_cases hsupported : version < 1 ∨ 5 < version
      · rw [if_pos hsupported, if_pos hsupported]
      rw [if_neg hsupported, if_neg hsupported]
      by_cases hshort : (Str.lines content).length < 3
      · rw [if_pos hshort, if_pos hshort]
      rw [if_neg hshort, if_neg hshort]
      cases parseTwoFields ((Str.lines content)[1]?.getD []) with
      | none => rfl
      | some fields =>
        dsimp only
        cases parseField 64 fields.1 "Failed to parse object count" with
        | error e => rfl
        | ok count =>
          dsimp only
          cases parseField 64 fields.2 "Failed to parse total size" with
          | error e => rfl
          | ok total => rfl

/-! ## Pieces -/

section Room

variable {available : Nat} {content : Str}

theorem piecesRoom_mono {m n : Nat} (h : m ≤ n) : piecesRoom m ≤ piecesRoom n := by
  unfold piecesRoom
  omega

/-- Room for the pieces of a line that is no longer than the text. -/
theorem collectPieces_eq {line : Str} (hroom : piecesRoom (content.length + 1) ≤ available)
    (hline : line.length ≤ content.length) :
    collectPieces available line = .ok (line.splitOn '\t') := by
  have hpieces := (Str.length_splitOn_le '\t' line).1
  have hle : piecesRoom (line.splitOn '\t').length ≤ available :=
    (piecesRoom_mono (by omega)).trans hroom
  rw [collectPieces, Checked.require_of hle]
  rfl

theorem readTwoFields_eq {line refusal : Str} (hroom : piecesRoom (content.length + 1) ≤ available)
    (hline : line.length ≤ content.length) :
    readTwoFields available line refusal =
      match parseTwoFields line with
      | some fields => .ok fields
      | none => .fail refusal := by
  rw [readTwoFields, collectPieces_eq hroom hline, parseTwoFields, Checked.ok_bind]
  rcases line.splitOn '\t' with _ | ⟨a, _ | ⟨b, rest⟩⟩
  · rfl
  · rfl
  · rw [if_neg (by rw [List.length_cons, List.length_cons]; omega)]
    rfl

/-- The lines that the loop asks for are there. -/
theorem readObjectLines_eq (hroom : piecesRoom (content.length + 1) ≤ available)
    (hsmall : content.length < 2 ^ 63) {count : Nat} (left : Nat) {i : Nat}
    (hi : i ≤ (Str.lines content).length) :
    readObjectLines available (Str.lines content) count left i =
      Checked.ofExcept (parseObjectLines (Str.lines content) count left i) := by
  obtain ⟨hcount, hlines⟩ := Str.length_lines_le content
  induction left generalizing i with
  | zero => rfl
  | succ left ih =>
    rw [readObjectLines, parseObjectLines, Checked.add_of_lt (by omega), Checked.ok_bind]
    by_cases hlt : 2 + i < (Str.lines content).length
    · rw [if_neg (by omega), Checked.index_of_lt hlt, Checked.ok_bind, List.getElem?_eq_getElem hlt]
      dsimp only
      rw [readTwoFields_eq hroom (hlines _ (List.getElem_mem hlt)), Checked.ofExcept_bind,
        parseObjectLine]
      dsimp only [bind, Except.bind]
      cases parseTwoFields (Str.lines content)[2 + i] with
      | none => rfl
      | some fields =>
        dsimp only
        rw [Checked.ok_bind]
        cases parseField 64 fields.1 "Failed to parse object size" with
        | error e => rfl
        | ok size =>
          dsimp only [Checked.ofExcept_ok, Checked.ok_bind]
          rw [ih (by omega)]
          cases parseObjectLines (Str.lines content) count left (i + 1) with
          | error e => rfl
          | ok rest => rfl
    · rw [if_pos (by omega), List.getElem?_eq_none (by omega)]
      rfl

/-- When all objects were read, their lines are there. -/
theorem lines_of_parseObjectLines {lines : List Str} {count left i : Nat} {objects : List ObjectRef}
    (h : parseObjectLines lines count left i = .ok objects) :
    left = 0 ∨ 2 + i + left ≤ lines.length := by
  induction left generalizing i objects with
  | zero => exact Or.inl rfl
  | succ left ih =>
    rw [parseObjectLines] at h
    by_cases hlt : 2 + i < lines.length
    · rw [List.getElem?_eq_getElem hlt] at h
      dsimp only [bind, Except.bind] at h
      cases hobject : parseObjectLine lines[2 + i] with
      | error e =>
        rw [hobject] at h
        cases h
      | ok object =>
        rw [hobject] at h
        dsimp only at h
        cases hrest : parseObjectLines lines count left (i + 1) with
        | error e =>
          rw [hrest] at h
          cases h
        | ok rest =>
          have := ih hrest
          omega
    · rw [List.getElem?_eq_none (by omega)] at h
      cases h

/-! ## The header -/

/-- The header asks for nothing that the length of the text does not bound. -/
theorem readHeader_eq (hroom : piecesRoom (content.length + 1) ≤ available) :
    readHeader available content = Checked.ofExcept (parseHeader content) := by
  obtain ⟨hcount, hlines⟩ := Str.length_lines_le content
  rw [readHeader, parseHeader]
  dsimp only [bind, Except.bind]
  rw [Checked.require_of ((piecesRoom_mono hcount).trans hroom), Checked.ok_bind]
  by_cases hempty : (Str.lines content).length = 0
  · rw [if_pos hempty, List.getElem?_eq_none (by omega)]
    rfl
  have hpos : 0 < (Str.lines content).length := by omega
  rw [if_neg hempty, Checked.index_of_lt hpos, Checked.ok_bind, List.getElem?_eq_getElem hpos]
  dsimp only
  cases parseField 32 (Str.lines content)[0] "Failed to parse metadata version" with
  | error e => rfl
  | ok version =>
    dsimp only [Checked.ofExcept_ok, Checked.ok_bind]
    by_cases hsupported : version < 1 ∨ 5 < version
    · rw [if_pos hsupported, if_pos hsupported]
      rfl
    rw [if_neg hsupported, if_neg hsupported]
    by_cases hshort : (Str.lines content).length < 3
    · rw [if_pos hshort, if_pos hshort]
      rfl
    have hone : 1 < (Str.lines content).length := by omega
    rw [if_neg hshort, if_neg hshort, Checked.index_of_lt hone, Checked.ok_bind,
      List.getElem?_eq_getElem hone, Option.getD_some,
      readTwoFields_eq hroom (hlines _ (List.getElem_mem hone))]
    cases parseTwoFields (Str.lines content)[1] with
    | none => rfl
    | some fields =>
      dsimp only [Checked.ok_bind]
      cases parseField 64 fields.1 "Failed to parse object count" with
      | error e => rfl
      | ok count =>
        dsimp only [Checked.ofExcept_ok, Checked.ok_bind]
        cases parseField 64 fields.2 "Failed to parse total size" with
        | error e => rfl
        | ok total => rfl

/-! ## The lines below it -/

theorem readLine?_eq {lines : List Str} {offset count : Nat} (h : offset + count < 2 ^ 64) :
    readLine? lines offset count = .ok lines[offset + count]? := by
  rw [readLine?, Checked.add_of_lt h, Checked.ok_bind]
  by_cases hlt : offset + count < lines.length
  · rw [if_pos hlt, Checked.index_of_lt hlt, List.getElem?_eq_getElem hlt]
    rfl
  · rw [if_neg hlt, List.getElem?_eq_none (by omega)]

theorem readBody_eq (hroom : piecesRoom (content.length + 1) ≤ available)
    (hsmall : content.length < 2 ^ 63) {version count total : Nat}
    (hobjects : objectsRoom count ≤ available) :
    readBody available content version count total =
      Checked.ofExcept (parseBody content version count total) := by
  have hcount := (Str.length_lines_le content).1
  rw [readBody, parseBody]
  dsimp only [bind, Except.bind]
  rw [Checked.require_of hobjects, Checked.ok_bind,
    readObjectLines_eq hroom hsmall count (Nat.zero_le _)]
  cases hparsed : parseObjectLines (Str.lines content) count count 0 with
  | error e => rfl
  | ok objects =>
    have hlines := lines_of_parseObjectLines hparsed
    dsimp only [Checked.ofExcept_ok, Checked.ok_bind]
    rw [readLine?_eq (by omega), readLine?_eq (by omega), readLine?_eq (by omega), Checked.ok_bind,
      parseRefCount]
    cases (Str.lines content)[2 + count]? with
    | none => rfl
    | some line =>
      dsimp only
      cases parseField 32 line "Failed to parse ref_count" with
      | error e => rfl
      | ok refCount => rfl

theorem readBody_abort {version count total : Nat} (h : ¬objectsRoom count ≤ available) :
    readBody available content version count total = .abort := by
  rw [readBody, Checked.require_of_not h]
  rfl

/-- **On a machine with room for the pieces of the text, parsing comes to an end iff there is room
for the announced number of objects.** -/
theorem parsesOn_iff (hroom : piecesRoom (content.length + 1) ≤ available)
    (hsmall : content.length < 2 ^ 63) :
    ParsesOn available content ↔ ∀ n, announcedCount content = some n → objectsRoom n ≤ available := by
  rw [ParsesOn, readMetadata, readHeader_eq hroom, parseMetadata_eq, announcedCount]
  cases parseHeader content with
  | error e =>
    refine ⟨fun _ n hn => (by cases hn), fun _ => rfl⟩
  | ok header =>
    rw [Checked.ofExcept_ok, Checked.ok_bind]
    show _ = Checked.ofExcept (parseBody content header.1 header.2.1 header.2.2) ↔
      ∀ n, some header.2.1 = some n → objectsRoom n ≤ available
    constructor
    · rintro h n ⟨⟩
      by_contra hroom'
      rw [readBody_abort hroom'] at h
      exact Checked.ofExcept_ne_abort _ h.symm
    · intro h
      exact readBody_eq hroom hsmall (h _ rfl)

end Room

/-- Parsing comes to an end on every machine that can allocate a multiple of the text. -/
def ParsesInProportion (factor : Nat) (content : Str) : Prop :=
  ∀ available, factor * (content.length + 1) ≤ available → ParsesOn available content

/-- **Parsing asks for room in proportion to the text iff the announced number of objects is in
proportion to it.** -/
theorem parsesInProportion_iff (factor : Nat) (content : Str) (hfactor : 96 ≤ factor)
    (hsmall : content.length < 2 ^ 63) :
    ParsesInProportion factor content ↔
      ∀ n, announcedCount content = some n → objectsRoom n ≤ factor * (content.length + 1) := by
  have hpieces : ∀ available, factor * (content.length + 1) ≤ available →
      piecesRoom (content.length + 1) ≤ available := by
    intro available h
    have hmul : 96 * (content.length + 1) ≤ factor * (content.length + 1) :=
      Nat.mul_le_mul_right _ hfactor
    unfold piecesRoom
    omega
  constructor
  · intro h n hn
    have hend := h _ (Nat.le_refl _)
    exact (parsesOn_iff (hpieces _ (Nat.le_refl _)) hsmall).mp hend n hn
  · intro h available havailable
    exact (parsesOn_iff (hpieces _ havailable) hsmall).mpr fun n hn => (h n hn).trans havailable

/-- A file with one object, and a file that announces more objects than a machine can address. -/
def smallMetadata : Str := "3\n1\t10\n10\tabc/def\n1\n0\n".toList

/-- A version, a header and one more line. -/
def boastingMetadata : Str := "3\n18446744073709551615\t0\n1\n".toList

theorem parsesInProportion_smallMetadata : ParsesInProportion 96 smallMetadata :=
  (parsesInProportion_iff 96 smallMetadata (by decide) (by decide)).mpr fun n hn => by
    have hone : announcedCount smallMetadata = some 1 := by decide
    rw [hone] at hn
    cases hn
    decide

/-- A file of 27 bytes that is not parsed in any proportion that fits into the address space. -/
theorem boastingMetadata_aborts : ¬∀ content : Str, content.length < 2 ^ 63 →
    ∃ factor, 96 ≤ factor ∧ factor * (content.length + 1) < 2 ^ 64 ∧
      ParsesInProportion factor content := by
  intro h
  obtain ⟨factor, hfactor, haddress, hparses⟩ := h boastingMetadata (by decide)
  have hlength : boastingMetadata.length = 27 := by decide
  have hannounced : announcedCount boastingMetadata = some (2 ^ 64 - 1) := by decide
  rw [hlength] at haddress
  have hroom : piecesRoom (boastingMetadata.length + 1) ≤ factor * (boastingMetadata.length + 1) := by
    rw [hlength, piecesRoom]
    omega
  have hobjects := (parsesOn_iff hroom (by decide)).mp (hparses _ (Nat.le_refl _)) _ hannounced
  rw [hlength, objectsRoom] at hobjects
  omega

end Chbackup
