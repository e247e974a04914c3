import Chbackup.Lib.Lines
import Chbackup.ObjectDisk

/-!
# Metadata files read back

`serialize_metadata` and `rewrite_metadata` against `parse_metadata` (`src/object_disk.rs`).  What
the parser returns is well formed; a well-formed record is read back from the file written for it,
and rewriting the keys keeps a record well formed.
-/

namespace Chbackup

/-- A text that can stand as the last field of a line. -/
structure IsField (s : Str) : Prop where
  trimmed : Str.Trimmed s
  noTab : '\t' ∉ s
  noLineFeed : '\n' ∉ s
  noReturn : '\r' ∉ s

/-- What the parser returns. -/
structure ObjectDiskMetadata.WellFormed (m : ObjectDiskMetadata) : Prop where
  version : 1 ≤ m.version ∧ m.version ≤ 5
  count : m.objects.length < 2 ^ 64
  totalSize : m.totalSize < 2 ^ 64
  sizes : ∀ o ∈ m.objects, o.size < 2 ^ 64
  keys : ∀ o ∈ m.objects, IsField o.relativePath
  refCount : m.refCount < 2 ^ 32
  readOnly : m.version < 3 → m.readOnly = false
  inlineVersion : m.version < 4 → m.inlineData = none
  inlineData : ∀ data ∈ m.inlineData, data ≠ [] ∧ '\n' ∉ data ∧ '\r' ∉ data

/-! ## What the parser does -/

/-- The steps of the parser over the lines of a file that announces `count` objects. -/
structure ParsesTo (lines : List Str) (count : Nat) (m : ObjectDiskMetadata) : Prop where
  version : ∃ line, lines[0]? = some line ∧
    parseField 32 line "Failed to parse metadata version" = .ok m.version
  supported : 1 ≤ m.version ∧ m.version ≤ 5
  length : 3 ≤ lines.length
  header : ∃ field total, parseTwoFields (lines[1]?.getD []) = some (field, total) ∧
    parseField 64 field "Failed to parse object count" = .ok count ∧
    parseField 64 total "Failed to parse total size" = .ok m.totalSize
  objects : parseObjectLines lines count count 0 = .ok m.objects
  refCount : parseRefCount lines count = .ok m.refCount
  readOnly : parseReadOnly lines m.version count = m.readOnly
  inlineData : parseInlineData lines m.version count = m.inlineData

/-- **The parser accepts a file iff its steps succeed.** -/
theorem parseMetadata_eq_ok_iff {content : Str} {m : ObjectDiskMetadata} :
    parseMetadata content = .ok m ↔ ∃ count, ParsesTo (Str.lines content) count m := by
  constructor
  · intro h
    rw [parseMetadata] at h
    dsimp only [bind, Except.bind] at h
    cases hline : (Str.lines content)[0]? with
    | none =>
      rw [hline] at h
      cases h
    | some line =>
      rw [hline] at h
      dsimp only at h
      cases hversion : parseField 32 line "Failed to parse metadata version" with
      | error e =>
        rw [hversion] at h
        cases h
      | ok version =>
        rw [hversion] at h
        dsimp only at h
        split_ifs at h with hsupported hshort
        cases htwo : parseTwoFields ((Str.lines content)[1]?.getD []) with
        | none =>
          rw [htwo] at h
          cases h
        | some fields =>
          rw [htwo] at h
          dsimp only at h
          cases hcount : parseField 64 fields.1 "Failed to parse object count" with
          | error e =>
            rw [hcount] at h
            cases h
          | ok count =>
            rw [hcount] at h
            dsimp only at h
            cases htotal : parseField 64 fields.2 "Failed to parse total size" with
            | error e =>
              rw [htotal] at h
              cases h
            | ok total =>
              rw [htotal] at h
              dsimp only at h
              cases hobjects : parseObjectLines (Str.lines content) count count 0 with
              | error e =>
                rw [hobjects] at h
                cases h
              | ok objects =>
                rw [hobjects] at h
                dsimp only at h
                cases href : parseRefCount (Str.lines content) count with
                | error e =>
                  rw [href] at h
                  cases h
                | ok refCount =>
                  rw [href] at h
                  cases h
                  exact ⟨count, ⟨line, hline, hversion⟩, by dsimp only; omega, by omega,
                    ⟨fields.1, fields.2, htwo, hcount, htotal⟩, hobjects, href, rfl, rfl⟩
  · rintro ⟨count, h⟩
    obtain ⟨line, hline, hversion⟩ := h.version
    obtain ⟨field, total, htwo, hcount, htotal⟩ := h.header
    have hsupported : ¬(m.version < 1 ∨ 5 < m.version) := by
      have := h.supported
      omega
    rw [parseMetadata, hline]
    dsimp only [bind, Except.bind]
    rw [hversion]
    dsimp only
    rw [if_neg hsupported, if_neg (Nat.not_lt.mpr h.length), htwo]
    dsimp only
    rw [hcount]
    dsimp only
    rw [htotal]
    dsimp only
    rw [h.objects]
    dsimp only
    rw [h.refCount, h.readOnly, h.inlineData]
    rfl

/-! ## The lines of a file -/

/-- The line of an object. -/
def objectLine (o : ObjectRef) : Str := decimal o.size ++ '\t' :: o.relativePath

/-- The header line. -/
def headerLine (m : ObjectDiskMetadata) : Str := decimal m.objects.length ++ '\t' :: decimal m.totalSize

/-- The lines after the reference count. -/
def flagLines (m : ObjectDiskMetadata) : List Str :=
  (if 3 ≤ m.version then [if m.readOnly then ['1'] else ['0']] else []) ++
    if 4 ≤ m.version then [m.inlineData.getD []] else []

/-- The lines of a file. -/
def metadataLines (m : ObjectDiskMetadata) : List Str :=
  decimal m.version :: headerLine m :: (m.objects.map objectLine ++ decimal m.refCount :: flagLines m)

theorem serializeMetadata_eq (m : ObjectDiskMetadata) :
    serializeMetadata m = (metadataLines m).flatMap fun l => l ++ ['\n'] := by
  have hobjects : (m.objects.flatMap fun obj : ObjectRef =>
      decimal obj.size ++ '\t' :: obj.relativePath ++ ['\n']) =
      (m.objects.map objectLine).flatMap fun l => l ++ ['\n'] := by
    rw [List.flatMap_map]
    rfl
  have hflags : (flagLines m).flatMap (fun l => l ++ ['\n']) =
      (if 3 ≤ m.version then (if m.readOnly then ['1', '\n'] else ['0', '\n']) else []) ++
        if 4 ≤ m.version then m.inlineData.getD [] ++ ['\n'] else [] := by
    rw [flagLines, List.flatMap_append]
    split_ifs
    all_goals simp
  rw [serializeMetadata, metadataLines, List.flatMap_cons, List.flatMap_cons, List.flatMap_append,
    List.flatMap_cons, hflags, ← hobjects, headerLine]
  simp only [List.append_assoc, List.cons_append, List.nil_append]

section Lines

variable {m : ObjectDiskMetadata}

theorem notMem_decimal {x : Char} (h : x.isDigit = false) (n : Nat) : x ∉ decimal n :=
  Str.notMem_toDigits h n

theorem objectLine_plain {o : ObjectRef} (h : IsField o.relativePath) :
    '\n' ∉ objectLine o ∧ '\r' ∉ objectLine o := by
  have hn := notMem_decimal (x := '\n') (by decide) o.size
  have hr := notMem_decimal (x := '\r') (by decide) o.size
  rw [objectLine, List.mem_append, List.mem_cons, List.mem_append, List.mem_cons]
  refine ⟨?_, ?_⟩
  · rintro (hx | hx | hx)
    · exact hn hx
    · cases hx
    · exact h.noLineFeed hx
  · rintro (hx | hx | hx)
    · exact hr hx
    · cases hx
    · exact h.noReturn hx

theorem headerLine_plain (m : ObjectDiskMetadata) : '\n' ∉ headerLine m ∧ '\r' ∉ headerLine m := by
  rw [headerLine, List.mem_append, List.mem_cons, List.mem_append, List.mem_cons]
  refine ⟨?_, ?_⟩
  · rintro (hx | hx | hx)
    · exact notMem_decimal (by decide) _ hx
    · cases hx
    · exact notMem_decimal (by decide) _ hx
  · rintro (hx | hx | hx)
    · exact notMem_decimal (by decide) _ hx
    · cases hx
    · exact notMem_decimal (by decide) _ hx

theorem flagLines_plain (h : m.WellFormed) : ∀ l ∈ flagLines m, '\n' ∉ l ∧ '\r' ∉ l := by
  intro l hl
  rw [flagLines, List.mem_append] at hl
  rcases hl with hl | hl
  · split_ifs at hl
    · rw [List.mem_singleton.mp hl]
      decide
    · rw [List.mem_singleton.mp hl]
      decide
    · exact absurd hl List.not_mem_nil
  · split_ifs at hl
    · rw [List.mem_singleton.mp hl]
      cases hdata : m.inlineData with
      | none => decide
      | some data => exact (h.inlineData data hdata).2
    · exact absurd hl List.not_mem_nil

theorem metadataLines_plain (h : m.WellFormed) : ∀ l ∈ metadataLines m, '\n' ∉ l ∧ '\r' ∉ l := by
  intro l hl
  rw [metadataLines, List.mem_cons, List.mem_cons, List.mem_append, List.mem_cons] at hl
  rcases hl with rfl | rfl | hl | rfl | hl
  · exact ⟨notMem_decimal (by decide) _, notMem_decimal (by decide) _⟩
  · exact headerLine_plain m
  · obtain ⟨o, ho, rfl⟩ := List.mem_map.mp hl
    exact objectLine_plain (h.keys o ho)
  · exact ⟨notMem_decimal (by decide) _, notMem_decimal (by decide) _⟩
  · exact flagLines_plain h l hl

theorem lines_serializeMetadata (h : m.WellFormed) : Str.lines (serializeMetadata m) = metadataLines m := by
  rw [serializeMetadata_eq, Str.lines_flatMap (metadataLines_plain h)]

/-! ## Reading the lines -/

theorem parseField_decimal {bits n : Nat} (h : n < 2 ^ bits) (context : Str) :
    parseField bits (decimal n) context = .ok n := by
  rw [parseField, decimal, Str.trim_toDigits, Str.parseUnsigned_toDigits h]

theorem parseTwoFields_eq {a b : Str} (ha : '\t' ∉ a) (hb : '\t' ∉ b) :
    parseTwoFields (a ++ '\t' :: b) = some (a, b) := by
  rw [parseTwoFields, List.splitOn_append_cons_self, List.splitOn_eq_singleton ha,
    List.splitOn_eq_singleton hb]
  rfl

theorem parseObjectLine_objectLine {o : ObjectRef} (hsize : o.size < 2 ^ 64) (hkey : IsField o.relativePath) :
    parseObjectLine (objectLine o) = .ok o := by
  rw [parseObjectLine, objectLine, parseTwoFields_eq (notMem_decimal (by decide) _) hkey.noTab]
  dsimp only
  rw [parseField_decimal hsize, hkey.trimmed.trim_eq]
  rfl

theorem getElem?_metadataLines (m : ObjectDiskMetadata) (i : Nat) :
    (metadataLines m)[2 + i]? = (m.objects.map objectLine ++ decimal m.refCount :: flagLines m)[i]? := by
  rw [metadataLines, Nat.add_comm, List.getElem?_cons_succ, List.getElem?_cons_succ]

theorem getElem?_after_objects (m : ObjectDiskMetadata) (i : Nat) :
    (metadataLines m)[2 + m.objects.length + i]? = (decimal m.refCount :: flagLines m)[i]? := by
  rw [Nat.add_assoc, getElem?_metadataLines, List.getElem?_append_right (by simp)]
  simp

theorem parseObjectLines_metadataLines (h : m.WellFormed) (left i : Nat) (hi : i + left = m.objects.length) :
    parseObjectLines (metadataLines m) m.objects.length left i = .ok (m.objects.drop i) := by
  induction left generalizing i with
  | zero =>
    rw [parseObjectLines, List.drop_of_length_le (by omega)]
  | succ left ih =>
    have hlt : i < m.objects.length := by omega
    have hmem : m.objects[i] ∈ m.objects := List.getElem_mem hlt
    have hline : (metadataLines m)[2 + i]? = some (objectLine m.objects[i]) := by
      rw [getElem?_metadataLines, List.getElem?_append_left (by simpa using hlt), List.getElem?_map,
        List.getElem?_eq_getElem hlt]
      rfl
    rw [parseObjectLines, hline]
    dsimp only
    rw [parseObjectLine_objectLine (h.sizes _ hmem) (h.keys _ hmem), ih (i + 1) (by omega),
      List.drop_eq_getElem_cons hlt]
    rfl

theorem parseRefCount_metadataLines (h : m.WellFormed) :
    parseRefCount (metadataLines m) m.objects.length = .ok m.refCount := by
  have hline := getElem?_after_objects m 0
  rw [Nat.add_zero] at hline
  rw [parseRefCount, hline, List.getElem?_cons_zero]
  exact parseField_decimal h.refCount _

theorem parseReadOnly_metadataLines (h : m.WellFormed) :
    parseReadOnly (metadataLines m) m.version m.objects.length = m.readOnly := by
  have hline := getElem?_after_objects m 1
  rw [show 2 + m.objects.length + 1 = 3 + m.objects.length by omega, List.getElem?_cons_succ] at hline
  rw [parseReadOnly, hline, flagLines]
  by_cases hversion : 3 ≤ m.version
  · rw [if_pos hversion, List.cons_append, List.getElem?_cons_zero, Option.map_some]
    cases m.readOnly with
    | true => simp [hversion]; decide
    | false => simp [hversion]; decide
  · rw [h.readOnly (by omega)]
    simp [hversion]

theorem parseInlineData_metadataLines (h : m.WellFormed) :
    parseInlineData (metadataLines m) m.version m.objects.length = m.inlineData := by
  have hline := getElem?_after_objects m 2
  rw [show 2 + m.objects.length + 2 = 4 + m.objects.length by omega, List.getElem?_cons_succ] at hline
  rw [parseInlineData]
  split_ifs with hversion
  · rw [hline, flagLines, if_pos (by omega : 3 ≤ m.version), if_pos hversion, List.cons_append,
      List.nil_append, List.getElem?_cons_succ, List.getElem?_cons_zero]
    cases hdata : m.inlineData with
    | none => rfl
    | some data => simp [(h.inlineData data hdata).1]
  · exact (h.inlineVersion (by omega)).symm

/-- **A well-formed record is read back from its file.** -/
theorem parse_serialize (h : m.WellFormed) : parseMetadata (serializeMetadata m) = .ok m := by
  have hlength : 3 ≤ (metadataLines m).length := by
    rw [metadataLines]
    simp only [List.length_cons, List.length_append]
    omega
  have hheader : parseTwoFields (headerLine m) = some (decimal m.objects.length, decimal m.totalSize) :=
    parseTwoFields_eq (notMem_decimal (by decide) _) (notMem_decimal (by decide) _)
  refine parseMetadata_eq_ok_iff.mpr ⟨m.objects.length, ?_⟩
  rw [lines_serializeMetadata h]
  exact ⟨⟨decimal m.version, rfl, parseField_decimal (Nat.lt_of_le_of_lt h.version.2 (by decide)) _⟩,
    h.version, hlength, ⟨decimal m.objects.length, decimal m.totalSize, hheader,
      parseField_decimal h.count _, parseField_decimal h.totalSize _⟩,
    parseObjectLines_metadataLines h _ 0 (Nat.zero_add _), parseRefCount_metadataLines h,
    parseReadOnly_metadataLines h, parseInlineData_metadataLines h⟩

end Lines

/-! ## What the parser returns -/

section Parsed

variable {m : ObjectDiskMetadata}

theorem parseField_lt {bits n : Nat} {field context : Str} (h : parseField bits field context = .ok n) :
    n < 2 ^ bits := by
  rw [parseField] at h
  split at h
  · next k hk =>
    cases h
    exact Str.parseUnsigned_lt hk
  · cases h

/-- An object is read off a line of the file. -/
theorem parseObjectLine_eq_ok {line : Str} {o : ObjectRef} (h : parseObjectLine line = .ok o)
    (hn : '\n' ∉ line) (hr : '\r' ∉ line) : o.size < 2 ^ 64 ∧ IsField o.relativePath := by
  rw [parseObjectLine] at h
  dsimp only [bind, Except.bind] at h
  cases htwo : parseTwoFields line with
  | none =>
    rw [htwo] at h
    cases h
  | some fields =>
    rw [htwo] at h
    dsimp only at h
    cases hsize : parseField 64 fields.1 "Failed to parse object size" with
    | error e =>
      rw [hsize] at h
      cases h
    | ok size =>
      rw [hsize] at h
      cases h
      have hpiece : fields.2 ∈ line.splitOn '\t' := by
        rw [parseTwoFields] at htwo
        split at htwo
        · next a b rest hsplit =>
          cases htwo
          rw [hsplit]
          exact List.mem_cons_of_mem _ List.mem_cons_self
        · cases htwo
      have hmem : ∀ c ∈ fields.2.trim, c ∈ line ∧ c ≠ '\t' := fun c hc =>
        Str.mem_of_mem_splitOn hpiece (Str.mem_of_mem_trim hc)
      exact ⟨parseField_lt hsize, Str.trimmed_trim _, fun hc => (hmem _ hc).2 rfl,
        fun hc => hn (hmem _ hc).1, fun hc => hr (hmem _ hc).1⟩

theorem parseObjectLines_eq_ok {lines : List Str} (hlines : ∀ l ∈ lines, '\n' ∉ l ∧ '\r' ∉ l)
    {count left i : Nat} {objects : List ObjectRef}
    (h : parseObjectLines lines count left i = .ok objects) :
    objects.length = left ∧ ∀ o ∈ objects, o.size < 2 ^ 64 ∧ IsField o.relativePath := by
  induction left generalizing i objects with
  | zero =>
    cases h
    exact ⟨rfl, fun o ho => absurd ho List.not_mem_nil⟩
  | succ left ih =>
    rw [parseObjectLines] at h
    dsimp only [bind, Except.bind] at h
    cases hline : lines[2 + i]? with
    | none =>
      rw [hline] at h
      cases h
    | some line =>
      rw [hline] at h
      dsimp only at h
      cases hobject : parseObjectLine line with
      | error e =>
        rw [hobject] at h
        cases h
      | ok object =>
        rw [hobject] at h
        dsimp only at h
        cases hrest : parseObjectLines lines count left (i + 1) with
        | error e =>
          rw [hrest] at h
          cases h
        | ok rest =>
          rw [hrest] at h
          cases h
          obtain ⟨hlength, hall⟩ := ih hrest
          obtain ⟨hn, hr⟩ := hlines line (List.mem_of_getElem? hline)
          refine ⟨by rw [List.length_cons, hlength], ?_⟩
          rw [List.forall_mem_cons]
          exact ⟨parseObjectLine_eq_ok hobject hn hr, hall⟩

/-- **What the parser returns for a text without carriage returns is well formed.** -/
theorem wellFormed_of_parse {content : Str} (hr : '\r' ∉ content) (h : parseMetadata content = .ok m) :
    m.WellFormed := by
  obtain ⟨count, hparse⟩ := parseMetadata_eq_ok_iff.mp h
  have hlines : ∀ l ∈ Str.lines content, '\n' ∉ l ∧ '\r' ∉ l := fun l hl =>
    ⟨fun hc => (Str.mem_of_mem_lines hl hc).2 rfl, fun hc => hr (Str.mem_of_mem_lines hl hc).1⟩
  obtain ⟨hlength, hobjects⟩ := parseObjectLines_eq_ok hlines hparse.objects
  obtain ⟨field, total, -, hcount, htotal⟩ := hparse.header
  refine ⟨hparse.supported, ?_, parseField_lt htotal, fun o ho => (hobjects o ho).1,
    fun o ho => (hobjects o ho).2, ?_, fun hversion => ?_, fun hversion => ?_, fun data hdata => ?_⟩
  · rw [hlength]
    exact parseField_lt hcount
  · have href := hparse.refCount
    rw [parseRefCount] at href
    split at href
    · exact parseField_lt href
    · rw [← Except.ok.inj href]
      decide
  · rw [← hparse.readOnly, parseReadOnly]
    simp [Nat.not_le.mpr hversion]
  · rw [← hparse.inlineData, parseInlineData, if_neg (Nat.not_le.mpr hversion)]
  · have hinline := hparse.inlineData
    rw [Option.mem_def.mp hdata, parseInlineData] at hinline
    split_ifs at hinline
    obtain ⟨hline, hne⟩ := Option.filter_eq_some_iff.mp hinline
    exact ⟨by simpa using hne, hlines data (List.mem_of_getElem? hline)⟩

end Parsed

/-! ## Rewritten keys -/

section Rewritten

variable {m : ObjectDiskMetadata} {uuidPrefix destDiskKeyPrefix : Str}

/-- The record with the keys of the restored objects, unreferenced and writable. -/
def restoredMetadata (m : ObjectDiskMetadata) (uuidPrefix destDiskKeyPrefix : Str) : ObjectDiskMetadata :=
  { m with
    refCount := 0
    readOnly := false
    objects := m.objects.map fun o =>
      { o with relativePath :=
          (restoreObjectKeys m.version o.relativePath uuidPrefix destDiskKeyPrefix).metadataKey } }

/-- The rewritten file is the file of the record with the keys of the restored objects. -/
theorem rewriteMetadata_eq (m : ObjectDiskMetadata) (uuidPrefix destDiskKeyPrefix : Str) :
    rewriteMetadata m uuidPrefix destDiskKeyPrefix =
      serializeMetadata (restoredMetadata m uuidPrefix destDiskKeyPrefix) := by
  rw [rewriteMetadata, serializeMetadata, restoredMetadata]
  simp only [List.length_map, List.flatMap_map, List.append_assoc, Bool.false_eq_true, if_false]
  rfl

/-- No white space in a text. -/
def Plain (s : Str) : Prop := ∀ c ∈ s, Str.isWhitespace c = false

/-- A key below a place without white space is a field. -/
theorem IsField.below {root key : Str} (hroot : Plain root) (hkey : IsField key) :
    IsField (root ++ '/' :: key) := by
  have hstart : ∀ c ∈ root ++ ['/'], Str.isWhitespace c = false := by
    intro c hc
    rcases List.mem_append.mp hc with hc | hc
    · exact hroot c hc
    · rw [List.mem_singleton.mp hc]
      decide
  have hnot : ∀ {x : Char}, Str.isWhitespace x = true → x ∉ key → x ∉ root ++ '/' :: key := by
    intro x hx hxkey hmem
    rw [List.append_cons] at hmem
    rcases List.mem_append.mp hmem with hmem | hmem
    · rw [hstart x hmem] at hx
      cases hx
    · exact hxkey hmem
  refine ⟨?_, hnot (by decide) hkey.noTab, hnot (by decide) hkey.noLineFeed,
    hnot (by decide) hkey.noReturn⟩
  rw [List.append_cons]
  exact Str.Trimmed.append hstart (by simp) hkey.trimmed

theorem isField_metadataKey {version : Nat} {key : Str} (hu : Plain uuidPrefix)
    (hd : Plain destDiskKeyPrefix) (hkey : IsField key) :
    IsField (restoreObjectKeys version key uuidPrefix destDiskKeyPrefix).metadataKey := by
  have hroot : Plain (uuidPrefix.trimEnd '/') := fun c hc => hu c (Str.mem_of_mem_trimEnd hc)
  have hdest : Plain (Str.trimMatches '/' destDiskKeyPrefix) := fun c hc => hd c (Str.mem_of_mem_trimMatches hc)
  have hcopy := hkey.below hroot
  rw [restoreObjectKeys]
  dsimp only
  split_ifs with hversion
  · rw [joinDiskKey]
    split_ifs with hempty
    · exact hcopy
    · exact hcopy.below hdest
  · exact hcopy

theorem ObjectDiskMetadata.WellFormed.restored (h : m.WellFormed) (hu : Plain uuidPrefix) (hd : Plain destDiskKeyPrefix) :
    (restoredMetadata m uuidPrefix destDiskKeyPrefix).WellFormed := by
  refine ⟨h.version, ?_, h.totalSize, ?_, ?_, Nat.two_pow_pos 32, fun _ => rfl,
    h.inlineVersion, h.inlineData⟩
  · rw [restoredMetadata]
    dsimp only
    rw [List.length_map]
    exact h.count
  · intro o ho
    obtain ⟨o', ho', rfl⟩ := List.mem_map.mp ho
    exact h.sizes o' ho'
  · intro o ho
    obtain ⟨o', ho', rfl⟩ := List.mem_map.mp ho
    exact isField_metadataKey hu hd (h.keys o' ho')

end Rewritten

/-- **Metadata survives writing and rewriting**: what is read back is the record itself, and the
record with the restored keys. -/
theorem metadata_read_back (c : Str) (m : ObjectDiskMetadata) (hreturn : '\r' ∉ c)
    (h : parseMetadata c = .ok m) :
    parseMetadata (serializeMetadata m) = .ok m ∧
      ∀ u d : Str, (∀ x ∈ u, Str.isWhitespace x = false) → (∀ x ∈ d, Str.isWhitespace x = false) →
        parseMetadata (rewriteMetadata m u d) =
          .ok { m with
            refCount := 0
            readOnly := false
            objects := m.objects.map fun o =>
              { o with relativePath := (restoreObjectKeys m.version o.relativePath u d).metadataKey } } := by
  have hwell := wellFormed_of_parse hreturn h
  refine ⟨parse_serialize hwell, fun u d hu hd => ?_⟩
  rw [rewriteMetadata_eq]
  exact parse_serialize (hwell.restored hu hd)

/-- A file of version 5 with one object. -/
theorem metadata_read_back_v5 :
    '\r' ∉ "5\n1\t10\n10\tdisks/a b\n1\n1\nx\n".toList ∧
      parseMetadata (rewriteMetadata ⟨5, [⟨"disks/a b", 10⟩], 10, 1, true, some "x"⟩ "store/abc/" "/dst/") =
        .ok ⟨5, [⟨"dst/store/abc/disks/a b", 10⟩], 10, 0, false, some "x"⟩ := by
  have hreturn : '\r' ∉ "5\n1\t10\n10\tdisks/a b\n1\n1\nx\n".toList := by decide
  have hparse : parseMetadata "5\n1\t10\n10\tdisks/a b\n1\n1\nx\n".toList =
      .ok ⟨5, [⟨"disks/a b", 10⟩], 10, 1, true, some "x"⟩ := by decide
  exact ⟨hreturn, (metadata_read_back _ _ hreturn hparse).2 "store/abc/" "/dst/" (by simp; decide) (by simp; decide)⟩

end Chbackup
