import Chbackup.Lib.BytePositions
import Chbackup.Lib.SortedMap
import Chbackup.Storage.Endpoint

/-!
# Reading the configuration of the server

The scanners of `src/clickhouse/client.rs` that look for disks and macros in XML.  They search for texts
between positions and know nothing of the structure of XML.

The two scanners of a disks section differ only in what they do with a disk (`diskStep`).  What a round of
their loop reads is `readTag`, which knows the text that is left instead of a position in it.
-/

namespace Chbackup

open Checked (Unfinished Step)

/-! ## The scanners -/

/-- `</tag>`. -/
def closeTagOf (tag : Str) : Str := ['<', '/'] ++ tag ++ ['>']

/-- `extract_xml_section`. -/
def extractXmlSection (content tag : Str) : Checked Unfinished (Option Str) :=
  let openPrefix := '<' :: tag
  match Str.find openPrefix content with
  | none => .ok none
  | some prefixPos =>
    match (Str.utf8 content)[prefixPos + Str.byteLen openPrefix]? with
    | none => .ok none
    | some after =>
      if after ≠ Str.byte '>' ∧ after ≠ Str.byte '/' ∧ Str.isAsciiWhitespace after = false then .ok none
      else
        (Str.sliceFrom content prefixPos).bind fun rest =>
          match Str.findChar (· = '>') rest with
          | none => .ok none
          | some i =>
            let gtPos := i + prefixPos
            (Checked.sub gtPos 1).bind fun last =>
              (Checked.demand (Str.utf8 content)[last]?).bind fun b =>
                if b = Str.byte '/' then .ok none
                else
                  let start := gtPos + 1
                  (Str.sliceFrom content start).bind fun rest =>
                    match Str.find (closeTagOf tag) rest with
                    | none => .ok none
                    | some i => (Str.slice content start (i + start)).bind fun inner => .ok (some inner)

/-- What a tag is read from and what is found in the disks so far. -/
abbrev DiskScan : Type := Nat × SortedMap Str Str

/-- What is done with the name and the content of a disk. -/
abbrev DiskVisit : Type := Str → Str → SortedMap Str Str → Checked Unfinished (SortedMap Str Str)

/-- A character that ends the name of a tag. -/
def endsTagName (c : Char) : Bool := c = '>' || Str.isWhitespace c

/-- One round of the loop over the tags of a disks section. -/
def diskStep (visit : DiskVisit) (xml : Str) (scan : DiskScan) : Checked Unfinished (Step DiskScan) :=
  let (pos, found) := scan
  if Str.byteLen xml ≤ pos then .ok (.done scan)
  else
    (Str.sliceFrom xml pos).bind fun rest =>
      match Str.findChar (· = '<') rest with
      | none => .ok (.done scan)
      | some i =>
        let tagStart := pos + i
        (Str.sliceFrom xml tagStart).bind fun tag =>
          if ['<', '!', '-', '-'].isPrefixOf tag then
            match Str.find ['-', '-', '>'] tag with
            | some stop => .ok (.next (tagStart + stop + 3, found))
            | none => .ok (.done scan)
          else
            let tagNameStart := tagStart + 1
            (Str.sliceFrom xml tagNameStart).bind fun named =>
              match Str.findChar endsTagName named with
              | none => .ok (.done scan)
              | some i =>
                let tagNameEnd := tagNameStart + i
                if ['/'].isPrefixOf named then .ok (.next (tagNameEnd + 1, found))
                else
                  (Str.slice xml tagNameStart tagNameEnd).bind fun diskName =>
                    (Str.sliceFrom xml tagNameEnd).bind fun opening =>
                      match Str.findChar (· = '>') opening with
                      | none => .ok (.done scan)
                      | some i =>
                        let contentStart := tagNameEnd + i + 1
                        (Str.sliceFrom xml contentStart).bind fun inside =>
                          match Str.find (closeTagOf diskName) inside with
                          | none => .ok (.next (contentStart, found))
                          | some i =>
                            let contentEnd := contentStart + i
                            (Str.slice xml contentStart contentEnd).bind fun content =>
                              (visit diskName content found).bind fun found =>
                                .ok (.next (contentEnd + Str.byteLen (closeTagOf diskName), found))

/-- The loop over the tags of a disks section. -/
def scanDisks (visit : DiskVisit) (xml : Str) (found : SortedMap Str Str) :
    Checked Unfinished (SortedMap Str Str) :=
  (Checked.loop (diskStep visit xml) (Str.byteLen xml + 1) (0, found)).bind fun scan => .ok scan.2

/-- A text with the letters of ASCII in lower case. -/
def asciiLowercase (s : Str) : Str := s.map Char.toLower

/-- The type of an S3 disk. -/
def isS3Type (t : Str) : Bool :=
  asciiLowercase (Str.trim t) = "s3" || asciiLowercase (Str.trim t) = "object_storage"

/-- The type of a cache disk. -/
def isCacheType (t : Str) : Bool := asciiLowercase (Str.trim t) = "cache"

/-- What `parse_s3_disks_from_xml` does with a disk. -/
def visitS3Disk : DiskVisit := fun diskName content endpoints =>
  (extractXmlSection content "type").bind fun diskType =>
    if diskType.any isS3Type then
      (extractXmlSection content "endpoint").bind fun endpoint =>
        match endpoint with
        | some endpoint =>
          let endpoint := Str.trim endpoint
          .ok (if endpoint ≠ [] then endpoints.insert diskName (endpointUrlToS3Uri endpoint) else endpoints)
        | none => .ok endpoints
    else .ok endpoints

/-- `parse_s3_disks_from_xml`. -/
def parseS3DisksFromXml (disksXml : Str) (endpoints : SortedMap Str Str) :
    Checked Unfinished (SortedMap Str Str) := scanDisks visitS3Disk disksXml endpoints

/-- What `parse_cache_disk_refs_from_xml` does with a disk. -/
def visitCacheDisk : DiskVisit := fun diskName content refs =>
  (extractXmlSection content "type").bind fun diskType =>
    if diskType.any isCacheType then
      (extractXmlSection content "disk").bind fun underlying =>
        match underlying with
        | some underlying =>
          let underlying := Str.trim underlying
          .ok (if underlying ≠ [] then refs.insert diskName underlying else refs)
        | none => .ok refs
    else .ok refs

/-- `parse_cache_disk_refs_from_xml`. -/
def parseCacheDiskRefsFromXml (disksXml : Str) (refs : SortedMap Str Str) :
    Checked Unfinished (SortedMap Str Str) := scanDisks visitCacheDisk disksXml refs

/-- The text in the quotes that a text begins with. -/
def quotedValue (rest : Str) : Checked Unfinished (Option Str) :=
  match (Str.utf8 rest)[0]? with
  | none => .ok none
  | some quote =>
    if quote ≠ Str.byte '"' ∧ quote ≠ Str.byte '\'' then .ok none
    else
      (Str.sliceFrom rest 1).bind fun quoted =>
        match Str.findChar (· = Char.ofNat quote.toNat) quoted with
        | none => .ok none
        | some stop => (Str.slice rest 1 (1 + stop)).bind fun value => .ok (some value)

/-- `extract_attribute`. -/
def extractAttribute (tagOpening attrName : Str) : Checked Unfinished (Option Str) :=
  let needle := ' ' :: (attrName ++ ['='])
  let attrStart :=
    if (attrName ++ ['=']).isPrefixOf tagOpening then some 0
    else (Str.find needle tagOpening).map (· + 1)
  match attrStart with
  | none => .ok none
  | some attrStart =>
    let eqPos := attrStart + Str.byteLen attrName
    (Str.sliceFrom tagOpening (eqPos + 1)).bind quotedValue

/-- How the loop over a macros section goes on. -/
inductive MacroStep where
  | done
  | next (pos : Nat) (macros : SortedMap Str Str)
  /-- A section inside the section is read before the rest. -/
  | nested (inner : Str) (pos : Nat)

section Macros

/- The environment variables. -/
variable (env : Str → Option Str)

/-- An environment variable that is set to a text that is not empty. -/
def envValue (var : Str) : Option Str := (env var).filter (· ≠ [])

/-- One round of the loop over the tags of a macros section. -/
def macroStep (xml : Str) (pos : Nat) (macros : SortedMap Str Str) : Checked Unfinished MacroStep :=
  if Str.byteLen xml ≤ pos then .ok .done
  else
    (Str.sliceFrom xml pos).bind fun rest =>
      match Str.findChar (· = '<') rest with
      | none => .ok .done
      | some i =>
        let tagStart := pos + i
        (Str.sliceFrom xml tagStart).bind fun tag =>
          if ['<', '!', '-', '-'].isPrefixOf tag then
            match Str.find ['-', '-', '>'] tag with
            | some stop => .ok (.next (tagStart + stop + 3) macros)
            | none => .ok .done
          else
            let nameStart := tagStart + 1
            (Str.sliceFrom xml nameStart).bind fun named =>
              if ['/'].isPrefixOf named || ['?'].isPrefixOf named then
                match Str.findChar (· = '>') named with
                | some stop => .ok (.next (nameStart + (stop + 1)) macros)
                | none => .ok (.next nameStart macros)
              else
                match Str.findChar (fun c => c = '>' || c = '/' || Str.isWhitespace c) named with
                | none => .ok .done
                | some i =>
                  let nameEnd := nameStart + i
                  (Str.slice xml nameStart nameEnd).bind fun tagName =>
                    (Str.sliceFrom xml nameEnd).bind fun opening =>
                      match Str.findChar (· = '>') opening with
                      | none => .ok .done
                      | some i =>
                        let gtPos := nameEnd + i
                        (Str.slice xml nameEnd gtPos).bind fun tagOpening =>
                          (extractAttribute (Str.trim tagOpening) "from_env").bind fun var =>
                            let fromEnvVal := var.bind (envValue env)
                            if ['/'].isSuffixOf tagOpening then
                              .ok (.next (gtPos + 1)
                                ((fromEnvVal.map fun val => macros.insert tagName val).getD macros))
                            else
                              let contentStart := gtPos + 1
                              (Str.sliceFrom xml contentStart).bind fun inside =>
                                match Str.find (closeTagOf tagName) inside with
                                | none => .ok (.next (gtPos + 1) macros)
                                | some closeOffset =>
                                  (Str.slice xml contentStart (contentStart + closeOffset)).bind fun inner =>
                                    let trimmed := Str.trim inner
                                    let pos := contentStart + closeOffset + Str.byteLen (closeTagOf tagName)
                                    match fromEnvVal with
                                    | some val => .ok (.next pos (macros.insert tagName val))
                                    | none =>
                                      if '<' ∈ trimmed then .ok (.nested trimmed pos)
                                      else if trimmed ≠ [] then
                                        .ok (.next pos (macros.insert tagName trimmed))
                                      else .ok (.next pos macros)

/-- The loop over the tags of a macros section, in at most so many rounds, those of nested sections
included. -/
def macroLoop : Nat → Str → Nat → SortedMap Str Str → Checked Unfinished (SortedMap Str Str)
  | 0, _, _, _ => .fail .unfinished
  | rounds + 1, xml, pos, macros =>
    (macroStep env xml pos macros).bind fun
      | .done => .ok macros
      | .next pos macros => macroLoop rounds xml pos macros
      | .nested inner pos => (macroLoop rounds inner 0 macros).bind fun macros => macroLoop rounds xml pos macros

/-- `parse_macros_from_xml`. -/
def parseMacrosFromXml (macrosXml : Str) (macros : SortedMap Str Str) :
    Checked Unfinished (SortedMap Str Str) :=
  macroLoop env (Str.byteLen macrosXml + 1) macrosXml 0 macros

end Macros

/-! ## What a section is -/

/-- The text that `extract_xml_section` finds, read without positions. -/
def sectionText (content tag : Str) : Option Str :=
  match Str.cut ('<' :: tag) content with
  | some (_, after :: rest) =>
    if after = '>' ∨ after = '/' ∨ after ∈ Str.asciiSpaces then
      match Str.cutWhere (· = '>') ('<' :: tag ++ after :: rest) with
      | some (opening, _, inside) =>
        if ['/'].isSuffixOf opening then none else (Str.cut (closeTagOf tag) inside).map Prod.fst
      | none => none
    else none
  | _ => none

theorem extractXmlSection_eq (content tag : Str) :
    extractXmlSection content tag = .ok (sectionText content tag) := by
  rw [extractXmlSection, sectionText]
  dsimp only
  rcases Str.find_eq ('<' :: tag) content with ⟨hcut, hfind⟩ | ⟨u, after, hcut, hfind, hcontent⟩
  · rw [hcut, hfind]
  rw [List.append_assoc] at hcontent
  have hat : Str.At content (Str.byteLen u) (('<' :: tag) ++ after) := ⟨u, hcontent, rfl⟩
  rw [hcut, hfind]
  dsimp only
  rw [hat.append.byte]
  cases after with
  | nil => rfl
  | cons c rest =>
    obtain ⟨b, hb⟩ : ∃ b, (Str.utf8 (c :: rest))[0]? = some b := by
      refine ⟨_, List.getElem?_eq_getElem ?_⟩
      have := Str.length_le_byteLen (c :: rest)
      exact Nat.lt_of_lt_of_le (Nat.zero_lt_succ _) this
    have hends : (b ≠ Str.byte '>' ∧ b ≠ Str.byte '/' ∧ Str.isAsciiWhitespace b = false) ↔
        ¬(c = '>' ∨ c = '/' ∨ c ∈ Str.asciiSpaces) := by
      rw [← Bool.not_eq_true, Str.isAsciiWhitespace_iff hb, Ne, Ne, Str.headByte_iff hb (by decide),
        Str.headByte_iff hb (by decide), not_or, not_or]
    rw [hb]
    dsimp only
    by_cases hc : c = '>' ∨ c = '/' ∨ c ∈ Str.asciiSpaces
    · rw [if_neg (fun h => hends.mp h hc), if_pos hc, hat.sliceFrom, Checked.ok_bind]
      rcases Str.findChar_eq (· = '>') ('<' :: tag ++ c :: rest) with
        ⟨hcut, hfind⟩ | ⟨opening, y, inside, hcut, hfind, hopen⟩
      · rw [hcut, hfind]
      obtain ⟨-, hy, -⟩ := Str.cutWhere_eq_some hcut
      obtain rfl : y = '>' := of_decide_eq_true hy
      rw [hopen] at hat
      rw [hcut, hfind]
      dsimp only
      -- the last byte of the opening tag tells whether it ends with a slash
      have hne : opening ≠ [] := by
        rintro rfl
        have hhead : some '<' = some '>' := congrArg List.head? hopen
        exact absurd hhead (by decide)
      obtain ⟨hpos, last, hlast, htells⟩ := hat.lastByte hne
      have hslash : last = Str.byte '/' ↔ ['/'].isSuffixOf opening = true := by
        rw [htells '/' (by decide), List.isSuffixOf_iff_suffix]
      have hstart := hat.append.next rfl
      rw [Nat.add_comm (Str.byteLen opening), Checked.sub_of_le hpos, Checked.ok_bind, hlast,
        Checked.demand_some, Checked.ok_bind]
      by_cases hself : ['/'].isSuffixOf opening = true
      · rw [if_pos (hslash.mpr hself), if_pos hself]
      · rw [if_neg (fun h => hself (hslash.mp h)), if_neg hself, hstart.sliceFrom, Checked.ok_bind]
        rcases Str.find_eq (closeTagOf tag) inside with ⟨hcut, hfind⟩ | ⟨w, rest', hcut, hfind, hclose⟩
        · rw [hcut, hfind]
          rfl
        · rw [hclose, List.append_assoc] at hstart
          rw [hcut, hfind]
          dsimp only
          rw [Nat.add_comm (Str.byteLen w), hstart.slice]
          rfl
    · rw [if_pos (hends.mpr hc), if_neg hc]

/-! ## What a round reads -/

/-- What comes next in a disks section. -/
inductive Tag where
  | none
  /-- A comment, or a tag that is never closed: reading goes on after it. -/
  | skip (rest : Str)
  /-- The name of a closing tag, which a character ends. -/
  | closing (ending : Char) (rest : Str)
  | disk (name content rest : Str)

/-- The next tag of a text. -/
def readTag (s : Str) : Tag :=
  match Str.cutWhere (· = '<') s with
  | none => .none
  | some (_, _, named) =>
    if ['<', '!', '-', '-'].isPrefixOf ('<' :: named) then
      match Str.cut ['-', '-', '>'] ('<' :: named) with
      | some (_, rest) => .skip rest
      | none => .none
    else
      match Str.cutWhere endsTagName named with
      | none => .none
      | some (name, ending, rest) =>
        if ['/'].isPrefixOf named then .closing ending rest
        else
          match Str.cutWhere (· = '>') (ending :: rest) with
          | none => .none
          | some (_, _, inside) =>
            match Str.cut (closeTagOf name) inside with
            | none => .skip inside
            | some (content, rest) => .disk name content rest

/-- The outcome of a round, when the section has so many bytes. -/
def outcomeOf (visit : DiskVisit) (total : Nat) (scan : DiskScan) : Tag → Checked Unfinished (Step DiskScan)
  | .none => .ok (.done scan)
  | .skip rest => .ok (.next (total - Str.byteLen rest, scan.2))
  | .closing ending rest => .ok (.next (total - Str.byteLen (ending :: rest) + 1, scan.2))
  | .disk name content rest =>
    (visit name content scan.2).bind fun found => .ok (.next (total - Str.byteLen rest, found))

/-- What is left after a tag, with the character that ends the name of a closing tag. -/
inductive Tag.Leaves : Tag → Str → Prop
  | skip (rest : Str) : Leaves (.skip rest) rest
  | closing (ending : Char) (rest : Str) : Leaves (.closing ending rest) (ending :: rest)
  | disk (name content rest : Str) : Leaves (.disk name content rest) rest

section Rounds

variable {s xml : Str} {pos : Nat}

/-- **A round of the loop reads the next tag.** -/
theorem diskStep_eq (visit : DiskVisit) (h : Str.At xml pos s) (found : SortedMap Str Str) :
    diskStep visit xml (pos, found) = outcomeOf visit (Str.byteLen xml) (pos, found) (readTag s) := by
  show (if Str.byteLen xml ≤ pos then _ else _) = _
  by_cases hs : s = []
  · subst hs
    have hend := h.eq
    rw [if_pos (by rw [hend]; exact Nat.le_refl _)]
    rfl
  rw [if_neg (h.lt hs), h.sliceFrom, Checked.ok_bind, readTag]
  -- the opening bracket
  rcases Str.findChar_eq (· = '<') s with ⟨hcut, hfind⟩ | ⟨u, x, named, hcut, hfind, rfl⟩
  · rw [hcut, hfind]
    rfl
  obtain ⟨-, hx, -⟩ := Str.cutWhere_eq_some hcut
  obtain rfl : x = '<' := of_decide_eq_true hx
  have htag := h.append
  have hnamed := htag.next rfl
  rw [hcut, hfind]
  dsimp only
  rw [htag.sliceFrom, Checked.ok_bind]
  by_cases hcomment : ['<', '!', '-', '-'].isPrefixOf ('<' :: named) = true
  · rw [if_pos hcomment, if_pos hcomment]
    rcases Str.find_eq ['-', '-', '>'] ('<' :: named) with ⟨hcut, hfind⟩ | ⟨v, rest, hcut, hfind, htext⟩
    · rw [hcut, hfind]
      rfl
    · rw [htext, List.append_assoc] at htag
      rw [hcut, hfind]
      exact congrArg (fun pos => Checked.ok (Step.next (pos, found))) htag.append.append.eq
  rw [if_neg hcomment, if_neg hcomment, hnamed.sliceFrom, Checked.ok_bind]
  -- the name
  rcases Str.findChar_eq endsTagName named with ⟨hcut, hfind⟩ | ⟨name, ending, rest, hcut, hfind, hname⟩
  · rw [hcut, hfind]
    rfl
  rw [hcut, hfind]
  dsimp only
  by_cases hslash : ['/'].isPrefixOf named = true
  · rw [hname] at hnamed
    rw [if_pos hslash, if_pos hslash]
    exact congrArg (fun pos => Checked.ok (Step.next (pos + 1, found))) hnamed.append.eq
  rw [if_neg hslash, if_neg hslash]
  rw [hname] at hnamed
  rw [hnamed.slice, Checked.ok_bind, hnamed.append.sliceFrom, Checked.ok_bind]
  -- the end of the opening tag
  rcases Str.findChar_eq (· = '>') (ending :: rest) with ⟨hcut, hfind⟩ | ⟨v, y, inside, hcut, hfind, hopen⟩
  · rw [hcut, hfind]
    rfl
  obtain ⟨-, hy, -⟩ := Str.cutWhere_eq_some hcut
  obtain rfl : y = '>' := of_decide_eq_true hy
  have hopening := hnamed.append
  rw [hopen] at hopening
  have hinside := hopening.append.next rfl
  rw [hcut, hfind]
  dsimp only
  rw [hinside.sliceFrom, Checked.ok_bind]
  rcases Str.find_eq (closeTagOf name) inside with ⟨hcut, hfind⟩ | ⟨content, rest', hcut, hfind, hclose⟩
  · rw [hcut, hfind]
    exact congrArg (fun pos => Checked.ok (Step.next (pos, found))) hinside.eq
  rw [hcut, hfind]
  rw [hclose, List.append_assoc] at hinside
  dsimp only
  rw [hinside.slice, Checked.ok_bind, hinside.append.append.eq]
  rfl

/-- A tag is read from the beginning of a text. -/
theorem Tag.Leaves.suffix {tag : Tag} {rest : Str} (h : tag.Leaves rest) (hread : readTag s = tag) :
    ∃ p, p ≠ [] ∧ s = p ++ rest := by
  rw [readTag] at hread
  cases hopen : Str.cutWhere (· = '<') s with
  | none =>
    rw [hopen] at hread
    subst hread
    cases h
  | some r =>
    obtain ⟨u, x, named⟩ := r
    obtain ⟨rfl, -, -⟩ := Str.cutWhere_eq_some hopen
    rw [hopen] at hread
    dsimp only at hread
    -- what follows the opening bracket is enough
    suffices hsuffix : rest <:+ named by
      obtain ⟨p, rfl⟩ := hsuffix
      exact ⟨u ++ x :: p, by simp, by simp⟩
    by_cases hcomment : ['<', '!', '-', '-'].isPrefixOf ('<' :: named) = true
    · rw [if_pos hcomment] at hread
      cases hend : Str.cut ['-', '-', '>'] ('<' :: named) with
      | none =>
        rw [hend] at hread
        subst hread
        cases h
      | some r =>
        obtain ⟨v, rest'⟩ := r
        rw [hend] at hread
        subst hread
        cases h
        cases v with
        | nil =>
          have hhead : some '<' = some '-' := congrArg List.head? (Str.cut_eq_some hend)
          exact absurd hhead (by decide)
        | cons y v =>
          obtain ⟨-, htail⟩ := List.cons.inj (Str.cut_eq_some hend)
          exact ⟨v ++ ['-', '-', '>'], htail.symm⟩
    · rw [if_neg hcomment] at hread
      cases hname : Str.cutWhere endsTagName named with
      | none =>
        rw [hname] at hread
        subst hread
        cases h
      | some r =>
        obtain ⟨name, ending, rest'⟩ := r
        obtain ⟨hnamed, -, -⟩ := Str.cutWhere_eq_some hname
        rw [hname] at hread
        dsimp only at hread
        by_cases hslash : ['/'].isPrefixOf named = true
        · rw [if_pos hslash] at hread
          subst hread
          cases h
          exact ⟨name, hnamed.symm⟩
        · rw [if_neg hslash] at hread
          cases hgt : Str.cutWhere (· = '>') (ending :: rest') with
          | none =>
            rw [hgt] at hread
            subst hread
            cases h
          | some r =>
            obtain ⟨v, y, inside⟩ := r
            obtain ⟨htext, -, -⟩ := Str.cutWhere_eq_some hgt
            have hinside : inside <:+ named :=
              ⟨name ++ (v ++ [y]), by simp [hnamed, htext]⟩
            rw [hgt] at hread
            dsimp only at hread
            cases hclose : Str.cut (closeTagOf name) inside with
            | none =>
              rw [hclose] at hread
              subst hread
              cases h
              exact hinside
            | some r =>
              obtain ⟨content, rest''⟩ := r
              rw [hclose] at hread
              subst hread
              cases h
              exact List.IsSuffix.trans ⟨content ++ closeTagOf name, (Str.cut_eq_some hclose).symm⟩ hinside

theorem at_leaves {tag : Tag} {rest : Str} (h : Str.At xml pos s) (hread : readTag s = tag)
    (hleaves : tag.Leaves rest) :
    Str.At xml (Str.byteLen xml - Str.byteLen rest) rest ∧ rest.length < s.length := by
  obtain ⟨p, hp, rfl⟩ := hleaves.suffix hread
  have hlen := List.length_pos_of_ne_nil hp
  rw [← h.append.eq, List.length_append]
  exact ⟨h.append, by omega⟩

end Rounds

end Chbackup
