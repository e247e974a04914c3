import Chbackup.Client.Xml

/-!
# The scanners never stop short

Every search of the scanners of `src/clickhouse/client.rs` finds a position between two characters, and
every round of their loops leaves less to read.  One step goes wrong: after a closing tag the scanners of a
disks section go on one byte after the end of the tag's name, and the white space that ends a name may have
more than one byte.
-/

namespace Chbackup

open Checked (Unfinished Step)

/-- Reading a disks section comes to a closing tag whose name is ended by white space of more than one
byte. -/
inductive MeetsWideEnding : Str → Prop
  | here {s rest : Str} {ending : Char} : readTag s = .closing ending rest → 1 < ending.utf8Size →
      MeetsWideEnding s
  | closing {s rest : Str} {ending : Char} : readTag s = .closing ending rest → MeetsWideEnding rest →
      MeetsWideEnding s
  | skip {s rest : Str} : readTag s = .skip rest → MeetsWideEnding rest → MeetsWideEnding s
  | disk {s name content rest : Str} : readTag s = .disk name content rest → MeetsWideEnding rest →
      MeetsWideEnding s

/-- **The scanners are total** on a text: they return within their rounds and never abort. -/
structure ScannersTotal (env : Str → Option Str) (xml : Str) : Prop where
  s3Disks : ∀ endpoints, ∃ result, parseS3DisksFromXml xml endpoints = .ok result
  cacheDisks : ∀ refs, ∃ result, parseCacheDiskRefsFromXml xml refs = .ok result
  macros : ∀ macros, ∃ result, parseMacrosFromXml env xml macros = .ok result
  sections : ∀ tag, ∃ result, extractXmlSection xml tag = .ok result

/-! ## Disks -/

section Disks

variable {visit : DiskVisit} {s rest xml : Str} {pos : Nat} {found : SortedMap Str Str}

theorem meetsWideEnding_none (h : readTag s = .none) : ¬MeetsWideEnding s := by
  rintro (⟨h', _⟩ | ⟨h', _⟩ | ⟨h', _⟩ | ⟨h', _⟩) <;> cases h.symm.trans h'

theorem meetsWideEnding_skip (h : readTag s = .skip rest) : MeetsWideEnding s ↔ MeetsWideEnding rest := by
  refine ⟨?_, MeetsWideEnding.skip h⟩
  rintro (⟨h', _⟩ | ⟨h', _⟩ | ⟨h', hrest⟩ | ⟨h', _⟩) <;> cases h.symm.trans h'
  exact hrest

theorem meetsWideEnding_disk {name content : Str} (h : readTag s = .disk name content rest) :
    MeetsWideEnding s ↔ MeetsWideEnding rest := by
  refine ⟨?_, MeetsWideEnding.disk h⟩
  rintro (⟨h', _⟩ | ⟨h', _⟩ | ⟨h', _⟩ | ⟨h', hrest⟩) <;> cases h.symm.trans h'
  exact hrest

theorem meetsWideEnding_closing {ending : Char} (h : readTag s = .closing ending rest) :
    MeetsWideEnding s ↔ 1 < ending.utf8Size ∨ MeetsWideEnding rest := by
  refine ⟨?_, fun hor => hor.elim (MeetsWideEnding.here h) (MeetsWideEnding.closing h)⟩
  rintro (⟨h', hwide⟩ | ⟨h', hrest⟩ | ⟨h', _⟩ | ⟨h', _⟩) <;> cases h.symm.trans h'
  · exact .inl hwide
  · exact .inr hrest

/-- A round that starts inside a character aborts. -/
theorem diskStep_inside {x : Char} {t : Str} (h : Str.At xml pos (x :: t)) (hx : 1 < x.utf8Size) :
    diskStep visit xml (pos + 1, found) = .abort := by
  have hpos : ¬Str.byteLen xml ≤ pos + 1 := by
    obtain ⟨a, rfl, rfl⟩ := h
    rw [Str.byteLen_append, Str.byteLen_cons]
    omega
  show (if Str.byteLen xml ≤ pos + 1 then _ else _) = _
  rw [if_neg hpos, h.inside Nat.one_pos hx, Checked.abort_bind]

/-- The loop aborts if it meets a wide ending, and returns if not. -/
def Settled (visit : DiskVisit) (xml : Str) (n : Nat) (scan : DiskScan) (meets : Prop) : Prop :=
  (meets → Checked.loop (diskStep visit xml) n scan = .abort) ∧
    (¬meets → ∃ result, Checked.loop (diskStep visit xml) n scan = .ok result)

theorem settled_loop (hvisit : ∀ name content found, ∃ found', visit name content found = .ok found')
    (n : Nat) (h : Str.At xml pos s) (hn : s.length < n) :
    Settled visit xml n (pos, found) (MeetsWideEnding s) := by
  induction n generalizing s pos found with
  | zero => exact absurd hn (Nat.not_lt_zero _)
  | succ n ih =>
    have hstep := diskStep_eq visit h found
    cases hread : readTag s with
    | none =>
      rw [hread] at hstep
      exact ⟨fun hmeets => absurd hmeets (meetsWideEnding_none hread),
        fun _ => ⟨_, Checked.loop_done hstep n⟩⟩
    | skip rest =>
      obtain ⟨hrest, hlt⟩ := at_leaves h hread (.skip rest)
      rw [hread] at hstep
      rw [Settled, Checked.loop_next hstep, meetsWideEnding_skip hread]
      exact ih hrest (by omega)
    | disk name content rest =>
      obtain ⟨hrest, hlt⟩ := at_leaves h hread (.disk name content rest)
      obtain ⟨found', hfound⟩ := hvisit name content found
      rw [hread, outcomeOf, hfound] at hstep
      rw [Settled, Checked.loop_next hstep, meetsWideEnding_disk hread]
      exact ih hrest (by omega)
    | closing ending rest =>
      obtain ⟨hrest, hlt⟩ := at_leaves h hread (.closing ending rest)
      rw [List.length_cons] at hlt
      rw [hread] at hstep
      rw [Settled, Checked.loop_next hstep, meetsWideEnding_closing hread]
      by_cases hwide : 1 < ending.utf8Size
      · -- the next round starts inside the character
        obtain ⟨m, rfl⟩ := Nat.exists_eq_add_one_of_ne_zero (n := n) (by omega)
        exact ⟨fun _ => Checked.loop_abort (diskStep_inside hrest hwide) m,
          fun hnot => absurd (.inl hwide) hnot⟩
      · have hone : ending.utf8Size = 1 := by
          have := ending.utf8Size_pos
          omega
        rw [or_iff_right hwide]
        exact ih (hrest.next hone) (by omega)

/-- The loop over a disks section returns exactly if it meets no wide ending. -/
theorem scanDisks_ok_iff (hvisit : ∀ name content found, ∃ found', visit name content found = .ok found')
    (xml : Str) (found : SortedMap Str Str) :
    (∃ result, scanDisks visit xml found = .ok result) ↔ ¬MeetsWideEnding xml := by
  have hlen := Str.length_le_byteLen xml
  obtain ⟨habort, hok⟩ : Settled visit xml (Str.byteLen xml + 1) (0, found) (MeetsWideEnding xml) :=
    settled_loop hvisit _ (Str.At.start xml) (Nat.lt_succ_of_le hlen)
  constructor
  · rintro ⟨result, hresult⟩ hmeets
    rw [scanDisks, habort hmeets] at hresult
    cases hresult
  · intro hmeets
    obtain ⟨scan, hscan⟩ := hok hmeets
    exact ⟨scan.2, by rw [scanDisks, hscan]; rfl⟩

theorem visitS3Disk_ok (name content : Str) (found : SortedMap Str Str) :
    ∃ found', visitS3Disk name content found = .ok found' := by
  rw [visitS3Disk, extractXmlSection_eq, Checked.ok_bind, extractXmlSection_eq]
  split_ifs
  · cases sectionText content "endpoint" with
    | none => exact ⟨_, rfl⟩
    | some endpoint => exact ⟨_, rfl⟩
  · exact ⟨_, rfl⟩

theorem visitCacheDisk_ok (name content : Str) (found : SortedMap Str Str) :
    ∃ found', visitCacheDisk name content found = .ok found' := by
  rw [visitCacheDisk, extractXmlSection_eq, Checked.ok_bind, extractXmlSection_eq]
  split_ifs
  · cases sectionText content "disk" with
    | none => exact ⟨_, rfl⟩
    | some underlying => exact ⟨_, rfl⟩
  · exact ⟨_, rfl⟩

end Disks

/-! ## Macros -/

section Macros

variable {env : Str → Option Str} {s xml : Str} {pos : Nat} {macros : SortedMap Str Str}

theorem quotedValue_ok (rest : Str) : ∃ value, quotedValue rest = .ok value := by
  rw [quotedValue]
  cases rest with
  | nil => exact ⟨none, rfl⟩
  | cons x t =>
    obtain ⟨b, hb⟩ : ∃ b, (Str.utf8 (x :: t))[0]? = some b := by
      refine ⟨_, List.getElem?_eq_getElem ?_⟩
      exact Nat.lt_of_lt_of_le (Nat.zero_lt_succ _) (Str.length_le_byteLen (x :: t))
    rw [hb]
    dsimp only
    by_cases hquote : b ≠ Str.byte '"' ∧ b ≠ Str.byte '\''
    · rw [if_pos hquote]
      exact ⟨none, rfl⟩
    · -- a quote has one byte
      have hone : x.utf8Size = 1 := by
        rw [Ne, Ne, Str.headByte_iff hb (by decide), Str.headByte_iff hb (by decide), not_and_or, not_not,
          not_not] at hquote
        rcases hquote with rfl | rfl <;> rfl
      have hat := (Str.At.start (x :: t)).next hone
      rw [Nat.zero_add] at hat
      rw [if_neg hquote, hat.sliceFrom, Checked.ok_bind]
      rcases Str.findChar_eq (· = Char.ofNat b.toNat) t with ⟨-, hfind⟩ | ⟨v, y, w, -, hfind, rfl⟩
      · rw [hfind]
        exact ⟨none, rfl⟩
      · rw [hfind]
        dsimp only
        rw [hat.slice]
        exact ⟨some v, rfl⟩

theorem extractAttribute_ok (tagOpening attrName : Str) :
    ∃ value, extractAttribute tagOpening attrName = .ok value := by
  -- behind the name and the sign there is a position
  have hbehind : ∀ {start : Nat} {rest : Str}, Str.At tagOpening start (attrName ++ ['='] ++ rest) →
      ∃ value, (Str.sliceFrom tagOpening (start + Str.byteLen attrName + 1)).bind quotedValue = .ok value := by
    intro start rest hat
    rw [List.append_assoc] at hat
    rw [(hat.append.next rfl).sliceFrom, Checked.ok_bind]
    exact quotedValue_ok rest
  rw [extractAttribute]
  dsimp only
  by_cases hstart : (attrName ++ ['=']).isPrefixOf tagOpening = true
  · obtain ⟨rest, hrest⟩ := List.isPrefixOf_iff_prefix.mp hstart
    rw [if_pos hstart]
    exact hbehind ⟨[], hrest.symm, rfl⟩
  · rw [if_neg hstart]
    rcases Str.find_eq (' ' :: (attrName ++ ['='])) tagOpening with ⟨-, hfind⟩ | ⟨u, rest, -, hfind, htext⟩
    · rw [hfind]
      exact ⟨none, rfl⟩
    · have hat : Str.At tagOpening (Str.byteLen u) (' ' :: (attrName ++ ['='] ++ rest)) :=
        ⟨u, htext.trans (List.append_assoc _ _ _), rfl⟩
      rw [hfind]
      exact hbehind (hat.next rfl)

/-- A round ends the loop or goes on with less to read. -/
def MacroStep.GoesOn (xml s : Str) : MacroStep → Prop
  | .done => True
  | .next pos _ => ∃ rest, Str.At xml pos rest ∧ rest.length < s.length
  | .nested inner pos =>
    inner.length < s.length ∧ ∃ rest, Str.At xml pos rest ∧ rest.length < s.length

theorem length_trim_le (s : Str) : (Str.trim s).length ≤ s.length := by
  rw [Str.trim, Str.trimStart, List.length_reverse]
  refine (List.length_dropWhile_le _ _).trans ?_
  rw [List.length_reverse]
  exact List.length_dropWhile_le _ _

theorem macroStep_ok (h : Str.At xml pos s) :
    ∃ step, macroStep env xml pos macros = .ok step ∧ step.GoesOn xml s := by
  rw [macroStep]
  by_cases hs : s = []
  · subst hs
    have hend := h.eq
    rw [if_pos (by rw [hend]; exact Nat.le_refl _)]
    exact ⟨.done, rfl, trivial⟩
  rw [if_neg (h.lt hs), h.sliceFrom, Checked.ok_bind]
  -- the opening bracket
  rcases Str.findChar_eq (· = '<') s with ⟨-, hfind⟩ | ⟨u, x, named, hcut, hfind, rfl⟩
  · rw [hfind]
    exact ⟨.done, rfl, trivial⟩
  obtain ⟨-, hx, -⟩ := Str.cutWhere_eq_some hcut
  obtain rfl : x = '<' := of_decide_eq_true hx
  have htag := h.append
  have hnamed := htag.next rfl
  have hlen : (u ++ '<' :: named).length = u.length + (named.length + 1) := List.length_append
  rw [hfind]
  dsimp only
  rw [htag.sliceFrom, Checked.ok_bind]
  by_cases hcomment : ['<', '!', '-', '-'].isPrefixOf ('<' :: named) = true
  · rw [if_pos hcomment]
    rcases Str.find_eq ['-', '-', '>'] ('<' :: named) with ⟨-, hfind⟩ | ⟨v, rest, -, hfind, htext⟩
    · rw [hfind]
      exact ⟨.done, rfl, trivial⟩
    · have hshort := congrArg List.length htext
      rw [htext, List.append_assoc] at htag
      rw [hfind]
      refine ⟨_, rfl, rest, htag.append.append, ?_⟩
      rw [hlen]
      simp only [List.length_cons, List.length_append, List.length_nil] at hshort
      omega
  rw [if_neg hcomment, hnamed.sliceFrom, Checked.ok_bind]
  by_cases hclosing : (['/'].isPrefixOf named || ['?'].isPrefixOf named) = true
  · rw [if_pos hclosing]
    rcases Str.findChar_eq (· = '>') named with ⟨-, hfind⟩ | ⟨v, y, rest, hcut, hfind, rfl⟩
    · rw [hfind]
      exact ⟨_, rfl, named, hnamed, by omega⟩
    · obtain ⟨-, hy, -⟩ := Str.cutWhere_eq_some hcut
      obtain rfl : y = '>' := of_decide_eq_true hy
      rw [hfind]
      refine ⟨_, rfl, rest, ?_, ?_⟩
      · rw [← Nat.add_assoc]
        exact hnamed.append.next rfl
      · simp only [List.length_append, List.length_cons]
        omega
  rw [if_neg hclosing]
  -- the name
  rcases Str.findChar_eq (fun c => c = '>' || c = '/' || Str.isWhitespace c) named with
    ⟨-, hfind⟩ | ⟨name, ending, rest, -, hfind, rfl⟩
  · rw [hfind]
    exact ⟨.done, rfl, trivial⟩
  rw [hfind]
  dsimp only
  rw [hnamed.slice, Checked.ok_bind, hnamed.append.sliceFrom, Checked.ok_bind]
  -- the end of the opening tag
  rcases Str.findChar_eq (· = '>') (ending :: rest) with ⟨-, hfind⟩ | ⟨v, y, inside, hcut, hfind, hopen⟩
  · rw [hfind]
    exact ⟨.done, rfl, trivial⟩
  obtain ⟨-, hy, -⟩ := Str.cutWhere_eq_some hcut
  obtain rfl : y = '>' := of_decide_eq_true hy
  have hopening := hnamed.append
  rw [hopen] at hopening
  have hinside := hopening.append.next rfl
  have hshort := congrArg List.length hopen
  simp only [List.length_cons, List.length_append] at hshort hlen
  obtain ⟨var, hvar⟩ := extractAttribute_ok (Str.trim v) "from_env"
  rw [hfind]
  dsimp only
  rw [hopening.slice, Checked.ok_bind, hvar, Checked.ok_bind]
  by_cases hself : ['/'].isSuffixOf v = true
  · rw [if_pos hself]
    exact ⟨_, rfl, inside, hinside, by simp only [List.length_append, List.length_cons]; omega⟩
  rw [if_neg hself, hinside.sliceFrom, Checked.ok_bind]
  rcases Str.find_eq (closeTagOf name) inside with ⟨-, hfind⟩ | ⟨inner, rest', -, hfind, hclose⟩
  · rw [hfind]
    exact ⟨_, rfl, inside, hinside, by simp only [List.length_append, List.length_cons]; omega⟩
  have hshort' := congrArg List.length hclose
  simp only [List.length_append] at hshort'
  rw [hclose, List.append_assoc] at hinside
  rw [hfind]
  dsimp only
  rw [hinside.slice, Checked.ok_bind]
  have hgo : ∃ r, Str.At xml _ r ∧ r.length < (u ++ '<' :: (name ++ ending :: rest)).length :=
    ⟨rest', hinside.append.append, by simp only [List.length_append, List.length_cons]; omega⟩
  cases var.bind (envValue env) with
  | some val => exact ⟨_, rfl, hgo⟩
  | none =>
    dsimp only
    split_ifs
    · have htrim := length_trim_le inner
      exact ⟨_, rfl, by simp only [List.length_append, List.length_cons]; omega, hgo⟩
    · exact ⟨_, rfl, hgo⟩
    · exact ⟨_, rfl, hgo⟩

/-- Sections inside sections are shorter, so the rounds do for both. -/
theorem macroLoop_ok (rounds : Nat) (h : Str.At xml pos s) (hrounds : s.length < rounds)
    (macros : SortedMap Str Str) : ∃ result, macroLoop env rounds xml pos macros = .ok result := by
  induction rounds generalizing xml pos s macros with
  | zero => exact absurd hrounds (Nat.not_lt_zero _)
  | succ rounds ih =>
    obtain ⟨step, hstep, hgo⟩ : ∃ step, macroStep env xml pos macros = .ok step ∧ step.GoesOn xml s :=
      macroStep_ok h
    rw [macroLoop, hstep, Checked.ok_bind]
    cases step with
    | done => exact ⟨macros, rfl⟩
    | next pos' macros' =>
      obtain ⟨rest, hrest, hlt⟩ := hgo
      exact ih hrest (by omega) macros'
    | nested inner pos' =>
      obtain ⟨hinner, rest, hrest, hlt⟩ := hgo
      obtain ⟨macros', hmacros'⟩ := ih (Str.At.start inner) (by omega) macros
      dsimp only
      rw [hmacros', Checked.ok_bind]
      exact ih hrest (by omega) macros'

end Macros

/-- **The scanners are total exactly if** no closing tag that the scanners of a disks section come to has
its name ended by white space of more than one byte. -/
theorem xml_scanners_total_iff (env : Str → Option Str) (xml : Str) :
    ScannersTotal env xml ↔ ¬MeetsWideEnding xml := by
  constructor
  · exact fun h => (scanDisks_ok_iff visitS3Disk_ok xml SortedMap.empty).mp (h.s3Disks _)
  · intro h
    exact ⟨fun endpoints => (scanDisks_ok_iff visitS3Disk_ok xml endpoints).mpr h,
      fun refs => (scanDisks_ok_iff visitCacheDisk_ok xml refs).mpr h,
      fun macros => macroLoop_ok _ (Str.At.start xml) (Nat.lt_succ_of_le (Str.length_le_byteLen xml)) macros,
      fun tag => ⟨_, extractXmlSection_eq xml tag⟩⟩

/-- A closing tag whose name is ended by an ideographic space. -/
theorem xml_scanner_stops_short :
    ¬ScannersTotal (fun _ => none) ['<', '/', 'a', Char.ofNat 0x3000, '>'] := by
  intro h
  obtain ⟨result, hresult⟩ := h.s3Disks SortedMap.empty
  have habort : parseS3DisksFromXml ['<', '/', 'a', Char.ofNat 0x3000, '>'] SortedMap.empty = .abort := by
    decide +kernel
  rw [habort] at hresult
  cases hresult

end Chbackup
