import Chbackup.Client.Xml
import Chbackup.Lib.Xml

/-!
# The disks of a storage configuration

What the scanners of a disks section find in XML that is well formed.  They read the elements of the
section one by one where the texts they search for stand nowhere else: in no attribute, comment or nested
element, and in no name that only begins with the name they look for.
-/

namespace Chbackup

open Checked (Unfinished Step)
open Xml (Item Name childText renderAll textOf)

/-! ## The disks that are meant -/

/-- What a scanner looks for in the disks of a section. -/
structure DiskKind where
  ofType : Str → Bool
  /-- The child whose text is read. -/
  field : Str
  entry : Str → Str

/-- The S3 disks, with the places of their endpoints. -/
def s3Kind : DiskKind := { ofType := isS3Type, field := "endpoint", entry := endpointUrlToS3Uri }

/-- The cache disks, with the disks below them. -/
def cacheKind : DiskKind := { ofType := isCacheType, field := "disk", entry := id }

/-- What is kept of a disk with given texts of its type and its field. -/
def DiskKind.keep (k : DiskKind) (name diskType value : Str) (found : SortedMap Str Str) : SortedMap Str Str :=
  if k.ofType diskType ∧ Str.trim value ≠ [] then found.insert name (k.entry (Str.trim value)) else found

/-- The text of a child, empty if there is none. -/
def fieldText (name : Str) (content : List Item) : Str := (childText name content).getD []

/-- The disks of a section: its elements whose type is of the kind. -/
def DiskKind.disks (k : DiskKind) : List Item → SortedMap Str Str → SortedMap Str Str
  | [], found => found
  | .element tag content _ :: rest, found =>
    k.disks rest (k.keep tag.name.text (fieldText "type" content) (fieldText k.field content) found)
  | _ :: rest, found => k.disks rest found

/-! ## Where the scanners see them -/

/-- The child is written so that its text is seen: no bracket in its attributes, and only text in it. -/
def seenChild : Item → Bool
  | .empty tag => '>' ∉ tag.rest
  | .element tag content closing => '>' ∉ tag.rest ∧ content.all Item.isText ∧ closing.text = []
  | _ => false

/-- The child with a name is the first place where the beginning of its tag stands, and it is seen; where
there is no such child, its tag begins nowhere. -/
def Legible (name : Str) : List Item → Bool
  | [] => true
  | item :: rest =>
    if (item.contentOf? name).isSome then seenChild item
    else !Str.contains ('<' :: name) item.render && Legible name rest

/-- The content of a disk is read as it is meant. -/
def DiskKind.LegibleDisk (k : DiskKind) (content : List Item) : Prop :=
  Legible "type" content ∧ (k.ofType (fieldText "type" content) → Legible k.field content)

/-- The name that is read of an element without content. -/
def emptyName (tag : Xml.Tag) : Str := if tag.rest = [] then tag.name.text ++ ['/'] else tag.name.text

/-- The items of a section are read one by one. -/
def DiskKind.LegibleSection (k : DiskKind) : List Item → Prop
  | [] => True
  | .text _ :: rest => k.LegibleSection rest
  | .comment t :: rest => ¬['>'] <+: t.text ∧ ¬['-', '>'] <+: t.text ∧ k.LegibleSection rest
  | .empty tag :: rest =>
    '>' ∉ tag.rest ∧ ¬closeTagOf (emptyName tag) <:+: renderAll rest ∧ k.LegibleSection rest
  | .element tag content closing :: rest =>
    '>' ∉ tag.rest ∧ ¬closeTagOf tag.name.text <:+: renderAll content ∧ closing.text = [] ∧
      k.LegibleDisk content ∧ k.LegibleSection rest

/-! ## The text of a child -/

section Children

variable {name : Str} {item : Item} {content own : List Item}

/-- What is read after an opening tag. -/
theorem sectionText_opening {r inside : Str} (hname : '>' ∉ name) (hr : '>' ∉ r)
    (hhead : r = [] ∨ ∃ c s, r = c :: s ∧ (c = '/' ∨ c ∈ Str.asciiSpaces)) :
    sectionText ('<' :: name ++ (r ++ '>' :: inside)) name =
      if ['/'].isSuffixOf ('<' :: name ++ r) then none else (Str.cut (closeTagOf name) inside).map Prod.fst := by
  obtain ⟨c, t, ht, hc⟩ : ∃ c t, r ++ '>' :: inside = c :: t ∧ (c = '>' ∨ c = '/' ∨ c ∈ Str.asciiSpaces) := by
    rcases hhead with rfl | ⟨c, s, rfl, hc⟩
    · exact ⟨'>', inside, rfl, .inl rfl⟩
    · exact ⟨c, s ++ '>' :: inside, rfl, .inr hc⟩
  have hopen : Str.cutWhere (· = '>') ('<' :: name ++ c :: t) = some ('<' :: name ++ r, '>', inside) := by
    rw [← ht, ← List.append_assoc]
    refine Str.cutWhere_append (decide_eq_true rfl) fun y hy => decide_eq_false ?_
    rintro rfl
    rcases List.mem_append.mp hy with hy | hy
    · exact hname ((List.mem_cons.mp hy).resolve_left (by decide))
    · exact hr hy
  rw [sectionText, Str.cut_self, ht]
  dsimp only
  rw [if_pos hc, hopen]

theorem renderAll_eq_textOf (h : content.all Item.isText = true) : renderAll content = textOf content := by
  induction content with
  | nil => rfl
  | cons item content ih =>
    rw [List.all_cons, Bool.and_eq_true] at h
    cases item with
    | text t => rw [renderAll, ih h.2, textOf, textOf, List.flatMap_cons]; rfl
    | comment t => cases h.1
    | empty tag => cases h.1
    | element tag content closing => cases h.1

/-- What a child that is seen says. -/
theorem sectionText_seen (h : item.contentOf? name = some own) (hseen : seenChild item = true) (more : Str) :
    (sectionText (item.render ++ more) name).getD [] = textOf own := by
  cases item with
  | text t => cases h
  | comment t => cases h
  | empty tag =>
    rw [Item.contentOf?] at h
    split_ifs at h with hname
    obtain rfl : [] = own := Option.some.inj h
    have hrest : '>' ∉ tag.rest := of_decide_eq_true hseen
    have hr : '>' ∉ tag.rest ++ ['/'] := by simpa using hrest
    have hhead : tag.rest ++ ['/'] = [] ∨
        ∃ c s, tag.rest ++ ['/'] = c :: s ∧ (c = '/' ∨ c ∈ Str.asciiSpaces) := by
      rcases tag.rest_cases with hnil | ⟨c, s, hs, hc⟩
      · exact .inr ⟨'/', [], by rw [hnil]; rfl, .inl rfl⟩
      · exact .inr ⟨c, s ++ ['/'], by rw [hs]; rfl, .inr (Xml.mem_asciiSpaces hc)⟩
    have htext : Item.render (.empty tag) ++ more =
        '<' :: tag.name.text ++ (tag.rest ++ ['/'] ++ '>' :: more) := by simp [Item.render]
    rw [htext, ← hname, sectionText_opening (tag.name.notMem (by decide)) hr hhead, if_pos]
    · rfl
    · rw [← List.append_assoc, List.isSuffixOf_iff_suffix]
      exact List.suffix_append _ _
  | element tag content closing =>
    rw [Item.contentOf?] at h
    split_ifs at h with hname
    obtain rfl : content = own := Option.some.inj h
    obtain ⟨hrest, htexts, hclosing⟩ := of_decide_eq_true hseen
    have hhead : tag.rest = [] ∨ ∃ c s, tag.rest = c :: s ∧ (c = '/' ∨ c ∈ Str.asciiSpaces) := by
      rcases tag.rest_cases with hnil | ⟨c, s, hs, hc⟩
      · exact .inl hnil
      · exact .inr ⟨c, s, hs, .inr (Xml.mem_asciiSpaces hc)⟩
    have htext : Item.render (.element tag content closing) ++ more =
        '<' :: tag.name.text ++ (tag.rest ++ '>' :: (textOf content ++ (closeTagOf tag.name.text ++ more))) := by
      simp [Item.render, renderAll_eq_textOf htexts, hclosing, closeTagOf]
    have hslash : ¬['/'].isSuffixOf ('<' :: tag.name.text ++ tag.rest) = true := by
      rw [List.isSuffixOf_iff_suffix]
      exact tag.not_suffix ['<']
    have hcut : Str.cut (closeTagOf tag.name.text) (textOf content ++ (closeTagOf tag.name.text ++ more)) =
        some (textOf content, more) := by
      have hself := Str.cut_self (closeTagOf tag.name.text) more
      rw [show closeTagOf tag.name.text = '<' :: ('/' :: tag.name.text ++ ['>']) from rfl] at hself ⊢
      rw [Str.cut_append_of_notMem Xml.notMem_textOf, hself, Option.map_some, List.append_nil]
    rw [htext, ← hname, sectionText_opening (tag.name.notMem (by decide)) hrest hhead, if_neg hslash, hcut]
    rfl

/-- An item in which the tag does not begin is passed over. -/
theorem sectionText_unseen (hname : '<' ∉ name ∧ '>' ∉ name)
    (h : Str.contains ('<' :: name) item.render = false) (more : Str) :
    sectionText (item.render ++ more) name = sectionText more name := by
  have hcut : Str.cut ('<' :: name) (item.render ++ more) =
      (Str.cut ('<' :: name) more).map fun p => (item.render ++ p.1, p.2) := by
    by_cases ht : item.isText = true
    · cases item with
      | text t => exact Str.cut_append_of_notMem t.notMem
      | comment t => cases ht
      | empty tag => cases ht
      | element tag content closing => cases ht
    · refine Str.cut_append_of_last ?_ (Item.last_render (Bool.eq_false_iff.mpr ht)) ?_
      · rw [← Str.contains_iff, h]
        decide
      · simp [hname.2]
  rw [sectionText, sectionText, hcut]
  cases Str.cut ('<' :: name) more with
  | none => rfl
  | some p =>
    obtain ⟨u, t⟩ := p
    cases t with
    | nil => rfl
    | cons c t => rfl

/-- **A legible child is read.** -/
theorem sectionText_legible (hname : '<' ∉ name ∧ '>' ∉ name) (h : Legible name content = true) :
    (sectionText (renderAll content) name).getD [] = fieldText name content := by
  induction content with
  | nil => rfl
  | cons item content ih =>
    rw [Legible] at h
    rw [renderAll, fieldText, childText]
    cases hown : item.contentOf? name with
    | none =>
      rw [hown, if_neg (by decide), Bool.and_eq_true, Bool.not_eq_true'] at h
      rw [sectionText_unseen hname h.1, ih h.2, List.findSome?_cons_of_isNone (by rw [hown]; rfl)]
      rfl
    | some own =>
      rw [hown, if_pos (Option.isSome_some : (some own).isSome = true)] at h
      rw [sectionText_seen hown h, List.findSome?_cons, hown]
      rfl

end Children

/-! ## The tags of a section -/

section Tags

variable {u s : Str}

/-- A text before a tag is passed over. -/
theorem readTag_text (hu : '<' ∉ u) : readTag (u ++ s) = readTag s := by
  have hcut : Str.cutWhere (· = '<') (u ++ s) = (Str.cutWhere (· = '<') s).map fun r => (u ++ r.1, r.2) := by
    refine Str.cutWhere_append_of_forall fun x hx => decide_eq_false ?_
    rintro rfl
    exact hu hx
  rw [readTag, readTag, hcut]
  cases Str.cutWhere (· = '<') s with
  | none => rfl
  | some r => rfl

/-- Inside a comment its end does not begin. -/
theorem cut_commentText (t : Xml.CommentText) :
    Str.cut ['-', '-', '>'] (t.text ++ (['-', '-', '>'] ++ s)) = some (t.text, s) := by
  have hdashes : ¬['-', '-'] <:+: t.text ++ ['-'] := by
    rw [← Str.contains_iff, t.dashes]
    decide
  rw [Str.cut_append_of_apart ?_, Str.cut_self, Option.map_some, List.append_nil]
  rintro a hne ⟨v, hv⟩ hp
  rw [← hv] at hdashes
  obtain ⟨c, a, rfl⟩ := List.exists_cons_of_ne_nil hne
  obtain ⟨rfl, htail⟩ := List.cons_prefix_cons.mp hp
  cases a with
  | nil => exact hdashes ⟨v, [], by simp⟩
  | cons d a =>
    obtain ⟨rfl, -⟩ := List.cons_prefix_cons.mp htail
    exact hdashes ⟨v, a ++ ['-'], by simp⟩

/-- The end of a comment is found, unless its text and the beginning of the comment look like it. -/
theorem cut_comment (t : Xml.CommentText) (h : ¬['>'] <+: t.text) (h' : ¬['-', '>'] <+: t.text) :
    Str.cut ['-', '-', '>'] (Item.render (.comment t) ++ s) = some (['<', '!', '-', '-'] ++ t.text, s) := by
  have hcut := cut_commentText (s := s) t
  have hdashes : ¬['-', '-'] <:+: t.text ++ ['-'] := by
    rw [← Str.contains_iff, t.dashes]
    decide
  have hrender : Item.render (.comment t) ++ s =
      '<' :: '!' :: '-' :: '-' :: (t.text ++ (['-', '-', '>'] ++ s)) := by simp [Item.render]
  -- the end could begin with one or with both dashes of the beginning
  have htwo : ¬['-', '-', '>'].isPrefixOf ('-' :: '-' :: (t.text ++ (['-', '-', '>'] ++ s))) = true := by
    cases ht : t.text with
    | nil => simp
    | cons c rest =>
      rw [ht] at h
      rw [List.isPrefixOf_iff_prefix]
      intro hp
      have hp := (List.cons_prefix_cons.mp (List.cons_prefix_cons.mp hp).2).2
      obtain ⟨rfl, -⟩ := List.cons_prefix_cons.mp hp
      exact h ⟨rest, rfl⟩
  have hone : ¬['-', '-', '>'].isPrefixOf ('-' :: (t.text ++ (['-', '-', '>'] ++ s))) = true := by
    rw [List.isPrefixOf_iff_prefix]
    intro hp
    have hp := (List.cons_prefix_cons.mp hp).2
    cases ht : t.text with
    | nil =>
      rw [ht] at hp
      simp at hp
    | cons c rest =>
      rw [ht] at hp h' hdashes
      obtain ⟨rfl, htail⟩ := List.cons_prefix_cons.mp hp
      cases rest with
      | nil => exact hdashes ⟨[], [], rfl⟩
      | cons d rest =>
        obtain ⟨rfl, -⟩ := List.cons_prefix_cons.mp htail
        exact h' ⟨rest, rfl⟩
  rw [hrender, Str.cut, if_neg (by simp), Str.cut, if_neg (by simp), Str.cut, if_neg htwo, Str.cut, if_neg hone,
    hcut]
  rfl

theorem readTag_comment (t : Xml.CommentText) (h : ¬['>'] <+: t.text) (h' : ¬['-', '>'] <+: t.text) :
    readTag (Item.render (.comment t) ++ s) = .skip s := by
  have hcut := cut_comment (s := s) t h h'
  have hrender : Item.render (.comment t) ++ s = '<' :: (['!', '-', '-'] ++ t.text ++ ['-', '-', '>'] ++ s) := by
    simp [Item.render]
  rw [hrender] at hcut ⊢
  rw [readTag, Str.cutWhere, if_pos (decide_eq_true rfl)]
  dsimp only
  rw [if_pos (by simp), hcut]

/-- What is read after the opening of an element. -/
theorem readTag_opening {w r inside : Str} (hw : w ≠ []) (hchars : ∀ c ∈ w, endsTagName c = false)
    (hhead : ∀ c, w.head? = some c → c ≠ '!' ∧ c ≠ '/') (hr : '>' ∉ r)
    (hspace : r = [] ∨ ∃ c t, r = c :: t ∧ endsTagName c = true) :
    readTag ('<' :: w ++ (r ++ '>' :: inside)) =
      (Str.cut (closeTagOf w) inside).elim (.skip inside) fun p => .disk w p.1 p.2 := by
  obtain ⟨e, t, ht, he⟩ : ∃ e t, r ++ '>' :: inside = e :: t ∧ endsTagName e = true := by
    rcases hspace with rfl | ⟨c, t, rfl, hc⟩
    · exact ⟨'>', inside, rfl, rfl⟩
    · exact ⟨c, t ++ '>' :: inside, rfl, hc⟩
  obtain ⟨x, w, rfl⟩ := List.exists_cons_of_ne_nil hw
  obtain ⟨hbang, hslash⟩ := hhead x rfl
  have hcomment : ¬['<', '!', '-', '-'].isPrefixOf ('<' :: (x :: w ++ e :: t)) = true := by
    simp [Ne.symm hbang]
  have hclosing : ¬['/'].isPrefixOf (x :: w ++ e :: t) = true := by
    simp [Ne.symm hslash]
  have hgt : Str.cutWhere (· = '>') (e :: t) = some (r, '>', inside) := by
    rw [← ht]
    refine Str.cutWhere_append (decide_eq_true rfl) fun y hy => decide_eq_false ?_
    rintro rfl
    exact hr hy
  rw [ht, readTag, List.cons_append, Str.cutWhere, if_pos (decide_eq_true rfl)]
  dsimp only
  rw [if_neg hcomment, Str.cutWhere_append he hchars]
  dsimp only
  rw [if_neg hclosing, hgt]
  dsimp only
  cases Str.cut (closeTagOf (x :: w)) inside with
  | none => rfl
  | some p => rfl

theorem endsTagName_of_mem {n : Name} {c : Char} (h : c ∈ n.text) : endsTagName c = false := by
  obtain ⟨hspace, hmem⟩ := Name.char h
  rw [endsTagName, hspace, Bool.or_false, decide_eq_false_iff_not]
  rintro rfl
  exact hmem (by decide)

theorem head_ne {n : Name} {c : Char} {v : Str} (h : (n.text ++ v).head? = some c) : c ≠ '!' ∧ c ≠ '/' := by
  obtain ⟨x, w, hx⟩ := List.exists_cons_of_ne_nil n.ne_nil
  rw [hx, List.cons_append, List.head?_cons, Option.some.injEq] at h
  subst h
  have hmem : x ∈ n.text := by
    rw [hx]
    exact List.mem_cons_self
  constructor
  · rintro rfl
    exact n.notMem (by decide) hmem
  · rintro rfl
    exact n.notMem (by decide) hmem

theorem endsTagName_rest (tag : Xml.Tag) :
    tag.rest = [] ∨ ∃ c t, tag.rest = c :: t ∧ endsTagName c = true :=
  tag.rest_cases.imp_right fun ⟨c, t, ht, hc⟩ =>
    ⟨c, t, ht, by rw [endsTagName, Xml.isWhitespace_of_isSpace hc, Bool.or_true]⟩

theorem readTag_element {tag : Xml.Tag} {content : List Item} {closing : Xml.Space} (hrest : '>' ∉ tag.rest)
    (hname : ¬closeTagOf tag.name.text <:+: renderAll content) (hclosing : closing.text = []) :
    readTag (Item.render (.element tag content closing) ++ s) = .disk tag.name.text (renderAll content) s := by
  have hrender : Item.render (.element tag content closing) ++ s =
      '<' :: tag.name.text ++ (tag.rest ++ '>' :: (renderAll content ++ (closeTagOf tag.name.text ++ s))) := by
    simp [Item.render, hclosing, closeTagOf]
  have hcut : Str.cut (closeTagOf tag.name.text) (renderAll content ++ (closeTagOf tag.name.text ++ s)) =
      some (renderAll content, s) := by
    refine Str.cut_append_self hname ?_
    have := tag.name.notMem (c := '<') (by decide)
    simpa using this
  rw [hrender, readTag_opening tag.name.ne_nil (fun c hc => endsTagName_of_mem hc) ?_ hrest
    (endsTagName_rest tag), hcut]
  · rfl
  · intro c hc
    exact head_ne (v := []) (by rwa [List.append_nil])

theorem readTag_empty {tag : Xml.Tag} (hrest : '>' ∉ tag.rest) (hname : ¬closeTagOf (emptyName tag) <:+: s) :
    readTag (Item.render (.empty tag) ++ s) = .skip s := by
  rw [emptyName] at hname
  split_ifs at hname with hnil
  · -- the slash belongs to the name that is read
    have hrender : Item.render (.empty tag) ++ s = '<' :: (tag.name.text ++ ['/']) ++ ([] ++ '>' :: s) := by
      simp [Item.render, hnil]
    have hchars : ∀ c ∈ tag.name.text ++ ['/'], endsTagName c = false := by
      intro c hc
      rcases List.mem_append.mp hc with hc | hc
      · exact endsTagName_of_mem hc
      · obtain rfl := List.mem_singleton.mp hc
        decide
    rw [hrender, readTag_opening (by simp) hchars (fun c hc => head_ne hc) (by simp) (.inl rfl),
      Str.cut_eq_none hname]
    rfl
  · have hrender : Item.render (.empty tag) ++ s =
        '<' :: tag.name.text ++ (tag.rest ++ ['/'] ++ '>' :: s) := by simp [Item.render]
    have hspace : ∃ c t, tag.rest ++ ['/'] = c :: t ∧ endsTagName c = true := by
      obtain ⟨c, t, ht, hc⟩ := (endsTagName_rest tag).resolve_left hnil
      exact ⟨c, t ++ ['/'], by rw [ht]; rfl, hc⟩
    rw [hrender, readTag_opening tag.name.ne_nil (fun c hc => endsTagName_of_mem hc)
      (fun c hc => head_ne (v := []) (by rwa [List.append_nil])) (by simpa using hrest) (.inr hspace),
      Str.cut_eq_none hname]
    rfl

end Tags

/-! ## The scanners -/

section Scanners

variable {k : DiskKind} {visit : DiskVisit} {xml : Str}

/-- A visit keeps what a disk of the kind says. -/
def Keeps (k : DiskKind) (visit : DiskVisit) : Prop :=
  ∀ name content found, visit name content found =
    .ok (k.keep name ((sectionText content "type").getD []) ((sectionText content k.field).getD []) found)

theorem any_eq_getD {p : Str → Bool} (hp : p [] = false) (o : Option Str) : o.any p = p (o.getD []) := by
  cases o with
  | none => exact hp.symm
  | some s => rfl

theorem keep_of_type {diskType : Str} (h : k.ofType diskType = true) (name value : Str)
    (found : SortedMap Str Str) : k.keep name diskType value found =
      if Str.trim value ≠ [] then found.insert name (k.entry (Str.trim value)) else found := by
  simp only [DiskKind.keep, h, true_and]

theorem keep_of_not_type {diskType : Str} (h : ¬k.ofType diskType = true) (name value : Str)
    (found : SortedMap Str Str) : k.keep name diskType value found = found := if_neg fun hk => h hk.1

theorem keeps_s3 : Keeps s3Kind visitS3Disk := by
  intro name content found
  have hany : Option.any isS3Type (sectionText content "type") =
      s3Kind.ofType ((sectionText content "type").getD []) := any_eq_getD (by decide) _
  rw [visitS3Disk, extractXmlSection_eq, Checked.ok_bind, extractXmlSection_eq, hany]
  by_cases htype : s3Kind.ofType ((sectionText content "type").getD []) = true
  · rw [if_pos htype, keep_of_type htype, s3Kind]
    cases sectionText content "endpoint" with
    | none => rfl
    | some endpoint => rfl
  · rw [if_neg htype, keep_of_not_type htype]

theorem keeps_cache : Keeps cacheKind visitCacheDisk := by
  intro name content found
  have hany : Option.any isCacheType (sectionText content "type") =
      cacheKind.ofType ((sectionText content "type").getD []) := any_eq_getD (by decide) _
  rw [visitCacheDisk, extractXmlSection_eq, Checked.ok_bind, extractXmlSection_eq, hany]
  by_cases htype : cacheKind.ofType ((sectionText content "type").getD []) = true
  · rw [if_pos htype, keep_of_type htype, cacheKind]
    cases sectionText content "disk" with
    | none => rfl
    | some underlying => rfl
  · rw [if_neg htype, keep_of_not_type htype]

/-- What is kept of a legible disk is what it says. -/
theorem keep_legible (hfield : '<' ∉ k.field ∧ '>' ∉ k.field) {content : List Item} (h : k.LegibleDisk content)
    (name : Str) (found : SortedMap Str Str) :
    k.keep name ((sectionText (renderAll content) "type").getD [])
        ((sectionText (renderAll content) k.field).getD []) found =
      k.keep name (fieldText "type" content) (fieldText k.field content) found := by
  rw [sectionText_legible (by decide) h.1]
  by_cases htype : k.ofType (fieldText "type" content) = true
  · rw [sectionText_legible hfield (h.2 htype)]
  · rw [keep_of_not_type htype, keep_of_not_type htype]

/-- **The loop over a legible section finds its disks.**  The induction is on the items, with the text before
them that is not read yet. -/
theorem loop_legible (hvisit : Keeps k visit) (hfield : '<' ∉ k.field ∧ '>' ∉ k.field) {items : List Item}
    (hlegible : k.LegibleSection items) {u : Str} (hu : '<' ∉ u) {pos : Nat}
    (h : Str.At xml pos (u ++ renderAll items)) {n : Nat} (hn : (u ++ renderAll items).length < n)
    (found : SortedMap Str Str) :
    (Checked.loop (diskStep visit xml) n (pos, found)).bind (fun scan => .ok scan.2) =
      .ok (k.disks items found) := by
  induction items generalizing u pos n found with
  | nil =>
    obtain ⟨n, rfl⟩ := Nat.exists_eq_add_one_of_ne_zero (Nat.ne_of_gt (Nat.zero_lt_of_lt hn))
    have hread : readTag (u ++ []) = .none := readTag_text hu
    have hstep := diskStep_eq visit h found
    rw [renderAll, hread] at hstep
    rw [Checked.loop_done hstep]
    rfl
  | cons item items ih =>
    obtain ⟨n, rfl⟩ := Nat.exists_eq_add_one_of_ne_zero (Nat.ne_of_gt (Nat.zero_lt_of_lt hn))
    rw [renderAll] at h hn
    have hstep := diskStep_eq visit h found
    rw [readTag_text hu] at hstep
    -- what is left after an item that is read
    have hnext : ∀ {tag : Tag}, readTag (item.render ++ renderAll items) = tag →
        tag.Leaves (renderAll items) → Str.At xml (Str.byteLen xml - Str.byteLen (renderAll items))
          ([] ++ renderAll items) ∧ ([] ++ renderAll items).length < n := by
      intro tag hread hleaves
      obtain ⟨hat, hlt⟩ := at_leaves h ((readTag_text hu).trans hread) hleaves
      exact ⟨hat, Nat.lt_of_lt_of_le hlt (Nat.le_of_lt_succ hn)⟩
    cases item with
    | text t =>
      rw [← List.append_assoc] at h hn
      exact ih hlegible (List.mem_append.not.mpr (not_or.mpr ⟨hu, t.notMem⟩)) h hn found
    | comment t =>
      obtain ⟨hgt, hdash, hrest⟩ := hlegible
      have hread := readTag_comment (s := renderAll items) t hgt hdash
      obtain ⟨hat, hlt⟩ := hnext hread (.skip _)
      rw [hread] at hstep
      rw [Checked.loop_next hstep]
      exact ih hrest (List.not_mem_nil) hat hlt found
    | empty tag =>
      obtain ⟨hgt, hname, hrest⟩ := hlegible
      have hread := readTag_empty hgt hname
      obtain ⟨hat, hlt⟩ := hnext hread (.skip _)
      rw [hread] at hstep
      rw [Checked.loop_next hstep]
      exact ih hrest (List.not_mem_nil) hat hlt found
    | element tag content closing =>
      obtain ⟨hgt, hname, hclosing, hdisk, hrest⟩ := hlegible
      have hread := readTag_element (s := renderAll items) hgt hname hclosing
      obtain ⟨hat, hlt⟩ := hnext hread (.disk _ _ _)
      rw [hread, outcomeOf, hvisit, keep_legible hfield hdisk] at hstep
      rw [Checked.loop_next hstep]
      exact ih hrest (List.not_mem_nil) hat hlt _

theorem scanDisks_legible (hvisit : Keeps k visit) (hfield : '<' ∉ k.field ∧ '>' ∉ k.field) {items : List Item}
    (hlegible : k.LegibleSection items) (found : SortedMap Str Str) :
    scanDisks visit (renderAll items) found = .ok (k.disks items found) :=
  loop_legible hvisit hfield hlegible (List.not_mem_nil) (Str.At.start (renderAll items))
    (Nat.lt_succ_of_le (Str.length_le_byteLen _)) found

end Scanners

/-- **The scanners find the disks of a section**: exactly those of the kind, with the text of their field. -/
structure DisksFound (items : List Item) : Prop where
  s3 : ∀ endpoints, parseS3DisksFromXml (renderAll items) endpoints = .ok (s3Kind.disks items endpoints)
  cache : ∀ refs, parseCacheDiskRefsFromXml (renderAll items) refs = .ok (cacheKind.disks items refs)

/-- **The disks of a configuration are found** where the texts that the scanners search for stand nowhere
else. -/
theorem disks_found_when {items : List Item} (hs3 : s3Kind.LegibleSection items)
    (hcache : cacheKind.LegibleSection items) : DisksFound items where
  s3 endpoints := scanDisks_legible keeps_s3 (by decide) hs3 endpoints
  cache refs := scanDisks_legible keeps_cache (by decide) hcache refs

/-- No white space. -/
def noSpace : Xml.Space := { text := [], spaces := rfl }

/-- An element without attributes. -/
def elementOf (name : Name) (content : List Item) : Item :=
  .element { name := name, attrs := [], space := noSpace } content noSpace

/-- The child with the type of a disk. -/
def typeName : Name := { text := "type", nonempty := rfl, chars := rfl }

/-- The child of an S3 disk that is read. -/
def endpointName : Name := { text := "endpoint", nonempty := rfl, chars := rfl }

/-- The child of a cache disk that is read. -/
def diskName : Name := { text := "disk", nonempty := rfl, chars := rfl }

/-- An S3 disk after a comment, and a cache disk on it. -/
def twoDisks : List Item :=
  [.comment { text := "remote", dashes := rfl },
    elementOf { text := "s", nonempty := rfl, chars := rfl }
      [elementOf typeName [.text { text := "s3", plain := rfl }],
        elementOf endpointName [.text { text := "https://b.s3.amazonaws.com/p/", plain := rfl }]],
    elementOf { text := "c", nonempty := rfl, chars := rfl }
      [elementOf diskName [.text { text := "s", plain := rfl }],
        elementOf typeName [.text { text := "cache", plain := rfl }]]]

theorem two_disks_found : DisksFound twoDisks := by
  refine disks_found_when ⟨by decide, by decide, ?_, ?_, rfl, ?_, ?_, ?_, rfl, ?_, trivial⟩
    ⟨by decide, by decide, ?_, ?_, rfl, ?_, ?_, ?_, rfl, ?_, trivial⟩
  -- the opening tags and the names
  case refine_1 | refine_2 | refine_4 | refine_5 | refine_7 | refine_8 | refine_10 | refine_11 => decide +kernel
  -- the children
  case refine_3 | refine_6 | refine_9 | refine_12 =>
    exact ⟨by decide +kernel, fun _ => by decide +kernel⟩

/-- An S3 disk with a child whose name begins like the one that is looked for. -/
def shadowedType : List Item :=
  [elementOf { text := "s", nonempty := rfl, chars := rfl }
    [elementOf { text := "types", nonempty := rfl, chars := rfl } [],
      elementOf typeName [.text { text := "s3", plain := rfl }],
      elementOf endpointName [.text { text := "https://b.s3.amazonaws.com/p/", plain := rfl }]]]

/-- A disk whose type stands after a child with a longer name is not found. -/
theorem shadowed_type_is_missed : ¬DisksFound shadowedType := by
  intro h
  have hmissed : parseS3DisksFromXml (renderAll shadowedType) SortedMap.empty = .ok SortedMap.empty := by
    decide +kernel
  have hmeant : s3Kind.disks shadowedType SortedMap.empty ≠ SortedMap.empty := by
    decide +kernel
  rw [h.s3, Checked.ok.injEq] at hmissed
  exact hmeant hmissed

end Chbackup
