import Chbackup.Lib.Search

/-!
# XML as it is written

Elements with attributes and content, texts and comments.  Each part carries what makes it well formed, so
that every list of items is written as well-formed XML.  References in a text, and declarations, are left
out.
-/

namespace Xml

/-- The white space of XML. -/
def isSpace (c : Char) : Bool := c = ' ' || c = '\t' || c = '\r' || c = '\n'

/-- What may stand in a name: no white space and no character of the markup. -/
def isNameChar (c : Char) : Bool :=
  !Str.isWhitespace c && !(['<', '>', '/', '=', '"', '\'', '&', '!', '?'] : List Char).contains c

/-- A name of an element or an attribute. -/
structure Name where
  text : Str
  nonempty : text.isEmpty = false
  chars : text.all isNameChar = true

/-- White space, or nothing. -/
structure Space where
  text : Str
  spaces : text.all isSpace = true

/-- An attribute, with the white space before it and around its sign of equality. -/
structure Attr where
  space : Space
  apart : space.text.isEmpty = false
  name : Name
  before : Space
  after : Space
  quote : Char
  quotes : (quote = '"' || quote = '\'') = true
  value : Str
  plain : value.all (fun c => c ≠ '<' && c ≠ '&' && c ≠ quote) = true

def Attr.render (a : Attr) : Str :=
  a.space.text ++ a.name.text ++ a.before.text ++ '=' :: a.after.text ++ a.quote :: a.value ++ [a.quote]

/-- The inside of an opening tag. -/
structure Tag where
  name : Name
  attrs : List Attr
  space : Space

/-- What stands after the name. -/
def Tag.rest (t : Tag) : Str := t.attrs.flatMap Attr.render ++ t.space.text

/-- A text between two tags. -/
structure CharData where
  text : Str
  plain : text.all (fun c => c ≠ '<' && c ≠ '&') = true

/-- The text of a comment. -/
structure CommentText where
  text : Str
  dashes : Str.contains ['-', '-'] (text ++ ['-']) = false

inductive Item where
  | text (t : CharData)
  | comment (t : CommentText)
  /-- An element without content, `<name/>`. -/
  | empty (tag : Tag)
  /-- An element, with the white space at the end of its closing tag. -/
  | element (tag : Tag) (content : List Item) (closing : Space)

mutual

/-- An item as it is written. -/
def Item.render : Item → Str
  | .text t => t.text
  | .comment t => ['<', '!', '-', '-'] ++ t.text ++ ['-', '-', '>']
  | .empty tag => '<' :: tag.name.text ++ tag.rest ++ ['/', '>']
  | .element tag content closing =>
    '<' :: tag.name.text ++ tag.rest ++ '>' :: renderAll content ++
      (['<', '/'] ++ tag.name.text ++ closing.text ++ ['>'])

/-- Items one after the other. -/
def renderAll : List Item → Str
  | [] => []
  | item :: items => item.render ++ renderAll items

end

namespace Item

/-- The content of an element with a name. -/
def contentOf? (name : Str) : Item → Option (List Item)
  | empty tag => if tag.name.text = name then some [] else none
  | element tag content _ => if tag.name.text = name then some content else none
  | _ => none

/-- The text that an item is. -/
def ownText : Item → Str
  | text t => t.text
  | _ => []

def isText : Item → Bool
  | text _ => true
  | _ => false

end Item

/-- The text of a content, without its comments and elements. -/
def textOf (content : List Item) : Str := content.flatMap Item.ownText

/-- The text of the first child with a name. -/
def childText (name : Str) (content : List Item) : Option Str :=
  (content.findSome? (Item.contentOf? name)).map textOf

/-! ## Characters -/

theorem isWhitespace_of_isSpace {c : Char} (h : isSpace c = true) : Str.isWhitespace c = true := by
  simp only [isSpace, Bool.or_eq_true, decide_eq_true_eq] at h
  rcases h with ((rfl | rfl) | rfl) | rfl <;> decide

theorem mem_asciiSpaces {c : Char} (h : isSpace c = true) : c ∈ Str.asciiSpaces := by
  simp only [isSpace, Bool.or_eq_true, decide_eq_true_eq] at h
  rcases h with ((rfl | rfl) | rfl) | rfl <;> decide

theorem Name.char {n : Name} {c : Char} (h : c ∈ n.text) :
    Str.isWhitespace c = false ∧ c ∉ (['<', '>', '/', '=', '"', '\'', '&', '!', '?'] : List Char) := by
  have hc := List.all_eq_true.mp n.chars c h
  simp only [isNameChar, Bool.and_eq_true, Bool.not_eq_true', List.contains_eq_mem,
    decide_eq_false_iff_not] at hc
  exact hc

theorem Name.ne_nil (n : Name) : n.text ≠ [] := by
  have h := n.nonempty
  rintro hn
  rw [hn] at h
  cases h

theorem Name.notMem (n : Name) {c : Char} (h : c ∈ (['<', '>', '/', '=', '"', '\'', '&', '!', '?'] : List Char)) :
    c ∉ n.text := fun hc => (Name.char hc).2 h

theorem CharData.notMem (t : CharData) : '<' ∉ t.text := by
  intro h
  have := List.all_eq_true.mp t.plain '<' h
  simp at this

theorem notMem_textOf {content : List Item} : '<' ∉ textOf content := by
  intro h
  obtain ⟨item, -, h⟩ := List.mem_flatMap.mp h
  cases item with
  | text t => exact t.notMem h
  | comment t => cases h
  | empty tag => cases h
  | element tag content closing => cases h

/-- An opening tag goes on after its name with white space, if at all. -/
theorem Tag.rest_cases (t : Tag) : t.rest = [] ∨ ∃ c s, t.rest = c :: s ∧ isSpace c = true := by
  have hspace : ∀ (s : Space) (more : Str), s.text ≠ [] →
      ∃ c s', s.text ++ more = c :: s' ∧ isSpace c = true := by
    intro s more hne
    obtain ⟨c, s', hs⟩ := List.exists_cons_of_ne_nil hne
    exact ⟨c, s' ++ more, by rw [hs, List.cons_append],
      List.all_eq_true.mp s.spaces c (by rw [hs]; exact List.mem_cons_self)⟩
  rw [Tag.rest]
  cases t.attrs with
  | nil =>
    rw [List.flatMap_nil, List.nil_append]
    by_cases hs : t.space.text = []
    · exact .inl hs
    · obtain ⟨c, s, h, hc⟩ := hspace t.space [] hs
      exact .inr ⟨c, s, by rwa [List.append_nil] at h, hc⟩
  | cons a attrs =>
    have hne : a.space.text ≠ [] := by
      intro h
      have := a.apart
      rw [h] at this
      cases this
    simp only [List.flatMap_cons, Attr.render, List.append_assoc]
    exact .inr (hspace a.space _ hne)

/-- An opening tag that does not end an empty element does not end with a slash. -/
theorem Tag.not_suffix (t : Tag) (u : Str) : ¬['/'] <:+ u ++ t.name.text ++ t.rest := by
  rw [Tag.rest]
  -- the last part decides: white space, an attribute, or the name
  by_cases hs : t.space.text = []
  · rw [hs, List.append_nil]
    rcases List.eq_nil_or_concat t.attrs with hattrs | ⟨attrs, a, hattrs⟩
    · rw [hattrs, List.flatMap_nil, List.append_nil]
      intro h
      have hmem : '/' ∈ t.name.text :=
        (List.suffix_of_suffix_length_le h (List.suffix_append u _)
          (List.length_pos_of_ne_nil t.name.ne_nil)).subset (List.mem_singleton.mpr rfl)
      exact t.name.notMem (by decide) hmem
    · intro h
      have hlast : [a.quote] <:+ u ++ t.name.text ++ t.attrs.flatMap Attr.render := by
        rw [hattrs, List.concat_eq_append, List.flatMap_append, List.flatMap_singleton, Attr.render,
          ← List.append_assoc, ← List.append_assoc]
        exact List.suffix_append _ _
      have hquote := a.quotes
      obtain ⟨v, hv⟩ := h
      obtain ⟨w, hw⟩ := hlast
      obtain ⟨-, heq⟩ := List.append_inj' (hv.trans hw.symm) rfl
      rw [← (List.cons.inj heq).1] at hquote
      simp at hquote
  · intro h
    have hmem : '/' ∈ t.space.text :=
      (List.suffix_of_suffix_length_le h (by
        rw [← List.append_assoc]
        exact List.suffix_append _ _) (List.length_pos_of_ne_nil hs)).subset (List.mem_singleton.mpr rfl)
    have := List.all_eq_true.mp t.space.spaces _ hmem
    simp [isSpace] at this

/-- An item that is not a text ends with a bracket. -/
theorem Item.last_render {item : Item} (h : item.isText = false) : ['>'] <:+ item.render := by
  cases item with
  | text t => cases h
  | comment t => exact ⟨['<', '!', '-', '-'] ++ t.text ++ ['-', '-'], by simp [Item.render]⟩
  | empty tag => exact ⟨'<' :: tag.name.text ++ tag.rest ++ ['/'], by simp [Item.render]⟩
  | element tag content closing =>
    refine ⟨'<' :: tag.name.text ++ tag.rest ++ '>' :: renderAll content ++
      (['<', '/'] ++ tag.name.text ++ closing.text), ?_⟩
    simp [Item.render]

end Xml
