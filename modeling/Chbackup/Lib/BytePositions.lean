import Chbackup.Lib.Checked
import Chbackup.Lib.Text

/-!
# Positions in a text

A position counts the bytes of the UTF-8 encoding before it.  A text is cut at a position between two of
its characters; a cut inside a character or behind the end aborts.
-/

namespace Str

/-- The number of bytes of a text. -/
def byteLen (s : Str) : Nat := (utf8 s).length

/-- The text before and after a position, if the position is not inside a character. -/
def splitAtByte : Str → Nat → Option (Str × Str)
  | s, 0 => some ([], s)
  | [], _ + 1 => none
  | c :: s, i + 1 =>
    if c.utf8Size ≤ i + 1 then (splitAtByte s (i + 1 - c.utf8Size)).map fun p => (c :: p.1, p.2)
    else none

/-- The text from a position on. -/
def sliceFrom (s : Str) (i : Nat) : Checked Checked.Unfinished Str :=
  Checked.demand ((splitAtByte s i).map Prod.snd)

/-- The text between two positions. -/
def slice (s : Str) (i j : Nat) : Checked Checked.Unfinished Str :=
  (sliceFrom s i).bind fun t =>
    (Checked.sub j i).bind fun n => Checked.demand ((splitAtByte t n).map Prod.fst)

/-- The position of the first occurrence of a text. -/
def find (needle s : Str) : Option Nat := (cut needle s).map fun p => byteLen p.1

/-- The text before the first character of a kind, the character, and the text after it. -/
def cutWhere (p : Char → Bool) : Str → Option (Str × Char × Str)
  | [] => none
  | c :: s => if p c then some ([], c, s) else (cutWhere p s).map fun x => (c :: x.1, x.2)

/-- The white space among the characters of one byte. -/
def asciiSpaces : List Char := [' ', '\t', '\n', Char.ofNat 12, '\r']

/-- The position of the first character of a kind. -/
def findChar (p : Char → Bool) (s : Str) : Option Nat := (cutWhere p s).map fun x => byteLen x.1

/-- The byte of a character of one byte. -/
def byte (c : Char) : UInt8 := c.toUInt8

/-- The white space among the bytes of characters of one byte. -/
def isAsciiWhitespace (b : UInt8) : Bool :=
  b = byte ' ' || b = byte '\t' || b = byte '\n' || b = 0x0C || b = byte '\r'

variable {a b c s t needle : Str} {x : Char} {i j : Nat} {p : Char → Bool}

/-! ## Bytes -/

@[simp] theorem byteLen_nil : byteLen [] = 0 := rfl

@[simp] theorem byteLen_cons (x : Char) (s : Str) : byteLen (x :: s) = x.utf8Size + byteLen s := by
  rw [byteLen, utf8, List.flatMap_cons, List.length_append, String.length_utf8EncodeChar]
  rfl

@[simp] theorem byteLen_append (a b : Str) : byteLen (a ++ b) = byteLen a + byteLen b := by
  rw [byteLen, utf8, List.flatMap_append, List.length_append]
  rfl

theorem length_le_byteLen (s : Str) : s.length ≤ byteLen s := by
  induction s with
  | nil => exact Nat.le_refl 0
  | cons x s ih =>
    have hx := x.utf8Size_pos
    rw [List.length_cons, byteLen_cons]
    omega

theorem utf8_cons (x : Char) (s : Str) : utf8 (x :: s) = String.utf8EncodeChar x ++ utf8 s :=
  List.flatMap_cons

theorem utf8_append (a b : Str) : utf8 (a ++ b) = utf8 a ++ utf8 b := List.flatMap_append

/-- The bytes after a position. -/
theorem getElem?_utf8_append (a b : Str) : (utf8 (a ++ b))[byteLen a]? = (utf8 b)[0]? := by
  have hle : (utf8 a).length ≤ byteLen a := Nat.le_refl _
  rw [utf8_append, List.getElem?_append_right hle, byteLen, Nat.sub_self]

/-- Only a character of one byte begins with a byte below 128. -/
theorem utf8Size_of_head {y : UInt8} (h : (String.utf8EncodeChar x)[0]? = some y)
    (hy : y.toNat < 128) : x.utf8Size = 1 ∧ y = byte x := by
  have hlarge : ∀ m n : UInt8, 128 ≤ n.toNat → m ||| n ≠ y := by
    rintro m n hn rfl
    rw [UInt8.toNat_or] at hy
    have hle : n.toNat ≤ m.toNat ||| n.toNat := Nat.right_le_or
    omega
  rcases x.utf8Size_eq with hx | hx | hx | hx
  · rw [String.utf8EncodeChar_eq_singleton hx] at h
    exact ⟨hx, (Option.some.inj h).symm⟩
  · rw [String.utf8EncodeChar_eq_cons_cons hx] at h
    exact absurd (Option.some.inj h) (hlarge _ _ (by decide))
  · rw [String.utf8EncodeChar_eq_cons_cons_cons hx] at h
    exact absurd (Option.some.inj h) (hlarge _ _ (by decide))
  · rw [String.utf8EncodeChar_eq_cons_cons_cons_cons hx] at h
    exact absurd (Option.some.inj h) (hlarge _ _ (by decide))

theorem utf8Size_eq_one {d : Char} (hd : d.toNat < 128) : d.utf8Size = 1 := by
  rw [Char.utf8Size_eq_one_iff, UInt32.le_iff_toNat_le]
  have h : (127 : UInt32).toNat = 127 := rfl
  have h' : d.toNat = d.val.toNat := rfl
  omega

theorem byte_injective {d : Char} (hx : x.utf8Size = 1) (hd : d.toNat < 128) (h : byte x = byte d) :
    x = d := by
  have hx' : x.toNat < 128 := by
    rw [Char.utf8Size_eq_one_iff, UInt32.le_iff_toNat_le] at hx
    exact Nat.lt_succ_of_le hx
  have hnat : (byte x).toNat = (byte d).toNat := congrArg UInt8.toNat h
  have hbyte : ∀ y : Char, y.toNat < 128 → (byte y).toNat = y.toNat := fun y hy => by
    rw [byte, Char.toUInt8, UInt32.toNat_toUInt8]
    exact Nat.mod_eq_of_lt (Nat.lt_trans hy (by decide))
  rw [hbyte x hx', hbyte d hd] at hnat
  exact Char.toNat_inj.mp hnat

theorem byte_lt {d : Char} (hd : d.toNat < 128) : (byte d).toNat < 128 := by
  rw [byte, Char.toUInt8, UInt32.toNat_toUInt8]
  exact Nat.lt_of_le_of_lt (Nat.mod_le _ _) hd

/-- The first byte tells a character of one byte. -/
theorem headByte_iff {y : UInt8} (h : (utf8 (x :: s))[0]? = some y) {d : Char} (hd : d.toNat < 128) :
    y = byte d ↔ x = d := by
  have hhead : (String.utf8EncodeChar x)[0]? = some y := by
    rw [utf8_cons, List.getElem?_append_left] at h
    · exact h
    · rw [String.length_utf8EncodeChar]
      exact x.utf8Size_pos
  constructor
  · rintro rfl
    obtain ⟨hsize, hbyte⟩ := utf8Size_of_head hhead (byte_lt hd)
    exact byte_injective hsize hd hbyte.symm
  · rintro rfl
    rw [String.utf8EncodeChar_eq_singleton (utf8Size_eq_one hd)] at hhead
    exact (Option.some.inj hhead).symm

theorem isAsciiWhitespace_iff {y : UInt8} (h : (utf8 (x :: s))[0]? = some y) :
    isAsciiWhitespace y = true ↔ x ∈ asciiSpaces := by
  have hfeed : (0x0C : UInt8) = byte (Char.ofNat 12) := by decide
  rw [isAsciiWhitespace, hfeed]
  simp only [Bool.or_eq_true, decide_eq_true_eq, headByte_iff h (show (' ' : Char).toNat < 128 by decide),
    headByte_iff h (show ('\t' : Char).toNat < 128 by decide),
    headByte_iff h (show ('\n' : Char).toNat < 128 by decide),
    headByte_iff h (show (Char.ofNat 12).toNat < 128 by decide),
    headByte_iff h (show ('\r' : Char).toNat < 128 by decide)]
  simp only [asciiSpaces, List.mem_cons, List.not_mem_nil, or_false, or_assoc]

/-- The last byte tells a character of one byte. -/
theorem lastByte_iff (a : Str) (x : Char) (t : Str) :
    ∃ y, (utf8 (a ++ x :: t))[byteLen a + x.utf8Size - 1]? = some y ∧
      ∀ d : Char, d.toNat < 128 → (y = byte d ↔ x = d) := by
  have hindex : (utf8 (a ++ x :: t))[byteLen a + x.utf8Size - 1]? =
      (String.utf8EncodeChar x)[x.utf8Size - 1]? := by
    have hpos := x.utf8Size_pos
    have hle : (utf8 a).length ≤ byteLen a + x.utf8Size - 1 := by
      show byteLen a ≤ _
      omega
    rw [utf8_append, List.getElem?_append_right hle, utf8_cons, List.getElem?_append_left]
    · congr 1
      show byteLen a + x.utf8Size - 1 - byteLen a = _
      omega
    · rw [String.length_utf8EncodeChar]
      show byteLen a + x.utf8Size - 1 - byteLen a < _
      omega
  rw [hindex]
  have hlarge : ∀ m n : UInt8, 128 ≤ n.toNat → ∀ d : Char, d.toNat < 128 → 1 < x.utf8Size →
      (m ||| n = byte d ↔ x = d) := by
    intro m n hn d hd hx
    refine iff_of_false (fun h => ?_) (fun h => ?_)
    · have hlt := byte_lt hd
      rw [← h, UInt8.toNat_or] at hlt
      have hle : n.toNat ≤ m.toNat ||| n.toNat := Nat.right_le_or
      omega
    · rw [h, utf8Size_eq_one hd] at hx
      omega
  rcases x.utf8Size_eq with hx | hx | hx | hx
  · rw [String.utf8EncodeChar_eq_singleton hx, hx]
    refine ⟨_, rfl, fun d hd => ⟨fun h => byte_injective hx hd h, ?_⟩⟩
    rintro rfl
    rfl
  · rw [String.utf8EncodeChar_eq_cons_cons hx, hx]
    exact ⟨_, rfl, fun d hd => hlarge _ _ (by decide) d hd (by omega)⟩
  · rw [String.utf8EncodeChar_eq_cons_cons_cons hx, hx]
    exact ⟨_, rfl, fun d hd => hlarge _ _ (by decide) d hd (by omega)⟩
  · rw [String.utf8EncodeChar_eq_cons_cons_cons_cons hx, hx]
    exact ⟨_, rfl, fun d hd => hlarge _ _ (by decide) d hd (by omega)⟩

/-! ## Cuts -/

theorem splitAtByte_append (a b : Str) : splitAtByte (a ++ b) (byteLen a) = some (a, b) := by
  induction a with
  | nil => cases b <;> rfl
  | cons x a ih =>
    have hx := x.utf8Size_pos
    obtain ⟨n, hn⟩ := Nat.exists_eq_add_one_of_ne_zero (n := byteLen (x :: a)) (by
      rw [byteLen_cons]
      omega)
    have hle : x.utf8Size ≤ n + 1 := by
      rw [← hn, byteLen_cons]
      omega
    have hrest : n + 1 - x.utf8Size = byteLen a := by
      rw [← hn, byteLen_cons]
      omega
    rw [hn, List.cons_append, splitAtByte, if_pos hle, hrest, ih]
    rfl

/-- A position inside a character. -/
theorem splitAtByte_inside (a b : Str) (hi : 0 < i) (hx : i < x.utf8Size) :
    splitAtByte (a ++ x :: b) (byteLen a + i) = none := by
  induction a with
  | nil =>
    obtain ⟨n, rfl⟩ := Nat.exists_eq_add_one_of_ne_zero (Nat.ne_zero_of_lt hi)
    rw [byteLen_nil, Nat.zero_add, List.nil_append, splitAtByte, if_neg (by omega)]
  | cons y a ih =>
    obtain ⟨n, hn⟩ := Nat.exists_eq_add_one_of_ne_zero (n := byteLen (y :: a) + i) (by omega)
    have hrest : n + 1 - y.utf8Size = byteLen a + i := by
      rw [← hn, byteLen_cons]
      omega
    rw [hn, List.cons_append, splitAtByte, hrest, ih]
    split <;> rfl

theorem sliceFrom_at (h : s = a ++ t) (hi : i = byteLen a) : sliceFrom s i = .ok t := by
  rw [sliceFrom, h, hi, splitAtByte_append]
  rfl

theorem sliceFrom_inside (h : s = a ++ x :: b) (hi : i = byteLen a + j) (hj : 0 < j)
    (hx : j < x.utf8Size) : sliceFrom s i = .abort := by
  rw [sliceFrom, h, hi, splitAtByte_inside a b hj hx]
  rfl

theorem slice_at (h : s = a ++ (b ++ c)) (hi : i = byteLen a) (hj : j = byteLen a + byteLen b) :
    slice s i j = .ok b := by
  have hsub : j - i = byteLen b := by omega
  rw [slice, sliceFrom_at h hi, Checked.ok_bind, Checked.sub_of_le (by omega), Checked.ok_bind, hsub,
    splitAtByte_append]
  rfl

/-! ## Positions between characters -/

/-- A position with the text that follows it. -/
def At (s : Str) (i : Nat) (t : Str) : Prop := ∃ a, s = a ++ t ∧ i = byteLen a

theorem At.start (s : Str) : At s 0 s := ⟨[], rfl, rfl⟩

theorem At.sliceFrom (h : At s i t) : sliceFrom s i = .ok t := by
  obtain ⟨a, hs, hi⟩ := h
  exact sliceFrom_at hs hi

theorem At.append (h : At s i (b ++ t)) : At s (i + byteLen b) t := by
  obtain ⟨a, hs, rfl⟩ := h
  exact ⟨a ++ b, hs.trans (List.append_assoc a b t).symm, (byteLen_append a b).symm⟩

theorem At.slice (h : At s i (b ++ t)) : slice s i (i + byteLen b) = .ok b := by
  obtain ⟨a, hs, rfl⟩ := h
  exact slice_at hs rfl rfl

theorem At.next (h : At s i (x :: t)) (hx : x.utf8Size = 1) : At s (i + 1) t := by
  obtain ⟨a, hs, rfl⟩ := h
  exact ⟨a ++ [x], hs.trans (List.append_cons a x t), by rw [byteLen_append, byteLen_cons, byteLen_nil, hx]⟩

/-- The position is known from the text that follows. -/
theorem At.eq (h : At s i t) : i = byteLen s - byteLen t := by
  obtain ⟨a, rfl, rfl⟩ := h
  rw [byteLen_append, Nat.add_sub_cancel]

theorem At.lt (h : At s i t) (ht : t ≠ []) : ¬byteLen s ≤ i := by
  obtain ⟨a, rfl, rfl⟩ := h
  have hlen := length_le_byteLen t
  have hpos := List.length_pos_of_ne_nil ht
  rw [byteLen_append]
  omega

/-- The first byte after a position. -/
theorem At.byte (h : At s i t) : (utf8 s)[i]? = (utf8 t)[0]? := by
  obtain ⟨a, rfl, rfl⟩ := h
  exact getElem?_utf8_append a t

/-- The last byte before a position tells how the text before it ends. -/
theorem At.lastByte (h : At s i (b ++ t)) (hb : b ≠ []) : 1 ≤ i + byteLen b ∧
    ∃ y, (utf8 s)[i + byteLen b - 1]? = some y ∧ ∀ d : Char, d.toNat < 128 → (y = Str.byte d ↔ [d] <:+ b) := by
  obtain ⟨a, rfl, rfl⟩ := h
  obtain ⟨v, z, rfl⟩ := (List.eq_nil_or_concat b).resolve_left hb
  rw [List.concat_eq_append]
  obtain ⟨y, hy, htells⟩ := lastByte_iff (a ++ v) z t
  have hz := z.utf8Size_pos
  have hlen : byteLen a + byteLen (v ++ [z]) = byteLen (a ++ v) + z.utf8Size := by
    simp only [byteLen_append, byteLen_cons, byteLen_nil]
    omega
  have hwhole : a ++ (v ++ [z] ++ t) = (a ++ v) ++ z :: t := by simp
  rw [hlen, hwhole]
  refine ⟨by omega, y, hy, fun d hd => (htells d hd).trans ⟨?_, ?_⟩⟩
  · rintro rfl
    exact List.suffix_append v _
  · rintro ⟨w, hw⟩
    exact (List.cons.inj (List.append_inj_right' hw rfl)).1.symm

theorem At.inside (h : At s i (x :: t)) (hj : 0 < j) (hx : j < x.utf8Size) :
    Str.sliceFrom s (i + j) = .abort := by
  obtain ⟨a, hs, rfl⟩ := h
  exact sliceFrom_inside hs rfl hj hx

/-! ## Searches -/

theorem cutWhere_eq_some (h : cutWhere p s = some (a, x, b)) :
    s = a ++ x :: b ∧ p x = true ∧ ∀ y ∈ a, p y = false := by
  induction s generalizing a with
  | nil => cases h
  | cons y s ih =>
    rw [cutWhere] at h
    by_cases hy : p y = true
    · rw [if_pos hy] at h
      cases h
      exact ⟨rfl, hy, fun z hz => by cases hz⟩
    · rw [if_neg hy] at h
      obtain ⟨⟨a', x', b'⟩, h', heq⟩ := Option.map_eq_some_iff.mp h
      cases heq
      obtain ⟨rfl, hx, hall⟩ := ih h'
      refine ⟨rfl, hx, fun z hz => ?_⟩
      rcases List.mem_cons.mp hz with rfl | hz
      · exact Bool.eq_false_iff.mpr hy
      · exact hall z hz

theorem cutWhere_append (hx : p x = true) (ha : ∀ y ∈ a, p y = false) :
    cutWhere p (a ++ x :: b) = some (a, x, b) := by
  induction a with
  | nil => rw [List.nil_append, cutWhere, if_pos hx]
  | cons y a ih =>
    have hy : ¬p y = true := Bool.eq_false_iff.mp (ha y List.mem_cons_self)
    rw [List.cons_append, cutWhere, if_neg hy, ih fun z hz => ha z (List.mem_cons_of_mem _ hz)]
    rfl

theorem findChar_eq (p : Char → Bool) (s : Str) :
    (cutWhere p s = none ∧ findChar p s = none) ∨
      ∃ a x b, cutWhere p s = some (a, x, b) ∧ findChar p s = some (byteLen a) ∧ s = a ++ x :: b := by
  rw [findChar]
  cases h : cutWhere p s with
  | none => exact .inl ⟨rfl, rfl⟩
  | some r => exact .inr ⟨r.1, r.2.1, r.2.2, rfl, rfl, (cutWhere_eq_some h).1⟩

theorem find_eq (needle s : Str) :
    (cut needle s = none ∧ find needle s = none) ∨
      ∃ a b, cut needle s = some (a, b) ∧ find needle s = some (byteLen a) ∧ s = a ++ needle ++ b := by
  rw [find]
  cases h : cut needle s with
  | none => exact .inl ⟨rfl, rfl⟩
  | some r => exact .inr ⟨r.1, r.2, rfl, rfl, cut_eq_some h⟩

end Str
