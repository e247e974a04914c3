import Chbackup.Keys.Encoding

/-!
# Freeze names

A table is frozen under a name that is also the name of its shadow directory
(`src/clickhouse/client.rs`).  The name joins the backup, the database and the table, each escaped
byte by byte; the delimiter is the escape character twice.  `readFreezeComponent` reads a joined
name back from the left, and every fact here follows from what it reads.
-/

namespace Chbackup

/-- `u8::is_ascii_alphanumeric`. -/
def isAsciiAlphanumeric (byte : UInt8) : Bool :=
  let n := byte.toNat
  ('0'.toNat ≤ n && n ≤ '9'.toNat) || ('A'.toNat ≤ n && n ≤ 'Z'.toNat) ||
    ('a'.toNat ≤ n && n ≤ 'z'.toNat)

/-- One byte of an encoded component. -/
def encodeFreezeByte (byte : UInt8) : Str :=
  if isAsciiAlphanumeric byte then [Char.ofNat byte.toNat] else '_' :: Str.hex true 2 byte.toNat

/-- `encode_freeze_component`. -/
def encodeFreezeComponent (s : Str) : Str := s.utf8.flatMap encodeFreezeByte

/-- The delimiter of the components of a freeze name. -/
def freezeDelimiter : Str := ['_', '_']

/-- What every freeze name starts with. -/
def freezeStart : Str := "chbackup__"

/-- `freeze_name`. -/
def freezeName (backupName db table : Str) : Str :=
  freezeStart ++ encodeFreezeComponent backupName ++ freezeDelimiter ++
    encodeFreezeComponent db ++ freezeDelimiter ++ encodeFreezeComponent table

/-- `freeze_prefix`. -/
def freezePrefix (backupName : Str) : Str :=
  freezeStart ++ encodeFreezeComponent backupName ++ freezeDelimiter

/-! ## Reading a component back -/

/-- The bytes of the component at the start of a text, and what follows the delimiter after it. -/
def readFreezeComponent : Str → List UInt8 × Option Str
  | [] => ([], none)
  | '_' :: '_' :: rest => ([], some rest)
  | '_' :: a :: b :: rest =>
    let (bytes, after) := readFreezeComponent rest
    (UInt8.ofNat (hexValue a * 16 + hexValue b) :: bytes, after)
  | c :: rest =>
    let (bytes, after) := readFreezeComponent rest
    (UInt8.ofNat c.toNat :: bytes, after)

theorem hexDigit_ne_underscore (b : UInt8) : hexDigit (b.toNat / 16) ≠ '_' := by
  have hall : ∀ n : Fin 256, hexDigit (n / 16) ≠ '_' := by decide +kernel
  exact hall ⟨b.toNat, b.toNat_lt⟩

theorem ofNat_ne_underscore {b : UInt8} (h : isAsciiAlphanumeric b = true) :
    Char.ofNat b.toNat ≠ '_' := by
  have hall : ∀ n : Fin 256, isAsciiAlphanumeric (UInt8.ofNat n) = true → Char.ofNat n ≠ '_' := by
    decide +kernel
  refine hall ⟨b.toNat, b.toNat_lt⟩ ?_
  rwa [UInt8.ofNat_toNat]

theorem ofNat_toNat_byte (b : UInt8) : (Char.ofNat b.toNat).toNat = b.toNat := by
  have hall : ∀ n : Fin 256, (Char.ofNat n).toNat = n := by decide +kernel
  exact hall ⟨b.toNat, b.toNat_lt⟩

/-- What was written for one byte is read as that byte. -/
theorem readFreezeComponent_byte (b : UInt8) (rest : Str) :
    readFreezeComponent (encodeFreezeByte b ++ rest) =
      (b :: (readFreezeComponent rest).1, (readFreezeComponent rest).2) := by
  rw [encodeFreezeByte]
  split_ifs with hb
  · have hne := ofNat_ne_underscore hb
    rw [List.singleton_append, readFreezeComponent]
    · rw [ofNat_toNat_byte, UInt8.ofNat_toNat]
    · intro _ h
      exact absurd h hne
    · intro _ _ _ h
      exact absurd h hne
  · have hne := hexDigit_ne_underscore b
    rw [hex_byte, List.cons_append, List.cons_append, List.cons_append, List.nil_append,
      readFreezeComponent]
    · rw [hexValue_hexDigit]
    · exact fun h => absurd h hne

theorem readFreezeComponent_bytes (bytes : List UInt8) (rest : Str) :
    readFreezeComponent (bytes.flatMap encodeFreezeByte ++ rest) =
      (bytes ++ (readFreezeComponent rest).1, (readFreezeComponent rest).2) := by
  induction bytes with
  | nil => rfl
  | cons b bytes ih =>
    rw [List.flatMap_cons, List.append_assoc, readFreezeComponent_byte, ih]
    rfl

/-- **A component before a delimiter is read as its bytes, up to that delimiter.** -/
theorem readFreezeComponent_delimited (s rest : Str) :
    readFreezeComponent (encodeFreezeComponent s ++ (freezeDelimiter ++ rest)) = (s.utf8, some rest) := by
  rw [encodeFreezeComponent, readFreezeComponent_bytes]
  show (s.utf8 ++ [], some rest) = _
  rw [List.append_nil]

/-- The last component is read as its bytes. -/
theorem readFreezeComponent_last (s : Str) :
    readFreezeComponent (encodeFreezeComponent s) = (s.utf8, none) := by
  have hread := readFreezeComponent_bytes s.utf8 []
  rw [List.append_nil] at hread
  rw [encodeFreezeComponent, hread]
  show (s.utf8 ++ [], none) = _
  rw [List.append_nil]

/-! ## The names -/

/-- Two texts that begin with a delimited component have the same component and the same rest. -/
theorem encodeFreezeComponent_delimited_inj {s t x y : Str}
    (h : encodeFreezeComponent s ++ (freezeDelimiter ++ x) = encodeFreezeComponent t ++ (freezeDelimiter ++ y)) :
    s = t ∧ x = y := by
  have hread := congrArg readFreezeComponent h
  rw [readFreezeComponent_delimited, readFreezeComponent_delimited, Prod.mk.injEq,
    Option.some.injEq] at hread
  exact ⟨utf8_injective hread.1, hread.2⟩

theorem encodeFreezeComponent_injective : Function.Injective encodeFreezeComponent := by
  intro s t h
  have hread := congrArg readFreezeComponent h
  rw [readFreezeComponent_last, readFreezeComponent_last, Prod.mk.injEq] at hread
  exact utf8_injective hread.1

theorem freezeName_eq (b d t : Str) :
    freezeName b d t = freezeStart ++ (encodeFreezeComponent b ++ (freezeDelimiter ++
      (encodeFreezeComponent d ++ (freezeDelimiter ++ encodeFreezeComponent t)))) := by
  simp only [freezeName, List.append_assoc]

/-- A freeze name tells the backup, the database and the table. -/
theorem freezeName_inj {b₁ d₁ t₁ b₂ d₂ t₂ : Str} (h : freezeName b₁ d₁ t₁ = freezeName b₂ d₂ t₂) :
    b₁ = b₂ ∧ d₁ = d₂ ∧ t₁ = t₂ := by
  rw [freezeName_eq, freezeName_eq, List.append_right_inj] at h
  obtain ⟨hb, hrest⟩ := encodeFreezeComponent_delimited_inj h
  obtain ⟨hd, hlast⟩ := encodeFreezeComponent_delimited_inj hrest
  exact ⟨hb, hd, encodeFreezeComponent_injective hlast⟩

/-- The prefix of a backup starts the freeze names of that backup only. -/
theorem eq_of_freezePrefix_prefix {b₁ b₂ d t : Str} (h : freezePrefix b₁ <+: freezeName b₂ d t) :
    b₁ = b₂ := by
  obtain ⟨rest, hrest⟩ := h
  rw [freezeName_eq, freezePrefix, List.append_assoc, List.append_assoc,
    List.append_right_inj] at hrest
  exact (encodeFreezeComponent_delimited_inj hrest).1

theorem freezePrefix_prefix (b d t : Str) : freezePrefix b <+: freezeName b d t := by
  refine ⟨encodeFreezeComponent d ++ (freezeDelimiter ++ encodeFreezeComponent t), ?_⟩
  rw [freezeName, freezePrefix]
  simp only [List.append_assoc]

/-- **Freeze names are injective, and the prefix of a backup selects that backup's names exactly.** -/
theorem freezeName_names_backup (b₁ d₁ t₁ b₂ d₂ t₂ : Str) :
    (freezeName b₁ d₁ t₁ = freezeName b₂ d₂ t₂ ↔ b₁ = b₂ ∧ d₁ = d₂ ∧ t₁ = t₂) ∧
      (freezePrefix b₁ <+: freezeName b₂ d₂ t₂ ↔ b₁ = b₂) := by
  constructor
  · constructor
    · exact freezeName_inj
    · rintro ⟨rfl, rfl, rfl⟩
      rfl
  · constructor
    · exact eq_of_freezePrefix_prefix
    · rintro rfl
      exact freezePrefix_prefix b₁ d₂ t₂

/-- The components that a single delimiter would confuse. -/
example : freezeName "a-b" "2Dc" "2Dd" = "chbackup__a_2Db__2Dc__2Dd".toList := by
  decide

end Chbackup
