import Chbackup.Layout

/-!
# Encoded path components

`encode_path_component` (`src/path_encoding.rs`) writes every character that is not alphanumeric and
not one of `-`, `_` and `.` as the percent-encoded bytes of its UTF-8 form.  Which characters are
alphanumeric is a parameter; a slash and a percent sign are not.
-/

namespace Chbackup

/-- What is used of the alphanumeric characters. -/
structure Alphanumeric (isAlphanumeric : Char → Bool) : Prop where
  slash : isAlphanumeric '/' = false
  percent : isAlphanumeric '%' = false

/-- A hexadecimal digit. -/
def hexDigit (n : Nat) : Char := (Nat.digitChar n).toUpper

/-- The value of a hexadecimal digit. -/
def hexValue (c : Char) : Nat := if c.isDigit then c.toNat - '0'.toNat else c.toNat - 'A'.toNat + 10

theorem hex_byte (b : UInt8) : Str.hex true 2 b.toNat = [hexDigit (b.toNat / 16), hexDigit (b.toNat % 16)] := by
  have hall : ∀ n : Fin 256, Str.hex true 2 n = [hexDigit (n / 16), hexDigit (n % 16)] := by decide +kernel
  exact hall ⟨b.toNat, b.toNat_lt⟩

theorem hexValue_hexDigit (b : UInt8) :
    UInt8.ofNat (hexValue (hexDigit (b.toNat / 16)) * 16 + hexValue (hexDigit (b.toNat % 16))) = b := by
  have hall : ∀ n : Fin 256, hexValue (hexDigit (n / 16)) * 16 + hexValue (hexDigit (n % 16)) = n := by
    decide +kernel
  have hb := hall ⟨b.toNat, b.toNat_lt⟩
  dsimp only at hb
  rw [hb, UInt8.ofNat_toNat]

theorem hexDigit_ne_slash (b : UInt8) : '/' ∉ [hexDigit (b.toNat / 16), hexDigit (b.toNat % 16)] := by
  have hall : ∀ n : Fin 256, '/' ∉ [hexDigit (n / 16), hexDigit (n % 16)] := by decide +kernel
  exact hall ⟨b.toNat, b.toNat_lt⟩

/-! ## Reading an encoded component back -/

/-- The bytes that an encoded component stands for. -/
def percentDecode : Str → List UInt8
  | [] => []
  | '%' :: a :: b :: rest => UInt8.ofNat (hexValue a * 16 + hexValue b) :: percentDecode rest
  | c :: rest => String.utf8EncodeChar c ++ percentDecode rest

theorem percentDecode_bytes (bytes : List UInt8) (rest : Str) :
    percentDecode ((bytes.flatMap fun byte => '%' :: Str.hex true 2 byte.toNat) ++ rest) =
      bytes ++ percentDecode rest := by
  induction bytes with
  | nil => rfl
  | cons b bytes ih =>
    rw [List.flatMap_cons, hex_byte]
    simp only [List.cons_append, List.nil_append, percentDecode, ih]
    rw [hexValue_hexDigit]

theorem percentDecode_of_ne {c : Char} (h : c ≠ '%') (rest : Str) :
    percentDecode (c :: rest) = String.utf8EncodeChar c ++ percentDecode rest := by
  rw [percentDecode.eq_def]
  split <;> simp_all

variable {isAlphanumeric : Char → Bool}

/-- **Decoding an encoded component gives its UTF-8 form.** -/
theorem percentDecode_encode (h : Alphanumeric isAlphanumeric) (s : Str) :
    percentDecode (encodePathComponent isAlphanumeric s) = Str.utf8 s := by
  induction s with
  | nil => rfl
  | cons c s ih =>
    rw [encodePathComponent, List.flatMap_cons, Str.utf8, List.flatMap_cons]
    split_ifs with hc
    · have hne : c ≠ '%' := by
        rintro rfl
        simp [h.percent] at hc
      rw [List.singleton_append, percentDecode_of_ne hne]
      exact congrArg _ ih
    · rw [percentDecode_bytes]
      exact congrArg _ ih

theorem utf8_injective : Function.Injective Str.utf8 := by
  intro s t h
  have hbytes : List.utf8Encode s = List.utf8Encode t := by
    rw [List.utf8Encode, List.utf8Encode]
    exact congrArg List.toByteArray h
  have hs := @List.utf8Decode?_utf8Encode s
  rw [hbytes, List.utf8Decode?_utf8Encode] at hs
  exact (Array.toList_inj.mpr (Option.some.inj hs)).symm

/-- **Different names are encoded differently.** -/
theorem encodePathComponent_injective (h : Alphanumeric isAlphanumeric) :
    Function.Injective (encodePathComponent isAlphanumeric) := by
  intro s t heq
  refine utf8_injective ?_
  rw [← percentDecode_encode h, ← percentDecode_encode h, heq]

/-- An encoded name has no slash. -/
theorem slash_notMem_encode (h : Alphanumeric isAlphanumeric) (s : Str) :
    '/' ∉ encodePathComponent isAlphanumeric s := by
  rw [encodePathComponent, List.mem_flatMap]
  rintro ⟨c, -, hc⟩
  split_ifs at hc with hsafe
  · rw [List.mem_singleton] at hc
    subst hc
    simp [h.slash] at hsafe
  · obtain ⟨byte, -, hbyte⟩ := List.mem_flatMap.mp hc
    rw [hex_byte] at hbyte
    rcases List.mem_cons.mp hbyte with hpercent | hdigit
    · cases hpercent
    · exact hexDigit_ne_slash byte hdigit

end Chbackup
