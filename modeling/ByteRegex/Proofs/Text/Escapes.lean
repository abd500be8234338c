import ByteRegex.Text.ByteEscape

/-!
# Texts that can be read back

Numbers and escaped bytes determine what they were made of, also where more text follows: a number
ends at the first character that is no digit, and the start of an escaped byte says how long it is.
-/

namespace ByteRegex.Text

/-- A field and what follows it, which starts with a character that does not belong to a field. -/
theorem field_inj {own : Char → Prop} {field field' rest rest' : List Char}
    (inside : ∀ char ∈ field, own char) (inside' : ∀ char ∈ field', own char)
    (ends : ∀ char ∈ rest.head?, ¬ own char) (ends' : ∀ char ∈ rest'.head?, ¬ own char)
    (same : field ++ rest = field' ++ rest') : field = field' ∧ rest = rest' := by
  induction field generalizing field' with
  | nil =>
      cases field' with
      | nil => exact ⟨rfl, same⟩
      | cons char field' =>
          rw [List.nil_append] at same
          refine absurd (inside' char (List.mem_cons_self ..)) (ends char ?_)
          rw [same]
          rfl
  | cons char field ih =>
      cases field' with
      | nil =>
          rw [List.nil_append] at same
          refine absurd (inside char (List.mem_cons_self ..)) (ends' char ?_)
          rw [← same]
          rfl
      | cons char' field' =>
          rw [List.forall_mem_cons] at inside inside'
          injection same with first later
          obtain ⟨fields, rests⟩ := ih inside.2 inside'.2 later
          exact ⟨by rw [first, fields], rests⟩

/-! ## Numbers -/

theorem toList_number (number : Nat) : (toString number).toList = Nat.toDigits 10 number := by
  rw [Nat.toString_eq_repr, Nat.toList_repr]

theorem toDigits_inj {number number' : Nat}
    (same : Nat.toDigits 10 number = Nat.toDigits 10 number') : number = number' := by
  rw [← @Nat.ofDigitChars_ten_toDigits number, same, Nat.ofDigitChars_ten_toDigits]

theorem isDigit_of_mem_fourDigits {number : Nat} {char : Char}
    (member : char ∈ (fourDigits number).toList) : char.isDigit := by
  rw [fourDigits, String.toList_ofList, List.mem_append] at member
  obtain zero | digit := member
  · rw [List.eq_of_mem_replicate zero]
    rfl
  · exact Nat.isDigit_of_mem_toDigits (by decide) (by decide) digit

/-- The digits say the number, with zeros in front or without. -/
theorem ofDigitChars_fourDigits (number : Nat) :
    Nat.ofDigitChars 10 (fourDigits number).toList 0 = number := by
  rw [fourDigits, String.toList_ofList, Nat.ofDigitChars_append, Nat.ofDigitChars_replicate_zero,
    Nat.mul_zero, Nat.ofDigitChars_ten_toDigits]

theorem fourDigits_inj {number number' : Nat}
    (same : (fourDigits number).toList = (fourDigits number').toList) : number = number' := by
  rw [← ofDigitChars_fourDigits number, same, ofDigitChars_fourDigits]

/-! ## Escaped bytes -/

def hexValue (char : Char) : Nat := if char.toNat < 58 then char.toNat - 48 else char.toNat - 87

theorem hexValue_digitChar : ∀ digit < 16, hexValue (Nat.digitChar digit) = digit := by decide

/-- What is behind a backslash, as a byte and the rest. -/
def readEscaped : List Char → Option (UInt8 × List Char)
  | 'x' :: high :: low :: rest => some (UInt8.ofNat (16 * hexValue high + hexValue low), rest)
  | 't' :: rest => some (9, rest)
  | 'n' :: rest => some (10, rest)
  | 'r' :: rest => some (13, rest)
  | char :: rest => some (UInt8.ofNat char.toNat, rest)
  | [] => none

/-- The first byte of an escaped text. -/
def readByte : List Char → Option (UInt8 × List Char)
  | [] => none
  | char :: rest =>
      if char = '\\' then readEscaped rest else some (UInt8.ofNat char.toNat, rest)

theorem toNat_ofNat_byte (byte : UInt8) : (Char.ofNat byte.toNat).toNat = byte.toNat := by
  have small := byte.toNat_lt
  rw [Char.ofNat, dif_pos (.inl (by omega) : byte.toNat.isValidChar)]
  rfl

theorem toList_hexByte (byte : UInt8) :
    (hexByte byte).toList = [Nat.digitChar (byte.toNat / 16), Nat.digitChar (byte.toNat % 16)] :=
  String.toList_ofList

theorem escapeByte_cases (byte : UInt8) :
    byte ∈ [9, 10, 13, 34, 39, 92] ∨
      (byte ≠ 92 ∧ 32 ≤ byte.toNat ∧ byte.toNat ≤ 126 ∧
        (escapeByte byte).toList = [Char.ofNat byte.toNat]) ∨
      (escapeByte byte).toList = '\\' :: 'x' :: (hexByte byte).toList := by
  by_cases named : byte ∈ [9, 10, 13, 34, 39, 92]
  · exact .inl named
  · refine .inr ?_
    simp only [List.mem_cons, List.not_mem_nil, or_false, not_or] at named
    obtain ⟨tab, newline, back, quote, mark, slash⟩ := named
    unfold escapeByte
    rw [if_neg tab, if_neg newline, if_neg back, if_neg quote, if_neg mark, if_neg slash]
    split
    · rename_i prints
      rw [Bool.and_eq_true, decide_eq_true_eq, decide_eq_true_eq] at prints
      exact .inl ⟨slash, prints.1, prints.2, String.toList_singleton _⟩
    · exact .inr (String.toList_append ..)

/-- An escaped byte can be read back whatever follows it. -/
theorem readByte_escapeByte (byte : UInt8) (rest : List Char) :
    readByte ((escapeByte byte).toList ++ rest) = some (byte, rest) := by
  obtain named | ⟨slash, low, high, plain⟩ | hex := escapeByte_cases byte
  · simp only [List.mem_cons, List.not_mem_nil, or_false] at named
    obtain rfl | rfl | rfl | rfl | rfl | rfl := named <;> rfl
  · have value := toNat_ofNat_byte byte
    have other : Char.ofNat byte.toNat ≠ '\\' := by
      intro same
      rw [same] at value
      exact slash (UInt8.toNat_inj.mp value.symm)
    rw [plain, List.singleton_append, readByte, if_neg other, value, UInt8.ofNat_toNat]
  · have small := byte.toNat_lt
    rw [hex, toList_hexByte, List.cons_append, readByte, if_pos rfl]
    simp only [List.cons_append, List.nil_append, readEscaped]
    rw [hexValue_digitChar _ (by omega), hexValue_digitChar _ (by omega), Nat.div_add_mod,
      UInt8.ofNat_toNat]

theorem toList_escapeBytes (bytes : List UInt8) :
    (escapeBytes bytes).toList = bytes.flatMap fun byte => (escapeByte byte).toList := by
  have folded : ∀ text : String,
      (bytes.foldl (fun text byte => text ++ escapeByte byte) text).toList =
        text.toList ++ bytes.flatMap fun byte => (escapeByte byte).toList := by
    induction bytes with
    | nil => simp
    | cons byte bytes ih =>
        intro text
        rw [List.foldl_cons, ih, String.toList_append, List.flatMap_cons, List.append_assoc]
  exact folded ""

/-- Escaped bytes need no separators. -/
theorem escapeBytes_inj {bytes bytes' : List UInt8}
    (same : (escapeBytes bytes).toList = (escapeBytes bytes').toList) : bytes = bytes' := by
  rw [toList_escapeBytes, toList_escapeBytes] at same
  induction bytes generalizing bytes' with
  | nil =>
      cases bytes' with
      | nil => rfl
      | cons byte' bytes' =>
          have read := congrArg readByte same
          rw [List.flatMap_cons, readByte_escapeByte] at read
          cases read
  | cons byte bytes ih =>
      have read := congrArg readByte same
      rw [List.flatMap_cons, readByte_escapeByte] at read
      cases bytes' with
      | nil => cases read
      | cons byte' bytes' =>
          rw [List.flatMap_cons, readByte_escapeByte] at read
          injection read with both
          injection both with first later
          rw [first, ih later]

theorem escapeByte_inj {byte byte' : UInt8}
    (same : (escapeByte byte).toList = (escapeByte byte').toList) : byte = byte' := by
  have read := readByte_escapeByte byte []
  rw [same, readByte_escapeByte] at read
  cases read
  rfl

/-- No escaped text ends a line. -/
theorem newline_not_mem_escapeByte (byte : UInt8) : '\n' ∉ (escapeByte byte).toList := by
  obtain named | ⟨_, low, _, plain⟩ | hex := escapeByte_cases byte
  · simp only [List.mem_cons, List.not_mem_nil, or_false] at named
    obtain rfl | rfl | rfl | rfl | rfl | rfl := named <;> decide
  · rw [plain, List.mem_singleton]
    intro same
    have value := toNat_ofNat_byte byte
    rw [← same] at value
    exact absurd (value ▸ low) (by decide)
  · have digit : ∀ number, '\n' ≠ Nat.digitChar number := fun number =>
      (Nat.digitChar_ne '\n' (by decide)).symm
    rw [hex, toList_hexByte]
    simp [digit]

theorem newline_not_mem_escapeBytes (bytes : List UInt8) : '\n' ∉ (escapeBytes bytes).toList := by
  rw [toList_escapeBytes, List.mem_flatMap]
  rintro ⟨byte, _, member⟩
  exact newline_not_mem_escapeByte byte member

end ByteRegex.Text
