import ByteRegex.Assertion
import ByteRegex.Proofs.Unicode.Encoding

/-!
# Words

A byte belongs to a word if and only if it belongs to the encoding of a character that may stand in
an identifier. So words are made of whole characters, whatever bytes surround them. Which characters
beyond ASCII stand in identifiers is left to a table.
-/

namespace ByteRegex

open Unicode.Utf8

/-- The characters of identifiers: of ASCII the letters, the digits and the underscore, and beyond
ASCII those of a table. -/
def isIdentifierOf (table : Char → Bool) (char : Char) : Bool :=
  if char.toNat < 128 then Ascii.isWord (UInt8.ofNat char.toNat) else table char

/-- Whether the byte at a position is part of a word, given a table of identifier characters. -/
def isWordAtOf (table : Char → Bool) (subject : Array UInt8) (position : Nat) : Bool :=
  match subject[position]? with
  | none => false
  | some byte =>
      if Ascii.isAscii byte then Ascii.isWord byte
      else (charAround? subject position).any (isIdentifierOf table)

/-- The tables of the library agree with ASCII. -/
theorem isIdentifier_eq : Unicode.isIdentifier = isIdentifierOf Unicode.isIdentifier := by
  have agrees : ∀ code : Fin 128,
      Unicode.isIdentifier (Char.ofNat code) = Ascii.isWord (UInt8.ofNat code) := by
    decide +kernel
  funext char
  unfold isIdentifierOf
  split
  · rename_i small
    have known := agrees ⟨char.toNat, small⟩
    rwa [Char.ofNat_toNat] at known
  · rfl

theorem isWordAt_eq : isWordAt = isWordAtOf Unicode.isIdentifier := by
  funext subject position
  rw [isWordAtOf, ← isIdentifier_eq]
  rfl

section

variable {table : Char → Bool} {subject : Array UInt8} {position start width : Nat} {char : Char}

/-- An ASCII byte is an encoding by itself. -/
theorem exists_encodedAt_of_ascii {byte : UInt8} (found : subject[position]? = some byte)
    (small : byte.toNat < 128) :
    ∃ char, char.toNat = byte.toNat ∧ EncodedAt subject position 1 char := by
  obtain ⟨inside, same⟩ := Array.getElem?_eq_some_iff.mp found
  have value : (Char.ofUInt8 byte).toNat = byte.toNat := rfl
  have encoded : String.utf8EncodeChar (Char.ofUInt8 byte) = [byte] :=
    encode_eq_one_iff.mpr ⟨by omega, value.symm⟩
  refine ⟨_, value, inside, ?_⟩
  rw [encoded, Array.toList_extract, List.extract_eq_take_drop, Nat.add_sub_cancel_left,
    List.take_one, List.head?_drop, Array.getElem?_toList, found]
  rfl

/-- An ASCII byte needs no case of its own. -/
theorem isWordAtOf_eq_any :
    isWordAtOf table subject position =
      (charAround? subject position).any (isIdentifierOf table) := by
  unfold isWordAtOf
  split
  · rename_i beyond
    cases around : charAround? subject position with
    | none => rfl
    | some char =>
        obtain ⟨start, width, _, before, stands⟩ := charAround?_eq_some_iff.mp around
        have outside := Array.getElem?_eq_none_iff.mp beyond
        have inside := stands.inside
        omega
  · rename_i byte found
    split
    · rename_i ascii
      have small : byte.toNat < 128 := by
        simpa only [Ascii.isAscii, decide_eq_true_eq, UInt8.lt_iff_toNat_lt, UInt8.reduceToNat]
          using ascii
      obtain ⟨char, value, stands⟩ := exists_encodedAt_of_ascii found small
      rw [stands.charAround? (Nat.le_refl _) (Nat.lt_succ_self _), Option.any_some, isIdentifierOf,
        value, if_pos small, UInt8.ofNat_toNat]
    · rfl

/-- Every byte of an encoding says of the whole character whether it may stand in a word. -/
theorem isWordAtOf_of_encodedAt (stands : EncodedAt subject start width char)
    (after : start ≤ position) (before : position < start + width) :
    isWordAtOf table subject position = isIdentifierOf table char := by
  rw [isWordAtOf_eq_any, stands.charAround? after before, Option.any_some]

end

/-- A byte is part of a word if and only if it belongs to the encoding of an identifier character,
whichever characters beyond ASCII these are. The bytes of an encoding agree about it, so there is no
word boundary between them. -/
theorem isWordAt_iff_encoded (table : Char → Bool) (subject : Array UInt8) :
    isWordAt = isWordAtOf Unicode.isIdentifier ∧
    Unicode.isIdentifier = isIdentifierOf Unicode.isIdentifier ∧
    (∀ position, isWordAtOf table subject position = true ↔
      ∃ start width char, start ≤ position ∧ position < start + width ∧
        EncodedAt subject start width char ∧ isIdentifierOf table char = true) ∧
    (∀ start width char, EncodedAt subject start width char →
      (∀ position, start ≤ position → position < start + width →
        ∀ start' width' char', start' ≤ position → position < start' + width' →
          EncodedAt subject start' width' char' → start' = start ∧ width' = width ∧ char' = char) ∧
      (∀ position other, start ≤ position → position < start + width → start ≤ other →
        other < start + width →
          isWordAtOf table subject position = isWordAtOf table subject other) ∧
      ∀ position, start < position → position < start + width →
        ∀ assertion ∈ [Assertion.wordBoundary, .wordBegin, .wordEnd],
          assertion.holdsAt subject position = false) := by
  refine ⟨isWordAt_eq, isIdentifier_eq, fun position => ?_,
    fun start width char stands => ⟨?_, ?_, ?_⟩⟩
  · rw [isWordAtOf_eq_any, Option.any_eq_true]
    constructor
    · rintro ⟨char, found, identifies⟩
      obtain ⟨start, width, after, before, stands⟩ := charAround?_eq_some_iff.mp found
      exact ⟨start, width, char, after, before, stands, identifies⟩
    · rintro ⟨start, width, char, after, before, stands, identifies⟩
      exact ⟨char, stands.charAround? after before, identifies⟩
  · intro position after before start' width' char' after' before' stands'
    exact stands'.unique stands after' before' after before
  · intro position other after before after' before'
    rw [isWordAtOf_of_encodedAt stands after before, isWordAtOf_of_encodedAt stands after' before']
  · intro position after before
    have here : isWordAt subject position = isIdentifierOf Unicode.isIdentifier char := by
      rw [isWordAt_eq, isWordAtOf_of_encodedAt stands (by omega) before]
    have behind : isWordBefore subject position = isIdentifierOf Unicode.isIdentifier char := by
      rw [isWordBefore, isWordAt_eq, isWordAtOf_of_encodedAt stands (by omega) (by omega)]
      simp only [Nat.zero_lt_of_lt after, decide_true, Bool.true_and]
    intro assertion member
    simp only [List.mem_cons, List.not_mem_nil, or_false] at member
    rcases member with rfl | rfl | rfl <;>
      simp only [Assertion.holdsAt, here, behind, bne_self_eq_false, Bool.not_and_self,
        Bool.and_not_self]

theorem isWordAt_iff_encoded_amid_garbage :
    EncodedAt #[0xff, 0xc3, 0xa9, 0xa9] 1 2 'é' ∧
      isWordAtOf Unicode.isIdentifier #[0xff, 0xc3, 0xa9, 0xa9] 1 =
        isWordAtOf Unicode.isIdentifier #[0xff, 0xc3, 0xa9, 0xa9] 2 ∧
      Assertion.wordBoundary.holdsAt #[0xff, 0xc3, 0xa9, 0xa9] 2 = false := by
  obtain ⟨_, _, _, whole⟩ :=
    isWordAt_iff_encoded Unicode.isIdentifier #[0xff, 0xc3, 0xa9, 0xa9]
  have stands : EncodedAt #[0xff, 0xc3, 0xa9, 0xa9] 1 2 'é' := ⟨by decide, by decide⟩
  obtain ⟨_, agree, never⟩ := whole 1 2 'é' stands
  exact ⟨stands, agree 1 2 (by decide) (by decide) (by decide) (by decide),
    never 2 (by decide) (by decide) .wordBoundary (List.mem_cons_self ..)⟩

end ByteRegex
