import ByteRegex.Unicode.Utf8

/-!
# Encodings

What is decoded is what the standard encoding of a character gives, and nothing else. Only the first
byte of an encoding is no continuation. So at most one encoding covers a byte, whatever stands
around it, and stepping back from the byte finds its beginning.
-/

namespace ByteRegex.Unicode.Utf8

/-! ## Characters as bytes -/

theorem isContinuation_iff {byte : UInt8} :
    isContinuation byte = true ↔ 128 ≤ byte.toNat ∧ byte.toNat < 192 := by
  simp only [isContinuation, Bool.and_eq_true, decide_eq_true_eq, UInt8.le_iff_toNat_le]
  exact and_congr_right fun _ => Nat.lt_succ_iff.symm

theorem scalar?_eq_some_iff {least value : Nat} {char : Char} :
    scalar? least value = some char ↔ least ≤ value ∧ char.toNat = value := by
  constructor
  · intro found
    obtain ⟨valid, same⟩ := Option.dite_none_right_eq_some.mp found
    exact ⟨valid.1, congrArg Char.toNat (Option.some.inj same).symm⟩
  · rintro ⟨above, rfl⟩
    refine Option.dite_none_right_eq_some.mpr ⟨⟨above, char.valid⟩, ?_⟩
    exact congrArg some (Char.toNat_inj.mp rfl)

theorem toNat_char_lt (char : Char) : char.toNat < 0x110000 := by
  have valid : char.toNat.isValidChar := char.valid
  unfold Nat.isValidChar at valid
  omega

section

variable {char : Char} {first second third fourth : UInt8}

theorem encode_eq_one_iff :
    String.utf8EncodeChar char = [first] ↔ char.toNat < 0x80 ∧ first.toNat = char.toNat := by
  have bound := toNat_char_lt char
  simp only [String.utf8EncodeChar, Char.toNat_val]
  repeat' split
  all_goals simp [← UInt8.toNat_inj]; omega

theorem encode_eq_two_iff :
    String.utf8EncodeChar char = [first, second] ↔
      0x80 ≤ char.toNat ∧ char.toNat < 0x800 ∧
        first.toNat = 0xc0 + char.toNat / 64 ∧ second.toNat = 0x80 + char.toNat % 64 := by
  have bound := toNat_char_lt char
  simp only [String.utf8EncodeChar, Char.toNat_val]
  repeat' split
  all_goals simp [← UInt8.toNat_inj]; omega

theorem encode_eq_three_iff :
    String.utf8EncodeChar char = [first, second, third] ↔
      0x800 ≤ char.toNat ∧ char.toNat < 0x10000 ∧
        first.toNat = 0xe0 + char.toNat / 4096 ∧
        second.toNat = 0x80 + char.toNat / 64 % 64 ∧ third.toNat = 0x80 + char.toNat % 64 := by
  have bound := toNat_char_lt char
  simp only [String.utf8EncodeChar, Char.toNat_val]
  repeat' split
  all_goals simp [← UInt8.toNat_inj]; omega

theorem encode_eq_four_iff :
    String.utf8EncodeChar char = [first, second, third, fourth] ↔
      0x10000 ≤ char.toNat ∧
        first.toNat = 0xf0 + char.toNat / 262144 ∧ second.toNat = 0x80 + char.toNat / 4096 % 64 ∧
        third.toNat = 0x80 + char.toNat / 64 % 64 ∧ fourth.toNat = 0x80 + char.toNat % 64 := by
  have bound := toNat_char_lt char
  simp only [String.utf8EncodeChar, Char.toNat_val]
  repeat' split
  all_goals simp [← UInt8.toNat_inj]; omega

end

/-- The bytes that are decoded as a character are its encoding. -/
theorem decode?_eq_some_iff {bytes : List UInt8} {char : Char} :
    decode? bytes = some char ↔ String.utf8EncodeChar char = bytes := by
  unfold decode?
  split
  · rename_i first
    have := first.toNat_lt
    rw [encode_eq_one_iff, Option.ite_none_right_eq_some, scalar?_eq_some_iff,
      UInt8.lt_iff_toNat_lt]
    simp
    omega
  · rename_i first second
    have := first.toNat_lt
    have := second.toNat_lt
    rw [encode_eq_two_iff, Option.ite_none_right_eq_some, scalar?_eq_some_iff]
    simp [isContinuation, UInt8.le_iff_toNat_le]
    omega
  · rename_i first second third
    rw [encode_eq_three_iff, Option.ite_none_right_eq_some, scalar?_eq_some_iff]
    simp [isContinuation, UInt8.le_iff_toNat_le]
    omega
  · rename_i first second third fourth
    rw [encode_eq_four_iff, Option.ite_none_right_eq_some, scalar?_eq_some_iff]
    simp [isContinuation, UInt8.le_iff_toNat_le]
    have := toNat_char_lt char
    omega
  · rename_i one two three four
    refine ⟨nofun, ?_⟩
    rintro rfl
    rcases Char.utf8Size_eq char with size | size | size | size
    · exact absurd (String.utf8EncodeChar_eq_singleton size) (one _)
    · exact absurd (String.utf8EncodeChar_eq_cons_cons size) (two _ _)
    · exact absurd (String.utf8EncodeChar_eq_cons_cons_cons size) (three _ _ _)
    · exact absurd (String.utf8EncodeChar_eq_cons_cons_cons_cons size) (four _ _ _ _)

theorem sequenceLength?_eq_some_iff {lead : UInt8} {length : Nat} :
    sequenceLength? lead = some length ↔
      lead.toNat < 0x80 ∧ length = 1 ∨ (0xc2 ≤ lead.toNat ∧ lead.toNat ≤ 0xdf) ∧ length = 2 ∨
        (0xe0 ≤ lead.toNat ∧ lead.toNat ≤ 0xef) ∧ length = 3 ∨
          (0xf0 ≤ lead.toNat ∧ lead.toNat ≤ 0xf4) ∧ length = 4 := by
  simp only [sequenceLength?, UInt8.lt_iff_toNat_lt, UInt8.le_iff_toNat_le, Bool.and_eq_true,
    decide_eq_true_eq, UInt8.reduceToNat]
  repeat' split
  all_goals simp only [Option.some.injEq, reduceCtorEq, false_iff]; omega

theorem isContinuation_eq_false_iff {byte : UInt8} :
    isContinuation byte = false ↔ byte.toNat < 0x80 ∨ 0xc0 ≤ byte.toNat := by
  rw [← Bool.not_eq_true, isContinuation_iff]
  omega

/-- The first byte of an encoding announces its length, and only the others are continuations. -/
theorem shape_of_encode {char : Char} {bytes : List UInt8}
    (encoded : String.utf8EncodeChar char = bytes) :
    ∃ lead tail, bytes = lead :: tail ∧ sequenceLength? lead = some bytes.length ∧
      isContinuation lead = false ∧ ∀ byte ∈ tail, isContinuation byte = true := by
  have bound := toNat_char_lt char
  simp only [sequenceLength?_eq_some_iff, isContinuation_eq_false_iff, isContinuation_iff]
  have level : bytes.length = char.utf8Size := by rw [← encoded, String.length_utf8EncodeChar]
  have positive := char.utf8Size_pos
  have short := char.utf8Size_le_four
  match bytes with
  | [] => exact absurd level (Nat.ne_of_lt positive)
  | [first] =>
      obtain ⟨small, same⟩ := encode_eq_one_iff.mp encoded
      exact ⟨first, [], rfl, .inl ⟨by omega, rfl⟩, by omega, nofun⟩
  | [first, second] =>
      obtain ⟨above, below, leading, trailing⟩ := encode_eq_two_iff.mp encoded
      refine ⟨first, [second], rfl, .inr (.inl ⟨by omega, rfl⟩), by omega, ?_⟩
      exact List.forall_mem_singleton.mpr (by omega)
  | [first, second, third] =>
      obtain ⟨above, below, leading, middle, trailing⟩ := encode_eq_three_iff.mp encoded
      refine ⟨first, [second, third], rfl, .inr (.inr (.inl ⟨by omega, rfl⟩)), by omega, ?_⟩
      exact List.forall_mem_cons.mpr ⟨by omega, List.forall_mem_singleton.mpr (by omega)⟩
  | [first, second, third, fourth] =>
      obtain ⟨above, leading, former, latter, trailing⟩ := encode_eq_four_iff.mp encoded
      refine ⟨first, [second, third, fourth], rfl, .inr (.inr (.inr ⟨by omega, rfl⟩)), by omega, ?_⟩
      exact List.forall_mem_cons.mpr ⟨by omega,
        List.forall_mem_cons.mpr ⟨by omega, List.forall_mem_singleton.mpr (by omega)⟩⟩
  | _ :: _ :: _ :: _ :: _ :: _ =>
      simp only [List.length_cons] at level
      omega

/-! ## The character around a byte -/

/-- Whether the encoding of a character stands at a position and takes so many bytes. -/
structure EncodedAt (bytes : Array UInt8) (start width : Nat) (char : Char) : Prop where
  inside : start + width ≤ bytes.size
  encoded : (bytes.extract start (start + width)).toList = String.utf8EncodeChar char

theorem leadBefore_le (bytes : Array UInt8) (limit position : Nat) :
    leadBefore bytes limit position ≤ position := by
  fun_induction leadBefore bytes limit position with
  | case1 limit position continues ih => exact Nat.le_succ_of_le ih
  | case2 => exact Nat.le_refl _
  | case3 => exact Nat.le_refl _

/-- Stepping back ends at the nearest byte that is no continuation, if that is near enough. -/
theorem leadBefore_eq {bytes : Array UInt8} {limit start position : Nat} (before : start ≤ position)
    (near : position ≤ start + limit)
    (leads : isContinuation (bytes.getD start 0) = false)
    (continues : ∀ index, start < index → index ≤ position →
      isContinuation (bytes.getD index 0) = true) : leadBefore bytes limit position = start := by
  fun_induction leadBefore bytes limit position with
  | case1 limit position found ih =>
      have further : start ≤ position := by
        rcases Nat.eq_or_lt_of_le before with same | less
        · rw [same, found] at leads
          cases leads
        · exact Nat.le_of_lt_succ less
      exact ih further (by omega) fun index after within =>
        continues index after (Nat.le_succ_of_le within)
  | case2 limit position found =>
      rcases Nat.eq_or_lt_of_le before with same | less
      · exact same.symm
      · exact absurd (continues _ less (Nat.le_refl _)) found
  | case3 limit position short =>
      cases limit with
      | zero => omega
      | succ limit =>
          cases position with
          | zero => omega
          | succ position => exact absurd rfl (short _ _ rfl)

namespace EncodedAt

variable {bytes : Array UInt8} {start width position : Nat} {char : Char}

theorem width_eq (stands : EncodedAt bytes start width char) : width = char.utf8Size := by
  have level := congrArg List.length stands.encoded
  have inside := stands.inside
  rw [String.length_utf8EncodeChar, Array.length_toList, Array.size_extract] at level
  omega

theorem getElem?_encode (stands : EncodedAt bytes start width char) {index : Nat}
    (small : index < width) : (String.utf8EncodeChar char)[index]? = bytes[start + index]? := by
  have inside := stands.inside
  rw [← stands.encoded, Array.getElem?_toList, Array.getElem?_extract, if_pos (by omega)]

/-- The bytes of an encoding, the first one and the others. -/
theorem continues (stands : EncodedAt bytes start width char) :
    sequenceLength? (bytes.getD start 0) = some width ∧
      isContinuation (bytes.getD start 0) = false ∧
      ∀ index, start < index → index < start + width →
        isContinuation (bytes.getD index 0) = true := by
  obtain ⟨lead, tail, parts, announced, leads, others⟩ :=
    shape_of_encode (Eq.refl (String.utf8EncodeChar char))
  have level : (lead :: tail).length = width := by
    rw [← parts, String.length_utf8EncodeChar, stands.width_eq]
  have first : bytes.getD start 0 = lead := by
    have found : (String.utf8EncodeChar char)[0]? = bytes[start + 0]? :=
      stands.getElem?_encode (by rw [← level]; exact Nat.succ_pos _)
    rw [parts, Nat.add_zero] at found
    rw [Array.getD_eq_getD_getElem?, ← found]
    rfl
  rw [first]
  refine ⟨by rw [announced, parts, level], leads, fun index after before => ?_⟩
  obtain ⟨offset, rfl⟩ : ∃ offset, index = start + (offset + 1) := ⟨index - start - 1, by omega⟩
  have found : (String.utf8EncodeChar char)[offset + 1]? = bytes[start + (offset + 1)]? :=
    stands.getElem?_encode (by omega)
  rw [parts, List.getElem?_cons_succ] at found
  have short : offset < tail.length := by
    rw [List.length_cons] at level
    omega
  rw [Array.getD_eq_getD_getElem?, ← found, List.getElem?_eq_getElem short]
  exact others _ (List.getElem_mem short)

/-- From within an encoding one steps back to its first byte. -/
theorem leadBefore_eq (stands : EncodedAt bytes start width char) (after : start ≤ position)
    (before : position < start + width) : leadBefore bytes 3 position = start := by
  obtain ⟨_, leads, continues⟩ := stands.continues
  have narrow : width ≤ 4 := stands.width_eq ▸ char.utf8Size_le_four
  exact Utf8.leadBefore_eq after (by omega) leads fun index behind within =>
    continues index behind (Nat.lt_of_le_of_lt within before)

/-- The encoding that covers a position is what is decoded there. -/
theorem charAround? (stands : EncodedAt bytes start width char) (after : start ≤ position)
    (before : position < start + width) : charAround? bytes position = some char := by
  simp only [Utf8.charAround?, stands.leadBefore_eq after before, stands.continues.1, before,
    stands.inside, decide_true, Bool.and_self, if_true]
  exact decode?_eq_some_iff.mpr stands.encoded.symm

/-- At most one encoding covers a position. -/
theorem unique {start' width' : Nat} {char' : Char} (stands : EncodedAt bytes start width char)
    (stands' : EncodedAt bytes start' width' char') (after : start ≤ position)
    (before : position < start + width) (after' : start' ≤ position)
    (before' : position < start' + width') : start = start' ∧ width = width' ∧ char = char' := by
  have same : char = char' :=
    Option.some.inj
      ((stands.charAround? after before).symm.trans (stands'.charAround? after' before'))
  refine ⟨?_, ?_, same⟩
  · rw [← stands.leadBefore_eq after before, stands'.leadBefore_eq after' before']
  · rw [stands.width_eq, stands'.width_eq, same]

end EncodedAt

/-- A character is found around a position if and only if its encoding covers the position. -/
theorem charAround?_eq_some_iff {bytes : Array UInt8} {position : Nat} {char : Char} :
    charAround? bytes position = some char ↔
      ∃ start width, start ≤ position ∧ position < start + width ∧
        EncodedAt bytes start width char := by
  constructor
  · intro found
    unfold charAround? at found
    dsimp only at found
    split at found
    · cases found
    · rename_i length _
      rw [Option.ite_none_right_eq_some, Bool.and_eq_true, decide_eq_true_eq, decide_eq_true_eq,
        decode?_eq_some_iff] at found
      obtain ⟨⟨covers, inside⟩, encoded⟩ := found
      exact ⟨_, length, leadBefore_le bytes 3 position, covers, inside, encoded.symm⟩
  · rintro ⟨start, width, after, before, stands⟩
    exact stands.charAround? after before

end ByteRegex.Unicode.Utf8
