import ByteRegex.Pattern.Bracket
import ByteRegex.Proofs.Semantics.Mirror
import ByteRegex.Proofs.Unicode.Encoding

/-!
# What does not tell the cases apart

A letter and its other case are in the same classes and in the same caseless sets, and neither of
them is a part of a longer character. So tests and assertions hold at the same positions of subjects
that differ in the case of letters only.
-/

namespace ByteRegex

open Unicode.Utf8

namespace Ascii

@[simp] theorem fold_true : fold true = toLower := rfl

/-- What is the same of each letter in both cases does not tell the cases of a byte apart. -/
theorem blind_of_letters {α : Type} (look : UInt8 → α)
    (letters : ∀ index : Fin 26, look (.ofNat (97 + index)) = look (.ofNat (65 + index)))
    (byte : UInt8) : look (toLower byte) = look byte := by
  have lowered := toNat_toLower byte
  by_cases capital : 65 ≤ byte.toNat ∧ byte.toNat ≤ 90
  · rw [if_pos capital] at lowered
    have upper : byte = .ofNat (65 + (byte.toNat - 65)) := by
      apply UInt8.toNat.inj
      rw [UInt8.toNat_ofNat']
      omega
    have lower : toLower byte = .ofNat (97 + (byte.toNat - 65)) := by
      apply UInt8.toNat.inj
      rw [lowered, UInt8.toNat_ofNat']
      omega
    have same := letters ⟨byte.toNat - 65, by omega⟩
    rwa [← upper, ← lower] at same
  · rw [if_neg capital] at lowered
    exact congrArg look (UInt8.toNat.inj lowered)

theorem isLetter_toLower (byte : UInt8) : isLetter (toLower byte) = isLetter byte :=
  blind_of_letters isLetter (by decide) byte

theorem toUpper_toLower (byte : UInt8) : toUpper (toLower byte) = toUpper byte :=
  blind_of_letters toUpper (by decide) byte

theorem isAscii_toLower (byte : UInt8) : isAscii (toLower byte) = isAscii byte :=
  blind_of_letters isAscii (by decide) byte

theorem isWord_toLower (byte : UInt8) : isWord (toLower byte) = isWord byte :=
  blind_of_letters isWord (by decide) byte

theorem toLower_eq_newline (byte : UInt8) : toLower byte = newline ↔ byte = newline := by
  have same : decide (toLower byte = newline) = decide (byte = newline) :=
    blind_of_letters (fun byte => decide (byte = newline)) (by decide) byte
  simpa using same

theorem toLower_of_not_isUpper {byte : UInt8} (other : isUpper byte = false) :
    toLower byte = byte := by
  simp [toLower, other]

theorem toLower_of_not_isAscii {byte : UInt8} (other : isAscii byte = false) :
    toLower byte = byte := by
  simp [isAscii, UInt8.le_iff_toNat_le] at other
  apply UInt8.toNat.inj
  rw [toNat_toLower, if_neg (by omega)]

/-- Every byte is one of its two cases. -/
theorem eq_toLower_or_eq_toUpper (byte : UInt8) : byte = toLower byte ∨ byte = toUpper byte := by
  cases capital : isUpper byte with
  | false => exact .inl (toLower_of_not_isUpper capital).symm
  | true =>
      have notLower : isLower byte = false := by
        simp [isUpper, isLower, UInt8.le_iff_toNat_le] at capital ⊢
        omega
      exact .inr (by simp [toUpper, notLower])

/-- What does not tell the cases apart is the same of the same letters. -/
theorem eq_of_toLower_eq {α : Type} {look : UInt8 → α}
    (blind : ∀ byte, look (toLower byte) = look byte) {byte other : UInt8}
    (same : toLower byte = toLower other) : look byte = look other :=
  (blind byte).symm.trans ((congrArg look same).trans (blind other))

end Ascii

theorem ByteClass.contains_toLower (kind : ByteClass) (byte : UInt8) :
    kind.contains (Ascii.toLower byte) = kind.contains byte :=
  Ascii.blind_of_letters kind.contains (by cases kind <;> decide) byte

/-! ## Sets -/

theorem Bracket.covers_toLower (bracket : Bracket) (byte : UInt8) :
    bracket.covers true (Ascii.toLower byte) = bracket.covers true byte := by
  simp only [covers, Ascii.isLetter_toLower, Ascii.toLower_toLower, Ascii.toUpper_toLower]
  cases letter : Ascii.isLetter byte with
  | false =>
      have capital : Ascii.isUpper byte = false := (Bool.or_eq_false_iff.mp letter).2
      rw [Ascii.toLower_of_not_isUpper capital]
  | true =>
      -- Both cases are looked for anyway, so it does not matter which of them is given.
      simp only [Bool.and_self, Bool.true_and]
      rcases Ascii.eq_toLower_or_eq_toUpper byte with lower | upper
      · rw [← lower]
      · rw [← upper]
        cases bracket.items.any (·.contains byte) <;> simp

theorem Bracket.denotes_toLower (bracket : Bracket) {flags : Flags}
    (caseless : flags.caseless = true) (byte : UInt8) :
    bracket.denotes flags (Ascii.toLower byte) = bracket.denotes flags byte := by
  simp only [denotes, caseless, bracket.covers_toLower, Ascii.toLower_eq_newline]

/-! ## Characters -/

theorem isContinuation_toLower (byte : UInt8) :
    isContinuation (Ascii.toLower byte) = isContinuation byte :=
  Ascii.blind_of_letters isContinuation (by decide) byte

theorem sequenceLength?_toLower (byte : UInt8) :
    sequenceLength? (Ascii.toLower byte) = sequenceLength? byte :=
  Ascii.blind_of_letters sequenceLength? (by decide) byte

theorem isAscii_of_sequenceLength? {byte : UInt8} (one : sequenceLength? byte = some 1) :
    Ascii.isAscii byte = true := by
  rcases sequenceLength?_eq_some_iff.mp one with ⟨small, _⟩ | ⟨_, ⟨⟩⟩ | ⟨_, ⟨⟩⟩ | ⟨_, ⟨⟩⟩
  exact decide_eq_true (UInt8.lt_iff_toNat_lt.mpr small)

/-- An ASCII byte is no part of a longer sequence. -/
theorem decode?_of_isAscii {bytes : List UInt8} (longer : bytes.length ≠ 1)
    (some : ∃ byte ∈ bytes, Ascii.isAscii byte = true) : decode? bytes = none := by
  obtain ⟨byte, member, ascii⟩ := some
  have small : byte.toNat < 0x80 := UInt8.lt_iff_toNat_lt.mp (of_decide_eq_true ascii)
  refine Option.eq_none_iff_forall_ne_some.mpr fun char decoded => longer ?_
  obtain ⟨lead, tail, rfl, announced, _, others⟩ :=
    shape_of_encode (decode?_eq_some_iff.mp decoded)
  rcases List.mem_cons.mp member with rfl | behind
  · have one : sequenceLength? byte = .some 1 := sequenceLength?_eq_some_iff.mpr (.inl ⟨small, rfl⟩)
    exact Option.some.inj (announced.symm.trans one)
  · have high := (isContinuation_iff.mp (others byte behind)).1
    omega

theorem decode?_map_toLower {bytes : List UInt8} (longer : bytes.length ≠ 1) :
    decode? (bytes.map Ascii.toLower) = decode? bytes := by
  by_cases some : ∃ byte ∈ bytes, Ascii.isAscii byte = true
  · have lowered : ∃ byte ∈ bytes.map Ascii.toLower, Ascii.isAscii byte = true := by
      obtain ⟨byte, member, ascii⟩ := some
      exact ⟨_, List.mem_map_of_mem member, by rw [Ascii.isAscii_toLower, ascii]⟩
    rw [decode?_of_isAscii longer some, decode?_of_isAscii (by simpa using longer) lowered]
  · have kept : bytes.map Ascii.toLower = bytes.map id := by
      refine List.map_congr_left fun byte member => ?_
      have other : Ascii.isAscii byte = false :=
        Bool.eq_false_iff.mpr fun ascii => some ⟨byte, member, ascii⟩
      exact Ascii.toLower_of_not_isAscii other
    rw [kept, List.map_id]

theorem decode?_eq_of_map_toLower {bytes other : List UInt8} (longer : bytes.length ≠ 1)
    (same : bytes.map Ascii.toLower = other.map Ascii.toLower) : decode? bytes = decode? other := by
  have level : bytes.length = other.length := by simpa using congrArg List.length same
  calc decode? bytes
      = decode? (bytes.map Ascii.toLower) := (decode?_map_toLower longer).symm
    _ = decode? (other.map Ascii.toLower) := by rw [same]
    _ = decode? other := decode?_map_toLower (level ▸ longer)

/-! ## Subjects -/

namespace Folded

variable {left right : Array UInt8}

theorem iff_map : Folded true left right ↔ left.map Ascii.toLower = right.map Ascii.toLower := by
  constructor
  · intro folded
    apply Array.ext_getElem?
    intro index
    simpa using folded index
  · intro same index
    have held := congrArg (·[index]?) same
    simpa using held

variable (folded : Folded true left right)
include folded

/-- What does not tell the cases apart is the same of what stands at the same place. -/
theorem getElem?_eq {α : Type} (look : Option UInt8 → α)
    (blind : ∀ found : Option UInt8, look (found.map Ascii.toLower) = look found) (index : Nat) :
    look left[index]? = look right[index]? :=
  (blind _).symm.trans ((congrArg look (folded index)).trans (blind _))

theorem getD_eq {α : Type} {look : UInt8 → α}
    (blind : ∀ byte, look (Ascii.toLower byte) = look byte) (index : Nat) :
    look (left.getD index 0) = look (right.getD index 0) := by
  simp only [Array.getD_eq_getD_getElem?]
  apply folded.getElem?_eq fun found => look (found.getD 0)
  intro found
  cases found with
  | none => rfl
  | some byte => exact blind byte

theorem any_eq {holds : UInt8 → Bool} (blind : ∀ byte, holds (Ascii.toLower byte) = holds byte)
    (index : Nat) : left[index]?.any holds = right[index]?.any holds := by
  apply folded.getElem?_eq (Option.any holds)
  intro found
  cases found with
  | none => rfl
  | some byte => exact blind byte

theorem isSome_eq (index : Nat) : left[index]?.isSome = right[index]?.isSome :=
  folded.getElem?_eq Option.isSome (fun _ => Option.isSome_map) index

theorem newline_eq (index : Nat) :
    (left[index]? = some Ascii.newline) = (right[index]? = some Ascii.newline) := by
  apply folded.getElem?_eq (· = some Ascii.newline)
  intro found
  cases found with
  | none => rfl
  | some byte => simp [Ascii.toLower_eq_newline]

theorem extract_toLower (start stop : Nat) :
    (left.extract start stop).toList.map Ascii.toLower =
      (right.extract start stop).toList.map Ascii.toLower := by
  rw [← Array.toList_map, ← Array.toList_map, Array.map_extract, Array.map_extract,
    iff_map.mp folded]

theorem leadBefore_eq (limit position : Nat) :
    leadBefore left limit position = leadBefore right limit position := by
  induction limit generalizing position with
  | zero => cases position <;> rfl
  | succ limit ih =>
      cases position with
      | zero => rfl
      | succ position => simp only [leadBefore, folded.getD_eq isContinuation_toLower, ih]

/-- The character around a byte that is not ASCII has no other case. -/
theorem charAround?_eq {position : Nat} {byte : UInt8} (found : left[position]? = some byte)
    (other : Ascii.isAscii byte = false) :
    charAround? left position = charAround? right position := by
  have before := leadBefore_le left 3 position
  simp only [charAround?, ← folded.leadBefore_eq, ← folded.getD_eq sequenceLength?_toLower,
    ← folded.size]
  generalize leadBefore left 3 position = start at before ⊢
  cases announced : sequenceLength? (left.getD start 0) with
  | none => rfl
  | some length =>
      dsimp only
      split
      · rename_i inside
        simp only [Bool.and_eq_true, decide_eq_true_eq] at inside
        have longer : length ≠ 1 := by
          rintro rfl
          have same : start = position := by omega
          have ascii := isAscii_of_sequenceLength? announced
          simp [same, Array.getD_eq_getD_getElem?, found, other] at ascii
        have size : (left.extract start (start + length)).toList.length = length := by
          rw [Array.length_toList, Array.size_extract]
          omega
        exact decode?_eq_of_map_toLower (by rw [size]; exact longer) (folded.extract_toLower _ _)
      · rfl

theorem isWordAt_eq (position : Nat) : isWordAt left position = isWordAt right position := by
  have same := folded position
  simp only [isWordAt]
  cases found : left[position]? with
  | none =>
      cases found' : right[position]? with
      | none => rfl
      | some _ => simp [found, found'] at same
  | some byte =>
      cases found' : right[position]? with
      | none => simp [found, found'] at same
      | some byte' =>
          simp only [found, found', Option.map_some, Option.some.injEq, Ascii.fold_true] at same
          simp only [← Ascii.eq_of_toLower_eq Ascii.isAscii_toLower same,
            ← Ascii.eq_of_toLower_eq Ascii.isWord_toLower same]
          cases kind : Ascii.isAscii byte with
          | true => rfl
          | false => rw [folded.charAround?_eq found kind]

theorem isWordBefore_eq (position : Nat) :
    isWordBefore left position = isWordBefore right position := by
  rw [isWordBefore, isWordBefore, folded.isWordAt_eq]

theorem matchesAt_eq (kind : ByteClass) (position : Nat) :
    kind.matchesAt left position = kind.matchesAt right position := by
  cases kind with
  | word => exact folded.isWordAt_eq position
  | digit => exact folded.any_eq (ByteClass.contains_toLower .digit) position
  | space => exact folded.any_eq (ByteClass.contains_toLower .space) position
  | hex => exact folded.any_eq (ByteClass.contains_toLower .hex) position
  | letter => exact folded.any_eq (ByteClass.contains_toLower .letter) position
  | punctuation => exact folded.any_eq (ByteClass.contains_toLower .punctuation) position

/-! ## Tests and assertions -/

/-- A test of a byte alone, without its surroundings. -/
theorem mirrors_of_any {test : ByteTest} (holds : UInt8 → Bool)
    (blind : ∀ byte, holds (Ascii.toLower byte) = holds byte)
    (alone : ∀ (subject : Array UInt8) (position : Nat),
      test.holdsAt subject position = subject[position]?.any holds) :
    test.Mirrors left right test where
  length := rfl
  holds position := by rw [alone, alone, folded.any_eq blind]

theorem mirrors_any : ByteTest.any.Mirrors left right .any := by
  apply folded.mirrors_of_any (fun _ => true) fun _ => rfl
  intro subject position
  rw [ByteTest.holdsAt]
  cases subject[position]? <;> rfl

theorem mirrors_anyButNewline : ByteTest.anyButNewline.Mirrors left right .anyButNewline := by
  have blind : ∀ byte, decide (Ascii.toLower byte ≠ Ascii.newline) = decide (byte ≠ Ascii.newline) :=
    fun byte => by simp only [ne_eq, Ascii.toLower_eq_newline]
  apply folded.mirrors_of_any (· ≠ Ascii.newline) blind
  intro subject position
  rw [ByteTest.holdsAt]
  cases subject[position]? <;> rfl

theorem mirrors_set (bracket : Bracket) {flags : Flags} (caseless : flags.caseless = true) :
    (ByteTest.set (bracket.toByteSet flags)).Mirrors left right (.set (bracket.toByteSet flags)) := by
  apply folded.mirrors_of_any _ (bracket.denotes_toLower caseless)
  intro subject position
  rw [ByteTest.holdsAt]
  cases subject[position]? with
  | none => rfl
  | some byte => exact ByteSet.contains_ofPredicate _ byte

theorem mirrors_inClass (kind : ByteClass) :
    (ByteTest.inClass kind).Mirrors left right (.inClass kind) where
  length := rfl
  holds position := by
    have present := folded.isSome_eq position
    simp only [ByteTest.holdsAt, folded.matchesAt_eq]
    generalize left[position]? = found at present ⊢
    generalize right[position]? = found' at present ⊢
    cases found <;> cases found' <;> first | rfl | cases present

theorem mirrors_notInClass (kind : ByteClass) :
    (ByteTest.notInClass kind).Mirrors left right (.notInClass kind) where
  length := rfl
  holds position := by
    have present := folded.isSome_eq position
    simp only [ByteTest.holdsAt, folded.matchesAt_eq]
    generalize left[position]? = found at present ⊢
    generalize right[position]? = found' at present ⊢
    cases found <;> cases found' <;> first | rfl | cases present

theorem mirrors_assertion (condition : Assertion) : condition.Mirrors left right condition := by
  intro position
  simp only [Assertion.holdsAt]
  cases condition with
  | lineBegin => simp only [folded.newline_eq]
  | lineEnd => simp only [folded.newline_eq, folded.size]
  | textBegin => rfl
  | textEnd => simp only [folded.size]
  | wordBoundary | notWordBoundary | wordBegin | wordEnd =>
      simp only [folded.isWordAt_eq, folded.isWordBefore_eq]

end Folded

end ByteRegex
