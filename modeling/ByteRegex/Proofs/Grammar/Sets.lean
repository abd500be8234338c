import ByteRegex.Proofs.Grammar.Spelling
import ByteRegex.Proofs.Syntax.Bounds

/-!
# Escapes and sets

Each reader of the pattern returns something if and only if it is spelled there, and then that value
and that rest of the pattern only. For numbers, escapes, classes and sets this is shown here.
-/

namespace ByteRegex.Grammar

open Escape (isOctalDigit readOctal readByte)

theorem byte_cases {property : UInt8 → Prop} (each : ∀ index : Fin 256, property (.ofFin index))
    (byte : UInt8) : property byte := each byte.toFin

/-! ## Escapes -/

theorem readOctal_sound (limit number : Nat) (input : List UInt8) :
    ∃ digits, input = digits ++ (readOctal limit number input).2 ∧ digits.length ≤ limit ∧
      (∀ digit ∈ digits, isOctalDigit digit = true) ∧
      (digits.length = limit ∨
        ∀ next ∈ (readOctal limit number input).2.head?, isOctalDigit next = false) ∧
      (readOctal limit number input).1 =
        digits.foldl (fun number digit => 8 * number + (digit.toNat - 48)) number := by
  induction limit generalizing number input with
  | zero => exact ⟨[], by simp [readOctal]⟩
  | succ limit ih =>
      cases input with
      | nil => exact ⟨[], by simp [readOctal]⟩
      | cons byte rest =>
          simp only [readOctal]
          split
          · rename_i octal
            obtain ⟨digits, split, few, all, stops, value⟩ :=
              ih (8 * number + (byte.toNat - 48)) rest
            refine ⟨byte :: digits, congrArg (byte :: ·) split, Nat.succ_le_succ few, ?_, ?_, value⟩
            · intro digit member
              rcases List.mem_cons.mp member with same | later
              · rw [same]
                exact octal
              · exact all digit later
            · exact stops.imp (congrArg (· + 1)) id
          · rename_i other
            refine ⟨[], rfl, Nat.zero_le _, List.forall_mem_nil _, .inr fun next first => ?_, rfl⟩
            cases first
            exact Bool.not_eq_true _ ▸ other

theorem readOctal_complete {limit : Nat} (number : Nat) {digits rest : List UInt8}
    (few : digits.length ≤ limit) (octal : ∀ digit ∈ digits, isOctalDigit digit = true)
    (all : digits.length = limit ∨ ∀ next ∈ rest.head?, isOctalDigit next = false) :
    readOctal limit number (digits ++ rest) =
      (digits.foldl (fun number digit => 8 * number + (digit.toNat - 48)) number, rest) := by
  induction digits generalizing limit number with
  | nil =>
      cases limit with
      | zero => rfl
      | succ limit =>
          cases rest with
          | nil => rfl
          | cons next after =>
              have other := all.resolve_left (Nat.succ_ne_zero limit).symm next rfl
              rw [List.nil_append, readOctal, other]
              rfl
  | cons digit digits ih =>
      obtain _ | limit := limit
      · cases few
      · rw [List.cons_append, readOctal, octal digit (List.mem_cons_self ..), if_pos rfl]
        exact ih _ (Nat.le_of_succ_le_succ few)
          (fun other member => octal other (List.mem_cons_of_mem _ member))
          (all.imp Nat.succ.inj id)

theorem named?_sound {inSet : Bool} {letter byte : UInt8}
    (found : Escape.named? inSet letter = some byte) : (letter, byte) ∈ namedEscapes ∨
      inSet = true ∧ letter = 'b'.toUInt8 ∧ byte = 0x08 := by
  unfold Escape.named? at found
  repeat' split at found
  all_goals first
    | cases found
      rename_i same
      subst same
      exact .inl (by decide)
    | cases found
      rename_i same
      simp only [Bool.and_eq_true, decide_eq_true_eq] at same
      exact .inr ⟨same.1, same.2, rfl⟩
    | cases found

theorem named?_complete {inSet : Bool} {letter byte : UInt8}
    (known : (letter, byte) ∈ namedEscapes) : Escape.named? inSet letter = some byte := by
  simp only [namedEscapes, List.mem_cons, Prod.mk.injEq, List.not_mem_nil, or_false] at known
  rcases known with ⟨rfl, rfl⟩ | ⟨rfl, rfl⟩ | ⟨rfl, rfl⟩ | ⟨rfl, rfl⟩ | ⟨rfl, rfl⟩ | ⟨rfl, rfl⟩ |
    ⟨rfl, rfl⟩ <;> rfl

/-- Only letters and digits mean something else behind a backslash. -/
theorem named?_of_other {inSet : Bool} {byte : UInt8}
    (other : Ascii.isAlphanumeric byte = false) : Escape.named? inSet byte = none := by
  have names : ∀ inSet byte, (Escape.named? inSet byte).isSome = true →
      Ascii.isAlphanumeric byte = true := by
    intro inSet
    cases inSet <;> exact byte_cases (by decide +kernel)
  cases found : Escape.named? inSet byte with
  | none => rfl
  | some value =>
      have named := names inSet byte (by rw [found]; rfl)
      rw [other] at named
      cases named

theorem readHex_sound {input rest : List UInt8} {byte : UInt8}
    (read : Escape.readHex input = .ok (byte, rest)) (inSet : Bool) :
    EscapedByte inSet ('x'.toUInt8 :: input) byte rest := by
  unfold Escape.readHex at read
  split at read
  · split at read
    · rename_i leading trailing
      cases read
      exact .hex leading trailing _
    · cases read
  · cases read

theorem readControl_sound {input rest : List UInt8} {byte : UInt8}
    (read : Escape.readControl input = .ok (byte, rest)) (inSet : Bool) :
    EscapedByte inSet ('c'.toUInt8 :: input) byte rest := by
  unfold Escape.readControl at read
  split at read
  · split at read
    · rename_i known
      cases read
      exact .control known _
    · cases read
  · cases read

theorem readByte_sound {inSet : Bool} {letter byte : UInt8} {input rest : List UInt8}
    (read : readByte inSet letter input = .ok (byte, rest)) :
    EscapedByte inSet (letter :: input) byte rest := by
  unfold readByte at read
  split at read
  · rename_i found
    cases read
    rcases named?_sound found with known | ⟨within, rfl, rfl⟩
    · exact .named known _
    · exact .backspace within _
  · split at read
    · rename_i zero
      obtain ⟨digits, parts, few, octal, all, value⟩ := readOctal_sound 3 0 input
      generalize readOctal 3 0 input = found at parts all value read
      subst zero parts
      dsimp only at read
      split at read
      · rename_i small
        cases read
        rw [value] at small ⊢
        exact .octal few octal all small
      · cases read
    · split at read
      · rename_i hex
        exact hex ▸ readHex_sound read inSet
      · split at read
        · rename_i control
          exact control ▸ readControl_sound read inSet
        · split at read
          · cases read
          · rename_i other
            cases read
            exact .itself (Bool.not_eq_true _ ▸ other) _

theorem readByte_complete {inSet : Bool} {letter byte : UInt8} {input rest : List UInt8}
    (escape : EscapedByte inSet (letter :: input) byte rest) :
    readByte inSet letter input = .ok (byte, rest) := by
  cases escape with
  | named known => simp only [readByte, named?_complete known]
  | backspace within =>
      subst within
      rfl
  | @octal digits _ few octal all small =>
      have value := readOctal_complete 0 few octal all
      have unnamed : Escape.named? inSet '0'.toUInt8 = none := by cases inSet <;> rfl
      simp only [readByte, unnamed, value, if_true]
      exact if_pos small
  | hex leading trailing =>
      have unnamed : Escape.named? inSet 'x'.toUInt8 = none := by cases inSet <;> rfl
      have differs : ¬ 'x'.toUInt8 = '0'.toUInt8 := by decide
      simp only [readByte, unnamed, differs, if_true, if_false, Escape.readHex, leading, trailing]
  | control known =>
      have unnamed : Escape.named? inSet 'c'.toUInt8 = none := by cases inSet <;> rfl
      have digit : ¬ 'c'.toUInt8 = '0'.toUInt8 := by decide
      have hex : ¬ 'c'.toUInt8 = 'x'.toUInt8 := by decide
      simp only [readByte, unnamed, digit, hex, if_true, if_false, Escape.readControl, known]
  | itself other =>
      have apart : ∀ known, Ascii.isAlphanumeric known = true → ¬letter = known := by
        intro known alphanumeric same
        rw [same, alphanumeric] at other
        cases other
      simp only [readByte, named?_of_other other, other, apart '0'.toUInt8 rfl,
        apart 'x'.toUInt8 rfl, apart 'c'.toUInt8 rfl, if_false, Bool.false_eq_true]

theorem EscapedByte.exists_cons {inSet : Bool} {input rest : List UInt8} {byte : UInt8}
    (escape : EscapedByte inSet input byte rest) : ∃ letter tail, input = letter :: tail := by
  cases escape <;> exact ⟨_, _, rfl⟩

/-! ## Classes -/

theorem ofEscapeLetter?_toLower_iff (kind : ByteClass) : ∀ letter : UInt8,
    ByteClass.ofEscapeLetter? (Ascii.toLower letter) = some kind ↔
      letter = classLetter kind ∨ letter = Ascii.toUpper (classLetter kind) := by
  cases kind <;> exact byte_cases (by decide +kernel)

theorem isUpper_classLetter (kind : ByteClass) : Ascii.isUpper (classLetter kind) = false := by
  cases kind <;> rfl

theorem isUpper_toUpper_classLetter (kind : ByteClass) :
    Ascii.isUpper (Ascii.toUpper (classLetter kind)) = true := by
  cases kind <;> rfl

/-- The letter of a class and its capital, whatever they are read as. -/
theorem map_ofEscapeLetter?_iff {α : Type} {letter : UInt8} {inside outside : ByteClass → α}
    {value : α} :
    ((ByteClass.ofEscapeLetter? (Ascii.toLower letter)).map fun kind =>
        if Ascii.isUpper letter then outside kind else inside kind) = some value ↔
      ∃ kind, letter = classLetter kind ∧ value = inside kind ∨
        letter = Ascii.toUpper (classLetter kind) ∧ value = outside kind := by
  constructor
  · intro found
    obtain ⟨kind, named, same⟩ := Option.map_eq_some_iff.mp found
    refine ⟨kind, ?_⟩
    rcases (ofEscapeLetter?_toLower_iff kind letter).mp named with lower | upper
    · rw [lower, isUpper_classLetter] at same
      exact .inl ⟨lower, same.symm⟩
    · rw [upper, isUpper_toUpper_classLetter] at same
      exact .inr ⟨upper, same.symm⟩
  · rintro ⟨kind, ⟨lower, same⟩ | ⟨upper, same⟩⟩
    · rw [(ofEscapeLetter?_toLower_iff kind letter).mpr (.inl lower), lower, same,
        isUpper_classLetter]
      rfl
    · rw [(ofEscapeLetter?_toLower_iff kind letter).mpr (.inr upper), upper, same,
        isUpper_toUpper_classLetter]
      rfl

theorem classItem?_iff {letter : UInt8} {item : BracketItem} :
    Bracket.classItem? letter = some item ↔
      ∃ kind, letter = classLetter kind ∧ item = .inClass kind ∨
        letter = Ascii.toUpper (classLetter kind) ∧ item = .notInClass kind :=
  map_ofEscapeLetter?_iff

/-- No class letter names a byte. -/
theorem classItem?_of_escapedByte {letter byte : UInt8} {input rest : List UInt8}
    (escape : EscapedByte true (letter :: input) byte rest) :
    Bracket.classItem? letter = none := by
  have read := readByte_complete escape
  have apart : ∀ letter : UInt8, (Bracket.classItem? letter).isSome = true →
      Escape.named? true letter = none ∧ letter ≠ '0'.toUInt8 ∧ letter ≠ 'x'.toUInt8 ∧
        letter ≠ 'c'.toUInt8 ∧ Ascii.isAlphanumeric letter = true :=
    byte_cases (by decide +kernel)
  cases found : Bracket.classItem? letter with
  | none => rfl
  | some item =>
      obtain ⟨unnamed, zero, hex, control, known⟩ := apart letter (by rw [found]; rfl)
      simp only [readByte, unnamed, zero, hex, control, known, if_true, if_false] at read
      cases read

/-! ## Sets -/

theorem readEscape_byte_iff {input rest : List UInt8} {byte : UInt8} :
    Bracket.readEscape input = .ok (.byte byte, rest) ↔ EscapedByte true input byte rest := by
  constructor
  · intro read
    cases input with
    | nil => cases read
    | cons letter tail =>
        simp only [Bracket.readEscape] at read
        split at read
        · rename_i item found
          cases read
          obtain ⟨kind, ⟨_, same⟩ | ⟨_, same⟩⟩ := classItem?_iff.mp found <;> cases same
        · obtain ⟨⟨value, after⟩, found, same⟩ := exists_of_map read
          cases same
          exact readByte_sound found
  · intro escape
    obtain ⟨letter, tail, rfl⟩ := escape.exists_cons
    simp only [Bracket.readEscape, classItem?_of_escapedByte escape, readByte_complete escape]
    rfl

theorem readHigh_iff {input rest : List UInt8} {high : UInt8} :
    Bracket.readHigh input = .ok (high, rest) ↔ Member input high rest := by
  constructor
  · intro read
    cases input with
    | nil => cases read
    | cons byte tail =>
        simp only [Bracket.readHigh] at read
        split at read
        · rename_i escapes
          split at read
          · rename_i found
            cases read
            exact escapes ▸ .escaped (readEscape_byte_iff.mp found)
          · cases read
          · cases read
        · rename_i unescaped
          cases read
          exact .plain unescaped _
  · intro member
    cases member with
    | plain unescaped => exact if_neg unescaped
    | escaped escape => simp only [Bracket.readHigh, readEscape_byte_iff.mpr escape, if_true]

/-- What stands behind a byte makes it the start of a range or leaves it alone. -/
theorem readRange_sound {input rest after : List UInt8} {low : UInt8} {item : BracketItem}
    (member : Member input low rest) (read : Bracket.readRange low rest = .ok (item, after)) :
    Item input item after := by
  unfold Bracket.readRange at read
  split at read
  · split at read
    · rename_i hyphen next later goes
      simp only [Bool.and_eq_true, decide_eq_true_eq] at goes
      obtain ⟨rfl, differs⟩ := goes
      split at read
      · cases read
      · rename_i found
        split at read
        · cases read
        · rename_i ordered
          cases read
          refine .range member (readHigh_iff.mp found) ?_ (UInt8.not_lt.mp ordered)
          simpa using differs
    · rename_i hyphen next later alone
      simp only [Bool.and_eq_true, decide_eq_true_eq, not_and, ne_eq, Decidable.not_not] at alone
      cases read
      refine .byte member fun following behind same => ?_
      cases same
      exact alone rfl
  · rename_i short
    cases read
    exact .byte member fun next later same => absurd same (short _ next later)

theorem readItem_sound {byte : UInt8} {tail rest : List UInt8} {item : BracketItem}
    (read : Bracket.readItem byte tail = .ok (item, rest)) : Item (byte :: tail) item rest := by
  unfold Bracket.readItem at read
  split at read
  · rename_i escapes
    subst escapes
    split at read
    · rename_i found
      exact readRange_sound (.escaped (readEscape_byte_iff.mp found)) read
    · rename_i other
      cases tail with
      | nil => cases read
      | cons letter later =>
          simp only [Bracket.readEscape] at read other
          split at read
          · rename_i found
            cases read
            obtain ⟨kind, ⟨rfl, rfl⟩ | ⟨rfl, rfl⟩⟩ := classItem?_iff.mp found
            · exact .inClass kind _
            · exact .notInClass kind _
          · rename_i none
            rw [none] at other
            obtain ⟨_, found, same⟩ := exists_of_map read
            cases same
            exact absurd read (other _ _)
  · rename_i unescaped
    exact readRange_sound (.plain unescaped _) read

theorem readItem_of_member {input rest : List UInt8} {low : UInt8}
    (member : Member input low rest) :
    ∃ byte tail, input = byte :: tail ∧
      Bracket.readItem byte tail = Bracket.readRange low rest := by
  cases member with
  | plain unescaped => exact ⟨_, _, rfl, if_neg unescaped⟩
  | escaped escape =>
      refine ⟨_, _, rfl, ?_⟩
      simp only [Bracket.readItem, readEscape_byte_iff.mpr escape, if_true]

theorem readItem_complete {input rest : List UInt8} {item : BracketItem}
    (spelled : Item input item rest) :
    ∃ byte tail, input = byte :: tail ∧ Bracket.readItem byte tail = .ok (item, rest) := by
  cases spelled with
  | byte member alone =>
      obtain ⟨byte, tail, same, reads⟩ := readItem_of_member member
      refine ⟨byte, tail, same, reads.trans ?_⟩
      unfold Bracket.readRange
      split
      · rename_i hyphen next later
        refine if_neg fun goes => ?_
        simp only [Bool.and_eq_true, decide_eq_true_eq] at goes
        exact goes.2 (alone next later (by rw [goes.1]))
      · rfl
  | @range _ next _ low high lower upper goes ordered =>
      obtain ⟨byte, tail, same, reads⟩ := readItem_of_member lower
      refine ⟨byte, tail, same, reads.trans ?_⟩
      cases next with
      | nil => cases upper
      | cons first later =>
          have differs : first ≠ ']'.toUInt8 := by simpa using goes
          simp only [Bracket.readRange, differs, ne_eq, not_false_eq_true, decide_true,
            Bool.and_self, if_true, readHigh_iff.mpr upper, UInt8.not_lt.mpr ordered, if_false]
  | inClass kind =>
      refine ⟨_, _, rfl, ?_⟩
      have named := classItem?_iff.mpr ⟨kind, .inl ⟨rfl, rfl⟩⟩
      simp only [Bracket.readItem, Bracket.readEscape, named, if_true]
  | notInClass kind =>
      refine ⟨_, _, rfl, ?_⟩
      have named := classItem?_iff.mpr ⟨kind, .inr ⟨rfl, rfl⟩⟩
      simp only [Bracket.readItem, Bracket.readEscape, named, if_true]

theorem readItems_sound {first : Bool} {met items : List BracketItem} {input rest : List UInt8}
    (read : Bracket.readItems first met input = .ok (items, rest)) :
    ∃ later, items = met.reverse ++ later ∧ Items first input later rest := by
  fun_induction Bracket.readItems first met input with
  | case1 => cases read
  | case2 first met byte after closes =>
      cases read
      simp only [Bool.and_eq_true, decide_eq_true_eq, Bool.not_eq_true'] at closes
      obtain ⟨rfl, rfl⟩ := closes
      exact ⟨[], (List.append_nil _).symm, .done _⟩
  | case3 => cases read
  | case4 first met byte tail opens item after found ih =>
      obtain ⟨later, same, listed⟩ := ih read
      refine ⟨item :: later, by simpa using same, .more ?_ (readItem_sound found) listed⟩
      simp only [Bool.and_eq_true, decide_eq_true_eq, Bool.not_eq_true', not_and,
        Bool.not_eq_false] at opens
      by_cases closing : byte = ']'.toUInt8
      · exact .inl (opens closing)
      · exact .inr (by simpa using closing)

theorem readItems_complete {first : Bool} {input rest : List UInt8} {items : List BracketItem}
    (listed : Items first input items rest) (met : List BracketItem) :
    Bracket.readItems first met input = .ok (met.reverse ++ items, rest) := by
  induction listed generalizing met with
  | done rest =>
      rw [Bracket.readItems, List.append_nil]
      rfl
  | @more first input next rest item items opens one later ih =>
      obtain ⟨byte, tail, rfl, reads⟩ := readItem_complete one
      have continues : ¬(decide (byte = ']'.toUInt8) && !first) = true := by
        intro closes
        simp only [Bool.and_eq_true, decide_eq_true_eq, Bool.not_eq_true'] at closes
        rcases opens with start | differs
        · cases start.symm.trans closes.2
        · exact differs (congrArg some closes.1)
      rw [Bracket.readItems, if_neg continues]
      split
      · rename_i failed
        cases failed.symm.trans reads
      · rename_i found
        cases found.symm.trans reads
        rw [ih, List.reverse_cons, List.append_assoc]
        rfl

theorem readSet_sound {input rest : List UInt8} {bracket : Bracket}
    (read : Bracket.read input = .ok (bracket, rest)) : SetBody input bracket rest := by
  unfold Bracket.read at read
  split at read
  · cases read
  · split at read
    · rename_i negates
      obtain ⟨⟨items, after⟩, found, same⟩ := exists_of_map read
      cases same
      obtain ⟨later, rfl, listed⟩ := readItems_sound found
      exact .negated (by simpa using negates) listed
    · rename_i plain
      obtain ⟨⟨items, after⟩, found, same⟩ := exists_of_map read
      cases same
      obtain ⟨later, rfl, listed⟩ := readItems_sound found
      simp only [Bool.or_eq_true, decide_eq_true_eq, not_or] at plain
      exact .plain (by simpa using plain.1) (by simpa using plain.2) listed

theorem readSet_complete {input rest : List UInt8} {bracket : Bracket}
    (body : SetBody input bracket rest) : Bracket.read input = .ok (bracket, rest) := by
  cases body with
  | plain caret mark listed =>
      have reads := readItems_complete listed []
      cases input with
      | nil =>
          cases listed with
          | more opens one =>
              obtain ⟨_, _, same, _⟩ := readItem_complete one
              cases same
      | cons byte tail =>
          have plain : ¬(decide (byte = '^'.toUInt8) || decide (byte = '!'.toUInt8)) = true := by
            have differs : byte ≠ '^'.toUInt8 ∧ byte ≠ '!'.toUInt8 :=
              ⟨by simpa using caret, by simpa using mark⟩
            simpa using differs
          rw [Bracket.read, if_neg plain, reads]
          rfl
  | negated negates listed =>
      rw [Bracket.read, if_pos (by simpa using negates), readItems_complete listed []]
      rfl

end ByteRegex.Grammar
