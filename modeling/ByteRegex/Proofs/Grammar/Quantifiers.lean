import ByteRegex.Proofs.Grammar.Spelling
import ByteRegex.Proofs.Syntax.Bounds

/-!
# Quantifiers

Quantifiers are read as they are spelled, with the bounds between their braces and the mark behind
them.
-/

namespace ByteRegex.Grammar

theorem readGreed_iff {input rest : List UInt8} {greed : Greed} :
    Quantifier.readGreed input = (greed, rest) ↔ Suffix input greed rest := by
  constructor
  · intro read
    cases input with
    | nil =>
        cases read
        exact .greedy nofun nofun
    | cons byte tail =>
        simp only [Quantifier.readGreed] at read
        split at read
        · rename_i mark
          cases read
          exact mark ▸ .lazy _
        · rename_i mark
          split at read
          · rename_i plus
            cases read
            exact plus ▸ .possessive _
          · rename_i plus
            cases read
            exact .greedy (by simpa using mark) (by simpa using plus)
  · intro suffix
    cases suffix with
    | lazy | possessive => rfl
    | greedy mark plus =>
        cases input with
        | nil => rfl
        | cons byte tail =>
            simp only [List.head?_cons, ne_eq, Option.some.injEq] at mark plus
            simp only [Quantifier.readGreed, mark, plus, if_false]

theorem le_foldl_digits (digits : List UInt8) (number : Nat) :
    number ≤ digits.foldl (fun number digit => 10 * number + (digit.toNat - 48)) number := by
  induction digits generalizing number with
  | nil => exact Nat.le_refl _
  | cons digit rest ih =>
      have grows : number ≤ 10 * number + (digit.toNat - 48) := by omega
      exact Nat.le_trans grows (ih _)

/-- A number is small if and only if it is small after each of its digits. -/
theorem foldlM_digits_iff {digits : List UInt8} {number value : Nat}
    (small : number ≤ Capacity.bound) :
    digits.foldlM (fun number digit =>
        if 10 * number + (digit.toNat - 48) ≤ Capacity.bound then
          Except.ok (10 * number + (digit.toNat - 48))
        else Except.error CompileError.badRepeatRange) number = .ok value ↔
      digits.foldl (fun number digit => 10 * number + (digit.toNat - 48)) number = value ∧
        value ≤ Capacity.bound := by
  induction digits generalizing number with
  | nil =>
      constructor
      · intro same
        cases same
        exact ⟨rfl, small⟩
      · rintro ⟨rfl, _⟩
        rfl
  | cons digit rest ih =>
      rw [List.foldlM_cons, List.foldl_cons]
      by_cases fits : 10 * number + (digit.toNat - 48) ≤ Capacity.bound
      · rw [if_pos fits]
        exact ih fits
      · rw [if_neg fits]
        have larger := le_foldl_digits rest (10 * number + (digit.toNat - 48))
        constructor
        · intro failed
          cases failed
        · rintro ⟨rfl, bounded⟩
          exact absurd (Nat.le_trans larger bounded) fits

theorem readBound_iff {digits : List UInt8} {number : Nat} :
    Quantifier.readBound digits = .ok number ↔ Bound digits number := by
  have folds := @foldlM_digits_iff digits 0 number (Nat.zero_le _)
  unfold Quantifier.readBound
  constructor
  · intro read
    split at read
    · cases read
    · rename_i plain
      simp only [Bool.or_eq_true, Bool.not_eq_true', not_or, Bool.not_eq_false,
        List.isEmpty_iff, List.all_eq_true] at plain
      obtain ⟨same, small⟩ := folds.mp read
      exact ⟨plain.1, plain.2, same, small⟩
  · intro bound
    rw [if_neg (by simpa using ⟨bound.filled, bound.decimal⟩)]
    exact folds.mpr ⟨bound.same, bound.small⟩

theorem checkBounds_iff {least : Nat} {most : Option Nat} {bounds : Nat × Option Nat} :
    Quantifier.checkBounds least most = .ok bounds ↔
      bounds = (least, most) ∧ ∀ greatest ∈ most, 1 ≤ greatest ∧ least ≤ greatest := by
  unfold Quantifier.checkBounds
  cases most with
  | none =>
      constructor
      · intro checked
        cases checked
        exact ⟨rfl, nofun⟩
      · rintro ⟨rfl, _⟩
        rfl
  | some greatest =>
      dsimp only
      constructor
      · intro checked
        split at checked
        · cases checked
        · rename_i ordered
          cases checked
          simp only [Bool.or_eq_true, decide_eq_true_eq, not_or, Nat.not_lt] at ordered
          refine ⟨rfl, fun other same => ?_⟩
          cases same
          exact ⟨Nat.pos_of_ne_zero ordered.1, ordered.2⟩
      · rintro ⟨rfl, ordered⟩
        obtain ⟨positive, above⟩ := ordered greatest rfl
        refine if_neg ?_
        simp only [Bool.or_eq_true, decide_eq_true_eq, not_or, Nat.not_lt]
        exact ⟨Nat.ne_of_gt positive, above⟩

/-- A separator splits a text at its first place. -/
theorem takeWhile_append_separator {front : List UInt8} {separator : UInt8}
    (apart : separator ∉ front) (back : List UInt8) :
    (front ++ separator :: back).takeWhile (· ≠ separator) = front ∧
      (front ++ separator :: back).dropWhile (· ≠ separator) = separator :: back := by
  have differs : ∀ byte ∈ front, decide (byte ≠ separator) = true := fun byte member =>
    decide_eq_true fun same => apart (same ▸ member)
  rw [List.takeWhile_append_of_pos differs, List.dropWhile_append_of_pos differs]
  simp

theorem takeWhile_of_apart {text : List UInt8} {separator : UInt8} (apart : separator ∉ text) :
    text.takeWhile (· ≠ separator) = text ∧ text.dropWhile (· ≠ separator) = [] := by
  have differs : ∀ byte ∈ text, decide (byte ≠ separator) = true := fun byte member =>
    decide_eq_true fun same => apart (same ▸ member)
  constructor
  · rw [← List.append_nil text, List.takeWhile_append_of_pos (by simpa using differs)]
    rfl
  · rw [← List.append_nil text, List.dropWhile_append_of_pos (by simpa using differs)]
    rfl

theorem eq_separator_of_dropWhile {text after : List UInt8} {separator byte : UInt8}
    (split : text.dropWhile (· ≠ separator) = byte :: after) :
    byte = separator ∧ text = text.takeWhile (· ≠ separator) ++ separator :: after := by
  have first := List.head?_dropWhile_not (· ≠ separator) text
  rw [split] at first
  have same : byte = separator := by simpa using first
  have parts : text.takeWhile (· ≠ separator) ++ text.dropWhile (· ≠ separator) = text :=
    List.takeWhile_append_dropWhile
  rw [split, same] at parts
  exact ⟨same, parts.symm⟩

theorem Bound.apart {digits : List UInt8} {number : Nat} (bound : Bound digits number)
    {separator : UInt8} (other : Ascii.isDigit separator = false) : separator ∉ digits :=
  fun member => nomatch other.symm.trans (bound.decimal separator member)

/-- The upper bound behind a comma, which may be missing. -/
theorem checkUpper_sound {least : Nat} {high : List UInt8} {bounds : Nat × Option Nat}
    (read : (if high.isEmpty then (.ok none : Except CompileError (Option Nat)) >>=
        Quantifier.checkBounds least
      else (Quantifier.readBound high).map some >>= Quantifier.checkBounds least) = .ok bounds) :
    high = [] ∧ bounds = (least, none) ∨
      ∃ most, Bound high most ∧ 1 ≤ most ∧ least ≤ most ∧ bounds = (least, some most) := by
  split at read
  · rename_i missing
    obtain ⟨most, none, checked⟩ := exists_of_bind read
    cases none
    exact .inl ⟨List.isEmpty_iff.mp missing, (checkBounds_iff.mp checked).1⟩
  · obtain ⟨most, found, checked⟩ := exists_of_bind read
    obtain ⟨number, bound, rfl⟩ := exists_of_map found
    obtain ⟨same, ordered⟩ := checkBounds_iff.mp checked
    obtain ⟨positive, above⟩ := ordered number rfl
    exact .inr ⟨number, readBound_iff.mp bound, positive, above, same⟩

theorem readBounds_sound {text : List UInt8} {least : Nat} {most : Option Nat}
    (read : Quantifier.readBounds text = .ok (least, most)) : Bounds text least most := by
  unfold Quantifier.readBounds at read
  dsimp only at read
  split at read
  · rename_i whole
    have same : text.takeWhile (· ≠ ','.toUInt8) ++ text.dropWhile (· ≠ ','.toUInt8) = text :=
      List.takeWhile_append_dropWhile
    rw [whole, List.append_nil] at same
    rw [same] at read
    obtain ⟨number, found, checked⟩ := exists_of_bind read
    obtain ⟨bounds, ordered⟩ := checkBounds_iff.mp checked
    obtain ⟨rfl, rfl⟩ := Prod.mk.inj bounds
    exact .exactly (readBound_iff.mp found) (ordered _ rfl).1
  · rename_i separator high split
    obtain ⟨_, parts⟩ := eq_separator_of_dropWhile split
    generalize text.takeWhile (· ≠ ','.toUInt8) = low at parts read
    subst parts
    split at read
    · cases read
    · rename_i filled
      split at read
      · rename_i missing
        obtain ⟨_, none, later⟩ := exists_of_bind read
        cases none
        rw [List.isEmpty_iff.mp missing]
        rcases checkUpper_sound later with ⟨rfl, _⟩ | ⟨number, bound, positive, _, same⟩
        · simp [missing] at filled
        · cases same
          exact .atMost bound positive
      · obtain ⟨_, found, later⟩ := exists_of_bind read
        have lower := readBound_iff.mp found
        rcases checkUpper_sound later with ⟨rfl, same⟩ | ⟨number, bound, positive, above, same⟩
        · cases same
          exact .atLeast lower
        · cases same
          exact .between lower bound positive above

theorem checkBounds_some {least most : Nat} (positive : 1 ≤ most) (ordered : least ≤ most) :
    Quantifier.checkBounds least (some most) = .ok (least, some most) := by
  refine checkBounds_iff.mpr ⟨rfl, fun greatest same => ?_⟩
  cases same
  exact ⟨positive, ordered⟩

theorem readBounds_complete {text : List UInt8} {least : Nat} {most : Option Nat}
    (bounds : Bounds text least most) : Quantifier.readBounds text = .ok (least, most) := by
  have comma : Ascii.isDigit ','.toUInt8 = false := rfl
  cases bounds with
  | exactly bound positive =>
      obtain ⟨taken, dropped⟩ := takeWhile_of_apart (bound.apart comma)
      simp only [Quantifier.readBounds, taken, dropped, readBound_iff.mpr bound]
      exact checkBounds_some positive (Nat.le_refl _)
  | @atLeast digits _ bound =>
      obtain ⟨taken, dropped⟩ := takeWhile_append_separator (bound.apart comma) []
      have filled : digits.isEmpty = false := by simpa using bound.filled
      simp only [Quantifier.readBounds, taken, dropped, filled, readBound_iff.mpr bound]
      rfl
  | @between low high _ _ lower upper positive ordered =>
      obtain ⟨taken, dropped⟩ := takeWhile_append_separator (lower.apart comma) high
      have first : low.isEmpty = false := by simpa using lower.filled
      have second : high.isEmpty = false := by simpa using upper.filled
      simp only [Quantifier.readBounds, taken, dropped, first, second, readBound_iff.mpr lower,
        readBound_iff.mpr upper]
      exact checkBounds_some positive ordered
  | @atMost high _ upper positive =>
      have taken : (','.toUInt8 :: high).takeWhile (· ≠ ','.toUInt8) = [] := rfl
      have dropped : (','.toUInt8 :: high).dropWhile (· ≠ ','.toUInt8) = ','.toUInt8 :: high := rfl
      have second : high.isEmpty = false := by simpa using upper.filled
      simp only [Quantifier.readBounds, taken, dropped, second, readBound_iff.mpr upper]
      exact checkBounds_some positive (Nat.zero_le _)

theorem Bounds.apart {text : List UInt8} {least : Nat} {most : Option Nat}
    (bounds : Bounds text least most) : 0x7d ∉ text := by
  have brace : Ascii.isDigit 0x7d = false := rfl
  have comma : ¬(0x7d : UInt8) = ','.toUInt8 := by decide
  cases bounds with
  | exactly bound => exact bound.apart brace
  | atLeast bound => simpa [comma] using bound.apart brace
  | between lower upper =>
      simpa [comma] using And.intro (lower.apart brace) (upper.apart brace)
  | atMost upper => simpa [comma] using upper.apart brace

theorem withGreed_sound {bounds : Except CompileError (Nat × Option Nat)} {rest : List UInt8}
    {quantifier : Quantifier} (read : (Quantifier.withGreed bounds rest).1 = .ok quantifier) :
    bounds = .ok (quantifier.least, quantifier.most) ∧
      Suffix rest quantifier.greed (Quantifier.withGreed bounds rest).2 := by
  simp only [Quantifier.withGreed] at read ⊢
  obtain ⟨_, found, rfl⟩ := exists_of_map read
  exact ⟨found, readGreed_iff.mp rfl⟩

theorem readQuantifier_sound {byte : UInt8} {tail : List UInt8} {quantifier : Quantifier}
    (starts : Quantifier.startsWith byte = true)
    (read : (Quantifier.read byte tail).1 = .ok quantifier) :
    Lexeme (byte :: tail) (.quantifier (.ok quantifier)) (Quantifier.read byte tail).2 := by
  obtain ⟨least, most, greed⟩ := quantifier
  unfold Quantifier.read at read ⊢
  by_cases star : byte = '*'.toUInt8
  · rw [if_pos star] at read ⊢
    obtain ⟨bounds, suffix⟩ := withGreed_sound read
    cases bounds
    exact star ▸ .quantifier (.star tail) suffix
  rw [if_neg star] at read ⊢
  by_cases plus : byte = '+'.toUInt8
  · rw [if_pos plus] at read ⊢
    obtain ⟨bounds, suffix⟩ := withGreed_sound read
    cases bounds
    exact plus ▸ .quantifier (.plus tail) suffix
  rw [if_neg plus] at read ⊢
  by_cases mark : byte = '?'.toUInt8
  · rw [if_pos mark] at read ⊢
    obtain ⟨bounds, suffix⟩ := withGreed_sound read
    cases bounds
    exact mark ▸ .quantifier (.mark tail) suffix
  rw [if_neg mark] at read ⊢
  have brace : byte = 0x7b := by
    simpa [Quantifier.startsWith, star, plus, mark] using starts
  split at read
  · cases read
  · rename_i closing after split
    obtain ⟨bounds, suffix⟩ := withGreed_sound read
    obtain ⟨_, parts⟩ := eq_separator_of_dropWhile split
    have lexeme := Lexeme.quantifier (.braces (readBounds_sound bounds) after) suffix
    rw [← parts] at lexeme
    exact brace ▸ lexeme

theorem readQuantifier_complete {input rest : List UInt8} {quantifier : Quantifier}
    (lexeme : Lexeme input (.quantifier (.ok quantifier)) rest) :
    ∃ byte tail, input = byte :: tail ∧ Quantifier.startsWith byte = true ∧
      Quantifier.read byte tail = (.ok quantifier, rest) := by
  cases lexeme with
  | @quantifier _ behind _ _ _ _ repeats suffix =>
      have greed := readGreed_iff.mpr suffix
      cases repeats with
      | star | plus | mark =>
          refine ⟨_, _, rfl, by decide, ?_⟩
          simp only [Quantifier.read, Quantifier.withGreed, greed]
          rfl
      | @braces text _ _ bounds =>
          obtain ⟨taken, dropped⟩ := takeWhile_append_separator bounds.apart behind
          refine ⟨_, _, rfl, by decide, ?_⟩
          have star : (0x7b : UInt8) ≠ '*'.toUInt8 := by decide
          have plus : (0x7b : UInt8) ≠ '+'.toUInt8 := by decide
          have mark : (0x7b : UInt8) ≠ '?'.toUInt8 := by decide
          simp only [Quantifier.read, Quantifier.withGreed, star, plus, mark, if_false, taken,
            dropped, greed, readBounds_complete bounds]
          rfl

end ByteRegex.Grammar
