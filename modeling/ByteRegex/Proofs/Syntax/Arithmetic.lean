import ByteRegex.Pattern.Token
import ByteRegex.Proofs.Grammar.Sets

/-!
# Arithmetic of the readers

Numbers in a pattern are read with machine arithmetic: digits as bytes, and what they add up to as
words of 32 bits. The readers below do it with operations that fail out of range. They never fail,
and read what the readers of patterns read.
-/

namespace ByteRegex.Checked

def subByte (first second : UInt8) : Option UInt8 :=
  if second ≤ first then some (first - second) else none

def addByte (first second : UInt8) : Option UInt8 :=
  if first.toNat + second.toNat < 256 then some (first + second) else none

def mulByte (first second : UInt8) : Option UInt8 :=
  if first.toNat * second.toNat < 256 then some (first * second) else none

def addWord (first second : UInt32) : Option UInt32 :=
  if first.toNat + second.toNat < 4294967296 then some (first + second) else none

def mulWord (first second : UInt32) : Option UInt32 :=
  if first.toNat * second.toNat < 4294967296 then some (first * second) else none

/-! ## Digits of a number -/

/-- A number with one more digit behind it. -/
def extend (base number : UInt32) (digit : UInt8) : Option UInt32 :=
  (subByte digit 48).bind fun value =>
    (mulWord number base).bind fun shifted => addWord shifted value.toUInt32

/-- A digit behind a small number is no overflow. -/
theorem exists_extend {base number : UInt32} {digit : UInt8} (isDigit : 48 ≤ digit.toNat)
    (small : number.toNat * base.toNat < 4294967000) :
    ∃ longer, extend base number digit = some longer ∧
      longer.toNat = base.toNat * number.toNat + (digit.toNat - 48) := by
  have byte := digit.toNat_lt
  have above : (48 : UInt8) ≤ digit := isDigit
  have value : (digit - 48).toUInt32.toNat = digit.toNat - 48 :=
    UInt8.toNat_sub_of_le digit 48 above
  have shifted : (number * base).toNat = number.toNat * base.toNat := by
    rw [UInt32.toNat_mul]
    exact Nat.mod_eq_of_lt (by omega)
  refine ⟨number * base + (digit - 48).toUInt32, ?_, ?_⟩
  · rw [extend, subByte, if_pos above, Option.bind_some, mulWord, if_pos (by omega),
      Option.bind_some, addWord, if_pos (by rw [shifted, value]; omega)]
  · rw [UInt32.toNat_add, shifted, value, Nat.mul_comm base.toNat]
    exact Nat.mod_eq_of_lt (by omega)

/-- The digits of a bound behind a number, which must not grow too large in between. -/
def readDigits : UInt32 → List UInt8 → Option (Except CompileError UInt32)
  | number, [] => some (.ok number)
  | number, digit :: rest =>
      (extend 10 number digit).bind fun longer =>
        if longer.toNat ≤ Capacity.bound then readDigits longer rest
        else some (.error .badRepeatRange)

def readBound (digits : List UInt8) : Option (Except CompileError UInt32) :=
  if digits.isEmpty || !digits.all Ascii.isDigit then some (.error .badRepeatRange)
  else readDigits 0 digits

theorem readDigits_eq {digits : List UInt8} (decimal : ∀ digit ∈ digits, Ascii.isDigit digit = true)
    {number : UInt32} (small : number.toNat ≤ Capacity.bound) :
    readDigits number digits = some ((digits.foldlM
      (fun number digit =>
        let longer := 10 * number + (digit.toNat - 48)
        if longer ≤ Capacity.bound then Except.ok longer else .error .badRepeatRange)
      number.toNat).map UInt32.ofNat) := by
  induction digits generalizing number with
  | nil =>
      rw [readDigits, List.foldlM_nil]
      exact congrArg (fun number => some (Except.ok number)) UInt32.ofNat_toNat.symm
  | cons digit rest ih =>
      obtain ⟨isDigit, decimal⟩ := List.forall_mem_cons.mp decimal
      have above : 48 ≤ digit.toNat :=
        UInt8.le_iff_toNat_le.mp (of_decide_eq_true (Bool.and_eq_true_iff.mp isDigit).1)
      have ten : (10 : UInt32).toNat = 10 := rfl
      simp only [Capacity.bound] at small
      obtain ⟨longer, extended, value⟩ :=
        @exists_extend 10 number digit above (by rw [ten]; omega)
      rw [ten] at value
      rw [readDigits, extended, Option.bind_some, List.foldlM_cons, ← value]
      dsimp only
      split
      · rename_i within
        rw [ih decimal within]
        rfl
      · rfl

/-- However many digits a bound has, reading it does not overflow. -/
theorem readBound_eq (digits : List UInt8) :
    readBound digits = some ((Quantifier.readBound digits).map UInt32.ofNat) := by
  rw [readBound, Quantifier.readBound]
  split
  · rfl
  · rename_i fine
    simp only [Bool.or_eq_true, Bool.not_eq_true', not_or, Bool.not_eq_false] at fine
    exact readDigits_eq (List.all_eq_true.mp fine.2) (Nat.zero_le _)

/-- At most so many octal digits behind a number. -/
def readOctal : Nat → UInt32 → List UInt8 → Option (UInt32 × List UInt8)
  | limit + 1, number, byte :: rest =>
      if Escape.isOctalDigit byte then
        (extend 8 number byte).bind fun longer => readOctal limit longer rest
      else some (number, byte :: rest)
  | _, number, rest => some (number, rest)

/-- The fewer digits may follow a number, the larger it may be. -/
theorem readOctal_of_small {limit : Nat} {number : UInt32} (few : limit ≤ 3)
    (small : number.toNat ≤ 511 ∧ (1 ≤ limit → number.toNat ≤ 63) ∧
      (2 ≤ limit → number.toNat ≤ 7) ∧ (3 ≤ limit → number.toNat = 0)) (input : List UInt8) :
    (readOctal limit number input).map (fun read => (read.1.toNat, read.2)) =
      some (Escape.readOctal limit number.toNat input) := by
  induction limit generalizing number input with
  | zero => cases input <;> rfl
  | succ limit ih =>
      cases input with
      | nil => rfl
      | cons byte rest =>
          rw [readOctal, Escape.readOctal]
          split
          · rename_i isOctal
            have digit : 48 ≤ byte.toNat ∧ byte.toNat ≤ 55 := by
              simpa [Escape.isOctalDigit, UInt8.le_iff_toNat_le] using isOctal
            have eight : (8 : UInt32).toNat = 8 := rfl
            obtain ⟨longer, extended, value⟩ :=
              @exists_extend 8 number byte digit.1 (by rw [eight]; omega)
            rw [eight] at value
            rw [extended, Option.bind_some, ← value]
            exact ih (by omega) (by omega) rest
          · rfl

theorem readOctal_eq (input : List UInt8) :
    (readOctal 3 0 input).map (fun read => (read.1.toNat, read.2)) =
      some (Escape.readOctal 3 0 input) :=
  readOctal_of_small (Nat.le_refl 3) (by decide) input

/-! ## Hexadecimal escapes -/

def hexValue? (byte : UInt8) : Option (Option UInt8) :=
  if Ascii.isDigit byte then (subByte byte 48).map some
  else if 97 ≤ byte && byte ≤ 102 then
    (subByte byte 97).bind fun value => (addByte value 10).map some
  else if 65 ≤ byte && byte ≤ 70 then
    (subByte byte 65).bind fun value => (addByte value 10).map some
  else some none

def readHex : List UInt8 → Option (Except CompileError (UInt8 × List UInt8))
  | first :: second :: rest =>
      (hexValue? first).bind fun leading => (hexValue? second).bind fun trailing =>
        match leading, trailing with
        | some high, some low =>
            (mulByte high 16).bind fun shifted =>
              (addByte shifted low).map fun byte => .ok (byte, rest)
        | _, _ => some (.error .illegalToken)
  | _ => some (.error .illegalToken)

theorem hexValue?_eq : ∀ byte : UInt8, hexValue? byte = some (Ascii.hexValue? byte) :=
  Grammar.byte_cases (by decide +kernel)

theorem hexValue?_le {digit value : UInt8} (known : Ascii.hexValue? digit = some value) :
    value.toNat ≤ 15 := by
  have all : ∀ digit : UInt8, ∀ value ∈ Ascii.hexValue? digit, value.toNat ≤ 15 :=
    Grammar.byte_cases (by decide +kernel)
  exact all digit value known

/-- Two hexadecimal digits are no more than a byte. -/
theorem readHex_eq (input : List UInt8) : readHex input = some (Escape.readHex input) := by
  match input with
  | [] | [_] => rfl
  | first :: second :: rest =>
      rw [readHex, Escape.readHex, hexValue?_eq, hexValue?_eq, Option.bind_some, Option.bind_some]
      cases leading : Ascii.hexValue? first with
      | none => rfl
      | some high =>
          cases trailing : Ascii.hexValue? second with
          | none => rfl
          | some low =>
              have small := hexValue?_le leading
              have small' := hexValue?_le trailing
              have sixteen : (16 : UInt8).toNat = 16 := rfl
              have shifted : (high * 16).toNat = high.toNat * 16 := by
                rw [UInt8.toNat_mul, sixteen]
                exact Nat.mod_eq_of_lt (by omega)
              simp only [mulByte, sixteen, if_pos (show high.toNat * 16 < 256 by omega), addByte,
                shifted, if_pos (show high.toNat * 16 + low.toNat < 256 by omega),
                Option.bind_some, Option.map_some]

end ByteRegex.Checked
