import ByteRegex.Ascii
import ByteRegex.CompileError

/-!
Escapes that stand for one byte. They are read after the backslash and its letter.
-/

namespace ByteRegex.Escape

def isOctalDigit (byte : UInt8) : Bool := 48 ≤ byte && byte ≤ 55

/-- Reads at most `limit` octal digits that continue a number. -/
def readOctal : Nat → Nat → List UInt8 → Nat × List UInt8
  | limit + 1, number, byte :: rest =>
      if isOctalDigit byte then readOctal limit (8 * number + (byte.toNat - 48)) rest
      else (number, byte :: rest)
  | _, number, rest => (number, rest)

/-- Two hexadecimal digits. -/
def readHex : List UInt8 → Except CompileError (UInt8 × List UInt8)
  | first :: second :: rest =>
      match Ascii.hexValue? first, Ascii.hexValue? second with
      | some high, some low => .ok (high * 16 + low, rest)
      | _, _ => .error .illegalToken
  | _ => .error .illegalToken

/-- The letter of a control character. -/
def readControl : List UInt8 → Except CompileError (UInt8 × List UInt8)
  | letter :: rest =>
      if Ascii.isLetter letter then .ok (letter &&& 0x1f, rest) else .error .illegalToken
  | [] => .error .illegalToken

/-- The bytes that a letter after the backslash names by itself. A set has no word boundaries, so
`b` is the backspace there. -/
def named? (inSet : Bool) (letter : UInt8) : Option UInt8 :=
  if letter = 'n'.toUInt8 then some 0x0a
  else if letter = 'r'.toUInt8 then some 0x0d
  else if letter = 't'.toUInt8 then some 0x09
  else if letter = 'f'.toUInt8 then some 0x0c
  else if letter = 'v'.toUInt8 then some 0x0b
  else if letter = 'e'.toUInt8 then some 0x1b
  else if letter = 'a'.toUInt8 then some 0x07
  else if inSet && letter = 'b'.toUInt8 then some 0x08
  else none

/-- The byte of an escape and the pattern after it. A byte that is neither a letter nor a digit
stands for itself. -/
def readByte (inSet : Bool) (letter : UInt8) (rest : List UInt8) :
    Except CompileError (UInt8 × List UInt8) :=
  match named? inSet letter with
  | some byte => .ok (byte, rest)
  | none =>
      if letter = '0'.toUInt8 then
        let (number, rest) := readOctal 3 0 rest
        if number ≤ 255 then .ok (UInt8.ofNat number, rest) else .error .illegalToken
      else if letter = 'x'.toUInt8 then readHex rest
      else if letter = 'c'.toUInt8 then readControl rest
      else if Ascii.isAlphanumeric letter then .error .illegalToken
      else .ok (letter, rest)

theorem readOctal_length (limit number : Nat) (rest : List UInt8) :
    (readOctal limit number rest).2.length ≤ rest.length := by
  induction limit generalizing number rest with
  | zero => simp [readOctal]
  | succ limit ih =>
      cases rest with
      | nil => simp [readOctal]
      | cons byte rest =>
          simp only [readOctal]
          split
          · exact Nat.le_succ_of_le (ih _ _)
          · exact Nat.le_refl _

theorem readByte_length {inSet : Bool} {letter byte : UInt8} {rest after : List UInt8}
    (read : readByte inSet letter rest = .ok (byte, after)) : after.length ≤ rest.length := by
  unfold readByte at read
  split at read
  · cases read
    exact Nat.le_refl _
  · split at read
    · have shorter := readOctal_length 3 0 rest
      dsimp only at read
      split at read
      · cases read
        exact shorter
      · contradiction
    · split at read
      · unfold readHex at read
        split at read
        · split at read
          · cases read
            simp only [List.length_cons]
            omega
          · contradiction
        · contradiction
      · split at read
        · unfold readControl at read
          split at read
          · split at read
            · cases read
              simp
            · contradiction
          · contradiction
        · split at read
          · contradiction
          · cases read
            exact Nat.le_refl _

end ByteRegex.Escape
