/-!
Numbers as text.
-/

namespace ByteRegex.Text

/-- Lowercase hexadecimal digits, without leading zeros. -/
def hexDigits (number : Nat) : String := String.ofList (Nat.toDigits 16 number)

/-- A byte as two lowercase hexadecimal digits. -/
def hexByte (byte : UInt8) : String :=
  String.ofList [Nat.digitChar (byte.toNat / 16), Nat.digitChar (byte.toNat % 16)]

/-- At least four decimal digits. -/
def fourDigits (number : Nat) : String :=
  let digits := Nat.toDigits 10 number
  String.ofList (List.replicate (4 - digits.length) '0' ++ digits)

end ByteRegex.Text
