import ByteRegex.Unicode.Alphabetic
import ByteRegex.Unicode.Numeric
import ByteRegex.Unicode.WhiteSpace

/-!
A coarse classification of code points, and the code points that may stand in an identifier.
-/

namespace ByteRegex.Unicode

inductive Category where
  | letter
  | number
  | punctuation
  | separator
  | control
  | symbol
deriving DecidableEq, Repr

def isControl (char : Char) : Bool :=
  char.toNat < 0x20 || (0x7f ≤ char.toNat && char.toNat ≤ 0x9f)

def isAsciiPunctuation (char : Char) : Bool :=
  (0x21 ≤ char.toNat && char.toNat ≤ 0x2f) || (0x3a ≤ char.toNat && char.toNat ≤ 0x40)
    || (0x5b ≤ char.toNat && char.toNat ≤ 0x60) || (0x7b ≤ char.toNat && char.toNat ≤ 0x7e)

/-- Dashes, quotes, the ideographic comma and stops, and the two inverted marks. -/
def isGeneralPunctuation (char : Char) : Bool :=
  (0x2010 ≤ char.toNat && char.toNat ≤ 0x2027) || (0x2030 ≤ char.toNat && char.toNat ≤ 0x205e)
    || (0x3001 ≤ char.toNat && char.toNat ≤ 0x3003) || char.toNat = 0xa1 || char.toNat = 0xbf

/-- The first property that holds decides; what has none of them is a symbol. -/
def Category.ofChar (char : Char) : Category :=
  if alphabetic.contains char then letter
  else if numeric.contains char then number
  else if isControl char then control
  else if whiteSpace.contains char then separator
  else if isAsciiPunctuation char || isGeneralPunctuation char then punctuation
  else symbol

def isIdentifier (char : Char) : Bool :=
  char = '_' || Category.ofChar char = .letter || Category.ofChar char = .number

end ByteRegex.Unicode
