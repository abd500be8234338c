/-!
Bytes read as ASCII. A byte of 128 or more belongs to none of these classes and has no case.
-/

namespace ByteRegex.Ascii

def isAscii (byte : UInt8) : Bool := byte < 128

def isDigit (byte : UInt8) : Bool := 48 ≤ byte && byte ≤ 57

def isLower (byte : UInt8) : Bool := 97 ≤ byte && byte ≤ 122

def isUpper (byte : UInt8) : Bool := 65 ≤ byte && byte ≤ 90

def isLetter (byte : UInt8) : Bool := isLower byte || isUpper byte

def isAlphanumeric (byte : UInt8) : Bool := isLetter byte || isDigit byte

/-- The space and the five control characters from tab to carriage return. -/
def isSpace (byte : UInt8) : Bool := byte = 32 || (9 ≤ byte && byte ≤ 13)

def isHexDigit (byte : UInt8) : Bool :=
  isDigit byte || (97 ≤ byte && byte ≤ 102) || (65 ≤ byte && byte ≤ 70)

/-- Every printable character except the space, the letters and the digits. -/
def isPunctuation (byte : UInt8) : Bool := 33 ≤ byte && byte ≤ 126 && !isAlphanumeric byte

/-- Letters, digits and the underscore. -/
def isWord (byte : UInt8) : Bool := isAlphanumeric byte || byte = 95

def toLower (byte : UInt8) : UInt8 := if isUpper byte then byte + 32 else byte

def toUpper (byte : UInt8) : UInt8 := if isLower byte then byte - 32 else byte

/-- The value of a hexadecimal digit of either case. -/
def hexValue? (byte : UInt8) : Option UInt8 :=
  if isDigit byte then some (byte - 48)
  else if 97 ≤ byte && byte ≤ 102 then some (byte - 87)
  else if 65 ≤ byte && byte ≤ 70 then some (byte - 55)
  else none

def newline : UInt8 := 10

end ByteRegex.Ascii
