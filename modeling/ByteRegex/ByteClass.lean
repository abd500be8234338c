import ByteRegex.Ascii
import ByteRegex.Unicode.Category
import ByteRegex.Unicode.Utf8

/-!
The predefined classes of bytes. They are ASCII classes, except that the word class looks at the
UTF-8 sequence around a byte, so that letters and digits of every script belong to words.
-/

namespace ByteRegex

/-- An ASCII byte is judged alone and every other byte by the character it is part of. Bytes that
are part of no character are outside words. -/
def isWordAt (subject : Array UInt8) (position : Nat) : Bool :=
  match subject[position]? with
  | none => false
  | some byte =>
      if Ascii.isAscii byte then Ascii.isWord byte
      else (Unicode.Utf8.charAround? subject position).any Unicode.isIdentifier

inductive ByteClass where
  | digit
  | space
  | word
  | hex
  | letter
  | punctuation
deriving DecidableEq, Repr

namespace ByteClass

/-- The class that a lowercase escape letter names. -/
def ofEscapeLetter? (letter : UInt8) : Option ByteClass :=
  if letter = 'd'.toUInt8 then some digit
  else if letter = 's'.toUInt8 then some space
  else if letter = 'w'.toUInt8 then some word
  else if letter = 'h'.toUInt8 then some hex
  else if letter = 'l'.toUInt8 then some ByteClass.letter
  else if letter = 'p'.toUInt8 then some punctuation
  else none

/-- The number that stands for the class in bytecode. -/
def toByte : ByteClass → UInt8
  | digit => 0
  | space => 1
  | word => 2
  | hex => 3
  | letter => 4
  | punctuation => 5

def ofByte? (byte : UInt8) : Option ByteClass :=
  if byte = 0 then some digit
  else if byte = 1 then some space
  else if byte = 2 then some word
  else if byte = 3 then some hex
  else if byte = 4 then some letter
  else if byte = 5 then some punctuation
  else none

theorem ofByte?_toByte (kind : ByteClass) : ofByte? kind.toByte = some kind := by
  cases kind <;> rfl

/-- Membership of a byte without its surroundings: every byte that is not ASCII counts as a part of
a word. -/
def contains : ByteClass → UInt8 → Bool
  | digit, byte => Ascii.isDigit byte
  | space, byte => Ascii.isSpace byte
  | word, byte => Ascii.isWord byte || !Ascii.isAscii byte
  | hex, byte => Ascii.isHexDigit byte
  | letter, byte => Ascii.isLetter byte
  | punctuation, byte => Ascii.isPunctuation byte

def matchesAt (kind : ByteClass) (subject : Array UInt8) (position : Nat) : Bool :=
  match kind with
  | word => isWordAt subject position
  | _ => subject[position]?.any kind.contains

end ByteClass

end ByteRegex
