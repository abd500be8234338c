import ByteRegex.ByteClass
import ByteRegex.ByteSet

/-!
Tests that consume exactly one byte of the subject.
-/

namespace ByteRegex

inductive ByteTest where
  | byte (expected : UInt8)
  /-- A letter of either case; the expected byte is lowercase. -/
  | byteAnyCase (expected : UInt8)
  | any
  | anyButNewline
  | set (members : ByteSet)
  | inClass (kind : ByteClass)
  | notInClass (kind : ByteClass)
deriving DecidableEq

namespace ByteTest

/-- The test for one literal byte. Only letters have a case to disregard. -/
def ofLiteral (caseless : Bool) (expected : UInt8) : ByteTest :=
  if caseless && Ascii.isLetter expected then byteAnyCase (Ascii.toLower expected)
  else byte expected

/-- Whether the byte at a position passes. Past the end of the subject nothing does. -/
def holdsAt (test : ByteTest) (subject : Array UInt8) (position : Nat) : Bool :=
  match subject[position]? with
  | none => false
  | some found =>
      match test with
      | byte expected => found = expected
      | byteAnyCase expected => Ascii.toLower found = expected
      | any => true
      | anyButNewline => found ≠ Ascii.newline
      | set members => members.contains found
      | inClass kind => kind.matchesAt subject position
      | notInClass kind => !kind.matchesAt subject position

end ByteTest

end ByteRegex
