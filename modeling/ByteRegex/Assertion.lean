import ByteRegex.ByteClass

/-!
Tests of a position alone. They consume nothing.
-/

namespace ByteRegex

inductive Assertion where
  | lineBegin
  | lineEnd
  | textBegin
  | textEnd
  | wordBoundary
  | notWordBoundary
  | wordBegin
  | wordEnd
deriving DecidableEq, Repr

def isWordBefore (subject : Array UInt8) (position : Nat) : Bool :=
  0 < position && isWordAt subject (position - 1)

namespace Assertion

def holdsAt (assertion : Assertion) (subject : Array UInt8) (position : Nat) : Bool :=
  match assertion with
  | lineBegin => position = 0 || subject[position - 1]? = some Ascii.newline
  | lineEnd => position = subject.size || subject[position]? = some Ascii.newline
  | textBegin => position = 0
  | textEnd => position = subject.size
  | wordBoundary => isWordBefore subject position != isWordAt subject position
  | notWordBoundary => isWordBefore subject position == isWordAt subject position
  | wordBegin => !isWordBefore subject position && isWordAt subject position
  | wordEnd => isWordBefore subject position && !isWordAt subject position

end Assertion

end ByteRegex
