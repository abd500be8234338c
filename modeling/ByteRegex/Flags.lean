/-!
Flags choose which instructions a pattern is compiled to. They never change the bytecode format.
-/

namespace ByteRegex

structure Flags where
  /-- Letters match regardless of ASCII case. -/
  caseless : Bool
  /-- `^` and `$` hold at line boundaries, and `.` and negated sets skip the newline. -/
  newline : Bool
  /-- Plain parentheses capture. -/
  capturing : Bool
  /-- The whole pattern is a literal. -/
  verbatim : Bool
  /-- A match consumes at least one byte. -/
  notEmpty : Bool
deriving DecidableEq, Repr

namespace Flags

def none : Flags := ⟨false, false, false, false, false⟩

def default : Flags := { none with capturing := true }

instance : Inhabited Flags := ⟨default⟩

/-- One bit per flag, lowest first; bits above the fifth are dropped. -/
def ofBits (bits : Nat) : Flags where
  caseless := bits.testBit 0
  newline := bits.testBit 1
  capturing := bits.testBit 2
  verbatim := bits.testBit 3
  notEmpty := bits.testBit 4

def bits (flags : Flags) : Nat :=
  flags.caseless.toNat + 2 * flags.newline.toNat + 4 * flags.capturing.toNat
    + 8 * flags.verbatim.toNat + 16 * flags.notEmpty.toNat

theorem ofBits_bits (flags : Flags) : ofBits flags.bits = flags := by
  obtain ⟨caseless, newline, capturing, verbatim, notEmpty⟩ := flags
  cases caseless <;> cases newline <;> cases capturing <;> cases verbatim <;> cases notEmpty <;> rfl

def union (left right : Flags) : Flags where
  caseless := left.caseless || right.caseless
  newline := left.newline || right.newline
  capturing := left.capturing || right.capturing
  verbatim := left.verbatim || right.verbatim
  notEmpty := left.notEmpty || right.notEmpty

def difference (left right : Flags) : Flags where
  caseless := left.caseless && !right.caseless
  newline := left.newline && !right.newline
  capturing := left.capturing && !right.capturing
  verbatim := left.verbatim && !right.verbatim
  notEmpty := left.notEmpty && !right.notEmpty

/-- The flag that a letter stands for in a group header such as `(?i:…)`. -/
def ofInlineLetter? (letter : UInt8) : Option Flags :=
  if letter = 'i'.toUInt8 then some { none with caseless := true }
  else if letter = 'n'.toUInt8 then some { none with newline := true }
  else Option.none

end Flags

end ByteRegex
