/-!
The instruction set. An instruction is an opcode byte, then operands of two bytes each, then for
some opcodes a payload: `set` has a bitmap of 32 bytes, and the two strings have as many literal
bytes as their operand says.
-/

namespace ByteRegex

inductive Opcode where
  /-- The end of the program: the attempt matched. -/
  | succeed
  /-- The end of a lookaround or of an atomic group. -/
  | subEnd
  /-- Never matches. -/
  | fail
  | char
  | charNoCase
  | str
  | strNoCase
  | any
  | anyNoNewline
  | set
  | inClass
  | notInClass
  | lineBegin
  | lineEnd
  | textBegin
  | textEnd
  | wordBoundary
  | notWordBoundary
  | wordBegin
  | wordEnd
  | openGroup
  | closeGroup
  | backRef
  | backRefNoCase
  | jump
  /-- Tries the code that follows, then the target. -/
  | branch
  /-- Tries the target, then the code that follows. -/
  | branchRev
  | repeatGreedy
  | repeatLazy
  | repeatPossessive
  | lookAhead
  | negLookAhead
  | lookBehind
  | negLookBehind
  | atomic
  | counterReset
  | counterInc
  /-- Jumps while the count is below a bound. -/
  | jumpLess
  /-- Jumps once the count has reached a bound. -/
  | jumpAtLeast
  /-- Jumps if the current iteration has consumed nothing. -/
  | jumpStuck
deriving DecidableEq, Repr

namespace Opcode

def all : Array Opcode := #[
  succeed, subEnd, fail, char, charNoCase, str, strNoCase, any, anyNoNewline, set, inClass,
  notInClass, lineBegin, lineEnd, textBegin, textEnd, wordBoundary, notWordBoundary, wordBegin,
  wordEnd, openGroup, closeGroup, backRef, backRefNoCase, jump, branch, branchRev, repeatGreedy,
  repeatLazy, repeatPossessive, lookAhead, negLookAhead, lookBehind, negLookBehind, atomic,
  counterReset, counterInc, jumpLess, jumpAtLeast, jumpStuck]

/-- The byte of an opcode is its place in `all`. -/
def toByte (opcode : Opcode) : UInt8 := UInt8.ofNat opcode.ctorIdx

def ofByte? (byte : UInt8) : Option Opcode := all[byte.toNat]?

@[simp] theorem ofByte?_toByte (opcode : Opcode) : ofByte? opcode.toByte = some opcode := by
  cases opcode <;> rfl

theorem toByte_of_ofByte? {byte : UInt8} {opcode : Opcode} (read : ofByte? byte = some opcode) :
    opcode.toByte = byte := by
  have inside : byte.toNat < 40 := by
    obtain ⟨bound, _⟩ := Array.getElem?_eq_some_iff.mp read
    exact bound
  have every : ∀ index : Fin 40, ∀ found, all[index.val]? = some found →
      found.toByte = UInt8.ofNat index.val := by decide
  have same := every ⟨byte.toNat, inside⟩ opcode read
  simpa using same

def name : Opcode → String
  | succeed => "Succeed"
  | subEnd => "SubEnd"
  | fail => "Fail"
  | char => "Char"
  | charNoCase => "CharNoCase"
  | str => "Str"
  | strNoCase => "StrNoCase"
  | any => "Any"
  | anyNoNewline => "AnyNoNewline"
  | set => "Set"
  | inClass => "Class"
  | notInClass => "NotClass"
  | lineBegin => "LineBegin"
  | lineEnd => "LineEnd"
  | textBegin => "TextBegin"
  | textEnd => "TextEnd"
  | wordBoundary => "WordBoundary"
  | notWordBoundary => "NotWordBoundary"
  | wordBegin => "WordBegin"
  | wordEnd => "WordEnd"
  | openGroup => "Open"
  | closeGroup => "Close"
  | backRef => "BackRef"
  | backRefNoCase => "BackRefNoCase"
  | jump => "Jump"
  | branch => "Branch"
  | branchRev => "BranchRev"
  | repeatGreedy => "Repeat"
  | repeatLazy => "RepeatLazy"
  | repeatPossessive => "RepeatPossessive"
  | lookAhead => "LookAhead"
  | negLookAhead => "NegLookAhead"
  | lookBehind => "LookBehind"
  | negLookBehind => "NegLookBehind"
  | atomic => "Atomic"
  | counterReset => "CounterReset"
  | counterInc => "CounterInc"
  | jumpLess => "JumpLess"
  | jumpAtLeast => "JumpAtLeast"
  | jumpStuck => "JumpStuck"

/-- The number of operands, the length of a string included. -/
def operandCount : Opcode → Nat
  | succeed | subEnd | fail | any | anyNoNewline | set | lineBegin | lineEnd | textBegin | textEnd
  | wordBoundary | notWordBoundary | wordBegin | wordEnd => 0
  | char | charNoCase | str | strNoCase | inClass | notInClass | openGroup | closeGroup | backRef
  | backRefNoCase | jump | branch | branchRev | lookAhead | negLookAhead | atomic | counterReset
  | counterInc => 1
  | repeatGreedy | repeatLazy | repeatPossessive | lookBehind | negLookBehind | jumpStuck => 2
  | jumpLess | jumpAtLeast => 3

/-- Whether the last operand is the distance of a jump. -/
def hasTarget : Opcode → Bool
  | jump | branch | branchRev | lookAhead | negLookAhead | lookBehind | negLookBehind | atomic
  | jumpLess | jumpAtLeast | jumpStuck => true
  | _ => false

/-- Whether the instruction consumes exactly one byte, so that a repeat may stand before it. -/
def isSingle : Opcode → Bool
  | char | charNoCase | any | anyNoNewline | set | inClass | notInClass => true
  | _ => false

/-- The size of the instruction without the literal bytes of a string. -/
def fixedSize (opcode : Opcode) : Nat :=
  1 + 2 * opcode.operandCount + if opcode = set then 32 else 0

theorem fixedSize_pos (opcode : Opcode) : 0 < opcode.fixedSize := by
  unfold fixedSize
  omega

end Opcode

end ByteRegex
