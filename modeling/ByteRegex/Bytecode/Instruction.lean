import ByteRegex.Assertion
import ByteRegex.ByteTest
import ByteRegex.Bytecode.Code
import ByteRegex.Capacity
import ByteRegex.Look
import ByteRegex.Quantifier

/-!
Instructions as the machine executes them: operands are decoded, targets are addresses, and group
and counter numbers are within the registers that a machine has.
-/

namespace ByteRegex

inductive Instruction where
  | succeed
  | subEnd
  | fail
  | test (test : ByteTest)
  /-- The literal bytes are the code from `start` up to `stop`. -/
  | text (caseless : Bool) (start stop : Nat)
  | assertion (assertion : Assertion)
  | openGroup (group : Fin Capacity.slots)
  | closeGroup (group : Fin Capacity.slots)
  | backReference (caseless : Bool) (group : Fin Capacity.slots)
  | jump (target : Nat)
  | branch (target : Nat)
  | branchReverse (target : Nat)
  /-- Repeats the test in the instruction that follows. -/
  | repetition (greed : Greed) (least : Nat) (most : Option Nat)
  | look (look : Look) (width : Nat) (target : Nat)
  | atomic (target : Nat)
  | counterReset (counter : Fin Capacity.counters)
  | counterIncrement (counter : Fin Capacity.counters)
  | jumpLess (counter : Fin Capacity.counters) (bound : Nat) (target : Nat)
  | jumpAtLeast (counter : Fin Capacity.counters) (bound : Nat) (target : Nat)
  | jumpStuck (counter : Fin Capacity.counters) (target : Nat)
deriving DecidableEq

namespace Code

def number? (code : Code) (address index : Nat) : Option Nat :=
  (code.operand? address index).map Operand.toNat

def byte? (code : Code) (address index : Nat) : Option UInt8 :=
  (code.operand? address index).map Operand.lowByte

/-- An operand that names one of `count` registers. -/
def register? (count : Nat) (code : Code) (address index : Nat) : Option (Fin count) :=
  (code.number? address index).bind fun number =>
    if small : number < count then some ⟨number, small⟩ else none

def target? (code : Code) (address : Nat) (opcode : Opcode) : Option Nat :=
  (code.jumpTarget? address opcode).bind fun target =>
    if 0 ≤ target then some target.toNat else none

/-- The bitmap that starts at an address. -/
def byteSet? (code : Code) (start : Nat) : Option ByteSet :=
  if whole : start + 32 ≤ code.size then
    some ⟨⟨code.extract start (start + 32), by rw [Array.size_extract]; omega⟩⟩
  else none

def byteClass? (code : Code) (address : Nat) : Option ByteClass :=
  (code.byte? address 0).bind ByteClass.ofByte?

def text? (code : Code) (address : Nat) (opcode : Opcode) (caseless : Bool) : Option Instruction :=
  (code.number? address 0).bind fun length =>
    let start := address + opcode.fixedSize
    if start + length ≤ code.size then some (.text caseless start (start + length)) else none

def repetition? (code : Code) (address : Nat) (greed : Greed) : Option Instruction :=
  match code.number? address 0, code.operand? address 1 with
  | some least, some most =>
      some (.repetition greed least
        (if most = Operand.unbounded then none else some (Operand.toNat most)))
  | _, _ => none

def lookAhead? (code : Code) (address : Nat) (opcode : Opcode) (look : Look) :
    Option Instruction :=
  (code.target? address opcode).map (Instruction.look look 0)

def lookBehind? (code : Code) (address : Nat) (opcode : Opcode) (look : Look) :
    Option Instruction :=
  match code.number? address 0, code.target? address opcode with
  | some width, some target => some (.look look width target)
  | _, _ => none

def countedJump? (code : Code) (address : Nat) (opcode : Opcode)
    (make : Fin Capacity.counters → Nat → Nat → Instruction) : Option Instruction :=
  match code.register? Capacity.counters address 0, code.number? address 1,
      code.target? address opcode with
  | some counter, some bound, some target => some (make counter bound target)
  | _, _, _ => none

def stuckJump? (code : Code) (address : Nat) (opcode : Opcode) : Option Instruction :=
  match code.register? Capacity.counters address 0, code.target? address opcode with
  | some counter, some target => some (.jumpStuck counter target)
  | _, _ => none

/-- The instruction with this opcode at an address, if all of it lies inside the code. -/
def decode? (code : Code) (address : Nat) (opcode : Opcode) : Option Instruction :=
  match opcode with
  | .succeed => some .succeed
  | .subEnd => some .subEnd
  | .fail => some .fail
  | .char => (code.byte? address 0).map fun byte => .test (.byte byte)
  | .charNoCase => (code.byte? address 0).map fun byte => .test (.byteAnyCase byte)
  | .str => code.text? address opcode false
  | .strNoCase => code.text? address opcode true
  | .any => some (.test .any)
  | .anyNoNewline => some (.test .anyButNewline)
  | .set => (code.byteSet? (address + 1)).map fun members => .test (.set members)
  | .inClass => (code.byteClass? address).map fun kind => .test (.inClass kind)
  | .notInClass => (code.byteClass? address).map fun kind => .test (.notInClass kind)
  | .lineBegin => some (.assertion .lineBegin)
  | .lineEnd => some (.assertion .lineEnd)
  | .textBegin => some (.assertion .textBegin)
  | .textEnd => some (.assertion .textEnd)
  | .wordBoundary => some (.assertion .wordBoundary)
  | .notWordBoundary => some (.assertion .notWordBoundary)
  | .wordBegin => some (.assertion .wordBegin)
  | .wordEnd => some (.assertion .wordEnd)
  | .openGroup => (code.register? Capacity.slots address 0).map .openGroup
  | .closeGroup => (code.register? Capacity.slots address 0).map .closeGroup
  | .backRef => (code.register? Capacity.slots address 0).map (.backReference false)
  | .backRefNoCase => (code.register? Capacity.slots address 0).map (.backReference true)
  | .jump => (code.target? address opcode).map .jump
  | .branch => (code.target? address opcode).map .branch
  | .branchRev => (code.target? address opcode).map .branchReverse
  | .repeatGreedy => code.repetition? address .greedy
  | .repeatLazy => code.repetition? address .lazy
  | .repeatPossessive => code.repetition? address .possessive
  | .lookAhead => code.lookAhead? address opcode .ahead
  | .negLookAhead => code.lookAhead? address opcode .notAhead
  | .lookBehind => code.lookBehind? address opcode .behind
  | .negLookBehind => code.lookBehind? address opcode .notBehind
  | .atomic => (code.target? address opcode).map .atomic
  | .counterReset => (code.register? Capacity.counters address 0).map .counterReset
  | .counterInc => (code.register? Capacity.counters address 0).map .counterIncrement
  | .jumpLess => code.countedJump? address opcode .jumpLess
  | .jumpAtLeast => code.countedJump? address opcode .jumpAtLeast
  | .jumpStuck => code.stuckJump? address opcode

/-- The instruction at an address and the address after it. -/
def instruction? (code : Code) (address : Nat) : Option (Instruction × Nat) :=
  match code.opcode? address with
  | none => none
  | some opcode =>
      match code.decode? address opcode with
      | none => none
      | some instruction =>
          match instruction with
          | .text _ _ stop => some (instruction, stop)
          | _ => some (instruction, address + opcode.fixedSize)

end Code

end ByteRegex
