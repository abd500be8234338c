import ByteRegex.Bytecode.Instruction
import ByteRegex.Text.ByteEscape

/-!
Code as text, one line per instruction: the address, the name, the operands and the target.
-/

namespace ByteRegex

def ByteClass.name : ByteClass → String
  | digit => "Digit"
  | space => "Space"
  | word => "Word"
  | hex => "Hex"
  | letter => "Letter"
  | punctuation => "Punct"

namespace Listing

def number (number : Nat) : String := " " ++ toString number

def target (address : Nat) : String := " -> " ++ Text.fourDigits address

def byteClass (kind : ByteClass) : String := " Some(" ++ kind.name ++ ")"

def byteTest : ByteTest → String
  | .byte expected | .byteAnyCase expected => " " ++ Text.escapeByte expected
  | .any | .anyButNewline => ""
  | .set members => " [" ++ Text.escapeBytes members.members ++ "]"
  | .inClass kind | .notInClass kind => byteClass kind

def bounds (least : Nat) (most : Option Nat) : String :=
  " \x7b" ++ toString least ++ "," ++ (most.elim "" toString) ++ "\x7d"

/-- What follows the name of an instruction. -/
def operands (code : Code) : Instruction → String
  | .succeed | .subEnd | .fail | .assertion _ => ""
  | .test test => byteTest test
  | .text _ start stop => " \"" ++ Text.escapeBytes (code.extract start stop).toList ++ "\""
  | .openGroup group | .closeGroup group | .backReference _ group => number group.val
  | .jump address | .branch address | .branchReverse address | .atomic address => target address
  | .repetition _ least most => bounds least most
  | .look look width address => (if look.isBehind then number width else "") ++ target address
  | .counterReset counter | .counterIncrement counter => number counter.val
  | .jumpLess counter bound address | .jumpAtLeast counter bound address =>
      number counter.val ++ number bound ++ target address
  | .jumpStuck counter address => number counter.val ++ target address

def line (code : Code) (address : Nat) : String :=
  Text.fourDigits address ++ "  " ++
    (match code.opcode? address, code.instruction? address with
      | some opcode, some (instruction, _) => opcode.name ++ operands code instruction
      | _, _ => "??")

end Listing

/-- The listing of a code, each line with a line end. -/
def Code.listing (code : Code) : String :=
  code.addresses.foldl (fun text address => text ++ Listing.line code address ++ "\n") ""

end ByteRegex
