import ByteRegex.Bytecode.Opcode

/-!
Operands as bytes, and reading code by address. An operand is a signed 16-bit number, low byte
first. A jump's distance counts from the end of its own instruction, so code may be laid in front
of a finished fragment without changing the distances inside it.
-/

namespace ByteRegex

namespace Operand

def toBytes (operand : Int16) : List UInt8 :=
  let word := operand.toUInt16.toNat
  [UInt8.ofNat (word % 256), UInt8.ofNat (word / 256)]

def ofBytes (low high : UInt8) : Int16 := (UInt16.ofNat (low.toNat + 256 * high.toNat)).toInt16

@[simp] theorem length_toBytes (operand : Int16) : (toBytes operand).length = 2 := rfl

theorem ofBytes_toBytes (operand : Int16) :
    ofBytes (UInt8.ofNat (operand.toUInt16.toNat % 256))
      (UInt8.ofNat (operand.toUInt16.toNat / 256)) = operand := by
  have small : operand.toUInt16.toNat < 65536 := operand.toUInt16.toNat_lt
  have low : (UInt8.ofNat (operand.toUInt16.toNat % 256)).toNat
      = operand.toUInt16.toNat % 256 :=
    UInt8.toNat_ofNat_of_lt' (Nat.mod_lt _ (by decide))
  have high : (UInt8.ofNat (operand.toUInt16.toNat / 256)).toNat
      = operand.toUInt16.toNat / 256 :=
    UInt8.toNat_ofNat_of_lt' (by show _ < 256; omega)
  rw [ofBytes, low, high, Nat.mod_add_div, UInt16.ofNat_toNat]
  rfl

/-- The operand read without a sign. -/
def toNat (operand : Int16) : Nat := operand.toUInt16.toNat

def lowByte (operand : Int16) : UInt8 := UInt8.ofNat (toNat operand % 256)

/-- The maximum that stands for a repeat without one. -/
def unbounded : Int16 := -1

end Operand

/-- The bytes of an instruction with these operands and no payload. -/
def Opcode.encode (opcode : Opcode) (operands : List Int16) : List UInt8 :=
  opcode.toByte :: operands.flatMap Operand.toBytes

theorem Opcode.length_encode (opcode : Opcode) (operands : List Int16) :
    (opcode.encode operands).length = 1 + 2 * operands.length := by
  have twice : (operands.flatMap Operand.toBytes).length = 2 * operands.length := by
    induction operands with
    | nil => rfl
    | cons operand rest ih =>
        rw [List.flatMap_cons, List.length_append, ih, Operand.length_toBytes, List.length_cons]
        omega
  rw [encode, List.length_cons, twice, Nat.add_comm]

abbrev Code := Array UInt8

namespace Code

/-- Operand `index` of the instruction at an address, unless it reaches past the end of the code. -/
def operand? (code : Code) (address index : Nat) : Option Int16 :=
  match code[address + 1 + 2 * index]?, code[address + 2 + 2 * index]? with
  | some low, some high => some (Operand.ofBytes low high)
  | _, _ => none

def opcode? (code : Code) (address : Nat) : Option Opcode :=
  code[address]?.bind Opcode.ofByte?

/-- The size of the instruction at an address, literal bytes included. A byte that is no opcode
counts as an instruction of its own. -/
def instructionLength? (code : Code) (address : Nat) : Option Nat :=
  code[address]?.bind fun byte =>
    match Opcode.ofByte? byte with
    | none => some 1
    | some opcode =>
        if opcode = .str || opcode = .strNoCase then
          (code.operand? address 0).map fun length => opcode.fixedSize + Operand.toNat length
        else some opcode.fixedSize

/-- Where the instruction at an address jumps to. The target can lie before the code. -/
def jumpTarget? (code : Code) (address : Nat) (opcode : Opcode) : Option Int :=
  (code.operand? address (opcode.operandCount - 1)).map fun distance =>
    Int.ofNat (address + opcode.fixedSize) + distance.toInt

theorem instructionLength?_pos {code : Code} {address length : Nat}
    (read : code.instructionLength? address = some length) : 0 < length := by
  unfold instructionLength? at read
  obtain ⟨byte, _, found⟩ := Option.bind_eq_some_iff.mp read
  split at found
  · cases found
    exact Nat.one_pos
  · rename_i opcode _
    have positive := opcode.fixedSize_pos
    split at found
    · obtain ⟨operand, _, same⟩ := Option.map_eq_some_iff.mp found
      omega
    · cases found
      exact positive

/-- Walks over whole instructions from an address to the end of the code and adds their addresses
to those already met. -/
def addressesFrom (code : Code) (address : Nat) (met : Array Nat) : Array Nat :=
  if address < code.size then
    match _found : code.instructionLength? address with
    | none => met.push address
    | some length => addressesFrom code (address + length) (met.push address)
  else met
termination_by code.size - address
decreasing_by
  have := instructionLength?_pos _found
  omega

theorem addressesFrom_of_length {code : Code} {address length : Nat} (inside : address < code.size)
    (measured : code.instructionLength? address = some length) (met : Array Nat) :
    code.addressesFrom address met = code.addressesFrom (address + length) (met.push address) := by
  rw [addressesFrom, if_pos inside]
  split
  · rename_i missing
    rw [measured] at missing
    cases missing
  · rename_i other known
    rw [measured] at known
    cases known
    rfl

/-- The addresses of the instructions, in order. -/
def addresses (code : Code) : List Nat := (code.addressesFrom 0 #[]).toList

end Code

end ByteRegex
