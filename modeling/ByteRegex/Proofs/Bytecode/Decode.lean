import ByteRegex.Assembly.Emit
import ByteRegex.Proofs.Bytecode.Line
import ByteRegex.Proofs.Syntax.WellFormed

/-!
# Decoding lines

The instruction that is read where a line stands.
-/

namespace ByteRegex

namespace Operand

theorem toNat_ofNat {number : Nat} (small : number < 65536) : toNat (Int16.ofNat number) = number := by
  have cast : (Int16.ofNat number).toUInt16 = UInt16.ofNat number := rfl
  rw [toNat, cast]
  exact UInt16.toNat_ofNat_of_lt' small

theorem lowByte_ofNat (byte : UInt8) : lowByte (Int16.ofNat byte.toNat) = byte := by
  have small := byte.toNat_lt
  rw [lowByte, toNat_ofNat (by omega), Nat.mod_eq_of_lt (by omega)]
  exact UInt8.ofNat_toNat

theorem unbounded_ne_ofNat {number : Nat} (small : number ≤ Capacity.bound) :
    Int16.ofNat number ≠ unbounded := by
  intro same
  have numbers := congrArg toNat same
  rw [toNat_ofNat (by simp only [Capacity.bound] at small; omega)] at numbers
  rw [numbers] at small
  exact absurd small (by decide)

end Operand

/-- The line of a test. -/
def ByteTest.line : ByteTest → Line
  | .byte expected => .plain .char [Int16.ofNat expected.toNat]
  | .byteAnyCase expected => .plain .charNoCase [Int16.ofNat expected.toNat]
  | .any => .plain .any []
  | .anyButNewline => .plain .anyNoNewline []
  | .set members => ⟨.set, [], members.bitmap.toList⟩
  | .inClass kind => .plain .inClass [Int16.ofNat kind.toByte.toNat]
  | .notInClass kind => .plain .notInClass [Int16.ofNat kind.toByte.toNat]

theorem ByteTest.encode_line (test : ByteTest) : test.line.encode = test.encode := by
  cases test <;> simp [line, encode, Line.plain, Line.encode]

/-- The line of a literal that one instruction can hold. -/
def literalLine (caseless : Bool) : List UInt8 → Line
  | [byte] => (ByteTest.ofLiteral caseless byte).line
  | bytes =>
      if caseless then ⟨.strNoCase, [Int16.ofNat bytes.length], bytes.map Ascii.toLower⟩
      else ⟨.str, [Int16.ofNat bytes.length], bytes⟩

theorem literalLine_encode (caseless : Bool) (bytes : List UInt8) :
    (literalLine caseless bytes).encode = literalCode caseless bytes := by
  match bytes with
  | [byte] => exact ByteTest.encode_line _
  | [] | first :: second :: rest => cases caseless <;> rfl

def repetitionLine (quantifier : Quantifier) : Line :=
  .plain quantifier.greed.repeatOpcode
    [Int16.ofNat quantifier.least,
      match quantifier.most with
      | some most => Int16.ofNat most
      | none => Operand.unbounded]

namespace Code

variable {code : Code} {address : Nat} {line : Line} {opcode : Opcode}

theorem instruction?_of_decode? {instruction : Instruction}
    (read : code.opcode? address = some opcode)
    (decoded : code.decode? address opcode = some instruction)
    (short : ∀ caseless start stop, instruction ≠ .text caseless start stop) :
    code.instruction? address = some (instruction, address + opcode.fixedSize) := by
  rw [instruction?, read]
  dsimp only
  rw [decoded]
  cases instruction with
  | text caseless start stop => exact absurd rfl (short caseless start stop)
  | _ => rfl

theorem decode?_of_instruction? {next : Nat} {instruction : Instruction}
    (read : code.instruction? address = some (instruction, next))
    (known : code.opcode? address = some opcode) : code.decode? address opcode = some instruction := by
  unfold instruction? at read
  rw [known] at read
  dsimp only at read
  split at read
  · cases read
  · rename_i found decoded
    rw [decoded]
    split at read <;> cases read <;> rfl

theorem number?_of_has (held : code.Has address line.encode) {index : Nat} {operand : Int16}
    (given : line.operands[index]? = some operand) :
    code.number? address index = some (Operand.toNat operand) := by
  obtain ⟨inside, _⟩ := List.getElem?_eq_some_iff.mp given
  simp only [number?, operand?_of_has held inside, given, Option.map_some]

theorem byte?_of_has (held : code.Has address line.encode) {index : Nat} {byte : UInt8}
    (given : line.operands[index]? = some (Int16.ofNat byte.toNat)) :
    code.byte? address index = some byte := by
  obtain ⟨inside, _⟩ := List.getElem?_eq_some_iff.mp given
  rw [byte?, operand?_of_has held inside, given, Option.map_some, Operand.lowByte_ofNat]

theorem register?_of_has (held : code.Has address line.encode) {index number count : Nat}
    (given : line.operands[index]? = some (Int16.ofNat number)) (small : number < count)
    (few : count ≤ 65536) : code.register? count address index = some ⟨number, small⟩ := by
  simp only [register?, number?_of_has held given, Operand.toNat_ofNat (show number < 65536 by omega),
    Option.bind_some, dif_pos small]

theorem target?_of_has (held : code.Has address line.encode) {distance : Int16} {target : Nat}
    (given : line.operands[opcode.operandCount - 1]? = some distance)
    (reaches : Int.ofNat (address + opcode.fixedSize) + distance.toInt = Int.ofNat target) :
    code.target? address opcode = some target := by
  obtain ⟨inside, _⟩ := List.getElem?_eq_some_iff.mp given
  rw [target?_eq_some_iff, jumpTarget?, operand?_of_has held inside, given, Option.map_some, reaches]

theorem byteClass?_of_has (held : code.Has address line.encode) {kind : ByteClass}
    (given : line.operands[0]? = some (Int16.ofNat kind.toByte.toNat)) :
    code.byteClass? address = some kind := by
  rw [byteClass?, byte?_of_has held given]
  exact ByteClass.ofByte?_toByte kind

theorem extract_of_has {start : Nat} {bytes : List UInt8} (held : code.Has start bytes)
    (bound : start + bytes.length ≤ code.size) :
    code.extract start (start + bytes.length) = bytes.toArray := by
  refine Array.ext_getElem? fun index => ?_
  have listed : bytes.toArray[index]? = bytes[index]? := List.getElem?_toArray
  rw [Array.getElem?_extract, listed]
  by_cases inside : index < bytes.length
  · rw [if_pos (by omega), held index inside]
  · rw [if_neg (by omega), List.getElem?_eq_none (by omega)]

theorem byteSet?_of_has {start : Nat} {members : ByteSet}
    (held : code.Has start members.bitmap.toList) : code.byteSet? start = some members := by
  have length : members.bitmap.toList.length = 32 := members.bitmap.length_toList
  have bound : start + members.bitmap.toList.length ≤ code.size :=
    has_bound held (by intro none; rw [none] at length; cases length)
  have same := extract_of_has held bound
  rw [length] at bound same
  rw [byteSet?, dif_pos bound]
  obtain ⟨⟨bytes, size⟩⟩ := members
  simp only [same, Vector.toList_mk, Array.toArray_toList]

theorem instruction?_test {test : ByteTest} (held : code.Has address test.line.encode) :
    code.instruction? address = some (.test test, address + test.line.encode.length) := by
  have read := opcode?_of_has held
  cases test with
  | byte | byteAnyCase =>
      exact instruction?_of_decode? read (congrArg (Option.map _) (byte?_of_has held rfl)) (by simp)
  | any | anyButNewline => exact instruction?_of_decode? read rfl (by simp)
  | inClass | notInClass =>
      exact instruction?_of_decode? read (congrArg (Option.map _) (byteClass?_of_has held rfl)) (by simp)
  | set members =>
      have payload := byteSet?_of_has (payload_of_has held)
      have size : (ByteTest.set members).line.encode.length = Opcode.set.fixedSize := by
        rw [Line.length_encode]
        exact congrArg (1 + ·) members.bitmap.length_toList
      rw [size]
      exact instruction?_of_decode? read (congrArg (Option.map _) payload) (by simp)

theorem literalLine_of_several {caseless : Bool} {bytes : List UInt8} (several : 2 ≤ bytes.length) :
    literalLine caseless bytes =
      if caseless then ⟨.strNoCase, [Int16.ofNat bytes.length], bytes.map Ascii.toLower⟩
      else ⟨.str, [Int16.ofNat bytes.length], bytes⟩ := by
  match bytes, several with
  | _ :: _ :: _, _ => rfl

theorem instruction?_text {caseless : Bool} {bytes : List UInt8} (several : 2 ≤ bytes.length)
    (short : bytes.length ≤ Capacity.literal)
    (held : code.Has address (literalLine caseless bytes).encode) :
    code.instruction? address =
        some (.text caseless (address + 3) (address + 3 + bytes.length), address + 3 + bytes.length) ∧
      code.Has (address + 3) (if caseless then bytes.map Ascii.toLower else bytes) ∧
      (literalLine caseless bytes).encode.length = 3 + bytes.length := by
  have small : bytes.length < 65536 := by
    simp only [Capacity.literal] at short
    omega
  have read := opcode?_of_has held
  have payload := payload_of_has held
  have size := (literalLine caseless bytes).length_encode
  rw [literalLine_of_several several] at held read payload size ⊢
  have counted : code.number? address 0 = some bytes.length := by
    have number : code.number? address 0 = some (Operand.toNat (Int16.ofNat bytes.length)) :=
      number?_of_has held (by cases caseless <;> rfl)
    rwa [Operand.toNat_ofNat small] at number
  have filled : bytes ≠ [] := by
    intro none
    rw [none] at several
    exact absurd several (by decide)
  cases caseless with
  | true =>
      have inside : address + 3 + (bytes.map Ascii.toLower).length ≤ code.size :=
        has_bound payload (by simpa using filled)
      rw [List.length_map] at inside
      refine ⟨?_, payload, ?_⟩
      · have decoded : code.text? address .strNoCase true =
            some (.text true (address + 3) (address + 3 + bytes.length)) := by
          rw [text?, counted]
          exact if_pos inside
        simp only [if_true] at read
        simp only [instruction?, read, decode?, decoded]
      · simp only [if_true, List.length_map, List.length_cons, List.length_nil] at size ⊢
        omega
  | false =>
      have inside : address + 3 + bytes.length ≤ code.size := has_bound payload filled
      refine ⟨?_, payload, ?_⟩
      · have decoded : code.text? address .str false =
            some (.text false (address + 3) (address + 3 + bytes.length)) := by
          rw [text?, counted]
          exact if_pos inside
        simp only [Bool.false_eq_true, if_false] at read
        simp only [instruction?, read, decode?, decoded]
      · simp only [Bool.false_eq_true, if_false, List.length_cons, List.length_nil] at size ⊢
        omega

theorem instruction?_assertion {condition : Assertion}
    (held : code.Has address (Line.plain condition.opcode []).encode) :
    code.instruction? address = some (.assertion condition, address + 1) := by
  have read := opcode?_of_has held
  cases condition <;> exact instruction?_of_decode? read rfl (by simp)

theorem instruction?_repetition {quantifier : Quantifier} (valid : quantifier.Valid)
    (held : code.Has address (repetitionLine quantifier).encode) :
    code.instruction? address =
      some (.repetition quantifier.greed quantifier.least quantifier.most, address + 5) := by
  have least := number?_of_has held (show _[0]? = some (Int16.ofNat quantifier.least) from rfl)
  have most := operand?_of_has held (show 1 < _ from Nat.lt_succ_self 1)
  have small := valid.least
  simp only [Capacity.bound] at small
  rw [Operand.toNat_ofNat (by omega)] at least
  have decoded : code.repetition? address quantifier.greed =
      some (.repetition quantifier.greed quantifier.least quantifier.most) := by
    rw [repetition?, least, most]
    rcases bounds : quantifier.most with _ | limit
    · simp [repetitionLine, Line.plain, bounds]
    · have fits := (valid.most limit bounds).2.2
      have number := Operand.unbounded_ne_ofNat fits
      simp only [Capacity.bound] at fits
      simp [repetitionLine, Line.plain, bounds, number, Operand.toNat_ofNat (show limit < 65536 by omega)]
  have read := opcode?_of_has held
  rcases greed : quantifier.greed with _ | _ | _ <;>
    rw [greed] at decoded <;>
    simp only [repetitionLine, Line.plain, greed, Greed.repeatOpcode] at read <;>
    exact instruction?_of_decode? read decoded (by simp)

theorem instruction?_openGroup {group : Nat} (small : group < Capacity.slots)
    (held : code.Has address (Line.plain .openGroup [Int16.ofNat group]).encode) :
    code.instruction? address = some (.openGroup ⟨group, small⟩, address + 3) :=
  instruction?_of_decode? (opcode?_of_has held)
    (congrArg (Option.map _) (register?_of_has held rfl small (by decide))) (by simp)

theorem instruction?_closeGroup {group : Nat} (small : group < Capacity.slots)
    (held : code.Has address (Line.plain .closeGroup [Int16.ofNat group]).encode) :
    code.instruction? address = some (.closeGroup ⟨group, small⟩, address + 3) :=
  instruction?_of_decode? (opcode?_of_has held)
    (congrArg (Option.map _) (register?_of_has held rfl small (by decide))) (by simp)

theorem instruction?_backReference {caseless : Bool} {group : Nat} (small : group < Capacity.slots)
    (held : code.Has address
      (Line.plain (if caseless then .backRefNoCase else .backRef) [Int16.ofNat group]).encode) :
    code.instruction? address = some (.backReference caseless ⟨group, small⟩, address + 3) := by
  have operand : code.register? Capacity.slots address 0 = some ⟨group, small⟩ :=
    register?_of_has held rfl small (by decide)
  have read := opcode?_of_has held
  cases caseless <;>
    exact instruction?_of_decode? read (congrArg (Option.map _) operand) (by simp)

theorem instruction?_counterReset {counter : Nat} (small : counter < Capacity.counters)
    (held : code.Has address (Line.plain .counterReset [Int16.ofNat counter]).encode) :
    code.instruction? address = some (.counterReset ⟨counter, small⟩, address + 3) :=
  instruction?_of_decode? (opcode?_of_has held)
    (congrArg (Option.map _) (register?_of_has held rfl small (by decide))) (by simp)

theorem instruction?_counterInc {counter : Nat} (small : counter < Capacity.counters)
    (held : code.Has address (Line.plain .counterInc [Int16.ofNat counter]).encode) :
    code.instruction? address = some (.counterIncrement ⟨counter, small⟩, address + 3) :=
  instruction?_of_decode? (opcode?_of_has held)
    (congrArg (Option.map _) (register?_of_has held rfl small (by decide))) (by simp)

theorem instruction?_succeed (held : code.Has address (Line.plain .succeed []).encode) :
    code.instruction? address = some (.succeed, address + 1) :=
  instruction?_of_decode? (opcode?_of_has held) rfl (by simp)

theorem instruction?_subEnd (held : code.Has address (Line.plain .subEnd []).encode) :
    code.instruction? address = some (.subEnd, address + 1) :=
  instruction?_of_decode? (opcode?_of_has held) rfl (by simp)

/-- Whether an instruction at an address, if it has this opcode and distance, jumps to a target. -/
def Reaches (opcode : Opcode) (address : Nat) (distance : Int16) (target : Nat) : Prop :=
  Int.ofNat (address + opcode.fixedSize) + distance.toInt = Int.ofNat target

section

variable {distance : Int16} {target : Nat}

theorem instruction?_jump (held : code.Has address (Line.plain .jump [distance]).encode)
    (reaches : Reaches .jump address distance target) :
    code.instruction? address = some (.jump target, address + 3) :=
  instruction?_of_decode? (opcode?_of_has held)
    (congrArg (Option.map _) (target?_of_has held rfl reaches)) (by simp)

theorem instruction?_branch (held : code.Has address (Line.plain .branch [distance]).encode)
    (reaches : Reaches .branch address distance target) :
    code.instruction? address = some (.branch target, address + 3) :=
  instruction?_of_decode? (opcode?_of_has held)
    (congrArg (Option.map _) (target?_of_has held rfl reaches)) (by simp)

theorem instruction?_branchRev (held : code.Has address (Line.plain .branchRev [distance]).encode)
    (reaches : Reaches .branchRev address distance target) :
    code.instruction? address = some (.branchReverse target, address + 3) :=
  instruction?_of_decode? (opcode?_of_has held)
    (congrArg (Option.map _) (target?_of_has held rfl reaches)) (by simp)

theorem instruction?_atomic (held : code.Has address (Line.plain .atomic [distance]).encode)
    (reaches : Reaches .atomic address distance target) :
    code.instruction? address = some (.atomic target, address + 3) :=
  instruction?_of_decode? (opcode?_of_has held)
    (congrArg (Option.map _) (target?_of_has held rfl reaches)) (by simp)

theorem instruction?_look {direction : Look} {width : Nat}
    (small : direction.isBehind = true → width ≤ 32767)
    (held : code.Has address (Line.plain direction.opcode
      ((if direction.isBehind then [Int16.ofNat width] else []) ++ [distance])).encode)
    (reaches : Reaches direction.opcode address distance target) :
    code.instruction? address =
      some (.look direction (if direction.isBehind then width else 0) target,
        address + direction.opcode.fixedSize) := by
  have read := opcode?_of_has held
  cases direction with
  | ahead | notAhead =>
      exact instruction?_of_decode? read
        (congrArg (Option.map _) (target?_of_has held rfl reaches)) (by simp)
  | behind | notBehind =>
      have number : code.number? address 0 = some (Operand.toNat (Int16.ofNat width)) :=
        number?_of_has held rfl
      have operand := target?_of_has held rfl reaches
      have fits := small rfl
      rw [Operand.toNat_ofNat (by omega)] at number
      refine instruction?_of_decode? read ?_ (by simp)
      simp only [Look.opcode] at operand ⊢
      simp only [decode?, lookBehind?, number, operand]
      rfl

variable {counter bound : Nat} (small : counter < Capacity.counters)

theorem countedJump?_of_has {make : Fin Capacity.counters → Nat → Nat → Instruction}
    (three : opcode.operandCount = 3) (fits : bound ≤ Capacity.bound)
    (held : code.Has address
      (Line.plain opcode [Int16.ofNat counter, Int16.ofNat bound, distance]).encode)
    (reaches : Reaches opcode address distance target) :
    code.countedJump? address opcode make = some (make ⟨counter, small⟩ bound target) := by
  have register : code.register? Capacity.counters address 0 = some ⟨counter, small⟩ :=
    register?_of_has held rfl small (by decide)
  have number : code.number? address 1 = some (Operand.toNat (Int16.ofNat bound)) :=
    number?_of_has held rfl
  have jumps : code.target? address opcode = some target :=
    target?_of_has held (by rw [three]; rfl) reaches
  rw [Operand.toNat_ofNat (by simp only [Capacity.bound] at fits; omega)] at number
  simp only [countedJump?, register, number, jumps]

theorem instruction?_jumpLess (fits : bound ≤ Capacity.bound)
    (held : code.Has address
      (Line.plain .jumpLess [Int16.ofNat counter, Int16.ofNat bound, distance]).encode)
    (reaches : Reaches .jumpLess address distance target) :
    code.instruction? address = some (.jumpLess ⟨counter, small⟩ bound target, address + 7) :=
  instruction?_of_decode? (opcode?_of_has held) (countedJump?_of_has small rfl fits held reaches)
    (by simp)

theorem instruction?_jumpAtLeast (fits : bound ≤ Capacity.bound)
    (held : code.Has address
      (Line.plain .jumpAtLeast [Int16.ofNat counter, Int16.ofNat bound, distance]).encode)
    (reaches : Reaches .jumpAtLeast address distance target) :
    code.instruction? address = some (.jumpAtLeast ⟨counter, small⟩ bound target, address + 7) :=
  instruction?_of_decode? (opcode?_of_has held) (countedJump?_of_has small rfl fits held reaches)
    (by simp)

theorem instruction?_jumpStuck
    (held : code.Has address (Line.plain .jumpStuck [Int16.ofNat counter, distance]).encode)
    (reaches : Reaches .jumpStuck address distance target) :
    code.instruction? address = some (.jumpStuck ⟨counter, small⟩ target, address + 5) := by
  have register : code.register? Capacity.counters address 0 = some ⟨counter, small⟩ :=
    register?_of_has held rfl small (by decide)
  have jumps : code.target? address .jumpStuck = some target := target?_of_has held rfl reaches
  refine instruction?_of_decode? (opcode?_of_has held) ?_ (by simp)
  simp only [Line.plain, decode?, stuckJump?, register, jumps]

end

end Code

end ByteRegex
