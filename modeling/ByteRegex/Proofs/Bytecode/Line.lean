import ByteRegex.Bytecode.Instruction

/-!
# Lines

Code as a list of lines. A line is an instruction as it is written down: an opcode, operands and a
payload. Nothing in a line depends on where it stands, so a fragment of lines can be moved, and what
is read at an address is what the line there says.
-/

namespace ByteRegex

structure Line where
  opcode : Opcode
  operands : List Int16
  payload : List UInt8
deriving DecidableEq

/-- The code has these bytes from an address on. -/
def Code.Has (code : Code) (start : Nat) (bytes : List UInt8) : Prop :=
  ∀ index, index < bytes.length → code[start + index]? = bytes[index]?

namespace Line

/-- A line without payload. -/
def plain (opcode : Opcode) (operands : List Int16) : Line := ⟨opcode, operands, []⟩

def encode (line : Line) : List UInt8 := line.opcode.encode line.operands ++ line.payload

def encodeAll (lines : List Line) : List UInt8 := lines.flatMap encode

/-- The number of bytes of a fragment. -/
def extent (lines : List Line) : Nat := (encodeAll lines).length

theorem length_encode (line : Line) :
    line.encode.length = 1 + 2 * line.operands.length + line.payload.length := by
  rw [encode, List.length_append, Opcode.length_encode]

theorem length_encode_pos (line : Line) : 0 < line.encode.length := by
  rw [length_encode]
  omega

theorem encodeAll_append (front back : List Line) :
    encodeAll (front ++ back) = encodeAll front ++ encodeAll back := List.flatMap_append

theorem encodeAll_cons (line : Line) (rest : List Line) :
    encodeAll (line :: rest) = line.encode ++ encodeAll rest := List.flatMap_cons

theorem extent_append (front back : List Line) :
    extent (front ++ back) = extent front + extent back := by
  rw [extent, encodeAll_append, List.length_append]
  rfl

theorem extent_cons (line : Line) (rest : List Line) :
    extent (line :: rest) = line.encode.length + extent rest := by
  rw [extent, encodeAll_cons, List.length_append]
  rfl

theorem encodeAll_singleton (line : Line) : encodeAll [line] = line.encode :=
  List.flatMap_singleton _ _

theorem extent_singleton (line : Line) : extent [line] = line.encode.length :=
  congrArg List.length (encodeAll_singleton line)

theorem length_plain (opcode : Opcode) (operands : List Int16) :
    (plain opcode operands).encode.length = 1 + 2 * operands.length := by
  simp only [length_encode, plain, List.length_nil, Nat.add_zero]

end Line

namespace Code

variable {code : Code} {start : Nat}

theorem has_toList (code : Code) : code.Has 0 code.toList := by
  intro index _
  simp

theorem has_append {front back : List UInt8} :
    code.Has start (front ++ back) ↔
      code.Has start front ∧ code.Has (start + front.length) back := by
  constructor
  · intro held
    constructor
    · intro index inside
      rw [held index (by simp only [List.length_append]; omega),
        List.getElem?_append_left inside]
    · intro index inside
      rw [Nat.add_assoc, held _ (by simp only [List.length_append]; omega),
        List.getElem?_append_right (Nat.le_add_right _ _), Nat.add_sub_cancel_left]
  · rintro ⟨ahead, behind⟩ index inside
    rw [List.length_append] at inside
    by_cases early : index < front.length
    · rw [ahead index early, List.getElem?_append_left early]
    · have late := behind (index - front.length) (by omega)
      rwa [show start + front.length + (index - front.length) = start + index by omega,
        ← List.getElem?_append_right (by omega)] at late

theorem has_bound {bytes : List UInt8} (held : code.Has start bytes) (filled : bytes ≠ []) :
    start + bytes.length ≤ code.size := by
  have positive := List.length_pos_iff.mpr filled
  have last := held (bytes.length - 1) (by omega)
  rw [List.getElem?_eq_getElem (by omega)] at last
  obtain ⟨inside, _⟩ := Array.getElem?_eq_some_iff.mp last
  omega

end Code

/-- The bytes of operand `index` follow each other. -/
theorem flatMap_toBytes_getElem? (operands : List Int16) (index : Nat) :
    (operands.flatMap Operand.toBytes)[2 * index]? =
        operands[index]?.map (fun operand => UInt8.ofNat (Operand.toNat operand % 256)) ∧
      (operands.flatMap Operand.toBytes)[2 * index + 1]? =
        operands[index]?.map (fun operand => UInt8.ofNat (Operand.toNat operand / 256)) := by
  induction operands generalizing index with
  | nil => simp
  | cons operand rest ih =>
      cases index with
      | zero => exact ⟨rfl, rfl⟩
      | succ index =>
          have shifted := ih index
          simp only [List.flatMap_cons, Operand.toBytes, List.cons_append, List.nil_append,
            List.getElem?_cons_succ]
          exact shifted

namespace Code

variable {code : Code} {address : Nat} {line : Line}

theorem opcode?_of_has (held : code.Has address line.encode) :
    code.opcode? address = some line.opcode := by
  have first := held 0 line.length_encode_pos
  simp only [Nat.add_zero, Line.encode, Opcode.encode, List.cons_append,
    List.getElem?_cons_zero] at first
  simp only [opcode?, first, Option.bind_some, Opcode.ofByte?_toByte]

theorem operand?_of_has (held : code.Has address line.encode) {index : Nat}
    (given : index < line.operands.length) :
    code.operand? address index = line.operands[index]? := by
  have length := line.length_encode
  have low := held (1 + 2 * index) (by omega)
  have high := held (2 + 2 * index) (by omega)
  have inside : 2 * index + 1 < (line.operands.flatMap Operand.toBytes).length := by
    have whole := Opcode.length_encode line.opcode line.operands
    simp only [Opcode.encode, List.length_cons] at whole
    omega
  obtain ⟨lowByte, highByte⟩ := flatMap_toBytes_getElem? line.operands index
  rw [show 1 + 2 * index = 2 * index + 1 by omega, Line.encode, Opcode.encode, List.cons_append,
    List.getElem?_cons_succ, List.getElem?_append_left (by omega), lowByte,
    List.getElem?_eq_getElem given] at low
  rw [show 2 + 2 * index = (2 * index + 1) + 1 by omega, Line.encode, Opcode.encode,
    List.cons_append, List.getElem?_cons_succ, List.getElem?_append_left inside, highByte,
    List.getElem?_eq_getElem given] at high
  rw [operand?, show address + 1 + 2 * index = address + (2 * index + 1) by omega,
    show address + 2 + 2 * index = address + (2 * index + 1 + 1) by omega, low, high,
    List.getElem?_eq_getElem given]
  exact congrArg some (Operand.ofBytes_toBytes _)

/-- An operand that was read as a register is the number of one. -/
theorem number?_of_register? {count index : Nat} {register : Fin count}
    (named : code.register? count address index = some register) :
    code.number? address index = some register.val := by
  obtain ⟨number, read, small⟩ := Option.bind_eq_some_iff.mp named
  split at small
  · cases small
    exact read
  · cases small

theorem target?_eq_some_iff {opcode : Opcode} {target : Nat} :
    code.target? address opcode = some target ↔
      code.jumpTarget? address opcode = some (Int.ofNat target) := by
  rw [target?, Option.bind_eq_some_iff]
  constructor
  · rintro ⟨reached, found, same⟩
    split at same
    · rename_i positive
      cases same
      rw [found, Int.ofNat_eq_natCast, Int.toNat_of_nonneg positive]
    · cases same
  · intro found
    have inCode : 0 ≤ Int.ofNat target := Int.natCast_nonneg target
    exact ⟨_, found, if_pos inCode⟩

theorem payload_of_has (held : code.Has address line.encode) :
    code.Has (address + (1 + 2 * line.operands.length)) line.payload := by
  have behind := (has_append.mp held).2
  rwa [Opcode.length_encode] at behind

end Code

end ByteRegex
