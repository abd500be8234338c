import ByteRegex.Proofs.Bytecode.Line

/-!
# Streams of instructions

Code that consists of lines, one behind another with nothing between them. There are no separators,
and a payload may look like anything; still a walk by instruction lengths stops exactly where the
lines start, and what is read there is what the lines say.
-/

namespace ByteRegex

/-- The number of bytes behind these operands. -/
def Opcode.payloadSize (operands : List Int16) : Opcode → Nat
  | set => 32
  | str | strNoCase => Operand.toNat (operands.headD 0)
  | _ => 0

namespace Line

/-- A line with all operands of its opcode and with the payload that they announce. -/
structure Complete (line : Line) : Prop where
  operands : line.operands.length = line.opcode.operandCount
  payload : line.payload.length = line.opcode.payloadSize line.operands

instance (line : Line) : Decidable line.Complete :=
  decidable_of_iff (line.operands.length = line.opcode.operandCount ∧
      line.payload.length = line.opcode.payloadSize line.operands)
    ⟨fun both => ⟨both.1, both.2⟩, fun complete => ⟨complete.operands, complete.payload⟩⟩

/-- The addresses of lines, the first of which starts at `start`. -/
def offsets (start : Nat) : List Line → List Nat
  | [] => []
  | line :: rest => start :: offsets (start + line.encode.length) rest

theorem mem_offsets {start address : Nat} {lines : List Line} :
    address ∈ offsets start lines ↔
      ∃ front line back, lines = front ++ line :: back ∧ address = start + extent front := by
  induction lines generalizing start with
  | nil => simp [offsets]
  | cons first rest ih =>
      rw [offsets, List.mem_cons, ih]
      constructor
      · rintro (rfl | ⟨front, line, back, rfl, rfl⟩)
        · exact ⟨[], first, rest, rfl, rfl⟩
        · exact ⟨first :: front, line, back, rfl, by rw [extent_cons, Nat.add_assoc]⟩
      · rintro ⟨front, line, back, same, rfl⟩
        cases front with
        | nil => exact .inl rfl
        | cons head front =>
            cases same
            exact .inr ⟨front, line, back, rfl, by rw [extent_cons, Nat.add_assoc]⟩

variable {line : Line}

/-- Of a payload only the bytes of a string are not counted by the opcode. -/
theorem Complete.length_encode (complete : line.Complete) :
    line.encode.length = line.opcode.fixedSize +
      if line.opcode = .str || line.opcode = .strNoCase then Operand.toNat (line.operands.headD 0)
      else 0 := by
  rw [Line.length_encode, complete.operands, complete.payload]
  cases line.opcode <;> rfl

theorem Complete.length_of_bare (complete : line.Complete) (bare : line.payload = []) :
    line.encode.length = line.opcode.fixedSize := by
  have none := complete.payload
  rw [bare] at none
  rw [complete.length_encode]
  cases named : line.opcode <;> simp_all [Opcode.payloadSize]

/-- An instruction with an operand has no payload that its opcode counts. -/
theorem Complete.fixedSize_of_operand (complete : line.Complete) {operand : Int16}
    (last : line.operands.getLast? = some operand) :
    line.opcode.fixedSize = line.encode.length - line.payload.length := by
  have counted : line.opcode ≠ .set := by
    intro named
    have none := complete.operands
    rw [named] at none
    rw [List.eq_nil_of_length_eq_zero none] at last
    cases last
  rw [Line.length_encode, Nat.add_sub_cancel, complete.operands, Opcode.fixedSize, if_neg counted,
    Nat.add_zero]

end Line

namespace Code

variable {code : Code} {address : Nat} {line : Line}

/-- The length that is read at a line is the length of the line. -/
theorem instructionLength?_of_has (held : code.Has address line.encode)
    (complete : line.Complete) : code.instructionLength? address = some line.encode.length := by
  obtain ⟨byte, found, named⟩ := Option.bind_eq_some_iff.mp (opcode?_of_has held)
  rw [complete.length_encode, instructionLength?, found, Option.bind_some, named]
  dsimp only
  split
  · rename_i textual
    have single : line.operands.length = 1 := by
      rw [complete.operands]
      cases same : line.opcode <;> simp_all [Opcode.operandCount]
    obtain ⟨length, same⟩ := List.length_eq_one_iff.mp single
    rw [operand?_of_has held (by omega), same]
    rfl
  · rfl

/-- A distance counts from the end of the operands. -/
theorem jumpTarget?_of_has (held : code.Has address line.encode) (complete : line.Complete)
    {distance : Int16} (last : line.operands.getLast? = some distance) :
    code.jumpTarget? address line.opcode =
      some (Int.ofNat (address + line.opcode.fixedSize) + distance.toInt) := by
  have positive : 0 < line.operands.length := by
    cases given : line.operands with
    | nil =>
        rw [given] at last
        cases last
    | cons => exact Nat.succ_pos _
  rw [List.getLast?_eq_getElem?, complete.operands] at last
  rw [jumpTarget?, operand?_of_has held (by rw [← complete.operands]; omega), last]
  rfl

/-- A walk by lengths over whole lines meets the start of each of them. -/
theorem addressesFrom_of_has {lines : List Line} (complete : ∀ line ∈ lines, line.Complete)
    (held : code.Has address (Line.encodeAll lines)) (met : Array Nat) :
    code.addressesFrom address met = code.addressesFrom (address + Line.extent lines)
      (met ++ (Line.offsets address lines).toArray) := by
  induction lines generalizing address met with
  | nil => simp [Line.extent, Line.encodeAll, Line.offsets]
  | cons line rest ih =>
      obtain ⟨whole, complete⟩ := List.forall_mem_cons.mp complete
      rw [Line.encodeAll_cons, has_append] at held
      have positive := line.length_encode_pos
      have inside := has_bound held.1 (List.ne_nil_of_length_pos positive)
      rw [addressesFrom_of_length (by omega) (instructionLength?_of_has held.1 whole),
        ih complete held.2, Line.extent_cons, Nat.add_assoc]
      simp [Line.offsets]

/-- What code with the bytes of some lines holds at one of them. -/
theorem has_of_append {front back : List Line} (held : code.Has 0 (Line.encodeAll (front ++ line :: back))) :
    code.Has (Line.extent front) line.encode := by
  rw [Line.encodeAll_append, has_append, Line.encodeAll_cons, has_append, Nat.zero_add] at held
  exact held.2.1

theorem addresses_of_lines {lines : List Line} (same : code.toList = Line.encodeAll lines)
    (complete : ∀ line ∈ lines, line.Complete) : code.addresses = Line.offsets 0 lines := by
  have held := code.has_toList
  have size : code.size = Line.extent lines := by rw [← Array.length_toList, same, Line.extent]
  rw [same] at held
  rw [addresses, addressesFrom_of_has complete held, Nat.zero_add, ← size, addressesFrom,
    if_neg (Nat.lt_irrefl _)]
  simp

/-- The walk through a stream of instructions stops at each of them and ends with the last one, and
every part of an instruction is read back. A distance counts from the end of the instruction, less the
payload of a string. -/
theorem reads_stream (lines : List Line) (complete : ∀ line ∈ lines, line.Complete) :
    let code : Code := (Line.encodeAll lines).toArray
    code.addresses = Line.offsets 0 lines ∧ code.size = Line.extent lines ∧
      ∀ front line back, lines = front ++ line :: back →
        let address := Line.extent front
        code.instructionLength? address = some line.encode.length ∧
          code.opcode? address = some line.opcode ∧
          (∀ index < line.opcode.operandCount,
            code.operand? address index = line.operands[index]?) ∧
          ∀ distance, line.operands.getLast? = some distance → ∀ target : Nat,
            Int.ofNat (address + (line.encode.length - line.payload.length)) + distance.toInt =
                Int.ofNat target →
              code.target? address line.opcode = some target := by
  intro code
  refine ⟨addresses_of_lines rfl complete, rfl, ?_⟩
  rintro front line back same
  have held : code.Has (Line.extent front) line.encode := by
    have whole : code.Has 0 (Line.encodeAll lines) := code.has_toList
    rw [same] at whole
    exact has_of_append whole
  have whole : line.Complete := complete line (by rw [same]; simp)
  refine ⟨instructionLength?_of_has held whole, opcode?_of_has held, fun index inside => ?_, ?_⟩
  · exact operand?_of_has held (by rw [whole.operands]; exact inside)
  · intro distance last target reaches
    refine target?_eq_some_iff.mpr ?_
    rw [jumpTarget?_of_has held whole last, whole.fixedSize_of_operand last, reaches]

/-- A string whose bytes look like a jump, and a jump over it. -/
theorem reads_stream_disguised :
    (∀ line ∈ [⟨.str, [3], [24, 250, 255]⟩, Line.plain .jump [-9], ⟨.set, [], List.replicate 32 24⟩],
      line.Complete) ∧
    (#[5, 3, 0, 24, 250, 255, 24, 247, 255, 9] ++ Array.replicate 32 24 : Code).addresses = [0, 6, 9] ∧
    (#[5, 3, 0, 24, 250, 255, 24, 247, 255, 9] ++ Array.replicate 32 24 : Code).target? 6 .jump =
      some 0 := by
  have complete : ∀ line ∈ [⟨.str, [3], [24, 250, 255]⟩, Line.plain .jump [-9],
      ⟨.set, [], List.replicate 32 24⟩], line.Complete := by decide
  obtain ⟨walk, _, reads⟩ := reads_stream _ complete
  exact ⟨complete, walk, (reads [_] _ _ rfl).2.2.2 _ rfl 0 rfl⟩

end Code

end ByteRegex
