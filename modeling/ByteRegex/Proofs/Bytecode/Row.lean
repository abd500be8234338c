import ByteRegex.Bytecode.Instruction
import ByteRegex.Search

/-!
# Rows

Reading code instruction by instruction. A row is a stretch of code that is read this way from one
address to another; the rows of adjoining stretches follow each other.
-/

namespace ByteRegex

/-- An instruction in its place, with the address behind it. -/
structure Entry where
  address : Nat
  instruction : Instruction
  next : Nat
deriving DecidableEq

/-- The instructions that a walk through the code meets. -/
def Code.entries (code : Code) : List Entry :=
  code.addresses.filterMap fun address =>
    (code.instruction? address).map fun read => ⟨address, read.1, read.2⟩

namespace Code

variable {code : Code} {address next start middle stop : Nat} {instruction : Instruction}
  {entries first second : List Entry}

theorem text?_shape {opcode : Opcode} {caseless : Bool}
    (found : code.text? address opcode caseless = some instruction) :
    ∃ operand, code.operand? address 0 = some operand ∧
      instruction = .text caseless (address + opcode.fixedSize)
        (address + opcode.fixedSize + Operand.toNat operand) := by
  obtain ⟨length, read, whole⟩ := Option.bind_eq_some_iff.mp found
  obtain ⟨operand, held, same⟩ := Option.map_eq_some_iff.mp read
  subst same
  refine ⟨operand, held, ?_⟩
  dsimp only at whole
  split at whole
  · exact (Option.some.inj whole).symm
  · cases whole

theorem decode?_text {opcode : Opcode} {caseless : Bool} {first last : Nat}
    (decoded : code.decode? address opcode = some (.text caseless first last)) :
    (opcode = .str || opcode = .strNoCase) = true := by
  cases opcode with
  | str | strNoCase => rfl
  | _ =>
      simp only [decode?, repetition?, lookAhead?, lookBehind?, countedJump?, stuckJump?,
        Option.map_eq_some_iff, Option.some.injEq, reduceCtorEq, and_false, exists_false] at decoded
      try (split at decoded <;> cases decoded)

/-- Where an instruction ends: behind its literal bytes if it has some. -/
theorem next_of_instruction? (read : code.instruction? address = some (instruction, next)) :
    ∃ opcode, code.opcode? address = some opcode ∧
      if opcode = .str || opcode = .strNoCase then
        ∃ caseless operand, code.operand? address 0 = some operand ∧
          next = address + opcode.fixedSize + Operand.toNat operand ∧
          instruction = .text caseless (address + opcode.fixedSize) next
      else next = address + opcode.fixedSize ∧
        ∀ caseless first last, instruction ≠ .text caseless first last := by
  unfold instruction? at read
  split at read
  · cases read
  · rename_i opcode known
    refine ⟨opcode, known, ?_⟩
    split at read
    · cases read
    · rename_i shown decoded
      split
      · rename_i textual
        have shape : ∃ caseless, code.text? address opcode caseless = some shown := by
          simp only [Bool.or_eq_true, decide_eq_true_eq] at textual
          rcases textual with same | same
          · subst same
            exact ⟨false, decoded⟩
          · subst same
            exact ⟨true, decoded⟩
        obtain ⟨caseless, shape⟩ := shape
        obtain ⟨operand, held, same⟩ := text?_shape shape
        subst same
        cases read
        exact ⟨caseless, operand, held, rfl, rfl⟩
      · rename_i plain
        split at read
        · exact absurd (decode?_text decoded) plain
        · rename_i other
          cases read
          exact ⟨rfl, fun caseless first last same => other caseless first last same⟩

/-- An instruction ends where its length says. -/
theorem instructionLength?_of_instruction?
    (read : code.instruction? address = some (instruction, next)) :
    ∃ length, code.instructionLength? address = some length ∧ next = address + length := by
  obtain ⟨opcode, known, ends⟩ := next_of_instruction? read
  obtain ⟨byte, found, named⟩ := Option.bind_eq_some_iff.mp known
  simp only [instructionLength?, found, Option.bind_some, named]
  split at ends
  · rename_i textual
    obtain ⟨caseless, operand, held, same, _⟩ := ends
    rw [if_pos textual, held]
    exact ⟨_, rfl, same.trans (Nat.add_assoc ..)⟩
  · rename_i plain
    rw [if_neg plain]
    exact ⟨_, rfl, ends.1⟩

theorem lt_of_instruction? (read : code.instruction? address = some (instruction, next)) :
    address < next := by
  obtain ⟨length, measured, same⟩ := instructionLength?_of_instruction? read
  have positive := instructionLength?_pos measured
  omega

/-- The bytes of a literal are the end of its instruction. -/
theorem text_bounds {caseless : Bool} {first last : Nat}
    (read : code.instruction? address = some (.text caseless first last, next)) :
    address < first ∧ last = next := by
  obtain ⟨opcode, _, ends⟩ := next_of_instruction? read
  have positive := opcode.fixedSize_pos
  split at ends
  · obtain ⟨_, _, _, _, same⟩ := ends
    cases same
    exact ⟨by omega, rfl⟩
  · exact absurd rfl (ends.2 _ _ _)

/-- A row of instructions from one address to another. -/
inductive Row (code : Code) : Nat → List Entry → Nat → Prop where
  | nil (address : Nat) : Row code address [] address
  | cons {address next stop : Nat} {instruction : Instruction} {rest : List Entry}
      (read : code.instruction? address = some (instruction, next)) (later : Row code next rest stop) :
      Row code address (⟨address, instruction, next⟩ :: rest) stop

namespace Row

theorem single (read : code.instruction? address = some (instruction, next)) :
    code.Row address [⟨address, instruction, next⟩] next := .cons read (.nil next)

theorem append (former : code.Row start first middle) (latter : code.Row middle second stop) :
    code.Row start (first ++ second) stop := by
  induction former with
  | nil address => exact latter
  | cons read later ih => exact .cons read (ih latter)

theorem le (row : code.Row start entries stop) : start ≤ stop := by
  induction row with
  | nil address => exact Nat.le_refl _
  | cons read later ih => exact Nat.le_trans (Nat.le_of_lt (lt_of_instruction? read)) ih

theorem mem_bounds (row : code.Row start entries stop) {entry : Entry} (member : entry ∈ entries) :
    start ≤ entry.address ∧ entry.address < entry.next ∧ entry.next ≤ stop := by
  induction row with
  | nil address => cases member
  | cons read later ih =>
      have ahead := lt_of_instruction? read
      rcases List.mem_cons.mp member with same | further
      · subst same
        exact ⟨Nat.le_refl _, ahead, later.le⟩
      · obtain ⟨after, rest⟩ := ih further
        exact ⟨Nat.le_trans (Nat.le_of_lt ahead) after, rest⟩

theorem mem_read (row : code.Row start entries stop) {entry : Entry} (member : entry ∈ entries) :
    code.instruction? entry.address = some (entry.instruction, entry.next) := by
  induction row with
  | nil address => cases member
  | cons read later ih =>
      rcases List.mem_cons.mp member with same | further
      · subst same
        exact read
      · exact ih further

/-- A walk by lengths meets exactly the instructions of a row. -/
theorem addressesFrom_eq (row : code.Row start entries stop) (met : Array Nat)
    (inside : stop ≤ code.size) :
    code.addressesFrom start met =
      code.addressesFrom stop (met ++ (entries.map Entry.address).toArray) := by
  induction row generalizing met with
  | nil address => simp
  | cons read later ih =>
      obtain ⟨length, measured, same⟩ := instructionLength?_of_instruction? read
      have ahead := lt_of_instruction? read
      have reach := later.le
      rw [addressesFrom_of_length (by omega) measured, ← same, ih _ inside]
      simp

theorem addresses_eq (row : code.Row 0 entries code.size) :
    code.addresses = entries.map Entry.address := by
  rw [addresses, row.addressesFrom_eq #[] (Nat.le_refl _), addressesFrom,
    if_neg (Nat.lt_irrefl _)]
  simp

/-- Of two instructions in a row one ends before the other starts. -/
theorem ordered (row : code.Row start entries stop) {entry other : Entry} (member : entry ∈ entries)
    (further : other ∈ entries) :
    entry = other ∨ entry.next ≤ other.address ∨ other.next ≤ entry.address := by
  induction row with
  | nil address => cases member
  | cons read later ih =>
      rcases List.mem_cons.mp member with same | behind
      · rcases List.mem_cons.mp further with alike | after
        · exact .inl (same.trans alike.symm)
        · subst same
          exact .inr (.inl (later.mem_bounds after).1)
      · rcases List.mem_cons.mp further with alike | after
        · subst alike
          exact .inr (.inr (later.mem_bounds behind).1)
        · exact ih behind after

end Row

theorem Row.entries_eq (row : code.Row 0 entries code.size) : code.entries = entries := by
  have kept : ∀ some : List Entry, (∀ entry ∈ some,
      code.instruction? entry.address = .some (entry.instruction, entry.next)) →
      (some.map Entry.address).filterMap (fun address =>
        (code.instruction? address).map fun read => (⟨address, read.1, read.2⟩ : Entry)) = some := by
    intro some reads
    induction some with
    | nil => rfl
    | cons entry rest ih =>
        rw [List.map_cons, List.filterMap_cons, reads entry (List.mem_cons_self ..),
          ih fun other member => reads other (List.mem_cons_of_mem _ member)]
        rfl
  rw [Code.entries, row.addresses_eq]
  exact kept entries fun entry => row.mem_read

end Code

end ByteRegex
