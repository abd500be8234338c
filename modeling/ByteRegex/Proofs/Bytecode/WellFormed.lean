import ByteRegex.Proofs.Assembly.Compiled
import ByteRegex.Proofs.Assembly.Listed

/-!
# Well-formed code

The machine does not check the code that it runs. It need not: a compiled program consists of whole
instructions with operands in range, and its jumps and its regions are in order.
-/

namespace ByteRegex

/-- Whether the first operand is the number of a counter. -/
def Opcode.hasCounter : Opcode → Bool
  | counterReset | counterInc | jumpLess | jumpAtLeast | jumpStuck => true
  | _ => false

/-- Whether the operand is the byte of a class. -/
def Opcode.hasClass : Opcode → Bool
  | inClass | notInClass => true
  | _ => false

namespace Code

/-- What the machine relies on in a code with so many groups. -/
structure WellFormed (code : Code) (groups : Nat) : Prop where
  /-- Instruction follows instruction from the first byte to the end of the code. -/
  row : code.Row 0 code.entries code.size
  /-- The walk by instruction lengths meets nothing else. -/
  walk : code.addresses = code.entries.map Entry.address
  lengths : ∀ entry ∈ code.entries,
    code.instructionLength? entry.address = some (entry.next - entry.address)
  ends : ∃ front last, code.entries = front ++ [last] ∧ last.instruction = .succeed ∧
    ∀ entry ∈ front, entry.instruction ≠ .succeed
  fails : ∀ entry ∈ code.entries, entry.instruction ≠ .fail
  targets : ∀ entry ∈ code.entries, ∀ target, entry.instruction.target? = some target →
    target ∈ code.addresses
  bounds : ∀ entry ∈ code.entries, ∀ greed least most,
    entry.instruction = .repetition greed least most → Quantifier.Valid ⟨least, most, greed⟩
  tested : ∀ entry ∈ code.entries, entry.instruction.repeats = true →
    ∃ single ∈ code.entries, single.address = entry.next ∧ ∃ test, single.instruction = .test test
  untargeted : ∀ entry ∈ code.entries, entry.instruction.repeats = true →
    ∀ other ∈ code.entries, other.instruction.target? ≠ some entry.next
  few : groups < Capacity.slots
  opens : ∀ group, (code.entries.filterMap (·.instruction.opens?)).count group =
    if 1 ≤ group ∧ group ≤ groups then 1 else 0
  closes : ∀ group, (code.entries.filterMap (·.instruction.closes?)).count group =
    if 1 ≤ group ∧ group ≤ groups then 1 else 0
  refers : ∀ entry ∈ code.entries, ∀ group, entry.instruction.refers? = some group →
    1 ≤ group ∧ group ≤ groups
  counters : ∀ address ∈ code.addresses, ∀ opcode, code.opcode? address = some opcode →
    opcode.hasCounter = true → ∃ counter < Capacity.counters, code.number? address 0 = some counter
  classes : ∀ address ∈ code.addresses, ∀ opcode, code.opcode? address = some opcode →
    opcode.hasClass = true → ∃ kind, code.byteClass? address = some kind
  texts : ∀ entry ∈ code.entries, ∀ caseless first last,
    entry.instruction = .text caseless first last →
      2 ≤ last - first ∧ last - first ≤ Capacity.literal ∧ last = entry.next
  delimited : ∀ entry ∈ code.entries, entry.instruction.encloses = true →
    ∃ last ∈ code.entries, last.instruction = .subEnd ∧ entry.next ≤ last.address ∧
      entry.instruction.target? = some last.next
  nested : ∀ outer ∈ code.entries, ∀ inner ∈ code.entries,
    (∀ address, inner.Contains address → outer.Contains address) ∨
      (∀ address, outer.Contains address → inner.Contains address) ∨
      ∀ address, ¬ (outer.Contains address ∧ inner.Contains address)
  crossing : ∀ region ∈ code.entries, ∀ entry ∈ code.entries, ∀ target,
    entry.instruction.target? = some target →
      (region.Contains entry.address ↔ region.Contains target)

variable {code : Code}

theorem number?_of_hasCounter {address next : Nat} {instruction : Instruction} {opcode : Opcode}
    (read : code.instruction? address = some (instruction, next))
    (known : code.opcode? address = some opcode) (counts : opcode.hasCounter = true) :
    ∃ counter < Capacity.counters, code.number? address 0 = some counter := by
  have decoded := decode?_of_instruction? read known
  have named : ∃ counter, code.register? Capacity.counters address 0 = some counter := by
    cases opcode with
    | counterReset | counterInc =>
        obtain ⟨counter, named, _⟩ := Option.map_eq_some_iff.mp decoded
        exact ⟨counter, named⟩
    | jumpLess | jumpAtLeast =>
        simp only [decode?, countedJump?] at decoded
        split at decoded
        · exact ⟨_, ‹_›⟩
        · cases decoded
    | jumpStuck =>
        simp only [decode?, stuckJump?] at decoded
        split at decoded
        · exact ⟨_, ‹_›⟩
        · cases decoded
    | _ => cases counts
  obtain ⟨counter, named⟩ := named
  exact ⟨counter.val, counter.isLt, number?_of_register? named⟩

theorem byteClass?_of_hasClass {address next : Nat} {instruction : Instruction} {opcode : Opcode}
    (read : code.instruction? address = some (instruction, next))
    (known : code.opcode? address = some opcode) (classes : opcode.hasClass = true) :
    ∃ kind, code.byteClass? address = some kind := by
  have decoded := decode?_of_instruction? read known
  cases opcode with
  | inClass | notInClass =>
      obtain ⟨kind, named, _⟩ := Option.map_eq_some_iff.mp decoded
      exact ⟨kind, named⟩
  | _ => cases classes

/-- A region behind the start of another one is inside it or apart from it. -/
theorem inside_or_apart {outer inner : Entry} (behind : outer.next ≤ inner.address)
    (ahead : inner.address < inner.next)
    (crossing : ∀ target, inner.instruction.target? = some target →
      (outer.Contains inner.address ↔ outer.Contains target)) :
    (∀ address, inner.Contains address → outer.Contains address) ∨
      ∀ address, ¬ (outer.Contains address ∧ inner.Contains address) := by
  by_cases inside : outer.Contains inner.address
  · refine .inl fun address contained => ?_
    obtain ⟨_, after, target, goes, before⟩ := contained
    obtain ⟨encloses, _, last, ends, bound⟩ := (crossing target goes).mp inside
    exact ⟨encloses, by omega, last, ends, by omega⟩
  · refine .inr fun address both => inside ?_
    obtain ⟨⟨encloses, _, target, goes, before⟩, _, after, _⟩ := both
    exact ⟨encloses, behind, target, goes, by omega⟩

end Code

/-- The instructions of a program are those of its expression and one more. -/
theorem Program.Implements.entries {program : Program} {expr : Expr}
    (implements : program.Implements expr) :
    ∃ front stop, expr.Listed program.code 0 front stop ∧
      program.code.entries = front ++ [⟨stop, .succeed, program.code.size⟩] ∧
      program.code.Row 0 program.code.entries program.code.size ∧
      program.code.addresses = program.code.entries.map Entry.address := by
  obtain ⟨stop, laid, finish⟩ := implements.laidOut
  obtain ⟨front, listed⟩ := expr.listed_of_laidOut implements.numbered.wellFormed laid
  have row := listed.fragment.row.append (.single finish)
  refine ⟨front, stop, listed, row.entries_eq, ?_, ?_⟩
  · rw [row.entries_eq]
    exact row
  · rw [row.entries_eq, row.addresses_eq]

/-- The code of an expression is well-formed. -/
theorem Program.Implements.wellFormed {program : Program} {expr : Expr}
    (implements : program.Implements expr) : program.code.WellFormed program.groups := by
  obtain ⟨front, stop, listed, all, row, addresses⟩ := implements.entries
  have fragment := listed.fragment
  have sound : ∀ entry ∈ front, entry.Sound := fragment.sound
  have among : ∀ entry ∈ front, entry ∈ program.code.entries := by
    intro entry member
    rw [all]
    exact List.mem_append_left _ member
  -- Only the last instruction is not among those of the expression, and it neither jumps nor
  -- repeats nor encloses.
  have every : ∀ {holds : Entry → Prop}, (∀ entry ∈ front, holds entry) →
      holds ⟨stop, .succeed, program.code.size⟩ → ∀ entry ∈ program.code.entries, holds entry := by
    intro holds inside last entry member
    rw [all] at member
    rcases List.mem_append.mp member with early | late
    · exact inside entry early
    · rw [List.mem_singleton.mp late]
      exact last
  have jumps : ∀ entry ∈ program.code.entries, ∀ target,
      entry.instruction.target? = some target → entry ∈ front := by
    apply every
    · intro entry member target goes
      exact member
    · intro target goes
      cases goes
  have crossing : ∀ region ∈ program.code.entries, ∀ entry ∈ program.code.entries, ∀ target,
      entry.instruction.target? = some target →
        (region.Contains entry.address ↔ region.Contains target) := by
    apply every
    · intro region hosts entry member target goes
      exact fragment.crossing region hosts entry (jumps entry member target goes) target goes
    · intro entry member target goes
      simp [Entry.Contains, Instruction.encloses]
  constructor
  case row => exact row
  case walk => exact addresses
  case lengths =>
    intro entry member
    obtain ⟨length, measured, same⟩ := Code.instructionLength?_of_instruction? (row.mem_read member)
    rw [measured, same, Nat.add_sub_cancel_left]
  case ends =>
    refine ⟨front, _, all, rfl, fun entry member succeeds => ?_⟩
    have held := sound entry member
    rw [Entry.Sound, succeeds] at held
    exact held
  case fails =>
    apply every
    · intro entry member fails
      have held := sound entry member
      rw [Entry.Sound, fails] at held
      exact held
    · intro fails
      cases fails
  case targets =>
    intro entry member target goes
    rw [addresses, all, List.map_append, List.mem_append]
    rcases fragment.lands entry (jumps entry member target goes) target goes with ends | here | none
    · exact .inr (by rw [ends]; exact List.mem_singleton_self _)
    · exact .inl here
    · cases none
  case bounds =>
    apply every
    · intro entry member greed least most repeats
      have held := sound entry member
      rw [Entry.Sound, repeats] at held
      exact held
    · intro greed least most repeats
      cases repeats
  case tested =>
    apply every
    · intro entry member repeats
      obtain ⟨single, inFront, rest⟩ := fragment.tested entry member repeats
      exact ⟨single, among single inFront, rest⟩
    · intro repeats
      cases repeats
  case untargeted =>
    apply every
    · intro entry member repeats other further goes
      exact fragment.untargeted entry member repeats other (jumps other further _ goes) goes
    · intro repeats
      cases repeats
  case few => exact implements.numbered.few
  case opens =>
    intro group
    have opened : program.code.entries.filterMap (·.instruction.opens?) = expr.captures ++ [] := by
      rw [all, List.filterMap_append, listed.opens]
      rfl
    rw [opened, List.append_nil, implements.numbered.captures]
    simp only [List.count_range_1', Nat.lt_one_add_iff]
  case closes =>
    intro group
    have closed : program.code.entries.filterMap (·.instruction.closes?) =
        front.filterMap (·.instruction.closes?) ++ [] := by
      rw [all, List.filterMap_append]
      rfl
    rw [closed, List.append_nil, listed.closes.count_eq, implements.numbered.captures]
    simp only [List.count_range_1', Nat.lt_one_add_iff]
  case refers =>
    apply every
    · intro entry member group refers
      apply implements.numbered.references
      rw [← listed.refers]
      exact List.mem_filterMap.mpr ⟨entry, member, refers⟩
    · intro group refers
      cases refers
  case counters =>
    intro address member opcode known counts
    rw [addresses] at member
    obtain ⟨entry, inRow, same⟩ := List.mem_map.mp member
    rw [← same] at known ⊢
    exact Code.number?_of_hasCounter (row.mem_read inRow) known counts
  case classes =>
    intro address member opcode known classes
    rw [addresses] at member
    obtain ⟨entry, inRow, same⟩ := List.mem_map.mp member
    rw [← same] at known ⊢
    exact Code.byteClass?_of_hasClass (row.mem_read inRow) known classes
  case texts =>
    apply every
    · intro entry member caseless first last text
      have held := sound entry member
      rw [Entry.Sound, text] at held
      exact held
    · intro caseless first last text
      cases text
  case delimited =>
    apply every
    · intro entry member encloses
      obtain ⟨last, inFront, rest⟩ := fragment.delimited entry member encloses
      exact ⟨last, among last inFront, rest⟩
    · intro encloses
      cases encloses
  case crossing => exact crossing
  case nested =>
    intro outer hosts inner member
    obtain ⟨_, outerAhead, _⟩ := row.mem_bounds hosts
    obtain ⟨_, innerAhead, _⟩ := row.mem_bounds member
    rcases row.ordered hosts member with same | before | behind
    · exact .inl fun address contained => same ▸ contained
    · have parted := crossing outer hosts inner member
      rcases Code.inside_or_apart before innerAhead parted with inside | apart
      · exact .inl inside
      · exact .inr (.inr apart)
    · have parted := crossing inner member outer hosts
      rcases Code.inside_or_apart behind outerAhead parted with inside | apart
      · exact .inr (.inl inside)
      · exact .inr (.inr fun address both => apart address both.symm)

/-- Every compiled program is well-formed. -/
theorem Program.wellFormed_of_compile {pattern : List UInt8} {flags : Flags} {program : Program}
    (compiled : compile pattern flags = .ok program) :
    program.code.WellFormed program.groups := by
  obtain ⟨expr, _, _, implements⟩ := implements_of_compile compiled
  exact implements.wellFormed

theorem Program.wellFormed_lookahead :
    compile "(a|b*)+?(?=\\1)".toUTF8.toList .default = .ok
      ⟨#[36, 0, 0, 20, 1, 0, 25, 6, 0, 3, 97, 0, 24, 8, 0, 27, 0, 0, 255, 255, 3, 98, 0, 21, 1, 0,
        39, 0, 0, 3, 0, 25, 222, 255, 30, 4, 0, 22, 1, 0, 1, 0], 1, .default⟩ ∧
    Code.WellFormed #[36, 0, 0, 20, 1, 0, 25, 6, 0, 3, 97, 0, 24, 8, 0, 27, 0, 0, 255, 255, 3, 98,
      0, 21, 1, 0, 39, 0, 0, 3, 0, 25, 222, 255, 30, 4, 0, 22, 1, 0, 1, 0] 1 := by
  have compiled : compile "(a|b*)+?(?=\\1)".toUTF8.toList .default = .ok
      ⟨#[36, 0, 0, 20, 1, 0, 25, 6, 0, 3, 97, 0, 24, 8, 0, 27, 0, 0, 255, 255, 3, 98, 0, 21, 1, 0,
        39, 0, 0, 3, 0, 25, 222, 255, 30, 4, 0, 22, 1, 0, 1, 0], 1, .default⟩ :=
    compile_of_toOption (by decide +kernel)
  exact ⟨compiled, wellFormed_of_compile compiled⟩

end ByteRegex
