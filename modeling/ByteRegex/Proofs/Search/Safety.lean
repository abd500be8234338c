import ByteRegex.Proofs.Bytecode.WellFormed
import ByteRegex.Proofs.Machine.Trace
import ByteRegex.Proofs.Search.Correctness

/-!
# Safety

Nothing that a search executes reads outside the code, the registers or the subject. The machine
itself faults wherever it would have to, so the runs of a program that never faults have passed its
checks at every instruction. What the machine does not check, that it stands at the start of an
instruction and that operands name registers, is a fact about the code.
-/

namespace ByteRegex

/-- Whether the first operand is the number of a group. -/
def Opcode.hasGroup : Opcode → Bool
  | openGroup | closeGroup | backRef | backRefNoCase => true
  | _ => false

def Opcode.isRepeat : Opcode → Bool
  | repeatGreedy | repeatLazy | repeatPossessive => true
  | _ => false

def Opcode.isBackReference : Opcode → Bool
  | backRef | backRefNoCase => true
  | _ => false

namespace Code

variable {code : Code} {address next : Nat} {instruction : Instruction} {opcode : Opcode}

/-- An instruction that lies inside the code with its operands and its payload. -/
structure Readable (code : Code) (address : Nat) (opcode : Opcode) : Prop where
  known : code.opcode? address = some opcode
  operands : ∀ index < opcode.operandCount, ∃ operand, code.operand? address index = some operand
  payload : ∃ length, code.instructionLength? address = some length ∧ opcode.fixedSize ≤ length ∧
    address + length ≤ code.size

theorem operand?_exists {index : Nat} (inside : address + 3 + 2 * index ≤ code.size) :
    ∃ operand, code.operand? address index = some operand := by
  have low : address + 1 + 2 * index < code.size := by omega
  have high : address + 2 + 2 * index < code.size := by omega
  exact ⟨_, by rw [operand?, Array.getElem?_eq_getElem low, Array.getElem?_eq_getElem high]⟩

theorem readable_of_instruction? (read : code.instruction? address = some (instruction, next))
    (inside : next ≤ code.size) : ∃ opcode, code.Readable address opcode := by
  obtain ⟨opcode, known, ends⟩ := next_of_instruction? read
  obtain ⟨length, measured, same⟩ := instructionLength?_of_instruction? read
  have whole : opcode.fixedSize ≤ length := by
    split at ends
    · obtain ⟨_, operand, _, behind, _⟩ := ends
      omega
    · have behind := ends.1
      omega
  refine ⟨opcode, known, fun index below => ?_, length, measured, whole, same ▸ inside⟩
  apply operand?_exists
  unfold Opcode.fixedSize at whole
  omega

theorem number?_of_hasGroup (read : code.instruction? address = some (instruction, next))
    (known : code.opcode? address = some opcode) (numbered : opcode.hasGroup = true) :
    ∃ group < Capacity.slots, code.number? address 0 = some group := by
  have decoded := decode?_of_instruction? read known
  have named : ∃ group, code.register? Capacity.slots address 0 = some group := by
    cases opcode with
    | openGroup | closeGroup | backRef | backRefNoCase =>
        obtain ⟨group, named, _⟩ := Option.map_eq_some_iff.mp decoded
        exact ⟨group, named⟩
    | _ => cases numbered
  obtain ⟨group, named⟩ := named
  exact ⟨group.val, group.isLt, number?_of_register? named⟩

theorem backReference_of_isBackReference
    (read : code.instruction? address = some (instruction, next))
    (known : code.opcode? address = some opcode) (refers : opcode.isBackReference = true) :
    ∃ caseless group, instruction = .backReference caseless group ∧
      code.number? address 0 = some group.val := by
  have decoded := decode?_of_instruction? read known
  cases opcode with
  | backRef | backRefNoCase =>
      obtain ⟨group, named, same⟩ := Option.map_eq_some_iff.mp decoded
      exact ⟨_, group, same.symm, number?_of_register? named⟩
  | _ => cases refers

theorem repeats_of_isRepeat (read : code.instruction? address = some (instruction, next))
    (known : code.opcode? address = some opcode) (repeated : opcode.isRepeat = true) :
    instruction.repeats = true ∧ next = address + opcode.fixedSize := by
  have decoded := decode?_of_instruction? read known
  obtain ⟨same, here, ends⟩ := next_of_instruction? read
  rw [known] at here
  cases here
  cases opcode with
  | repeatGreedy | repeatLazy | repeatPossessive =>
      refine ⟨?_, ends.1⟩
      simp only [decode?, repetition?] at decoded
      split at decoded <;> cases decoded
      rfl
  | _ => cases repeated

theorem isSingle_of_test {test : ByteTest}
    (read : code.instruction? address = some (.test test, next))
    (known : code.opcode? address = some opcode) : opcode.isSingle = true := by
  have decoded := decode?_of_instruction? read known
  cases opcode with
  | char | charNoCase | any | anyNoNewline | set | inClass | notInClass => rfl
  | str | strNoCase =>
      obtain ⟨_, _, same⟩ := text?_shape decoded
      cases same
  | _ =>
      simp only [decode?, repetition?, lookAhead?, lookBehind?, countedJump?, stuckJump?,
        Option.map_eq_some_iff, Option.some.injEq, reduceCtorEq, and_false, exists_false] at decoded
      try (split at decoded <;> cases decoded)

theorem jumpTarget?_of_hasTarget (read : code.instruction? address = some (instruction, next))
    (known : code.opcode? address = some opcode) (jumps : opcode.hasTarget = true) :
    ∃ target, code.jumpTarget? address opcode = some (Int.ofNat target) ∧
      instruction.target? = some target := by
  have decoded := decode?_of_instruction? read known
  have goes : ∃ target, code.target? address opcode = some target ∧
      instruction.target? = some target := by
    cases opcode with
    | jump | branch | branchRev | atomic =>
        obtain ⟨target, goes, rfl⟩ := Option.map_eq_some_iff.mp decoded
        exact ⟨target, goes, rfl⟩
    | lookAhead | negLookAhead =>
        obtain ⟨target, goes, rfl⟩ := Option.map_eq_some_iff.mp decoded
        exact ⟨target, goes, rfl⟩
    | lookBehind | negLookBehind | jumpLess | jumpAtLeast | jumpStuck =>
        simp only [decode?, lookBehind?, countedJump?, stuckJump?] at decoded
        split at decoded <;> cases decoded
        exact ⟨_, ‹_›, rfl⟩
    | _ => cases jumps
  obtain ⟨target, goes, same⟩ := goes
  exact ⟨target, target?_eq_some_iff.mp goes, same⟩

/-- Code that is read from instruction to instruction wherever its jumps and repeats lead. -/
structure Orderly (code : Code) : Prop where
  row : code.Row 0 code.entries code.size
  walk : code.addresses = code.entries.map Entry.address
  targets : ∀ entry ∈ code.entries, ∀ target, entry.instruction.target? = some target →
    target ∈ code.addresses
  tested : ∀ entry ∈ code.entries, entry.instruction.repeats = true →
    ∃ single ∈ code.entries, single.address = entry.next ∧ ∃ test, single.instruction = .test test

theorem WellFormed.orderly {groups : Nat} (wellFormed : code.WellFormed groups) : code.Orderly :=
  ⟨wellFormed.row, wellFormed.walk, wellFormed.targets, wellFormed.tested⟩

theorem Row.next_mem {start stop : Nat} {entries : List Entry} (row : code.Row start entries stop)
    {entry : Entry} (member : entry ∈ entries) :
    entry.next = stop ∨ entry.next ∈ entries.map Entry.address := by
  induction row with
  | nil address => cases member
  | cons read later ih =>
      rcases List.mem_cons.mp member with same | further
      · rw [same]
        exact later.start_mem.imp_right (List.mem_cons_of_mem _)
      · exact (ih further).imp_right (List.mem_cons_of_mem _)

theorem Orderly.entry_of_address (orderly : code.Orderly) (listed : address ∈ code.addresses)
    (read : code.instruction? address = some (instruction, next)) :
    ⟨address, instruction, next⟩ ∈ code.entries := by
  rw [orderly.walk] at listed
  obtain ⟨entry, member, same⟩ := List.mem_map.mp listed
  have found := orderly.row.mem_read member
  rw [same, read] at found
  cases entry
  cases found
  cases same
  exact member

end Code

namespace Machine

/-- What can be read without a check where a run stands: the instruction lies inside the code and
its operands name registers and instructions, the position is inside the subject, so that the bytes
on both sides of it are where they are asked for and a repeat has as many bytes in front of it as the
difference says, and the text of a group is inside the subject. -/
structure Configuration.Safe (here : Configuration) (code : Code) (subject : Array UInt8)
    (opcode : Opcode) : Prop where
  starts : here.address ∈ code.addresses
  readable : code.Readable here.address opcode
  inside : here.position ≤ subject.size
  before : here.position ≠ 0 → here.position - 1 < subject.size
  behind : here.position ≠ subject.size → here.position < subject.size
  targets : opcode.hasTarget = true → ∃ target ∈ code.addresses,
    code.jumpTarget? here.address opcode = some (Int.ofNat target)
  repeated : opcode.isRepeat = true → ∃ single, single.isSingle = true ∧
    here.address + opcode.fixedSize ∈ code.addresses ∧
    code.Readable (here.address + opcode.fixedSize) single
  groups : opcode.hasGroup = true →
    ∃ group < Capacity.slots, code.number? here.address 0 = some group
  counters : opcode.hasCounter = true →
    ∃ counter < Capacity.counters, code.number? here.address 0 = some counter
  references : opcode.isBackReference = true → ∀ group : Fin Capacity.slots,
    code.number? here.address 0 = some group.val →
      ∀ span, here.state.registers.spans.get group = some span →
        span.start ≤ span.stop ∧ span.stop ≤ subject.size

variable {machine : Machine}

theorem addresses_repeatTestMove {greed : Greed} {least : Nat} {most : Option Nat} {test : ByteTest}
    {after position address : Nat}
    (goes : address ∈ (machine.repeatTestMove greed least most test after position).addresses) :
    address = after := by
  simp only [repeatTestMove] at goes
  split at goes
  · cases goes
  · cases greed with
    | lazy =>
        dsimp only at goes
        split at goes
        · cases goes
        · exact Move.addresses_takingMore goes
    | possessive =>
        dsimp only at goes
        split at goes
        · cases goes
        · exact List.mem_singleton.mp goes
    | greedy =>
        dsimp only at goes
        split at goes
        · cases goes
        · exact Move.addresses_givingBack goes

/-- An instruction leads behind itself, to its target or, over a test, behind that. -/
theorem addresses_move {instruction : Instruction} {next position address : Nat}
    {registers : Registers}
    (goes : address ∈ (machine.move instruction next position registers).addresses) :
    address = next ∨ instruction.target? = some address ∨ instruction.repeats = true ∧
      ∃ test, machine.code.instruction? next = some (.test test, address) := by
  cases instruction with
  | subEnd | fail => cases goes
  | succeed =>
      simp only [move] at goes
      split at goes <;> cases goes
  | test | text | assertion =>
      simp only [move] at goes
      split at goes
      · exact .inl (List.mem_singleton.mp goes)
      · cases goes
  | openGroup | closeGroup | counterReset | counterIncrement =>
      exact .inl (List.mem_singleton.mp goes)
  | backReference caseless group =>
      simp only [move, repeatGroupMove] at goes
      split at goes
      · cases goes
      · split at goes
        · split at goes
          · exact .inl (List.mem_singleton.mp goes)
          · cases goes
        · cases goes
  | jump target =>
      rw [List.mem_singleton.mp goes]
      exact .inr (.inl rfl)
  | branch target | look direction width target | atomic target =>
      rcases List.mem_cons.mp goes with same | further
      · exact .inl same
      · rw [List.mem_singleton.mp further]
        exact .inr (.inl rfl)
  | branchReverse target =>
      rcases List.mem_cons.mp goes with same | further
      · rw [same]
        exact .inr (.inl rfl)
      · exact .inl (List.mem_singleton.mp further)
  | jumpLess counter bound target | jumpAtLeast counter bound target | jumpStuck counter target =>
      have single := List.mem_singleton.mp goes
      split at single
      · rw [single]
        exact .inr (.inl rfl)
      · exact .inl single
  | repetition greed least most =>
      simp only [move] at goes
      split at goes
      · rename_i test after found
        rw [addresses_repeatTestMove goes]
        exact .inr (.inr ⟨rfl, test, found⟩)
      · cases goes

end Machine

namespace Code.Orderly

open Machine (Configuration)

variable {code : Code} {address next : Nat} {instruction : Instruction}

/-- Behind an instruction there is another one or the end of the code. -/
theorem next_address (orderly : code.Orderly) {entry : Entry} (member : entry ∈ code.entries) :
    entry.next ∈ code.addresses ∨ entry.next = code.size := by
  rw [orderly.walk]
  exact (orderly.row.next_mem member).symm

theorem address_of_read (listed : address ∈ code.addresses ∨ address = code.size)
    (read : code.instruction? address = some (instruction, next)) : address ∈ code.addresses := by
  rcases listed with among | ends
  · exact among
  · obtain ⟨opcode, known, _⟩ := next_of_instruction? read
    rw [opcode?, ends, Array.getElem?_size] at known
    cases known

theorem single_of_repeats (orderly : code.Orderly)
    (member : ⟨address, instruction, next⟩ ∈ code.entries) (repeats : instruction.repeats = true) :
    ∃ test behind, ⟨next, .test test, behind⟩ ∈ code.entries := by
  obtain ⟨single, among, same, test, shown⟩ := orderly.tested _ member repeats
  obtain ⟨place, found, behind⟩ := single
  dsimp only at same shown
  subst same shown
  exact ⟨test, behind, among⟩

variable {machine : Machine}

/-- Instructions lead only to instructions, and behind the last one. -/
theorem leads (orderly : machine.code.Orderly)
    (listed : address ∈ machine.code.addresses ∨ address = machine.code.size)
    (read : machine.code.instruction? address = some (instruction, next)) (position : Nat)
    (registers : Registers) :
    ∀ further ∈ (machine.move instruction next position registers).addresses,
      further ∈ machine.code.addresses ∨ further = machine.code.size := by
  intro further goes
  have member := orderly.entry_of_address (address_of_read listed read) read
  rcases Machine.addresses_move goes with same | jumps | ⟨repeats, test, found⟩
  · rw [same]
    exact orderly.next_address member
  · exact .inl (orderly.targets _ member further jumps)
  · obtain ⟨_, behind, single⟩ := orderly.single_of_repeats member repeats
    have read := orderly.row.mem_read single
    rw [found] at read
    cases read
    exact orderly.next_address single

/-- Where a run passes the machine's checks, everything it reads is there. -/
theorem safe_of_passes (orderly : machine.code.Orderly) {here : Configuration}
    (listed : here.address ∈ machine.code.addresses ∨ here.address = machine.code.size)
    (passes : machine.Passes here) : ∃ opcode, here.Safe machine.code machine.subject opcode := by
  obtain ⟨inside, instruction, next, read, moves⟩ := passes
  have starts := address_of_read listed read
  have member := orderly.entry_of_address starts read
  obtain ⟨opcode, readable⟩ := readable_of_instruction? read (orderly.row.mem_bounds member).2.2
  have known := readable.known
  refine ⟨opcode, starts, readable, inside, ?_, ?_, ?_, ?_, ?_, ?_, ?_⟩
  case refine_1 => omega
  case refine_2 => omega
  case refine_3 =>
    intro jumps
    obtain ⟨target, reached, goes⟩ := jumpTarget?_of_hasTarget read known jumps
    exact ⟨target, orderly.targets _ member target goes, reached⟩
  case refine_4 =>
    intro repeated
    obtain ⟨repeats, same⟩ := repeats_of_isRepeat read known repeated
    obtain ⟨test, behind, single⟩ := orderly.single_of_repeats member repeats
    have found := orderly.row.mem_read single
    obtain ⟨kind, whole⟩ :=
      readable_of_instruction? found (orderly.row.mem_bounds single).2.2
    rw [← same, orderly.walk]
    exact ⟨kind, isSingle_of_test found whole.known, List.mem_map_of_mem single, whole⟩
  case refine_5 => exact number?_of_hasGroup read known
  case refine_6 => exact number?_of_hasCounter read known
  case refine_7 =>
    intro refers group numbered span held
    obtain ⟨caseless, other, same, named⟩ := backReference_of_isBackReference read known refers
    rw [named] at numbered
    cases Fin.ext (Option.some.inj numbered)
    subst same
    refine Decidable.byContradiction fun outside => ?_
    have refused : ¬ (span.start ≤ span.stop && span.stop ≤ machine.subject.size) = true := by
      simpa using outside
    refine moves .badPosition ?_
    simp only [Machine.move, Machine.repeatGroupMove, held, if_neg refused]

end Code.Orderly

namespace Machine

/-- Everything that the attempts at the starts execute, in order. -/
def scanTrace (machine : Machine) (fuel : Nat) : List Nat → State → List Configuration
  | [], _ => []
  | start :: rest, state =>
      { machine with start }.trace fuel ⟨0, start, state.rearmed⟩ ++
        (machine.attempt fuel start state).calls (fun _ => []) fun state =>
          if state.halted then [] else scanTrace machine fuel rest state

theorem scanTrace_cons (machine : Machine) (fuel start : Nat) (rest : List Nat) (state : State) :
    machine.scanTrace fuel (start :: rest) state =
      { machine with start }.trace fuel ⟨0, start, state.rearmed⟩ ++
        (machine.attempt fuel start state).calls (fun _ => []) fun state =>
          if state.halted then [] else machine.scanTrace fuel rest state := rfl

variable {program : Program} {machine : Machine} {fuel : Nat}

/-- A search without a fault has counted the instructions of its trace. -/
theorem scan_steps {starts : List Nat} {state : State} {found : Option Captures}
    (ended : (program.scan machine fuel starts state).outcome = .ok found) :
    (program.scan machine fuel starts state).steps =
      state.steps + (machine.scanTrace fuel starts state).length := by
  induction starts generalizing state with
  | nil => rfl
  | cons start rest ih =>
      have counts : ∀ after, (machine.attempt fuel start state).state? = some after →
          after.steps = state.steps +
            ({ machine with start }.trace fuel ⟨0, start, state.rearmed⟩).length :=
        run_counts { machine with start } fuel ⟨0, start, state.rearmed⟩
      rw [scanTrace_cons, List.length_append, ← Nat.add_assoc]
      simp only [Program.scan] at ended ⊢
      cases tried : machine.attempt fuel start state with
      | matched after => exact counts after (by rw [tried]; rfl)
      | failed after =>
          rw [← counts after (by rw [tried]; rfl)]
          rw [tried] at ended
          dsimp only [Outcome.calls] at ended ⊢
          split at ended
          · rename_i halted
            rw [if_pos halted, if_pos halted]
            rfl
          · rename_i running
            rw [if_neg running, if_neg running]
            exact ih ended
      | fault reason =>
          rw [tried] at ended
          cases ended

/-- Whatever a search without a fault has executed has passed the checks. -/
theorem scan_passes {starts : List Nat} {state : State} {found : Option Captures}
    (ended : (program.scan machine fuel starts state).outcome = .ok found) :
    ∀ here ∈ machine.scanTrace fuel starts state, here.state.halted = false →
      ∃ start, { machine with start }.Passes here := by
  induction starts generalizing state with
  | nil => exact fun here member => nomatch member
  | cons start rest ih =>
      intro here member running
      have passes : ∀ after, (machine.attempt fuel start state).state? = some after → here ∈
          { machine with start }.trace fuel ⟨0, start, state.rearmed⟩ →
            { machine with start }.Passes here :=
        fun after reached inside => trace_passes { machine with start } fuel
          ⟨0, start, state.rearmed⟩ reached here inside running
      simp only [Program.scan] at ended
      rw [scanTrace_cons] at member
      cases tried : machine.attempt fuel start state with
      | matched after =>
          rcases List.mem_append.mp member with first | later
          · exact ⟨start, passes after (by rw [tried]; rfl) first⟩
          · rw [tried] at later
            cases later
      | failed after =>
          rcases List.mem_append.mp member with first | later
          · exact ⟨start, passes after (by rw [tried]; rfl) first⟩
          · rw [tried] at ended later
            dsimp only [Outcome.calls] at ended later
            split at ended
            · rename_i halted
              rw [if_pos halted] at later
              cases later
            · rename_i unhalted
              rw [if_neg unhalted] at later
              exact ih ended here later running
      | fault reason =>
          rw [tried] at ended
          cases ended

/-- Every attempt starts at the first instruction. -/
theorem scanTrace_addresses (orderly : machine.code.Orderly) {starts : List Nat} {state : State} :
    ∀ here ∈ machine.scanTrace fuel starts state,
      here.address ∈ machine.code.addresses ∨ here.address = machine.code.size := by
  have first : 0 ∈ machine.code.addresses ∨ 0 = machine.code.size := by
    rw [orderly.walk]
    exact orderly.row.start_mem.symm
  induction starts generalizing state with
  | nil => exact fun here member => nomatch member
  | cons start rest ih =>
      intro here member
      rcases List.mem_append.mp member with inside | later
      · have attempted : { machine with start }.code.Orderly := orderly
        exact trace_addresses (fun _ _ _ listed read => attempted.leads listed read) fuel first here
          inside
      · refine Outcome.forall_mem_calls
          (fun here => here.address ∈ machine.code.addresses ∨ here.address = machine.code.size) _
          (fun _ _ ends => absurd ends List.not_mem_nil) (fun mid call goes => ?_) here later
        split at goes
        · cases goes
        · exact ih call goes

end Machine

namespace Program

open Machine (Configuration)

/-- The instructions that a search counts, each with the position and the state it is met in. Those
that are met after a limit is hit are counted but not executed. -/
def visits (program : Program) (subject : Array UInt8) (window : Window)
    (ceilings : Machine.Ceilings) : List Configuration :=
  (program.machine subject ceilings).scanTrace (program.code.fuel subject.size)
    (window.starts subject) .initial

theorem never_orderly : never.code.Orderly := by
  have row : never.code.Row 0 [⟨0, .fail, 1⟩, ⟨1, .succeed, 2⟩] never.code.size :=
    .cons (by decide) (.cons (by decide) (.nil 2))
  have entries := row.entries_eq
  refine ⟨?_, ?_, ?_, ?_⟩
  · rw [entries]
    exact row
  · rw [entries]
    exact row.addresses_eq
  · rw [entries]
    decide
  · rw [entries]
    intro entry member repeats
    rcases List.mem_cons.mp member with same | last
    · rw [same] at repeats
      cases repeats
    · rw [List.mem_singleton.mp last] at repeats
      cases repeats

theorem orderly_of_compile {program : Program} (compiled : program = never ∨
    ∃ pattern flags, compile pattern flags = .ok program) : program.code.Orderly := by
  rcases compiled with same | ⟨pattern, flags, compiled⟩
  · rw [same]
    exact never_orderly
  · obtain ⟨expr, _, _, implements⟩ := implements_of_compile compiled
    exact implements.wellFormed.orderly

theorem never_scan {subject : Array UInt8} {ceilings : Machine.Ceilings} (fuel : Nat)
    {starts : List Nat} (inside : ∀ start ∈ starts, start ≤ subject.size) (state : Machine.State) :
    (never.scan (never.machine subject ceilings) (fuel + 1) starts state).outcome = .ok none := by
  induction starts generalizing state with
  | nil => rfl
  | cons start rest ih =>
      have reads : never.code.instruction? 0 = some (.fail, 1) := by decide
      have bounded : ¬ subject.size < start := Nat.not_lt.mpr (inside start (List.mem_cons_self ..))
      have failed : (never.machine subject ceilings).attempt (fuel + 1) start state =
          .failed (state.rearmed.tick ceilings) := by
        rw [Machine.attempt, Machine.run_succ]
        split
        · rfl
        · refine (if_neg bounded).trans ?_
          simp only [machine, reads]
          rfl
      simp only [scan, failed]
      split
      · rfl
      · exact ih (fun start member => inside start (List.mem_cons_of_mem _ member)) _

/-- No search ends in a fault. -/
theorem report_ends {program : Program} (compiled : program = never ∨
    ∃ pattern flags, compile pattern flags = .ok program) (subject : Array UInt8)
    (window : Window) (ceilings : Machine.Ceilings) :
    ∃ found, (program.report subject window ceilings).outcome = .ok found := by
  rcases compiled with same | ⟨pattern, flags, compiled⟩
  · have inside : ∀ start ∈ window.starts subject, start ≤ subject.size :=
      fun start member => (Window.mem_starts.mp member).2.2
    obtain ⟨fuel, enough⟩ : ∃ fuel, never.code.fuel subject.size = fuel + 1 := by
      have size : never.code.size = 2 := rfl
      have factor : never.code.repeatFactor = 1 := by decide +kernel
      refine Nat.exists_eq_add_one.mpr ?_
      simp only [Code.fuel, size, factor]
      omega
    subst same
    refine ⟨none, ?_⟩
    rw [report, enough]
    exact never_scan fuel inside .initial
  · obtain ⟨expr, _, _, implements⟩ := implements_of_compile compiled
    have cut := implements.report_cut subject window ceilings
    by_cases admitted : ceilings.Admits (program.report subject window .unlimited).steps
        (program.report subject window .unlimited).peak
    · rw [cut.same (admits_zero _) admitted]
      exact ⟨_, implements.report_finds subject window⟩
    · exact ⟨none, (cut.nothing (admits_zero _) admitted).1⟩

/-- Every search ends without a fault, counts the instructions of its trace, and reads nothing that
is not there. -/
theorem search_safe {program : Program} (compiled : program = never ∨
    ∃ pattern flags, compile pattern flags = .ok program) (subject : Array UInt8)
    (window : Window) (limits : Limits) :
    program.groups < Capacity.slots ∧
      (∃ found, (program.report subject window limits.ceilings).outcome = .ok found) ∧
      (program.report subject window limits.ceilings).steps =
        (program.visits subject window limits.ceilings).length ∧
      ∀ here ∈ program.visits subject window limits.ceilings, here.state.halted = false →
        ∃ opcode, here.Safe program.code subject opcode := by
  have orderly := orderly_of_compile compiled
  have few : program.groups < Capacity.slots := by
    rcases compiled with same | ⟨pattern, flags, compiled⟩
    · rw [same]
      decide
    · obtain ⟨expr, _, _, implements⟩ := implements_of_compile compiled
      exact implements.numbered.few
  obtain ⟨found, ended⟩ := report_ends compiled subject window limits.ceilings
  refine ⟨few, ⟨found, ended⟩, ?_, fun here member running => ?_⟩
  · exact (Machine.scan_steps ended).trans (Nat.zero_add _)
  · obtain ⟨start, passes⟩ := Machine.scan_passes ended here member running
    have attempted : { program.machine subject limits.ceilings with start }.code.Orderly := orderly
    have loaded : (program.machine subject limits.ceilings).code.Orderly := orderly
    exact attempted.safe_of_passes (Machine.scanTrace_addresses loaded here member) passes

theorem search_safe_lookbehind :
    ∃ program, compile "(?<=(a))b*\\1".toUTF8.toList .default = .ok program ∧
      (program.visits #[97, 98, 97] ⟨0, 3, .forward⟩ (Limits.ceilings .default)).length = 9 ∧
      ∀ here ∈ program.visits #[97, 98, 97] ⟨0, 3, .forward⟩ (Limits.ceilings .default),
        here.state.halted = false →
          ∃ opcode, here.Safe program.code #[97, 98, 97] opcode := by
  have compiled : compile "(?<=(a))b*\\1".toUTF8.toList .default =
      .ok ⟨#[32, 1, 0, 10, 0, 20, 1, 0, 3, 97, 0, 21, 1, 0, 1, 27, 0, 0, 255, 255, 3, 98, 0, 22, 1,
        0, 0], 1, .default⟩ :=
    compile_of_toOption (by decide +kernel)
  obtain ⟨_, _, _, safe⟩ := search_safe (.inr ⟨_, _, compiled⟩) #[97, 98, 97] ⟨0, 3, .forward⟩
    .default
  exact ⟨_, compiled, by decide +kernel, safe⟩

end Program

end ByteRegex
