import ByteRegex.Proofs.Assembly.Sealing
import ByteRegex.Proofs.Bytecode.Listing
import ByteRegex.Proofs.Bytecode.WellFormed

/-!
# Listings of compiled programs

A listing shows only one byte of the operand of a test, and that is all that a compiled program has
there: whatever consumes one byte comes from a test. So nothing of its code is lost.
-/

namespace ByteRegex

namespace Line

theorem narrow_of_several {line : Line} (several : line.opcode.isSingle = false) : line.Narrow := by
  intro single
  rw [several] at single
  cases single

theorem narrow_of_jump {line : Line} (jumps : line.opcode.hasTarget = true) : line.Narrow := by
  refine narrow_of_several ?_
  cases named : line.opcode <;> rw [named] at jumps <;> first | rfl | cases jumps

end Line

theorem ByteTest.narrow (test : ByteTest) : test.line.Narrow := fun _ => ⟨test, rfl⟩

theorem literalLine_narrow (caseless : Bool) (bytes : List UInt8) :
    (literalLine caseless bytes).Narrow := by
  unfold literalLine
  split
  · exact ByteTest.narrow _
  · refine Line.narrow_of_several ?_
    cases caseless <;> rfl

theorem literalLines_narrow (caseless : Bool) (bytes : List UInt8) :
    ∀ line ∈ literalLines caseless bytes, line.Narrow := by
  fun_induction literalLines caseless bytes with
  | case1 => exact List.forall_mem_nil _
  | case2 bytes filled ih => exact List.forall_mem_cons.mpr ⟨literalLine_narrow caseless _, ih⟩

theorem Step.Assembles.narrow {bodySize address : Nat} {target : Label → Nat}
    {inner lines : List Line} {steps : List Step}
    (assembled : Assembles bodySize target inner address steps lines)
    (apt : ∀ step ∈ steps, step.Apt) (within : ∀ line ∈ inner, line.Narrow) :
    ∀ line ∈ lines, line.Narrow := by
  induction assembled with
  | nil => exact List.forall_mem_nil _
  | plain later ih =>
      rw [List.forall_mem_cons] at apt ⊢
      exact ⟨Line.narrow_of_several apt.1.2.2, ih apt.2⟩
  | jump near later ih =>
      rw [List.forall_mem_cons] at apt ⊢
      exact ⟨Line.narrow_of_jump apt.1, ih apt.2⟩
  | loopHead later ih =>
      rw [List.forall_mem_cons] at apt
      exact ih apt.2
  | body later ih =>
      rw [List.forall_mem_cons] at apt
      exact List.forall_mem_append.mpr ⟨within, ih apt.2⟩

/-- Whatever consumes one byte comes from a test. -/
theorem Expr.Assembles.narrow {expr : Expr} {lines : List Line} (assembled : expr.Assembles lines) :
    ∀ line ∈ lines, line.Narrow := by
  have alone : ∀ opcode operands, opcode.isSingle = false →
      ∀ line ∈ [Line.plain opcode operands], line.Narrow := fun opcode operands several =>
    List.forall_mem_singleton.mpr (Line.narrow_of_several several)
  induction assembled with
  | empty => exact List.forall_mem_nil _
  | test single => exact List.forall_mem_singleton.mpr single.narrow
  | literal caseless bytes => exact literalLines_narrow caseless bytes
  | assertion condition => exact alone _ _ (by cases condition <;> rfl)
  | backReference caseless group => exact alone _ _ (by cases caseless <;> rfl)
  | sequence former latter first second => exact List.forall_mem_append.mpr ⟨first, second⟩
  | alternative former latter skips leaves first second =>
      refine List.forall_mem_cons.mpr ⟨Line.narrow_of_jump rfl, ?_⟩
      refine List.forall_mem_append.mpr ⟨first, ?_⟩
      exact List.forall_mem_cons.mpr ⟨Line.narrow_of_jump rfl, second⟩
  | capture group within ih =>
      refine List.forall_mem_cons.mpr ⟨Line.narrow_of_several rfl, ?_⟩
      exact List.forall_mem_append.mpr ⟨ih, alone _ _ rfl⟩
  | repetition quantifier single =>
      refine List.forall_mem_cons.mpr ⟨Line.narrow_of_several ?_,
        List.forall_mem_singleton.mpr single.narrow⟩
      unfold repetitionLine
      cases quantifier.greed <;> rfl
  | @loop quantifier nullable counter body inner lines within around ih =>
      exact around.narrow (quantifier.loopSteps_apt nullable counter) ih
  | atomic within around ih => exact around.narrow atomicSteps_apt ih
  | @look direction width body inner lines within around ih =>
      exact around.narrow (direction.steps_apt width) ih

namespace Program

/-- A listing can show every line of a compiled program. -/
theorem shown_of_compile {pattern : List UInt8} {flags : Flags} {program : Program}
    (compiled : compile pattern flags = .ok program) :
    ∃ lines, program.code.toList = Line.encodeAll lines ∧
      program.code.addresses = Line.offsets 0 lines ∧ Listing.Shown program.code 0 lines := by
  obtain ⟨_, body, _, _, assembled, whole⟩ := assembles_of_compile compiled
  obtain ⟨_, _, _, implements⟩ := implements_of_compile compiled
  obtain ⟨_, _, _, _, row, met⟩ := implements.entries
  have complete : ∀ line ∈ body ++ [.plain .succeed []], line.Complete :=
    List.forall_mem_append.mpr
      ⟨assembled.sealed.complete, List.forall_mem_singleton.mpr ⟨rfl, rfl⟩⟩
  have places := Code.addresses_of_lines whole complete
  refine ⟨_, whole, places, ?_⟩
  constructor
  case held =>
    rw [← whole]
    exact program.code.has_toList
  case complete => exact complete
  case narrow =>
    exact List.forall_mem_append.mpr
      ⟨assembled.narrow, List.forall_mem_singleton.mpr (Line.narrow_of_several rfl)⟩
  case readable =>
    intro address listed
    rw [← places, met] at listed
    obtain ⟨entry, member, rfl⟩ := List.mem_map.mp listed
    exact ⟨entry.instruction, entry.next, row.mem_read member⟩

/-- A listing has a line for each instruction, which starts with its address, and there is no other
compiled code with the same listing. -/
theorem listing_determines_code {pattern pattern' : List UInt8} {flags flags' : Flags}
    {program program' : Program} (compiled : compile pattern flags = .ok program)
    (compiled' : compile pattern' flags' = .ok program') :
    program.code.listing.toList.splitOn '\n' =
        program.code.addresses.map (fun address => (Listing.line program.code address).toList) ++
          [[]] ∧
      (∀ address ∈ program.code.addresses, ∃ opcode instruction next,
        program.code.opcode? address = some opcode ∧
        program.code.instruction? address = some (instruction, next) ∧
        Listing.line program.code address = Text.fourDigits address ++ "  " ++
          (opcode.name ++ Listing.operands program.code instruction)) ∧
      (program.code.listing = program'.code.listing → program.code = program'.code) := by
  obtain ⟨lines, whole, places, shown⟩ := shown_of_compile compiled
  obtain ⟨lines', whole', places', shown'⟩ := shown_of_compile compiled'
  have readable := shown.readable
  have readable' := shown'.readable
  rw [← places] at readable
  rw [← places'] at readable'
  have split := Listing.splitOn_listing readable
  have split' := Listing.splitOn_listing readable'
  refine ⟨split, ?_, ?_⟩
  · intro address met
    obtain ⟨instruction, next, read⟩ := readable address met
    obtain ⟨opcode, known, _⟩ := Code.next_of_instruction? read
    exact ⟨opcode, instruction, next, known, read, Listing.line_eq known read⟩
  · intro same
    rw [same, split', places, places'] at split
    have texts := List.append_cancel_right split
    have alike : (Line.offsets 0 lines).map (Listing.line program.code) =
        (Line.offsets 0 lines').map (Listing.line program'.code) := by
      refine (List.map_inj_right fun _ _ => String.toList_inj.mp).mp ?_
      rw [List.map_map, List.map_map]
      exact texts.symm
    rw [← Array.toList_inj, whole, whole', Listing.eq_of_lines shown shown' alike]

/-- A backslash with a letter behind it and a line end are told apart. -/
theorem listing_determines_code_backslash :
    compile "\\\\n".toUTF8.toList .default = .ok ⟨#[5, 2, 0, 92, 110, 0], 0, .default⟩ ∧
    compile "\\nn".toUTF8.toList .default = .ok ⟨#[5, 2, 0, 10, 110, 0], 0, .default⟩ ∧
    (Code.listing #[5, 2, 0, 92, 110, 0]).toList.splitOn '\n' =
      ["0000  Str \"\\\\n\"".toList, "0005  Succeed".toList, []] ∧
    Code.listing #[5, 2, 0, 92, 110, 0] ≠ Code.listing #[5, 2, 0, 10, 110, 0] := by
  have compiled : compile "\\\\n".toUTF8.toList .default =
      .ok ⟨#[5, 2, 0, 92, 110, 0], 0, .default⟩ := compile_of_toOption (by decide +kernel)
  have compiled' : compile "\\nn".toUTF8.toList .default =
      .ok ⟨#[5, 2, 0, 10, 110, 0], 0, .default⟩ := compile_of_toOption (by decide +kernel)
  obtain ⟨split, _, determined⟩ := listing_determines_code compiled compiled'
  refine ⟨compiled, compiled', split.trans (by decide +kernel), fun same => ?_⟩
  exact absurd (determined same) (by decide)

end Program

end ByteRegex
