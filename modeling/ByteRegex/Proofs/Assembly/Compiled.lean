import ByteRegex.Program
import ByteRegex.Proofs.Assembly.LaidOut
import ByteRegex.Proofs.Syntax.Parse

/-!
# Compiled programs

A compiled program is the code of its pattern's expression with one instruction behind it, which
ends the match.
-/

namespace ByteRegex.Program

/-- A program whose code is that of an expression. -/
structure Implements (program : Program) (expr : Expr) : Prop where
  numbered : expr.Numbered program.groups
  laidOut : ∃ stop, expr.LaidOut program.code 0 stop ∧
    program.code.instruction? stop = some (.succeed, program.code.size)

/-- What a pattern compiles to can be found by evaluation, as programs can be compared. -/
theorem compile_of_toOption {pattern : List UInt8} {flags : Flags} {program : Program}
    (kept : (compile pattern flags).toOption = some program) :
    compile pattern flags = .ok program := by
  cases compiled : compile pattern flags with
  | error error =>
      rw [compiled] at kept
      cases kept
  | ok found =>
      rw [compiled] at kept
      cases kept
      rfl

/-- A compiled program consists of the lines of its expression and one line more. -/
theorem assembles_of_compile {pattern : List UInt8} {flags : Flags} {program : Program}
    (compiled : compile pattern flags = .ok program) :
    ∃ expr lines, parse pattern flags = .ok (expr, program.groups) ∧ program.flags = flags ∧
      expr.Assembles lines ∧
      program.code.toList = Line.encodeAll (lines ++ [.plain .succeed []]) := by
  obtain ⟨⟨buffer, groups⟩, assembled, same⟩ := exists_of_map compiled
  subst same
  unfold assemble at assembled
  split at assembled
  · cases assembled
  · rename_i expr count parsed
    obtain ⟨body, emitted, same⟩ := exists_of_map assembled
    cases same
    obtain ⟨lines, layout, code⟩ := expr.assembles_of_emit emitted
    refine ⟨expr, lines, parsed, rfl, layout, ?_⟩
    have appended := CodeBuffer.toList_append body (Opcode.succeed.encode [])
    rw [code] at appended
    rw [Line.encodeAll_append]
    exact appended

/-- Compiling a pattern implements its expression. -/
theorem implements_of_compile {pattern : List UInt8} {flags : Flags} {program : Program}
    (compiled : compile pattern flags = .ok program) :
    ∃ expr, parse pattern flags = .ok (expr, program.groups) ∧ program.flags = flags ∧
      program.Implements expr := by
  obtain ⟨expr, lines, parsed, same, layout, whole⟩ := assembles_of_compile compiled
  refine ⟨expr, parsed, same, parse_numbered parsed, ?_⟩
  have held := Code.has_toList program.code
  rw [whole, Line.encodeAll_append, Code.has_append, Nat.zero_add] at held
  refine ⟨Line.extent lines, ?_, ?_⟩
  · have laid := Expr.laidOut_of_assembles layout (parse_numbered parsed).wellFormed held.1
    rwa [Nat.zero_add] at laid
  · have size : program.code.size = Line.extent lines + 1 := by
      rw [← Array.length_toList, whole, Line.encodeAll_append, List.length_append]
      rfl
    rw [size]
    exact Code.instruction?_succeed held.2

end ByteRegex.Program
