import ByteRegex.Proofs.Assembly.Casts
import ByteRegex.Proofs.Assembly.Compiled
import ByteRegex.Proofs.Assembly.Edits
import ByteRegex.Proofs.Grammar.Lexing
import ByteRegex.Proofs.Syntax.Arithmetic
import ByteRegex.Proofs.Syntax.Progress

/-!
# Nothing leaves its range

Whatever the bytes of a pattern are, compiling it ends: every token takes the parser further, which
never has too many groups open. On the way no number is too large for the operand that it becomes,
no place lies outside the pattern or the code, and no operation on numbers overflows.
-/

namespace ByteRegex

/-! ## Lengths of code -/

section Emission

variable {σ : Type} [CodeSink σ] [LawfulSink σ] {sink after : σ}

/-- Assembly never takes code back. -/
theorem Script.size_of_run {script : Script} (ran : script.run sink = .ok after) :
    CodeSink.size after = CodeSink.size sink + script.growth := by
  rw [Script.run, Script.failure_of_run ran] at ran
  cases ran
  exact Edit.size_applyAll sink script.edits

theorem Expr.size_le_of_emit {expr : Expr} (emitted : expr.emit sink = .ok after) :
    CodeSink.size sink ≤ CodeSink.size after := by
  rw [Expr.emit_eq_run] at emitted
  rw [Script.size_of_run emitted]
  exact Nat.le_add_right _ _

theorem size_of_endBranch {start : Nat} (ended : endBranch start sink = .ok after) :
    CodeSink.size after = CodeSink.size sink + 6 := by
  rw [endBranch_eq_run] at ended
  rw [Script.size_of_run ended, growth_endBranchScript (Script.failure_of_run ended)]

end Emission

/-! ## Compilation -/

theorem Token.backReference_of_read (byte : UInt8) (rest : List UInt8) (group : Nat)
    (read : (Token.read byte rest).1 = .backReference group) :
    1 ≤ group ∧ group < Capacity.slots := by
  have lexeme : Grammar.Lexeme (byte :: rest) (.backReference group) (Token.read byte rest).2 := by
    rw [← read]
    exact Grammar.lexeme_of_read (by rw [read]; rfl)
  generalize (Token.read byte rest).2 = behind at lexeme
  cases lexeme with
  | backReference lower upper =>
      have above : 49 ≤ _ := UInt8.le_iff_toNat_le.mp lower
      have below : _ ≤ 57 := UInt8.le_iff_toNat_le.mp upper
      simp only [Capacity.slots]
      omega

/-- The parser at a place of a pattern, with everything in range. -/
structure ParseState.InRange (state : ParseState) (rest pattern : List UInt8) : Prop where
  position : rest <:+ pattern
  depth : state.outer.length ≤ Capacity.nesting
  groups : state.groups < Capacity.slots
  closed : ∀ group ∈ state.closed, 1 ≤ group ∧ group < Capacity.slots
  counters : state.counters ≤ Capacity.counters
  casts : ∀ number ∈ state.casts, Castable number

theorem ParseState.Run.inRange {flags : Flags} {pattern rest : List UInt8} {state : ParseState}
    (run : Run (initial flags) pattern state rest) : state.InRange rest pattern where
  position := run.suffix
  depth := run.depth (Nat.zero_le _)
  groups := (run.sound (initial_sound flags)).groups
  closed group listed := by
    have sound := run.sound (initial_sound flags)
    obtain ⟨positive, opened⟩ := sound.closed group listed
    exact ⟨positive, Nat.lt_of_le_of_lt opened sound.groups⟩
  counters := (run.sound (initial_sound flags)).counters
  casts := (run.sound (initial_sound flags)).castable

/-- Compiling a pattern ends, with everything in range on the way. -/
structure CompilesInRange (pattern : List UInt8) (flags : Flags) : Prop where
  /-- There are no more tokens to read than bytes. -/
  short : (tokens pattern).length ≤ pattern.length
  /-- The parser comes to the end of the pattern or to a token that it refuses. -/
  ends : pattern ≠ [] → flags.verbatim = false → ∃ last behind,
    ParseState.Run (.initial flags) pattern last behind ∧
      (behind = [] ∧ parse pattern flags = last.finish ∨
        ∃ byte rest error, behind = byte :: rest ∧
          last.step (Token.read byte rest).1 = .error error ∧ parse pattern flags = .error error)
  places : ∀ state rest, ParseState.Run (.initial flags) pattern state rest →
    state.InRange rest pattern
  /-- A token takes its first byte at least, and no bytes that are not there. -/
  advances : ∀ byte rest, (Token.read byte rest).2 <:+ rest
  /-- Every part of a branch takes a byte at least, and so does every group that is opened. -/
  pieces : ∀ state rest last behind, ParseState.Run state rest last behind →
    last.extent + behind.length ≤ state.extent + rest.length ∧
      (last.outer = state.outer →
        last.frame.parts + behind.length ≤ state.frame.parts + rest.length)
  references : ∀ group, .backReference group ∈ tokens pattern → 1 ≤ group ∧ group < Capacity.slots
  /-- The operands of the code, apart from distances, are what the numbers of the pattern are. -/
  operands : ∀ program, Program.compile pattern flags = .ok program → ∃ expr lines,
    parse pattern flags = .ok (expr, program.groups) ∧
      program.code.toList = Line.encodeAll (lines ++ [.plain .succeed []]) ∧
      ∀ line ∈ lines, ∀ operand ∈ line.numbers, operand = Operand.unbounded ∨
        ∃ number ∈ expr.casts, operand = Int16.ofNat number ∧ operand.toInt = number
  /-- Code is inserted and patched only where there is code, whether or not assembly succeeds. -/
  edits : ∀ (part : Expr) (size : Nat), (part.script size).Fits size
  /-- No length of a part is negative, and a waiting jump has an operand in front of its end. -/
  lengths : ∀ {σ : Type} [CodeSink σ] [LawfulSink σ] (sink after : σ),
    (∀ part : Expr, part.emit sink = .ok after → CodeSink.size sink ≤ CodeSink.size after) ∧
      ∀ start, endBranch start sink = .ok after → CodeSink.size after = CodeSink.size sink + 6
  /-- Besides a distance an instruction has two operands at most. -/
  slots : ∀ opcode : Opcode, if opcode.hasTarget then
    1 ≤ opcode.operandCount ∧ opcode.operandCount - 1 ≤ 2 else opcode.operandCount ≤ 2
  bits : ∀ (set : ByteSet) (byte : UInt8), byte.toNat / 8 < set.bitmap.size
  /-- Machine arithmetic with checks reads the same numbers. -/
  bounds : ∀ digits,
    Checked.readBound digits = some ((Quantifier.readBound digits).map UInt32.ofNat)
  octals : ∀ input, (Checked.readOctal 3 0 input).map (fun read => (read.1.toNat, read.2)) =
    some (Escape.readOctal 3 0 input)
  hexes : ∀ input, Checked.readHex input = some (Escape.readHex input)

/-- Compilation ends for all patterns and flags, and nothing leaves its range on the way. -/
theorem compile_in_range (pattern : List UInt8) (flags : Flags) :
    CompilesInRange pattern flags where
  short := length_tokens_le pattern
  ends filled readable := by
    have read : parse pattern flags = (ParseState.initial flags).readAll pattern := by
      rw [parse, readable, if_neg fun empty => filled (List.isEmpty_iff.mp empty),
        if_neg Bool.false_ne_true]
    rw [read]
    exact (ParseState.initial flags).exists_run pattern
  places _ _ run := run.inRange
  advances := Token.read_suffix
  pieces _ _ _ _ run := ⟨run.extent, run.parts⟩
  references group listed := by
    have each : ∀ token ∈ tokens pattern, ∀ group, token = .backReference group →
        1 ≤ group ∧ group < Capacity.slots := forall_mem_tokens Token.backReference_of_read pattern
    exact each _ listed group rfl
  operands program compiled := by
    obtain ⟨expr, lines, parsed, _, layout, code⟩ := Program.assembles_of_compile compiled
    refine ⟨expr, lines, parsed, code, fun line member operand listed => ?_⟩
    refine (layout.counts line member operand listed).imp_right ?_
    rintro ⟨number, cast, rfl⟩
    exact ⟨number, cast, rfl, (parse_numbered parsed).wellFormed.castable number cast⟩
  edits part size := part.script_fits size
  lengths _ _ := ⟨fun _ => Expr.size_le_of_emit, fun _ => size_of_endBranch⟩
  slots opcode := by cases opcode <;> decide
  bits set byte := Nat.div_lt_of_lt_mul byte.toNat_lt
  bounds := Checked.readBound_eq
  octals := Checked.readOctal_eq
  hexes := Checked.readHex_eq

end ByteRegex
