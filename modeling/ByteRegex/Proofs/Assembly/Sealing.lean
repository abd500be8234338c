import ByteRegex.Proofs.Assembly.LaidOut
import ByteRegex.Proofs.Bytecode.Sealed

/-!
# Expressions are sealed

No jump leaves the code of an expression, however its parts have been put together. The only jumps
are those of choices and of the steps around a body, and they arrive at lines of their own.
-/

namespace ByteRegex

theorem Opcode.payloadSize_of_jump {opcode : Opcode} (jumps : opcode.hasTarget = true)
    (operands : List Int16) : opcode.payloadSize operands = 0 := by
  cases opcode <;> first | rfl | cases jumps

namespace Line

theorem complete_plain {opcode : Opcode} {operands : List Int16}
    (count : operands.length = opcode.operandCount) (bare : opcode.payloadSize operands = 0) :
    (plain opcode operands).Complete := ⟨count, bare.symm⟩

end Line

theorem ByteTest.line_complete (test : ByteTest) : test.line.Complete := by
  cases test with
  | set members => exact ⟨rfl, members.bitmap.length_toList⟩
  | byte | byteAnyCase | any | anyButNewline | inClass | notInClass => exact ⟨rfl, rfl⟩

theorem ByteTest.line_straight (test : ByteTest) : test.line.opcode.hasTarget = false := by
  cases test <;> rfl

theorem ByteTest.sealed (test : ByteTest) : Line.Sealed [test.line] :=
  .singleton test.line_complete (Line.distance?_of_straight test.line_straight)

theorem literalLine_complete (caseless : Bool) {bytes : List UInt8}
    (short : bytes.length ≤ Capacity.literal) : (literalLine caseless bytes).Complete := by
  have counted : Operand.toNat (Int16.ofNat bytes.length) = bytes.length :=
    Operand.toNat_ofNat (by simp only [Capacity.literal] at short; omega)
  unfold literalLine
  split
  · exact ByteTest.line_complete _
  · cases caseless with
    | false => exact ⟨rfl, counted.symm⟩
    | true => exact ⟨rfl, by rw [if_pos rfl, List.length_map]; exact counted.symm⟩

theorem literalLine_straight (caseless : Bool) (bytes : List UInt8) :
    (literalLine caseless bytes).opcode.hasTarget = false := by
  unfold literalLine
  split
  · exact ByteTest.line_straight _
  · cases caseless <;> rfl

theorem literalLines_sealed (caseless : Bool) (bytes : List UInt8) :
    Line.Sealed (literalLines caseless bytes) := by
  fun_induction literalLines caseless bytes with
  | case1 => exact .nil
  | case2 bytes filled ih =>
      have first := Line.Sealed.singleton
        (literalLine_complete caseless (List.length_take_le Capacity.literal bytes))
        (Line.distance?_of_straight (literalLine_straight caseless _))
      exact first.append ih

theorem repetition_sealed (quantifier : Quantifier) (single : ByteTest) :
    Line.Sealed [repetitionLine quantifier, single.line] := by
  have straight : (repetitionLine quantifier).opcode.hasTarget = false ∧
      (repetitionLine quantifier).Complete := by
    unfold repetitionLine
    cases quantifier.greed <;> exact ⟨rfl, rfl, rfl⟩
  have first := Line.Sealed.singleton straight.2 (Line.distance?_of_straight straight.1)
  exact first.append single.sealed

theorem Assertion.sealed (condition : Assertion) : Line.Sealed [.plain condition.opcode []] := by
  cases condition <;> exact .singleton ⟨rfl, rfl⟩ rfl

/-- A line with one operand that is neither a distance nor a length. -/
theorem sealed_of_number {opcode : Opcode} (single : opcode.operandCount = 1)
    (straight : opcode.hasTarget = false) (bare : ∀ operands, opcode.payloadSize operands = 0)
    (number : Int16) : Line.Sealed [.plain opcode [number]] :=
  .singleton (Line.complete_plain single.symm (bare _)) (Line.distance?_of_straight straight)

/-- A jump in front of lines to one of them or to their end. -/
theorem Line.Sealed.cons_jump {lines : List Line} {opcode : Opcode} {distance : Int16}
    (within : Sealed lines) (jumps : opcode.hasTarget = true) (single : opcode.operandCount = 1)
    (arrives : Boundary lines distance.toInt) : Sealed (.plain opcode [distance] :: lines) where
  complete := List.forall_mem_cons.mpr
    ⟨complete_plain single.symm (Opcode.payloadSize_of_jump jumps _), within.complete⟩
  lands := by
    refine ⟨fun other far => ?_, ?_⟩
    · have same : other = distance :=
        Option.some.inj (far.symm.trans (distance?_plain jumps [] distance))
      rw [same, Int.zero_add, ← extent_singleton]
      exact arrives.behind [.plain opcode [distance]]
    · have moved := within.lands_within [.plain opcode [distance]] []
      rwa [List.append_nil, extent_singleton, ← Int.zero_add (Nat.cast _)] at moved

namespace Step

/-- A step that is a jump if and only if its instruction is one, and that has no payload and consumes
nothing. -/
def Apt : Step → Prop
  | plain opcode operands =>
      opcode.hasTarget = false ∧ opcode.payloadSize operands = 0 ∧ opcode.isSingle = false
  | jump opcode _ _ => opcode.hasTarget = true
  | loopHead | body => True

variable {bodySize address : Nat} {target : Label → Nat} {inner lines : List Line}
  {steps : List Step}

theorem Assembles.split {front back : List Step}
    (assembled : Assembles bodySize target inner address (front ++ back) lines) :
    ∃ ahead behind, lines = ahead ++ behind ∧
      Assembles bodySize target inner address front ahead := by
  induction front generalizing address lines with
  | nil => exact ⟨[], lines, rfl, .nil address⟩
  | cons step front ih =>
      cases assembled with
      | plain later =>
          obtain ⟨ahead, behind, rfl, first⟩ := ih later
          exact ⟨_, behind, (List.cons_append ..).symm, .plain first⟩
      | jump near later =>
          obtain ⟨ahead, behind, rfl, first⟩ := ih later
          exact ⟨_, behind, (List.cons_append ..).symm, .jump near first⟩
      | loopHead later =>
          obtain ⟨ahead, behind, rfl, first⟩ := ih later
          exact ⟨_, behind, rfl, .loopHead first⟩
      | body later =>
          obtain ⟨ahead, behind, rfl, first⟩ := ih later
          exact ⟨_, behind, (List.append_assoc ..).symm, .body first⟩

/-- Labels stand between lines. -/
theorem Assembles.boundary
    (assembled : Assembles (Line.extent inner) target inner 0 steps lines)
    (wholes : ∀ step ∈ steps, step.Whole) (label : Label) :
    Line.Boundary lines (labelAddress (Line.extent inner) 0 steps label) := by
  cases label with
  | exit =>
      rw [labelAddress, Nat.zero_add, ← extent_of_assembles assembled wholes]
      exact Line.boundary_end lines
  | loop =>
      rw [labelAddress, headAddress, Nat.zero_add]
      split
      · have parts : steps = steps.takeWhile (· ≠ .loopHead) ++ steps.dropWhile (· ≠ .loopHead) :=
          List.takeWhile_append_dropWhile.symm
        rw [parts] at assembled
        obtain ⟨ahead, behind, rfl, first⟩ := assembled.split
        rw [← extent_of_assembles first fun step member =>
          wholes step ((List.takeWhile_sublist _).subset member)]
        exact Line.boundary_extent ahead behind
      · exact Line.boundary_zero lines

theorem Assembles.complete (assembled : Assembles bodySize target inner address steps lines)
    (wholes : ∀ step ∈ steps, step.Whole) (apt : ∀ step ∈ steps, step.Apt)
    (within : ∀ line ∈ inner, line.Complete) : ∀ line ∈ lines, line.Complete := by
  induction assembled with
  | nil => exact List.forall_mem_nil _
  | plain later ih =>
      rw [List.forall_mem_cons] at wholes apt ⊢
      exact ⟨Line.complete_plain wholes.1.1 apt.1.2.1, ih wholes.2 apt.2⟩
  | jump near later ih =>
      rw [List.forall_mem_cons] at wholes apt ⊢
      refine ⟨Line.complete_plain ?_ (Opcode.payloadSize_of_jump apt.1 _), ih wholes.2 apt.2⟩
      rw [← wholes.1.1, List.length_append]
      rfl
  | loopHead later ih =>
      rw [List.forall_mem_cons] at wholes apt
      exact ih wholes.2 apt.2
  | body later ih =>
      rw [List.forall_mem_cons] at wholes apt
      exact List.forall_mem_append.mpr ⟨within, ih wholes.2 apt.2⟩

/-- Jumps among steps arrive at labels, and those of the body where they arrived before. -/
theorem Assembles.lands {front : List Line}
    (assembled : Assembles (Line.extent inner) target inner address steps lines)
    (wholes : ∀ step ∈ steps, step.Whole) (apt : ∀ step ∈ steps, step.Apt)
    (within : Line.Sealed inner) (here : address = Line.extent front)
    (labels : ∀ label, Line.Boundary (front ++ lines) (target label)) :
    Line.Lands (Line.Boundary (front ++ lines)) address lines := by
  induction assembled generalizing front with
  | nil => trivial
  | @plain address opcode operands rest lines later ih =>
      rw [List.forall_mem_cons] at wholes apt
      have size := Whole.length_plain wholes.1.1 wholes.1.2
      rw [List.append_cons] at labels ⊢
      refine ⟨fun distance far => ?_, ?_⟩
      · rw [Line.distance?_of_straight apt.1.1] at far
        cases far
      · rw [size, ← Int.natCast_add]
        refine ih wholes.2 apt.2 ?_ labels
        rw [Line.extent_append, Line.extent_singleton, size, here]
  | @jump address opcode operands label distance rest lines near later ih =>
      rw [List.forall_mem_cons] at wholes apt
      have size : (Line.plain opcode (operands ++ [distance])).encode.length = opcode.fixedSize :=
        Whole.length_plain (by rw [List.length_append, ← wholes.1.1]; rfl) wholes.1.2
      have arrives := labels label
      rw [List.append_cons] at labels arrives ⊢
      refine ⟨fun other far => ?_, ?_⟩
      · have same := far.symm.trans (Line.distance?_plain apt.1 operands distance)
        cases same
        have reaches := toInt_of_jumpDistance near
        simp only [Int.ofNat_eq_natCast] at reaches
        rw [size, reaches, ← Int.natCast_add, Int.add_comm, Int.sub_add_cancel]
        exact arrives
      · rw [size, ← Int.natCast_add]
        refine ih wholes.2 apt.2 ?_ labels
        rw [Line.extent_append, Line.extent_singleton, size, here]
  | loopHead later ih =>
      rw [List.forall_mem_cons] at wholes apt
      exact ih wholes.2 apt.2 here labels
  | @body address rest lines later ih =>
      rw [List.forall_mem_cons] at wholes apt
      have moved := within.lands_within front lines
      refine Line.lands_append.mpr ⟨by rwa [here], ?_⟩
      rw [← List.append_assoc] at labels ⊢
      rw [← Int.natCast_add]
      refine ih wholes.2 apt.2 ?_ labels
      rw [Line.extent_append, here]

/-- Steps around a sealed body. -/
theorem Assembles.sealed
    (assembled : Assembles (Line.extent inner) (labelAddress (Line.extent inner) 0 steps) inner 0
      steps lines)
    (wholes : ∀ step ∈ steps, step.Whole) (apt : ∀ step ∈ steps, step.Apt)
    (within : Line.Sealed inner) : Line.Sealed lines where
  complete := assembled.complete wholes apt within.complete
  lands := by
    have labels : ∀ label, Line.Boundary ([] ++ lines)
        (labelAddress (Line.extent inner) 0 steps label) := fun label =>
      assembled.boundary wholes label
    exact assembled.lands wholes apt within rfl labels

end Step

theorem Quantifier.loopSteps_apt (quantifier : Quantifier) (nullable : Bool) (counter : Nat) :
    ∀ step ∈ quantifier.loopSteps nullable counter, step.Apt := by
  unfold loopSteps
  dsimp only
  by_cases slow : quantifier.greed = .lazy
  all_goals
    simp only [slow, if_true, if_false]
    repeat' split
    all_goals simp [Step.Apt, Opcode.hasTarget, Opcode.payloadSize, Opcode.isSingle]

theorem atomicSteps_apt : ∀ step ∈ atomicSteps, step.Apt := by
  simp [atomicSteps, Step.Apt, Opcode.hasTarget, Opcode.payloadSize, Opcode.isSingle]

theorem Look.steps_apt (direction : Look) (width : Nat) :
    ∀ step ∈ direction.steps width, step.Apt := by
  cases direction <;> simp [steps, opcode, Step.Apt, Opcode.hasTarget, Opcode.payloadSize, Opcode.isSingle]

namespace Line.Sealed

variable {inner ahead behind : List Line} {skip leave : Int16}

theorem capture (group : Int16) (within : Sealed inner) :
    Sealed (.plain .openGroup [group] :: inner ++ [.plain .closeGroup [group]]) :=
  ((sealed_of_number rfl rfl (fun _ => rfl) group).append within).append
    (sealed_of_number rfl rfl (fun _ => rfl) group)

/-- A branch whose end is a jump past another one. -/
theorem alternative (first : Sealed ahead) (second : Sealed behind)
    (skips : skip.toInt = extent ahead + 3) (leaves : leave.toInt = extent behind) :
    Sealed (.plain .branch [skip] :: ahead ++ .plain .jump [leave] :: behind) := by
  have later : Sealed (.plain .jump [leave] :: behind) := by
    refine second.cons_jump rfl rfl ?_
    rw [leaves]
    exact boundary_end behind
  refine (first.append later).cons_jump rfl rfl ?_
  have place : skip.toInt = extent (ahead ++ [.plain .jump [leave]]) := by
    rw [skips, extent_append]
    rfl
  rw [List.append_cons, place]
  exact boundary_extent _ behind

end Line.Sealed

/-- No jump leaves the code of an expression. -/
theorem Expr.Assembles.sealed {expr : Expr} {lines : List Line} (assembled : expr.Assembles lines) :
    Line.Sealed lines := by
  induction assembled with
  | empty => exact .nil
  | test single => exact single.sealed
  | literal caseless bytes => exact literalLines_sealed caseless bytes
  | assertion condition => exact condition.sealed
  | backReference caseless group => cases caseless <;> exact sealed_of_number rfl rfl (fun _ => rfl) _
  | sequence former latter first second => exact first.append second
  | alternative former latter skips leaves first second =>
      have across := toInt_of_jumpDistance skips
      have beyond := toInt_of_jumpDistance leaves
      simp only [Int.ofNat_eq_natCast] at across beyond
      exact .alternative first second (by omega) (by omega)
  | capture group within ih => exact ih.capture _
  | repetition quantifier single => exact repetition_sealed quantifier single
  | @loop quantifier nullable counter body inner lines within around ih =>
      exact around.sealed (quantifier.loopSteps_whole nullable counter)
        (quantifier.loopSteps_apt nullable counter) ih
  | atomic within around ih => exact around.sealed atomicSteps_whole atomicSteps_apt ih
  | @look direction width body inner lines within around ih =>
      exact around.sealed (direction.steps_whole width) (direction.steps_apt width) ih

end ByteRegex
