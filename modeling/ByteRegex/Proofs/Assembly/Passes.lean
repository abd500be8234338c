import ByteRegex.Program
import ByteRegex.Proofs.Syntax.Closed

/-!
# Measuring and storing

A pattern may be assembled twice, into a measure first and then into a buffer that has room for as
many bytes. Both passes make the same edits, and the measure knows at any time how many bytes the
buffer holds. Neither of them fails once the pattern has been read.
-/

namespace ByteRegex

/-- An empty buffer with room for some bytes. -/
def CodeBuffer.withCapacity (capacity : Nat) : CodeBuffer := ⟨Array.emptyWithCapacity capacity⟩

/-- A sink that keeps nothing but what is done to it. -/
structure Journal where
  size : Nat
  /-- The first edit first. -/
  edits : List Edit

namespace Journal

def empty : Journal := ⟨0, []⟩

def note (journal : Journal) (edit : Edit) : Journal :=
  ⟨journal.size + edit.growth, journal.edits ++ [edit]⟩

instance : CodeSink Journal where
  size := Journal.size
  append journal bytes := journal.note (.append bytes)
  insert journal position bytes := journal.note (.insert position bytes)
  patch journal position operand := journal.note (.patch position operand)

instance : LawfulSink Journal where
  size_append _ _ := rfl
  size_insert _ _ _ := rfl
  size_patch _ _ _ := rfl

theorem edits_applyAll (journal : Journal) (edits : List Edit) :
    (Edit.applyAll journal edits).edits = journal.edits ++ edits := by
  induction edits generalizing journal with
  | nil => exact (List.append_nil _).symm
  | cons edit later ih =>
      have noted : Edit.apply journal edit = journal.note edit := by cases edit <;> rfl
      show (Edit.applyAll (Edit.apply journal edit) later).edits = _
      rw [ih, noted, note, List.append_assoc, List.singleton_append]

end Journal

namespace Program

/-- What assembling a pattern does to a sink of a certain size. -/
def script (pattern : List UInt8) (flags : Flags) (size : Nat) : Script :=
  match parse pattern flags with
  | .error error => ⟨[], some error⟩
  | .ok (expr, _) => (expr.script size).follow (.done [.append (Opcode.succeed.encode [])])

/-- Any sink is edited as the script for its size says. -/
theorem assemble_eq_run {σ : Type} [CodeSink σ] [LawfulSink σ] (pattern : List UInt8)
    (flags : Flags) (sink : σ) :
    assemble pattern flags sink =
      (parse pattern flags).bind fun (_, groups) =>
        ((script pattern flags (CodeSink.size sink)).run sink).map fun sink => (sink, groups) := by
  unfold assemble script
  cases parse pattern flags with
  | error error => rfl
  | ok result =>
      have whole : ((result.1.script (CodeSink.size sink)).run sink).bind
          (fun sink => .ok (CodeSink.append sink (Opcode.succeed.encode []))) = _ :=
        Script.bind_run _ (.done [.append (Opcode.succeed.encode [])]) fun _ _ => rfl
      simp only [Except.bind, ← whole, Expr.emit_eq_run]
      cases (result.1.script (CodeSink.size sink)).run sink <;> rfl

theorem script_fits (pattern : List UInt8) (flags : Flags) (size : Nat) :
    (script pattern flags size).Fits size := by
  unfold script
  split
  · trivial
  · exact (Expr.script_fits _ size).follow fun _ => ⟨trivial, trivial⟩

theorem assemble_of_refused {σ : Type} [CodeSink σ] [LawfulSink σ] {pattern : List UInt8}
    {flags : Flags} {error : CompileError} (refused : parse pattern flags = .error error)
    (sink : σ) : assemble pattern flags sink = .error error := by
  rw [assemble_eq_run, refused]
  rfl

/-- A pattern that has been read is never refused by a sink. -/
theorem script_failure {pattern : List UInt8} {flags : Flags} {expr : Expr} {groups : Nat}
    (parsed : parse pattern flags = .ok (expr, groups)) (size : Nat) :
    (script pattern flags size).failure = none := by
  obtain ⟨after, emitted⟩ := (measured_of_parse parsed).emit (⟨size⟩ : Measure)
  rw [Expr.emit_eq_run] at emitted
  have completed : (expr.script size).failure = none := Script.failure_of_run emitted
  simp only [script, parsed, Script.follow, completed, Script.done]

theorem assemble_of_parse {σ : Type} [CodeSink σ] [LawfulSink σ] {pattern : List UInt8}
    {flags : Flags} {expr : Expr} {groups : Nat} (parsed : parse pattern flags = .ok (expr, groups))
    (sink : σ) :
    assemble pattern flags sink =
      .ok (Edit.applyAll sink (script pattern flags (CodeSink.size sink)).edits, groups) := by
  rw [assemble_eq_run, parsed]
  simp only [Except.bind, Script.run, script_failure parsed]
  rfl

theorem size_measured (edits : List Edit) :
    (Edit.applyAll Measure.zero edits).size = Edit.growths edits := by
  have grown : (Edit.applyAll Measure.zero edits).size = 0 + Edit.growths edits :=
    Edit.size_applyAll Measure.zero edits
  rw [grown, Nat.zero_add]

theorem size_stored (capacity : Nat) (edits : List Edit) :
    (Edit.applyAll (CodeBuffer.withCapacity capacity) edits).code.size = Edit.growths edits := by
  have grown : (Edit.applyAll (CodeBuffer.withCapacity capacity) edits).code.size =
      0 + Edit.growths edits := Edit.size_applyAll (CodeBuffer.withCapacity capacity) edits
  rw [grown, Nat.zero_add]

/-- What an edit touches has been there before. -/
theorem inside_of_script (pattern : List UInt8) (flags : Flags)
    (next : Fin (script pattern flags 0).edits.length) :
    ((script pattern flags 0).edits.get next).Inside
      (Edit.growths ((script pattern flags 0).edits.take next)) := by
  have fits := script_fits pattern flags 0
  have parts : (script pattern flags 0).edits =
      (script pattern flags 0).edits.take next ++
        (script pattern flags 0).edits.get next :: (script pattern flags 0).edits.drop (next + 1) := by
    rw [List.get_eq_getElem, ← List.drop_eq_getElem_cons, List.take_append_drop]
  rw [Script.Fits, parts, Edit.fit_append, Nat.zero_add] at fits
  exact fits.2.1

/-- The two passes are refused with the same error, which arises while the pattern is read, or they
give the same number of groups and the same size, and the second one gives the code that is
compiled. What is measured of a part while a pattern is read is what the part takes in a buffer,
wherever it stands. At every point of the edits the measure is the number of bytes that are stored,
and what is inserted or patched next lies inside them. -/
theorem passes_agree (pattern : List UInt8) (flags : Flags) (capacity : Nat) :
    ((∃ error, parse pattern flags = .error error ∧
        assemble pattern flags Measure.zero = .error error ∧
        assemble pattern flags (CodeBuffer.withCapacity capacity) = .error error ∧
        compile pattern flags = .error error) ∨
      ∃ measure buffer journal groups,
        assemble pattern flags Measure.zero = .ok (measure, groups) ∧
        assemble pattern flags (CodeBuffer.withCapacity capacity) = .ok (buffer, groups) ∧
        compile pattern flags = .ok ⟨buffer.code, groups, flags⟩ ∧
        measure.size = buffer.code.size ∧
        assemble pattern flags Journal.empty = .ok (journal, groups) ∧
        journal.edits = (script pattern flags 0).edits ∧
        buffer = Edit.applyAll (CodeBuffer.withCapacity capacity) journal.edits) ∧
    (∀ (part : Expr) (buffer : CodeBuffer),
      (part.emit buffer).map (fun after => after.code.size) =
        part.codeSize.map (buffer.code.size + ·)) ∧
    (∀ count, (Edit.applyAll Measure.zero ((script pattern flags 0).edits.take count)).size =
      (Edit.applyAll (CodeBuffer.withCapacity capacity)
        ((script pattern flags 0).edits.take count)).code.size) ∧
    ∀ next : Fin (script pattern flags 0).edits.length,
      ((script pattern flags 0).edits.get next).Inside
        (Edit.applyAll (CodeBuffer.withCapacity capacity)
          ((script pattern flags 0).edits.take next)).code.size := by
  have compiled : compile pattern flags =
      (assemble pattern flags (CodeBuffer.withCapacity capacity)).map fun result =>
        ⟨result.1.code, result.2, flags⟩ := rfl
  refine ⟨?_, fun part buffer => part.size_emit buffer, fun count => ?_, fun next => ?_⟩
  · cases read : parse pattern flags with
    | error error =>
        have stored := assemble_of_refused read (CodeBuffer.withCapacity capacity)
        refine .inl ⟨error, rfl, assemble_of_refused read Measure.zero, stored, ?_⟩
        rw [compiled, stored]
        rfl
    | ok result =>
        obtain ⟨expr, groups⟩ := result
        have noted : (Edit.applyAll Journal.empty (script pattern flags 0).edits).edits =
            (script pattern flags 0).edits := Journal.edits_applyAll .empty _
        have stored := assemble_of_parse read (CodeBuffer.withCapacity capacity)
        refine .inr ⟨_, _, _, groups, assemble_of_parse read Measure.zero, stored, ?_,
          (size_measured _).trans (size_stored capacity _).symm, assemble_of_parse read Journal.empty,
          noted, congrArg _ noted.symm⟩
        rw [compiled, stored]
        rfl
  · rw [size_measured, size_stored]
  · rw [size_stored]
    exact inside_of_script pattern flags next

end Program

end ByteRegex
