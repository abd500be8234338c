import ByteRegex.Proofs.Assembly.Edits
import ByteRegex.Proofs.Assembly.Layout
import ByteRegex.Proofs.Syntax.Bounds

/-!
# Code at other places

Jumps are relative. So what stands in front of an expression decides neither whether it can be
emitted nor how many bytes it takes: what is measured on its own holds wherever it is emitted.
-/

namespace ByteRegex

theorem Edit.growths_append (earlier later : List Edit) :
    growths (earlier ++ later) = growths earlier + growths later := by
  induction earlier with
  | nil => exact (Nat.zero_add _).symm
  | cons edit earlier ih => rw [List.cons_append, growths_cons, ih, growths_cons, Nat.add_assoc]

namespace Step

variable (base bodySize : Nat) (target : Label → Nat)

theorem encode_shift (address : Nat) (step : Step) :
    step.encode (fun label => base + target label) (base + address) = step.encode target address := by
  cases step with
  | jump opcode operands label => simp only [encode, Nat.add_assoc, jumpDistance_shift]
  | plain | loopHead | body => rfl

theorem encodeAll_shift (address : Nat) (steps : List Step) :
    encodeAll bodySize (fun label => base + target label) (base + address) steps =
      encodeAll bodySize target address steps := by
  induction steps generalizing address with
  | nil => rfl
  | cons step rest ih => simp only [encodeAll, encode_shift, Nat.add_assoc, ih]

end Step

namespace Script

/-- Two scripts that fail alike and bring as many bytes, maybe at different places. -/
structure Alike (script other : Script) : Prop where
  failure : script.failure = other.failure
  growth : script.growth = other.growth

namespace Alike

theorem refl (script : Script) : script.Alike script := ⟨rfl, rfl⟩

theorem symm {script other : Script} (alike : script.Alike other) : other.Alike script :=
  ⟨alike.failure.symm, alike.growth.symm⟩

theorem follow {first other later after : Script} (ahead : first.Alike other)
    (behind : later.Alike after) : (first.follow later).Alike (other.follow after) := by
  cases completed : first.failure with
  | none =>
      have completed' := ahead.failure.symm.trans completed
      have grown := ahead.growth
      have grown' := behind.growth
      simp only [Script.growth] at grown grown'
      simp only [Script.follow, completed, completed']
      exact ⟨behind.failure, by simp only [Script.growth, Edit.growths_append, grown, grown']⟩
  | some error =>
      have completed' := ahead.failure.symm.trans completed
      simp only [Script.follow, completed, completed']
      exact ahead

theorem spanning (distance : Except CompileError Int16) {edits edits' : Int16 → List Edit}
    (grown : ∀ distance, Edit.growths (edits distance) = Edit.growths (edits' distance)) :
    (Script.spanning distance edits).Alike (Script.spanning distance edits') := by
  cases distance with
  | error error => exact .refl _
  | ok distance => exact ⟨rfl, grown distance⟩

theorem enclosing (start start' : Nat) (leading trailing : Except CompileError (List UInt8)) :
    (Script.enclosing start leading trailing).Alike
      (Script.enclosing start' leading trailing) := by
  cases leading <;> cases trailing <;> exact ⟨rfl, rfl⟩

theorem run_both {σ τ : Type} [CodeSink σ] [LawfulSink σ] [CodeSink τ] [LawfulSink τ]
    {script other : Script} (alike : script.Alike other) (left : σ) (right : τ) :
    Both (fun after after' => CodeSink.size after = CodeSink.size left + script.growth ∧
        CodeSink.size after' = CodeSink.size right + script.growth)
      (script.run left) (other.run right) := by
  unfold run
  rw [← alike.failure]
  split
  · refine .ok ⟨Edit.size_applyAll left script.edits, ?_⟩
    rw [alike.growth]
    exact Edit.size_applyAll right other.edits
  · exact .error _

end Alike

end Script

theorem endBranchScript_shift (base start size : Nat) :
    (endBranchScript (base + start) (base + size)).Alike (endBranchScript start size) := by
  rw [endBranchScript, endBranchScript, Nat.add_assoc, jumpDistance_shift]
  exact .spanning _ fun _ => rfl

theorem landJumpScript_shift (base origin size : Nat) :
    (landJumpScript (base + origin) (base + size)).Alike (landJumpScript origin size) := by
  rw [landJumpScript, landJumpScript, jumpDistance_shift]
  exact .spanning _ fun _ => rfl

theorem wrapScript_shift (base start : Nat) (steps : List Step) (size : Nat) :
    (wrapScript (base + start) steps (base + size)).Alike (wrapScript start steps size) := by
  have target : ∀ bodySize, Step.labelAddress bodySize (base + start) steps =
      fun label => base + Step.labelAddress bodySize start steps label := by
    intro bodySize
    funext label
    rw [Step.labelAddress_shift, Step.labelAddress_shift bodySize start, Nat.add_assoc]
  simp only [wrapScript, Nat.add_sub_add_left, target, Nat.add_assoc, Step.encodeAll_shift]
  exact .enclosing ..

theorem Script.Alike.wrapped {body other : Script} (inner : body.Alike other) (base start : Nat)
    (steps : List Step) : (body.wrapped (base + start) steps).Alike (other.wrapped start steps) := by
  refine inner.follow ?_
  rw [inner.growth, Nat.add_assoc]
  exact wrapScript_shift ..

/-- An expression can be emitted somewhere if and only if it can be emitted further behind, and it
takes as many bytes there. -/
theorem Expr.script_shift (expr : Expr) (base start : Nat) :
    (expr.script (base + start)).Alike (expr.script start) := by
  induction expr generalizing start with
  | empty | test | literal | assertion | backReference => exact .refl _
  | repetition quantifier single => exact ⟨rfl, rfl⟩
  | sequence first second former latter =>
      refine (former start).follow ?_
      rw [(former start).growth, Nat.add_assoc]
      exact latter _
  | alternative first second former latter =>
      have tried := former start
      have ended := endBranchScript_shift base start (start + (first.script start).growth)
      simp only [script, tried.growth, Nat.add_assoc] at ended ⊢
      simp only [ended.growth]
      have other := latter (start + ((first.script start).growth +
        (endBranchScript start (start + (first.script start).growth)).growth))
      rw [other.growth]
      exact tried.follow (ended.follow (other.follow (landJumpScript_shift ..)))
  | capture group body ih =>
      simp only [script, Nat.add_assoc]
      exact (Script.Alike.refl _).follow ((ih _).follow (.refl _))
  | loop quantifier nullable counter body ih => exact (ih start).wrapped ..
  | atomic body ih => exact (ih start).wrapped ..
  | look direction width body ih => exact (ih start).wrapped ..

/-- What is measured of an expression on its own is what it takes behind any code. -/
theorem Expr.size_emit {σ : Type} [CodeSink σ] [LawfulSink σ] (expr : Expr) (sink : σ) :
    (expr.emit sink).map CodeSink.size = expr.codeSize.map (CodeSink.size sink + ·) := by
  have alike := (expr.script_shift (CodeSink.size sink) 0).symm
  have measured : expr.emit Measure.zero = (expr.script 0).run Measure.zero := emit_eq_run ..
  have stored : expr.emit sink = (expr.script (CodeSink.size sink + 0)).run sink := emit_eq_run ..
  have both := alike.run_both Measure.zero sink
  rw [← measured, ← stored] at both
  rw [codeSize]
  generalize expr.emit Measure.zero = first at both ⊢
  generalize expr.emit sink = second at both ⊢
  cases both with
  | error error => rfl
  | @ok measure after grown =>
      have size : measure.size = 0 + (expr.script 0).growth := grown.1
      simp only [Except.map, size, Nat.zero_add, grown.2]

namespace Expr

/-- An expression none of whose jumps is too long. -/
def Measured (expr : Expr) : Prop := ∃ size, expr.codeSize = .ok size

namespace Measured

variable {first second body : Expr}

theorem of_map {α : Type} {expr : Expr} {change : Nat → α} {result : α}
    (done : expr.codeSize.map change = .ok result) : expr.Measured := by
  obtain ⟨size, measured, _⟩ := exists_of_map done
  exact ⟨size, measured⟩

section Emission

variable {σ : Type} [CodeSink σ] [LawfulSink σ]

theorem of_emit {expr : Expr} {sink after : σ} (emitted : expr.emit sink = .ok after) :
    expr.Measured := by
  have same := expr.size_emit sink
  rw [emitted] at same
  exact of_map same.symm

/-- An expression that has been measured can be emitted behind any code. -/
theorem emit {expr : Expr} (measured : expr.Measured) (sink : σ) :
    ∃ after, expr.emit sink = .ok after := by
  obtain ⟨size, measured⟩ := measured
  have same := expr.size_emit sink
  rw [measured] at same
  obtain ⟨after, emitted, _⟩ := exists_of_map same
  exact ⟨after, emitted⟩

end Emission

theorem sequence (former : first.Measured) (latter : second.Measured) :
    (Expr.sequence first second).Measured := by
  obtain ⟨middle, emitted⟩ := former.emit Measure.zero
  obtain ⟨after, emitted'⟩ := latter.emit middle
  have whole : (Expr.sequence first second).emit Measure.zero = .ok after := by
    rw [emit_sequence, emitted]
    exact emitted'
  exact of_emit whole

theorem capture (group : Nat) (inner : body.Measured) : (Expr.capture group body).Measured := by
  obtain ⟨after, emitted⟩ :=
    inner.emit (CodeSink.append Measure.zero (Opcode.openGroup.encode [Int16.ofNat group]))
  have whole := emit_capture group body Measure.zero
  rw [emitted] at whole
  exact of_emit whole

theorem of_atomic (measured : (Expr.atomic body).Measured) : body.Measured := by
  obtain ⟨size, measured⟩ := measured
  obtain ⟨_, emitted, _⟩ := exists_of_map measured
  obtain ⟨_, inner, _⟩ := exists_of_bind emitted
  exact of_emit inner

end Measured

end Expr

end ByteRegex
