import ByteRegex.Assembly.Emit

/-!
# Refusals

Assembly refuses an expression for one reason only: a jump in its code would be too long.
-/

namespace ByteRegex

/-- Whether a result can be missing only because of a limit. -/
def LimitedOnly {α : Type} (result : Except CompileError α) : Prop :=
  ∀ error, result = .error error → error = .tooComplex

namespace LimitedOnly

variable {α β : Type}

theorem ok (value : α) : LimitedOnly (.ok value : Except CompileError α) := nofun

theorem tooComplex : LimitedOnly (.error .tooComplex : Except CompileError α) := by
  intro error failed
  cases failed
  rfl

/-- An error that is passed on. -/
theorem error {result : Except CompileError α} {error : CompileError}
    (limited : LimitedOnly result) (failed : result = .error error) :
    LimitedOnly (.error error : Except CompileError β) := by
  intro other same
  cases same
  exact limited error failed

theorem map {result : Except CompileError α} (limited : LimitedOnly result) (change : α → β) :
    LimitedOnly (result.map change) := by
  intro error failed
  cases result with
  | ok => cases failed
  | error other =>
      cases failed
      exact limited error rfl

theorem bind {result : Except CompileError α} {rest : α → Except CompileError β}
    (limited : LimitedOnly result) (later : ∀ value, LimitedOnly (rest value)) :
    LimitedOnly (result.bind rest) := by
  intro error failed
  cases result with
  | ok value => exact later value error failed
  | error other =>
      cases failed
      exact limited error rfl

end LimitedOnly

theorem jumpDistance_limited (target origin : Nat) : LimitedOnly (jumpDistance target origin) := by
  unfold jumpDistance
  dsimp only
  split
  · exact .ok _
  · exact .tooComplex

theorem Step.encode_limited (target : Label → Nat) (address : Nat) (step : Step) :
    LimitedOnly (step.encode target address) := by
  cases step with
  | plain | loopHead | body => exact .ok _
  | jump => exact (jumpDistance_limited _ _).map _

theorem Step.encodeAll_limited (bodySize : Nat) (target : Label → Nat) (address : Nat)
    (steps : List Step) : LimitedOnly (Step.encodeAll bodySize target address steps) := by
  induction steps generalizing address with
  | nil => exact .ok _
  | cons step rest ih =>
      have first := step.encode_limited target address
      unfold Step.encodeAll
      cases encoded : step.encode target address with
      | error error => exact first.error encoded
      | ok bytes => exact (ih _).map _

section Emission

variable {σ : Type} [CodeSink σ]

theorem wrap_limited (start : Nat) (steps : List Step) (sink : σ) :
    LimitedOnly (wrap start steps sink) := by
  unfold wrap
  dsimp only
  split
  · exact .ok _
  · rename_i failed
    exact (Step.encodeAll_limited _ _ _ _).error failed
  · rename_i failed _
    exact (Step.encodeAll_limited _ _ _ _).error failed

theorem endBranch_limited (start : Nat) (sink : σ) : LimitedOnly (endBranch start sink) :=
  (jumpDistance_limited _ _).map _

theorem landJump_limited (origin : Nat) (sink : σ) : LimitedOnly (landJump origin sink) :=
  (jumpDistance_limited _ _).map _

theorem Expr.emit_limited (expr : Expr) (sink : σ) : LimitedOnly (expr.emit sink) := by
  induction expr generalizing sink with
  | empty | test | literal | assertion | backReference | repetition => exact .ok _
  | sequence first second former latter =>
      have one := former sink
      unfold Expr.emit
      cases emitted : first.emit sink with
      | error error => exact one.error emitted
      | ok sink => exact latter sink
  | alternative first second former latter =>
      have one := former sink
      unfold Expr.emit
      dsimp only
      cases emitted : first.emit sink with
      | error error => exact one.error emitted
      | ok ahead =>
          have two := endBranch_limited (CodeSink.size sink) ahead
          dsimp only
          cases ended : endBranch (CodeSink.size sink) ahead with
          | error error => exact two.error ended
          | ok between =>
              have three := latter between
              dsimp only
              cases behind : second.emit between with
              | error error => exact three.error behind
              | ok sink => exact landJump_limited _ _
  | capture group body ih => exact (ih _).map _
  | loop quantifier nullable counter body ih =>
      exact (ih sink).bind fun inner => wrap_limited _ _ inner
  | atomic body ih => exact (ih sink).bind fun inner => wrap_limited _ _ inner
  | look direction width body ih => exact (ih sink).bind fun inner => wrap_limited _ _ inner

end Emission

theorem Expr.codeSize_limited (expr : Expr) : LimitedOnly expr.codeSize :=
  (expr.emit_limited Measure.zero).map _

end ByteRegex
