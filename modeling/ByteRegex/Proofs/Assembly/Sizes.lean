import Mathlib.Data.List.Basic
import ByteRegex.Proofs.Assembly.Sinks
import ByteRegex.Proofs.Bytecode.Line

/-!
# Sizes

A measure sees of code only how long it is. So neither the direction that a branch prefers nor the
value of an operand changes what is measured.
-/

namespace ByteRegex

namespace Step

/-- A step without what its size does not depend on. -/
def shape : Step → Step
  | plain opcode operands => plain opcode (operands.map fun _ => 0)
  | jump opcode operands label =>
      jump (if opcode = .branchRev then .branch else opcode) (operands.map fun _ => 0) label
  | loopHead => loopHead
  | body => body

variable (bodySize : Nat)

theorem fixedSize_shape (opcode : Opcode) :
    (if opcode = .branchRev then Opcode.branch else opcode).fixedSize = opcode.fixedSize := by
  split
  · rename_i same
    rw [same]
    rfl
  · rfl

theorem size_shape (step : Step) : step.shape.size bodySize = step.size bodySize := by
  cases step with
  | plain | loopHead | body => rfl
  | jump opcode operands label => exact fixedSize_shape opcode

theorem shape_eq_body (step : Step) : step.shape = body ↔ step = body := by
  cases step <;> simp [shape]

theorem shape_eq_loopHead (step : Step) : step.shape = loopHead ↔ step = loopHead := by
  cases step <;> simp [shape]

theorem sizes_shape (steps : List Step) :
    sizes bodySize (steps.map shape) = sizes bodySize steps := by
  induction steps with
  | nil => rfl
  | cons step rest ih =>
      show step.shape.size bodySize + sizes bodySize (rest.map shape) =
        step.size bodySize + sizes bodySize rest
      rw [size_shape, ih]

theorem takeWhile_shape {marker : Step} (marks : ∀ step : Step, step.shape = marker ↔ step = marker)
    (steps : List Step) :
    (steps.map shape).takeWhile (· ≠ marker) = (steps.takeWhile (· ≠ marker)).map shape := by
  rw [List.takeWhile_map]
  congr 2
  funext step
  simp only [Function.comp_apply, ne_eq, marks]

theorem dropWhile_shape {marker : Step} (marks : ∀ step : Step, step.shape = marker ↔ step = marker)
    (steps : List Step) :
    (steps.map shape).dropWhile (· ≠ marker) = (steps.dropWhile (· ≠ marker)).map shape := by
  rw [List.dropWhile_map]
  congr 2
  funext step
  simp only [Function.comp_apply, ne_eq, marks]

theorem labelAddress_shape (start : Nat) (steps : List Step) :
    labelAddress bodySize start (steps.map shape) = labelAddress bodySize start steps := by
  have head : loopHead ∈ steps.map shape ↔ loopHead ∈ steps := by
    simp only [List.mem_map, shape_eq_loopHead, exists_eq_right]
  funext label
  cases label with
  | loop =>
      simp only [labelAddress, headAddress, head, takeWhile_shape shape_eq_loopHead, sizes_shape]
  | exit => simp only [labelAddress, sizes_shape]

variable (target : Label → Nat)

/-- The code of a step is as long as that of its shape, and it jumps as far. -/
theorem encode_shape (address : Nat) (step : Step) :
    Both (fun bytes bytes' => bytes.length = bytes'.length) (step.encode target address)
      (step.shape.encode target address) := by
  cases step with
  | loopHead | body => exact .ok rfl
  | plain opcode operands =>
      refine .ok ?_
      simp only [Opcode.length_encode, List.length_map]
  | jump opcode operands label =>
      simp only [shape, encode, fixedSize_shape]
      refine (Both.refl (fun _ => rfl) (jumpDistance _ _)).map fun distance _ same => ?_
      cases same
      simp only [Opcode.length_encode, List.length_append, List.length_map]

theorem encodeAll_shape (address : Nat) (steps : List Step) :
    Both (fun bytes bytes' => bytes.length = bytes'.length)
      (encodeAll bodySize target address steps)
      (encodeAll bodySize target address (steps.map shape)) := by
  induction steps generalizing address with
  | nil => exact .ok rfl
  | cons step rest ih =>
      have first := encode_shape target address step
      simp only [List.map_cons, encodeAll, size_shape]
      generalize step.encode target address = encoded at first ⊢
      generalize step.shape.encode target address = encoded' at first ⊢
      cases first with
      | error error => exact .error error
      | ok level =>
          refine (ih _).map fun _ _ later => ?_
          rw [List.length_append, List.length_append, level, later]

/-- What is measured of steps around a body depends on their shapes only. -/
theorem wrap_shape (start : Nat) (steps : List Step) (measure : Measure) :
    wrap start (steps.map shape) measure = wrap start steps measure := by
  simp only [wrap, labelAddress_shape, takeWhile_shape shape_eq_body,
    dropWhile_shape shape_eq_body, sizes_shape]
  generalize CodeSink.size measure - start = bodySize
  generalize labelAddress bodySize start steps = target
  have leading := encodeAll_shape bodySize target start (steps.takeWhile (· ≠ body))
  generalize start + sizes bodySize (steps.takeWhile (· ≠ body)) = behind
  have trailing := encodeAll_shape bodySize target behind (steps.dropWhile (· ≠ body))
  generalize encodeAll bodySize target start (steps.takeWhile _) = front at leading ⊢
  generalize encodeAll bodySize target start (List.map _ _) = front' at leading ⊢
  generalize encodeAll bodySize target behind (steps.dropWhile _) = back at trailing ⊢
  generalize encodeAll bodySize target behind (List.map _ _) = back' at trailing ⊢
  cases leading with
  | error error => rfl
  | ok level =>
      cases trailing with
      | error error => rfl
      | ok level' =>
          dsimp only
          rw [measure.insert_congr start level, Measure.append_congr _ level']

end Step

/-- The greed of a loop and its counter leave the shape of its steps alone. -/
theorem Quantifier.loopSteps_shape {quantifier other : Quantifier}
    (least : quantifier.least = other.least) (most : quantifier.most = other.most)
    (nullable : Bool) (counter counter' : Nat) :
    (quantifier.loopSteps nullable counter).map Step.shape =
      (other.loopSteps nullable counter').map Step.shape := by
  unfold loopSteps
  rw [least, most]
  by_cases slow : quantifier.greed = .lazy <;> by_cases slow' : other.greed = .lazy
  all_goals
    simp only [slow, slow', if_true, if_false]
    repeat' split
    all_goals simp_all [Step.shape]

end ByteRegex
