import Mathlib.Data.List.Perm.Basic
import ByteRegex.Proofs.Assembly.Sizes
import ByteRegex.Proofs.Semantics.Results
import ByteRegex.Proofs.Syntax.Congruence

/-!
# Reordered results

A greedy repeat and a lazy one go the same ways, in another order. So the results of an expression
are only permuted if some of its repeats turn lazy or greedy, as long as nothing in it is cut to its
first result.
-/

namespace ByteRegex

/-- Quantifiers that differ in the order of their repeats and give back what they took. -/
structure Quantifier.Reorders (quantifier other : Quantifier) : Prop where
  least : quantifier.least = other.least
  most : quantifier.most = other.most
  backtracks : quantifier.greed ≠ .possessive
  backtracks' : other.greed ≠ .possessive

/-- Expressions of the same width and size that have the same results in any order. -/
structure Expr.Reorders (expr other : Expr) : Prop where
  widthAfter : ∀ before, expr.widthAfter before = other.widthAfter before
  emit : ∀ measure : Measure, expr.emit measure = other.emit measure
  results : ∀ subject position slots,
    (expr.results subject position slots).Perm (other.results subject position slots)

namespace Quantifier.Reorders

variable {quantifier other : Quantifier} (reorders : quantifier.Reorders other)
include reorders

theorem isDone_eq (count : Nat) (idle : Bool) :
    quantifier.isDone count idle = other.isDone count idle := by
  rw [isDone, isDone, reorders.least, reorders.most]

/-- To leave a repeat is one of its choices or not, whenever it is tried. -/
theorem choices_perm (count : Nat) (leave : Nat × Slots) {again again' : List (Nat × Slots)}
    (further : again.Perm again') :
    (quantifier.choices count leave again).Perm (other.choices count leave again') := by
  have last (results : List (Nat × Slots)) : (results ++ [leave]).Perm (leave :: results) :=
    List.perm_append_comm
  simp only [choices, reorders.least]
  split
  · exact further
  · have leaves := further.cons leave
    split <;> split
    · exact leaves
    · exact leaves.trans (last again').symm
    · exact (last again).trans leaves
    · exact ((last again).trans leaves).trans (last again').symm

theorem iterate_perm {body body' : Nat → Slots → List (Nat × Slots)}
    (inner : ∀ position slots, (body position slots).Perm (body' position slots)) (size : Nat)
    (count : Nat) (idle : Bool) (position : Nat) (slots : Slots) :
    (quantifier.iterate size body count idle position slots).Perm
      (other.iterate size body' count idle position slots) := by
  induction count, idle, position using iterate_induction quantifier size generalizing slots with
  | finish count idle position finished =>
      rw [iterate_of_isDone _ _ finished,
        iterate_of_isDone _ _ (reorders.isDone_eq count idle ▸ finished)]
  | again count idle position unfinished ih =>
      rw [iterate_of_not_isDone _ _ unfinished,
        iterate_of_not_isDone _ _ (reorders.isDone_eq count idle ▸ unfinished)]
      exact reorders.choices_perm count _
        ((inner position slots).flatMap fun result _ => ih result.1 result.2)

end Quantifier.Reorders

namespace Expr.Reorders

theorem refl (expr : Expr) : expr.Reorders expr := ⟨fun _ => rfl, fun _ => rfl, fun _ _ _ => .refl _⟩

variable {first second first' second' body body' : Expr}

theorem sequence (former : first.Reorders first') (latter : second.Reorders second') :
    (Expr.sequence first second).Reorders (.sequence first' second') where
  widthAfter before := by
    simp only [Expr.widthAfter, former.widthAfter, latter.widthAfter]
  emit measure := by
    rw [emit_sequence, emit_sequence, former.emit]
    exact congrArg (Except.bind _) (funext latter.emit)
  results subject position slots :=
    (former.results subject position slots).flatMap fun result _ =>
      latter.results subject result.1 result.2

theorem alternative (former : first.Reorders first') (latter : second.Reorders second') :
    (Expr.alternative first second).Reorders (.alternative first' second') where
  widthAfter before := by
    simp only [Expr.widthAfter, former.widthAfter, latter.widthAfter]
  emit measure := by simp only [emit_alternative, former.emit, latter.emit]
  results subject position slots :=
    (former.results subject position slots).append (latter.results subject position slots)

theorem capture (group : Nat) (inner : body.Reorders body') :
    (Expr.capture group body).Reorders (.capture group body') where
  widthAfter before := by simp only [Expr.widthAfter, inner.widthAfter]
  emit measure := by simp only [emit_capture, inner.emit]
  results subject position slots := (inner.results subject position slots).map _

variable {quantifier other : Quantifier} (reorders : quantifier.Reorders other)
include reorders

theorem repetition (test : ByteTest) :
    (Expr.repetition quantifier test).Reorders (.repetition other test) where
  widthAfter before := by simp only [Expr.widthAfter, reorders.least, reorders.most]
  emit measure := by
    have level : (repetitionCode quantifier).length = (repetitionCode other).length := by
      simp only [repetitionCode, Opcode.length_encode, List.length_cons]
    rw [Expr.emit, Expr.emit, Measure.insert_congr _ _ level]
  results subject position slots := by
    simp only [Expr.results, reorders.backtracks, reorders.backtracks', if_false]
    exact reorders.iterate_perm (fun _ _ => .refl _) subject.size 0 false position slots

theorem loop (nullable : Bool) (counter counter' : Nat) (inner : body.Reorders body') :
    (Expr.loop quantifier nullable counter body).Reorders
      (.loop other nullable counter' body') where
  widthAfter before := by
    simp only [Expr.widthAfter, inner.widthAfter, reorders.least, reorders.most]
  emit measure := by
    rw [Expr.emit, Expr.emit, inner.emit]
    refine congrArg (Except.bind _) (funext fun sink => ?_)
    rw [← Step.wrap_shape, Quantifier.loopSteps_shape reorders.least reorders.most nullable counter
      counter', Step.wrap_shape]
  results subject position slots :=
    reorders.iterate_perm (inner.results subject) subject.size 0 false position slots

end Expr.Reorders

/-- Patterns that are compared for having the same results in any order. -/
def Comparison.reordering : Comparison where
  exact := True
  enclosing := False
  quantifiers := Quantifier.Reorders
  exprs := Expr.Reorders

theorem Comparison.reordering_congruent : reordering.Congruent where
  refl := .refl
  sequence := .sequence
  alternative := .alternative
  capture group _ _ := .capture group
  repetition test _ _ reorders := .repetition reorders test
  loop nullable counter counter' _ _ _ _ reorders inner :=
    .loop reorders nullable counter counter' inner
  atomic := False.elim
  look := False.elim
  width same := same.widthAfter _
  emit _ _ _ same := same.emit
  least reorders := reorders.least
  most reorders := reorders.most
  possessive reorders := iff_of_false reorders.backtracks reorders.backtracks'
  enclosing reorders possessive := absurd possessive reorders.backtracks

/-- Whether an expression matches at a start does not depend on the order of its results. -/
theorem Expr.Reorders.isSome_matchAt {expr other : Expr} (reorders : expr.Reorders other)
    (subject : Array UInt8) (notEmpty : Bool) (start : Nat) :
    (expr.matchAt subject notEmpty start).isSome =
      (other.matchAt subject notEmpty start).isSome := by
  rw [Bool.eq_iff_iff]
  simp only [matchAt, Option.isSome_map, List.find?_isSome,
    (reorders.results subject start .unset).mem_iff]

theorem Expr.Reorders.isSome_firstMatch {expr other : Expr} (reorders : expr.Reorders other)
    (subject : Array UInt8) (window : Window) (notEmpty : Bool) :
    (expr.firstMatch subject window notEmpty).isSome =
      (other.firstMatch subject window notEmpty).isSome := by
  rw [Bool.eq_iff_iff]
  simp only [firstMatch, List.findSome?_isSome_iff, reorders.isSome_matchAt]

end ByteRegex
