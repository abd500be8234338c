import ByteRegex.Proofs.Grammar.Nesting
import ByteRegex.Proofs.Grammar.Splicing
import ByteRegex.Proofs.Search.Correctness

/-!
# Rewriting a part of a pattern

A part of a pattern may be replaced by another one if both of them leave the parser, wherever it is,
with equivalent expressions. Then the patterns find the same, whatever surrounds the part.
-/

namespace ByteRegex

open Grammar

theorem Frame.Agrees.rfl_equivalence (frame : Frame) : frame.Agrees .equivalence frame := by
  refine .refl Comparison.equivalence_congruent ?_ (fun _ => trivial) fun _ _ => trivial
  cases frame.pending with
  | nothing => exact .nothing
  | literals => exact .literals _ _
  | atom atom =>
      cases atom with
      | single test => exact .atom (.single test)
      | compound expr => exact .atom (.compound (Expr.Equivalent.refl expr))
      | fixed expr => exact .atom (.fixed (Expr.Equivalent.refl expr))
  | repeatedTest test quantifier => exact .repeatedTest test rfl
  | repeatedExpr expr quantifier => exact .repeatedExpr (Expr.Equivalent.refl expr) rfl

/-- Parsers that differ in what is pending only, which comes to be equivalent. -/
theorem ParseState.agrees_of_await (frame : Frame) (outer : List Frame) (groups : Nat)
    (closed : List Nat) (counters counters' : Nat) {pending pending' : Pending}
    (agree : pending.Agrees .equivalence pending') :
    ParseState.Agrees .equivalence ⟨frame.await pending, outer, groups, closed, counters⟩
      ⟨frame.await pending', outer, groups, closed, counters'⟩ where
  frame := (Frame.Agrees.rfl_equivalence frame).await agree
  outer := List.forall₂_same.mpr fun frame _ => .rfl_equivalence frame
  groups := rfl
  closed := rfl
  counters := False.elim

namespace Grammar

/-- Tokens that can take the place of others wherever both are accepted. -/
def Rewrites (old new : List Token) : Prop :=
  ∀ state first second, old.foldlM ParseState.step state = .ok first →
    new.foldlM ParseState.step state = .ok second → first.Agrees .equivalence second

/-- Patterns of which one has other tokens in one place are parsed as equivalent expressions. -/
theorem Rewrites.parse {old new front back : List Token} (rewrites : Rewrites old new)
    {pattern pattern' : List UInt8} (reads : tokens pattern = front ++ (old ++ back))
    (reads' : tokens pattern' = front ++ (new ++ back)) {flags : Flags}
    (spelled : flags.verbatim = false) {expr expr' : Expr} {groups groups' : Nat}
    (parsed : parse pattern flags = .ok (expr, groups))
    (parsed' : parse pattern' flags = .ok (expr', groups')) :
    expr.Equivalent expr' ∧ groups = groups' := by
  have whole {pattern : List UInt8} {result : Expr × Nat} {middle : List Token}
      (reads : tokens pattern = front ++ (middle ++ back))
      (parsed : ByteRegex.parse pattern flags = .ok result) :
      ∃ state before, front.foldlM ParseState.step (.initial flags) = .ok state ∧
        middle.foldlM ParseState.step state = .ok before ∧
        ∃ last, back.foldlM ParseState.step before = .ok last ∧ last.finish = .ok result := by
    simp only [ByteRegex.parse, spelled, Bool.false_eq_true, if_false] at parsed
    split at parsed
    · cases parsed
    · rw [ParseState.readAll_eq_foldlM, reads, List.foldlM_append] at parsed
      obtain ⟨last, ran, finished⟩ := exists_of_bind parsed
      obtain ⟨state, fronts, ran⟩ := exists_of_bind ran
      rw [List.foldlM_append] at ran
      obtain ⟨before, middles, backs⟩ := exists_of_bind ran
      exact ⟨state, before, fronts, middles, last, backs, finished⟩
  obtain ⟨state, first, fronts, olds, last, backs, finished⟩ := whole reads parsed
  obtain ⟨state', second, fronts', news, last', backs', finished'⟩ := whole reads' parsed'
  cases fronts.symm.trans fronts'
  have congruent := Comparison.equivalence_congruent
  have same : List.Forall₂ (Token.Agrees .equivalence) back back :=
    List.forall₂_same.mpr fun token _ => token.agrees_equivalence
  have agrees := (rewrites state first second olds news).foldlM congruent same
  exact ((agrees.holds_of_ok backs backs').finish congruent).holds_of_ok finished finished'

end Grammar

/-- What equivalent expressions match first is the same. -/
theorem Expr.Equivalent.firstMatch_eq {expr expr' : Expr} (same : expr.Equivalent expr')
    (subject : Array UInt8) (window : Window) (notEmpty : Bool) :
    expr.firstMatch subject window notEmpty = expr'.firstMatch subject window notEmpty := by
  have attempts : expr.matchAt subject notEmpty = expr'.matchAt subject notEmpty := by
    funext start
    simp only [matchAt, same.results]
  rw [firstMatch, firstMatch, attempts]

/-- Patterns of which one has other tokens in one place find the same. -/
theorem Program.search_eq_of_rewrites {old new front back : List Token}
    (rewrites : Rewrites old new) {pattern pattern' : List UInt8}
    (reads : tokens pattern = front ++ (old ++ back))
    (reads' : tokens pattern' = front ++ (new ++ back)) {flags : Flags}
    (spelled : flags.verbatim = false) {program other : Program}
    (compiled : compile pattern flags = .ok program)
    (compiled' : compile pattern' flags = .ok other) (subject : Array UInt8) (window : Window)
    (limits limits' : Limits)
    (running : (program.report subject window limits.ceilings).halted = false)
    (running' : (other.report subject window limits'.ceilings).halted = false) :
    program.search subject window limits = other.search subject window limits' := by
  obtain ⟨expr, parsed, flags, implements⟩ := implements_of_compile compiled
  obtain ⟨expr', parsed', flags', implements'⟩ := implements_of_compile compiled'
  obtain ⟨same, _⟩ := rewrites.parse reads reads' spelled parsed parsed'
  rw [implements.search_of_running running, implements'.search_of_running running', flags, flags',
    same.firstMatch_eq]

end ByteRegex
