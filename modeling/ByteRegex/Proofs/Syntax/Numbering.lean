import ByteRegex.Pattern.Parse
import ByteRegex.Proofs.Syntax.Bounds

/-!
# Numbering

The parser numbers groups in the order in which they open, and counters in the order in which their
loops end. What has been read so far lies in the frames of the open groups; its numbers, taken in
the order of the pattern, are always the first ones without a gap.
-/

namespace ByteRegex

namespace Expr

/-- A well-formed expression that refers to no groups but the first so many. -/
def Fits (groups : Nat) (expr : Expr) : Prop :=
  expr.WellFormed ∧ ∀ group ∈ expr.references, 1 ≤ group ∧ group ≤ groups

theorem Fits.mono {expr : Expr} {groups more : Nat} (fits : expr.Fits groups)
    (wider : groups ≤ more) : expr.Fits more :=
  ⟨fits.1, fun group refers =>
    ⟨(fits.2 group refers).1, Nat.le_trans (fits.2 group refers).2 wider⟩⟩

theorem Fits.sequence {first second : Expr} {groups : Nat} (former : first.Fits groups)
    (latter : second.Fits groups) : (sequence first second).Fits groups := by
  refine ⟨⟨former.1, latter.1⟩, fun group refers => ?_⟩
  rcases List.mem_append.mp refers with inFirst | inSecond
  · exact former.2 group inFirst
  · exact latter.2 group inSecond

theorem Fits.alternative {first second : Expr} {groups : Nat} (former : first.Fits groups)
    (latter : second.Fits groups) : (alternative first second).Fits groups := by
  refine ⟨⟨former.1, latter.1⟩, fun group refers => ?_⟩
  rcases List.mem_append.mp refers with inFirst | inSecond
  · exact former.2 group inFirst
  · exact latter.2 group inSecond

section

variable {join : Expr → Expr → Expr}

theorem numbers_foldl {numbers : Expr → List Nat}
    (joined : ∀ first second, numbers (join first second) = numbers first ++ numbers second)
    (parts : List Expr) (later : Expr) :
    numbers (parts.foldl (fun later part => join part later) later) =
      parts.reverse.flatMap numbers ++ numbers later := by
  induction parts generalizing later with
  | nil => rfl
  | cons part rest ih => simp [ih, joined]

theorem fits_foldl {groups : Nat}
    (joined : ∀ first second : Expr, first.Fits groups → second.Fits groups →
      (join first second).Fits groups)
    {parts : List Expr} {later : Expr} (fits : ∀ part ∈ parts, part.Fits groups)
    (last : later.Fits groups) :
    (parts.foldl (fun later part => join part later) later).Fits groups := by
  induction parts generalizing later with
  | nil => exact last
  | cons part rest ih =>
      have here := fits part (List.mem_cons_self ..)
      apply ih
      · exact fun other member => fits other (List.mem_cons_of_mem _ member)
      · exact joined part later here last

end

theorem numbers_sequenceOfReversed (numbers : Expr → List Nat) (empty : numbers .empty = [])
    (sequence : ∀ first second,
      numbers (.sequence first second) = numbers first ++ numbers second) (pieces : List Expr) :
    numbers (sequenceOfReversed pieces) = pieces.reverse.flatMap numbers := by
  rw [sequenceOfReversed, numbers_foldl sequence, empty, List.append_nil]

theorem fits_sequenceOfReversed {groups : Nat} {pieces : List Expr}
    (fits : ∀ piece ∈ pieces, piece.Fits groups) : (sequenceOfReversed pieces).Fits groups := by
  apply fits_foldl
  · exact fun _ _ => Fits.sequence
  · exact fits
  · exact ⟨trivial, by simp [references]⟩

end Expr

namespace Pending

/-- The expressions with numbers in what waits for a quantifier. -/
def contents : Pending → List Expr
  | nothing | literals _ _ | atom (.single _) | repeatedTest _ _ => []
  | atom (.compound expr) | atom (.fixed expr) | repeatedExpr expr _ => [expr]

def Valid : Pending → Prop
  | repeatedTest _ quantifier | repeatedExpr _ quantifier => quantifier.Valid
  | _ => True

end Pending

def Enclosure.groups : Enclosure → List Nat
  | capture group => [group]
  | _ => []

namespace Frame

/-- What a frame holds, in the order of the pattern. -/
def contents (frame : Frame) : List Expr :=
  frame.branches.reverse ++ frame.pieces.reverse ++ frame.pending.contents

/-- The groups opened before the contents of a group, given the frames around it. -/
def openedBefore : List Frame → Enclosure → List Nat
  | [], _ => []
  | parent :: outer, enclosure =>
      openedBefore outer parent.enclosure ++ parent.contents.flatMap Expr.captures ++
        enclosure.groups

/-- The counters given before the contents of a group. -/
def countedBefore : List Frame → List Nat
  | [] => []
  | parent :: outer => countedBefore outer ++ parent.contents.flatMap Expr.counters

section

variable {frame : Frame} {body : Expr} {groups : Nat}

/-- The expression of a frame has the numbers of its contents. -/
theorem numbers_expression (numbers : Expr → List Nat) (empty : numbers .empty = [])
    (sequence : ∀ first second,
      numbers (.sequence first second) = numbers first ++ numbers second)
    (alternative : ∀ first second,
      numbers (.alternative first second) = numbers first ++ numbers second)
    (settled : frame.pending = .nothing) (whole : frame.expression = .ok body) :
    numbers body = frame.contents.flatMap numbers := by
  have last := Expr.numbers_sequenceOfReversed numbers empty sequence frame.pieces
  unfold expression at whole
  simp only [contents, settled, Pending.contents, List.append_nil, List.flatMap_append]
  dsimp only at whole
  split at whole
  · rename_i single
    cases whole
    rw [List.isEmpty_iff.mp single, last]
    rfl
  · split at whole
    · cases whole
    · obtain ⟨_, _, same⟩ := exists_of_map whole
      rw [← same, Expr.alternationOfReversed, Expr.numbers_foldl alternative, last]

theorem fits_expression (fits : ∀ expr ∈ frame.contents, expr.Fits groups)
    (whole : frame.expression = .ok body) : body.Fits groups := by
  have pieces : ∀ piece ∈ frame.pieces, piece.Fits groups := fun piece member =>
    fits piece (by simp [contents, member])
  have branches : ∀ branch ∈ frame.branches, branch.Fits groups := fun branch member =>
    fits branch (by simp [contents, member])
  have last := Expr.fits_sequenceOfReversed pieces
  unfold expression at whole
  dsimp only at whole
  split at whole
  · cases whole
    exact last
  · split at whole
    · cases whole
    · obtain ⟨_, _, same⟩ := exists_of_map whole
      rw [← same]
      exact Expr.fits_foldl (fun _ _ => Expr.Fits.alternative) branches last

theorem contents_addPiece (piece : Expr) :
    (frame.addPiece piece).contents = frame.branches.reverse ++ frame.pieces.reverse ++ [piece] := by
  simp [contents, addPiece, Pending.contents]

theorem contents_await (settled : frame.pending = .nothing) (pending : Pending) :
    (frame.await pending).contents = frame.contents ++ pending.contents := by
  simp [contents, await, settled, Pending.contents]

theorem addLiterals_settles (bytes : List UInt8) :
    (frame.addLiterals bytes).enclosure = frame.enclosure ∧
      (frame.addLiterals bytes).pending = .nothing := by
  unfold addLiterals
  split <;> exact ⟨rfl, rfl⟩

end

end Frame

end ByteRegex
