import Mathlib.Data.List.Forall2
import ByteRegex.Proofs.Semantics.Mirror
import ByteRegex.Proofs.Syntax.Tokens

/-!
# Mirrored parsing

Two parsers read the same pattern under flags that differ in what does not show on two subjects.
They stay together, token by token: either both refuse the token with the same error, or whatever
one of them has built mirrors what the other has built.
-/

namespace ByteRegex

/-- A relation between flags that puts into a pattern only what sees the same in two subjects. -/
structure Flags.Unseen (left right : Array UInt8) (related : Flags → Flags → Prop) : Prop where
  capturing : ∀ {flags other}, related flags other → flags.capturing = other.capturing
  verbatim : ∀ {flags other}, related flags other → flags.verbatim = other.verbatim
  caseless : ∀ {flags other}, related flags other → flags.caseless = other.caseless
  folded : ∀ {flags other}, related flags other → Folded flags.caseless left right
  dot : ∀ {flags other}, related flags other →
    (if flags.newline then ByteTest.anyButNewline else .any).Mirrors left right
      (if other.newline then .anyButNewline else .any)
  caret : ∀ {flags other}, related flags other →
    (if flags.newline then Assertion.lineBegin else .textBegin).Mirrors left right
      (if other.newline then .lineBegin else .textBegin)
  dollar : ∀ {flags other}, related flags other →
    (if flags.newline then Assertion.lineEnd else .textEnd).Mirrors left right
      (if other.newline then .lineEnd else .textEnd)
  bracket : ∀ {flags other}, related flags other → ∀ bracket : Bracket,
    (ByteTest.set (bracket.toByteSet flags)).Mirrors left right (.set (bracket.toByteSet other))
  inClass : ∀ kind, (ByteTest.inClass kind).Mirrors left right (.inClass kind)
  notInClass : ∀ kind, (ByteTest.notInClass kind).Mirrors left right (.notInClass kind)
  assertion : ∀ condition : Assertion, condition.Mirrors left right condition

/-- The flags inside a group that changes some of those outside. -/
def Flags.inside (flags : Flags) (enable : Bool) (changed : Flags) : Flags :=
  if enable then flags.union changed else flags.difference changed

/-- A token that keeps related flags related. -/
def Token.Keeps (related : Flags → Flags → Prop) : Token → Prop
  | opening read => ∀ enable changed, read = .ok (.inline enable changed) → ∀ flags other,
      related flags other → related (flags.inside enable changed) (other.inside enable changed)
  | _ => True

section Parts

variable (left right : Array UInt8)

inductive Atom.Mirrors : Atom → Atom → Prop where
  | single {test other : ByteTest} (mirrors : test.Mirrors left right other) :
      Mirrors (.single test) (.single other)
  | compound {expr other : Expr} (mirrors : expr.Mirrors left right other) :
      Mirrors (.compound expr) (.compound other)
  | fixed {expr other : Expr} (mirrors : expr.Mirrors left right other) :
      Mirrors (.fixed expr) (.fixed other)

inductive Pending.Mirrors : Pending → Pending → Prop where
  | nothing : Mirrors .nothing .nothing
  | literals (last : UInt8) (earlier : List UInt8) :
      Mirrors (.literals last earlier) (.literals last earlier)
  | atom {atom other : Atom} (mirrors : atom.Mirrors left right other) :
      Mirrors (.atom atom) (.atom other)
  | repeatedTest {test other : ByteTest} (mirrors : test.Mirrors left right other)
      (quantifier : Quantifier) :
      Mirrors (.repeatedTest test quantifier) (.repeatedTest other quantifier)
  | repeatedExpr {expr other : Expr} (mirrors : expr.Mirrors left right other)
      (quantifier : Quantifier) :
      Mirrors (.repeatedExpr expr quantifier) (.repeatedExpr other quantifier)

structure Frame.Mirrors (related : Flags → Flags → Prop) (frame other : Frame) : Prop where
  enclosure : frame.enclosure = other.enclosure
  flags : related frame.flags other.flags
  branches : List.Forall₂ (Expr.Mirrors left right) frame.branches other.branches
  pieces : List.Forall₂ (Expr.Mirrors left right) frame.pieces other.pieces
  pending : frame.pending.Mirrors left right other.pending

structure ParseState.Mirrors (related : Flags → Flags → Prop) (state other : ParseState) :
    Prop where
  frame : state.frame.Mirrors left right related other.frame
  outer : List.Forall₂ (Frame.Mirrors left right related) state.outer other.outer
  groups : state.groups = other.groups
  closed : state.closed = other.closed
  counters : state.counters = other.counters

end Parts

variable {left right : Array UInt8} {related : Flags → Flags → Prop}

namespace Expr

variable {pieces pieces' : List Expr}

theorem mirrors_foldl {join : Expr → Expr → Expr}
    (joined : ∀ {part other later later' : Expr}, part.Mirrors left right other →
      later.Mirrors left right later' →
      (join part later).Mirrors left right (join other later'))
    (parts : List.Forall₂ (Mirrors left right) pieces pieces') {later later' : Expr}
    (behind : later.Mirrors left right later') :
    (pieces.foldl (fun later part => join part later) later).Mirrors left right
      (pieces'.foldl (fun later part => join part later) later') := by
  induction parts generalizing later later' with
  | nil => exact behind
  | cons part _ ih => exact ih (joined part behind)

theorem mirrors_sequenceOfReversed (parts : List.Forall₂ (Mirrors left right) pieces pieces') :
    (sequenceOfReversed pieces).Mirrors left right (sequenceOfReversed pieces') :=
  mirrors_foldl .sequence parts .empty

theorem mirrors_alternationOfReversed (parts : List.Forall₂ (Mirrors left right) pieces pieces')
    {last last' : Expr} (behind : last.Mirrors left right last') :
    (alternationOfReversed pieces last).Mirrors left right (alternationOfReversed pieces' last') :=
  mirrors_foldl .alternative parts behind

end Expr

theorem isEmpty_of_forall₂ {α β : Type} {holds : α → β → Prop} {first : List α} {second : List β}
    (all : List.Forall₂ holds first second) : first.isEmpty = second.isEmpty := by
  cases all <;> rfl

namespace Frame.Mirrors

variable {frame other : Frame} (mirrors : frame.Mirrors left right related other)
include mirrors

theorem addPiece {piece piece' : Expr} (added : piece.Mirrors left right piece') :
    (frame.addPiece piece).Mirrors left right related (other.addPiece piece') :=
  { mirrors with pieces := .cons added mirrors.pieces, pending := .nothing }

theorem await {pending pending' : Pending} (waits : pending.Mirrors left right pending') :
    (frame.await pending).Mirrors left right related (other.await pending') :=
  { mirrors with pending := waits }

theorem addLiterals (unseen : Flags.Unseen left right related) (bytes : List UInt8) :
    (frame.addLiterals bytes).Mirrors left right related (other.addLiterals bytes) := by
  have folded := unseen.folded mirrors.flags
  have same := unseen.caseless mirrors.flags
  match bytes with
  | [] => exact mirrors.await .nothing
  | [byte] =>
      simp only [Frame.addLiterals, ← same]
      exact mirrors.addPiece (.test (.of_literal folded byte))
  | first :: second :: rest =>
      simp only [Frame.addLiterals, ← same]
      exact mirrors.addPiece (.literal _ folded)

theorem closeBranch : Both (Frame.Mirrors left right related) frame.closeBranch other.closeBranch := by
  have branch := Expr.mirrors_sequenceOfReversed mirrors.pieces
  simp only [Frame.closeBranch, ← isEmpty_of_forall₂ mirrors.pieces, ← branch.emit_eq]
  cases frame.pieces.isEmpty with
  | true => exact .error _
  | false =>
      simp only [Bool.false_eq_true, if_false]
      split
      · exact .error _
      · exact .ok { mirrors with branches := .cons branch mirrors.branches, pieces := .nil }

theorem expression : Both (Expr.Mirrors left right) frame.expression other.expression := by
  have last := Expr.mirrors_sequenceOfReversed mirrors.pieces
  have whole := Expr.mirrors_alternationOfReversed mirrors.branches last
  simp only [Frame.expression, ← isEmpty_of_forall₂ mirrors.pieces,
    ← isEmpty_of_forall₂ mirrors.branches, ← whole.codeSize_eq]
  cases frame.branches.isEmpty with
  | true => exact .ok last
  | false =>
      cases frame.pieces.isEmpty with
      | true => exact .error _
      | false => exact (Both.refl (fun _ => rfl) _).map fun _ _ _ => whole

theorem atom {body body' : Expr} (inner : body.Mirrors left right body') :
    Both (Atom.Mirrors left right) (frame.atom body) (other.atom body') := by
  simp only [Frame.atom, ← mirrors.enclosure]
  cases frame.enclosure with
  | bare => exact .ok (.compound inner)
  | capture group => exact .ok (.compound (.capture group inner))
  | atomic =>
      have whole := Expr.Mirrors.atomic inner
      simp only [← whole.codeSize_eq]
      exact (Both.refl (fun _ => rfl) _).map fun _ _ _ => .compound whole
  | look direction =>
      have widths : lookWidth direction body = lookWidth direction body' := by
        simp only [lookWidth, Expr.width, inner.widthAfter_eq]
      simp only [← widths]
      cases lookWidth direction body with
      | error error => exact .error error
      | ok width =>
          have whole := Expr.Mirrors.look direction width inner
          simp only [← whole.codeSize_eq]
          exact (Both.refl (fun _ => rfl) _).map fun _ _ _ => .fixed whole

end Frame.Mirrors

namespace ParseState.Mirrors

variable {state other : ParseState}

theorem withFrame (mirrors : state.Mirrors left right related other) {frame frame' : Frame}
    (frames : frame.Mirrors left right related frame') :
    (state.withFrame frame).Mirrors left right related (other.withFrame frame') :=
  { mirrors with frame := frames }

theorem addLoop (mirrors : state.Mirrors left right related other) {body body' : Expr}
    (inner : body.Mirrors left right body') (quantifier : Quantifier) :
    Both (ParseState.Mirrors left right related) (state.addLoop body quantifier)
      (other.addLoop body' quantifier) := by
  simp only [ParseState.addLoop, ← inner.nullable_eq, ← mirrors.counters]
  split
  · exact .error _
  · generalize quantifier.needsCounter body.nullable = counted
    have loop := Expr.Mirrors.loop quantifier body.nullable (if counted then state.counters else 0)
      inner
    split
    · have whole := Expr.Mirrors.atomic loop
      rw [← whole.codeSize_eq]
      refine (Both.refl (fun _ => rfl) _).map fun _ _ _ => ?_
      exact { mirrors with frame := mirrors.frame.addPiece whole, counters := rfl }
    · rw [← loop.codeSize_eq]
      refine (Both.refl (fun _ => rfl) _).map fun _ _ _ => ?_
      exact { mirrors with frame := mirrors.frame.addPiece loop, counters := rfl }

variable (unseen : Flags.Unseen left right related)
include unseen

/-- What is pending on both sides turns into mirrored pieces. -/
theorem settle (mirrors : state.Mirrors left right related other) :
    Both (ParseState.Mirrors left right related) state.settle other.settle := by
  have waiting := mirrors.frame.pending
  unfold ParseState.settle
  generalize state.frame.pending = pending at waiting ⊢
  generalize other.frame.pending = pending' at waiting ⊢
  cases waiting with
  | nothing => exact .ok mirrors
  | literals last earlier => exact .ok (mirrors.withFrame (mirrors.frame.addLiterals unseen _))
  | atom waiting =>
      cases waiting with
      | single inner => exact .ok (mirrors.withFrame (mirrors.frame.addPiece (.test inner)))
      | compound inner | fixed inner => exact .ok (mirrors.withFrame (mirrors.frame.addPiece inner))
  | repeatedTest inner quantifier =>
      refine .ok (mirrors.withFrame (mirrors.frame.addPiece ?_))
      split
      · exact .test inner
      · exact .repetition quantifier inner
  | repeatedExpr inner quantifier =>
      dsimp only
      split
      · exact .ok (mirrors.withFrame (mirrors.frame.addPiece inner))
      · exact mirrors.addLoop inner quantifier

theorem addAtom (mirrors : state.Mirrors left right related other) {atom atom' : Atom}
    (waits : atom.Mirrors left right atom') :
    Both (ParseState.Mirrors left right related) (state.addAtom atom) (other.addAtom atom') :=
  (mirrors.settle unseen).map fun _ _ settled =>
    settled.withFrame (settled.frame.await (.atom waits))

theorem addLiteral (mirrors : state.Mirrors left right related other) (byte : UInt8) :
    Both (ParseState.Mirrors left right related) (state.addLiteral byte)
      (other.addLiteral byte) := by
  have waiting := mirrors.frame.pending
  have settled : Both (ParseState.Mirrors left right related)
      (state.settle.map fun state => state.withFrame (state.frame.await (.literals byte [])))
      (other.settle.map fun state => state.withFrame (state.frame.await (.literals byte []))) :=
    (mirrors.settle unseen).map fun _ _ settled =>
      settled.withFrame (settled.frame.await (.literals byte []))
  unfold ParseState.addLiteral
  generalize state.frame.pending = pending at waiting ⊢
  generalize other.frame.pending = pending' at waiting ⊢
  cases waiting with
  | literals last earlier => exact .ok (mirrors.withFrame (mirrors.frame.await (.literals _ _)))
  | nothing | atom _ | repeatedTest _ _ | repeatedExpr _ _ => exact settled

theorem addQuantifier (mirrors : state.Mirrors left right related other)
    (read : Except CompileError Quantifier) :
    Both (ParseState.Mirrors left right related) (state.addQuantifier read)
      (other.addQuantifier read) := by
  have waiting := mirrors.frame.pending
  have folded := unseen.folded mirrors.frame.flags
  unfold ParseState.addQuantifier
  rw [← unseen.caseless mirrors.frame.flags]
  generalize state.frame.pending = pending at waiting ⊢
  generalize other.frame.pending = pending' at waiting ⊢
  have same := Both.refl (fun _ => rfl) read
  cases waiting with
  | nothing | repeatedTest _ _ | repeatedExpr _ _ => exact .error _
  | literals last earlier =>
      refine same.map fun quantifier _ equal => ?_
      subst equal
      exact mirrors.withFrame ((mirrors.frame.addLiterals unseen earlier).await
        (.repeatedTest (.of_literal folded last) quantifier))
  | atom waiting =>
      cases waiting with
      | single inner =>
          refine same.map fun quantifier _ equal => ?_
          subst equal
          exact mirrors.withFrame (mirrors.frame.await (.repeatedTest inner quantifier))
      | compound inner =>
          refine same.map fun quantifier _ equal => ?_
          subst equal
          exact mirrors.withFrame (mirrors.frame.await (.repeatedExpr inner quantifier))
      | fixed inner => exact same.bind fun _ _ _ => .error _

theorem addBackReference (mirrors : state.Mirrors left right related other) (group : Nat) :
    Both (ParseState.Mirrors left right related) (state.addBackReference group)
      (other.addBackReference group) := by
  refine (mirrors.settle unseen).bind fun state other settled => ?_
  have flags := settled.frame.flags
  simp only [← unseen.capturing flags, ← settled.closed, ← unseen.caseless flags]
  split
  · exact .ok (settled.withFrame
      (settled.frame.await (.atom (.compound (.backReference group (unseen.folded flags))))))
  · exact .error _

omit unseen in
theorem enter (mirrors : state.Mirrors left right related other) (enclosure : Enclosure)
    {flags flags' : Flags} (inner : related flags flags') :
    (state.enter enclosure flags).Mirrors left right related (other.enter enclosure flags') :=
  { mirrors with
    frame := ⟨rfl, inner, .nil, .nil, .nothing⟩
    outer := .cons mirrors.frame mirrors.outer }

theorem openGroup (mirrors : state.Mirrors left right related other)
    {read : Except CompileError Opening} (keeps : (Token.opening read).Keeps related) :
    Both (ParseState.Mirrors left right related) (state.openGroup read) (other.openGroup read) := by
  refine (mirrors.settle unseen).bind fun state other settled => ?_
  have flags := settled.frame.flags
  have level : state.outer.length = other.outer.length := settled.outer.length_eq
  simp only [← level, ← unseen.capturing flags, ← settled.groups]
  split
  · exact .error _
  · cases read with
    | error error => exact .error error
    | ok opening =>
        cases opening with
        | plain =>
            dsimp only [Except.bind]
            split
            · split
              · exact .error _
              · exact .ok { settled.enter (.capture (state.groups + 1)) flags with groups := rfl }
            · exact .ok (settled.enter .bare flags)
        | enclosing => exact .ok (settled.enter .bare flags)
        | atomic => exact .ok (settled.enter .atomic flags)
        | look look => exact .ok (settled.enter (.look look) flags)
        | inline enable changed =>
            exact .ok (settled.enter .bare (keeps enable changed rfl _ _ flags))

omit unseen in
theorem finishGroup (mirrors : state.Mirrors left right related other) {body body' : Expr}
    (inner : body.Mirrors left right body') :
    Both (fun made made' => made.1.Mirrors left right made'.1 ∧
        made.2.Mirrors left right related made'.2)
      (state.finishGroup body) (other.finishGroup body') := by
  refine (mirrors.frame.atom inner).map fun atom atom' built => ?_
  rw [← mirrors.frame.enclosure]
  cases state.frame.enclosure with
  | capture group =>
      exact ⟨built, { mirrors with closed := congrArg (group :: ·) mirrors.closed }⟩
  | bare | atomic | look _ => exact ⟨built, mirrors⟩

theorem closeGroup (mirrors : state.Mirrors left right related other) :
    Both (ParseState.Mirrors left right related) state.closeGroup other.closeGroup := by
  refine (mirrors.settle unseen).bind fun state other settled => ?_
  refine settled.frame.expression.bind fun body body' inner => ?_
  have outside := settled.outer
  generalize around : state.outer = outer at outside
  generalize around' : other.outer = outer' at outside
  cases outside with
  | nil => exact .error _
  | cons parent outside =>
      refine (settled.finishGroup inner).bind fun made made' finished => ?_
      exact .ok { finished.2 with frame := parent.await (.atom finished.1), outer := outside }

theorem closeBranch (mirrors : state.Mirrors left right related other) :
    Both (ParseState.Mirrors left right related) state.closeBranch other.closeBranch :=
  (mirrors.settle unseen).bind fun _ _ settled =>
    settled.frame.closeBranch.map fun _ _ closed => settled.withFrame closed

/-- Both parsers do the same with a token. -/
theorem step (mirrors : state.Mirrors left right related other) {token : Token}
    (keeps : token.Keeps related) :
    Both (ParseState.Mirrors left right related) (state.step token) (other.step token) := by
  have flags := mirrors.frame.flags
  cases token with
  | literal byte => exact mirrors.addLiteral unseen byte
  | dot => exact mirrors.addAtom unseen (.single (unseen.dot flags))
  | caret => exact mirrors.addAtom unseen (.fixed (.assertion (unseen.caret flags)))
  | dollar => exact mirrors.addAtom unseen (.fixed (.assertion (unseen.dollar flags)))
  | bracket bracket => exact mirrors.addAtom unseen (.single (unseen.bracket flags bracket))
  | inClass kind => exact mirrors.addAtom unseen (.single (unseen.inClass kind))
  | notInClass kind => exact mirrors.addAtom unseen (.single (unseen.notInClass kind))
  | assertion condition =>
      exact mirrors.addAtom unseen (.fixed (.assertion (unseen.assertion condition)))
  | backReference group => exact mirrors.addBackReference unseen group
  | opening read => exact mirrors.openGroup unseen keeps
  | closing => exact mirrors.closeGroup unseen
  | bar => exact mirrors.closeBranch unseen
  | quantifier read => exact mirrors.addQuantifier unseen read
  | malformed error => exact (mirrors.settle unseen).bind fun _ _ _ => .error error

theorem foldlM (mirrors : state.Mirrors left right related other) (remaining : List Token)
    (keeps : ∀ token ∈ remaining, token.Keeps related) :
    Both (ParseState.Mirrors left right related) (remaining.foldlM ParseState.step state)
      (remaining.foldlM ParseState.step other) := by
  induction remaining generalizing state other with
  | nil => exact .ok mirrors
  | cons token later ih =>
      rw [List.foldlM_cons, List.foldlM_cons]
      refine (mirrors.step unseen (keeps token (List.mem_cons_self ..))).bind fun _ _ stepped => ?_
      exact ih stepped fun token member => keeps token (List.mem_cons_of_mem _ member)

theorem finish (mirrors : state.Mirrors left right related other) :
    Both (fun result result' => result.1.Mirrors left right result'.1 ∧ result.2 = result'.2)
      state.finish other.finish := by
  refine (mirrors.settle unseen).bind fun state other settled => ?_
  refine settled.frame.expression.bind fun body body' inner => ?_
  rw [← isEmpty_of_forall₂ settled.outer]
  split
  · exact .ok ⟨inner, settled.groups⟩
  · exact (settled.finishGroup inner).bind fun _ _ _ => .error _

end ParseState.Mirrors

/-- A pattern is parsed alike under related flags. -/
theorem parse_both (unseen : Flags.Unseen left right related) {pattern : List UInt8}
    {flags other : Flags}
    (keeps : flags.verbatim = false → ∀ token ∈ tokens pattern, token.Keeps related)
    (same : related flags other) :
    Both (fun result result' => result.1.Mirrors left right result'.1 ∧ result.2 = result'.2)
      (parse pattern flags) (parse pattern other) := by
  simp only [parse, ← unseen.verbatim same, ← unseen.caseless same]
  split
  · exact .error _
  · cases spelled : flags.verbatim with
    | true => exact .ok ⟨.literal pattern (unseen.folded same), rfl⟩
    | false =>
        have start : (ParseState.initial flags).Mirrors left right related (.initial other) :=
          ⟨⟨rfl, same, .nil, .nil, .nothing⟩, .nil, rfl, rfl, rfl⟩
        simp only [Bool.false_eq_true, if_false, ParseState.readAll_eq_foldlM]
        exact (start.foldlM unseen _ (keeps spelled)).bind fun _ _ read => read.finish unseen

end ByteRegex
