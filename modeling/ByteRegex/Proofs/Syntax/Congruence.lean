import Mathlib.Data.List.Forall2
import ByteRegex.Proofs.Syntax.Mirror

/-!
# Congruences

Two parsers read tokens of which each one on one side agrees with one on the other. A relation
between expressions that passes from parts to the whole holds of what they have built, as long as it
holds of the parts that differ. If the relation keeps the size of code, one of the parsers refuses
its tokens only together with the other.
-/

namespace ByteRegex

/-- Results that are related if there are two of them. If the comparison is exact, there are two or
the same error twice. -/
inductive Joined {α β : Type} (exact : Prop) (related : α → β → Prop) :
    Except CompileError α → Except CompileError β → Prop where
  | ok {left : α} {right : β} (holds : related left right) :
      Joined exact related (.ok left) (.ok right)
  | error (error : CompileError) : Joined exact related (.error error) (.error error)
  | former (loose : ¬exact) (error : CompileError) (right : Except CompileError β) :
      Joined exact related (.error error) right
  | latter (loose : ¬exact) (left : Except CompileError α) (error : CompileError) :
      Joined exact related left (.error error)

namespace Joined

variable {α β γ δ : Type} {exact : Prop} {related : α → β → Prop} {further : γ → δ → Prop}
  {left : Except CompileError α} {right : Except CompileError β}

theorem bind {first : α → Except CompileError γ} {second : β → Except CompileError δ}
    (joined : Joined exact related left right)
    (later : ∀ value other, related value other → Joined exact further (first value) (second other)) :
    Joined exact further (left.bind first) (right.bind second) := by
  cases joined with
  | ok holds => exact later _ _ holds
  | error error => exact .error error
  | former loose error right => exact .former loose error _
  | latter loose left error => exact .latter loose _ error

theorem map {first : α → γ} {second : β → δ} (joined : Joined exact related left right)
    (later : ∀ value other, related value other → further (first value) (second other)) :
    Joined exact further (left.map first) (right.map second) := by
  cases joined with
  | ok holds => exact .ok (later _ _ holds)
  | error error => exact .error error
  | former loose error right => exact .former loose error _
  | latter loose left error => exact .latter loose _ error

theorem of_exact {other : Except CompileError α} (same : exact → left = other) :
    Joined exact (fun _ _ => True) left other := by
  cases left with
  | ok value =>
      cases other with
      | ok value' => exact .ok trivial
      | error error => exact .latter (fun precise => nomatch same precise) _ _
  | error error =>
      cases other with
      | ok value => exact .former (fun precise => nomatch same precise) _ _
      | error error' =>
          by_cases precise : exact
          · cases same precise
            exact .error error
          · exact .former precise _ _

theorem of_both (both : Both related left right) : Joined exact related left right := by
  cases both with
  | ok holds => exact .ok holds
  | error error => exact .error error

/-- Results that are refused for the same reason, if the comparison is exact. -/
theorem guard {refuses refuses' : Prop} [Decidable refuses] [Decidable refuses']
    (same : exact → (refuses ↔ refuses')) (error : CompileError)
    (joined : Joined exact related left right) :
    Joined exact related (if refuses then .error error else left)
      (if refuses' then .error error else right) := by
  by_cases first : refuses <;> by_cases second : refuses' <;>
    simp only [first, second, if_true, if_false]
  · exact .error _
  · exact .former (fun precise => second ((same precise).mp first)) _ _
  · exact .latter (fun precise => first ((same precise).mpr second)) _ _
  · exact joined

theorem holds_of_ok {value : α} {other : β} (joined : Joined exact related left right)
    (found : left = .ok value) (found' : right = .ok other) : related value other := by
  cases joined with
  | ok holds =>
      cases found
      cases found'
      exact holds
  | error | former => cases found
  | latter => cases found'

theorem both (joined : Joined exact related left right) (precise : exact) :
    Both related left right := by
  cases joined with
  | ok holds => exact .ok holds
  | error error => exact .error error
  | former loose | latter loose => exact absurd precise loose

end Joined

/-- What is compared about two patterns. -/
structure Comparison where
  /-- Whether one pattern is refused only together with the other. -/
  exact : Prop
  /-- Whether the patterns may have lookarounds and anything atomic. -/
  enclosing : Prop
  quantifiers : Quantifier → Quantifier → Prop
  exprs : Expr → Expr → Prop

/-- A comparison that passes from parts to the whole. -/
structure Comparison.Congruent (comparison : Comparison) : Prop where
  refl : ∀ expr, comparison.exprs expr expr
  sequence : ∀ {first first' second second'}, comparison.exprs first first' →
    comparison.exprs second second' →
      comparison.exprs (.sequence first second) (.sequence first' second')
  alternative : ∀ {first first' second second'}, comparison.exprs first first' →
    comparison.exprs second second' →
      comparison.exprs (.alternative first second) (.alternative first' second')
  capture : ∀ group {body body'}, comparison.exprs body body' →
    comparison.exprs (.capture group body) (.capture group body')
  repetition : ∀ test {quantifier quantifier'}, comparison.quantifiers quantifier quantifier' →
    comparison.exprs (.repetition quantifier test) (.repetition quantifier' test)
  loop : ∀ nullable counter counter' {quantifier quantifier' body body'},
    comparison.quantifiers quantifier quantifier' → comparison.exprs body body' →
      comparison.exprs (.loop quantifier nullable counter body)
        (.loop quantifier' nullable counter' body')
  atomic : comparison.enclosing → ∀ {body body'}, comparison.exprs body body' →
    comparison.exprs (.atomic body) (.atomic body')
  look : comparison.enclosing → ∀ direction width {body body'}, comparison.exprs body body' →
    comparison.exprs (.look direction width body) (.look direction width body')
  width : ∀ {expr expr'}, comparison.exprs expr expr' → expr.width = expr'.width
  emit : comparison.exact → ∀ {expr expr'}, comparison.exprs expr expr' →
    ∀ measure : Measure, expr.emit measure = expr'.emit measure
  least : ∀ {quantifier quantifier'}, comparison.quantifiers quantifier quantifier' →
    quantifier.least = quantifier'.least
  most : ∀ {quantifier quantifier'}, comparison.quantifiers quantifier quantifier' →
    quantifier.most = quantifier'.most
  possessive : ∀ {quantifier quantifier'}, comparison.quantifiers quantifier quantifier' →
    (quantifier.greed = .possessive ↔ quantifier'.greed = .possessive)
  enclosing : ∀ {quantifier quantifier'}, comparison.quantifiers quantifier quantifier' →
    quantifier.greed = .possessive → comparison.enclosing

/-- A repeated expression as it is added to a frame, with the counter of its loop. -/
def Expr.repeated (expr : Expr) (quantifier : Quantifier) (counter : Nat) : Expr :=
  let loop := Expr.loop quantifier expr.nullable counter expr
  if quantifier.isOnce then expr
  else if quantifier.greed = .possessive then .atomic loop
  else loop

/-- What something pending can be once it is settled. Only a loop leaves a choice, which is its
counter. -/
def Pending.Settles : Pending → Expr → Prop
  | nothing, _ | literals _ _, _ => False
  | atom (.single test), piece => piece = .test test
  | atom (.compound expr), piece | atom (.fixed expr), piece => piece = expr
  | repeatedTest test quantifier, piece =>
      piece = if quantifier.isOnce then .test test else .repetition quantifier test
  | repeatedExpr expr quantifier, piece => ∃ counter, piece = expr.repeated quantifier counter

/-- Something pending that no further byte continues. -/
def Pending.IsPart : Pending → Prop
  | nothing | literals _ _ => False
  | atom _ | repeatedTest _ _ | repeatedExpr _ _ => True

/-- Something pending that has its quantifier already. -/
def Pending.IsRepeated : Pending → Prop
  | repeatedTest _ _ | repeatedExpr _ _ => True
  | nothing | literals _ _ | atom _ => False

/-- Tokens that agree as long as what they enclose does. -/
inductive Token.Agrees (comparison : Comparison) : Token → Token → Prop where
  | same {token : Token} (plain : ∀ quantifier, token ≠ .quantifier (.ok quantifier))
      (atomic : token = .opening (.ok .atomic) → comparison.enclosing)
      (look : ∀ direction, token = .opening (.ok (.look direction)) → comparison.enclosing) :
      Agrees comparison token token
  | quantifier {quantifier quantifier' : Quantifier}
      (agree : comparison.quantifiers quantifier quantifier') :
      Agrees comparison (.quantifier (.ok quantifier)) (.quantifier (.ok quantifier'))

inductive Atom.Agrees (comparison : Comparison) : Atom → Atom → Prop where
  | single (test : ByteTest) : Agrees comparison (.single test) (.single test)
  | compound {expr expr' : Expr} (agree : comparison.exprs expr expr') :
      Agrees comparison (.compound expr) (.compound expr')
  | fixed {expr expr' : Expr} (agree : comparison.exprs expr expr') :
      Agrees comparison (.fixed expr) (.fixed expr')

/-- Pending parts that agree: they are of the same kind, or one of them was put in the place of the
other. -/
inductive Pending.Agrees (comparison : Comparison) : Pending → Pending → Prop where
  | nothing : Agrees comparison .nothing .nothing
  | literals (last : UInt8) (earlier : List UInt8) :
      Agrees comparison (.literals last earlier) (.literals last earlier)
  | atom {atom atom' : Atom} (agree : atom.Agrees comparison atom') :
      Agrees comparison (.atom atom) (.atom atom')
  | repeatedTest (test : ByteTest) {quantifier quantifier' : Quantifier}
      (agree : comparison.quantifiers quantifier quantifier') :
      Agrees comparison (.repeatedTest test quantifier) (.repeatedTest test quantifier')
  | repeatedExpr {expr expr' : Expr} (exprs : comparison.exprs expr expr')
      {quantifier quantifier' : Quantifier}
      (agree : comparison.quantifiers quantifier quantifier') :
      Agrees comparison (.repeatedExpr expr quantifier) (.repeatedExpr expr' quantifier')
  | replaced (loose : ¬comparison.exact) {pending pending' : Pending}
      (repeated : pending.IsRepeated) (part : pending'.IsPart)
      (pieces : ∀ piece piece', pending.Settles piece → pending'.Settles piece' →
        comparison.exprs piece piece') :
      Agrees comparison pending pending'

structure Frame.Agrees (comparison : Comparison) (frame other : Frame) : Prop where
  enclosure : frame.enclosure = other.enclosure
  flags : frame.flags = other.flags
  branches : List.Forall₂ comparison.exprs frame.branches other.branches
  pieces : List.Forall₂ comparison.exprs frame.pieces other.pieces
  pending : frame.pending.Agrees comparison other.pending
  atomic : frame.enclosure = .atomic → comparison.enclosing
  look : ∀ direction, frame.enclosure = .look direction → comparison.enclosing

structure ParseState.Agrees (comparison : Comparison) (state other : ParseState) : Prop where
  frame : state.frame.Agrees comparison other.frame
  outer : List.Forall₂ (Frame.Agrees comparison) state.outer other.outer
  groups : state.groups = other.groups
  closed : state.closed = other.closed
  counters : comparison.exact → state.counters = other.counters

variable {comparison : Comparison}

theorem Pending.IsPart.of_repeated {pending : Pending} (repeated : pending.IsRepeated) :
    pending.IsPart := by
  cases pending <;> trivial

/-- What holds of the parts in pairs holds of what they are joined to. -/
theorem Comparison.foldl {join : Expr → Expr → Expr}
    (joined : ∀ {part part' later later' : Expr}, comparison.exprs part part' →
      comparison.exprs later later' → comparison.exprs (join part later) (join part' later'))
    {pieces pieces' : List Expr} (parts : List.Forall₂ comparison.exprs pieces pieces')
    {later later' : Expr} (behind : comparison.exprs later later') :
    comparison.exprs (pieces.foldl (fun later part => join part later) later)
      (pieces'.foldl (fun later part => join part later) later') := by
  induction parts generalizing later later' with
  | nil => exact behind
  | cons part _ ih => exact ih (joined part behind)

namespace Comparison.Congruent

variable (congruent : comparison.Congruent)
include congruent

theorem nullable_eq {expr expr' : Expr} (agree : comparison.exprs expr expr') :
    expr.nullable = expr'.nullable := by
  rw [Expr.nullable, Expr.nullable, congruent.width agree]

/-- Whether the code of an expression has a size is the same for both. -/
theorem codeSize {expr expr' : Expr} (agree : comparison.exprs expr expr') :
    Joined comparison.exact (fun _ _ => True) expr.codeSize expr'.codeSize :=
  .of_exact fun precise => by
    rw [Expr.codeSize, Expr.codeSize, congruent.emit precise agree Measure.zero]

theorem isOnce_eq {quantifier quantifier' : Quantifier}
    (agree : comparison.quantifiers quantifier quantifier') :
    quantifier.isOnce = quantifier'.isOnce := by
  rw [Quantifier.isOnce, Quantifier.isOnce, congruent.least agree, congruent.most agree]

theorem needsCounter_eq {quantifier quantifier' : Quantifier}
    (agree : comparison.quantifiers quantifier quantifier') (nullable : Bool) :
    quantifier.needsCounter nullable = quantifier'.needsCounter nullable := by
  rw [Quantifier.needsCounter, Quantifier.needsCounter, congruent.least agree,
    congruent.most agree]

theorem repeated {expr expr' : Expr} (agree : comparison.exprs expr expr')
    {quantifier quantifier' : Quantifier} (same : comparison.quantifiers quantifier quantifier')
    (counter counter' : Nat) :
    comparison.exprs (expr.repeated quantifier counter) (expr'.repeated quantifier' counter') := by
  have loop := congruent.loop expr.nullable counter counter' same agree
  have greed := congruent.possessive same
  rw [Expr.repeated, Expr.repeated, ← congruent.nullable_eq agree, ← congruent.isOnce_eq same]
  split
  · exact agree
  · by_cases possessive : quantifier.greed = .possessive
    · rw [if_pos possessive, if_pos (greed.mp possessive)]
      exact congruent.atomic (congruent.enclosing same possessive) loop
    · rw [if_neg possessive, if_neg (possessive ∘ greed.mpr)]
      exact loop

end Comparison.Congruent

namespace Frame.Agrees

variable {frame other : Frame} (agrees : frame.Agrees comparison other)
include agrees

theorem addPiece {piece piece' : Expr} (added : comparison.exprs piece piece') :
    (frame.addPiece piece).Agrees comparison (other.addPiece piece') :=
  { agrees with pieces := .cons added agrees.pieces, pending := .nothing }

theorem await {pending pending' : Pending} (waits : pending.Agrees comparison pending') :
    (frame.await pending).Agrees comparison (other.await pending') :=
  { agrees with pending := waits }

variable (congruent : comparison.Congruent)
include congruent

theorem addLiterals (bytes : List UInt8) :
    (frame.addLiterals bytes).Agrees comparison (other.addLiterals bytes) := by
  match bytes with
  | [] => exact agrees.await .nothing
  | [byte] =>
      simp only [Frame.addLiterals, ← agrees.flags]
      exact agrees.addPiece (congruent.refl _)
  | first :: second :: rest =>
      simp only [Frame.addLiterals, ← agrees.flags]
      exact agrees.addPiece (congruent.refl _)

theorem branch : comparison.exprs (Expr.sequenceOfReversed frame.pieces)
    (Expr.sequenceOfReversed other.pieces) :=
  Comparison.foldl congruent.sequence agrees.pieces (congruent.refl _)

theorem closeBranch :
    Joined comparison.exact (Frame.Agrees comparison) frame.closeBranch other.closeBranch := by
  have branch := agrees.branch congruent
  have ended : Joined comparison.exact (fun _ _ => True)
      (((Expr.sequenceOfReversed frame.pieces).emit Measure.zero).bind (endBranch 0))
      (((Expr.sequenceOfReversed other.pieces).emit Measure.zero).bind (endBranch 0)) :=
    .of_exact fun precise => by rw [congruent.emit precise branch]
  have closed : Frame.Agrees comparison
      { frame with branches := Expr.sequenceOfReversed frame.pieces :: frame.branches, pieces := [] }
      { other with
        branches := Expr.sequenceOfReversed other.pieces :: other.branches
        pieces := [] } :=
    { agrees with branches := .cons branch agrees.branches, pieces := .nil }
  unfold Frame.closeBranch
  refine .guard (fun _ => by rw [isEmpty_of_forall₂ agrees.pieces]) _ ?_
  dsimp only
  generalize ((Expr.sequenceOfReversed frame.pieces).emit Measure.zero).bind (endBranch 0) = first
    at ended
  generalize ((Expr.sequenceOfReversed other.pieces).emit Measure.zero).bind (endBranch 0) = second
    at ended
  cases ended with
  | ok => exact .ok closed
  | error error => exact .error error
  | former loose error right => exact .former loose error _
  | latter loose left error => exact .latter loose _ error

theorem expression : Joined comparison.exact comparison.exprs frame.expression other.expression := by
  have last := agrees.branch congruent
  have whole : comparison.exprs
      (Expr.alternationOfReversed frame.branches (Expr.sequenceOfReversed frame.pieces))
      (Expr.alternationOfReversed other.branches (Expr.sequenceOfReversed other.pieces)) :=
    Comparison.foldl congruent.alternative agrees.branches last
  simp only [Frame.expression, ← isEmpty_of_forall₂ agrees.pieces,
    ← isEmpty_of_forall₂ agrees.branches]
  cases frame.branches.isEmpty with
  | true => exact .ok last
  | false =>
      cases frame.pieces.isEmpty with
      | true => exact .error _
      | false => exact (congruent.codeSize whole).map fun _ _ _ => whole

theorem atom {body body' : Expr} (inner : comparison.exprs body body') :
    Joined comparison.exact (Atom.Agrees comparison) (frame.atom body) (other.atom body') := by
  have atomic := agrees.atomic
  have look := agrees.look
  simp only [Frame.atom, ← agrees.enclosure]
  cases enclosed : frame.enclosure with
  | bare => exact .ok (.compound inner)
  | capture group => exact .ok (.compound (congruent.capture group inner))
  | atomic =>
      have whole := congruent.atomic (atomic enclosed) inner
      exact (congruent.codeSize whole).map fun _ _ _ => .compound whole
  | look direction =>
      have widths : lookWidth direction body = lookWidth direction body' := by
        simp only [lookWidth, congruent.width inner]
      simp only [← widths]
      cases lookWidth direction body with
      | error error => exact .error _
      | ok width =>
          have whole := congruent.look (look direction enclosed) direction width inner
          exact (congruent.codeSize whole).map fun _ _ _ => .fixed whole

end Frame.Agrees

theorem Frame.Agrees.refl (congruent : comparison.Congruent) {frame : Frame}
    (pending : frame.pending.Agrees comparison frame.pending)
    (atomic : frame.enclosure = .atomic → comparison.enclosing)
    (look : ∀ direction, frame.enclosure = .look direction → comparison.enclosing) :
    frame.Agrees comparison frame where
  enclosure := rfl
  flags := rfl
  branches := List.forall₂_same.mpr fun _ _ => congruent.refl _
  pieces := List.forall₂_same.mpr fun _ _ => congruent.refl _
  pending := pending
  atomic := atomic
  look := look

namespace ParseState

theorem addLoop_eq (state : ParseState) (body : Expr) {quantifier : Quantifier}
    (several : quantifier.isOnce = false) :
    state.addLoop body quantifier =
      let counted := quantifier.needsCounter body.nullable
      if counted && Capacity.counters ≤ state.counters then .error .tooComplex
      else
        let whole := body.repeated quantifier (if counted then state.counters else 0)
        whole.codeSize.map fun _ =>
          { state with
            frame := state.frame.addPiece whole
            counters := if counted then state.counters + 1 else state.counters } := by
  simp only [addLoop, Expr.repeated, several, Bool.false_eq_true, if_false]

/-- Something pending is settled as one of the pieces that it can be. -/
theorem exists_of_settle {state next : ParseState} (part : state.frame.pending.IsPart)
    (settled : state.settle = .ok next) :
    ∃ piece counters, state.frame.pending.Settles piece ∧
      next = { state with frame := state.frame.addPiece piece, counters := counters } := by
  unfold settle at settled
  generalize state.frame.pending = pending at part settled ⊢
  cases pending with
  | nothing | literals => cases part
  | atom atom =>
      cases atom <;> cases settled <;> exact ⟨_, state.counters, rfl, rfl⟩
  | repeatedTest test quantifier =>
      cases settled
      exact ⟨_, state.counters, rfl, rfl⟩
  | repeatedExpr expr quantifier =>
      dsimp only at settled
      split at settled
      · rename_i once
        cases settled
        exact ⟨expr, state.counters, ⟨0, by simp only [Expr.repeated, once, if_true]⟩, rfl⟩
      · rename_i several
        rw [addLoop_eq _ _ (by simpa using several)] at settled
        dsimp only at settled
        split at settled
        · cases settled
        · obtain ⟨_, _, rfl⟩ := exists_of_map settled
          exact ⟨_, _, ⟨_, rfl⟩, rfl⟩

end ParseState

namespace ParseState.Agrees

variable {state other : ParseState}

theorem withFrame (agrees : state.Agrees comparison other) {frame frame' : Frame}
    (frames : frame.Agrees comparison frame') :
    (state.withFrame frame).Agrees comparison (other.withFrame frame') :=
  { agrees with frame := frames }

variable (congruent : comparison.Congruent)
include congruent

theorem addLoop (agrees : state.Agrees comparison other) {body body' : Expr}
    (inner : comparison.exprs body body') {quantifier quantifier' : Quantifier}
    (same : comparison.quantifiers quantifier quantifier') (several : quantifier.isOnce = false) :
    Joined comparison.exact (ParseState.Agrees comparison) (state.addLoop body quantifier)
      (other.addLoop body' quantifier') := by
  have counters := agrees.counters
  rw [ParseState.addLoop_eq _ _ several,
    ParseState.addLoop_eq _ _ (congruent.isOnce_eq same ▸ several)]
  simp only [← congruent.nullable_eq inner, ← congruent.needsCounter_eq same]
  generalize quantifier.needsCounter body.nullable = counted
  refine .guard (fun precise => by rw [counters precise]) _ ?_
  have whole := congruent.repeated inner same (if counted then state.counters else 0)
    (if counted then other.counters else 0)
  refine (congruent.codeSize whole).map fun _ _ _ => ?_
  exact { agrees with
    frame := agrees.frame.addPiece whole
    counters := fun precise => by rw [counters precise] }

/-- What is pending on both sides turns into pieces that agree. -/
theorem settle (agrees : state.Agrees comparison other) :
    Joined comparison.exact (ParseState.Agrees comparison) state.settle other.settle := by
  have waiting := agrees.frame.pending
  generalize pending : state.frame.pending = before at waiting
  generalize pending' : other.frame.pending = before' at waiting
  cases waiting with
  | nothing =>
      simp only [ParseState.settle, pending, pending']
      exact .ok agrees
  | literals last earlier =>
      simp only [ParseState.settle, pending, pending']
      exact .ok (agrees.withFrame (agrees.frame.addLiterals congruent _))
  | atom same =>
      simp only [ParseState.settle, pending, pending']
      cases same with
      | single test => exact .ok (agrees.withFrame (agrees.frame.addPiece (congruent.refl _)))
      | compound inner | fixed inner => exact .ok (agrees.withFrame (agrees.frame.addPiece inner))
  | repeatedTest test same =>
      simp only [ParseState.settle, pending, pending', ← congruent.isOnce_eq same]
      refine .ok (agrees.withFrame (agrees.frame.addPiece ?_))
      split
      · exact congruent.refl _
      · exact congruent.repetition test same
  | repeatedExpr inner same =>
      simp only [ParseState.settle, pending, pending', ← congruent.isOnce_eq same]
      split
      · exact .ok (agrees.withFrame (agrees.frame.addPiece inner))
      · rename_i several
        exact agrees.addLoop congruent inner same (by simpa using several)
  | replaced loose repeated part pieces =>
      cases settled : state.settle with
      | error error => exact .former loose _ _
      | ok next =>
          cases settled' : other.settle with
          | error error => exact .latter loose _ _
          | ok next' =>
              obtain ⟨piece, _, settles, rfl⟩ :=
                ParseState.exists_of_settle (pending ▸ .of_repeated repeated) settled
              obtain ⟨piece', _, settles', rfl⟩ :=
                ParseState.exists_of_settle (pending' ▸ part) settled'
              rw [pending] at settles
              rw [pending'] at settles'
              exact .ok { agrees with
                frame := agrees.frame.addPiece (pieces piece piece' settles settles')
                counters := fun precise => absurd precise loose }

theorem addAtom (agrees : state.Agrees comparison other) {atom atom' : Atom}
    (waits : atom.Agrees comparison atom') :
    Joined comparison.exact (ParseState.Agrees comparison) (state.addAtom atom)
      (other.addAtom atom') :=
  (agrees.settle congruent).map fun _ _ settled =>
    settled.withFrame (settled.frame.await (.atom waits))

theorem addLiteral (agrees : state.Agrees comparison other) (byte : UInt8) :
    Joined comparison.exact (ParseState.Agrees comparison) (state.addLiteral byte)
      (other.addLiteral byte) := by
  have waiting := agrees.frame.pending
  have settled : Joined comparison.exact (ParseState.Agrees comparison)
      (state.settle.map fun state => state.withFrame (state.frame.await (.literals byte [])))
      (other.settle.map fun state => state.withFrame (state.frame.await (.literals byte []))) :=
    (agrees.settle congruent).map fun _ _ settled =>
      settled.withFrame (settled.frame.await (.literals byte []))
  unfold ParseState.addLiteral
  generalize state.frame.pending = pending at waiting ⊢
  generalize other.frame.pending = pending' at waiting ⊢
  cases waiting with
  | literals last earlier => exact .ok (agrees.withFrame (agrees.frame.await (.literals _ _)))
  | nothing | atom _ | repeatedTest _ _ | repeatedExpr _ _ => exact settled
  | replaced _ repeated part _ =>
      cases pending <;> cases pending' <;>
        first | exact settled | exact repeated.elim | exact part.elim

theorem addQuantifier (agrees : state.Agrees comparison other)
    {read read' : Except CompileError Quantifier} (same : Both comparison.quantifiers read read') :
    Joined comparison.exact (ParseState.Agrees comparison) (state.addQuantifier read)
      (other.addQuantifier read') := by
  have waiting := agrees.frame.pending
  have quantifiers : Joined comparison.exact comparison.quantifiers read read' := .of_both same
  unfold ParseState.addQuantifier
  rw [← agrees.frame.flags]
  generalize state.frame.pending = pending at waiting ⊢
  generalize other.frame.pending = pending' at waiting ⊢
  cases waiting with
  | nothing | repeatedTest _ _ | repeatedExpr _ _ => exact .error _
  | literals last earlier =>
      exact quantifiers.map fun _ _ same => agrees.withFrame
        ((agrees.frame.addLiterals congruent earlier).await (.repeatedTest _ same))
  | atom inner =>
      cases inner with
      | single test =>
          exact quantifiers.map fun _ _ same =>
            agrees.withFrame (agrees.frame.await (.repeatedTest test same))
      | compound inner =>
          exact quantifiers.map fun _ _ same =>
            agrees.withFrame (agrees.frame.await (.repeatedExpr inner same))
      | fixed inner => exact quantifiers.bind fun _ _ _ => .error _
  | replaced loose repeated part _ =>
      cases pending with
      | nothing | literals | atom => exact repeated.elim
      | repeatedTest | repeatedExpr => exact .former loose _ _

theorem addBackReference (agrees : state.Agrees comparison other) (group : Nat) :
    Joined comparison.exact (ParseState.Agrees comparison) (state.addBackReference group)
      (other.addBackReference group) := by
  refine (agrees.settle congruent).bind fun state other settled => ?_
  simp only [← settled.frame.flags, ← settled.closed]
  split
  · exact .ok (settled.withFrame
      (settled.frame.await (.atom (.compound (congruent.refl _)))))
  · exact .error _

omit congruent in
theorem enter (agrees : state.Agrees comparison other) (enclosure : Enclosure) (flags : Flags)
    (atomic : enclosure = .atomic → comparison.enclosing)
    (look : ∀ direction, enclosure = .look direction → comparison.enclosing) :
    (state.enter enclosure flags).Agrees comparison (other.enter enclosure flags) :=
  { agrees with
    frame := ⟨rfl, rfl, .nil, .nil, .nothing, atomic, look⟩
    outer := .cons agrees.frame agrees.outer }

theorem openGroup (agrees : state.Agrees comparison other) {read : Except CompileError Opening}
    (atomic : read = .ok .atomic → comparison.enclosing)
    (look : ∀ direction, read = .ok (.look direction) → comparison.enclosing) :
    Joined comparison.exact (ParseState.Agrees comparison) (state.openGroup read)
      (other.openGroup read) := by
  refine (agrees.settle congruent).bind fun state other settled => ?_
  have level : state.outer.length = other.outer.length := settled.outer.length_eq
  simp only [← level, ← settled.frame.flags, ← settled.groups]
  split
  · exact .error _
  · cases read with
    | error error => exact .error _
    | ok opening =>
        cases opening with
        | plain =>
            dsimp only [Except.bind]
            split
            · split
              · exact .error _
              · exact .ok { settled.enter (.capture _) _ nofun nofun with groups := rfl }
            · exact .ok (settled.enter .bare _ nofun nofun)
        | enclosing | inline enable changed => exact .ok (settled.enter .bare _ nofun nofun)
        | atomic => exact .ok (settled.enter .atomic _ (fun _ => atomic rfl) nofun)
        | look direction => exact .ok (settled.enter _ _ nofun fun _ _ => look direction rfl)

theorem finishGroup (agrees : state.Agrees comparison other) {body body' : Expr}
    (inner : comparison.exprs body body') :
    Joined comparison.exact
      (fun made made' => made.1.Agrees comparison made'.1 ∧ made.2.Agrees comparison made'.2)
      (state.finishGroup body) (other.finishGroup body') := by
  refine (agrees.frame.atom congruent inner).map fun atom atom' built => ?_
  rw [← agrees.frame.enclosure]
  cases state.frame.enclosure with
  | capture group => exact ⟨built, { agrees with closed := congrArg (group :: ·) agrees.closed }⟩
  | bare | atomic | look _ => exact ⟨built, agrees⟩

theorem closeGroup (agrees : state.Agrees comparison other) :
    Joined comparison.exact (ParseState.Agrees comparison) state.closeGroup other.closeGroup := by
  refine (agrees.settle congruent).bind fun state other settled => ?_
  refine (settled.frame.expression congruent).bind fun body body' inner => ?_
  have outside := settled.outer
  generalize around : state.outer = outer at outside
  generalize around' : other.outer = outer' at outside
  cases outside with
  | nil => exact .error _
  | cons parent outside =>
      refine (settled.finishGroup congruent inner).bind fun made made' finished => ?_
      exact .ok { finished.2 with frame := parent.await (.atom finished.1), outer := outside }

theorem closeBranch (agrees : state.Agrees comparison other) :
    Joined comparison.exact (ParseState.Agrees comparison) state.closeBranch other.closeBranch :=
  (agrees.settle congruent).bind fun _ _ settled =>
    (settled.frame.closeBranch congruent).map fun _ _ closed => settled.withFrame closed

/-- Tokens that agree are read alike. -/
theorem step (agrees : state.Agrees comparison other) {token token' : Token}
    (same : token.Agrees comparison token') :
    Joined comparison.exact (ParseState.Agrees comparison) (state.step token)
      (other.step token') := by
  cases same with
  | quantifier agree => exact agrees.addQuantifier congruent (.ok agree)
  | same plain atomic look =>
      cases token with
      | literal byte => exact agrees.addLiteral congruent byte
      | dot | bracket | inClass | notInClass =>
          simp only [ParseState.step, ← agrees.frame.flags]
          exact agrees.addAtom congruent (.single _)
      | caret | dollar | assertion =>
          simp only [ParseState.step, ← agrees.frame.flags]
          exact agrees.addAtom congruent (.fixed (congruent.refl _))
      | backReference group => exact agrees.addBackReference congruent group
      | opening read =>
          exact agrees.openGroup congruent (fun same => atomic (congrArg _ same))
            fun direction same => look direction (congrArg _ same)
      | closing => exact agrees.closeGroup congruent
      | bar => exact agrees.closeBranch congruent
      | quantifier read =>
          cases read with
          | ok quantifier => exact absurd rfl (plain quantifier)
          | error error => exact agrees.addQuantifier congruent (.error error)
      | malformed error => exact (agrees.settle congruent).bind fun _ _ _ => .error _

theorem foldlM (agrees : state.Agrees comparison other) {remaining remaining' : List Token}
    (same : List.Forall₂ (Token.Agrees comparison) remaining remaining') :
    Joined comparison.exact (ParseState.Agrees comparison)
      (remaining.foldlM ParseState.step state) (remaining'.foldlM ParseState.step other) := by
  induction same generalizing state other with
  | nil => exact .ok agrees
  | cons first _ ih =>
      rw [List.foldlM_cons, List.foldlM_cons]
      exact (agrees.step congruent first).bind fun _ _ stepped => ih stepped

theorem finish (agrees : state.Agrees comparison other) :
    Joined comparison.exact
      (fun result result' => comparison.exprs result.1 result'.1 ∧ result.2 = result'.2)
      state.finish other.finish := by
  refine (agrees.settle congruent).bind fun state other settled => ?_
  refine (settled.frame.expression congruent).bind fun body body' inner => ?_
  rw [← isEmpty_of_forall₂ settled.outer]
  split
  · exact .ok ⟨inner, settled.groups⟩
  · exact (settled.finishGroup congruent inner).bind fun _ _ _ => .error _

/-- Parsers that agree stay together up to the end of the pattern. -/
theorem readAll (agrees : state.Agrees comparison other) {rest rest' : List UInt8}
    (same : List.Forall₂ (Token.Agrees comparison) (tokens rest) (tokens rest')) :
    Joined comparison.exact
      (fun result result' => comparison.exprs result.1 result'.1 ∧ result.2 = result'.2)
      (state.readAll rest) (other.readAll rest') := by
  rw [ParseState.readAll_eq_foldlM, ParseState.readAll_eq_foldlM]
  exact (agrees.foldlM congruent same).bind fun _ _ read => read.finish congruent

end ParseState.Agrees

end ByteRegex
