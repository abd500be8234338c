import Mathlib.Data.List.Forall2
import ByteRegex.Proofs.Assembly.Sinks
import ByteRegex.Proofs.Syntax.Tokens

/-!
# Flags that are not read

Of the flags the parser reads three. Two parsers whose frames agree in those do the same with every
token, so whether a match has to consume something leaves the code of a pattern as it is.
-/

namespace ByteRegex

theorem Both.eq {α : Type} {left right : Except CompileError α} (both : Both Eq left right) :
    left = right := by
  cases both with
  | error error => rfl
  | ok same => rw [same]

/-- Flags that agree in what the parser reads of them. -/
structure Flags.Alike (flags other : Flags) : Prop where
  caseless : flags.caseless = other.caseless
  newline : flags.newline = other.newline
  capturing : flags.capturing = other.capturing

/-- Frames with the same parts and with flags that are read alike. -/
inductive Frame.Alike : Frame → Frame → Prop where
  | mk (enclosure : Enclosure) {flags other : Flags} (same : flags.Alike other)
      (branches pieces : List Expr) (pending : Pending) :
      Alike ⟨enclosure, flags, branches, pieces, pending⟩
        ⟨enclosure, other, branches, pieces, pending⟩

inductive ParseState.Alike : ParseState → ParseState → Prop where
  | mk {frame frame' : Frame} {outer outer' : List Frame} (inner : frame.Alike frame')
      (around : List.Forall₂ Frame.Alike outer outer') (groups : Nat) (closed : List Nat)
      (counters : Nat) :
      Alike ⟨frame, outer, groups, closed, counters⟩ ⟨frame', outer', groups, closed, counters⟩

theorem Flags.Alike.change {flags other : Flags} (same : flags.Alike other) (enable : Bool)
    (changed : Flags) :
    Flags.Alike (if enable then flags.union changed else flags.difference changed)
      (if enable then other.union changed else other.difference changed) := by
  cases enable with
  | true =>
      exact ⟨congrArg (· || changed.caseless) same.caseless,
        congrArg (· || changed.newline) same.newline,
        congrArg (· || changed.capturing) same.capturing⟩
  | false =>
      exact ⟨congrArg (· && !changed.caseless) same.caseless,
        congrArg (· && !changed.newline) same.newline,
        congrArg (· && !changed.capturing) same.capturing⟩

namespace Frame.Alike

variable {frame other : Frame} (alike : frame.Alike other)
include alike

theorem flags : frame.flags.Alike other.flags := by
  cases alike with
  | mk _ same => exact same

theorem pending : frame.pending = other.pending := by
  cases alike
  rfl

theorem addPiece (piece : Expr) : (frame.addPiece piece).Alike (other.addPiece piece) := by
  cases alike with
  | mk enclosure same branches pieces =>
      exact .mk enclosure same branches (piece :: pieces) .nothing

theorem await (pending : Pending) : (frame.await pending).Alike (other.await pending) := by
  cases alike with
  | mk enclosure same branches pieces => exact .mk enclosure same branches pieces pending

theorem addLiterals (bytes : List UInt8) :
    (frame.addLiterals bytes).Alike (other.addLiterals bytes) := by
  have same := alike.flags.caseless
  match bytes with
  | [] => exact alike.await .nothing
  | [byte] =>
      simp only [Frame.addLiterals, same]
      exact alike.addPiece _
  | first :: second :: rest =>
      simp only [Frame.addLiterals, same]
      exact alike.addPiece _

theorem closeBranch : Both Frame.Alike frame.closeBranch other.closeBranch := by
  cases alike with
  | mk enclosure same branches pieces pending =>
      unfold Frame.closeBranch
      dsimp only
      split
      · exact .error _
      · split
        · exact .error _
        · exact .ok (.mk enclosure same _ _ pending)

theorem expression : frame.expression = other.expression := by
  cases alike
  rfl

theorem atom (body : Expr) : frame.atom body = other.atom body := by
  cases alike
  rfl

end Frame.Alike

namespace ParseState.Alike

variable {state other : ParseState}

theorem frame (alike : state.Alike other) : state.frame.Alike other.frame := by
  cases alike with
  | mk inner => exact inner

theorem withFrame (alike : state.Alike other) {frame frame' : Frame} (inner : frame.Alike frame') :
    (state.withFrame frame).Alike (other.withFrame frame') := by
  cases alike with
  | mk _ around groups closed counters => exact .mk inner around groups closed counters

theorem addLoop (alike : state.Alike other) (body : Expr) (quantifier : Quantifier) :
    Both ParseState.Alike (state.addLoop body quantifier) (other.addLoop body quantifier) := by
  cases alike with
  | mk inner around groups closed counters =>
      unfold ParseState.addLoop
      dsimp only
      split
      · exact .error _
      · refine (Both.refl (fun _ => rfl) _).map fun _ _ _ => ?_
        exact .mk (inner.addPiece _) around groups closed _

theorem settle (alike : state.Alike other) : Both ParseState.Alike state.settle other.settle := by
  unfold ParseState.settle
  rw [← alike.frame.pending]
  cases state.frame.pending with
  | nothing => exact .ok alike
  | literals last earlier => exact .ok (alike.withFrame (alike.frame.addLiterals _))
  | atom atom =>
      cases atom with
      | single | compound | fixed => exact .ok (alike.withFrame (alike.frame.addPiece _))
  | repeatedTest test quantifier => exact .ok (alike.withFrame (alike.frame.addPiece _))
  | repeatedExpr expr quantifier =>
      dsimp only
      split
      · exact .ok (alike.withFrame (alike.frame.addPiece _))
      · exact alike.addLoop expr quantifier

theorem addAtom (alike : state.Alike other) (atom : Atom) :
    Both ParseState.Alike (state.addAtom atom) (other.addAtom atom) :=
  alike.settle.map fun _ _ settled => settled.withFrame (settled.frame.await _)

theorem addLiteral (alike : state.Alike other) (byte : UInt8) :
    Both ParseState.Alike (state.addLiteral byte) (other.addLiteral byte) := by
  have settled : Both ParseState.Alike
      (state.settle.map fun state => state.withFrame (state.frame.await (.literals byte [])))
      (other.settle.map fun state => state.withFrame (state.frame.await (.literals byte []))) :=
    alike.settle.map fun _ _ settled => settled.withFrame (settled.frame.await _)
  unfold ParseState.addLiteral
  rw [← alike.frame.pending]
  cases state.frame.pending with
  | literals last earlier => exact .ok (alike.withFrame (alike.frame.await _))
  | nothing | atom | repeatedTest | repeatedExpr => exact settled

theorem addQuantifier (alike : state.Alike other) (read : Except CompileError Quantifier) :
    Both ParseState.Alike (state.addQuantifier read) (other.addQuantifier read) := by
  have same := Both.refl (fun _ => rfl) read
  have waits (repeated : Quantifier → Pending) {frame frame' : Frame} (inner : frame.Alike frame') :
      Both ParseState.Alike
        (read.map fun quantifier => state.withFrame (frame.await (repeated quantifier)))
        (read.map fun quantifier => other.withFrame (frame'.await (repeated quantifier))) :=
    same.map fun _ _ equal => equal ▸ alike.withFrame (inner.await _)
  unfold ParseState.addQuantifier
  rw [← alike.frame.pending, ← alike.frame.flags.caseless]
  cases state.frame.pending with
  | nothing | repeatedTest | repeatedExpr => exact .error _
  | literals last earlier => exact waits _ (alike.frame.addLiterals earlier)
  | atom atom =>
      cases atom with
      | single | compound => exact waits _ alike.frame
      | fixed => exact same.bind fun _ _ _ => .error _

theorem addBackReference (alike : state.Alike other) (group : Nat) :
    Both ParseState.Alike (state.addBackReference group) (other.addBackReference group) := by
  refine alike.settle.bind fun state other settled => ?_
  have flags := settled.frame.flags
  have same : state.closed = other.closed := by
    cases settled
    rfl
  simp only [← flags.capturing, ← flags.caseless, ← same]
  split
  · exact .ok (settled.withFrame (settled.frame.await _))
  · exact .error _

theorem enter (alike : state.Alike other) (enclosure : Enclosure) {flags flags' : Flags}
    (same : flags.Alike flags') :
    (state.enter enclosure flags).Alike (other.enter enclosure flags') := by
  cases alike with
  | mk inner around groups closed counters =>
      exact .mk (.mk enclosure same [] [] .nothing) (.cons inner around) groups closed counters

theorem withGroups (alike : state.Alike other) (groups : Nat) :
    ParseState.Alike { state with groups } { other with groups } := by
  cases alike with
  | mk inner around _ closed counters => exact .mk inner around groups closed counters

theorem openGroup (alike : state.Alike other) (read : Except CompileError Opening) :
    Both ParseState.Alike (state.openGroup read) (other.openGroup read) := by
  refine alike.settle.bind fun state other settled => ?_
  have flags := settled.frame.flags
  have level : state.outer.length = other.outer.length ∧ state.groups = other.groups := by
    cases settled with
    | mk _ around => exact ⟨around.length_eq, rfl⟩
  simp only [← level.1, ← flags.capturing, ← level.2]
  split
  · exact .error _
  · refine (Both.refl (fun _ => rfl) read).bind fun opening _ equal => ?_
    subst equal
    cases opening with
    | plain =>
        dsimp only
        split
        · split
          · exact .error _
          · exact .ok ((settled.enter _ flags).withGroups _)
        · exact .ok (settled.enter .bare flags)
    | enclosing => exact .ok (settled.enter .bare flags)
    | atomic => exact .ok (settled.enter .atomic flags)
    | look look => exact .ok (settled.enter (.look look) flags)
    | inline enable changed => exact .ok (settled.enter .bare (flags.change enable changed))

theorem finishGroup (alike : state.Alike other) (body : Expr) :
    Both (fun made made' => made.1 = made'.1 ∧ made.2.Alike made'.2) (state.finishGroup body)
      (other.finishGroup body) := by
  unfold ParseState.finishGroup
  rw [alike.frame.atom body]
  refine (Both.refl (fun _ => rfl) _).map fun atom _ equal => ?_
  subst equal
  cases alike with
  | mk inner around groups closed counters =>
      cases inner with
      | mk enclosure same branches pieces pending =>
          cases enclosure with
          | capture group =>
              exact ⟨rfl, .mk (.mk _ same branches pieces pending) around groups _ counters⟩
          | bare | atomic | look =>
              exact ⟨rfl, .mk (.mk _ same branches pieces pending) around groups closed counters⟩

theorem closeGroup (alike : state.Alike other) :
    Both ParseState.Alike state.closeGroup other.closeGroup := by
  refine alike.settle.bind fun state other settled => ?_
  rw [settled.frame.expression]
  refine (Both.refl (fun _ => rfl) _).bind fun body _ equal => ?_
  subst equal
  have finished := settled.finishGroup body
  obtain ⟨frame, outer, groups, closed, counters⟩ := state
  obtain ⟨frame', outer', groups', closed', counters'⟩ := other
  cases settled with
  | mk inner around =>
      cases around with
      | nil => exact .error _
      | cons parent around =>
          refine finished.bind fun (atom, after) (atom', after') ⟨same, made⟩ => ?_
          cases same
          cases made with
          | mk _ _ groups closed counters =>
              exact .ok (.mk (parent.await _) around groups closed counters)

theorem closeBranch (alike : state.Alike other) :
    Both ParseState.Alike state.closeBranch other.closeBranch :=
  alike.settle.bind fun _ _ settled =>
    settled.frame.closeBranch.map fun _ _ closed => settled.withFrame closed

/-- Parsers that are alike do the same with a token. -/
theorem step (alike : state.Alike other) (token : Token) :
    Both ParseState.Alike (state.step token) (other.step token) := by
  have flags := alike.frame.flags
  have added (atom : Bool → Bool → Atom) : Both ParseState.Alike
      (state.addAtom (atom state.frame.flags.caseless state.frame.flags.newline))
      (other.addAtom (atom other.frame.flags.caseless other.frame.flags.newline)) := by
    rw [← flags.caseless, ← flags.newline]
    exact alike.addAtom _
  cases token with
  | literal byte => exact alike.addLiteral byte
  | dot => exact added fun _ newline => .single (if newline then .anyButNewline else .any)
  | caret =>
      exact added fun _ newline => .fixed (.assertion (if newline then .lineBegin else .textBegin))
  | dollar =>
      exact added fun _ newline => .fixed (.assertion (if newline then .lineEnd else .textEnd))
  | bracket bracket =>
      have same : bracket.toByteSet state.frame.flags = bracket.toByteSet other.frame.flags := by
        unfold Bracket.toByteSet
        refine congrArg ByteSet.ofPredicate (funext fun byte => ?_)
        simp only [Bracket.denotes, flags.caseless, flags.newline]
      simp only [ParseState.step, same]
      exact alike.addAtom _
  | inClass | notInClass | assertion => exact alike.addAtom _
  | backReference group => exact alike.addBackReference group
  | opening read => exact alike.openGroup read
  | closing => exact alike.closeGroup
  | bar => exact alike.closeBranch
  | quantifier read => exact alike.addQuantifier read
  | malformed error => exact alike.settle.bind fun _ _ _ => .error error

theorem foldlM (alike : state.Alike other) (remaining : List Token) :
    Both ParseState.Alike (remaining.foldlM ParseState.step state)
      (remaining.foldlM ParseState.step other) := by
  induction remaining generalizing state other with
  | nil => exact .ok alike
  | cons token later ih =>
      rw [List.foldlM_cons, List.foldlM_cons]
      exact (alike.step token).bind fun _ _ stepped => ih stepped

theorem finish (alike : state.Alike other) : state.finish = other.finish := by
  have finished : Both Eq state.finish other.finish := by
    refine alike.settle.bind fun state other settled => ?_
    rw [settled.frame.expression]
    refine (Both.refl (fun _ => rfl) _).bind fun body _ equal => ?_
    subst equal
    have last := settled.finishGroup body
    have around : state.outer.isEmpty = other.outer.isEmpty ∧ state.groups = other.groups := by
      cases settled with
      | mk _ around => cases around <;> exact ⟨rfl, rfl⟩
    rw [← around.1]
    split
    · exact .ok (congrArg (Prod.mk body) around.2)
    · exact last.bind fun _ _ _ => .error _
  exact finished.eq

end ParseState.Alike

/-- A pattern means the same under flags that are read alike. -/
theorem parse_of_alike {flags other : Flags} (alike : flags.Alike other)
    (verbatim : flags.verbatim = other.verbatim) (pattern : List UInt8) :
    parse pattern flags = parse pattern other := by
  have begun : (ParseState.initial flags).Alike (.initial other) :=
    .mk (.mk .bare alike [] [] .nothing) .nil 0 [] 0
  have read := begun.foldlM (tokens pattern)
  simp only [parse, verbatim, alike.caseless, ParseState.readAll_eq_foldlM]
  generalize (tokens pattern).foldlM ParseState.step (.initial flags) = last at read ⊢
  generalize (tokens pattern).foldlM ParseState.step (.initial other) = last' at read ⊢
  have finishes : last >>= ParseState.finish = last' >>= ParseState.finish := by
    cases read with
    | error error => rfl
    | ok ended => exact ended.finish
  rw [finishes]

end ByteRegex
