import ByteRegex.Proofs.Assembly.Places
import ByteRegex.Proofs.Syntax.Numbering
import ByteRegex.Proofs.Syntax.Tokens

/-!
# Properties that the parser keeps

The parser puts expressions together from smaller ones. A property that passes from the parts to
the whole is true of every expression that the parser holds, and of the pattern in the end. An
expression whose jumps could be too long is measured before it is kept.
-/

namespace ByteRegex

/-- A property that passes from parts to the whole, as long as all lookarounds are of certain
kinds. -/
structure Expr.Closed (looks : Look → Prop) (property : Expr → Prop) : Prop where
  empty : property .empty
  test : ∀ single, property (.test single)
  literal : ∀ caseless bytes, property (.literal caseless bytes)
  assertion : ∀ condition, property (.assertion condition)
  backReference : ∀ caseless group, property (.backReference caseless group)
  repetition : ∀ quantifier single, property (.repetition quantifier single)
  sequence : ∀ first second, property first → property second → property (.sequence first second)
  capture : ∀ group body, property body → property (.capture group body)
  alternation : ∀ branches last, (∀ branch ∈ branches, property branch) → property last →
    (alternationOfReversed branches last).Measured → property (alternationOfReversed branches last)
  loop : ∀ quantifier nullable counter body, property body →
    (Expr.loop quantifier nullable counter body).Measured →
    property (.loop quantifier nullable counter body)
  atomic : ∀ body, property body → (Expr.atomic body).Measured → property (.atomic body)
  look : ∀ direction width body, looks direction → property body →
    (Expr.look direction width body).Measured → property (.look direction width body)

theorem Expr.Closed.sequenceOfReversed {looks : Look → Prop} {property : Expr → Prop}
    (closed : Expr.Closed looks property) {pieces : List Expr}
    (parts : ∀ piece ∈ pieces, property piece) : property (Expr.sequenceOfReversed pieces) := by
  have last := closed.empty
  unfold Expr.sequenceOfReversed
  generalize Expr.empty = later at last
  induction pieces generalizing later with
  | nil => exact last
  | cons piece rest ih =>
      obtain ⟨here, others⟩ := List.forall_mem_cons.mp parts
      exact ih others _ (closed.sequence _ _ here last)

/-- A token that opens no lookaround but one of certain kinds. -/
def Token.Admitted (looks : Look → Prop) : Token → Prop
  | opening (.ok (.look look)) => looks look
  | _ => True

variable {looks : Look → Prop} {property : Expr → Prop}

namespace Frame

/-- A frame all of whose parts have a property. -/
structure Holds (looks : Look → Prop) (property : Expr → Prop) (frame : Frame) : Prop where
  enclosure : ∀ look, frame.enclosure = .look look → looks look
  branches : ∀ branch ∈ frame.branches, property branch
  pieces : ∀ piece ∈ frame.pieces, property piece
  pending : ∀ expr ∈ frame.pending.contents, property expr

namespace Holds

variable {frame : Frame}

theorem start {enclosure : Enclosure} (admitted : ∀ look, enclosure = .look look → looks look)
    (flags : Flags) : (Frame.start enclosure flags).Holds looks property :=
  ⟨admitted, nofun, nofun, nofun⟩

theorem addPiece (holds : frame.Holds looks property) {piece : Expr} (added : property piece) :
    (frame.addPiece piece).Holds looks property where
  enclosure := holds.enclosure
  branches := holds.branches
  pieces := List.forall_mem_cons.mpr ⟨added, holds.pieces⟩
  pending := nofun

theorem await (holds : frame.Holds looks property) {pending : Pending}
    (waiting : ∀ expr ∈ pending.contents, property expr) :
    (frame.await pending).Holds looks property :=
  ⟨holds.enclosure, holds.branches, holds.pieces, waiting⟩

variable (closed : Expr.Closed looks property)

include closed

theorem addLiterals (holds : frame.Holds looks property) (bytes : List UInt8) :
    (frame.addLiterals bytes).Holds looks property := by
  unfold Frame.addLiterals
  split
  · exact ⟨holds.enclosure, holds.branches, holds.pieces, nofun⟩
  · exact holds.addPiece (closed.test _)
  · exact holds.addPiece (closed.literal _ _)

theorem closeBranch (holds : frame.Holds looks property) {next : Frame}
    (ended : frame.closeBranch = .ok next) : next.Holds looks property := by
  unfold Frame.closeBranch at ended
  dsimp only at ended
  split at ended
  · cases ended
  · split at ended
    · cases ended
    · cases ended
      have branch := closed.sequenceOfReversed holds.pieces
      exact ⟨holds.enclosure, List.forall_mem_cons.mpr ⟨branch, holds.branches⟩, nofun,
        holds.pending⟩

theorem expression (holds : frame.Holds looks property) {body : Expr}
    (whole : frame.expression = .ok body) : property body := by
  have last := closed.sequenceOfReversed holds.pieces
  unfold Frame.expression at whole
  dsimp only at whole
  split at whole
  · cases whole
    exact last
  · split at whole
    · cases whole
    · obtain ⟨size, measured, rfl⟩ := exists_of_map whole
      exact closed.alternation _ _ holds.branches last ⟨size, measured⟩

theorem atom (holds : frame.Holds looks property) {body : Expr} {made : Atom}
    (inside : property body) (built : frame.atom body = .ok made) :
    ∀ expr ∈ (Pending.atom made).contents, property expr := by
  unfold Frame.atom at built
  split at built
  · cases built
    exact List.forall_mem_singleton.mpr inside
  · cases built
    exact List.forall_mem_singleton.mpr (closed.capture _ _ inside)
  · obtain ⟨size, measured, rfl⟩ := exists_of_map built
    exact List.forall_mem_singleton.mpr (closed.atomic _ inside ⟨size, measured⟩)
  · rename_i look enclosed
    split at built
    · cases built
    · obtain ⟨size, measured, rfl⟩ := exists_of_map built
      have admitted := holds.enclosure look enclosed
      exact List.forall_mem_singleton.mpr (closed.look _ _ _ admitted inside ⟨size, measured⟩)

end Holds

end Frame

namespace ParseState

/-- A parser all of whose parts have a property. -/
structure Holds (looks : Look → Prop) (property : Expr → Prop) (state : ParseState) : Prop where
  frame : state.frame.Holds looks property
  outer : ∀ frame ∈ state.outer, frame.Holds looks property

namespace Holds

variable {state next : ParseState}

theorem initial (flags : Flags) : (ParseState.initial flags).Holds looks property :=
  ⟨.start nofun flags, fun frame member => by cases member⟩

theorem withFrame (holds : state.Holds looks property) {frame : Frame}
    (inner : frame.Holds looks property) : (state.withFrame frame).Holds looks property :=
  ⟨inner, holds.outer⟩

theorem enter (holds : state.Holds looks property) {enclosure : Enclosure} (flags : Flags)
    (groups : Nat) (admitted : ∀ look, enclosure = .look look → looks look) :
    ({ state.enter enclosure flags with groups := groups } : ParseState).Holds looks property :=
  ⟨.start admitted flags, List.forall_mem_cons.mpr ⟨holds.frame, holds.outer⟩⟩

variable (closed : Expr.Closed looks property)

include closed

theorem addLoop (holds : state.Holds looks property) {body : Expr} {quantifier : Quantifier}
    (inside : property body) (looped : state.addLoop body quantifier = .ok next) :
    next.Holds looks property := by
  unfold ParseState.addLoop at looped
  dsimp only at looped
  split at looped
  · cases looped
  · obtain ⟨size, measured, rfl⟩ := exists_of_map looped
    refine ⟨holds.frame.addPiece ?_, holds.outer⟩
    split at measured
    · have loop := closed.loop _ _ _ _ inside (Expr.Measured.of_atomic ⟨size, measured⟩)
      rw [if_pos ‹_›]
      exact closed.atomic _ loop ⟨size, measured⟩
    · rw [if_neg ‹_›]
      exact closed.loop _ _ _ _ inside ⟨size, measured⟩

theorem settle (holds : state.Holds looks property) (settled : state.settle = .ok next) :
    next.Holds looks property := by
  have waiting := holds.frame.pending
  unfold ParseState.settle at settled
  split at settled
  · cases settled
    exact holds
  · cases settled
    exact holds.withFrame (holds.frame.addLiterals closed _)
  · cases settled
    exact holds.withFrame (holds.frame.addPiece (closed.test _))
  · rename_i expr pending
    cases settled
    rw [pending] at waiting
    exact holds.withFrame (holds.frame.addPiece (waiting expr (List.mem_singleton_self _)))
  · rename_i expr pending
    cases settled
    rw [pending] at waiting
    exact holds.withFrame (holds.frame.addPiece (waiting expr (List.mem_singleton_self _)))
  · cases settled
    refine holds.withFrame (holds.frame.addPiece ?_)
    split
    · exact closed.test _
    · exact closed.repetition _ _
  · rename_i body quantifier pending
    rw [pending] at waiting
    have inside := waiting body (List.mem_singleton_self _)
    split at settled
    · cases settled
      exact holds.withFrame (holds.frame.addPiece inside)
    · exact holds.addLoop closed inside settled

theorem addAtom (holds : state.Holds looks property) {atom : Atom}
    (waiting : ∀ expr ∈ (Pending.atom atom).contents, property expr)
    (added : state.addAtom atom = .ok next) : next.Holds looks property := by
  obtain ⟨middle, settled, rfl⟩ := exists_of_map added
  have kept := holds.settle closed settled
  exact kept.withFrame (kept.frame.await waiting)

theorem addLiteral (holds : state.Holds looks property) {byte : UInt8}
    (added : state.addLiteral byte = .ok next) : next.Holds looks property := by
  unfold ParseState.addLiteral at added
  split at added
  · cases added
    exact holds.withFrame (holds.frame.await nofun)
  · obtain ⟨middle, settled, rfl⟩ := exists_of_map added
    have kept := holds.settle closed settled
    exact kept.withFrame (kept.frame.await nofun)

theorem addQuantifier (holds : state.Holds looks property) {read : Except CompileError Quantifier}
    (added : state.addQuantifier read = .ok next) : next.Holds looks property := by
  have waiting := holds.frame.pending
  unfold ParseState.addQuantifier at added
  split at added
  · cases added
  · cases added
  · cases added
  · obtain ⟨quantifier, _, rfl⟩ := exists_of_map added
    exact holds.withFrame ((holds.frame.addLiterals closed _).await nofun)
  · obtain ⟨quantifier, _, rfl⟩ := exists_of_map added
    exact holds.withFrame (holds.frame.await nofun)
  · rename_i expr pending
    obtain ⟨quantifier, _, rfl⟩ := exists_of_map added
    rw [pending] at waiting
    exact holds.withFrame (holds.frame.await waiting)
  · cases read <;> cases added

theorem addBackReference (holds : state.Holds looks property) {group : Nat}
    (added : state.addBackReference group = .ok next) : next.Holds looks property := by
  obtain ⟨middle, settled, referred⟩ := exists_of_bind added
  have kept := holds.settle closed settled
  dsimp only at referred
  split at referred
  · cases referred
    refine kept.withFrame (kept.frame.await ?_)
    exact List.forall_mem_singleton.mpr (closed.backReference _ _)
  · cases referred

theorem openGroup (holds : state.Holds looks property) {read : Except CompileError Opening}
    (admitted : (Token.opening read).Admitted looks) (opened : state.openGroup read = .ok next) :
    next.Holds looks property := by
  obtain ⟨middle, settled, rest⟩ := exists_of_bind opened
  have kept := holds.settle closed settled
  dsimp only at rest
  split at rest
  · cases rest
  · obtain ⟨opening, found, entered⟩ := exists_of_bind rest
    subst found
    cases opening with
    | plain =>
        dsimp only at entered
        split at entered
        · split at entered
          · cases entered
          · cases entered
            exact kept.enter _ _ nofun
        · cases entered
          exact kept.enter _ _ nofun
    | look direction =>
        have only : ∀ look, Enclosure.look direction = .look look → looks look := by
          rintro look ⟨⟩
          exact admitted
        cases entered
        exact kept.enter _ _ only
    | enclosing | atomic | inline enable changed =>
        cases entered
        exact kept.enter _ _ nofun

theorem closeGroup (holds : state.Holds looks property) (ended : state.closeGroup = .ok next) :
    next.Holds looks property := by
  obtain ⟨middle, settled, rest⟩ := exists_of_bind ended
  have kept := holds.settle closed settled
  obtain ⟨body, whole, rest⟩ := exists_of_bind rest
  have outer := kept.outer
  split at rest
  · cases rest
  · rename_i parent enclosing around
    rw [around] at outer
    obtain ⟨⟨atom, after⟩, finished, same⟩ := exists_of_bind rest
    obtain ⟨made, built, finished⟩ := exists_of_map finished
    have waiting := kept.frame.atom closed (kept.frame.expression closed whole) built
    have unchanged : atom = made := by
      split at finished <;> cases finished <;> rfl
    subst unchanged
    cases same
    obtain ⟨inner, outer⟩ := List.forall_mem_cons.mp outer
    exact ⟨inner.await waiting, outer⟩

theorem closeBranch (holds : state.Holds looks property) (ended : state.closeBranch = .ok next) :
    next.Holds looks property := by
  obtain ⟨middle, settled, branched⟩ := exists_of_bind ended
  have kept := holds.settle closed settled
  obtain ⟨frame, finished, rfl⟩ := exists_of_map branched
  exact kept.withFrame (kept.frame.closeBranch closed finished)

/-- What a token brings in has the property, too. -/
theorem step (holds : state.Holds looks property) {token : Token}
    (admitted : token.Admitted looks) (stepped : state.step token = .ok next) :
    next.Holds looks property := by
  cases token with
  | literal byte => exact holds.addLiteral closed stepped
  | opening read => exact holds.openGroup closed admitted stepped
  | closing => exact holds.closeGroup closed stepped
  | bar => exact holds.closeBranch closed stepped
  | backReference group => exact holds.addBackReference closed stepped
  | quantifier read => exact holds.addQuantifier closed stepped
  | malformed error =>
      obtain ⟨_, _, failed⟩ := exists_of_bind stepped
      cases failed
  | dot | bracket bracket | inClass kind | notInClass kind =>
      exact holds.addAtom closed (fun _ member => by cases member) stepped
  | caret | dollar | assertion condition =>
      refine holds.addAtom closed ?_ stepped
      exact List.forall_mem_singleton.mpr (closed.assertion _)

theorem finish (holds : state.Holds looks property) {expr : Expr} {groups : Nat}
    (finished : state.finish = .ok (expr, groups)) : property expr := by
  obtain ⟨middle, settled, rest⟩ := exists_of_bind finished
  have kept := holds.settle closed settled
  obtain ⟨body, whole, rest⟩ := exists_of_bind rest
  split at rest
  · cases rest
    exact kept.frame.expression closed whole
  · obtain ⟨_, _, failed⟩ := exists_of_bind rest
    cases failed

end Holds

end ParseState

/-- The expression of a pattern has every property that passes from parts to the whole. -/
theorem Expr.Closed.of_parse (closed : Expr.Closed looks property) {pattern : List UInt8}
    {flags : Flags} {expr : Expr} {groups : Nat}
    (admitted : flags.verbatim = true ∨ ∀ token ∈ tokens pattern, token.Admitted looks)
    (parsed : parse pattern flags = .ok (expr, groups)) : property expr := by
  unfold parse at parsed
  split at parsed
  · cases parsed
  · split at parsed
    · cases parsed
      exact closed.literal _ _
    · rename_i spelled
      have admitted := admitted.resolve_left spelled
      obtain ⟨last, kept, finished⟩ := ParseState.readAll_invariant
        (ParseState.Holds looks property)
        (fun token member _ _ stepped holds => holds.step closed (admitted token member) stepped)
        (.initial flags) parsed
      exact kept.finish closed finished

/-! ## Code sizes -/

theorem Expr.closed_measured : Expr.Closed (fun _ => True) Expr.Measured where
  empty := ⟨_, rfl⟩
  test _ := ⟨_, rfl⟩
  literal _ _ := ⟨_, rfl⟩
  assertion _ := ⟨_, rfl⟩
  backReference _ _ := ⟨_, rfl⟩
  repetition _ _ := ⟨_, rfl⟩
  sequence _ _ former latter := former.sequence latter
  capture group _ inner := inner.capture group
  alternation _ _ _ _ measured := measured
  loop _ _ _ _ _ measured := measured
  atomic _ _ measured := measured
  look _ _ _ _ _ measured := measured

/-- No jump of a pattern that has been read is too long. -/
theorem measured_of_parse {pattern : List UInt8} {flags : Flags} {expr : Expr} {groups : Nat}
    (parsed : parse pattern flags = .ok (expr, groups)) : expr.Measured := by
  have admitted : ∀ token ∈ tokens pattern, token.Admitted fun _ => True := by
    intro token _
    unfold Token.Admitted
    split <;> trivial
  exact Expr.closed_measured.of_parse (.inr admitted) parsed

end ByteRegex
