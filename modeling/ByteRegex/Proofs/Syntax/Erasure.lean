import ByteRegex.Proofs.Syntax.Parse
import ByteRegex.Proofs.Syntax.Tokens

/-!
# Erasing groups

Whether parentheses capture changes nothing else that a pattern is parsed to: its expression without
capturing is its expression with capturing, from which the groups are erased. This holds for each
state of the parser, and every step keeps it, unless one of the two parsers refuses the token.
-/

namespace ByteRegex

namespace Expr

/-- The expression without its capture groups. Their bodies stay. -/
def erase : Expr → Expr
  | sequence first second => sequence first.erase second.erase
  | alternative first second => alternative first.erase second.erase
  | capture _ body => body.erase
  | loop quantifier nullable counter body => loop quantifier nullable counter body.erase
  | atomic body => atomic body.erase
  | look direction width body => look direction width body.erase
  | other => other

theorem erase_widthAfter (expr : Expr) (before : Width) :
    expr.erase.widthAfter before = expr.widthAfter before := by
  induction expr generalizing before with
  | empty | test | literal | assertion | backReference | repetition => rfl
  | sequence first second ihFirst ihSecond => simp only [erase, widthAfter, ihFirst, ihSecond]
  | alternative first second ihFirst ihSecond => simp only [erase, widthAfter, ihFirst, ihSecond]
  | capture group body ih => exact ih before
  | loop quantifier nullable counter body ih => simp only [erase, widthAfter, ih]
  | atomic body ih => exact ih before
  | look => rfl

@[simp] theorem erase_width (expr : Expr) : expr.erase.width = expr.width :=
  expr.erase_widthAfter _

@[simp] theorem erase_nullable (expr : Expr) : expr.erase.nullable = expr.nullable := by
  simp only [nullable, erase_width]

@[simp] theorem erase_references (expr : Expr) : expr.erase.references = expr.references := by
  induction expr with
  | empty | test | literal | assertion | backReference | repetition => rfl
  | sequence first second ihFirst ihSecond => simp only [erase, references, ihFirst, ihSecond]
  | alternative first second ihFirst ihSecond => simp only [erase, references, ihFirst, ihSecond]
  | capture group body ih | loop quantifier nullable counter body ih | atomic body ih
  | look direction width body ih => exact ih

theorem erase_foldl {join : Expr → Expr → Expr}
    (joined : ∀ first second, (join first second).erase = join first.erase second.erase)
    (parts : List Expr) (later : Expr) :
    (parts.foldl (fun later part => join part later) later).erase =
      (parts.map erase).foldl (fun later part => join part later) later.erase := by
  induction parts generalizing later with
  | nil => rfl
  | cons part rest ih => rw [List.foldl_cons, ih, joined, List.map_cons, List.foldl_cons]

theorem erase_sequenceOfReversed (pieces : List Expr) :
    (sequenceOfReversed pieces).erase = sequenceOfReversed (pieces.map erase) := by
  have joined : ∀ first second : Expr,
      (sequence first second).erase = sequence first.erase second.erase := fun _ _ => rfl
  exact erase_foldl joined pieces empty

theorem erase_alternationOfReversed (branches : List Expr) (last : Expr) :
    (alternationOfReversed branches last).erase =
      alternationOfReversed (branches.map erase) last.erase := by
  have joined : ∀ first second : Expr,
      (alternative first second).erase = alternative first.erase second.erase := fun _ _ => rfl
  exact erase_foldl joined branches last

end Expr

/-- The flags with capturing off. -/
def Flags.uncaptured (flags : Flags) : Flags := { flags with capturing := false }

theorem Flags.uncaptured_union {flags changed : Flags} (untouched : changed.capturing = false) :
    (flags.union changed).uncaptured = flags.uncaptured.union changed := by
  simp only [uncaptured, union, untouched, Bool.or_false]

def Atom.erase : Atom → Atom
  | single test => single test
  | compound expr => compound expr.erase
  | fixed expr => fixed expr.erase

def Pending.erase : Pending → Pending
  | atom waiting => atom waiting.erase
  | repeatedExpr expr quantifier => repeatedExpr expr.erase quantifier
  | other => other

def Enclosure.erase : Enclosure → Enclosure
  | capture _ => bare
  | other => other

namespace Frame

def erase (frame : Frame) : Frame where
  enclosure := frame.enclosure.erase
  flags := frame.flags.uncaptured
  branches := frame.branches.map Expr.erase
  pieces := frame.pieces.map Expr.erase
  pending := frame.pending.erase

variable {frame : Frame}

theorem erase_addPiece (piece : Expr) :
    (frame.addPiece piece).erase = frame.erase.addPiece piece.erase := rfl

theorem erase_await (pending : Pending) :
    (frame.await pending).erase = frame.erase.await pending.erase := rfl

theorem erase_addLiterals (bytes : List UInt8) :
    (frame.addLiterals bytes).erase = frame.erase.addLiterals bytes := by
  unfold addLiterals
  split <;> rfl

/-- Both branches are closed alike if neither is refused. -/
theorem erase_closeBranch {next other : Frame} (closed : frame.closeBranch = .ok next)
    (closed' : frame.erase.closeBranch = .ok other) : other = next.erase := by
  unfold closeBranch at closed closed'
  dsimp only at closed closed'
  split at closed
  · cases closed
  · split at closed
    · cases closed
    · cases closed
      split at closed'
      · cases closed'
      · split at closed'
        · cases closed'
        · cases closed'
          simp only [erase, List.map_cons, Expr.erase_sequenceOfReversed, List.map_nil]

theorem erase_expression {body body' : Expr} (whole : frame.expression = .ok body)
    (whole' : frame.erase.expression = .ok body') : body' = body.erase := by
  have last := Expr.erase_sequenceOfReversed frame.pieces
  unfold expression at whole whole'
  simp only [erase, List.isEmpty_map] at whole whole'
  split at whole
  · rename_i single
    cases whole
    rw [if_pos single] at whole'
    cases whole'
    exact last.symm
  · rename_i several
    rw [if_neg several] at whole'
    split at whole
    · cases whole
    · rename_i filled
      rw [if_neg filled] at whole'
      obtain ⟨_, _, same⟩ := exists_of_map whole
      obtain ⟨_, _, same'⟩ := exists_of_map whole'
      rw [← same, ← same', Expr.erase_alternationOfReversed, last]

theorem erase_atom {body : Expr} {made made' : Atom} (built : frame.atom body = .ok made)
    (built' : frame.erase.atom body.erase = .ok made') : made' = made.erase := by
  unfold atom at built built'
  simp only [erase] at built'
  cases enclosure : frame.enclosure with
  | bare | capture group =>
      rw [enclosure] at built built'
      cases built
      cases built'
      rfl
  | atomic =>
      rw [enclosure] at built built'
      obtain ⟨_, _, same⟩ := exists_of_map built
      obtain ⟨_, _, same'⟩ := exists_of_map built'
      rw [← same, ← same']
      rfl
  | look direction =>
      have widths : lookWidth direction body.erase = lookWidth direction body := by
        simp only [lookWidth, Expr.erase_width]
      rw [enclosure] at built built'
      simp only [Enclosure.erase, widths] at built built'
      cases measured : lookWidth direction body with
      | error error =>
          rw [measured] at built
          cases built
      | ok width =>
          rw [measured] at built built'
          obtain ⟨_, _, same⟩ := exists_of_map built
          obtain ⟨_, _, same'⟩ := exists_of_map built'
          rw [← same, ← same']
          rfl

end Frame

theorem Flags.ofInlineLetter?_capturing {letter : UInt8} {flag : Flags}
    (found : ofInlineLetter? letter = some flag) : flag.capturing = false := by
  unfold ofInlineLetter? at found
  split at found
  · cases found
    rfl
  · split at found
    · cases found
      rfl
    · cases found

namespace Opening

theorem readLetters_capturing (met : Flags) (rest : List UInt8) :
    (readLetters met rest).1.capturing = met.capturing := by
  induction rest generalizing met with
  | nil => rfl
  | cons letter rest ih =>
      simp only [readLetters]
      split
      · rename_i flag found
        rw [ih, Flags.union, Flags.ofInlineLetter?_capturing found, Bool.or_false]
      · rfl

/-- An opening that leaves it to the flags outside whether groups capture. -/
def KeepsCapturing (read : Except CompileError Opening) : Prop :=
  ∀ enable changed, read = .ok (.inline enable changed) → changed.capturing = false

theorem readFlags_keepsCapturing (enable : Bool) (rest : List UInt8) :
    KeepsCapturing (readFlags enable rest).1 := by
  intro on changed read
  simp only [readFlags] at read
  split at read
  · cases read
  · cases read
    exact readLetters_capturing .none rest

theorem readBehind_keepsCapturing (rest : List UInt8) : KeepsCapturing (readBehind rest).1 := by
  intro on changed read
  unfold readBehind at read
  split at read
  · cases read
  · split at read
    · cases read
    · split at read <;> cases read

theorem readSpecial_keepsCapturing (rest : List UInt8) : KeepsCapturing (readSpecial rest).1 := by
  unfold readSpecial
  repeat' split
  all_goals first
    | exact readBehind_keepsCapturing _
    | exact readFlags_keepsCapturing _ _
    | exact fun _ _ read => by cases read

theorem read_keepsCapturing (rest : List UInt8) : KeepsCapturing (read rest).1 := by
  unfold read
  repeat' split
  all_goals first
    | exact readSpecial_keepsCapturing _
    | exact fun _ _ read => by cases read

end Opening

/-- A token that does not change whether groups capture. -/
def Token.KeepsCapturing : Token → Prop
  | opening read => Opening.KeepsCapturing read
  | _ => True

theorem Token.readEscape_keepsCapturing (rest : List UInt8) :
    (Token.readEscape rest).1.KeepsCapturing := by
  unfold readEscape
  split
  · trivial
  · split
    · rename_i token found
      obtain ⟨kind, _, same⟩ := Option.map_eq_some_iff.mp found
      subst same
      split <;> trivial
    · repeat' split
      all_goals trivial

theorem Token.read_keepsCapturing (byte : UInt8) (rest : List UInt8) :
    (Token.read byte rest).1.KeepsCapturing := by
  unfold Token.read
  repeat' split
  all_goals first
    | exact readEscape_keepsCapturing rest
    | exact Opening.read_keepsCapturing rest
    | trivial

namespace ParseState

/-- The state of a parser that has read the same tokens without capturing. -/
def erase (state : ParseState) : ParseState where
  frame := state.frame.erase
  outer := state.outer.map Frame.erase
  groups := 0
  closed := []
  counters := state.counters

variable {state next other : ParseState}

theorem erase_enter (enclosure : Enclosure) (flags : Flags) :
    (state.enter enclosure flags).erase = state.erase.enter enclosure.erase flags.uncaptured := rfl

theorem erase_withFrame (frame : Frame) :
    (state.withFrame frame).erase = state.erase.withFrame frame.erase := rfl

theorem erase_addLoop {body : Expr} {quantifier : Quantifier}
    (added : state.addLoop body quantifier = .ok next)
    (added' : state.erase.addLoop body.erase quantifier = .ok other) : other = next.erase := by
  unfold addLoop at added added'
  simp only [Expr.erase_nullable] at added'
  dsimp only at added
  split at added
  · cases added
  · split at added'
    · cases added'
    · obtain ⟨_, _, same⟩ := exists_of_map added
      obtain ⟨_, _, same'⟩ := exists_of_map added'
      rw [← same, ← same']
      simp only [erase, Frame.erase_addPiece]
      split <;> rfl

/-- What is pending turns into the erasure of the piece that it turns into elsewhere. -/
theorem erase_settle (settled : state.settle = .ok next)
    (settled' : state.erase.settle = .ok other) : other = next.erase := by
  unfold settle at settled settled'
  have pending : state.erase.frame.pending = state.frame.pending.erase := rfl
  rw [pending] at settled'
  cases waiting : state.frame.pending with
  | nothing =>
      rw [waiting] at settled settled'
      cases settled
      cases settled'
      rfl
  | literals last earlier =>
      rw [waiting] at settled settled'
      cases settled
      cases settled'
      rw [erase_withFrame, Frame.erase_addLiterals]
      rfl
  | atom waitingAtom =>
      rw [waiting] at settled settled'
      cases waitingAtom <;> cases settled <;> cases settled' <;> rfl
  | repeatedTest test quantifier =>
      rw [waiting] at settled settled'
      cases settled
      cases settled'
      rw [erase_withFrame, Frame.erase_addPiece]
      split <;> rfl
  | repeatedExpr body quantifier =>
      rw [waiting] at settled settled'
      dsimp only [Pending.erase] at settled settled'
      split at settled
      · rename_i once
        rw [if_pos once] at settled'
        cases settled
        cases settled'
        rfl
      · rename_i several
        rw [if_neg several] at settled'
        exact erase_addLoop settled settled'

theorem erase_addAtom {waiting : Atom} (added : state.addAtom waiting = .ok next)
    (added' : state.erase.addAtom waiting.erase = .ok other) : other = next.erase := by
  obtain ⟨_, settled, same⟩ := exists_of_map added
  obtain ⟨_, settled', same'⟩ := exists_of_map added'
  rw [← same, ← same', erase_settle settled settled']
  rfl

theorem erase_addLiteral {byte : UInt8} (added : state.addLiteral byte = .ok next)
    (added' : state.erase.addLiteral byte = .ok other) : other = next.erase := by
  unfold addLiteral at added added'
  have pending : state.erase.frame.pending = state.frame.pending.erase := rfl
  rw [pending] at added'
  cases waiting : state.frame.pending with
  | literals last earlier =>
      rw [waiting] at added added'
      cases added
      cases added'
      rfl
  | nothing | atom _ | repeatedTest _ _ | repeatedExpr _ _ =>
      rw [waiting] at added added'
      obtain ⟨_, settled, same⟩ := exists_of_map added
      obtain ⟨_, settled', same'⟩ := exists_of_map added'
      rw [← same, ← same', erase_settle settled settled']
      rfl

theorem erase_addQuantifier {read : Except CompileError Quantifier}
    (added : state.addQuantifier read = .ok next)
    (added' : state.erase.addQuantifier read = .ok other) : other = next.erase := by
  unfold addQuantifier at added added'
  have pending : state.erase.frame.pending = state.frame.pending.erase := rfl
  rw [pending] at added'
  cases waiting : state.frame.pending with
  | nothing | repeatedTest _ _ | repeatedExpr _ _ =>
      rw [waiting] at added
      cases added
  | literals last earlier =>
      rw [waiting] at added added'
      obtain ⟨quantifier, found, same⟩ := exists_of_map added
      obtain ⟨quantifier', found', same'⟩ := exists_of_map added'
      cases found.symm.trans found'
      rw [← same, ← same', erase_withFrame, Frame.erase_await, Frame.erase_addLiterals]
      rfl
  | atom taken =>
      rw [waiting] at added added'
      cases taken with
      | single _ | compound _ =>
          obtain ⟨quantifier, found, same⟩ := exists_of_map added
          obtain ⟨quantifier', found', same'⟩ := exists_of_map added'
          cases found.symm.trans found'
          rw [← same, ← same']
          rfl
      | fixed _ => cases read <;> cases added

/-- Without capturing no group is ever closed that could be referred to. -/
theorem erase_addBackReference {group : Nat}
    (added : state.erase.addBackReference group = .ok other) (settled : state.settle = .ok next) :
    False := by
  obtain ⟨_, settled', referred⟩ := exists_of_bind added
  rw [erase_settle settled settled'] at referred
  cases referred

theorem erase_openGroup {read : Except CompileError Opening} (keeps : Opening.KeepsCapturing read)
    (opened : state.openGroup read = .ok next) (opened' : state.erase.openGroup read = .ok other) :
    other = next.erase := by
  obtain ⟨_, settled, entered⟩ := exists_of_bind opened
  obtain ⟨_, settled', entered'⟩ := exists_of_bind opened'
  rw [erase_settle settled settled'] at entered'
  simp only [erase, List.length_map] at entered'
  dsimp only at entered
  split at entered
  · cases entered
  · rename_i room
    rw [if_neg room] at entered'
    obtain ⟨opening, found, entered⟩ := exists_of_bind entered
    obtain ⟨opening', found', entered'⟩ := exists_of_bind entered'
    cases found.symm.trans found'
    cases opening with
    | plain =>
        cases entered'
        dsimp only at entered
        split at entered
        · split at entered
          · cases entered
          · cases entered
            rfl
        · cases entered
          rfl
    | enclosing | atomic | look direction =>
        cases entered
        cases entered'
        rfl
    | inline enable changed =>
        have untouched := keeps enable changed found
        cases entered
        cases entered'
        rw [erase_enter]
        cases enable with
        | true => rw [if_pos rfl, if_pos rfl, Flags.uncaptured_union untouched]; rfl
        | false => rfl

theorem erase_finishGroup {body : Expr} {made made' : Atom}
    (finished : state.finishGroup body = .ok (made, next))
    (finished' : state.erase.finishGroup body.erase = .ok (made', other)) :
    made' = made.erase ∧ other = next.erase := by
  obtain ⟨_, built, same⟩ := exists_of_map finished
  obtain ⟨_, built', same'⟩ := exists_of_map finished'
  have atoms := Frame.erase_atom built built'
  subst atoms
  have enclosure : state.erase.frame.enclosure = state.frame.enclosure.erase := rfl
  rw [enclosure] at same'
  cases enclosed : state.frame.enclosure with
  | bare | capture _ | atomic | look _ =>
      rw [enclosed] at same same'
      cases same
      cases same'
      exact ⟨rfl, rfl⟩

theorem erase_closeGroup (ended : state.closeGroup = .ok next)
    (ended' : state.erase.closeGroup = .ok other) : other = next.erase := by
  obtain ⟨_, settled, rest⟩ := exists_of_bind ended
  obtain ⟨_, settled', rest'⟩ := exists_of_bind ended'
  rw [erase_settle settled settled'] at rest'
  obtain ⟨body, whole, rest⟩ := exists_of_bind rest
  obtain ⟨body', whole', rest'⟩ := exists_of_bind rest'
  cases Frame.erase_expression whole whole'
  split at rest
  · cases rest
  · rename_i parent outer around
    simp only [erase, around, List.map_cons] at rest'
    obtain ⟨⟨made, after⟩, finished, same⟩ := exists_of_bind rest
    obtain ⟨⟨made', after'⟩, finished', same'⟩ := exists_of_bind rest'
    obtain ⟨rfl, rfl⟩ := erase_finishGroup finished (by
      simpa only [erase, around, List.map_cons] using finished')
    cases same
    cases same'
    rfl

theorem erase_closeBranch (closed : state.closeBranch = .ok next)
    (closed' : state.erase.closeBranch = .ok other) : other = next.erase := by
  obtain ⟨_, settled, branched⟩ := exists_of_bind closed
  obtain ⟨_, settled', branched'⟩ := exists_of_bind closed'
  rw [erase_settle settled settled'] at branched'
  obtain ⟨_, ended, same⟩ := exists_of_map branched
  obtain ⟨_, ended', same'⟩ := exists_of_map branched'
  rw [← same, ← same', Frame.erase_closeBranch ended ended']
  rfl

/-- Both parsers stay together on every token that neither refuses. -/
theorem erase_step {token : Token} (keeps : token.KeepsCapturing)
    (stepped : state.step token = .ok next) (stepped' : state.erase.step token = .ok other) :
    other = next.erase := by
  cases token with
  | literal byte => exact erase_addLiteral stepped stepped'
  | opening read => exact erase_openGroup keeps stepped stepped'
  | closing => exact erase_closeGroup stepped stepped'
  | bar => exact erase_closeBranch stepped stepped'
  | backReference group =>
      obtain ⟨_, settled, _⟩ := exists_of_bind stepped
      exact (erase_addBackReference stepped' settled).elim
  | quantifier read => exact erase_addQuantifier stepped stepped'
  | malformed error =>
      obtain ⟨_, _, failed⟩ := exists_of_bind stepped
      cases failed
  | dot | bracket bracket | inClass kind | notInClass kind | caret | dollar | assertion condition =>
      exact erase_addAtom stepped stepped'

theorem erase_foldlM (remaining : List Token) (keeps : ∀ token ∈ remaining, token.KeepsCapturing)
    (read : remaining.foldlM step state = .ok next)
    (read' : remaining.foldlM step state.erase = .ok other) : other = next.erase := by
  induction remaining generalizing state with
  | nil =>
      cases read
      cases read'
      rfl
  | cons token later ih =>
      rw [List.foldlM_cons] at read read'
      obtain ⟨_, stepped, read⟩ := exists_of_bind read
      obtain ⟨_, stepped', read'⟩ := exists_of_bind read'
      cases erase_step (keeps token (List.mem_cons_self ..)) stepped stepped'
      exact ih (fun token member => keeps token (List.mem_cons_of_mem _ member)) read read'

theorem erase_finish {expr expr' : Expr} {groups groups' : Nat}
    (finished : state.finish = .ok (expr, groups))
    (finished' : state.erase.finish = .ok (expr', groups')) :
    expr' = expr.erase ∧ groups' = 0 := by
  obtain ⟨_, settled, rest⟩ := exists_of_bind finished
  obtain ⟨_, settled', rest'⟩ := exists_of_bind finished'
  rw [erase_settle settled settled'] at rest'
  obtain ⟨body, whole, rest⟩ := exists_of_bind rest
  obtain ⟨body', whole', rest'⟩ := exists_of_bind rest'
  cases Frame.erase_expression whole whole'
  split at rest
  · rename_i alone
    simp only [erase, List.isEmpty_map, alone, if_true] at rest'
    cases rest
    cases rest'
    exact ⟨rfl, rfl⟩
  · obtain ⟨_, _, failed⟩ := exists_of_bind rest
    cases failed

end ParseState

/-- Where a pattern parses with and without capturing, its expressions differ in their groups
alone. -/
theorem erase_of_parse {pattern : List UInt8} {flags : Flags} {expr expr' : Expr}
    {groups groups' : Nat} (parsed : parse pattern flags = .ok (expr, groups))
    (parsed' : parse pattern flags.uncaptured = .ok (expr', groups')) :
    expr' = expr.erase ∧ groups' = 0 := by
  unfold parse at parsed parsed'
  split at parsed
  · cases parsed
  · rename_i filled
    rw [if_neg filled] at parsed'
    split at parsed
    · rename_i verbatim
      rw [if_pos (show flags.uncaptured.verbatim = true from verbatim)] at parsed'
      cases parsed
      cases parsed'
      exact ⟨rfl, rfl⟩
    · rename_i verbatim
      rw [if_neg (show ¬flags.uncaptured.verbatim = true from verbatim)] at parsed'
      rw [ParseState.readAll_eq_foldlM] at parsed parsed'
      obtain ⟨_, read, finished⟩ := exists_of_bind parsed
      obtain ⟨_, read', finished'⟩ := exists_of_bind parsed'
      have keeps := forall_mem_tokens Token.read_keepsCapturing pattern
      cases ParseState.erase_foldlM _ keeps read read'
      exact ParseState.erase_finish finished finished'

end ByteRegex
