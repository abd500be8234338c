import ByteRegex.Pattern.Frame

/-!
Reading a pattern token by token with a stack of open groups. Errors arise in the order of the
pattern: every part is complete, and its code measured, before the token after it is looked at.
-/

namespace ByteRegex

structure ParseState where
  frame : Frame
  /-- The frames of the enclosing groups, innermost first. -/
  outer : List Frame
  /-- Capture groups opened so far. -/
  groups : Nat
  closed : List Nat
  /-- Counters given to loops so far. -/
  counters : Nat

namespace ParseState

def initial (flags : Flags) : ParseState where
  frame := .start .bare flags
  outer := []
  groups := 0
  closed := []
  counters := 0

def withFrame (state : ParseState) (frame : Frame) : ParseState := { state with frame }

/-- Adds a loop, which takes the next counter if it needs one. -/
def addLoop (state : ParseState) (body : Expr) (quantifier : Quantifier) :
    Except CompileError ParseState :=
  let nullable := body.nullable
  let counted := quantifier.needsCounter nullable
  if counted && Capacity.counters ≤ state.counters then .error .tooComplex
  else
    let loop := Expr.loop quantifier nullable (if counted then state.counters else 0) body
    let whole := if quantifier.greed = .possessive then Expr.atomic loop else loop
    whole.codeSize.map fun _ =>
      { state with
        frame := state.frame.addPiece whole
        counters := if counted then state.counters + 1 else state.counters }

/-- Turns what is pending into a piece. -/
def settle (state : ParseState) : Except CompileError ParseState :=
  match state.frame.pending with
  | .nothing => .ok state
  | .literals last earlier => .ok (state.withFrame (state.frame.addLiterals (last :: earlier)))
  | .atom (.single test) => .ok (state.withFrame (state.frame.addPiece (.test test)))
  | .atom (.compound expr) | .atom (.fixed expr) =>
      .ok (state.withFrame (state.frame.addPiece expr))
  | .repeatedTest test quantifier =>
      let piece := if quantifier.isOnce then Expr.test test else .repetition quantifier test
      .ok (state.withFrame (state.frame.addPiece piece))
  | .repeatedExpr expr quantifier =>
      if quantifier.isOnce then .ok (state.withFrame (state.frame.addPiece expr))
      else state.addLoop expr quantifier

/-- Adds an atom behind what is settled. -/
def addAtom (state : ParseState) (atom : Atom) : Except CompileError ParseState :=
  state.settle.map fun state => state.withFrame (state.frame.await (.atom atom))

def addLiteral (state : ParseState) (byte : UInt8) : Except CompileError ParseState :=
  match state.frame.pending with
  | .literals last earlier =>
      .ok (state.withFrame (state.frame.await (.literals byte (last :: earlier))))
  | _ => state.settle.map fun state => state.withFrame (state.frame.await (.literals byte []))

/-- A quantifier takes the last byte of a literal, a test or a group. -/
def addQuantifier (state : ParseState) (read : Except CompileError Quantifier) :
    Except CompileError ParseState :=
  match state.frame.pending with
  | .nothing | .repeatedTest _ _ | .repeatedExpr _ _ => .error .missingOperand
  | .literals last earlier =>
      read.map fun quantifier =>
        let test := ByteTest.ofLiteral state.frame.flags.caseless last
        state.withFrame ((state.frame.addLiterals earlier).await (.repeatedTest test quantifier))
  | .atom (.single test) =>
      read.map fun quantifier =>
        state.withFrame (state.frame.await (.repeatedTest test quantifier))
  | .atom (.compound expr) =>
      read.map fun quantifier =>
        state.withFrame (state.frame.await (.repeatedExpr expr quantifier))
  | .atom (.fixed _) => read.bind fun _ => .error .missingOperand

/-- A reference to a group that has been closed. -/
def addBackReference (state : ParseState) (group : Nat) : Except CompileError ParseState :=
  state.settle.bind fun state =>
    let flags := state.frame.flags
    if flags.capturing && state.closed.contains group then
      let reference := Expr.backReference flags.caseless group
      .ok (state.withFrame (state.frame.await (.atom (.compound reference))))
    else .error .badBackReference

/-- Opens a group inside the settled frame. -/
def enter (state : ParseState) (enclosure : Enclosure) (flags : Flags) : ParseState :=
  { state with frame := .start enclosure flags, outer := state.frame :: state.outer }

def openGroup (state : ParseState) (read : Except CompileError Opening) :
    Except CompileError ParseState :=
  state.settle.bind fun state =>
    let flags := state.frame.flags
    if Capacity.nesting ≤ state.outer.length then .error .tooComplex
    else
      read.bind fun opening =>
        match opening with
        | .plain =>
            if flags.capturing then
              let group := state.groups + 1
              if Capacity.slots ≤ group then .error .tooComplex
              else .ok { state.enter (.capture group) flags with groups := group }
            else .ok (state.enter .bare flags)
        | .enclosing => .ok (state.enter .bare flags)
        | .atomic => .ok (state.enter .atomic flags)
        | .look look => .ok (state.enter (.look look) flags)
        | .inline enable changed =>
            let inner := if enable then flags.union changed else flags.difference changed
            .ok (state.enter .bare inner)

/-- The atom of the innermost group, and the state with that group's number closed. -/
def finishGroup (state : ParseState) (body : Expr) : Except CompileError (Atom × ParseState) :=
  (state.frame.atom body).map fun atom =>
    match state.frame.enclosure with
    | .capture group => (atom, { state with closed := group :: state.closed })
    | _ => (atom, state)

def closeGroup (state : ParseState) : Except CompileError ParseState := do
  let state ← state.settle
  let body ← state.frame.expression
  match state.outer with
  | [] => .error .unmatchedParen
  | parent :: outer =>
      let (atom, state) ← state.finishGroup body
      .ok { state with frame := parent.await (.atom atom), outer := outer }

def closeBranch (state : ParseState) : Except CompileError ParseState :=
  state.settle.bind fun state => state.frame.closeBranch.map state.withFrame

def step (state : ParseState) : Token → Except CompileError ParseState
  | .literal byte => state.addLiteral byte
  | .dot => state.addAtom (.single (if state.frame.flags.newline then .anyButNewline else .any))
  | .caret =>
      state.addAtom
        (.fixed (.assertion (if state.frame.flags.newline then .lineBegin else .textBegin)))
  | .dollar =>
      state.addAtom
        (.fixed (.assertion (if state.frame.flags.newline then .lineEnd else .textEnd)))
  | .bracket bracket => state.addAtom (.single (.set (bracket.toByteSet state.frame.flags)))
  | .inClass kind => state.addAtom (.single (.inClass kind))
  | .notInClass kind => state.addAtom (.single (.notInClass kind))
  | .assertion assertion => state.addAtom (.fixed (.assertion assertion))
  | .backReference group => state.addBackReference group
  | .opening read => state.openGroup read
  | .closing => state.closeGroup
  | .bar => state.closeBranch
  | .quantifier read => state.addQuantifier read
  | .malformed error => state.settle.bind fun _ => .error error

/-- The end of the pattern. A group that is still open is completed before it is refused. -/
def finish (state : ParseState) : Except CompileError (Expr × Nat) := do
  let state ← state.settle
  let body ← state.frame.expression
  if state.outer.isEmpty then .ok (body, state.groups)
  else
    let _ ← state.finishGroup body
    .error .unmatchedParen

/-- Reads the rest of a pattern. -/
def readAll (state : ParseState) (rest : List UInt8) : Except CompileError (Expr × Nat) :=
  match rest with
  | [] => state.finish
  | byte :: rest =>
      let token := Token.read byte rest
      match state.step token.1 with
      | .error error => .error error
      | .ok next => next.readAll token.2
termination_by rest.length
decreasing_by exact Nat.lt_succ_of_le (Token.read_length byte rest)

end ParseState

/-- The expression of a pattern and the number of its capture groups. -/
def parse (pattern : List UInt8) (flags : Flags) : Except CompileError (Expr × Nat) :=
  if pattern.isEmpty then .error .emptyPattern
  else if flags.verbatim then .ok (.literal flags.caseless pattern, 0)
  else (ParseState.initial flags).readAll pattern

end ByteRegex
