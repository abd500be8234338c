import ByteRegex.Assembly.Emit
import ByteRegex.Pattern.Token

/-!
The expression being read inside one group, or at the top of the pattern. Pieces are settled late:
a literal waits for the bytes that continue it, and every part waits for a quantifier.
-/

namespace ByteRegex

/-- What a quantifier can find in front of it. -/
inductive Atom where
  /-- Exactly one byte. -/
  | single (test : ByteTest)
  /-- A group or a back-reference. -/
  | compound (expr : Expr)
  /-- An assertion or a lookaround, which cannot be repeated. -/
  | fixed (expr : Expr)

inductive Pending where
  | nothing
  /-- Literal bytes, latest first. -/
  | literals (last : UInt8) (earlier : List UInt8)
  | atom (atom : Atom)
  | repeatedTest (test : ByteTest) (quantifier : Quantifier)
  | repeatedExpr (expr : Expr) (quantifier : Quantifier)

/-- How the group of a frame began. -/
inductive Enclosure where
  | bare
  | capture (group : Nat)
  | atomic
  | look (look : Look)

structure Frame where
  enclosure : Enclosure
  flags : Flags
  /-- Finished branches, latest first. -/
  branches : List Expr
  /-- Finished pieces of the current branch, latest first. -/
  pieces : List Expr
  pending : Pending

namespace Frame

def start (enclosure : Enclosure) (flags : Flags) : Frame where
  enclosure := enclosure
  flags := flags
  branches := []
  pieces := []
  pending := .nothing

def addPiece (frame : Frame) (piece : Expr) : Frame :=
  { frame with pieces := piece :: frame.pieces, pending := .nothing }

def await (frame : Frame) (pending : Pending) : Frame := { frame with pending }

/-- A literal of the bytes, which are given latest first. -/
def addLiterals (frame : Frame) (bytes : List UInt8) : Frame :=
  match bytes with
  | [] => { frame with pending := .nothing }
  | [byte] => frame.addPiece (.test (.ofLiteral frame.flags.caseless byte))
  | _ => frame.addPiece (.literal frame.flags.caseless bytes.reverse)

/-- Closes the current branch at a bar. Its code has to leave room for the choice in front of it. -/
def closeBranch (frame : Frame) : Except CompileError Frame :=
  if frame.pieces.isEmpty then .error .missingOperand
  else
    let branch := Expr.sequenceOfReversed frame.pieces
    match (branch.emit Measure.zero).bind (endBranch 0) with
    | .error error => .error error
    | .ok _ => .ok { frame with branches := branch :: frame.branches, pieces := [] }

/-- The whole expression. An alternation has no empty branch. -/
def expression (frame : Frame) : Except CompileError Expr :=
  let last := Expr.sequenceOfReversed frame.pieces
  if frame.branches.isEmpty then .ok last
  else if frame.pieces.isEmpty then .error .missingOperand
  else
    let whole := Expr.alternationOfReversed frame.branches last
    whole.codeSize.map fun _ => whole

/-- The width of the body of a lookaround, which only a lookbehind needs. -/
def lookWidth (look : Look) (body : Expr) : Except CompileError Nat :=
  if look.isBehind then
    match body.width.fixed? with
    | none => .error .variableLookbehind
    | some width => if width ≤ 32767 then .ok width else .error .tooComplex
  else .ok 0

/-- The group with this expression, as its surroundings see it. -/
def atom (frame : Frame) (body : Expr) : Except CompileError Atom :=
  match frame.enclosure with
  | .bare => .ok (.compound body)
  | .capture group => .ok (.compound (.capture group body))
  | .atomic =>
      let group := Expr.atomic body
      group.codeSize.map fun _ => .compound group
  | .look look =>
      match lookWidth look body with
      | .error error => .error error
      | .ok width =>
          let group := Expr.look look width body
          group.codeSize.map fun _ => .fixed group

end Frame

end ByteRegex
