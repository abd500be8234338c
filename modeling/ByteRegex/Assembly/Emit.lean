import ByteRegex.Assembly.Wrap
import ByteRegex.Capacity
import ByteRegex.Expr

/-!
The code of expressions. Code is emitted in the order of the pattern; what has to stand in front of
a finished fragment is inserted there.
-/

namespace ByteRegex

def ByteTest.encode : ByteTest → List UInt8
  | .byte expected => Opcode.char.encode [Int16.ofNat expected.toNat]
  | .byteAnyCase expected => Opcode.charNoCase.encode [Int16.ofNat expected.toNat]
  | .any => Opcode.any.encode []
  | .anyButNewline => Opcode.anyNoNewline.encode []
  | .set members => Opcode.set.encode [] ++ members.bitmap.toList
  | .inClass kind => Opcode.inClass.encode [Int16.ofNat kind.toByte.toNat]
  | .notInClass kind => Opcode.notInClass.encode [Int16.ofNat kind.toByte.toNat]

def Assertion.opcode : Assertion → Opcode
  | .lineBegin => .lineBegin
  | .lineEnd => .lineEnd
  | .textBegin => .textBegin
  | .textEnd => .textEnd
  | .wordBoundary => .wordBoundary
  | .notWordBoundary => .notWordBoundary
  | .wordBegin => .wordBegin
  | .wordEnd => .wordEnd

/-- The code of a literal that one instruction can hold. -/
def literalCode (caseless : Bool) : List UInt8 → List UInt8
  | [byte] => (ByteTest.ofLiteral caseless byte).encode
  | bytes =>
      if caseless then
        Opcode.strNoCase.encode [Int16.ofNat bytes.length] ++ bytes.map Ascii.toLower
      else Opcode.str.encode [Int16.ofNat bytes.length] ++ bytes

def Greed.repeatOpcode : Greed → Opcode
  | .greedy => .repeatGreedy
  | .lazy => .repeatLazy
  | .possessive => .repeatPossessive

def repetitionCode (quantifier : Quantifier) : List UInt8 :=
  quantifier.greed.repeatOpcode.encode
    [Int16.ofNat quantifier.least,
      match quantifier.most with
      | some most => Int16.ofNat most
      | none => Operand.unbounded]

/-- Whether a loop counts its iterations or watches their progress. -/
def Quantifier.needsCounter (quantifier : Quantifier) (nullable : Bool) : Bool :=
  match quantifier.least, quantifier.most with
  | 0, some 1 => false
  | 0, none | 1, none => nullable
  | _, _ => true

/-- The code around the body of a loop. The entering branch decides whether to run the body and the
closing one whether to go back to it: a lazy loop prefers to leave, every other loop to stay. An
iteration that consumed nothing is the last one where any number of them is allowed. -/
def Quantifier.loopSteps (quantifier : Quantifier) (nullable : Bool) (number : Nat) : List Step :=
  let isLazy := quantifier.greed = .lazy
  let enter : Step := .jump (if isLazy then .branchRev else .branch) [] .exit
  let again : Step := .jump (if isLazy then .branch else .branchRev) [] .loop
  let counter := Int16.ofNat number
  let reset : Step := .plain .counterReset [counter]
  let increment : Step := .plain .counterInc [counter]
  let whileBelow (bound : Nat) : Step := .jump .jumpLess [counter, Int16.ofNat bound] .loop
  let stuck : Step := .jump .jumpStuck [counter] .exit
  match quantifier.least, quantifier.most with
  | 0, some 1 => [enter, .body]
  | 0, none =>
      if nullable then [enter, increment, .body, stuck, .jump .jump [] .loop]
      else [enter, .body, .jump .jump [] .loop]
  | 1, none =>
      if nullable then [increment, .body, stuck, again] else [.body, again]
  | 0, some most => [reset, .loopHead, enter, increment, .body, whileBelow most]
  | least, none =>
      [reset, .loopHead, increment, .body, whileBelow least] ++
        (if nullable then [stuck, again] else [again])
  | least, some most =>
      if least = most then [reset, .loopHead, increment, .body, whileBelow least]
      else
        [reset, .loopHead, increment, .body, whileBelow least,
          .jump .jumpAtLeast [counter, Int16.ofNat most] .exit, again]

def atomicSteps : List Step := [.jump .atomic [] .exit, .body, .plain .subEnd []]

def Look.opcode : Look → Opcode
  | .ahead => .lookAhead
  | .notAhead => .negLookAhead
  | .behind => .lookBehind
  | .notBehind => .negLookBehind

def Look.steps (look : Look) (width : Nat) : List Step :=
  [.jump look.opcode (if look.isBehind then [Int16.ofNat width] else []) .exit, .body,
    .plain .subEnd []]

section Emission

variable {σ : Type} [CodeSink σ]

/-- Appends a literal of any length in pieces that fit into one instruction. -/
def appendLiteral (caseless : Bool) (bytes : List UInt8) (sink : σ) : σ :=
  if bytes.isEmpty then sink
  else
    appendLiteral caseless (bytes.drop Capacity.literal)
      (CodeSink.append sink (literalCode caseless (bytes.take Capacity.literal)))
termination_by bytes.length
decreasing_by
  rename_i filled
  have positive : 0 < bytes.length := by
    cases bytes with
    | nil => simp at filled
    | cons _ _ => exact Nat.succ_pos _
  simp only [List.length_drop, Capacity.literal]
  omega

/-- Ends a branch that another one follows: a choice goes in front of it, and behind it a jump whose
distance is not known yet. -/
def endBranch (start : Nat) (sink : σ) : Except CompileError σ :=
  let behind := CodeSink.size sink + Opcode.jump.fixedSize
  (jumpDistance behind start).map fun distance =>
    CodeSink.append (CodeSink.insert sink start (Opcode.branch.encode [distance]))
      (Opcode.jump.encode [0])

/-- Sends the jump that ends at `origin` to the end of the code. -/
def landJump (origin : Nat) (sink : σ) : Except CompileError σ :=
  (jumpDistance (CodeSink.size sink) origin).map fun distance =>
    CodeSink.patch sink (origin - 2) distance

def Expr.emit : Expr → σ → Except CompileError σ
  | .empty, sink => .ok sink
  | .test single, sink => .ok (CodeSink.append sink single.encode)
  | .literal caseless bytes, sink => .ok (appendLiteral caseless bytes sink)
  | .assertion condition, sink => .ok (CodeSink.append sink (condition.opcode.encode []))
  | .backReference caseless group, sink =>
      let opcode : Opcode := if caseless then .backRefNoCase else .backRef
      .ok (CodeSink.append sink (opcode.encode [Int16.ofNat group]))
  | .sequence first second, sink =>
      match first.emit sink with
      | .error error => .error error
      | .ok sink => second.emit sink
  | .alternative first second, sink =>
      let start := CodeSink.size sink
      match first.emit sink with
      | .error error => .error error
      | .ok sink =>
          match endBranch start sink with
          | .error error => .error error
          | .ok sink =>
              let origin := CodeSink.size sink
              match second.emit sink with
              | .error error => .error error
              | .ok sink => landJump origin sink
  | .capture group body, sink =>
      let opened := CodeSink.append sink (Opcode.openGroup.encode [Int16.ofNat group])
      (body.emit opened).map fun sink =>
        CodeSink.append sink (Opcode.closeGroup.encode [Int16.ofNat group])
  | .repetition quantifier single, sink =>
      let start := CodeSink.size sink
      .ok (CodeSink.insert (CodeSink.append sink single.encode) start (repetitionCode quantifier))
  | .loop quantifier nullable counter body, sink =>
      let start := CodeSink.size sink
      (body.emit sink).bind (wrap start (quantifier.loopSteps nullable counter))
  | .atomic body, sink =>
      let start := CodeSink.size sink
      (body.emit sink).bind (wrap start atomicSteps)
  | .look direction width body, sink =>
      let start := CodeSink.size sink
      (body.emit sink).bind (wrap start (direction.steps width))

end Emission

namespace Expr

/-- The size of the code. It fails if and only if some jump in the code is too long. -/
def codeSize (expr : Expr) : Except CompileError Nat := (expr.emit Measure.zero).map Measure.size

end Expr

end ByteRegex
