import ByteRegex.Assembly.Sink
import ByteRegex.CompileError

/-!
Laying instructions around a finished fragment. The steps before the body are inserted in front of
it and the others appended, and the jumps among them get their distances.
-/

namespace ByteRegex

/-- The distance of a jump to `target` by an instruction that ends at `origin`. -/
def jumpDistance (target origin : Nat) : Except CompileError Int16 :=
  let distance := Int.ofNat target - Int.ofNat origin
  if -32768 ≤ distance ∧ distance ≤ 32767 then .ok (Int16.ofInt distance) else .error .tooComplex

inductive Label where
  /-- The loop head, or the start of the fragment if there is none. -/
  | loop
  /-- Just past the last step. -/
  | exit
deriving DecidableEq, Repr

inductive Step where
  | plain (opcode : Opcode) (operands : List Int16)
  /-- The distance to the label becomes the last operand. -/
  | jump (opcode : Opcode) (operands : List Int16) (label : Label)
  | loopHead
  | body
deriving DecidableEq, Repr

namespace Step

def size (bodySize : Nat) : Step → Nat
  | plain opcode _ | jump opcode _ _ => opcode.fixedSize
  | loopHead => 0
  | body => bodySize

def sizes (bodySize : Nat) (steps : List Step) : Nat :=
  steps.foldr (fun step rest => step.size bodySize + rest) 0

/-- The address of the loop head among steps that start at `start`. -/
def headAddress (bodySize start : Nat) (steps : List Step) : Nat :=
  if loopHead ∈ steps then start + sizes bodySize (steps.takeWhile (· ≠ loopHead)) else start

def labelAddress (bodySize start : Nat) (steps : List Step) : Label → Nat
  | .loop => headAddress bodySize start steps
  | .exit => start + sizes bodySize steps

/-- The bytes of a step that stands at an address. The body has its bytes already. -/
def encode (target : Label → Nat) (address : Nat) : Step → Except CompileError (List UInt8)
  | plain opcode operands => .ok (opcode.encode operands)
  | jump opcode operands label =>
      (jumpDistance (target label) (address + opcode.fixedSize)).map fun distance =>
        opcode.encode (operands ++ [distance])
  | loopHead | body => .ok []

def encodeAll (bodySize : Nat) (target : Label → Nat) :
    Nat → List Step → Except CompileError (List UInt8)
  | _, [] => .ok []
  | address, step :: rest =>
      match step.encode target address with
      | .error error => .error error
      | .ok bytes =>
          (encodeAll bodySize target (address + step.size bodySize) rest).map (bytes ++ ·)

end Step

/-- Lays steps around the code that starts at `start`, which stands for their body. -/
def wrap {σ : Type} [CodeSink σ] (start : Nat) (steps : List Step) (sink : σ) :
    Except CompileError σ :=
  let bodySize := CodeSink.size sink - start
  let target := Step.labelAddress bodySize start steps
  let before := steps.takeWhile (· ≠ .body)
  let after := steps.dropWhile (· ≠ .body)
  match Step.encodeAll bodySize target start before,
      Step.encodeAll bodySize target (start + Step.sizes bodySize before) after with
  | .ok leading, .ok trailing =>
      .ok (CodeSink.append (CodeSink.insert sink start leading) trailing)
  | .error error, _ | _, .error error => .error error

end ByteRegex
