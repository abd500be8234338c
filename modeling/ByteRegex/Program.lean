import ByteRegex.Pattern.Parse

/-!
Compiled programs.
-/

namespace ByteRegex

structure Program where
  code : Code
  /-- The number of capture groups, the whole match not counted. -/
  groups : Nat
  flags : Flags
deriving DecidableEq

namespace Program

/-- The program that matches nothing. -/
def never : Program where
  code := (Opcode.fail.encode [] ++ Opcode.succeed.encode []).toArray
  groups := 0
  flags := .none

instance : Inhabited Program := ⟨never⟩

/-- Assembles a pattern behind what a sink holds and returns its number of groups as well. -/
def assemble {σ : Type} [CodeSink σ] (pattern : List UInt8) (flags : Flags) (sink : σ) :
    Except CompileError (σ × Nat) :=
  match parse pattern flags with
  | .error error => .error error
  | .ok (expr, groups) =>
      (expr.emit sink).map fun sink =>
        (CodeSink.append sink (Opcode.succeed.encode []), groups)

def compile (pattern : List UInt8) (flags : Flags) : Except CompileError Program :=
  (assemble pattern flags CodeBuffer.empty).map fun (buffer, groups) =>
    ⟨buffer.code, groups, flags⟩

end Program

end ByteRegex
