import ByteRegex.Bytecode.Instruction
import ByteRegex.Machine.State

/-!
Running code on a subject by backtracking. Straight code and the last choice at every choice point
continue in place; every other choice is a nested call.
-/

namespace ByteRegex

structure Machine where
  code : Code
  subject : Array UInt8
  /-- Whether a match has to consume a byte. -/
  notEmpty : Bool
  /-- Where the attempt starts. -/
  start : Nat
  ceilings : Machine.Ceilings

namespace Machine

def equalBytes (caseless : Bool) (found expected : UInt8) : Bool :=
  if caseless then Ascii.toLower found = Ascii.toLower expected else found = expected

/-- Whether `count` bytes agree, of two arrays that have as many. -/
def agreeFrom (caseless : Bool) (left right : Array UInt8) :
    (count first second : Nat) → first + count ≤ left.size → second + count ≤ right.size → Bool
  | 0, _, _, _, _ => true
  | count + 1, first, second, fitsLeft, fitsRight =>
      if equalBytes caseless left[first] right[second] then
        agreeFrom caseless left right count (first + 1) (second + 1) (by omega) (by omega)
      else false

/-- Whether the `count` bytes from two positions on exist and agree. -/
def agree (caseless : Bool) (left right : Array UInt8) (count first second : Nat) : Bool :=
  if fits : first + count ≤ left.size ∧ second + count ≤ right.size then
    agreeFrom caseless left right count first second fits.1 fits.2
  else false

/-- How often a test holds in a row from a position on, at most `limit` times. -/
def countWhile (test : Nat → Bool) : Nat → Nat → Nat → Nat
  | 0, _, count => count
  | limit + 1, position, count =>
      if test position then countWhile test limit (position + 1) (count + 1) else count

/-- Goes on at an address and a position. -/
abbrev Resume := (address position : Nat) → State → Outcome

/-- A repeat of a test, with the rest of the program at `after`. -/
@[inline] def repeatTest (machine : Machine) (resume : Resume) (greed : Greed) (least : Nat)
    (most : Option Nat) (test : ByteTest) (after position : Nat) (state : State) : Outcome :=
  let room := machine.subject.size - position
  let limit := most.elim room (min · room)
  let holds := test.holdsAt machine.subject
  if limit < least then .failed state
  else
    match greed with
    | .lazy =>
        if countWhile holds least position 0 < least then .failed state
        else
          takeMore machine.ceilings holds (resume after) (limit - least) (position + least) state
    | .possessive =>
        let count := countWhile holds limit position 0
        if count < least then .failed state else resume after (position + count) state
    | .greedy =>
        let count := countWhile holds limit position 0
        if count < least then .failed state
        else
          let shortest := position + least
          match giveBack machine.ceilings (resume after) shortest (count - least) state with
          | .failed state =>
              if state.halted then .failed state else resume after shortest state
          | other => other

/-- The text of a group once more. -/
@[inline] def repeatGroup (machine : Machine) (resume : Resume) (caseless : Bool)
    (span : Option Span) (next position : Nat) (state : State) : Outcome :=
  match span with
  | none => .failed state
  | some span =>
      if span.start ≤ span.stop && span.stop ≤ machine.subject.size then
        let length := span.stop - span.start
        if agree caseless machine.subject machine.subject length position span.start then
          resume next (position + length) state
        else .failed state
      else .fault .badPosition

/-- Executes one instruction, with the one behind it at `next`, and goes on from there. -/
@[inline] def execute (machine : Machine) (resume : Resume) (instruction : Instruction)
    (next position : Nat) (state : State) : Outcome :=
  match instruction with
  | .succeed =>
      if machine.notEmpty && position = machine.start then .failed state
      else .matched (state.setStop position)
  | .subEnd => .matched (state.setStop position)
  | .fail => .failed state
  | .test test =>
      if test.holdsAt machine.subject position then resume next (position + 1) state
      else .failed state
  | .text caseless start stop =>
      let length := stop - start
      if agree caseless machine.subject machine.code length position start then
        resume next (position + length) state
      else .failed state
  | .assertion assertion =>
      if assertion.holdsAt machine.subject position then resume next position state
      else .failed state
  | .openGroup group =>
      resume next position (state.setRegisters (state.registers.openGroup group position))
  | .closeGroup group =>
      resume next position (state.setRegisters (state.registers.closeGroup group position))
  | .backReference caseless group =>
      machine.repeatGroup resume caseless (state.registers.spans.get group) next position state
  | .jump target => resume target position state
  | .branch target =>
      match fork machine.ceilings (resume next position) state with
      | .failed state => resume target position state
      | other => other
  | .branchReverse target =>
      match fork machine.ceilings (resume target position) state with
      | .failed state => resume next position state
      | other => other
  | .repetition greed least most =>
      match machine.code.instruction? next with
      | some (.test test, after) =>
          machine.repeatTest resume greed least most test after position state
      | _ => .fault .badInstruction
  | .look look width target =>
      match lookAround machine.ceilings look width position (resume next) state with
      | .matched state => resume target position state
      | other => other
  | .atomic target =>
      match fork machine.ceilings (resume next position) state with
      | .matched state => resume target state.stop state
      | other => other
  | .counterReset counter =>
      resume next position (state.setRegisters (state.registers.resetCounter counter position))
  | .counterIncrement counter =>
      resume next position (state.setRegisters (state.registers.increment counter position))
  | .jumpLess counter bound target =>
      if (state.registers.counters.get counter).count < bound then resume target position state
      else resume next position state
  | .jumpAtLeast counter bound target =>
      if bound ≤ (state.registers.counters.get counter).count then resume target position state
      else resume next position state
  | .jumpStuck counter target =>
      if (state.registers.counters.get counter).mark = position then resume target position state
      else resume next position state

/-- Runs the code from an address and a position on. The fuel bounds the number of instructions on
the way from here to the deepest one, not their total. -/
def run (machine : Machine) : (fuel address position : Nat) → State → Outcome
  | 0, _, _, _ => .fault .outOfFuel
  | fuel + 1, address, position, state =>
      let state := state.tick machine.ceilings
      if state.halted then .failed state
      else if machine.subject.size < position then .fault .badPosition
      else
        match machine.code.instruction? address with
        | none => .fault .badInstruction
        | some (instruction, next) =>
            machine.execute (machine.run fuel) instruction next position state

/-- Tries to match at exactly one position. -/
def attempt (machine : Machine) (fuel start : Nat) (state : State) : Outcome :=
  { machine with start }.run fuel 0 start state.rearmed

end Machine

end ByteRegex
