import ByteRegex.Machine.Run
import ByteRegex.Program

/-!
Searching a subject: attempts at one start after another until one matches or a limit is hit.
-/

namespace ByteRegex

/-- The order in which starts are tried. A match itself always runs forwards. -/
inductive Direction where
  /-- Lowest start first. -/
  | forward
  /-- Highest start first. -/
  | backward
deriving DecidableEq, Repr

/-- The starts to try: from `first` up to and with `last`. -/
structure Window where
  first : Nat
  last : Nat
  direction : Direction
deriving DecidableEq, Repr

/-- The window of a search through a whole subject. -/
def Window.whole (subject : Array UInt8) : Window := ⟨0, subject.size, .forward⟩

/-- The starts in the order of trying. A window reaches at most to the end of the subject. -/
def Window.starts (window : Window) (subject : Array UInt8) : List Nat :=
  let last := min window.last subject.size
  let ascending := List.range' window.first (last + 1 - window.first)
  match window.direction with
  | .forward => ascending
  | .backward => ascending.reverse

theorem Window.mem_starts {window : Window} {subject : Array UInt8} {start : Nat} :
    start ∈ window.starts subject ↔
      window.first ≤ start ∧ start ≤ window.last ∧ start ≤ subject.size := by
  have inside : start ∈ List.range' window.first (min window.last subject.size + 1 - window.first)
      ↔ window.first ≤ start ∧ start ≤ window.last ∧ start ≤ subject.size := by
    rw [List.mem_range'_1]
    omega
  unfold starts
  cases window.direction with
  | forward => exact inside
  | backward => exact List.mem_reverse.trans inside

structure Limits where
  /-- The deepest nesting of calls. -/
  depth : Nat
  /-- The greatest number of instructions in one search. -/
  steps : Option Nat
deriving DecidableEq, Repr

namespace Limits

def default : Limits := ⟨Capacity.defaultDepth, none⟩

instance : Inhabited Limits := ⟨default⟩

/-- No search is allowed more than the hard limit on depth. -/
def ceilings (limits : Limits) : Machine.Ceilings where
  depth := some (min limits.depth Capacity.depth)
  steps := limits.steps

end Limits

/-- How often the counted loops in a code can go round without consuming anything: the product of
their bounds, each with room for entering and leaving. -/
def Code.repeatFactor (code : Code) : Nat :=
  code.addresses.foldl
    (fun product address =>
      match code.instruction? address with
      | some (.jumpLess _ bound _, _) | some (.jumpAtLeast _ bound _, _) => product * (bound + 2)
      | _ => product)
    1

/-- Enough fuel for any attempt with compiled code. Along one way the position falls only on
entering a lookbehind; between two bytes every loop that does not count begins at most one new
iteration; and the loops that count multiply what is inside them. -/
def Code.fuel (code : Code) (length : Nat) : Nat :=
  let size := code.size + 1
  8 * (size * size * size) * (length + 2) * code.repeatFactor

/-- What a search found and what it took. -/
structure Report where
  outcome : Except Machine.Fault (Option Captures)
  steps : Nat
  peak : Nat
  halted : Bool

namespace Program

/-- The captures of an attempt that matched. Groups that the program does not have stay unset. -/
def captures (program : Program) (start : Nat) (state : Machine.State) : Captures where
  slots := Vector.ofFn fun slot =>
    if slot.val = 0 then some ⟨start, state.stop⟩
    else if slot.val ≤ program.groups then state.registers.spans.get slot
    else none

/-- Attempts at the starts, one after another. -/
def scan (program : Program) (machine : Machine) (fuel : Nat) :
    List Nat → Machine.State → Report
  | [], state => ⟨.ok none, state.steps, state.peak, state.halted⟩
  | start :: rest, state =>
      match machine.attempt fuel start state with
      | .matched state =>
          ⟨.ok (some (program.captures start state)), state.steps, state.peak, state.halted⟩
      | .failed state =>
          if state.halted then ⟨.ok none, state.steps, state.peak, true⟩
          else scan program machine fuel rest state
      | .fault fault => ⟨.error fault, 0, 0, false⟩

def machine (program : Program) (subject : Array UInt8) (ceilings : Machine.Ceilings) :
    Machine where
  code := program.code
  subject := subject
  notEmpty := program.flags.notEmpty
  start := 0
  ceilings := ceilings

/-- Searches under any ceilings, also under none. -/
def report (program : Program) (subject : Array UInt8) (window : Window)
    (ceilings : Machine.Ceilings) : Report :=
  program.scan (program.machine subject ceilings) (program.code.fuel subject.size)
    (window.starts subject) .initial

/-- The first match in the order of the window. A search that hits a limit finds nothing. -/
def search (program : Program) (subject : Array UInt8) (window : Window) (limits : Limits) :
    Option Captures :=
  match (program.report subject window limits.ceilings).outcome with
  | .ok found => found
  | .error _ => none

end Program

end ByteRegex
