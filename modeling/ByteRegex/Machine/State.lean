import ByteRegex.Look
import ByteRegex.Machine.Registers

/-!
The state of a search, the limits that it runs under, and the ways in which code may call code: for
an alternative, inside a lookaround or inside an atomic group.
-/

namespace ByteRegex.Machine

/-- What a search may use. A missing ceiling is no limit. -/
structure Ceilings where
  depth : Option Nat
  steps : Option Nat
deriving DecidableEq, Repr

def Ceilings.unlimited : Ceilings := ⟨none, none⟩

structure State where
  registers : Registers
  /-- Registers saved by the calls in progress, latest first. -/
  trail : List Registers
  /-- The number of calls in progress. -/
  depth : Nat
  /-- Instructions executed, over all attempts. -/
  steps : Nat
  /-- The greatest depth reached, over all attempts. -/
  peak : Nat
  /-- Set once a ceiling is hit. From then on every instruction fails. -/
  halted : Bool
  /-- Where the last program or sub-program to succeed stopped. -/
  stop : Nat

/-- How a run can go wrong. Compiled programs never do. -/
inductive Fault where
  | outOfFuel
  /-- The code at an address is no whole instruction, or not the one that is needed there. -/
  | badInstruction
  /-- A position or a span is outside the subject. -/
  | badPosition
deriving DecidableEq, Repr

inductive Outcome where
  | matched (state : State)
  | failed (state : State)
  | fault (fault : Fault)

namespace State

def initial : State where
  registers := .initial
  trail := []
  depth := 0
  steps := 0
  peak := 0
  halted := false
  stop := 0

/-- The state in which an attempt begins. Steps, peak and the last stop carry over. -/
def rearmed (state : State) : State :=
  { state with registers := .initial, trail := [], depth := 0 }

/-- Counts an instruction and halts if that is one too many. -/
def tick (ceilings : Ceilings) (state : State) : State :=
  { state with
    steps := state.steps + 1
    halted := state.halted || ceilings.steps.any (· < state.steps + 1) }

def halt (state : State) : State := { state with halted := true }

def setRegisters (state : State) (registers : Registers) : State := { state with registers }

def setStop (state : State) (stop : Nat) : State := { state with stop }

def save (state : State) : State := { state with trail := state.registers :: state.trail }

/-- Goes back to the registers saved last. -/
def restore (state : State) : State :=
  match state.trail with
  | [] => state
  | saved :: trail => { state with registers := saved, trail }

/-- Forgets the registers saved last. -/
def discard (state : State) : State := { state with trail := state.trail.tail }

@[simp] theorem restore_save (state : State) : state.save.restore = state := rfl

@[simp] theorem discard_save (state : State) : state.save.discard = state := rfl

def enter (state : State) : State :=
  { state with depth := state.depth + 1, peak := max state.peak (state.depth + 1) }

def leave (state : State) : State := { state with depth := state.depth - 1 }

end State

variable (ceilings : Ceilings)

/-- A nested call. At the ceiling the search halts instead. -/
@[inline] def descend (call : State → Outcome) (state : State) : Outcome :=
  if state.halted then .failed state
  else if ceilings.depth.any (· ≤ state.depth) then .failed state.halt
  else
    match call state.enter with
    | .matched state => .matched state.leave
    | .failed state => .failed state.leave
    | .fault fault => .fault fault

/-- An alternative. If it fails, its writes to the registers are undone. -/
@[inline] def fork (call : State → Outcome) (state : State) : Outcome :=
  match descend ceilings call state.save with
  | .matched state => .matched state.discard
  | .failed state => .failed state.restore
  | .fault fault => .fault fault

/-- The end of a lookaround whose body has been tried. Only a positive one that holds keeps what its
body wrote to the registers. -/
def concludeLook (look : Look) (held : Bool) (state : State) : Outcome :=
  if look.isPositive && held then .matched state.discard
  else
    let state := state.restore
    if !look.isPositive && !held && !state.halted then .matched state else .failed state

/-- A lookaround at a position. A lookbehind runs its body from `width` bytes before the position,
and the body has to stop exactly there. -/
@[inline] def lookAround (look : Look) (width position : Nat) (call : Nat → State → Outcome)
    (state : State) : Outcome :=
  let state := state.save
  if look.isBehind && position < width then concludeLook look false state
  else
    match descend ceilings (call (if look.isBehind then position - width else position)) state with
    | .matched state => concludeLook look (!look.isBehind || state.stop = position) state
    | .failed state => concludeLook look false state
    | .fault fault => .fault fault

/-- Tries what follows a greedy repeat behind each position from `shortest + extra` down to the one
after `shortest`. -/
def giveBack (call : Nat → State → Outcome) (shortest : Nat) : Nat → State → Outcome
  | 0, state => .failed state
  | extra + 1, state =>
      match fork ceilings (call (shortest + (extra + 1))) state with
      | .failed state =>
          if state.halted then .failed state else giveBack call shortest extra state
      | other => other

/-- Tries what follows a lazy repeat behind each position from `position` on, as long as the test
holds there and at most `extra` times more. -/
def takeMore (test : Nat → Bool) (call : Nat → State → Outcome) : Nat → Nat → State → Outcome
  | extra, position, state =>
      match fork ceilings (call position) state with
      | .failed state =>
          match extra with
          | 0 => .failed state
          | extra + 1 =>
              if state.halted || !test position then .failed state
              else takeMore test call extra (position + 1) state
      | other => other

end ByteRegex.Machine
