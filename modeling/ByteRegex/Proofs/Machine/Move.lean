import ByteRegex.Machine.Run

/-!
# Moves

An instruction looks at its operands, the subject and the registers, and then makes one of few
moves: it fails, stops, goes on elsewhere, tries an alternative, or runs a sub-program. `move` is
the looking and `perform` the moving. Every property of whole runs is proved over the moves, so that
no proof has to take the instructions one by one.
-/

namespace ByteRegex.Machine

inductive Move where
  | fault (fault : Fault)
  | fail
  | accept (position : Nat)
  | go (address position : Nat)
  /-- Goes on with other registers. -/
  | assign (registers : Registers) (address position : Nat)
  /-- Tries one address and, if that fails, goes on at another. -/
  | branch (first second position : Nat)
  /-- Another move follows a failure, but not if the search has been halted meanwhile. -/
  | choice (address position : Nat) (otherwise : Move)
  | atomic (address target position : Nat)
  | look (look : Look) (width address target position : Nat)

/-- The moves of a greedy repeat that may give back `extra` bytes. -/
def Move.givingBack (after shortest : Nat) : Nat → Move
  | 0 => .go after shortest
  | extra + 1 => .choice after (shortest + (extra + 1)) (givingBack after shortest extra)

/-- The moves of a lazy repeat that may take `extra` bytes more. -/
def Move.takingMore (test : Nat → Bool) (after : Nat) : Nat → Nat → Move
  | 0, position => .choice after position .fail
  | extra + 1, position =>
      .choice after position
        (if test position then takingMore test after extra (position + 1) else .fail)

variable (machine : Machine)

def repeatTestMove (greed : Greed) (least : Nat) (most : Option Nat) (test : ByteTest)
    (after position : Nat) : Move :=
  let room := machine.subject.size - position
  let limit := most.elim room (min · room)
  let holds := test.holdsAt machine.subject
  if limit < least then .fail
  else
    match greed with
    | .lazy =>
        if countWhile holds least position 0 < least then .fail
        else .takingMore holds after (limit - least) (position + least)
    | .possessive =>
        let count := countWhile holds limit position 0
        if count < least then .fail else .go after (position + count)
    | .greedy =>
        let count := countWhile holds limit position 0
        if count < least then .fail
        else .givingBack after (position + least) (count - least)

def repeatGroupMove (caseless : Bool) (span : Option Span) (next position : Nat) : Move :=
  match span with
  | none => .fail
  | some span =>
      if span.start ≤ span.stop && span.stop ≤ machine.subject.size then
        let length := span.stop - span.start
        if agree caseless machine.subject machine.subject length position span.start then
          .go next (position + length)
        else .fail
      else .fault .badPosition

/-- The move of an instruction, with the one behind it at `next`. -/
def move (instruction : Instruction) (next position : Nat) (registers : Registers) : Move :=
  match instruction with
  | .succeed =>
      if machine.notEmpty && position = machine.start then .fail else .accept position
  | .subEnd => .accept position
  | .fail => .fail
  | .test test =>
      if test.holdsAt machine.subject position then .go next (position + 1) else .fail
  | .text caseless start stop =>
      let length := stop - start
      if agree caseless machine.subject machine.code length position start then
        .go next (position + length)
      else .fail
  | .assertion assertion =>
      if assertion.holdsAt machine.subject position then .go next position else .fail
  | .openGroup group => .assign (registers.openGroup group position) next position
  | .closeGroup group => .assign (registers.closeGroup group position) next position
  | .backReference caseless group =>
      machine.repeatGroupMove caseless (registers.spans.get group) next position
  | .jump target => .go target position
  | .branch target => .branch next target position
  | .branchReverse target => .branch target next position
  | .repetition greed least most =>
      match machine.code.instruction? next with
      | some (.test test, after) => machine.repeatTestMove greed least most test after position
      | _ => .fault .badInstruction
  | .look look width target => .look look width next target position
  | .atomic target => .atomic next target position
  | .counterReset counter => .assign (registers.resetCounter counter position) next position
  | .counterIncrement counter => .assign (registers.increment counter position) next position
  | .jumpLess counter bound target =>
      .go (if (registers.counters.get counter).count < bound then target else next) position
  | .jumpAtLeast counter bound target =>
      .go (if bound ≤ (registers.counters.get counter).count then target else next) position
  | .jumpStuck counter target =>
      .go (if (registers.counters.get counter).mark = position then target else next) position

/-- The machine without ceilings. -/
def free : Machine := { machine with ceilings := .unlimited }

/-- Makes a move. -/
def Move.perform (ceilings : Ceilings) (resume : Resume) : Move → State → Outcome
  | .fault reason, _ => .fault reason
  | .fail, state => .failed state
  | .accept position, state => .matched (state.setStop position)
  | .go address position, state => resume address position state
  | .assign registers address position, state =>
      resume address position (state.setRegisters registers)
  | .branch first second position, state =>
      match fork ceilings (resume first position) state with
      | .failed state => resume second position state
      | other => other
  | .choice address position otherwise, state =>
      match fork ceilings (resume address position) state with
      | .failed state =>
          if state.halted then .failed state else otherwise.perform ceilings resume state
      | other => other
  | .atomic address target position, state =>
      match fork ceilings (resume address position) state with
      | .matched state => resume target state.stop state
      | other => other
  | .look direction width address target position, state =>
      match lookAround ceilings direction width position (resume address) state with
      | .matched state => resume target position state
      | other => other

/-- One run after another, which depends on how the first one ends. -/
def Outcome.andThen (outcome : Outcome) (onMatch onFailure : State → Outcome) : Outcome :=
  match outcome with
  | .matched state => onMatch state
  | .failed state => onFailure state
  | .fault reason => .fault reason

variable {machine} {resume : Resume} {ceilings : Ceilings} {state : State}

theorem descend_eq_andThen (ceilings : Ceilings) (call : State → Outcome)
    (running : state.halted = false)
    (shallow : ¬ ceilings.depth.any (· ≤ state.depth) = true) :
    descend ceilings call state =
      (call state.enter).andThen (fun state => .matched state.leave)
        (fun state => .failed state.leave) := by
  rw [descend, if_neg (by rw [running]; exact Bool.false_ne_true), if_neg shallow]
  rfl

theorem fork_eq_andThen (call : State → Outcome) :
    fork ceilings call state =
      (descend ceilings call state.save).andThen (fun state => .matched state.discard)
        (fun state => .failed state.restore) := rfl

theorem lookAround_eq_andThen (look : Look) (width position : Nat)
    (call : Nat → State → Outcome) :
    lookAround ceilings look width position call state =
      if look.isBehind && position < width then concludeLook look false state.save
      else
        (descend ceilings (call (if look.isBehind then position - width else position))
          state.save).andThen
          (fun state => concludeLook look (!look.isBehind || state.stop = position) state)
          (concludeLook look false) := rfl

theorem perform_branch (first second position : Nat) :
    (Move.branch first second position).perform ceilings resume state =
      (fork ceilings (resume first position) state).andThen .matched (resume second position) := by
  rw [Move.perform]
  cases fork ceilings (resume first position) state <;> rfl

theorem perform_choice (address position : Nat) (otherwise : Move) :
    (Move.choice address position otherwise).perform ceilings resume state =
      (fork ceilings (resume address position) state).andThen .matched
        (fun state =>
          if state.halted then .failed state else otherwise.perform ceilings resume state) := by
  rw [Move.perform]
  cases fork ceilings (resume address position) state <;> rfl

theorem perform_atomic (address target position : Nat) :
    (Move.atomic address target position).perform ceilings resume state =
      (fork ceilings (resume address position) state).andThen
        (fun state => resume target state.stop state) .failed := by
  rw [Move.perform]
  cases fork ceilings (resume address position) state <;> rfl

theorem perform_look (look : Look) (width address target position : Nat) :
    (Move.look look width address target position).perform ceilings resume state =
      (lookAround ceilings look width position (resume address) state).andThen
        (resume target position) .failed := by
  rw [Move.perform]
  cases lookAround ceilings look width position (resume address) state <;> rfl

/-- A repeat that is out of bytes to give back ends with its shortest try, unless a ceiling has been
hit on the way. -/
theorem perform_givingBack (after shortest extra : Nat) (running : state.halted = false) :
    (Move.givingBack after shortest extra).perform ceilings resume state =
      match giveBack ceilings (resume after) shortest extra state with
      | .failed state =>
          if state.halted then .failed state else resume after shortest state
      | other => other := by
  induction extra generalizing state with
  | zero => simp [Move.givingBack, Move.perform, giveBack, running]
  | succ extra ih =>
      simp only [Move.givingBack, Move.perform, giveBack]
      cases fork ceilings (resume after (shortest + (extra + 1))) state with
      | matched after => rfl
      | fault reason => rfl
      | failed failed =>
          dsimp only
          cases halted : failed.halted with
          | true => simp [halted]
          | false => simpa using ih halted

theorem perform_takingMore (test : Nat → Bool) (after extra position : Nat) (state : State) :
    (Move.takingMore test after extra position).perform ceilings resume state =
      takeMore ceilings test (resume after) extra position state := by
  induction extra generalizing position state with
  | zero =>
      simp only [Move.takingMore, Move.perform, takeMore]
      cases fork ceilings (resume after position) state with
      | matched after => rfl
      | fault reason => rfl
      | failed failed => simp
  | succ extra ih =>
      rw [takeMore]
      simp only [Move.takingMore, Move.perform]
      cases fork ceilings (resume after position) state with
      | matched after => rfl
      | fault reason => rfl
      | failed failed =>
          dsimp only
          cases failed.halted with
          | true => simp
          | false =>
              cases test position with
              | true => simpa using ih (position + 1) failed
              | false => simp [Move.perform]

theorem repeatTest_eq_perform (greed : Greed) (least : Nat) (most : Option Nat) (test : ByteTest)
    (after position : Nat) (running : state.halted = false) :
    machine.repeatTest resume greed least most test after position state =
      (machine.repeatTestMove greed least most test after position).perform
        machine.ceilings resume state := by
  simp only [repeatTest, repeatTestMove]
  split
  · rfl
  · cases greed with
    | lazy =>
        dsimp only
        split
        · rfl
        · rw [perform_takingMore]
    | possessive => dsimp only; split <;> rfl
    | greedy =>
        dsimp only
        split
        · rfl
        · exact (perform_givingBack _ _ _ running).symm

theorem repeatGroup_eq_perform (caseless : Bool) (span : Option Span) (next position : Nat)
    (state : State) :
    machine.repeatGroup resume caseless span next position state =
      (machine.repeatGroupMove caseless span next position).perform
        machine.ceilings resume state := by
  cases span with
  | none => rfl
  | some span =>
      simp only [repeatGroup, repeatGroupMove]
      split
      · split <;> rfl
      · rfl

/-- What an instruction does is its move. -/
theorem execute_eq_perform (instruction : Instruction) (next position : Nat)
    (running : state.halted = false) :
    machine.execute resume instruction next position state =
      (machine.move instruction next position state.registers).perform
        machine.ceilings resume state := by
  cases instruction with
  | repetition greed least most =>
      simp only [execute, move]
      rcases machine.code.instruction? next with _ | ⟨repeated, after⟩
      · rfl
      · cases repeated with
        | test test => exact repeatTest_eq_perform _ _ _ _ _ _ running
        | _ => rfl
  | backReference caseless group => exact repeatGroup_eq_perform _ _ _ _ _
  | succeed | test | text | assertion | jumpLess | jumpAtLeast | jumpStuck =>
      simp only [execute, move]
      split <;> rfl
  | subEnd | fail | openGroup | closeGroup | jump | branch | branchReverse | look | atomic
  | counterReset | counterIncrement => rfl

/-- One instruction of a run. -/
theorem run_succ (machine : Machine) (fuel address position : Nat) (state : State) :
    machine.run (fuel + 1) address position state =
      if (state.tick machine.ceilings).halted then .failed (state.tick machine.ceilings)
      else if machine.subject.size < position then .fault .badPosition
      else
        match machine.code.instruction? address with
        | none => .fault .badInstruction
        | some (instruction, next) =>
            (machine.move instruction next position state.registers).perform machine.ceilings
              (machine.run fuel) (state.tick machine.ceilings) := by
  rw [run]
  cases halted : (state.tick machine.ceilings).halted with
  | true => rfl
  | false =>
      simp only [Bool.false_eq_true, if_false]
      split
      · rfl
      · rcases machine.code.instruction? address with _ | ⟨instruction, next⟩
        · rfl
        · exact execute_eq_perform _ _ _ halted

theorem tick_unlimited (state : State) :
    state.tick .unlimited = { state with steps := state.steps + 1 } := by
  simp only [State.tick, Ceilings.unlimited, Option.any_none, Bool.or_false]

/-- Without ceilings an instruction is only counted. -/
theorem free_run_succ (machine : Machine) (fuel address position : Nat) {state : State}
    (running : state.halted = false) :
    machine.free.run (fuel + 1) address position state =
      if machine.subject.size < position then .fault .badPosition
      else
        match machine.code.instruction? address with
        | none => .fault .badInstruction
        | some (instruction, next) =>
            (machine.move instruction next position state.registers).perform .unlimited
              (machine.free.run fuel) (state.tick .unlimited) := by
  have unhalted : ¬ (state.tick .unlimited).halted = true := by
    rw [tick_unlimited]
    simp [running]
  rw [run_succ]
  exact if_neg unhalted

end ByteRegex.Machine
