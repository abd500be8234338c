import ByteRegex.Proofs.Machine.Move

/-!
# Leftovers

The attempts of a search share one state. An attempt finds the registers, the trail and the depth
reset, and of what the attempts before it have left behind it sees only how many steps they have
taken and whether the search has been halted. Without a ceiling on steps it does not see the steps
either: it ends as it would have ended first of all, with the steps of the others added to its own.
-/

namespace ByteRegex.Machine

/-- States of which the right one has so many more steps behind it. They may also differ in the
peak, and in where the last sub-program stopped, which is written before it is read. -/
structure State.Later (lead : Nat) (left right : State) : Prop where
  registers : right.registers = left.registers
  trail : right.trail = left.trail
  depth : right.depth = left.depth
  halted : right.halted = left.halted
  steps : right.steps = left.steps + lead
  peak : left.peak ≤ right.peak

namespace State.Later

variable {lead : Nat} {left right : State}

theorem tick {ceilings : Ceilings} (even : ceilings.steps = none ∨ lead = 0)
    (later : left.Later lead right) : (left.tick ceilings).Later lead (right.tick ceilings) :=
  { later with
    steps := by
      simp only [State.tick, later.steps]
      omega
    halted := by
      rcases even with unlimited | level
      · simp only [State.tick, unlimited, Option.any_none, later.halted]
      · simp only [State.tick, later.steps, level, Nat.add_zero, later.halted] }

theorem halt (later : left.Later lead right) : left.halt.Later lead right.halt :=
  { later with halted := rfl }

theorem setRegisters (later : left.Later lead right) (registers : Registers) :
    (left.setRegisters registers).Later lead (right.setRegisters registers) :=
  { later with registers := rfl }

theorem setStop (later : left.Later lead right) (stop : Nat) :
    (left.setStop stop).Later lead (right.setStop stop) :=
  { later with }

theorem enter (later : left.Later lead right) : left.enter.Later lead right.enter :=
  { later with
    depth := congrArg (· + 1) later.depth
    peak := by
      have level := later.peak
      simp only [State.enter, later.depth]
      omega }

theorem leave (later : left.Later lead right) : left.leave.Later lead right.leave :=
  { later with depth := congrArg (· - 1) later.depth }

theorem save (later : left.Later lead right) : left.save.Later lead right.save :=
  { later with trail := by simp only [State.save, later.registers, later.trail] }

theorem discard (later : left.Later lead right) : left.discard.Later lead right.discard :=
  { later with trail := congrArg List.tail later.trail }

theorem restore (later : left.Later lead right) : left.restore.Later lead right.restore := by
  have trails := later.trail
  unfold State.restore
  rw [trails]
  cases left.trail with
  | nil => exact later
  | cons saved trail => exact { later with registers := rfl, trail := rfl }

/-- An attempt resets all that the states of a search may otherwise differ in. -/
theorem rearmed (halted : right.halted = left.halted) (steps : right.steps = left.steps + lead)
    (peak : left.peak ≤ right.peak) : left.rearmed.Later lead right.rearmed :=
  ⟨rfl, rfl, rfl, halted, steps, peak⟩

end State.Later

/-- The same outcome, with so many more steps behind it on the right. -/
inductive Outcome.Later (lead : Nat) : Outcome → Outcome → Prop where
  | matched {left right : State} (later : left.Later lead right) (stop : right.stop = left.stop) :
      Later lead (.matched left) (.matched right)
  | failed {left right : State} (later : left.Later lead right) :
      Later lead (.failed left) (.failed right)
  | fault (reason : Fault) : Later lead (.fault reason) (.fault reason)

/-- Calls that do the same however many steps are behind them. -/
def Unaware (lead : Nat) (call : State → Outcome) : Prop :=
  ∀ left right : State, left.Later lead right → (call left).Later lead (call right)

theorem Unaware.failed (lead : Nat) : Unaware lead .failed := fun _ _ => .failed

/-- After a match the stops agree, so what follows it may look at them. -/
theorem Outcome.Later.andThen {lead : Nat} {left right : Outcome}
    {onMatch onFailure : State → Outcome} (later : left.Later lead right)
    (matching : ∀ left right : State, left.Later lead right → right.stop = left.stop →
      (onMatch left).Later lead (onMatch right))
    (failing : Unaware lead onFailure) :
    (left.andThen onMatch onFailure).Later lead (right.andThen onMatch onFailure) := by
  cases later with
  | matched later stop => exact matching _ _ later stop
  | failed later => exact failing _ _ later
  | fault reason => exact .fault reason

section Calls

variable {ceilings : Ceilings} {lead : Nat}

theorem descend_unaware {call : State → Outcome} (unaware : Unaware lead call) :
    Unaware lead (descend ceilings call) := by
  intro left right later
  cases halted : left.halted with
  | true =>
      have other : right.halted = true := later.halted.trans halted
      rw [descend, if_pos halted, descend, if_pos other]
      exact .failed later
  | false =>
      have running : right.halted = false := later.halted.trans halted
      by_cases deep : ceilings.depth.any (· ≤ left.depth) = true
      · have other : ceilings.depth.any (· ≤ right.depth) = true := by rwa [later.depth]
        rw [descend, halted, if_neg Bool.false_ne_true, if_pos deep, descend, running,
          if_neg Bool.false_ne_true, if_pos other]
        exact .failed later.halt
      · have shallow : ¬ ceilings.depth.any (· ≤ right.depth) = true := by rwa [later.depth]
        rw [descend_eq_andThen _ _ halted deep, descend_eq_andThen _ _ running shallow]
        exact (unaware _ _ later.enter).andThen
          (fun _ _ later stop => .matched later.leave stop)
          (fun _ _ later => .failed later.leave)

theorem fork_unaware {call : State → Outcome} (unaware : Unaware lead call) :
    Unaware lead (fork ceilings call) := by
  intro left right later
  rw [fork_eq_andThen, fork_eq_andThen]
  exact (descend_unaware unaware _ _ later.save).andThen
    (fun _ _ later stop => .matched later.discard stop)
    (fun _ _ later => .failed later.restore)

/-- A lookaround that holds because its body fails matches without writing a stop, so the stops
agree after it only if they have agreed before. -/
theorem lookAround_later {call : Nat → State → Outcome} (look : Look) (width position : Nat)
    (unaware : ∀ origin, Unaware lead (call origin)) {left right : State}
    (later : left.Later lead right) {onMatch : State → Outcome} (matching : Unaware lead onMatch) :
    ((lookAround ceilings look width position call left).andThen onMatch .failed).Later lead
      ((lookAround ceilings look width position call right).andThen onMatch .failed) := by
  have concludes : ∀ held, Unaware lead fun state =>
      (concludeLook look held state).andThen onMatch .failed := by
    intro held left right later
    unfold concludeLook
    split
    · exact matching _ _ later.discard
    · have restored := later.restore
      dsimp only
      rw [restored.halted]
      split
      · exact matching _ _ restored
      · exact .failed restored
  have chained : ∀ (outcome : Outcome) (first second : State → Outcome),
      (outcome.andThen first second).andThen onMatch .failed =
        outcome.andThen (fun state => (first state).andThen onMatch .failed)
          (fun state => (second state).andThen onMatch .failed) := by
    intro outcome first second
    cases outcome <;> rfl
  rw [lookAround_eq_andThen, lookAround_eq_andThen]
  split
  · exact concludes false _ _ later.save
  · rw [chained, chained]
    refine (descend_unaware (unaware _) _ _ later.save).andThen ?_ (concludes false)
    intro left right later stop
    rw [stop]
    exact concludes _ _ _ later

theorem perform_unaware {resume : Resume} (move : Move)
    (unaware : ∀ address position, Unaware lead (resume address position)) :
    Unaware lead (move.perform ceilings resume) := by
  induction move with
  | fault reason => exact fun _ _ _ => .fault reason
  | fail => exact .failed lead
  | accept position => exact fun _ _ later => .matched (later.setStop position) rfl
  | go address position => exact unaware address position
  | assign registers address position =>
      exact fun _ _ later => unaware address position _ _ (later.setRegisters registers)
  | branch first second position =>
      intro left right later
      rw [perform_branch, perform_branch]
      exact (fork_unaware (unaware first position) _ _ later).andThen (fun _ _ => .matched)
        (unaware second position)
  | choice address position otherwise ih =>
      intro left right later
      rw [perform_choice, perform_choice]
      refine (fork_unaware (unaware address position) _ _ later).andThen (fun _ _ => .matched) ?_
      intro left right later
      dsimp only
      rw [later.halted]
      split
      · exact .failed later
      · exact ih _ _ later
  | atomic address target position =>
      intro left right later
      rw [perform_atomic, perform_atomic]
      refine (fork_unaware (unaware address position) _ _ later).andThen ?_ (.failed lead)
      intro left right later stop
      rw [stop]
      exact unaware target _ _ _ later
  | look direction width address target position =>
      intro left right later
      rw [perform_look, perform_look]
      exact lookAround_later direction width position (unaware address) later
        (unaware target position)

end Calls

variable {machine : Machine} {lead : Nat}

theorem run_unaware (even : machine.ceilings.steps = none ∨ lead = 0)
    (fuel address position : Nat) : Unaware lead (machine.run fuel address position) := by
  induction fuel generalizing address position with
  | zero => exact fun _ _ _ => .fault .outOfFuel
  | succ fuel ih =>
      intro left right later
      have ticked := later.tick even
      rw [run_succ, run_succ, ticked.halted, later.registers]
      split
      · exact .failed ticked
      · split
        · exact .fault .badPosition
        · rcases machine.code.instruction? address with _ | ⟨instruction, next⟩
          · exact .fault .badInstruction
          · exact perform_unaware _ ih _ _ ticked

/-- An attempt ends alike wherever it comes in a search. -/
theorem attempt_later (even : machine.ceilings.steps = none ∨ lead = 0) (fuel start : Nat)
    {left right : State} (halted : right.halted = left.halted)
    (steps : right.steps = left.steps + lead) (peak : left.peak ≤ right.peak) :
    (machine.attempt fuel start left).Later lead (machine.attempt fuel start right) := by
  have attempted : { machine with start }.ceilings.steps = none ∨ lead = 0 := even
  exact run_unaware attempted fuel 0 start _ _ (.rearmed halted steps peak)

end ByteRegex.Machine
