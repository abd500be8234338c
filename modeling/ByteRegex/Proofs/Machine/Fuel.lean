import ByteRegex.Proofs.Machine.Move

/-!
# Fuel

Fuel only cuts a run off. A run that ends for any other reason ends the same way with more fuel, so
what it computes is a fact about the code and the subject alone.
-/

namespace ByteRegex.Machine

/-- Agrees with a call wherever that does not run out of fuel. -/
def Prolongs (longer call : State → Outcome) : Prop :=
  ∀ state, call state ≠ .fault .outOfFuel → longer state = call state

variable {ceilings : Ceilings} {longer call : State → Outcome} {state : State}

theorem descend_prolongs (prolongs : Prolongs longer call) :
    Prolongs (descend ceilings longer) (descend ceilings call) := by
  intro state ended
  unfold descend at ended ⊢
  by_cases halted : state.halted = true
  · rw [if_pos halted, if_pos halted]
  · rw [if_neg halted] at ended ⊢
    rw [if_neg halted]
    by_cases deep : ceilings.depth.any (· ≤ state.depth) = true
    · rw [if_pos deep, if_pos deep]
    · rw [if_neg deep] at ended ⊢
      rw [if_neg deep]
      have inner : call state.enter ≠ .fault .outOfFuel := by
        intro spent
        rw [spent] at ended
        exact ended rfl
      rw [prolongs _ inner]

theorem fork_prolongs (prolongs : Prolongs longer call) :
    Prolongs (fork ceilings longer) (fork ceilings call) := by
  intro state ended
  unfold fork at ended ⊢
  have inner : descend ceilings call state.save ≠ .fault .outOfFuel := by
    intro spent
    rw [spent] at ended
    exact ended rfl
  rw [descend_prolongs prolongs _ inner]

theorem lookAround_prolongs {direction : Look} {width position : Nat}
    {longer call : Nat → State → Outcome}
    (prolongs : ∀ origin, Prolongs (longer origin) (call origin)) :
    Prolongs (lookAround ceilings direction width position longer)
      (lookAround ceilings direction width position call) := by
  intro state ended
  unfold lookAround at ended ⊢
  by_cases short : (direction.isBehind && decide (position < width)) = true
  · rw [if_pos short, if_pos short]
  · rw [if_neg short] at ended ⊢
    rw [if_neg short]
    generalize (if direction.isBehind then position - width else position) = origin at ended ⊢
    have inner : descend ceilings (call origin) state.save ≠ .fault .outOfFuel := by
      intro spent
      rw [spent] at ended
      exact ended rfl
    rw [descend_prolongs (prolongs origin) _ inner]

theorem perform_prolongs {longer resume : Resume} (move : Move)
    (prolongs : ∀ address position, Prolongs (longer address position) (resume address position)) :
    Prolongs (move.perform ceilings longer) (move.perform ceilings resume) := by
  intro state ended
  induction move generalizing state with
  | fault | fail | accept => rfl
  | go address position => exact prolongs address position state ended
  | assign registers address position => exact prolongs address position _ ended
  | branch first second position =>
      simp only [Move.perform] at ended ⊢
      have inner : fork ceilings (resume first position) state ≠ .fault .outOfFuel := by
        intro spent
        rw [spent] at ended
        exact ended rfl
      rw [fork_prolongs (prolongs first position) state inner]
      cases tried : fork ceilings (resume first position) state with
      | matched after => rfl
      | fault reason => rfl
      | failed failed =>
          rw [tried] at ended
          exact prolongs second position failed ended
  | choice address position otherwise ih =>
      simp only [Move.perform] at ended ⊢
      have inner : fork ceilings (resume address position) state ≠ .fault .outOfFuel := by
        intro spent
        rw [spent] at ended
        exact ended rfl
      rw [fork_prolongs (prolongs address position) state inner]
      cases tried : fork ceilings (resume address position) state with
      | matched after => rfl
      | fault reason => rfl
      | failed failed =>
          simp only [tried] at ended ⊢
          by_cases halted : failed.halted = true
          · rw [if_pos halted, if_pos halted]
          · rw [if_neg halted] at ended ⊢
            rw [if_neg halted]
            exact ih failed ended
  | atomic address target position =>
      simp only [Move.perform] at ended ⊢
      have inner : fork ceilings (resume address position) state ≠ .fault .outOfFuel := by
        intro spent
        rw [spent] at ended
        exact ended rfl
      rw [fork_prolongs (prolongs address position) state inner]
      cases tried : fork ceilings (resume address position) state with
      | failed failed => rfl
      | fault reason => rfl
      | matched after =>
          rw [tried] at ended
          exact prolongs target after.stop after ended
  | look direction width address target position =>
      simp only [Move.perform] at ended ⊢
      have inner : lookAround ceilings direction width position (resume address) state ≠
          .fault .outOfFuel := by
        intro spent
        rw [spent] at ended
        exact ended rfl
      rw [lookAround_prolongs (prolongs address) state inner]
      cases tried : lookAround ceilings direction width position (resume address) state with
      | failed failed => rfl
      | fault reason => rfl
      | matched after =>
          rw [tried] at ended
          exact prolongs target position after ended

theorem run_prolongs (machine : Machine) (fuel extra address position : Nat) :
    Prolongs (machine.run (fuel + extra) address position) (machine.run fuel address position) := by
  intro state ended
  induction fuel generalizing address position state with
  | zero => exact absurd rfl ended
  | succ fuel ih =>
      rw [Nat.succ_add, run_succ, run_succ]
      rw [run_succ] at ended
      by_cases halted : (state.tick machine.ceilings).halted = true
      · rw [if_pos halted, if_pos halted]
      · rw [if_neg halted] at ended ⊢
        rw [if_neg halted]
        by_cases outside : machine.subject.size < position
        · rw [if_pos outside, if_pos outside]
        · rw [if_neg outside] at ended ⊢
          rw [if_neg outside]
          rcases found : machine.code.instruction? address with _ | ⟨instruction, next⟩
          · rfl
          · rw [found] at ended
            exact perform_prolongs _ (fun address position => ih address position) _ ended

end ByteRegex.Machine
