import ByteRegex.Proofs.Machine.Trace

/-!
# Matches that consume

A machine whose matches have to consume something differs from one without that duty in a single
place: it fails where the other one ends an empty match. Whatever is pending there is tried next, so
the two runs part at the first empty match and not before, and at the same step.
-/

namespace ByteRegex.Machine

/-- The machine whose matches have to consume something. -/
def consuming (machine : Machine) : Machine := { machine with notEmpty := true }

/-- The addresses at which a move begins a sub-program. -/
def Move.bodies : Move → List Nat
  | .fault _ | .fail | .accept _ | .go _ _ | .assign _ _ _ | .branch _ _ _ => []
  | .choice _ _ otherwise => otherwise.bodies
  | .atomic address _ _ | .look _ _ address _ _ => [address]

theorem Move.bodies_givingBack (after shortest extra : Nat) :
    (Move.givingBack after shortest extra).bodies = [] := by
  induction extra with
  | zero => rfl
  | succ extra ih => exact ih

theorem Move.bodies_takingMore (test : Nat → Bool) (after extra position : Nat) :
    (Move.takingMore test after extra position).bodies = [] := by
  induction extra generalizing position with
  | zero => rfl
  | succ extra ih =>
      simp only [Move.takingMore, Move.bodies]
      split
      · exact ih (position + 1)
      · rfl

theorem bodies_repeatTestMove {machine : Machine} (greed : Greed) (least : Nat) (most : Option Nat)
    (test : ByteTest) (after position : Nat) :
    (machine.repeatTestMove greed least most test after position).bodies = [] := by
  simp only [repeatTestMove]
  split
  · rfl
  · cases greed with
    | lazy =>
        dsimp only
        split
        · rfl
        · exact Move.bodies_takingMore _ _ _ _
    | possessive => dsimp only; split <;> rfl
    | greedy =>
        dsimp only
        split
        · rfl
        · exact Move.bodies_givingBack _ _ _

/-- Only an enclosing instruction begins a sub-program, which is then the code behind it. -/
theorem Move.bodies_move {machine : Machine} {instruction : Instruction} {next position address : Nat}
    {registers : Registers}
    (begins : address ∈ (machine.move instruction next position registers).bodies) :
    address = next ∧ ((∃ look width target, instruction = .look look width target) ∨
      ∃ target, instruction = .atomic target) := by
  cases instruction with
  | look direction width target =>
      exact ⟨List.mem_singleton.mp begins, .inl ⟨direction, width, target, rfl⟩⟩
  | atomic target => exact ⟨List.mem_singleton.mp begins, .inr ⟨target, rfl⟩⟩
  | repetition greed least most =>
      simp only [move] at begins
      split at begins
      · rw [bodies_repeatTestMove] at begins
        cases begins
      · cases begins
  | backReference caseless group =>
      simp only [move, repeatGroupMove] at begins
      split at begins
      · cases begins
      · split at begins
        · split at begins <;> cases begins
        · cases begins
  | succeed | test | text | assertion =>
      simp only [move] at begins
      split at begins <;> cases begins
  | subEnd | fail | openGroup | closeGroup | jump | branch | branchReverse | counterReset
  | counterIncrement | jumpLess | jumpAtLeast | jumpStuck => cases begins

/-- Outcomes of which the second one is the same as the first, unless that is an empty match. -/
def Outcome.Refuses (start : Nat) (first second : Outcome) : Prop :=
  second = first ∨ ∃ state, first = .matched state ∧ state.stop = start

namespace Outcome.Refuses

variable {start : Nat} {first second : Outcome}

/-- Nothing comes behind an empty match that does not pass it on. -/
theorem andThen {onMatch onFailure onFailure' : State → Outcome}
    (refuses : first.Refuses start second)
    (passes : ∀ state, ∃ after, onMatch state = .matched after ∧ after.stop = state.stop)
    (failing : ∀ state, (onFailure state).Refuses start (onFailure' state)) :
    (first.andThen onMatch onFailure).Refuses start (second.andThen onMatch onFailure') := by
  rcases refuses with same | ⟨state, matched, stops⟩
  · subst same
    cases second with
    | matched state => exact .inl rfl
    | failed state => exact failing state
    | fault reason => exact .inl rfl
  · subst matched
    obtain ⟨after, passed, kept⟩ := passes state
    exact .inr ⟨after, passed, kept.trans stops⟩

end Outcome.Refuses

variable {ceilings : Ceilings} {start : Nat}

theorem fork_refuses (ceilings : Ceilings) {first second : State → Outcome}
    (refuses : ∀ state, (first state).Refuses start (second state)) (state : State) :
    (fork ceilings first state).Refuses start (fork ceilings second state) := by
  have descends : (descend ceilings first state.save).Refuses start
      (descend ceilings second state.save) := by
    by_cases halted : state.save.halted = true
    · rw [descend, if_pos halted, descend, if_pos halted]
      exact .inl rfl
    · by_cases deep : ceilings.depth.any (· ≤ state.save.depth) = true
      · rw [descend, if_neg halted, if_pos deep, descend, if_neg halted, if_pos deep]
        exact .inl rfl
      · have running : state.save.halted = false := Bool.not_eq_true _ ▸ halted
        rw [descend_eq_andThen _ _ running deep, descend_eq_andThen _ _ running deep]
        exact (refuses state.save.enter).andThen (fun state => ⟨state.leave, rfl, rfl⟩)
          fun _ => .inl rfl
  rw [fork_eq_andThen, fork_eq_andThen]
  exact descends.andThen (fun state => ⟨state.discard, rfl, rfl⟩) fun _ => .inl rfl

/-- Moves that go on alike end alike, if the sub-programs that they begin run alike. -/
theorem perform_refuses {first second : Resume} (move : Move)
    (refuses : ∀ address ∈ move.addresses, ∀ position state,
      (first address position state).Refuses start (second address position state))
    (bodies : ∀ address ∈ move.bodies, ∀ position, second address position = first address position)
    (state : State) :
    (move.perform ceilings first state).Refuses start (move.perform ceilings second state) := by
  induction move generalizing state with
  | fault | fail | accept => exact .inl rfl
  | go address position => exact refuses address (List.mem_singleton_self _) position state
  | assign registers address position =>
      exact refuses address (List.mem_singleton_self _) position (state.setRegisters registers)
  | branch one other position =>
      rw [perform_branch, perform_branch]
      have tried := fork_refuses ceilings (refuses one (List.mem_cons_self ..) position) state
      exact tried.andThen (fun state => ⟨state, rfl, rfl⟩)
        (refuses other (List.mem_cons_of_mem _ (List.mem_singleton_self _)) position)
  | choice address position otherwise ih =>
      rw [perform_choice, perform_choice]
      have tried := fork_refuses ceilings (refuses address (List.mem_cons_self ..) position) state
      refine tried.andThen (fun state => ⟨state, rfl, rfl⟩) fun mid => ?_
      split
      · exact .inl rfl
      · exact ih (fun further member => refuses further (List.mem_cons_of_mem _ member)) bodies mid
  | atomic address target position =>
      rw [perform_atomic, perform_atomic, bodies address (List.mem_singleton_self _)]
      have goes := refuses target (List.mem_cons_of_mem _ (List.mem_singleton_self _))
      cases fork ceilings (first address position) state with
      | matched mid => exact goes mid.stop mid
      | failed mid => exact .inl rfl
      | fault reason => exact .inl rfl
  | look direction width address target position =>
      have same : second address = first address :=
        funext (bodies address (List.mem_singleton_self _))
      rw [perform_look, perform_look, same]
      have goes := refuses target (List.mem_cons_of_mem _ (List.mem_singleton_self _))
      cases lookAround ceilings direction width position (first address) state with
      | matched mid => exact goes position mid
      | failed mid => exact .inl rfl
      | fault reason => exact .inl rfl

variable {machine : Machine}

/-- What is not the end of a program does the same in both machines. -/
theorem consuming_move {instruction : Instruction} (goes : instruction ≠ .succeed)
    (next position : Nat) (registers : Registers) :
    machine.consuming.move instruction next position registers =
      machine.move instruction next position registers := by
  cases instruction with
  | succeed => exact absurd rfl goes
  | _ => rfl

/-- At its end a program is done unless it has to consume something and has not. -/
theorem succeed_refuses (machine : Machine) (ceilings : Ceilings) (first second : Resume)
    (next position : Nat) (registers : Registers) (state : State) :
    ((machine.move .succeed next position registers).perform ceilings first state).Refuses
      machine.start
      ((machine.consuming.move .succeed next position registers).perform ceilings second state) := by
  have other : machine.consuming.move .succeed next position registers =
      if (true && decide (position = machine.start)) = true then .fail else .accept position := rfl
  by_cases empty : position = machine.start
  · rw [other, decide_eq_true empty, if_pos (Bool.and_self true)]
    cases strict : machine.notEmpty with
    | true =>
        have same : machine.move .succeed next position registers = .fail := by
          simp only [move, strict, empty, decide_true, Bool.and_self, if_true]
        rw [same]
        exact .inl rfl
    | false =>
        have accepts : machine.move .succeed next position registers = .accept position := by
          simp only [move, strict, Bool.false_and, Bool.false_eq_true, if_false]
        rw [accepts]
        exact .inr ⟨_, rfl, empty⟩
  · have same : machine.move .succeed next position registers = .accept position := by
      simp only [move, empty, decide_false, Bool.and_false, Bool.false_eq_true, if_false]
    rw [other, decide_eq_false empty, Bool.and_false, if_neg Bool.false_ne_true, same]
    exact .inl rfl

/-- One instruction of a run whose match has to consume something. -/
theorem consuming_run_succ (machine : Machine) (fuel address position : Nat) (state : State) :
    machine.consuming.run (fuel + 1) address position state =
      if (state.tick machine.ceilings).halted then .failed (state.tick machine.ceilings)
      else if machine.subject.size < position then .fault .badPosition
      else
        match machine.code.instruction? address with
        | none => .fault .badInstruction
        | some (instruction, next) =>
            (machine.consuming.move instruction next position state.registers).perform
              machine.ceilings (machine.consuming.run fuel) (state.tick machine.ceilings) :=
  run_succ machine.consuming fuel address position state

end ByteRegex.Machine
