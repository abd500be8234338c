import ByteRegex.Proofs.Machine.Balance
import ByteRegex.Proofs.Machine.Leftovers
import ByteRegex.Proofs.Search.Correctness

/-!
# Balance of attempts

Every attempt of a compiled program ends, whatever the attempts before it have left behind and
whichever limit it hits. It ends with an empty trail outside of any call, and so does every trial on
its way give back the trail, the depth and, if it fails, the registers.
-/

namespace ByteRegex

open Machine (Outcome State)

/-- Two attempts that end alike do so together. -/
theorem Machine.Outcome.Later.ended {lead : Nat} {left right : Outcome} {last : State}
    (later : left.Later lead right) (ended : left.state? = some last) :
    ∃ after, right.state? = some after := by
  cases later with
  | matched | failed => exact ⟨_, rfl⟩
  | fault reason => cases ended

namespace Program

variable {program : Program} {expr : Expr} {subject : Array UInt8} {start : Nat}

/-- An attempt that does not start halted ends, as it does without ceilings or halted by them. -/
theorem Implements.attempt_ends_of_admits (implements : program.Implements expr)
    (inside : start ≤ subject.size) {ceilings : Machine.Ceilings} {state : State}
    (running : state.halted = false) (admitted : ceilings.Admits state.steps state.peak) :
    ∃ after, ((program.machine subject ceilings).attempt (program.code.fuel subject.size) start
      state).state? = some after := by
  have answers := implements.attempt_answers inside (Nat.le_refl _) running
  have cut := Machine.attempt_curbs (program.machine subject ceilings)
    (program.code.fuel subject.size) start state running
  obtain ⟨last, ended⟩ : ∃ last, ((program.machine subject .unlimited).attempt
      (program.code.fuel subject.size) start state).state? = some last := by
    generalize (program.machine subject .unlimited).attempt _ start state = outcome at answers ⊢
    cases outcome with
    | matched last | failed last => exact ⟨last, rfl⟩
    | fault reason => exact answers.elim
  by_cases within : ceilings.Admits last.steps last.peak
  · exact ⟨last, (congrArg Outcome.state? (cut.same last ended admitted within)).trans ended⟩
  · obtain ⟨halted, failed, _⟩ := cut.unwound last ended admitted within
    exact ⟨halted, congrArg Outcome.state? failed⟩

/-- An attempt ends whatever the attempts before it have left behind. -/
theorem Implements.attempt_ends (implements : program.Implements expr)
    (inside : start ≤ subject.size) (ceilings : Machine.Ceilings) (state : State) :
    ∃ after, ((program.machine subject ceilings).attempt (program.code.fuel subject.size) start
      state).state? = some after := by
  cases ticked : (state.tick ceilings).halted with
  | true =>
      have initial : ∃ after, ((program.machine subject ceilings).attempt
          (program.code.fuel subject.size) start .initial).state? = some after :=
        implements.attempt_ends_of_admits inside rfl (admits_zero ceilings)
      generalize program.code.fuel subject.size = fuel at initial ⊢
      cases fuel with
      | zero =>
          obtain ⟨after, ended⟩ := initial
          cases ended
      | succ fuel =>
          refine ⟨state.rearmed.tick ceilings, ?_⟩
          rw [Machine.attempt, Machine.run_succ]
          exact congrArg Outcome.state? (if_pos ticked)
  | false =>
      obtain ⟨running, unspent⟩ := Bool.or_eq_false_iff.mp ticked
      have admitted : ceilings.Admits state.steps 0 := by
        refine ⟨fun _ _ => Nat.zero_le _, fun limit given => ?_⟩
        have room := of_decide_eq_false ((Option.any_eq_false _ _).mp unspent limit given)
        omega
      -- The peak of the attempts before is only carried along.
      let twin : State := { state with peak := 0 }
      have same : twin.halted = state.halted := rfl
      obtain ⟨last, ended⟩ := implements.attempt_ends_of_admits inside (same.trans running) admitted
      have later : Outcome.Later 0 ((program.machine subject ceilings).attempt
          (program.code.fuel subject.size) start twin) _ :=
        Machine.attempt_later (.inr rfl) _ start same.symm rfl (Nat.zero_le state.peak)
      exact later.ended ended

/-- Every attempt has one copy of the registers saved for each call in progress, undoes whatever
fails, and leaves no copy and no call behind. -/
theorem attempt_balanced {pattern : List UInt8} {flags : Flags}
    (compiled : compile pattern flags = .ok program) (subject : Array UInt8) {start : Nat}
    (inside : start ≤ subject.size) (limits : Limits) (state : State) :
    (∀ here ∈ { program.machine subject limits.ceilings with start }.trace
        (program.code.fuel subject.size) ⟨0, start, state.rearmed⟩,
      here.state.trail.length = here.state.depth ∧
        here.state.depth ≤ min limits.depth Capacity.depth) ∧
    (∀ trial ∈ { program.machine subject limits.ceilings with start }.trials
        (program.code.fuel subject.size) ⟨0, start, state.rearmed⟩,
      ∃ after, trial.outcome.state? = some after ∧
        after.trail = trial.before.trail ∧ after.depth = trial.before.depth ∧
          ((trial.outcome = .failed after ∨
              ∃ look, trial.kind = .look look ∧ look.isPositive = false) →
            after.registers = trial.before.registers)) ∧
    ∃ after, ((program.machine subject limits.ceilings).attempt (program.code.fuel subject.size)
        start state).state? = some after ∧ after.trail = [] ∧ after.depth = 0 := by
  obtain ⟨expr, _, _, implements⟩ := implements_of_compile compiled
  obtain ⟨after, ended⟩ := implements.attempt_ends inside limits.ceilings state
  have begun : state.rearmed.Balanced limits.ceilings := ⟨rfl, fun _ _ => Nat.zero_le _⟩
  refine ⟨fun here member => ?_, fun trial member => ?_, after, ended, ?_⟩
  · have balanced := Machine.trace_balanced _ _ begun here member
    exact ⟨balanced.saved, balanced.allowed _ rfl⟩
  · have begins := Machine.trials_end { program.machine subject limits.ceilings with start } _
      ⟨0, start, state.rearmed⟩ ended
    obtain ⟨last, ends⟩ := begins trial member
    exact ⟨last, ends, Machine.trials_balanced _ _ _ trial member last ends⟩
  · exact Machine.run_level _ _ _ _ _ after ended

theorem attempt_balanced_denied_atom :
    ∃ program, compile "(?!(a)c)(?>(b)|a)*?c".toUTF8.toList .default = .ok program ∧
      0 ≤ (#[97, 98, 99] : Array UInt8).size ∧
      ({ program.machine #[97, 98, 99] (Limits.ceilings .default) with start := 0 }.trials
        (program.code.fuel 3) ⟨0, 0, State.initial.rearmed⟩).length = 8 ∧
      (∀ trial ∈ { program.machine #[97, 98, 99] (Limits.ceilings .default) with start := 0 }.trials
          (program.code.fuel 3) ⟨0, 0, State.initial.rearmed⟩,
        ∃ after, trial.outcome.state? = some after ∧
          after.trail = trial.before.trail ∧ after.depth = trial.before.depth ∧
            ((trial.outcome = .failed after ∨
                ∃ look, trial.kind = .look look ∧ look.isPositive = false) →
              after.registers = trial.before.registers)) ∧
      ∃ after, ((program.machine #[97, 98, 99] (Limits.ceilings .default)).attempt
        (program.code.fuel 3) 0 .initial).state? = some after ∧ after.trail = [] ∧
          after.depth = 0 := by
  have compiled : compile "(?!(a)c)(?>(b)|a)*?c".toUTF8.toList .default =
      .ok ⟨#[31, 13, 0, 20, 1, 0, 3, 97, 0, 21, 1, 0, 3, 99, 0, 1, 26, 25, 0, 34, 19, 0, 25, 12, 0,
        20, 2, 0, 3, 98, 0, 21, 2, 0, 24, 3, 0, 3, 97, 0, 1, 24, 228, 255, 3, 99, 0, 0], 2,
        .default⟩ :=
    compile_of_toOption (by decide +kernel)
  have inside : 0 ≤ (#[97, 98, 99] : Array UInt8).size := Nat.zero_le _
  have ⟨_, undone, left⟩ := attempt_balanced compiled #[97, 98, 99] inside .default .initial
  exact ⟨_, compiled, inside, by decide +kernel, undone, left⟩

end Program

end ByteRegex
