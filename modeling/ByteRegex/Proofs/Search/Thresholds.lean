import ByteRegex.Proofs.Machine.Ceilings
import ByteRegex.Search

/-!
# Thresholds

The ceilings of a search are thresholds on what the same search takes without any: at or above them
nothing changes, and below them nothing is found.
-/

namespace ByteRegex

open Machine (Ceilings State)

/-- What a search from a state reports under ceilings, compared with its report without. -/
structure Report.Cut (ceilings : Ceilings) (state : State) (free curbed : Report) : Prop where
  running : free.halted = false
  steps : state.steps ≤ free.steps
  peak : state.peak ≤ free.peak
  same : ceilings.Admits state.steps state.peak → ceilings.Admits free.steps free.peak →
    curbed = free
  nothing : ceilings.Admits state.steps state.peak → ¬ ceilings.Admits free.steps free.peak →
    curbed.outcome = .ok none ∧ curbed.halted = true

namespace Program

variable {program : Program} {machine : Machine} {fuel : Nat} {state : State}

theorem scan_cut (starts : List Nat) (running : state.halted = false) {found : Option Captures}
    (ended : (program.scan machine.free fuel starts state).outcome =
      .ok found) :
    (program.scan machine.free fuel starts state).Cut machine.ceilings
      state (program.scan machine fuel starts state) := by
  induction starts generalizing state with
  | nil =>
      exact ⟨running, Nat.le_refl _, Nat.le_refl _, fun _ _ => rfl,
        fun admitted refused => absurd admitted refused⟩
  | cons start rest ih =>
      have cut := Machine.attempt_curbs machine fuel start state running
      cases tried : machine.free.attempt fuel start state with
      | fault reason =>
          simp only [scan, tried] at ended
          cases ended
      | matched after =>
          rw [tried] at cut
          have reached : (Machine.Outcome.matched after).state? = some after := rfl
          have kept := cut.running after reached
          simp only [scan, tried]
          refine ⟨kept, cut.steps after reached, cut.peak after reached, ?_, ?_⟩
          · intro admitted later
            rw [cut.same after reached admitted later]
          · intro admitted refused
            obtain ⟨halted, failed, isHalted⟩ := cut.unwound after reached admitted refused
            simp only [failed, isHalted, if_true, and_self]
      | failed after =>
          rw [tried] at cut
          have reached : (Machine.Outcome.failed after).state? = some after := rfl
          have kept := cut.running after reached
          simp only [scan, tried, kept, Bool.false_eq_true, if_false] at ended ⊢
          have rested := ih kept ended
          refine ⟨rested.running, Nat.le_trans (cut.steps after reached) rested.steps,
            Nat.le_trans (cut.peak after reached) rested.peak, ?_, ?_⟩
          · intro admitted later
            have between := later.mono rested.steps rested.peak
            rw [cut.same after reached admitted between]
            simp only [kept, Bool.false_eq_true, if_false]
            exact rested.same between later
          · intro admitted refused
            by_cases between : machine.ceilings.Admits after.steps after.peak
            · rw [cut.same after reached admitted between]
              simp only [kept, Bool.false_eq_true, if_false]
              exact rested.nothing between refused
            · obtain ⟨halted, failed, isHalted⟩ := cut.unwound after reached admitted between
              simp only [failed, isHalted, if_true, and_self]

end Program

end ByteRegex
