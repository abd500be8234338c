import ByteRegex.Proofs.Machine.Move

/-!
# Ceilings

A run under ceilings is the run without any, up to the first instruction or call that is one too
many. From there on it only unwinds: whatever alternative, lookaround, atomic group or start is
pending fails without another look at the subject. So a ceiling is an exact threshold on the steps
and the peak of the run without ceilings.
-/

namespace ByteRegex.Machine

/-- Whether a search may take so many steps and reach such a peak. -/
def Ceilings.Admits (ceilings : Ceilings) (steps peak : Nat) : Prop :=
  (∀ limit ∈ ceilings.depth, peak ≤ limit) ∧ (∀ limit ∈ ceilings.steps, steps ≤ limit)

instance (ceilings : Ceilings) (steps peak : Nat) : Decidable (ceilings.Admits steps peak) :=
  inferInstanceAs (Decidable (_ ∧ _))

namespace Outcome

/-- The state that a run leaves behind if nothing goes wrong. -/
def state? : Outcome → Option State
  | .matched state | .failed state => some state
  | .fault _ => none

/-- The failure of a search that has been halted. -/
def Unwound (outcome : Outcome) : Prop := ∃ state, outcome = .failed state ∧ state.halted = true

/-- What becomes of a run from a state under ceilings, compared with the run without ceilings. -/
structure Cut (ceilings : Ceilings) (state : State) (free curbed : Outcome) : Prop where
  running : ∀ after, free.state? = some after → after.halted = false
  steps : ∀ after, free.state? = some after → state.steps ≤ after.steps
  peak : ∀ after, free.state? = some after → state.peak ≤ after.peak
  same : ∀ after, free.state? = some after → ceilings.Admits state.steps state.peak →
    ceilings.Admits after.steps after.peak → curbed = free
  unwound : ∀ after, free.state? = some after → ceilings.Admits state.steps state.peak →
    ¬ ceilings.Admits after.steps after.peak → curbed.Unwound

end Outcome

/-- A call under ceilings and the same call without, on a search that has not been halted. -/
def Curbs (ceilings : Ceilings) (free curbed : State → Outcome) : Prop :=
  ∀ state, state.halted = false → (free state).Cut ceilings state (curbed state)

variable {ceilings : Ceilings} {free curbed : State → Outcome} {state : State}

theorem Ceilings.Admits.mono {steps peak laterSteps laterPeak : Nat}
    (admitted : ceilings.Admits laterSteps laterPeak) (fewer : steps ≤ laterSteps)
    (lower : peak ≤ laterPeak) : ceilings.Admits steps peak :=
  ⟨fun limit given => Nat.le_trans lower (admitted.1 limit given),
    fun limit given => Nat.le_trans fewer (admitted.2 limit given)⟩

namespace Outcome

/-- A run that ends where it is takes nothing. -/
theorem Cut.of_still {outcome : Outcome}
    (still : ∀ after, outcome.state? = some after →
      after.halted = false ∧ after.steps = state.steps ∧ after.peak = state.peak) :
    Cut ceilings state outcome outcome where
  running after ended := (still after ended).1
  steps after ended := Nat.le_of_eq (still after ended).2.1.symm
  peak after ended := Nat.le_of_eq (still after ended).2.2.symm
  same _ _ _ _ := rfl
  unwound after ended admitted refused := by
    obtain ⟨_, steps, peak⟩ := still after ended
    rw [steps, peak] at refused
    exact absurd admitted refused

theorem Cut.fault (reason : Fault) (curbed : Outcome) :
    Cut ceilings state (.fault reason) curbed where
  running _ ended := nomatch ended
  steps _ ended := nomatch ended
  peak _ ended := nomatch ended
  same _ ended := nomatch ended
  unwound _ ended := nomatch ended

/-- Changes of the state that its steps, its peak and its being halted do not show. -/
theorem Cut.from_twin {twin : State} {free curbed : Outcome} (cut : Cut ceilings twin free curbed)
    (steps : twin.steps = state.steps) (peak : twin.peak = state.peak) :
    Cut ceilings state free curbed where
  running := cut.running
  steps after ended := steps ▸ cut.steps after ended
  peak after ended := peak ▸ cut.peak after ended
  same after ended admitted := cut.same after ended (by rwa [steps, peak])
  unwound after ended admitted := cut.unwound after ended (by rwa [steps, peak])

/-- One run after another. Only what follows a failure can meet a halted search. -/
theorem Cut.andThen {free curbed : Outcome} {freeMatch curbedMatch freeFailure curbedFailure :
    State → Outcome} (first : Cut ceilings state free curbed)
    (onMatch : Curbs ceilings freeMatch curbedMatch)
    (onFailure : Curbs ceilings freeFailure curbedFailure)
    (unwinds : ∀ mid, free.state? = some mid →
      ∀ halted : State, halted.halted = true → (curbedFailure halted).Unwound) :
    Cut ceilings state (free.andThen freeMatch freeFailure)
      (curbed.andThen curbedMatch curbedFailure) := by
  -- Whichever continuation it is, it starts from the same state on both sides unless the first run
  -- has been halted.
  have chained : ∀ {mid : State} {later laterCurbed : Outcome}, free.state? = some mid →
      Cut ceilings mid later laterCurbed →
      (curbed = free → curbed.andThen curbedMatch curbedFailure = laterCurbed) →
      Cut ceilings state later (curbed.andThen curbedMatch curbedFailure) := by
    intro mid later laterCurbed reached second joined
    refine ⟨second.running, fun after ended => ?_, fun after ended => ?_,
      fun after ended admitted => ?_, fun after ended admitted refused => ?_⟩
    · exact Nat.le_trans (first.steps mid reached) (second.steps after ended)
    · exact Nat.le_trans (first.peak mid reached) (second.peak after ended)
    · intro later
      have between := later.mono (second.steps after ended) (second.peak after ended)
      rw [joined (first.same mid reached admitted between)]
      exact second.same after ended between later
    · by_cases between : ceilings.Admits mid.steps mid.peak
      · rw [joined (first.same mid reached admitted between)]
        exact second.unwound after ended between refused
      · obtain ⟨halted, found, isHalted⟩ := first.unwound mid reached admitted between
        rw [found]
        exact unwinds mid reached halted isHalted
  cases ended : free with
  | fault reason => exact .fault reason _
  | matched mid =>
      have reached : free.state? = some mid := by rw [ended]; rfl
      refine chained reached (onMatch mid (first.running mid reached)) fun same => ?_
      rw [same, ended]
      rfl
  | failed mid =>
      have reached : free.state? = some mid := by rw [ended]; rfl
      refine chained reached (onFailure mid (first.running mid reached)) fun same => ?_
      rw [same, ended]
      rfl

end Outcome

/-- Ends that keep steps, peak and halting as they are. -/
theorem Curbs.of_still {finish : State → Outcome}
    (still : ∀ state after, (finish state).state? = some after →
      after.halted = state.halted ∧ after.steps = state.steps ∧ after.peak = state.peak) :
    Curbs ceilings finish finish := by
  intro state running
  refine .of_still fun after ended => ?_
  obtain ⟨halted, rest⟩ := still state after ended
  exact ⟨halted.trans running, rest⟩

theorem Curbs.matched : Curbs ceilings .matched .matched :=
  .of_still fun state after ended => by cases ended; exact ⟨rfl, rfl, rfl⟩

theorem Curbs.failed : Curbs ceilings .failed .failed :=
  .of_still fun state after ended => by cases ended; exact ⟨rfl, rfl, rfl⟩

theorem State.restore_meter (state : State) :
    state.restore.halted = state.halted ∧ state.restore.steps = state.steps ∧
      state.restore.peak = state.peak := by
  unfold restore
  cases state.trail with
  | nil => exact ⟨rfl, rfl, rfl⟩
  | cons saved trail => exact ⟨rfl, rfl, rfl⟩

theorem concludeLook_meter {look : Look} {held : Bool} {after : State}
    (ended : (concludeLook look held state).state? = some after) :
    after.halted = state.halted ∧ after.steps = state.steps ∧ after.peak = state.peak := by
  unfold concludeLook at ended
  split at ended
  · cases ended
    exact ⟨rfl, rfl, rfl⟩
  · dsimp only at ended
    split at ended <;> cases ended <;> exact state.restore_meter

theorem concludeLook_of_halted {look : Look} (halted : state.halted = true) :
    concludeLook look false state = .failed state.restore := by
  have kept : state.restore.halted = true := state.restore_meter.1.trans halted
  simp only [concludeLook, Bool.and_false, Bool.false_eq_true, if_false, kept, Bool.not_true]

theorem descend_curbs (curbs : Curbs ceilings free curbed) :
    Curbs ceilings (descend .unlimited free) (descend ceilings curbed) := by
  intro state running
  have entered : Outcome.Cut ceilings state.enter (free state.enter) (curbed state.enter) :=
    curbs state.enter running
  have onMatch : Curbs ceilings (fun state => .matched state.leave)
      (fun state => .matched state.leave) :=
    .of_still fun state after ended => by cases ended; exact ⟨rfl, rfl, rfl⟩
  have onFailure : Curbs ceilings (fun state => .failed state.leave)
      (fun state => .failed state.leave) :=
    .of_still fun state after ended => by cases ended; exact ⟨rfl, rfl, rfl⟩
  have inner := entered.andThen onMatch onFailure
    (fun _ _ halted isHalted => ⟨halted.leave, rfl, isHalted⟩)
  rw [descend_eq_andThen .unlimited free running Bool.false_ne_true]
  -- The peak of the inner run is at least the depth of the call, so a call that the ceiling
  -- forbids is one whose peak it does not admit.
  have raised : ∀ after, ((free state.enter).andThen (fun state => .matched state.leave)
      (fun state => .failed state.leave)).state? = some after →
      state.peak ≤ after.peak ∧ state.depth + 1 ≤ after.peak := by
    intro after ended
    have grown : max state.peak (state.depth + 1) ≤ after.peak := inner.peak after ended
    omega
  refine ⟨inner.running, inner.steps, fun after ended => (raised after ended).1, ?_, ?_⟩
  · intro after ended admitted later
    have shallow : ¬ ceilings.depth.any (· ≤ state.depth) = true := by
      intro deep
      obtain ⟨limit, given, reached⟩ := (Option.any_eq_true _ _).mp deep
      have bounded := later.1 limit given
      have above := (raised after ended).2
      have below : limit ≤ state.depth := of_decide_eq_true reached
      omega
    rw [descend_eq_andThen ceilings curbed running shallow]
    have atEntry := later.mono (inner.steps after ended) (inner.peak after ended)
    exact inner.same after ended atEntry later
  · intro after ended admitted refused
    by_cases deep : ceilings.depth.any (· ≤ state.depth) = true
    · refine ⟨state.halt, ?_, rfl⟩
      rw [descend, if_neg (by rw [running]; exact Bool.false_ne_true), if_pos deep]
    · rw [descend_eq_andThen ceilings curbed running deep]
      refine inner.unwound after ended ⟨fun limit given => ?_, admitted.2⟩ refused
      have below : ¬ limit ≤ state.depth := fun reached =>
        deep ((Option.any_eq_true _ _).mpr ⟨limit, given, decide_eq_true reached⟩)
      have bounded := admitted.1 limit given
      show max state.peak (state.depth + 1) ≤ limit
      omega

theorem fork_curbs (curbs : Curbs ceilings free curbed) :
    Curbs ceilings (fork .unlimited free) (fork ceilings curbed) := by
  intro state running
  have inner := descend_curbs curbs state.save running
  have onMatch : Curbs ceilings (fun state => .matched state.discard)
      (fun state => .matched state.discard) :=
    .of_still fun state after ended => by cases ended; exact ⟨rfl, rfl, rfl⟩
  have onFailure : Curbs ceilings (fun state => .failed state.restore)
      (fun state => .failed state.restore) :=
    .of_still fun state after ended => by cases ended; exact state.restore_meter
  have whole := inner.andThen onMatch onFailure
    (fun _ _ halted isHalted => ⟨halted.restore, rfl, halted.restore_meter.1.trans isHalted⟩)
  rw [fork_eq_andThen, fork_eq_andThen]
  exact whole.from_twin rfl rfl

theorem lookAround_curbs (look : Look) (width position : Nat)
    {free curbed : Nat → State → Outcome}
    (curbs : ∀ origin, Curbs ceilings (free origin) (curbed origin)) :
    Curbs ceilings (lookAround .unlimited look width position free)
      (lookAround ceilings look width position curbed) := by
  intro state running
  have concludes : ∀ held, Curbs ceilings (concludeLook look held) (concludeLook look held) :=
    fun held => .of_still fun state after ended => concludeLook_meter ended
  rw [lookAround_eq_andThen, lookAround_eq_andThen]
  by_cases short : (look.isBehind && decide (position < width)) = true
  · rw [if_pos short, if_pos short]
    exact (concludes false state.save running).from_twin rfl rfl
  · rw [if_neg short, if_neg short]
    generalize (if look.isBehind then position - width else position) = origin
    have inner := descend_curbs (curbs origin) state.save running
    have onMatch : Curbs ceilings
        (fun state => concludeLook look (!look.isBehind || state.stop = position) state)
        (fun state => concludeLook look (!look.isBehind || state.stop = position) state) :=
      .of_still fun state after ended => concludeLook_meter ended
    have whole := inner.andThen onMatch (concludes false)
      (fun _ _ halted isHalted =>
        ⟨halted.restore, concludeLook_of_halted isHalted, halted.restore_meter.1.trans isHalted⟩)
    exact whole.from_twin rfl rfl

/-- A fork without ceilings ends only if its call does. -/
theorem ended_of_fork {call : State → Outcome} {after : State} (running : state.halted = false)
    (ended : (fork .unlimited call state).state? = some after) :
    ∃ mid, (call state.save.enter).state? = some mid := by
  have saved : state.save.halted = false := running
  rw [fork_eq_andThen,
    descend_eq_andThen .unlimited call saved Bool.false_ne_true] at ended
  cases inner : call state.save.enter with
  | matched mid => exact ⟨mid, rfl⟩
  | failed mid => exact ⟨mid, rfl⟩
  | fault reason =>
      rw [inner] at ended
      cases ended

theorem perform_curbs {free curbed : Resume} (move : Move)
    (curbs : ∀ address position, Curbs ceilings (free address position) (curbed address position))
    (unwinds : ∀ address position state after, (free address position state).state? = some after →
      ∀ (elsewhere spot : Nat) (halted : State), halted.halted = true →
        (curbed elsewhere spot halted).Unwound) :
    Curbs ceilings (move.perform .unlimited free) (move.perform ceilings curbed) := by
  induction move with
  | fault reason => exact fun state running => .fault reason _
  | fail => exact .failed
  | accept position => exact .of_still fun state after ended => by cases ended; exact ⟨rfl, rfl, rfl⟩
  | go address position => exact curbs address position
  | assign registers address position =>
      intro state running
      have assigned := curbs address position (state.setRegisters registers) running
      exact assigned.from_twin rfl rfl
  | branch first second position =>
      intro state running
      rw [perform_branch, perform_branch]
      have tried := fork_curbs (curbs first position) state running
      refine tried.andThen .matched (curbs second position) fun mid ended halted isHalted => ?_
      obtain ⟨inner, reached⟩ := ended_of_fork running ended
      exact unwinds _ _ _ _ reached second position halted isHalted
  | choice address position otherwise ih =>
      intro state running
      rw [perform_choice, perform_choice]
      have tried := fork_curbs (curbs address position) state running
      refine tried.andThen .matched (fun state running => ?_)
        (fun mid ended halted isHalted => ⟨halted, ?_, isHalted⟩)
      · have unhalted : ¬ state.halted = true := by rw [running]; exact Bool.false_ne_true
        rw [if_neg unhalted, if_neg unhalted]
        exact ih state running
      · exact if_pos isHalted
  | atomic address target position =>
      intro state running
      rw [perform_atomic, perform_atomic]
      have tried := fork_curbs (curbs address position) state running
      exact tried.andThen (fun state running => curbs target state.stop state running) .failed
        (fun _ _ halted isHalted => ⟨halted, rfl, isHalted⟩)
  | look direction width address target position =>
      intro state running
      rw [perform_look, perform_look]
      have looked := lookAround_curbs direction width position
        (fun origin => curbs address origin) state running
      exact looked.andThen (fun state running => curbs target position state running) .failed
        (fun _ _ halted isHalted => ⟨halted, rfl, isHalted⟩)

theorem tick_of_admits (admitted : ceilings.Admits (state.steps + 1) state.peak) :
    state.tick ceilings = state.tick .unlimited := by
  have within : ceilings.steps.any (· < state.steps + 1) = false := by
    refine (Option.any_eq_false _ _).mpr fun limit given => decide_eq_false ?_
    have bounded := admitted.2 limit given
    omega
  simp only [State.tick, within, Ceilings.unlimited, Option.any_none]

theorem tick_of_refused (admitted : ceilings.Admits state.steps state.peak)
    (refused : ¬ ceilings.Admits (state.steps + 1) state.peak) :
    (state.tick ceilings).halted = true := by
  cases spent : ceilings.steps.any (· < state.steps + 1) with
  | true => simp only [State.tick, spent, Bool.or_true]
  | false =>
      refine absurd ⟨admitted.1, fun limit given => ?_⟩ refused
      have within := Option.any_eq_false _ _ |>.mp spent limit given
      have bounded := of_decide_eq_false within
      omega

theorem run_unwinds (machine : Machine) (fuel address position : Nat) {halted : State}
    (isHalted : halted.halted = true) :
    (machine.run (fuel + 1) address position halted).Unwound := by
  have still : (halted.tick machine.ceilings).halted = true := by
    simp only [State.tick, isHalted, Bool.true_or]
  refine ⟨halted.tick machine.ceilings, ?_, still⟩
  rw [run_succ, if_pos still]

theorem run_curbs (machine : Machine) (fuel address position : Nat) :
    Curbs machine.ceilings (machine.free.run fuel address position)
      (machine.run fuel address position) := by
  induction fuel generalizing address position with
  | zero => exact fun state _ => .fault .outOfFuel _
  | succ fuel ih =>
      intro state running
      have ticked : (state.tick .unlimited).halted = false := by
        rw [tick_unlimited]
        exact running
      have moved : ∀ instruction next, Outcome.Cut machine.ceilings (state.tick .unlimited)
          ((machine.move instruction next position state.registers).perform .unlimited
            (machine.free.run fuel) (state.tick .unlimited))
          ((machine.move instruction next position state.registers).perform machine.ceilings
            (machine.run fuel) (state.tick .unlimited)) := by
        intro instruction next
        refine perform_curbs _ (fun address position => ih address position) ?_ _ ticked
        intro address position state after ended elsewhere spot halted isHalted
        cases fuel with
        | zero => cases ended
        | succ fuel => exact run_unwinds machine fuel elsewhere spot isHalted
      have stays : ¬ (state.tick .unlimited).halted = true := by
        rw [ticked]
        exact Bool.false_ne_true
      rw [free_run_succ machine fuel address position running]
      by_cases outside : machine.subject.size < position
      · rw [if_pos outside]
        exact .fault .badPosition _
      · rw [if_neg outside]
        rcases found : machine.code.instruction? address with _ | ⟨instruction, next⟩
        · exact .fault .badInstruction _
        · have inner := moved instruction next
          have counted : (state.tick .unlimited).steps = state.steps + 1 := by rw [tick_unlimited]
          have level : (state.tick .unlimited).peak = state.peak := by rw [tick_unlimited]
          -- If the ceilings leave room for this instruction, both runs make the same move.
          have follows : machine.ceilings.Admits (state.steps + 1) state.peak →
              machine.run (fuel + 1) address position state =
                (machine.move instruction next position state.registers).perform machine.ceilings
                  (machine.run fuel) (state.tick .unlimited) := by
            intro admitted
            rw [run_succ, tick_of_admits admitted, if_neg stays, if_neg outside, found]
          refine ⟨inner.running, fun after ended => ?_, fun after ended => ?_,
            fun after ended _ later => ?_, fun after ended admitted refused => ?_⟩
          · have later := inner.steps after ended
            omega
          · have later := inner.peak after ended
            omega
          · have between := later.mono (inner.steps after ended) (inner.peak after ended)
            rw [follows (by rwa [counted, level] at between)]
            exact inner.same after ended between later
          · by_cases between : machine.ceilings.Admits (state.steps + 1) state.peak
            · rw [follows between]
              exact inner.unwound after ended (by rwa [counted, level]) refused
            · have halted := tick_of_refused admitted between
              refine ⟨state.tick machine.ceilings, ?_, halted⟩
              rw [run_succ, if_pos halted]

theorem attempt_curbs (machine : Machine) (fuel start : Nat) :
    Curbs machine.ceilings (machine.free.attempt fuel start)
      (machine.attempt fuel start) := by
  intro state running
  have ran := run_curbs { machine with start } fuel 0 start state.rearmed running
  exact ran.from_twin rfl rfl

end ByteRegex.Machine
