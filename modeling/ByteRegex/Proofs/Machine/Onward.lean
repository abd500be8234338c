import ByteRegex.Proofs.Machine.Trace
import ByteRegex.Proofs.Semantics.Repetition

/-!
# Going on

Which way a run goes through the code. An instruction goes on with the calls of its move, except
that the bodies of atomic groups and lookarounds are over before it goes on. A property that holds
of a run as soon as it holds of all the ways in which its first instruction goes on is carried from
the end of a stretch of code to its start, instruction by instruction.
-/

namespace ByteRegex.Machine

/-- The calls with which a move goes on once the body that it encloses, if any, is over. -/
def Move.onward (ceilings : Ceilings) (resume : Resume) : Move → State → List Configuration
  | .atomic address target position, state =>
      (fork ceilings (resume address position) state).calls
        (fun state => [⟨target, state.stop, state⟩]) (fun _ => [])
  | .look direction width address target position, state =>
      (lookAround ceilings direction width position (resume address) state).calls
        (fun state => [⟨target, position, state⟩]) (fun _ => [])
  | .choice address position otherwise, state =>
      descendCalls ceilings address position state.save ++
        (fork ceilings (resume address position) state).calls (fun _ => [])
          (fun state => if state.halted then [] else otherwise.onward ceilings resume state)
  | move, state => move.calls ceilings resume state

/-- The configurations at which the instruction at a configuration goes on. -/
def onward (machine : Machine) (fuel : Nat) (here : Configuration) : List Configuration :=
  let state := here.state.tick machine.ceilings
  if state.halted then []
  else if machine.subject.size < here.position then []
  else
    match machine.code.instruction? here.address with
    | none => []
    | some (instruction, next) =>
        (machine.move instruction next here.position state.registers).onward machine.ceilings
          (machine.run fuel) state

/-- An execution of code from one configuration to another. All its instructions are at certain
addresses, but for the one that it has come to in the end. -/
inductive Leads (machine : Machine) (among : Nat → Prop) : Nat → Configuration → Configuration → Prop
    where
  | stay (fuel : Nat) (here : Configuration) : Leads machine among fuel here here
  | go {fuel : Nat} {here next last : Configuration} (inside : among here.address)
      (called : next ∈ machine.onward fuel here) (later : Leads machine among fuel next last) :
      Leads machine among (fuel + 1) here last

/-! ## The trail -/

/-- If this outcome is no fault, it leaves this trail. -/
def Outcome.Leaves (trail : List Registers) (outcome : Outcome) : Prop :=
  ∀ after, outcome.state? = some after → after.trail = trail

/-- A run that leaves the trail as it was, however it ends. -/
def KeepsTrail (resume : Resume) : Prop :=
  ∀ address position state, (resume address position state).Leaves state.trail

section

variable {ceilings : Ceilings} {resume : Resume} {state after : State} {address position : Nat}
  {trail : List Registers}

namespace Outcome.Leaves

theorem matched (same : state.trail = trail) : (Outcome.matched state).Leaves trail :=
  fun _ ended => by cases ended; exact same

theorem failed (same : state.trail = trail) : (Outcome.failed state).Leaves trail :=
  fun _ ended => by cases ended; exact same

theorem andThen {outcome : Outcome} {onMatch onFailure : State → Outcome} {later : List Registers}
    (leaves : outcome.Leaves trail)
    (matching : ∀ mid : State, mid.trail = trail → (onMatch mid).Leaves later)
    (failing : ∀ mid : State, mid.trail = trail → (onFailure mid).Leaves later) :
    (outcome.andThen onMatch onFailure).Leaves later := by
  cases outcome with
  | matched mid => exact matching mid (leaves mid rfl)
  | failed mid => exact failing mid (leaves mid rfl)
  | fault reason => exact fun after ended => nomatch ended

end Outcome.Leaves

theorem State.restore_trail (state : State) : state.restore.trail = state.trail.tail := by
  rcases state with ⟨registers, _ | ⟨saved, trail⟩⟩ <;> rfl

theorem State.restore_registers {registers : Registers} (saved : state.trail = registers :: trail) :
    state.restore.registers = registers := by
  simp only [restore, saved]

theorem concludeLook_leaves (look : Look) (held : Bool) (state : State) :
    (concludeLook look held state).Leaves state.trail.tail := by
  unfold concludeLook
  split
  · exact .matched rfl
  · dsimp only
    split
    · exact .matched state.restore_trail
    · exact .failed state.restore_trail

theorem descend_leaves (keeps : KeepsTrail resume) (state : State) :
    (descend ceilings (resume address position) state).Leaves state.trail := by
  by_cases halted : state.halted = true
  · rw [descend, if_pos halted]
    exact .failed rfl
  · by_cases deep : ceilings.depth.any (· ≤ state.depth) = true
    · rw [descend, if_neg halted, if_pos deep]
      exact .failed rfl
    · rw [descend_eq_andThen _ _ (Bool.not_eq_true _ ▸ halted) deep]
      exact (keeps address position state.enter).andThen (fun _ same => .matched same)
        (fun _ same => .failed same)

theorem fork_leaves (keeps : KeepsTrail resume) (state : State) :
    (fork ceilings (resume address position) state).Leaves state.trail := by
  rw [fork_eq_andThen]
  refine (descend_leaves keeps state.save).andThen
    (fun mid same => .matched ?_) (fun mid same => .failed ?_)
  · exact congrArg List.tail same
  · rw [mid.restore_trail, same]
    rfl

theorem lookAround_leaves (keeps : KeepsTrail resume) (look : Look) (width : Nat) (state : State) :
    (lookAround ceilings look width position (resume address) state).Leaves state.trail := by
  rw [lookAround_eq_andThen]
  split
  · exact concludeLook_leaves look false state.save
  · have popped (held : Bool) (mid : State) (same : mid.trail = state.save.trail) :
        (concludeLook look held mid).Leaves state.trail := by
      have leaves := concludeLook_leaves look held mid
      rwa [same] at leaves
    exact (descend_leaves keeps state.save).andThen (fun mid => popped _ mid) (popped false)

theorem perform_leaves (keeps : KeepsTrail resume) (move : Move) (state : State) :
    (move.perform ceilings resume state).Leaves state.trail := by
  induction move generalizing state with
  | fault reason => exact fun after ended => nomatch ended
  | fail => exact .failed rfl
  | accept position => exact .matched rfl
  | go address position => exact keeps address position state
  | assign registers address position => exact keeps address position (state.setRegisters registers)
  | branch first second position =>
      rw [perform_branch]
      refine (fork_leaves keeps state).andThen (fun _ => .matched) fun mid same => ?_
      exact same ▸ keeps second position mid
  | choice address position otherwise ih =>
      rw [perform_choice]
      refine (fork_leaves keeps state).andThen (fun _ => .matched) fun mid same => ?_
      split
      · exact .failed same
      · exact same ▸ ih mid
  | atomic address target position =>
      rw [perform_atomic]
      refine (fork_leaves keeps state).andThen (fun mid same => ?_) (fun _ => .failed)
      exact same ▸ keeps target mid.stop mid
  | look direction width address target position =>
      rw [perform_look]
      refine (lookAround_leaves keeps direction width state).andThen (fun mid same => ?_)
        (fun _ => .failed)
      exact same ▸ keeps target position mid

/-! ## Calls that end -/

/-- A match of a call is one of the run that the call makes. -/
theorem exists_of_descend
    (called : descend ceilings (resume address position) state = .matched after) :
    ⟨address, position, state.enter⟩ ∈ descendCalls ceilings address position state ∧
      ∃ mid, resume address position state.enter = .matched mid ∧ after.stop = mid.stop ∧
        after.registers = mid.registers := by
  unfold descend at called
  unfold descendCalls
  split at called
  · cases called
  · rename_i running
    split at called
    · cases called
    · rename_i shallow
      rw [if_neg running, if_neg shallow]
      split at called
      · rename_i mid ran
        cases called
        exact ⟨List.mem_singleton_self _, mid, ran, rfl, rfl⟩
      · cases called
      · cases called

theorem exists_of_fork (forked : fork ceilings (resume address position) state = .matched after) :
    ⟨address, position, state.save.enter⟩ ∈ descendCalls ceilings address position state.save ∧
      ∃ mid, resume address position state.save.enter = .matched mid ∧ after.stop = mid.stop ∧
        after.registers = mid.registers := by
  unfold fork at forked
  split at forked
  · rename_i called
    cases forked
    obtain ⟨made, mid, ran, same⟩ := exists_of_descend called
    exact ⟨made, mid, ran, same⟩
  · cases forked
  · cases forked

/-- An alternative that fails has changed no register. -/
theorem registers_of_fork (keeps : KeepsTrail resume)
    (forked : fork ceilings (resume address position) state = .failed after) :
    after.registers = state.registers := by
  have trail : (descend ceilings (resume address position) state.save).Leaves state.save.trail :=
    descend_leaves keeps state.save
  unfold fork at forked
  split at forked
  · cases forked
  · rename_i mid called
    cases forked
    rw [called] at trail
    exact State.restore_registers (trail mid rfl)
  · cases forked

theorem registers_of_concludeLook {look : Look} {held : Bool}
    (concluded : concludeLook look held state = .matched after) :
    (held = true ∧ after.registers = state.registers) ∨
      after.registers = state.restore.registers := by
  unfold concludeLook at concluded
  split at concluded
  · rename_i holds
    cases concluded
    exact .inl ⟨(Bool.and_eq_true_iff.mp holds).2, rfl⟩
  · dsimp only at concluded
    split at concluded
    · cases concluded
      exact .inr rfl
    · cases concluded

/-- A lookaround that holds goes on with its old registers or with those of its body. -/
theorem exists_of_lookAround {look : Look} {width : Nat} (keeps : KeepsTrail resume)
    (looked : lookAround ceilings look width position (resume address) state = .matched after) :
    after.registers = state.registers ∨ ∃ origin entered mid,
      State.registers entered = state.registers ∧ resume address origin entered = .matched mid ∧
      after.registers = mid.registers := by
  unfold lookAround at looked
  dsimp only at looked
  split at looked
  · rcases registers_of_concludeLook looked with ⟨_, same⟩ | same
    · exact .inl same
    · exact .inl (same.trans (State.restore_registers rfl))
  · rename_i far
    have trail : (descend ceilings (resume address
        (if look.isBehind then position - width else position)) state.save).Leaves
        state.save.trail := descend_leaves keeps state.save
    split at looked
    · rename_i ended called
      rw [called] at trail
      rcases registers_of_concludeLook looked with ⟨_, same⟩ | same
      · obtain ⟨_, mid, ran, _, registers⟩ := exists_of_descend called
        exact .inr ⟨_, state.save.enter, mid, rfl, ran, same.trans registers⟩
      · exact .inl (same.trans (State.restore_registers (trail ended rfl)))
    · rename_i ended called
      rw [called] at trail
      rcases registers_of_concludeLook looked with ⟨holds, _⟩ | same
      · cases holds
      · exact .inl (same.trans (State.restore_registers (trail ended rfl)))
    · cases looked

end

/-- However a run ends, it has taken back what it saved. -/
theorem run_keeps (machine : Machine) (fuel : Nat) : KeepsTrail (machine.run fuel) := by
  induction fuel with
  | zero => exact fun _ _ _ _ ended => nomatch ended
  | succ fuel ih =>
      intro address position state
      rw [run_succ]
      split
      · exact .failed rfl
      · split
        · exact fun _ ended => nomatch ended
        · split
          · exact fun _ ended => nomatch ended
          · exact perform_leaves ih _ (state.tick machine.ceilings)

/-! ## Ends of runs -/

/-- Whether a move may end its run with a match. -/
def Move.accepts : Move → Bool
  | .accept _ => true
  | .choice _ _ otherwise => otherwise.accepts
  | _ => false

theorem Move.accepts_givingBack (after shortest extra : Nat) :
    (Move.givingBack after shortest extra).accepts = false := by
  induction extra with
  | zero => rfl
  | succ extra ih => exact ih

theorem Move.accepts_takingMore (test : Nat → Bool) (after extra position : Nat) :
    (Move.takingMore test after extra position).accepts = false := by
  induction extra generalizing position with
  | zero => rfl
  | succ extra ih =>
      simp only [takingMore, accepts]
      split
      · exact ih (position + 1)
      · rfl

theorem accepts_repeatTestMove (machine : Machine) (greed : Greed) (least : Nat)
    (most : Option Nat) (test : ByteTest) (after position : Nat) :
    (machine.repeatTestMove greed least most test after position).accepts = false := by
  simp only [repeatTestMove]
  split
  · rfl
  · cases greed with
    | lazy =>
        dsimp only
        split
        · rfl
        · exact Move.accepts_takingMore _ _ _ _
    | possessive => dsimp only; split <;> rfl
    | greedy =>
        dsimp only
        split
        · rfl
        · exact Move.accepts_givingBack _ _ _

theorem accepts_move {instruction : Instruction} (machine : Machine) (next position : Nat)
    (registers : Registers) (goes : instruction ≠ .succeed ∧ instruction ≠ .subEnd) :
    (machine.move instruction next position registers).accepts = false := by
  cases instruction with
  | succeed => exact absurd rfl goes.1
  | subEnd => exact absurd rfl goes.2
  | test | text | assertion =>
      simp only [move]
      split <;> rfl
  | backReference caseless group =>
      simp only [move, repeatGroupMove]
      split
      · rfl
      · split
        · split <;> rfl
        · rfl
  | repetition greed least most =>
      simp only [move]
      split
      · exact accepts_repeatTestMove _ _ _ _ _ _ _
      · rfl
  | fail | openGroup | closeGroup | jump | branch | branchReverse | look | atomic | counterReset
  | counterIncrement | jumpLess | jumpAtLeast | jumpStuck => rfl

/-- The end of a run is that of one of the runs with which it goes on. -/
theorem exists_of_perform {ceilings : Ceilings} {resume : Resume} {move : Move}
    {state after : State} (unended : move.accepts = false)
    (performed : move.perform ceilings resume state = .matched after) :
    ∃ further ∈ move.onward ceilings resume state, ∃ last,
      resume further.address further.position further.state = .matched last ∧
      after.stop = last.stop ∧ after.registers = last.registers := by
  induction move generalizing state with
  | fault | fail => cases performed
  | accept position => cases unended
  | go | assign => exact ⟨_, List.mem_singleton_self _, after, performed, rfl, rfl⟩
  | branch first second position =>
      simp only [Move.perform] at performed
      split at performed
      · rename_i mid forked
        simp only [Move.onward, Move.calls, forked]
        exact ⟨_, List.mem_append_right _ (List.mem_singleton_self _), after, performed, rfl, rfl⟩
      · obtain ⟨called, rest⟩ := exists_of_fork performed
        exact ⟨_, List.mem_append_left _ called, rest⟩
  | choice address position otherwise ih =>
      simp only [Move.perform] at performed
      split at performed
      · rename_i mid forked
        split at performed
        · cases performed
        · rename_i running
          obtain ⟨further, called, rest⟩ := ih unended performed
          simp only [Move.onward, forked]
          refine ⟨further, List.mem_append_right _ ?_, rest⟩
          simpa only [Outcome.calls, if_neg running] using called
      · obtain ⟨called, rest⟩ := exists_of_fork performed
        exact ⟨_, List.mem_append_left _ called, rest⟩
  | atomic address target position =>
      simp only [Move.perform] at performed
      split at performed
      · rename_i mid forked
        simp only [Move.onward, forked]
        exact ⟨_, List.mem_singleton_self _, after, performed, rfl, rfl⟩
      · rename_i unmatched
        exact (unmatched after performed).elim
  | look direction width address target position =>
      simp only [Move.perform] at performed
      split at performed
      · rename_i mid looked
        simp only [Move.onward, looked]
        exact ⟨_, List.mem_singleton_self _, after, performed, rfl, rfl⟩
      · rename_i unmatched
        exact (unmatched after performed).elim

/-- A property of runs that holds where it holds of all the ways in which the first instruction goes
on. It need not hold at other addresses than these, nor of instructions that end a run. -/
structure Backward (machine : Machine) (among : Nat → Prop) (holds : Nat → Configuration → Prop) :
    Prop where
  spent : ∀ here, among here.address → holds 0 here
  step : ∀ fuel here instruction next, among here.address →
    machine.code.instruction? here.address = some (instruction, next) →
    instruction ≠ .succeed → instruction ≠ .subEnd →
    (∀ further ∈ machine.onward fuel here, holds fuel further) → holds (fuel + 1) here

/-- How a run ends is how the runs end with which it goes on. -/
theorem backward_matched (machine : Machine) (claim : Nat → Registers → Prop) :
    machine.Backward (fun _ => True) fun fuel here => ∀ after,
      machine.run fuel here.address here.position here.state = .matched after →
        claim after.stop after.registers where
  spent _ _ _ ended := nomatch ended
  step := by
    intro fuel here instruction next _ read notSucceed notSubEnd later after ended
    rw [run_succ] at ended
    split at ended
    · cases ended
    · rename_i running
      split at ended
      · cases ended
      · rename_i inside
        rw [read] at ended
        obtain ⟨further, called, last, ran, stops, registers⟩ :=
          exists_of_perform (accepts_move machine _ _ _ ⟨notSucceed, notSubEnd⟩) ended
        rw [stops, registers]
        refine later further ?_ last ran
        simp only [onward, if_neg running, if_neg inside, read]
        exact called

/-- Where an execution comes to an address first is where it comes to it from further on. -/
theorem backward_leads (machine : Machine) (stop : Nat) (claim : Nat → Prop) :
    machine.Backward (· ≠ stop) fun fuel here => ∀ last,
      machine.Leads (· ≠ stop) fuel here last → last.address = stop → claim last.position where
  spent := by
    intro here before last leads arrived
    cases leads
    exact absurd arrived before
  step := by
    intro fuel here instruction next before _ _ _ later last leads arrived
    cases leads with
    | stay => exact absurd arrived before
    | go _ called further => exact later _ called last further arrived

/-- A property holds of every run from here with so much fuel or less. -/
def Assured (holds : Nat → Configuration → Prop) (fuel address position : Nat)
    (registers : Registers) : Prop :=
  ∀ less ≤ fuel, ∀ here : Configuration, here.address = address → here.position = position →
    here.state.registers = registers → holds less here

/-- A property holds wherever this move goes on. -/
def Assures (machine : Machine) (holds : Nat → Configuration → Prop) (fuel : Nat) (move : Move)
    (registers : Registers) : Prop :=
  ∀ state : State, state.registers = registers →
    ∀ further ∈ move.onward machine.ceilings (machine.run fuel) state, holds fuel further

variable {machine : Machine} {among : Nat → Prop} {holds : Nat → Configuration → Prop}
  {fuel address target position : Nat} {registers : Registers}

theorem Assured.mono (assured : Assured holds fuel address position registers) {less : Nat}
    (fewer : less ≤ fuel) : Assured holds less address position registers :=
  fun least within => assured least (Nat.le_trans within fewer)

/-- One instruction. -/
theorem Assured.of_move {instruction : Instruction} {next : Nat}
    (backward : machine.Backward among holds) (inside : among address)
    (read : machine.code.instruction? address = some (instruction, next))
    (goes : instruction ≠ .succeed ∧ instruction ≠ .subEnd)
    (assures : ∀ less < fuel,
      machine.Assures holds less (machine.move instruction next position registers) registers) :
    Assured holds fuel address position registers := by
  rintro (_ | less) fits here rfl rfl rfl
  · exact backward.spent here inside
  · refine backward.step less here instruction next inside read goes.1 goes.2 fun further called => ?_
    unfold onward at called
    dsimp only at called
    split at called
    · cases called
    · split at called
      · cases called
      · rw [read] at called
        exact assures less fits (here.state.tick machine.ceilings) rfl further called

theorem eq_of_mem_descendCalls {ceilings : Ceilings} {state : State} {call : Configuration}
    (called : call ∈ descendCalls ceilings address position state) :
    call = ⟨address, position, state.enter⟩ := by
  unfold descendCalls at called
  split at called
  · cases called
  · split at called
    · cases called
    · exact List.mem_singleton.mp called

namespace Assures

theorem fault (reason : Fault) : machine.Assures holds fuel (.fault reason) registers :=
  fun _ _ _ called => nomatch called

theorem fail : machine.Assures holds fuel .fail registers := fun _ _ _ called => nomatch called

theorem go (assured : Assured holds fuel address position registers) :
    machine.Assures holds fuel (.go address position) registers := by
  intro state same further called
  rw [List.mem_singleton.mp called]
  exact assured fuel (Nat.le_refl _) _ rfl rfl same

theorem assign {assigned : Registers} (assured : Assured holds fuel address position assigned) :
    machine.Assures holds fuel (.assign assigned address position) registers := by
  intro state same further called
  rw [List.mem_singleton.mp called]
  exact assured fuel (Nat.le_refl _) _ rfl rfl rfl

/-- What is tried first keeps the registers, and so does its failure. -/
theorem tried {first : Nat} {later : State → List Configuration}
    (assured : Assured holds fuel first position registers) {state : State}
    (same : state.registers = registers)
    (failing : ∀ mid : State, mid.registers = registers → ∀ further ∈ later mid, holds fuel further) :
    ∀ further ∈ descendCalls machine.ceilings first position state.save ++
      (fork machine.ceilings (machine.run fuel first position) state).calls (fun _ => []) later,
      holds fuel further := by
  intro further called
  rcases List.mem_append.mp called with now | afterwards
  · rw [eq_of_mem_descendCalls now]
    exact assured fuel (Nat.le_refl _) _ rfl rfl same
  · cases forked : fork machine.ceilings (machine.run fuel first position) state with
    | matched mid =>
        rw [forked] at afterwards
        cases afterwards
    | failed mid =>
        rw [forked] at afterwards
        exact failing mid ((registers_of_fork (machine.run_keeps fuel) forked).trans same) further
          afterwards
    | fault reason =>
        rw [forked] at afterwards
        cases afterwards

theorem branch {first second : Nat} (former : Assured holds fuel first position registers)
    (latter : Assured holds fuel second position registers) :
    machine.Assures holds fuel (.branch first second position) registers := by
  intro state same
  refine tried former same fun mid kept further called => ?_
  rw [List.mem_singleton.mp called]
  exact latter fuel (Nat.le_refl _) _ rfl rfl kept

theorem choice {otherwise : Move} (former : Assured holds fuel address position registers)
    (latter : machine.Assures holds fuel otherwise registers) :
    machine.Assures holds fuel (.choice address position otherwise) registers := by
  intro state same
  refine tried former same fun mid kept further called => ?_
  split at called
  · cases called
  · exact latter mid kept further called

/-- An atomic group goes on from where a run of its body stops. -/
theorem atomic
    (later : ∀ entered after : State, entered.registers = registers →
      machine.run fuel address position entered = .matched after →
      Assured holds fuel target after.stop after.registers) :
    machine.Assures holds fuel (.atomic address target position) registers := by
  intro state same further called
  simp only [Move.onward] at called
  cases forked : fork machine.ceilings (machine.run fuel address position) state with
  | matched mid =>
      rw [forked] at called
      obtain ⟨_, after, ran, stops, found⟩ := exists_of_fork forked
      have assured := later state.save.enter after same ran fuel (Nat.le_refl _)
      rw [List.mem_singleton.mp called]
      exact assured _ rfl stops found
  | failed mid =>
      rw [forked] at called
      cases called
  | fault reason =>
      rw [forked] at called
      cases called

/-- A lookaround goes on where it is, with its registers or those of a run of its body. -/
theorem look {direction : Look} {width : Nat}
    (stays : Assured holds fuel target position registers)
    (later : ∀ origin, ∀ entered after : State, entered.registers = registers →
      machine.run fuel address origin entered = .matched after →
      Assured holds fuel target position after.registers) :
    machine.Assures holds fuel (.look direction width address target position) registers := by
  intro state same further called
  simp only [Move.onward] at called
  cases looked : lookAround machine.ceilings direction width position (machine.run fuel address)
      state with
  | matched mid =>
      rw [looked] at called
      rw [List.mem_singleton.mp called]
      rcases exists_of_lookAround (machine.run_keeps fuel) looked with kept | held
      · exact stays fuel (Nat.le_refl _) _ rfl rfl (kept.trans same)
      · obtain ⟨origin, entered, after, kept, ran, found⟩ := held
        exact later origin entered after (kept.trans same) ran fuel (Nat.le_refl _) _ rfl rfl found
  | failed mid =>
      rw [looked] at called
      cases called
  | fault reason =>
      rw [looked] at called
      cases called

theorem givingBack {after shortest extra : Nat}
    (assured : ∀ more ≤ extra, Assured holds fuel after (shortest + more) registers) :
    machine.Assures holds fuel (.givingBack after shortest extra) registers := by
  induction extra with
  | zero => exact .go (assured 0 (Nat.le_refl _))
  | succ extra ih =>
      refine .choice (assured (extra + 1) (Nat.le_refl _)) (ih fun more fits => ?_)
      exact assured more (Nat.le_succ_of_le fits)

theorem takingMore {test : Nat → Bool} {after extra : Nat}
    (assured : ∀ more ≤ extra, Assured holds fuel after (position + more) registers) :
    machine.Assures holds fuel (.takingMore test after extra position) registers := by
  induction extra generalizing position with
  | zero => exact .choice (assured 0 (Nat.le_refl _)) .fail
  | succ extra ih =>
      refine .choice (assured 0 (Nat.zero_le _)) ?_
      split
      · refine ih fun more fits => ?_
        have later := assured (more + 1) (Nat.succ_le_succ fits)
        rwa [Nat.add_comm more, ← Nat.add_assoc] at later
      · exact .fail

/-- A repeated test takes as many bytes as its bounds allow. -/
theorem repeatTest {greed : Greed} {least : Nat} {most : Option Nat} {test : ByteTest} {after : Nat}
    (assured : ∀ taken, least ≤ taken → (∀ limit ∈ most, taken ≤ limit) →
      Assured holds fuel after (position + taken) registers) :
    machine.Assures holds fuel (machine.repeatTestMove greed least most test after position)
      registers := by
  simp only [repeatTestMove]
  generalize machine.subject.size - position = room
  have limited : ∀ limit ∈ most, most.elim room (min · room) ≤ limit := by
    rintro limit ⟨⟩
    exact Nat.min_le_left _ _
  generalize most.elim room (min · room) = limit at limited
  have counted := countWhile_le (test.holdsAt machine.subject) limit position
  generalize countWhile (test.holdsAt machine.subject) limit position 0 = count at counted
  have allowed : ∀ taken, least ≤ taken → taken ≤ limit →
      Assured holds fuel after (position + taken) registers := fun taken enough few =>
    assured taken enough fun most bound => Nat.le_trans few (limited most bound)
  split
  · exact .fail
  · cases greed with
    | lazy =>
        dsimp only
        split
        · exact .fail
        · refine .takingMore fun more fits => ?_
          rw [Nat.add_assoc]
          exact allowed _ (Nat.le_add_right _ _) (by omega)
    | possessive =>
        dsimp only
        split
        · exact .fail
        · rename_i enough
          exact .go (allowed count (Nat.not_lt.mp enough) counted)
    | greedy =>
        dsimp only
        split
        · exact .fail
        · refine .givingBack fun more fits => ?_
          rw [Nat.add_assoc]
          exact allowed _ (Nat.le_add_right _ _) (by omega)

end Assures

end ByteRegex.Machine
