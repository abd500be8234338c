import ByteRegex.Proofs.Machine.Trace

/-!
# Balance

Alternatives, atomic groups and lookarounds are tried in a nested call, with the registers saved on
the trail before it. Whichever way such a trial ends, the trail and the depth are what they were at
its start, and if it fails or denies, so are the registers. So wherever a run stands, the trail has
one entry for each call in progress.
-/

namespace ByteRegex.Machine

/-- What a trial is made for. -/
inductive Trial.Kind where
  | alternative
  | atomic
  | look (look : Look)

/-- A nested call that can be undone. -/
structure Trial where
  kind : Trial.Kind
  before : State
  outcome : Outcome

/-- The trials of a move, in their order. -/
def Move.trials (ceilings : Ceilings) (resume : Resume) : Move → State → List Trial
  | .fault _, _ | .fail, _ | .accept _, _ | .go _ _, _ | .assign _ _ _, _ => []
  | .branch first _ position, state =>
      [⟨.alternative, state, fork ceilings (resume first position) state⟩]
  | .choice address position otherwise, state =>
      ⟨.alternative, state, fork ceilings (resume address position) state⟩ ::
        match fork ceilings (resume address position) state with
        | .failed state => if state.halted then [] else otherwise.trials ceilings resume state
        | _ => []
  | .atomic address _ position, state =>
      [⟨.atomic, state, fork ceilings (resume address position) state⟩]
  | .look direction width address _ position, state =>
      [⟨.look direction, state,
        lookAround ceilings direction width position (resume address) state⟩]

/-- The move that is made at a configuration, if an instruction is executed there. -/
def move? (machine : Machine) (here : Configuration) : Option Move :=
  if here.state.halted then none
  else if machine.subject.size < here.position then none
  else
    (machine.code.instruction? here.address).map fun (instruction, next) =>
      machine.move instruction next here.position here.state.registers

/-- The trials of a run. -/
def trials (machine : Machine) : Nat → Configuration → List Trial
  | 0, _ => []
  | fuel + 1, here =>
      let counted := { here with state := here.state.tick machine.ceilings }
      (machine.move? counted).elim [] (·.trials machine.ceilings (machine.run fuel) counted.state) ++
        (machine.calls fuel counted).flatMap (machine.trials fuel)

section Level

/-- The end of a run that leaves the trail and the depth as they were in a state before. -/
def Outcome.Level (state : State) (outcome : Outcome) : Prop :=
  ∀ after, outcome.state? = some after → after.trail = state.trail ∧ after.depth = state.depth

/-- The end of a run that leaves the registers as they were as well, at least if it fails. -/
def Outcome.Undoes (state : State) (outcome : Outcome) : Prop :=
  ∀ after, outcome = .failed after → after.registers = state.registers

variable {ceilings : Ceilings} {state : State} {outcome : Outcome}

/-- Two runs in a row end only if the first one does, and then where the second one ends. -/
theorem Outcome.exists_of_andThen {onMatch onFailure : State → Outcome} {after : State}
    (ended : (outcome.andThen onMatch onFailure).state? = some after) :
    ∃ mid, outcome.state? = some mid ∧
      ((onMatch mid).state? = some after ∨ (onFailure mid).state? = some after) := by
  cases outcome with
  | matched mid => exact ⟨mid, rfl, .inl ended⟩
  | failed mid => exact ⟨mid, rfl, .inr ended⟩
  | fault reason => cases ended

theorem Outcome.Level.andThen {onMatch onFailure : State → Outcome} (level : outcome.Level state)
    (matching : ∀ mid, (onMatch mid).Level mid) (failing : ∀ mid, (onFailure mid).Level mid) :
    (outcome.andThen onMatch onFailure).Level state := by
  intro after ended
  obtain ⟨mid, reached, later⟩ := Outcome.exists_of_andThen ended
  obtain ⟨trail, depth⟩ := level mid reached
  obtain ⟨laterTrail, laterDepth⟩ := later.elim (matching mid after) (failing mid after)
  exact ⟨laterTrail.trans trail, laterDepth.trans depth⟩

theorem Outcome.Level.matched (state : State) : (Outcome.matched state).Level state :=
  fun _ ended => Option.some.inj ended ▸ ⟨rfl, rfl⟩

theorem Outcome.Level.failed (state : State) : (Outcome.failed state).Level state :=
  fun _ ended => Option.some.inj ended ▸ ⟨rfl, rfl⟩

/-- A nested call counts itself in the depth only while it lasts. -/
theorem descend_level {call : State → Outcome} (level : ∀ state, (call state).Level state)
    (state : State) : (descend ceilings call state).Level state := by
  by_cases halted : state.halted = true
  · rw [descend, if_pos halted]
    exact .failed state
  · by_cases deep : ceilings.depth.any (· ≤ state.depth) = true
    · rw [descend, if_neg halted, if_pos deep]
      exact Outcome.Level.failed state.halt
    · rw [descend_eq_andThen _ _ (Bool.not_eq_true _ ▸ halted) deep]
      intro after ended
      obtain ⟨mid, reached, left⟩ := Outcome.exists_of_andThen ended
      obtain ⟨trail, depth⟩ := level state.enter mid reached
      rcases left with left | left <;> cases left <;> exact ⟨trail, congrArg (· - 1) depth⟩

theorem State.restore_of_trail {saved : Registers} {trail : List Registers}
    (same : state.trail = saved :: trail) :
    state.restore = { state with registers := saved, trail } := by
  rw [State.restore, same]

/-- The registers that were saved are taken from the trail again, and put back on failure. -/
theorem fork_level {call : State → Outcome} (level : ∀ state, (call state).Level state)
    (state : State) :
    (fork ceilings call state).Level state ∧ (fork ceilings call state).Undoes state := by
  have inner : (descend ceilings call state.save).Level state.save := descend_level level state.save
  rw [fork_eq_andThen]
  cases called : descend ceilings call state.save with
  | matched mid =>
      obtain ⟨trail, depth⟩ := inner mid (by rw [called]; rfl)
      refine ⟨fun after ended => ?_, fun after failed => nomatch failed⟩
      cases ended
      exact ⟨congrArg List.tail trail, depth⟩
  | failed mid =>
      obtain ⟨trail, depth⟩ := inner mid (by rw [called]; rfl)
      have restored := State.restore_of_trail trail
      refine ⟨fun after ended => ?_, fun after failed => ?_⟩
      · cases ended
        rw [restored]
        exact ⟨rfl, depth⟩
      · cases failed
        rw [restored]
  | fault reason => exact ⟨fun _ ended => (by cases ended), fun _ failed => (by cases failed)⟩

/-- What a lookaround has done when its body, tried with the registers saved, is over. -/
theorem concludeLook_level {look : Look} {held : Bool} {saved : Registers}
    {trail : List Registers} (same : state.trail = saved :: trail) :
    ∀ after, (concludeLook look held state).state? = some after →
      after.trail = trail ∧ after.depth = state.depth ∧
        (concludeLook look held state = .failed after ∨ look.isPositive = false →
          after.registers = saved) := by
  intro after ended
  unfold concludeLook at ended ⊢
  by_cases holds : (look.isPositive && held) = true
  · rw [if_pos holds] at ended ⊢
    cases ended
    have positive := (Bool.and_eq_true_iff.mp holds).1
    refine ⟨congrArg List.tail same, rfl, fun denied => ?_⟩
    rcases denied with failed | negative
    · cases failed
    · cases positive.symm.trans negative
  · rw [if_neg holds, State.restore_of_trail same] at ended
    dsimp only at ended
    split at ended <;> cases ended <;> exact ⟨rfl, rfl, fun _ => rfl⟩

theorem lookAround_level (look : Look) (width position : Nat) {call : Nat → State → Outcome}
    (level : ∀ origin state, (call origin state).Level state) (state : State) :
    ∀ after, (lookAround ceilings look width position call state).state? = some after →
      after.trail = state.trail ∧ after.depth = state.depth ∧
        (lookAround ceilings look width position call state = .failed after ∨
          look.isPositive = false → after.registers = state.registers) := by
  intro after
  rw [lookAround_eq_andThen]
  split
  · have saved : state.save.trail = state.registers :: state.trail := rfl
    exact concludeLook_level saved after
  · generalize (if look.isBehind then position - width else position) = origin
    have inner : (descend ceilings (call origin) state.save).Level state.save :=
      descend_level (level origin) state.save
    intro ended
    cases called : descend ceilings (call origin) state.save with
    | matched mid =>
        obtain ⟨trail, depth⟩ := inner mid (by rw [called]; rfl)
        rw [called] at ended
        obtain ⟨whole, kept, undone⟩ := concludeLook_level trail after ended
        exact ⟨whole, kept.trans depth, undone⟩
    | failed mid =>
        obtain ⟨trail, depth⟩ := inner mid (by rw [called]; rfl)
        rw [called] at ended
        obtain ⟨whole, kept, undone⟩ := concludeLook_level trail after ended
        exact ⟨whole, kept.trans depth, undone⟩
    | fault reason =>
        rw [called] at ended
        cases ended

theorem level_of_lookAround (look : Look) (width position : Nat) {call : Nat → State → Outcome}
    (level : ∀ origin state, (call origin state).Level state) (state : State) :
    (lookAround ceilings look width position call state).Level state := by
  intro after ended
  obtain ⟨trail, depth, _⟩ := lookAround_level look width position level state after ended
  exact ⟨trail, depth⟩

theorem perform_level {resume : Resume}
    (level : ∀ address position state, (resume address position state).Level state) (move : Move)
    (state : State) : (move.perform ceilings resume state).Level state := by
  induction move generalizing state with
  | fault reason => exact fun after ended => nomatch ended
  | fail => exact .failed state
  | accept position => exact Outcome.Level.matched (state.setStop position)
  | go address position => exact level address position state
  | assign registers address position => exact level address position (state.setRegisters registers)
  | branch first second position =>
      rw [perform_branch]
      exact (fork_level (level first position) state).1.andThen .matched (level second position)
  | choice address position otherwise ih =>
      rw [perform_choice]
      refine (fork_level (level address position) state).1.andThen .matched fun mid => ?_
      split
      · exact .failed mid
      · exact ih mid
  | atomic address target position =>
      rw [perform_atomic]
      exact (fork_level (level address position) state).1.andThen
        (fun mid => level target mid.stop mid) .failed
  | look direction width address target position =>
      rw [perform_look]
      exact (level_of_lookAround direction width position (level address) state).andThen
        (level target position) .failed

/-- A run returns with the trail and the depth that it was called with. -/
theorem run_level (machine : Machine) (fuel address position : Nat) (state : State) :
    (machine.run fuel address position state).Level state := by
  induction fuel generalizing address position state with
  | zero => exact fun after ended => nomatch ended
  | succ fuel ih =>
      rw [run_succ]
      split
      · exact Outcome.Level.failed (state.tick machine.ceilings)
      · split
        · exact fun after ended => nomatch ended
        · split
          · exact fun after ended => nomatch ended
          · exact perform_level ih _ (state.tick machine.ceilings)

end Level

section Trials

variable {ceilings : Ceilings} {resume : Resume} {state : State}

/-- A trial that gives the trail and the depth back, and the registers too unless it was in favour
of what its call has written. -/
def Trial.Balanced (trial : Trial) : Prop :=
  ∀ after, trial.outcome.state? = some after →
    after.trail = trial.before.trail ∧ after.depth = trial.before.depth ∧
      ((trial.outcome = .failed after ∨
          ∃ look, trial.kind = .look look ∧ look.isPositive = false) →
        after.registers = trial.before.registers)

theorem balanced_of_fork (kind : Trial.Kind) (plain : ∀ look, kind ≠ .look look)
    {call : State → Outcome} (level : ∀ state, (call state).Level state) (state : State) :
    Trial.Balanced ⟨kind, state, fork ceilings call state⟩ := by
  have ⟨whole, undoes⟩ := @fork_level ceilings call level state
  intro after ended
  obtain ⟨trail, depth⟩ := whole after ended
  refine ⟨trail, depth, fun undone => ?_⟩
  rcases undone with failed | ⟨look, same, _⟩
  · exact undoes after failed
  · exact absurd same (plain look)

theorem Move.trials_balanced
    (level : ∀ address position state, (resume address position state).Level state) (move : Move)
    (state : State) : ∀ trial ∈ move.trials ceilings resume state, trial.Balanced := by
  induction move generalizing state with
  | fault | fail | accept | go | assign => exact fun trial member => nomatch member
  | branch first second position =>
      intro trial member
      rw [List.mem_singleton.mp member]
      exact balanced_of_fork .alternative nofun (level first position) state
  | choice address position otherwise ih =>
      intro trial member
      rcases List.mem_cons.mp member with same | later
      · rw [same]
        exact balanced_of_fork .alternative nofun (level address position) state
      · split at later
        · split at later
          · cases later
          · exact ih _ trial later
        · cases later
  | atomic address target position =>
      intro trial member
      rw [List.mem_singleton.mp member]
      exact balanced_of_fork .atomic nofun (level address position) state
  | look direction width address target position =>
      intro trial member
      rw [List.mem_singleton.mp member]
      intro after ended
      obtain ⟨trail, depth, undone⟩ :=
        lookAround_level direction width position (level address) state after ended
      refine ⟨trail, depth, fun denied => undone ?_⟩
      rcases denied with failed | ⟨look, same, negative⟩
      · exact .inl failed
      · cases same
        exact .inr negative

theorem Outcome.ended_of_andThen {outcome : Outcome} {onMatch onFailure : State → Outcome}
    {after : State} (ended : (outcome.andThen onMatch onFailure).state? = some after) :
    ∃ last, outcome.state? = some last :=
  (Outcome.exists_of_andThen ended).imp fun _ reached => reached.1

/-- A move ends only if its trials do. -/
theorem Move.trials_end {move : Move} {after : State}
    (ended : (move.perform ceilings resume state).state? = some after) :
    ∀ trial ∈ move.trials ceilings resume state, ∃ last, trial.outcome.state? = some last := by
  induction move generalizing state with
  | fault | fail | accept | go | assign => exact fun trial member => nomatch member
  | branch first second position =>
      intro trial member
      rw [List.mem_singleton.mp member]
      rw [perform_branch] at ended
      exact Outcome.ended_of_andThen ended
  | choice address position otherwise ih =>
      intro trial member
      rw [perform_choice] at ended
      rcases List.mem_cons.mp member with same | later
      · rw [same]
        exact Outcome.ended_of_andThen ended
      · revert later
        cases tried : fork ceilings (resume address position) state with
        | matched mid => exact fun later => nomatch later
        | fault reason => exact fun later => nomatch later
        | failed mid =>
            intro later
            rw [tried] at ended
            dsimp only [Outcome.andThen] at ended later
            split at later
            · cases later
            · rename_i running
              rw [if_neg running] at ended
              exact ih ended trial later
  | atomic address target position =>
      intro trial member
      rw [List.mem_singleton.mp member]
      rw [perform_atomic] at ended
      exact Outcome.ended_of_andThen ended
  | look direction width address target position =>
      intro trial member
      rw [List.mem_singleton.mp member]
      rw [perform_look] at ended
      exact Outcome.ended_of_andThen ended

variable {machine : Machine}

theorem calls_eq_of_move? {fuel : Nat} {here : Configuration} :
    machine.calls fuel here =
      (machine.move? here).elim [] (·.calls machine.ceilings (machine.run fuel) here.state) := by
  unfold calls move?
  split
  · rfl
  · split
    · rfl
    · cases machine.code.instruction? here.address <;> rfl

/-- A run makes the move at its first configuration. -/
theorem run_eq_of_move? {fuel : Nat} {here : Configuration} {move : Move}
    (moves : machine.move? { here with state := here.state.tick machine.ceilings } = some move) :
    machine.run (fuel + 1) here.address here.position here.state =
      move.perform machine.ceilings (machine.run fuel) (here.state.tick machine.ceilings) := by
  unfold move? at moves
  rw [run_succ]
  split at moves
  · cases moves
  · rename_i running
    rw [if_neg running]
    split at moves
    · cases moves
    · rename_i inside
      rw [if_neg inside]
      obtain ⟨⟨instruction, next⟩, found, same⟩ := Option.map_eq_some_iff.mp moves
      rw [found, ← same]
      rfl

/-- The trials of a run are those of its moves. -/
theorem forall_mem_trials (property : Trial → Prop) (machine : Machine) (fuel : Nat)
    (start : Configuration) (here : ∀ fuel (move : Move) (state : State), ∀ trial ∈
      move.trials machine.ceilings (machine.run fuel) state, property trial) :
    ∀ trial ∈ machine.trials fuel start, property trial := by
  induction fuel generalizing start with
  | zero => exact fun trial member => nomatch member
  | succ fuel ih =>
      intro trial member
      rcases List.mem_append.mp member with now | later
      · cases moves : machine.move? { start with state := start.state.tick machine.ceilings } with
        | none =>
            rw [moves] at now
            cases now
        | some move =>
            rw [moves] at now
            exact here fuel move _ trial now
      · obtain ⟨call, called, further⟩ := List.mem_flatMap.mp later
        exact ih call trial further

theorem trials_balanced (machine : Machine) (fuel : Nat) (start : Configuration) :
    ∀ trial ∈ machine.trials fuel start, trial.Balanced :=
  forall_mem_trials Trial.Balanced machine fuel start fun fuel move state =>
    move.trials_balanced (run_level machine fuel) state

/-- A run ends only if all its trials do. -/
theorem trials_end (machine : Machine) (fuel : Nat) (start : Configuration) {after : State}
    (ended : (machine.run fuel start.address start.position start.state).state? = some after) :
    ∀ trial ∈ machine.trials fuel start, ∃ last, trial.outcome.state? = some last := by
  induction fuel generalizing start after with
  | zero => cases ended
  | succ fuel ih =>
      intro trial member
      simp only [trials, calls_eq_of_move?] at member
      cases moves : machine.move? { start with state := start.state.tick machine.ceilings } with
      | none =>
          rw [moves] at member
          cases member
      | some move =>
          rw [run_eq_of_move? moves] at ended
          rw [moves] at member
          rcases List.mem_append.mp member with now | later
          · exact Move.trials_end ended trial now
          · obtain ⟨call, called, further⟩ := List.mem_flatMap.mp later
            obtain ⟨last, ends⟩ :=
              (perform_accounts (run_counts machine fuel) _ _ after ended).2 call called
            exact ih call ends trial further

end Trials

section Depth

variable {ceilings : Ceilings} {resume : Resume} {state : State}

/-- A state with one copy of the registers saved for each call in progress, and with no more calls
in progress than are allowed. -/
structure State.Balanced (ceilings : Ceilings) (state : State) : Prop where
  saved : state.trail.length = state.depth
  allowed : ∀ limit ∈ ceilings.depth, state.depth ≤ limit

theorem State.Balanced.of_same {after : State} (balanced : state.Balanced ceilings)
    (trail : after.trail = state.trail) (depth : after.depth = state.depth) :
    after.Balanced ceilings where
  saved := by rw [trail, depth, balanced.saved]
  allowed limit given := depth ▸ balanced.allowed limit given

theorem descendCalls_balanced (balanced : state.Balanced ceilings) (address position : Nat) :
    ∀ call ∈ descendCalls ceilings address position state.save, call.state.Balanced ceilings := by
  intro call called
  unfold descendCalls at called
  split at called
  · cases called
  · split at called
    · cases called
    · rename_i shallow
      rw [List.mem_singleton.mp called]
      refine ⟨congrArg (· + 1) balanced.saved, fun limit given => ?_⟩
      have room : ¬ limit ≤ state.depth := fun reached =>
        shallow ((Option.any_eq_true _ _).mpr ⟨limit, given, decide_eq_true reached⟩)
      exact Nat.lt_of_not_le room

theorem Outcome.Level.mem_calls {outcome : Outcome} {onMatch onFailure : State → List Configuration}
    (level : outcome.Level state) (balanced : state.Balanced ceilings)
    (matched : ∀ mid : State, mid.Balanced ceilings → ∀ call ∈ onMatch mid,
      call.state.Balanced ceilings)
    (failed : ∀ mid : State, mid.Balanced ceilings → ∀ call ∈ onFailure mid,
      call.state.Balanced ceilings) :
    ∀ call ∈ outcome.calls onMatch onFailure, call.state.Balanced ceilings := by
  intro call called
  cases outcome with
  | matched mid =>
      obtain ⟨trail, depth⟩ := level mid rfl
      exact matched mid (balanced.of_same trail depth) call called
  | failed mid =>
      obtain ⟨trail, depth⟩ := level mid rfl
      exact failed mid (balanced.of_same trail depth) call called
  | fault reason => cases called

/-- A move goes on only with the trail as long as the depth. -/
theorem Move.calls_balanced
    (level : ∀ address position state, (resume address position state).Level state) (move : Move)
    {state : State} (balanced : state.Balanced ceilings) :
    ∀ call ∈ move.calls ceilings resume state, call.state.Balanced ceilings := by
  have none : ∀ mid : State, mid.Balanced ceilings → ∀ call ∈ ([] : List Configuration),
      call.state.Balanced ceilings := fun mid _ call stuck => nomatch stuck
  have goes (address position : Nat) : ∀ mid : State, mid.Balanced ceilings →
      ∀ call ∈ [(⟨address, position, mid⟩ : Configuration)], call.state.Balanced ceilings := by
    intro mid kept call called
    rw [List.mem_singleton.mp called]
    exact kept
  induction move generalizing state with
  | fault | fail | accept => exact fun call called => nomatch called
  | go address position => exact goes address position state balanced
  | assign registers address position =>
      exact goes address position (state.setRegisters registers) (balanced.of_same rfl rfl)
  | branch first second position =>
      refine fun call called => (List.mem_append.mp called).elim ?_ ?_
      · exact descendCalls_balanced balanced first position call
      · exact (fork_level (level first position) state).1.mem_calls balanced none
          (goes second position) call
  | choice address position otherwise ih =>
      refine fun call called => (List.mem_append.mp called).elim ?_ ?_
      · exact descendCalls_balanced balanced address position call
      · refine (fork_level (level address position) state).1.mem_calls balanced none ?_ call
        intro mid kept call called
        split at called
        · cases called
        · exact ih kept call called
  | atomic address target position =>
      refine fun call called => (List.mem_append.mp called).elim ?_ ?_
      · exact descendCalls_balanced balanced address position call
      · exact (fork_level (level address position) state).1.mem_calls balanced
          (fun mid => goes target mid.stop mid) none call
  | look direction width address target position =>
      refine fun call called => (List.mem_append.mp called).elim (fun tried => ?_) ?_
      · split at tried
        · cases tried
        · exact descendCalls_balanced balanced address _ call tried
      · exact (level_of_lookAround direction width position (level address) state).mem_calls balanced
          (goes target position) none call

/-- Wherever a run stands, it has saved the registers once for each call in progress. -/
theorem trace_balanced (machine : Machine) (fuel : Nat) {start : Configuration}
    (balanced : start.state.Balanced machine.ceilings) :
    ∀ here ∈ machine.trace fuel start, here.state.Balanced machine.ceilings := by
  induction fuel generalizing start with
  | zero => exact fun here member => nomatch member
  | succ fuel ih =>
      have counted : (start.state.tick machine.ceilings).Balanced machine.ceilings :=
        balanced.of_same rfl rfl
      intro here member
      simp only [trace, calls_eq_of_move?] at member
      rcases List.mem_cons.mp member with same | later
      · rw [same]
        exact counted
      · obtain ⟨call, called, visited⟩ := List.mem_flatMap.mp later
        refine ih ?_ here visited
        cases moves : machine.move? { start with state := start.state.tick machine.ceilings } with
        | none =>
            rw [moves] at called
            cases called
        | some move =>
            rw [moves] at called
            exact move.calls_balanced (run_level machine fuel) counted call called

end Depth

end ByteRegex.Machine
