import ByteRegex.Proofs.Machine.Ceilings

/-!
# Traces

Where a run has been. A move goes on by calling the run again, once for each alternative that it
tries; the calls of the moves, taken in order, are the trace of a run. It has one entry for each
instruction that is counted, so nothing is executed that is not in it. A run that ends without a
fault has met none on its way.
-/

namespace ByteRegex.Machine

/-- Where a run stands: at the address of an instruction and at a position in the subject. -/
structure Configuration where
  address : Nat
  position : Nat
  state : State

/-- The continuation that an outcome leads to, if any. -/
def Outcome.calls (outcome : Outcome) (onMatch onFailure : State → List Configuration) :
    List Configuration :=
  match outcome with
  | .matched state => onMatch state
  | .failed state => onFailure state
  | .fault _ => []

/-- The call that `descend` makes, unless the search is halted or the call is one too deep. -/
def descendCalls (ceilings : Ceilings) (address position : Nat) (state : State) :
    List Configuration :=
  if state.halted then []
  else if ceilings.depth.any (· ≤ state.depth) then []
  else [⟨address, position, state.enter⟩]

/-- The calls of a move, in their order. -/
def Move.calls (ceilings : Ceilings) (resume : Resume) : Move → State → List Configuration
  | .fault _, _ | .fail, _ | .accept _, _ => []
  | .go address position, state => [⟨address, position, state⟩]
  | .assign registers address position, state =>
      [⟨address, position, state.setRegisters registers⟩]
  | .branch first second position, state =>
      descendCalls ceilings first position state.save ++
        (fork ceilings (resume first position) state).calls (fun _ => [])
          (fun state => [⟨second, position, state⟩])
  | .choice address position otherwise, state =>
      descendCalls ceilings address position state.save ++
        (fork ceilings (resume address position) state).calls (fun _ => [])
          (fun state => if state.halted then [] else otherwise.calls ceilings resume state)
  | .atomic address target position, state =>
      descendCalls ceilings address position state.save ++
        (fork ceilings (resume address position) state).calls
          (fun state => [⟨target, state.stop, state⟩]) (fun _ => [])
  | .look direction width address target position, state =>
      (if direction.isBehind && position < width then []
        else
          descendCalls ceilings address
            (if direction.isBehind then position - width else position) state.save) ++
        (lookAround ceilings direction width position (resume address) state).calls
          (fun state => [⟨target, position, state⟩]) (fun _ => [])

/-- The calls that the instruction at a configuration makes. A halted search executes nothing. -/
def calls (machine : Machine) (fuel : Nat) (here : Configuration) : List Configuration :=
  if here.state.halted then []
  else if machine.subject.size < here.position then []
  else
    match machine.code.instruction? here.address with
    | none => []
    | some (instruction, next) =>
        (machine.move instruction next here.position here.state.registers).calls machine.ceilings
          (machine.run fuel) here.state

/-- The configurations of a run, each as it is when its instruction has been counted. -/
def trace (machine : Machine) : Nat → Configuration → List Configuration
  | 0, _ => []
  | fuel + 1, here =>
      let counted := { here with state := here.state.tick machine.ceilings }
      counted :: (machine.calls fuel counted).flatMap (machine.trace fuel)

section Accounts

variable {ceilings : Ceilings} {resume : Resume} {visits : Configuration → List Configuration}
  {outcome : Outcome} {state : State}

/-- What calls account for in an outcome that is no fault: between them they count the instructions
since a state, and none of them faults. -/
def Accounts (resume : Resume) (visits : Configuration → List Configuration) (outcome : Outcome)
    (state : State) (calls : List Configuration) : Prop :=
  ∀ after, outcome.state? = some after →
    after.steps = state.steps + (calls.flatMap visits).length ∧
      ∀ call ∈ calls, ∃ last, (resume call.address call.position call.state).state? = some last

/-- Calls that count as many instructions as their own visits. -/
def Counts (resume : Resume) (visits : Configuration → List Configuration) : Prop :=
  ∀ call after, (resume call.address call.position call.state).state? = some after →
    after.steps = call.state.steps + (visits call).length

theorem Accounts.of_still
    (still : ∀ after, outcome.state? = some after → after.steps = state.steps) :
    Accounts resume visits outcome state [] :=
  fun after ended => ⟨still after ended, nofun⟩

theorem Accounts.from_twin (twin : State) {calls : List Configuration}
    (accounts : Accounts resume visits outcome twin calls) (steps : twin.steps = state.steps) :
    Accounts resume visits outcome state calls :=
  fun after ended => steps ▸ accounts after ended

theorem Accounts.single (counts : Counts resume visits) (call : Configuration) :
    Accounts resume visits (resume call.address call.position call.state) call.state [call] := by
  intro after ended
  rw [List.flatMap_singleton]
  refine ⟨counts call after ended, fun other member => ⟨after, ?_⟩⟩
  rw [List.mem_singleton.mp member]
  exact ended

theorem Accounts.append {first second : List Configuration} {mid : State} {later : Outcome}
    (former : Accounts resume visits outcome state first) (reached : outcome.state? = some mid)
    (latter : Accounts resume visits later mid second) :
    Accounts resume visits later state (first ++ second) := by
  intro after ended
  obtain ⟨sofar, firstEnds⟩ := former mid reached
  obtain ⟨rest, secondEnds⟩ := latter after ended
  refine ⟨?_, fun call member => ?_⟩
  · rw [List.flatMap_append, List.length_append, rest, sofar, Nat.add_assoc]
  · rcases List.mem_append.mp member with here | there
    · exact firstEnds call here
    · exact secondEnds call there

theorem Accounts.andThen {onMatch onFailure : State → Outcome} {first : List Configuration}
    {matched failed : State → List Configuration}
    (accounts : Accounts resume visits outcome state first)
    (matching : ∀ mid, Accounts resume visits (onMatch mid) mid (matched mid))
    (failing : ∀ mid, Accounts resume visits (onFailure mid) mid (failed mid)) :
    Accounts resume visits (outcome.andThen onMatch onFailure) state
      (first ++ outcome.calls matched failed) := by
  cases outcome with
  | matched mid => exact accounts.append rfl (matching mid)
  | failed mid => exact accounts.append rfl (failing mid)
  | fault reason => exact fun after ended => nomatch ended

/-- Ends that count nothing. -/
theorem Accounts.andThen_still {onMatch onFailure : State → Outcome} {calls : List Configuration}
    (accounts : Accounts resume visits outcome state calls)
    (matching : ∀ mid after, (onMatch mid).state? = some after → after.steps = mid.steps)
    (failing : ∀ mid after, (onFailure mid).state? = some after → after.steps = mid.steps) :
    Accounts resume visits (outcome.andThen onMatch onFailure) state calls := by
  have both := accounts.andThen (fun mid => .of_still (matching mid))
    (fun mid => .of_still (failing mid))
  have none : outcome.calls (fun _ => []) (fun _ => []) = [] := by cases outcome <;> rfl
  rwa [none, List.append_nil] at both

theorem descend_accounts (ceilings : Ceilings) (counts : Counts resume visits)
    (address position : Nat) (state : State) :
    Accounts resume visits (descend ceilings (resume address position) state) state
      (descendCalls ceilings address position state) := by
  unfold descendCalls
  by_cases halted : state.halted = true
  · rw [if_pos halted, descend, if_pos halted]
    exact .of_still fun after ended => by cases ended; rfl
  · rw [if_neg halted]
    by_cases deep : ceilings.depth.any (· ≤ state.depth) = true
    · rw [if_pos deep, descend, if_neg halted, if_pos deep]
      exact .of_still fun after ended => by cases ended; rfl
    · rw [if_neg deep, descend_eq_andThen _ _ (Bool.not_eq_true _ ▸ halted) deep]
      have inner := Accounts.single counts ⟨address, position, state.enter⟩
      refine .from_twin state.enter (inner.andThen_still ?_ ?_) rfl
      · exact fun mid after ended => by cases ended; rfl
      · exact fun mid after ended => by cases ended; rfl

theorem fork_accounts (counts : Counts resume visits) (address position : Nat) (state : State) :
    Accounts resume visits (fork ceilings (resume address position) state) state
      (descendCalls ceilings address position state.save) := by
  have inner := descend_accounts ceilings counts address position state.save
  rw [fork_eq_andThen]
  refine .from_twin state.save (inner.andThen_still ?_ ?_) rfl
  · exact fun mid after ended => by cases ended; rfl
  · exact fun mid after ended => by cases ended; exact mid.restore_meter.2.1

theorem lookAround_accounts (counts : Counts resume visits) (look : Look)
    (width position address : Nat) (state : State) :
    Accounts resume visits (lookAround ceilings look width position (resume address) state) state
      (if look.isBehind && position < width then []
        else
          descendCalls ceilings address
            (if look.isBehind then position - width else position) state.save) := by
  rw [lookAround_eq_andThen]
  split
  · exact .of_still fun after ended => (concludeLook_meter ended).2.1
  · have inner := descend_accounts ceilings counts address
      (if look.isBehind then position - width else position) state.save
    refine .from_twin state.save (inner.andThen_still ?_ ?_) rfl
    · exact fun mid after ended => (concludeLook_meter ended).2.1
    · exact fun mid after ended => (concludeLook_meter ended).2.1

theorem perform_accounts (counts : Counts resume visits) (move : Move) (state : State) :
    Accounts resume visits (move.perform ceilings resume state) state
      (move.calls ceilings resume state) := by
  induction move generalizing state with
  | fault reason => exact fun after ended => nomatch ended
  | fail => exact .of_still fun after ended => by cases ended; rfl
  | accept position => exact .of_still fun after ended => by cases ended; rfl
  | go address position => exact .single counts ⟨address, position, state⟩
  | assign registers address position =>
      exact .single counts ⟨address, position, state.setRegisters registers⟩
  | branch first second position =>
      rw [perform_branch]
      exact (fork_accounts counts first position state).andThen
        (fun mid => .of_still fun after ended => by cases ended; rfl)
        (fun mid => .single counts ⟨second, position, mid⟩)
  | choice address position otherwise ih =>
      rw [perform_choice]
      refine (fork_accounts counts address position state).andThen
        (fun mid => .of_still fun after ended => by cases ended; rfl) fun mid => ?_
      split
      · exact .of_still fun after ended => by cases ended; rfl
      · exact ih mid
  | atomic address target position =>
      rw [perform_atomic]
      exact (fork_accounts counts address position state).andThen
        (fun mid => .single counts ⟨target, mid.stop, mid⟩)
        (fun mid => .of_still fun after ended => by cases ended; rfl)
  | look direction width address target position =>
      rw [perform_look]
      exact (lookAround_accounts counts direction width position address state).andThen
        (fun mid => .single counts ⟨target, position, mid⟩)
        (fun mid => .of_still fun after ended => by cases ended; rfl)

end Accounts

variable {machine : Machine}

/-- The trace of a run has an entry for each instruction that the run counts. -/
theorem run_counts (machine : Machine) (fuel : Nat) :
    Counts (machine.run fuel) (machine.trace fuel) := by
  induction fuel with
  | zero => exact fun call after ended => nomatch ended
  | succ fuel ih =>
      intro call after ended
      have counted : (call.state.tick machine.ceilings).steps = call.state.steps + 1 := rfl
      rw [run_succ] at ended
      simp only [trace, calls]
      split at ended
      · rename_i halted
        cases ended
        rw [if_pos halted]
        exact counted
      · rename_i running
        rw [if_neg running]
        split at ended
        · cases ended
        · rename_i inside
          rw [if_neg inside]
          revert ended
          cases machine.code.instruction? call.address with
          | none => exact fun ended => nomatch ended
          | some found =>
              intro ended
              have accounts := (perform_accounts ih _ _ after ended).1
              rw [List.length_cons, accounts, counted, Nat.add_assoc, Nat.add_comm 1]
              rfl

/-- The checks that an instruction passes before and while it is executed. -/
structure Passes (machine : Machine) (here : Configuration) : Prop where
  inside : here.position ≤ machine.subject.size
  moves : ∃ instruction next, machine.code.instruction? here.address = some (instruction, next) ∧
    ∀ reason,
      machine.move instruction next here.position here.state.registers ≠ .fault reason

/-- Every instruction of a run without a fault passes its checks. -/
theorem trace_passes (machine : Machine) (fuel : Nat) (start : Configuration) {after : State}
    (ended : (machine.run fuel start.address start.position start.state).state? = some after) :
    ∀ here ∈ machine.trace fuel start, here.state.halted = false → machine.Passes here := by
  induction fuel generalizing start after with
  | zero => cases ended
  | succ fuel ih =>
      intro here member running
      rw [run_succ] at ended
      simp only [trace, calls] at member
      split at ended
      · rename_i halted
        rw [if_pos halted, List.flatMap_nil] at member
        rw [List.mem_singleton.mp member] at running
        rw [running] at halted
        cases halted
      · rename_i unhalted
        rw [if_neg unhalted] at member
        split at ended
        · cases ended
        · rename_i inside
          rw [if_neg inside] at member
          split at ended
          · cases ended
          · rename_i instruction next found
            rw [found] at member
            rcases List.mem_cons.mp member with same | later
            · subst same
              refine ⟨Nat.not_lt.mp inside, instruction, next, found, fun reason faults => ?_⟩
              have blocked : machine.move instruction next start.position start.state.registers =
                  .fault reason := faults
              rw [blocked] at ended
              cases ended
            · obtain ⟨call, called, visited⟩ := List.mem_flatMap.mp later
              obtain ⟨last, ends⟩ :=
                (perform_accounts (run_counts machine fuel) _ _ after ended).2 call called
              exact ih call ends here visited running

/-- The addresses at which a move may go on. -/
def Move.addresses : Move → List Nat
  | .fault _ | .fail | .accept _ => []
  | .go address _ | .assign _ address _ => [address]
  | .branch first second _ => [first, second]
  | .choice address _ otherwise => address :: otherwise.addresses
  | .atomic address target _ | .look _ _ address target _ => [address, target]

theorem Move.addresses_givingBack {after shortest extra address : Nat}
    (goes : address ∈ (Move.givingBack after shortest extra).addresses) : address = after := by
  induction extra with
  | zero => exact List.mem_singleton.mp goes
  | succ extra ih => exact (List.mem_cons.mp goes).elim id ih

theorem Move.addresses_takingMore {test : Nat → Bool} {after extra position address : Nat}
    (goes : address ∈ (Move.takingMore test after extra position).addresses) : address = after := by
  induction extra generalizing position with
  | zero => exact List.mem_singleton.mp goes
  | succ extra ih =>
      rcases List.mem_cons.mp goes with same | further
      · exact same
      · split at further
        · exact ih further
        · cases further

theorem mem_descendCalls {ceilings : Ceilings} {address position : Nat} {state : State}
    {call : Configuration} (called : call ∈ descendCalls ceilings address position state) :
    call.address = address := by
  unfold descendCalls at called
  split at called
  · cases called
  · split at called
    · cases called
    · rw [List.mem_singleton.mp called]

theorem Outcome.forall_mem_calls (property : Configuration → Prop) (outcome : Outcome)
    {onMatch onFailure : State → List Configuration}
    (matched : ∀ state, ∀ call ∈ onMatch state, property call)
    (failed : ∀ state, ∀ call ∈ onFailure state, property call) :
    ∀ call ∈ outcome.calls onMatch onFailure, property call := by
  intro call called
  cases outcome with
  | matched state => exact matched state call called
  | failed state => exact failed state call called
  | fault reason => cases called

/-- The calls of a move that tries one address before it goes on. -/
theorem mem_tried {address : Nat} {rest : List Nat} {tried further : List Configuration}
    (first : ∀ call ∈ tried, call.address = address)
    (later : ∀ call ∈ further, call.address ∈ rest) {call : Configuration}
    (called : call ∈ tried ++ further) : call.address ∈ address :: rest := by
  rcases List.mem_append.mp called with now | afterwards
  · rw [first call now]
    exact List.mem_cons_self ..
  · exact List.mem_cons_of_mem _ (later call afterwards)

theorem mem_single {configuration : Configuration} {address : Nat}
    (same : configuration.address = address) :
    ∀ call ∈ [configuration], call.address ∈ [address] := by
  intro call called
  rw [List.mem_singleton.mp called, same]
  exact List.mem_singleton_self _

theorem Move.mem_calls {ceilings : Ceilings} {resume : Resume} {move : Move} {state : State}
    {call : Configuration} (called : call ∈ move.calls ceilings resume state) :
    call.address ∈ move.addresses := by
  have none {rest : List Nat} (state : State) :
      ∀ call ∈ ([] : List Configuration), call.address ∈ rest := fun call stuck => nomatch stuck
  induction move generalizing state call with
  | fault | fail | accept => cases called
  | go | assign => exact mem_single rfl call called
  | branch first second position =>
      refine mem_tried (fun _ => mem_descendCalls) (Outcome.forall_mem_calls _ _ none ?_) called
      exact fun mid => mem_single rfl
  | choice address position otherwise ih =>
      refine mem_tried (fun _ => mem_descendCalls)
        (Outcome.forall_mem_calls _ _ none fun mid call goes => ?_) called
      split at goes
      · cases goes
      · exact ih goes
  | atomic address target position =>
      refine mem_tried (fun _ => mem_descendCalls) (Outcome.forall_mem_calls _ _ ?_ none) called
      exact fun mid => mem_single rfl
  | look direction width address target position =>
      refine mem_tried (fun call tried => ?_) (Outcome.forall_mem_calls _ _ ?_ none) called
      · split at tried
        · cases tried
        · exact mem_descendCalls tried
      · exact fun mid => mem_single rfl

/-- Addresses that every instruction among them leads on to are all that a run from them visits. -/
theorem trace_addresses {among : Nat → Prop}
    (closed : ∀ address instruction next, among address →
      machine.code.instruction? address = some (instruction, next) → ∀ position registers,
        ∀ further ∈ (machine.move instruction next position registers).addresses, among further)
    (fuel : Nat) {start : Configuration} (known : among start.address) :
    ∀ here ∈ machine.trace fuel start, among here.address := by
  induction fuel generalizing start with
  | zero => exact fun here member => nomatch member
  | succ fuel ih =>
      intro here member
      rcases List.mem_cons.mp member with same | later
      · rw [same]
        exact known
      · obtain ⟨call, called, visited⟩ := List.mem_flatMap.mp later
        refine ih ?_ here visited
        unfold calls at called
        split at called
        · cases called
        · split at called
          · cases called
          · split at called
            · cases called
            · rename_i instruction next found
              exact closed _ instruction next known found _ _ _ (Move.mem_calls called)

end ByteRegex.Machine
