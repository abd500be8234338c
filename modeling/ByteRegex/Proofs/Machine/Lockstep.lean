import ByteRegex.Proofs.Machine.Ceilings

/-!
# Lockstep

Two runs over different code that make the same moves at corresponding addresses end alike. What
they may differ in is what no move depends on: the captures, as long as nothing refers to them, and
the number of steps. The run on the left may stop to open or close a group where the one on the
right has nothing to do.

The correspondence is indexed by the fuel of the left run, so that a loop can be closed by induction
on it. A run that faults excuses the other one from agreeing with it; programs rule that out.
-/

namespace ByteRegex.Machine

/-- States that differ at most in their captures and in the steps taken. -/
structure State.Alike (left right : State) : Prop where
  counters : left.registers.counters = right.registers.counters
  trail : left.trail.map Registers.counters = right.trail.map Registers.counters
  depth : left.depth = right.depth
  peak : left.peak = right.peak
  halted : left.halted = right.halted
  stop : left.stop = right.stop

namespace State.Alike

variable {left right other : State}

theorem refl (state : State) : state.Alike state := ⟨rfl, rfl, rfl, rfl, rfl, rfl⟩

theorem symm (alike : left.Alike right) : right.Alike left :=
  ⟨alike.counters.symm, alike.trail.symm, alike.depth.symm, alike.peak.symm, alike.halted.symm,
    alike.stop.symm⟩

theorem trans (alike : left.Alike right) (further : right.Alike other) : left.Alike other :=
  ⟨alike.counters.trans further.counters, alike.trail.trans further.trail,
    alike.depth.trans further.depth, alike.peak.trans further.peak,
    alike.halted.trans further.halted, alike.stop.trans further.stop⟩

/-- Without a ceiling on steps, counting one changes nothing else. -/
theorem tick {ceilings : Ceilings} (unlimited : ceilings.steps = none) (state : State) :
    (state.tick ceilings).Alike state where
  counters := rfl
  trail := rfl
  depth := rfl
  peak := rfl
  halted := by simp only [State.tick, unlimited, Option.any_none, Bool.or_false]
  stop := rfl

theorem setRegisters (alike : left.Alike right) {first second : Registers}
    (counters : first.counters = second.counters) :
    (left.setRegisters first).Alike (right.setRegisters second) :=
  { alike with counters := counters }

theorem setStop (alike : left.Alike right) (stop : Nat) :
    (left.setStop stop).Alike (right.setStop stop) :=
  { alike with stop := rfl }

theorem halt (alike : left.Alike right) : left.halt.Alike right.halt :=
  { alike with halted := rfl }

theorem enter (alike : left.Alike right) : left.enter.Alike right.enter :=
  { alike with
    depth := congrArg (· + 1) alike.depth
    peak := by simp only [State.enter, alike.depth, alike.peak] }

theorem leave (alike : left.Alike right) : left.leave.Alike right.leave :=
  { alike with depth := congrArg (· - 1) alike.depth }

theorem save (alike : left.Alike right) : left.save.Alike right.save :=
  { alike with trail := by simp only [State.save, List.map_cons, alike.trail, alike.counters] }

theorem discard (alike : left.Alike right) : left.discard.Alike right.discard :=
  { alike with trail := by simp only [State.discard, List.map_tail, alike.trail] }

theorem restore (alike : left.Alike right) : left.restore.Alike right.restore := by
  have trails := alike.trail
  unfold State.restore
  cases first : left.trail with
  | nil =>
      rw [first] at trails
      rw [List.map_eq_nil_iff.mp trails.symm]
      exact alike
  | cons saved rest =>
      rw [first, List.map_cons] at trails
      obtain ⟨other, others, second, same, later⟩ := List.map_eq_cons_iff.mp trails.symm
      rw [second]
      exact { alike with counters := same.symm, trail := later.symm }

theorem rearmed (alike : left.Alike right) : left.rearmed.Alike right.rearmed :=
  { alike with counters := rfl, trail := rfl, depth := rfl }

end State.Alike

/-- Outcomes in the same state, unless one of them is a fault. -/
inductive Outcome.Agrees : Outcome → Outcome → Prop where
  | matched {left right : State} (alike : left.Alike right) : Agrees (.matched left) (.matched right)
  | failed {left right : State} (alike : left.Alike right) : Agrees (.failed left) (.failed right)
  | faultLeft (reason : Fault) (right : Outcome) : Agrees (.fault reason) right
  | faultRight (left : Outcome) (reason : Fault) : Agrees left (.fault reason)

/-- Runs that agree wherever they start from alike. -/
def Agree (left right : State → Outcome) : Prop :=
  ∀ first second : State, first.Alike second → (left first).Agrees (right second)

theorem Agree.matched : Agree .matched .matched := fun _ _ => .matched

theorem Agree.failed : Agree .failed .failed := fun _ _ => .failed

theorem Outcome.Agrees.andThen {first second : Outcome}
    {onMatch onFailure onMatch' onFailure' : State → Outcome} (agrees : first.Agrees second)
    (matching : Agree onMatch onMatch') (failing : Agree onFailure onFailure') :
    (first.andThen onMatch onFailure).Agrees (second.andThen onMatch' onFailure') := by
  cases agrees with
  | matched alike => exact matching _ _ alike
  | failed alike => exact failing _ _ alike
  | faultLeft reason => exact .faultLeft reason _
  | faultRight _ reason => exact .faultRight _ reason

section Calls

variable {ceilings : Ceilings} {left right : State → Outcome}

theorem descend_agree (agree : Agree left right) :
    Agree (descend ceilings left) (descend ceilings right) := by
  intro first second alike
  by_cases halted : first.halted = true
  · have other : second.halted = true := alike.halted ▸ halted
    rw [descend, if_pos halted, descend, if_pos other]
    exact .failed alike
  · have running : second.halted = false := by
      rw [← alike.halted]
      exact Bool.not_eq_true _ ▸ halted
    by_cases deep : ceilings.depth.any (· ≤ first.depth) = true
    · have other : ceilings.depth.any (· ≤ second.depth) = true := alike.depth ▸ deep
      rw [descend, if_neg halted, if_pos deep, descend, running, if_neg Bool.false_ne_true,
        if_pos other]
      exact .failed alike.halt
    · have shallow : ¬ ceilings.depth.any (· ≤ second.depth) = true := alike.depth ▸ deep
      rw [descend_eq_andThen _ _ (Bool.not_eq_true _ ▸ halted) deep,
        descend_eq_andThen _ _ running shallow]
      exact (agree _ _ alike.enter).andThen (fun _ _ alike => .matched alike.leave)
        (fun _ _ alike => .failed alike.leave)

theorem fork_agree (agree : Agree left right) :
    Agree (fork ceilings left) (fork ceilings right) := by
  intro first second alike
  rw [fork_eq_andThen, fork_eq_andThen]
  exact (descend_agree agree _ _ alike.save).andThen (fun _ _ alike => .matched alike.discard)
    (fun _ _ alike => .failed alike.restore)

theorem concludeLook_agree (look : Look) (held : Bool) :
    Agree (concludeLook look held) (concludeLook look held) := by
  intro first second alike
  unfold concludeLook
  split
  · exact .matched alike.discard
  · have restored := alike.restore
    dsimp only
    rw [restored.halted]
    split
    · exact .matched restored
    · exact .failed restored

theorem lookAround_agree {left right : Nat → State → Outcome} (look : Look) (width position : Nat)
    (agree : ∀ origin, Agree (left origin) (right origin)) :
    Agree (lookAround ceilings look width position left)
      (lookAround ceilings look width position right) := by
  intro first second alike
  rw [lookAround_eq_andThen, lookAround_eq_andThen]
  split
  · exact concludeLook_agree look false _ _ alike.save
  · refine (descend_agree (agree _) _ _ alike.save).andThen ?_ (concludeLook_agree look false)
    intro first second alike
    dsimp only
    rw [alike.stop]
    exact concludeLook_agree look _ _ _ alike

end Calls

/-- Moves of the same kind at the same position that lead to corresponding addresses. -/
inductive Move.Twin (along : Nat → Nat → Prop) : Move → Move → Prop where
  | fault (reason : Fault) : Twin along (.fault reason) (.fault reason)
  | fail : Twin along .fail .fail
  | accept (position : Nat) : Twin along (.accept position) (.accept position)
  | go {address other : Nat} (position : Nat) (next : along address other) :
      Twin along (.go address position) (.go other position)
  | assign {registers registers' : Registers} {address other : Nat} (position : Nat)
      (counters : registers.counters = registers'.counters) (next : along address other) :
      Twin along (.assign registers address position) (.assign registers' other position)
  | branch {first other second further : Nat} (position : Nat) (tried : along first other)
      (otherwise : along second further) :
      Twin along (.branch first second position) (.branch other further position)
  | choice {address other : Nat} {move move' : Move} (position : Nat) (tried : along address other)
      (otherwise : Twin along move move') :
      Twin along (.choice address position move) (.choice other position move')
  | atomic {address other target further : Nat} (position : Nat) (inside : along address other)
      (behind : along target further) :
      Twin along (.atomic address target position) (.atomic other further position)
  | look {address other target further : Nat} (direction : Look) (width position : Nat)
      (inside : along address other) (behind : along target further) :
      Twin along (.look direction width address target position)
        (.look direction width other further position)

theorem perform_agree {ceilings : Ceilings} {left right : Resume} {along : Nat → Nat → Prop}
    (agree : ∀ address other, along address other → ∀ position,
      Agree (left address position) (right other position))
    {move move' : Move} (twin : move.Twin along move') :
    Agree (move.perform ceilings left) (move'.perform ceilings right) := by
  induction twin with
  | fault reason => exact fun _ _ _ => .faultLeft reason _
  | fail => exact .failed
  | accept position => exact fun _ _ alike => .matched (alike.setStop position)
  | go position next => exact agree _ _ next position
  | assign position counters next =>
      exact fun _ _ alike => agree _ _ next position _ _ (alike.setRegisters counters)
  | branch position tried otherwise =>
      intro first second alike
      rw [perform_branch, perform_branch]
      exact (fork_agree (agree _ _ tried position) _ _ alike).andThen .matched
        (agree _ _ otherwise position)
  | choice position tried otherwise ih =>
      intro first second alike
      rw [perform_choice, perform_choice]
      refine (fork_agree (agree _ _ tried position) _ _ alike).andThen .matched ?_
      intro first second alike
      dsimp only
      rw [alike.halted]
      split
      · exact .failed alike
      · exact ih _ _ alike
  | atomic position inside behind =>
      intro first second alike
      rw [perform_atomic, perform_atomic]
      refine (fork_agree (agree _ _ inside position) _ _ alike).andThen ?_ .failed
      intro first second alike
      dsimp only
      rw [alike.stop]
      exact agree _ _ behind _ _ _ alike
  | look direction width position inside behind =>
      intro first second alike
      rw [perform_look, perform_look]
      exact (lookAround_agree direction width position (agree _ _ inside) _ _ alike).andThen
        (agree _ _ behind position) .failed

/-- Machines that differ at most in their code and put no limit on steps. -/
structure Alongside (left right : Machine) : Prop where
  subject : left.subject = right.subject
  notEmpty : left.notEmpty = right.notEmpty
  start : left.start = right.start
  ceilings : left.ceilings = right.ceilings
  unlimited : left.ceilings.steps = none

/-- Addresses from which runs agree, as long as the left one has no more than so much fuel. -/
def Lock (left right : Machine) (fuel address other : Nat) : Prop :=
  ∀ less ≤ fuel, ∀ enough position,
    Agree (left.run less address position) (right.run enough other position)

section Locks

variable {left right : Machine} {fuel address other next further : Nat}

theorem Lock.mono (lock : Lock left right fuel address other) {less : Nat} (fewer : less ≤ fuel) :
    Lock left right less address other :=
  fun least below => lock least (Nat.le_trans below fewer)

/-- Both runs execute an instruction, and their moves are the same. -/
theorem Lock.of_moves (alongside : Alongside left right) {instruction instruction' : Instruction}
    (read : left.code.instruction? address = some (instruction, next))
    (read' : right.code.instruction? other = some (instruction', further))
    (twin : ∀ position registers registers', registers.counters = registers'.counters →
      (left.move instruction next position registers).Twin (Lock left right fuel)
        (right.move instruction' further position registers')) :
    Lock left right (fuel + 1) address other := by
  intro less fewer enough position first second alike
  obtain _ | less := less
  · exact .faultLeft .outOfFuel _
  · obtain _ | enough := enough
    · exact .faultRight _ .outOfFuel
    · have ticked : (first.tick left.ceilings).Alike (second.tick right.ceilings) :=
        (State.Alike.tick alongside.unlimited first).trans (alike.trans
          (State.Alike.tick (alongside.ceilings ▸ alongside.unlimited) second).symm)
      rw [run_succ, run_succ, ticked.halted, alongside.subject]
      split
      · exact .failed ticked
      · split
        · exact .faultLeft .badPosition _
        · rw [read, read', ← alongside.ceilings]
          refine perform_agree ?_ (twin position _ _ alike.counters) _ _
            (by rw [alongside.ceilings] at ticked ⊢; exact ticked)
          intro address other lock position
          exact lock less (Nat.le_of_succ_le_succ fewer) enough position

/-- The left run assigns what the right one has no registers for. -/
theorem Lock.of_assign (alongside : Alongside left right) {instruction : Instruction}
    (read : left.code.instruction? address = some (instruction, next))
    (assigns : ∀ position registers, ∃ after, left.move instruction next position registers =
      .assign after next position ∧ after.counters = registers.counters)
    (lock : Lock left right fuel next other) : Lock left right (fuel + 1) address other := by
  intro less fewer enough position first second alike
  obtain _ | less := less
  · exact .faultLeft .outOfFuel _
  · have ticked := (State.Alike.tick alongside.unlimited first).trans alike
    obtain ⟨after, moves, counters⟩ := assigns position first.registers
    rw [run_succ, read]
    by_cases halted : (first.tick left.ceilings).halted = true
    · rw [if_pos halted]
      obtain _ | enough := enough
      · exact .faultRight _ .outOfFuel
      · have counted := State.Alike.tick (alongside.ceilings ▸ alongside.unlimited) second
        have other : (second.tick right.ceilings).halted = true := by
          rw [counted.halted, ← ticked.halted]
          exact halted
        rw [run_succ, if_pos other]
        exact .failed (ticked.trans counted.symm)
    · rw [if_neg halted]
      split
      · exact .faultLeft .badPosition _
      · dsimp only
        rw [moves]
        have assigned : ((first.tick left.ceilings).setRegisters after).Alike second :=
          { ticked with counters := counters.trans alike.counters }
        exact lock less (Nat.le_of_succ_le_succ fewer) enough position _ _ assigned

end Locks

/-- Instructions with which two runs do the same, as long as they go on at corresponding
addresses. -/
inductive Twin (along : Nat → Nat → Prop) :
    (instruction : Instruction) → (next : Nat) → (other : Instruction) → (further : Nat) → Prop where
  | succeed (next further : Nat) : Twin along .succeed next .succeed further
  | subEnd (next further : Nat) : Twin along .subEnd next .subEnd further
  | test {next further : Nat} (test : ByteTest) (falls : along next further) :
      Twin along (.test test) next (.test test) further
  | assertion {next further : Nat} (condition : Assertion) (falls : along next further) :
      Twin along (.assertion condition) next (.assertion condition) further
  | jump {target landing : Nat} (next further : Nat) (goes : along target landing) :
      Twin along (.jump target) next (.jump landing) further
  | branch {next further target landing : Nat} (falls : along next further)
      (goes : along target landing) : Twin along (.branch target) next (.branch landing) further
  | branchReverse {next further target landing : Nat} (falls : along next further)
      (goes : along target landing) :
      Twin along (.branchReverse target) next (.branchReverse landing) further
  | look {next further target landing : Nat} (direction : Look) (width : Nat)
      (falls : along next further) (goes : along target landing) :
      Twin along (.look direction width target) next (.look direction width landing) further
  | atomic {next further target landing : Nat} (falls : along next further)
      (goes : along target landing) : Twin along (.atomic target) next (.atomic landing) further
  | counterReset {next further : Nat} (counter : Fin Capacity.counters)
      (falls : along next further) :
      Twin along (.counterReset counter) next (.counterReset counter) further
  | counterIncrement {next further : Nat} (counter : Fin Capacity.counters)
      (falls : along next further) :
      Twin along (.counterIncrement counter) next (.counterIncrement counter) further
  | jumpLess {next further target landing : Nat} (counter : Fin Capacity.counters) (bound : Nat)
      (falls : along next further) (goes : along target landing) :
      Twin along (.jumpLess counter bound target) next (.jumpLess counter bound landing) further
  | jumpAtLeast {next further target landing : Nat} (counter : Fin Capacity.counters) (bound : Nat)
      (falls : along next further) (goes : along target landing) :
      Twin along (.jumpAtLeast counter bound target) next (.jumpAtLeast counter bound landing)
        further
  | jumpStuck {next further target landing : Nat} (counter : Fin Capacity.counters)
      (falls : along next further) (goes : along target landing) :
      Twin along (.jumpStuck counter target) next (.jumpStuck counter landing) further

section Instructions

variable {left right : Machine} {along : Nat → Nat → Prop} {instruction other : Instruction}
  {fuel address origin next further : Nat}

theorem Twin.move (twin : Twin along instruction next other further)
    (alongside : Alongside left right) (position : Nat) {registers registers' : Registers}
    (counters : registers.counters = registers'.counters) :
    (left.move instruction next position registers).Twin along
      (right.move other further position registers') := by
  cases twin with
  | succeed =>
      simp only [Machine.move, alongside.notEmpty, alongside.start]
      split
      · exact .fail
      · exact .accept position
  | subEnd => exact .accept position
  | test test falls =>
      simp only [Machine.move, alongside.subject]
      split
      · exact .go _ falls
      · exact .fail
  | assertion condition falls =>
      simp only [Machine.move, alongside.subject]
      split
      · exact .go _ falls
      · exact .fail
  | jump _ _ goes => exact .go _ goes
  | branch falls goes => exact .branch _ falls goes
  | branchReverse falls goes => exact .branch _ goes falls
  | look direction width falls goes => exact .look _ _ _ falls goes
  | atomic falls goes => exact .atomic _ falls goes
  | counterReset counter falls =>
      refine .assign _ ?_ falls
      simp only [Registers.resetCounter, counters]
  | counterIncrement counter falls =>
      refine .assign _ ?_ falls
      simp only [Registers.increment, counters]
  | jumpLess counter bound falls goes | jumpAtLeast counter bound falls goes
  | jumpStuck counter falls goes =>
      simp only [Machine.move, counters]
      refine .go _ ?_
      split
      · exact goes
      · exact falls

/-- Corresponding instructions keep two runs in lockstep. -/
theorem Lock.of_twin (alongside : Alongside left right)
    (read : left.code.instruction? address = some (instruction, next))
    (read' : right.code.instruction? origin = some (other, further))
    (twin : Twin (Lock left right fuel) instruction next other further) :
    Lock left right (fuel + 1) address origin :=
  .of_moves alongside read read' fun position _ _ counters =>
    twin.move alongside position counters

theorem Lock.openGroup (alongside : Alongside left right) {group : Fin Capacity.slots}
    (read : left.code.instruction? address = some (.openGroup group, next))
    (lock : Lock left right fuel next origin) : Lock left right (fuel + 1) address origin :=
  .of_assign alongside read (fun _ _ => ⟨_, rfl, rfl⟩) lock

theorem Lock.closeGroup (alongside : Alongside left right) {group : Fin Capacity.slots}
    (read : left.code.instruction? address = some (.closeGroup group, next))
    (lock : Lock left right fuel next origin) : Lock left right (fuel + 1) address origin :=
  .of_assign alongside read (fun _ _ => ⟨_, rfl, rfl⟩) lock

theorem Move.Twin.givingBack (shortest extra : Nat) (behind : along next further) :
    (Move.givingBack next shortest extra).Twin along (.givingBack further shortest extra) := by
  induction extra with
  | zero => exact .go _ behind
  | succ extra ih => exact .choice _ behind ih

theorem Move.Twin.takingMore {test : Nat → Bool} (extra position : Nat)
    (behind : along next further) :
    (Move.takingMore test next extra position).Twin along
      (.takingMore test further extra position) := by
  induction extra generalizing position with
  | zero => exact .choice _ behind .fail
  | succ extra ih =>
      refine .choice _ behind ?_
      split
      · exact ih _
      · exact .fail

theorem repeatTestMove_twin (alongside : Alongside left right) (greed : Greed) (least : Nat)
    (most : Option Nat) (test : ByteTest) (position : Nat) (behind : along next further) :
    (left.repeatTestMove greed least most test next position).Twin along
      (right.repeatTestMove greed least most test further position) := by
  simp only [repeatTestMove, alongside.subject]
  split
  · exact .fail
  · cases greed with
    | lazy =>
        dsimp only
        split
        · exact .fail
        · exact .takingMore _ _ behind
    | possessive =>
        dsimp only
        split
        · exact .fail
        · exact .go _ behind
    | greedy =>
        dsimp only
        split
        · exact .fail
        · exact .givingBack _ _ behind

/-- A repeat of a test, whose instruction is read with it. -/
theorem Lock.repetition (alongside : Alongside left right) {greed : Greed} {least : Nat}
    {most : Option Nat} {test : ByteTest} {single single' : Nat}
    (read : left.code.instruction? address = some (.repetition greed least most, single))
    (tested : left.code.instruction? single = some (.test test, next))
    (read' : right.code.instruction? origin = some (.repetition greed least most, single'))
    (tested' : right.code.instruction? single' = some (.test test, further))
    (lock : Lock left right fuel next further) : Lock left right (fuel + 1) address origin := by
  refine .of_moves alongside read read' fun position _ _ _ => ?_
  simp only [Machine.move, tested, tested']
  exact repeatTestMove_twin alongside greed least most test position lock

end Instructions

end ByteRegex.Machine
