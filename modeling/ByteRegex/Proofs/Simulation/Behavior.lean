import ByteRegex.Proofs.Machine.Move
import ByteRegex.Proofs.Semantics.Extent

/-!
# Behavior

What running from an address and a position amounts to, if no ceiling is in the way: an answer,
which is where the match stops and what the groups hold then, or that there is none. The depth, the
steps and the trail are gone from it, and the registers are only what a caller may rely on.
-/

namespace ByteRegex

/-- Registers that agree but for the openings of some groups and for some counters. -/
structure Registers.SameBut (groups counters : List Nat) (before after : Registers) : Prop where
  openings : ∀ group : Fin Capacity.slots, group.val ∉ groups →
    after.openings.get group = before.openings.get group
  counters : ∀ counter : Fin Capacity.counters, counter.val ∉ counters →
    after.counters.get counter = before.counters.get counter

namespace Registers

variable {groups counters : List Nat} {before middle after : Registers}

theorem SameBut.refl (registers : Registers) : registers.SameBut groups counters registers :=
  ⟨fun _ _ => rfl, fun _ _ => rfl⟩

theorem SameBut.trans (first : before.SameBut groups counters middle)
    (second : middle.SameBut groups counters after) : before.SameBut groups counters after :=
  ⟨fun group outside => (second.openings group outside).trans (first.openings group outside),
    fun counter outside => (second.counters counter outside).trans (first.counters counter outside)⟩

theorem SameBut.mono (same : before.SameBut groups counters after) {wider more : List Nat}
    (groupsKept : ∀ group ∈ groups, group ∈ wider)
    (countersKept : ∀ counter ∈ counters, counter ∈ more) : before.SameBut wider more after :=
  ⟨fun group outside => same.openings group fun inside => outside (groupsKept _ inside),
    fun counter outside => same.counters counter fun inside => outside (countersKept _ inside)⟩

theorem get_set {size : Nat} {α : Type} (values : Vector α size) (index other : Fin size)
    (value : α) : (values.set index value).get other =
      if other = index then value else values.get other := by
  show (values.set index value)[other.val] = if other = index then value else values[other.val]
  rw [Vector.getElem_set]
  simp only [Fin.ext_iff, eq_comm]

/-- What is left of opening and closing a group, besides its span. -/
theorem SameBut.closeGroup {registers : Registers} {group : Fin Capacity.slots} {position : Nat}
    (same : (registers.openGroup group position).SameBut groups counters after) (stop : Nat) :
    registers.SameBut (group.val :: groups) counters (after.closeGroup group stop) := by
  refine ⟨fun other fresh => ?_, same.counters⟩
  rw [List.mem_cons, not_or] at fresh
  show after.openings.get other = registers.openings.get other
  rw [same.openings other fresh.2, Registers.openGroup, get_set,
    if_neg fun alike => fresh.1 (congrArg _ alike)]

end Registers

namespace Machine

open State

/-- Whether an outcome is this answer, with the trail as it was in a state before. -/
def Outcome.Answers (keeps : Registers → Prop) (state : State) (answer : Option (Nat × Slots)) :
    Outcome → Prop
  | .matched after =>
      after.halted = false ∧ after.trail = state.trail ∧ keeps after.registers ∧
        answer = some (after.stop, after.registers.spans)
  | .failed after => after.halted = false ∧ after.trail = state.trail ∧ answer = none
  | .fault _ => False

theorem Outcome.Answers.of_trail {keeps : Registers → Prop} {state twin : State}
    {answer : Option (Nat × Slots)} {outcome : Outcome} (answers : outcome.Answers keeps twin answer)
    (same : twin.trail = state.trail) : outcome.Answers keeps state answer := by
  cases outcome with
  | matched after =>
      obtain ⟨halted, trail, rest⟩ := answers
      exact ⟨halted, trail.trans same, rest⟩
  | failed after =>
      obtain ⟨halted, trail, none⟩ := answers
      exact ⟨halted, trail.trans same, none⟩
  | fault reason => exact answers

variable (machine : Machine)

/-- Running from here gives this answer, with so much fuel or more. -/
def Behaves (keeps : Registers → Prop) (need address position : Nat) (registers : Registers)
    (answer : Option (Nat × Slots)) : Prop :=
  ∀ fuel state, need ≤ fuel → state.halted = false → state.registers = registers →
    (machine.free.run fuel address position state).Answers keeps state answer

/-- Making this move gives this answer, with so much fuel or more for what follows. -/
def Makes (keeps : Registers → Prop) (need : Nat) (move : Move) (registers : Registers)
    (answer : Option (Nat × Slots)) : Prop :=
  ∀ fuel state, need ≤ fuel → state.halted = false → state.registers = registers →
    (move.perform .unlimited (machine.free.run fuel) state).Answers keeps state answer

variable {machine} {keeps inner : Registers → Prop} {need address position : Nat}
  {registers : Registers} {answer first second : Option (Nat × Slots)}

theorem Behaves.mono (behaves : machine.Behaves keeps need address position registers answer)
    {more : Nat} (enough : need ≤ more) :
    machine.Behaves keeps more address position registers answer :=
  fun fuel state fuelled => behaves fuel state (Nat.le_trans enough fuelled)

/-- One instruction. -/
theorem Behaves.of_move {instruction : Instruction} {next : Nat}
    (inside : position ≤ machine.subject.size)
    (read : machine.code.instruction? address = some (instruction, next))
    (makes : machine.Makes keeps need (machine.move instruction next position registers) registers
      answer) :
    machine.Behaves keeps (need + 1) address position registers answer := by
  intro fuel state fuelled running same
  obtain ⟨fuel, rfl⟩ : ∃ fewer, fuel = fewer + 1 := ⟨fuel - 1, by omega⟩
  rw [free_run_succ machine fuel address position running, if_neg (Nat.not_lt.mpr inside), read]
  dsimp only
  rw [same, tick_unlimited]
  exact makes fuel _ (Nat.le_of_succ_le_succ fuelled) running same

namespace Makes

theorem fail : machine.Makes keeps need .fail registers none :=
  fun _ _ _ running _ => ⟨running, rfl, rfl⟩

theorem accept (kept : keeps registers) :
    machine.Makes keeps need (.accept position) registers (some (position, registers.spans)) := by
  intro fuel state _ running same
  subst same
  exact ⟨running, rfl, kept, rfl⟩

theorem go (behaves : machine.Behaves keeps need address position registers answer) :
    machine.Makes keeps need (.go address position) registers answer := behaves

theorem assign {assigned : Registers}
    (behaves : machine.Behaves keeps need address position assigned answer) :
    machine.Makes keeps need (.assign assigned address position) registers answer :=
  fun fuel _ fuelled running _ => behaves fuel _ fuelled running rfl

end Makes

/-- A call for an alternative answers like the call, and if it fails nothing has changed. -/
theorem fork_answers {call : State → Outcome} {state : State} (running : state.halted = false)
    (answers : (call state.save.enter).Answers keeps state.save answer) :
    (∃ after, fork .unlimited call state = .matched after ∧ after.halted = false ∧
      after.trail = state.trail ∧ keeps after.registers ∧
      answer = some (after.stop, after.registers.spans)) ∨
    (∃ after, fork .unlimited call state = .failed after ∧ after.halted = false ∧
      after.trail = state.trail ∧ after.registers = state.registers ∧ answer = none) := by
  have saved : state.save.halted = false := running
  rw [fork_eq_andThen, descend_eq_andThen .unlimited call saved Bool.false_ne_true]
  rcases called : call state.save.enter with after | after | reason
  · rw [called] at answers
    obtain ⟨halted, trail, kept, found⟩ := answers
    refine .inl ⟨after.leave.discard, rfl, halted, ?_, kept, found⟩
    exact congrArg List.tail trail
  · rw [called] at answers
    obtain ⟨halted, trail, none⟩ := answers
    have restored : after.leave.restore =
        { after.leave with registers := state.registers, trail := state.trail } := by
      have same : after.leave.trail = state.registers :: state.trail := trail
      simp only [State.restore, same]
    refine .inr ⟨after.leave.restore, rfl, ?_, ?_, ?_, none⟩ <;> rw [restored]
    exact halted
  · rw [called] at answers
    exact answers.elim

namespace Makes

theorem branch {ahead behind : Nat}
    (tried : machine.Behaves keeps need ahead position registers first)
    (otherwise : machine.Behaves keeps need behind position registers second) :
    machine.Makes keeps need (.branch ahead behind position) registers (first.or second) := by
  intro fuel state fuelled running same
  rw [perform_branch]
  rcases fork_answers running (tried fuel state.save.enter fuelled running same) with
    ⟨after, forked, halted, trail, kept, found⟩ | ⟨after, forked, halted, trail, back, none⟩
  · rw [forked, found]
    exact ⟨halted, trail, kept, rfl⟩
  · have rest := otherwise fuel after fuelled halted (back.trans same)
    rw [forked, none, Option.none_or]
    exact rest.of_trail trail

theorem choice {otherwise : Move}
    (tried : machine.Behaves keeps need address position registers first)
    (later : machine.Makes keeps need otherwise registers second) :
    machine.Makes keeps need (.choice address position otherwise) registers (first.or second) := by
  intro fuel state fuelled running same
  rw [perform_choice]
  rcases fork_answers running (tried fuel state.save.enter fuelled running same) with
    ⟨after, forked, halted, trail, kept, found⟩ | ⟨after, forked, halted, trail, back, none⟩
  · rw [forked, found]
    exact ⟨halted, trail, kept, rfl⟩
  · have rest := later fuel after fuelled halted (back.trans same)
    have unhalted : ¬ after.halted = true := by
      rw [halted]
      exact Bool.false_ne_true
    rw [forked, none, Option.none_or]
    show (if after.halted then _ else _ : Outcome).Answers keeps state second
    rw [if_neg unhalted]
    exact rest.of_trail trail

/-- An atomic group goes on from the answer of its body, whatever comes of it. -/
theorem atomic {target : Nat} {found : Option (Nat × Slots)}
    (tried : machine.Behaves inner need address position registers found)
    (refused : found = none → answer = none)
    (later : ∀ result ∈ found, ∀ after : Registers, after.spans = result.2 → inner after →
      machine.Behaves keeps need target result.1 after answer) :
    machine.Makes keeps need (.atomic address target position) registers answer := by
  intro fuel state fuelled running same
  rw [perform_atomic]
  rcases fork_answers running (tried fuel state.save.enter fuelled running same) with
    ⟨after, forked, halted, trail, kept, reached⟩ | ⟨after, forked, halted, trail, back, none⟩
  · rw [forked]
    have rest := later _ reached after.registers rfl kept fuel after fuelled halted rfl
    exact rest.of_trail trail
  · rw [forked]
    exact ⟨halted, trail, refused none⟩

/-- A lookaround goes on where it is if its body is found and should be, or is not and should not
be. -/
theorem look {direction : Look} {width target : Nat} {found : Option (Nat × Slots)}
    (short : (direction.isBehind && decide (position < width)) = true → found = none)
    (tried : ¬ (direction.isBehind && decide (position < width)) = true →
      machine.Behaves inner need address
        (if direction.isBehind then position - width else position) registers found)
    (stops : direction.isBehind = true → ∀ result ∈ found, result.1 = position)
    (positive : direction.isPositive = true → ∀ result ∈ found, ∀ after : Registers,
      after.spans = result.2 → inner after →
      machine.Behaves keeps need target position after answer)
    (negative : direction.isPositive = false → found = none →
      machine.Behaves keeps need target position registers answer)
    (refused : direction.isPositive = found.isNone → answer = none) :
    machine.Makes keeps need (.look direction width address target position) registers answer := by
  intro fuel state fuelled running same
  -- What follows if the body is not found.
  have missed : found = none → ∀ after : State, after.halted = false →
      after.trail = registers :: state.trail →
      ((concludeLook direction false after).andThen (machine.free.run fuel target position)
        .failed).Answers keeps state answer := by
    intro none after halted trail
    have restored : after.restore = { after with registers := registers, trail := state.trail } := by
      simp only [State.restore, trail]
    cases sign : direction.isPositive with
    | true =>
        have failed : concludeLook direction false after = .failed after.restore := by
          simp [concludeLook, sign]
        rw [failed, restored]
        exact ⟨halted, rfl, refused (by rw [sign, none]; rfl)⟩
    | false =>
        have matched : concludeLook direction false after = .matched after.restore := by
          simp [concludeLook, sign, restored, halted]
        rw [matched, restored]
        have rest := negative sign none fuel
          { after with registers := registers, trail := state.trail } fuelled halted rfl
        exact rest.of_trail rfl
  rw [perform_look, lookAround_eq_andThen]
  by_cases near : (direction.isBehind && decide (position < width)) = true
  · rw [if_pos near]
    exact missed (short near) state.save running (congrArg (· :: state.trail) same)
  · rw [if_neg near]
    have saved : state.save.halted = false := running
    have called := tried near fuel state.save.enter fuelled running same
    rw [descend_eq_andThen .unlimited _ saved Bool.false_ne_true]
    rcases ran : machine.free.run fuel address
        (if direction.isBehind then position - width else position) state.save.enter with
      after | after | reason
    · rw [ran] at called
      obtain ⟨halted, trail, kept, reached⟩ := called
      have held : (!direction.isBehind || decide (after.leave.stop = position)) = true := by
        cases behind : direction.isBehind with
        | false => rfl
        | true => exact decide_eq_true (stops behind _ reached)
      have popped : after.leave.discard.trail = state.trail := congrArg List.tail trail
      cases sign : direction.isPositive with
      | true =>
          have matched : concludeLook direction true after.leave = .matched after.leave.discard := by
            simp [concludeLook, sign]
          show ((concludeLook direction _ after.leave).andThen _ _).Answers keeps state answer
          rw [held, matched]
          have rest := positive sign _ reached after.registers rfl kept fuel after.leave.discard
            fuelled halted rfl
          exact rest.of_trail popped
      | false =>
          have failed : concludeLook direction true after.leave = .failed after.leave.restore := by
            simp [concludeLook, sign]
          have restored : after.leave.restore =
              { after.leave with registers := state.registers, trail := state.trail } := by
            have whole : after.leave.trail = state.registers :: state.trail := trail
            simp only [State.restore, whole]
          show ((concludeLook direction _ after.leave).andThen _ _).Answers keeps state answer
          rw [held, failed, restored]
          exact ⟨halted, rfl, refused (by rw [sign, reached]; rfl)⟩
    · rw [ran] at called
      obtain ⟨halted, trail, none⟩ := called
      exact missed none after.leave halted (trail.trans (congrArg (· :: state.trail) same))
    · rw [ran] at called
      exact called.elim

end Makes

/-- Code from one address to another answers as these results do: at each of them in order it goes on
with what follows. Both the registers that it may change and the fuel that it takes are bounded. -/
def Simulates (machine : Machine) (groups counters : List Nat)
    (results : Nat → Slots → List (Nat × Slots)) (slope overhead reserve start stop : Nat) : Prop :=
  ∀ ⦃keeps : Registers → Prop⦄ ⦃position : Nat⦄ ⦃registers : Registers⦄ (steep spare : Nat)
    (answer : Nat × Slots → Option (Nat × Slots)), position ≤ machine.subject.size →
    Slots.Within machine.subject.size registers.spans → slope ≤ steep → reserve ≤ spare →
    (∀ result ∈ results position registers.spans, ∀ after : Registers, after.spans = result.2 →
      registers.SameBut groups counters after → machine.Behaves keeps
        (steep * (machine.subject.size - result.1) + spare) stop result.1 after (answer result)) →
    machine.Behaves keeps (steep * (machine.subject.size - position) + spare + overhead) start
      position registers ((results position registers.spans).findSome? answer)

end Machine

end ByteRegex
