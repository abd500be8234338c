import ByteRegex.Proofs.Assembly.Listed
import ByteRegex.Proofs.Machine.Onward
import ByteRegex.Proofs.Simulation.Loop
import ByteRegex.Proofs.Syntax.Widths

/-!
# Crossing code

How many bytes an execution consumes that crosses the code of an expression, in whatever state it
comes there. The width of the expression bounds their number. A loop counts its iterations itself,
and so the bounds of its quantifier are those of the iterations between its entry and its exit.
-/

namespace ByteRegex

namespace Machine

/-- A property holds of every run from here with less fuel. -/
def Soon (holds : Nat → Configuration → Prop) (fuel address position : Nat)
    (registers : Registers) : Prop :=
  ∀ less < fuel, Assured holds less address position registers

variable {machine : Machine} {among : Nat → Prop} {holds : Nat → Configuration → Prop}
  {fuel address next target position bound : Nat} {registers : Registers}
  {quantifier : Quantifier} {register : Fin Capacity.counters}

namespace Assured

theorem soon (assured : Assured holds fuel address position registers) :
    Soon holds fuel address position registers :=
  fun _ fewer => assured.mono (Nat.le_of_lt fewer)

variable (backward : machine.Backward among holds) (inside : among address)
include backward inside

theorem jump (read : machine.code.instruction? address = some (.jump target, next))
    (later : Soon holds fuel target position registers) :
    Assured holds fuel address position registers :=
  .of_move backward inside read ⟨nofun, nofun⟩ fun less fewer => .go (later less fewer)

theorem reset (read : machine.code.instruction? address = some (.counterReset register, next))
    (later : Soon holds fuel next position (registers.resetCounter register position)) :
    Assured holds fuel address position registers :=
  .of_move backward inside read ⟨nofun, nofun⟩ fun less fewer => .assign (later less fewer)

theorem increment
    (read : machine.code.instruction? address = some (.counterIncrement register, next))
    (later : Soon holds fuel next position (registers.increment register position)) :
    Assured holds fuel address position registers :=
  .of_move backward inside read ⟨nofun, nofun⟩ fun less fewer => .assign (later less fewer)

theorem jumpLess
    (read : machine.code.instruction? address = some (.jumpLess register bound target, next))
    (jumps : (registers.counters.get register).count < bound →
      Soon holds fuel target position registers)
    (passes : bound ≤ (registers.counters.get register).count →
      Soon holds fuel next position registers) : Assured holds fuel address position registers := by
  refine .of_move backward inside read ⟨nofun, nofun⟩ fun less fewer => .go ?_
  by_cases below : (registers.counters.get register).count < bound
  · rw [if_pos below]
    exact jumps below less fewer
  · rw [if_neg below]
    exact passes (Nat.not_lt.mp below) less fewer

theorem jumpAtLeast
    (read : machine.code.instruction? address = some (.jumpAtLeast register bound target, next))
    (jumps : Soon holds fuel target position registers)
    (passes : (registers.counters.get register).count < bound →
      Soon holds fuel next position registers) : Assured holds fuel address position registers := by
  refine .of_move backward inside read ⟨nofun, nofun⟩ fun less fewer => .go ?_
  by_cases enough : bound ≤ (registers.counters.get register).count
  · rw [if_pos enough]
    exact jumps less fewer
  · rw [if_neg enough]
    exact passes (Nat.not_le.mp enough) less fewer

theorem jumpStuck
    (read : machine.code.instruction? address = some (.jumpStuck register target, next))
    (jumps : Soon holds fuel target position registers)
    (passes : Soon holds fuel next position registers) :
    Assured holds fuel address position registers := by
  refine .of_move backward inside read ⟨nofun, nofun⟩ fun less fewer => .go ?_
  split
  · exact jumps less fewer
  · exact passes less fewer

theorem branch (read : machine.code.instruction? address = some (.branch target, next))
    (leaves : Soon holds fuel target position registers)
    (iterates : Soon holds fuel next position registers) :
    Assured holds fuel address position registers :=
  .of_move backward inside read ⟨nofun, nofun⟩ fun less fewer =>
    .branch (iterates less fewer) (leaves less fewer)

theorem branchReverse
    (read : machine.code.instruction? address = some (.branchReverse target, next))
    (leaves : Soon holds fuel target position registers)
    (iterates : Soon holds fuel next position registers) :
    Assured holds fuel address position registers :=
  .of_move backward inside read ⟨nofun, nofun⟩ fun less fewer =>
    .branch (leaves less fewer) (iterates less fewer)

theorem enterOr (read : machine.code.instruction? address = some (quantifier.enterOr target, next))
    (leaves : Soon holds fuel target position registers)
    (iterates : Soon holds fuel next position registers) :
    Assured holds fuel address position registers := by
  unfold Quantifier.enterOr at read
  split at read
  · exact branchReverse backward inside read leaves iterates
  · exact branch backward inside read leaves iterates

theorem againAt (read : machine.code.instruction? address = some (quantifier.againAt target, next))
    (leaves : Soon holds fuel next position registers)
    (iterates : Soon holds fuel target position registers) :
    Assured holds fuel address position registers := by
  unfold Quantifier.againAt at read
  split at read
  · exact branch backward inside read iterates leaves
  · exact branchReverse backward inside read iterates leaves

end Assured

end Machine

section Loops

open Machine

variable {machine : Machine} {among : Nat → Prop} {holds : Nat → Configuration → Prop}
  {quantifier : Quantifier} {nullable : Bool} {register : Fin Capacity.counters}
  {fuel entry head tail exit position count : Nat} {registers : Registers}

theorem Quantifier.lt_most {limit : Nat} (bounded : quantifier.most = some limit)
    (few : count < limit) : ∀ most ∈ quantifier.most, count < most := by
  intro most given
  rw [bounded] at given
  cases given
  exact few

theorem LoopAt.bounds {code : Code}
    (shape : LoopAt code quantifier nullable register entry head tail exit)
    (ordered : head ≤ tail) : entry ≤ head ∧ tail ≤ exit := by
  obtain ⟨_, _, _, around⟩ := shape.around ordered
  exact ⟨around.entering.le, around.leaving.le⟩

/-- From its entry a loop that need not iterate may leave, and every loop may iterate. -/
theorem LoopAt.assured_entry
    (shape : LoopAt machine.code quantifier nullable register entry head tail exit)
    (ordered : head ≤ tail) (backward : machine.Backward among holds)
    (inside : ∀ address, entry ≤ address → address < exit → among address)
    (leaves : quantifier.least = 0 → ∀ left : Registers, registers.SameBut []
      (if quantifier.needsCounter nullable then [register.val] else []) left →
      Assured holds fuel exit position left)
    (begins : ∀ begun, Begins quantifier nullable register 0 position registers begun →
      Assured holds fuel head position begun) :
    Assured holds fuel entry position registers := by
  have bound := (shape.bounds ordered).2
  cases shape with
  | optional least most enter =>
      have ahead := Code.lt_of_instruction? enter
      refine .enterOr backward (inside _ (Nat.le_refl _) (by omega)) enter
        (leaves least registers (.refl _)).soon (begins registers (.unchanged ?_ ?_)).soon
      · simp [Quantifier.needsCounter, least, most]
      · simp [most]
  | star least most consumes enter back =>
      have ahead := Code.lt_of_instruction? enter
      refine .enterOr backward (inside _ (Nat.le_refl _) (by omega)) enter
        (leaves least registers (.refl _)).soon
        (begins registers (.unchanged ?_ fun _ => consumes)).soon
      simp [Quantifier.needsCounter, least, most]
  | watchedStar least most watched enter increment stuck back =>
      have counted : quantifier.needsCounter nullable = true := by
        simp [Quantifier.needsCounter, least, most, watched]
      have ahead := Code.lt_of_instruction? enter
      have marked := Code.lt_of_instruction? increment
      have begun := begins _ (.incremented counted (by simp [Quantifier.needsCounter, least, most]))
      have iterates := Assured.increment backward (inside _ (by omega) (by omega)) increment
        begun.soon
      exact .enterOr backward (inside _ (Nat.le_refl _) (by omega)) enter
        (leaves least registers (.refl _)).soon iterates.soon
  | plus least most consumes again =>
      refine begins registers (.unchanged ?_ fun _ => consumes)
      simp [Quantifier.needsCounter, least, most]
  | watchedPlus least most watched increment stuck again =>
      have counted : quantifier.needsCounter nullable = true := by
        simp [Quantifier.needsCounter, least, most, watched]
      have marked := Code.lt_of_instruction? increment
      have begun := begins _ (.incremented counted (by simp [Quantifier.needsCounter, least, most]))
      exact .increment backward (inside _ (Nat.le_refl _) (by omega)) increment begun.soon
  | atMost least bounded several reset enter increment below =>
      have counted : quantifier.needsCounter nullable = true := by
        simp [Quantifier.needsCounter, least, bounded, several]
      have first := Code.lt_of_instruction? reset
      have ahead := Code.lt_of_instruction? enter
      have marked := Code.lt_of_instruction? increment
      have iterates := Assured.increment backward (inside _ (by omega) (by omega)) increment
        (begins _ (.first counted)).soon
      have entered := Assured.enterOr backward (inside _ (by omega) (by omega)) enter
        (leaves least _ (resetCounter_sameBut counted)).soon iterates.soon
      exact .reset backward (inside _ (Nat.le_refl _) (by omega)) reset entered.soon
  | atLeast least _ _ reset increment _ _ | watchedAtLeast least _ _ reset increment _ _ _
  | exactly least _ reset increment _ | between least _ _ reset increment _ _ _ =>
      have counted : quantifier.needsCounter nullable = true := by
        apply quantifier.needsCounter_of_counting nullable
        first
          | exact .inl least
          | exact .inr ⟨least, by simp_all⟩
      have first := Code.lt_of_instruction? reset
      have marked := Code.lt_of_instruction? increment
      have iterates := Assured.increment backward (inside _ (by omega) (by omega)) increment
        (begins _ (.first counted)).soon
      exact .reset backward (inside _ (Nat.le_refl _) (by omega)) reset iterates.soon

/-- Behind an iteration a loop that has made enough of them may leave, and one that has not made too
many may iterate. -/
theorem LoopAt.assured_tail
    (shape : LoopAt machine.code quantifier nullable register entry head tail exit)
    (valid : quantifier.Valid) (ordered : head ≤ tail) (backward : machine.Backward among holds)
    (inside : ∀ address, entry ≤ address → address < exit → among address) (started : 1 ≤ count)
    (tracked : quantifier.needsCounter false = true →
      (registers.counters.get register).count = count)
    (leaves : quantifier.least ≤ count → Assured holds fuel exit position registers)
    (begins : (∀ most ∈ quantifier.most, count < most) → ∀ begun,
      Begins quantifier nullable register count position registers begun →
      Soon holds fuel head position begun) :
    Assured holds fuel tail position registers := by
  have unlimited : quantifier.most = none → ∀ most ∈ quantifier.most, count < most := by
    intro none most bounded
    rw [none] at bounded
    cases bounded
  cases shape with
  | optional least most enter => exact leaves (by omega)
  | star least most consumes enter back =>
      have ahead := Code.lt_of_instruction? enter
      have behind := Code.lt_of_instruction? back
      have unchanged : Begins quantifier nullable register count position registers registers :=
        .unchanged (by simp [Quantifier.needsCounter, least, most]) fun _ => consumes
      have entered := Assured.enterOr backward (inside _ (Nat.le_refl _) (by omega)) enter
        (leaves (by omega)).soon (begins (unlimited most) registers unchanged)
      exact .jump backward (inside _ (by omega) behind) back entered.soon
  | watchedStar least most watched enter increment stuck back =>
      have counted : quantifier.needsCounter nullable = true := by
        simp [Quantifier.needsCounter, least, most, watched]
      have ahead := Code.lt_of_instruction? enter
      have marked := Code.lt_of_instruction? increment
      have behind := Code.lt_of_instruction? stuck
      have last := Code.lt_of_instruction? back
      have left := (leaves (by omega)).soon
      have iterates := Assured.increment backward (inside _ (by omega) (by omega)) increment
        (begins (unlimited most) _ (.incremented counted tracked))
      have entered := Assured.enterOr backward (inside _ (Nat.le_refl _) (by omega)) enter left
        iterates.soon
      have returned := Assured.jump backward (inside _ (by omega) last) back entered.soon
      exact .jumpStuck backward (inside _ (by omega) (by omega)) stuck left returned.soon
  | plus least most consumes again =>
      have behind := Code.lt_of_instruction? again
      have unchanged : Begins quantifier nullable register count position registers registers :=
        .unchanged (by simp [Quantifier.needsCounter, least, most]) fun _ => consumes
      exact .againAt backward (inside _ (by omega) behind) again (leaves (by omega)).soon
        (begins (unlimited most) registers unchanged)
  | watchedPlus least most watched increment stuck again =>
      have counted : quantifier.needsCounter nullable = true := by
        simp [Quantifier.needsCounter, least, most, watched]
      have marked := Code.lt_of_instruction? increment
      have behind := Code.lt_of_instruction? stuck
      have last := Code.lt_of_instruction? again
      have left := (leaves (by omega)).soon
      have iterates := Assured.increment backward (inside _ (Nat.le_refl _) (by omega)) increment
        (begins (unlimited most) _ (.incremented counted tracked))
      have repeats := Assured.againAt backward (inside _ (by omega) last) again left iterates.soon
      exact .jumpStuck backward (inside _ (by omega) (by omega)) stuck left repeats.soon
  | atMost least bounded several reset enter increment below =>
      have counted nullable : quantifier.needsCounter nullable = true := by
        simp [Quantifier.needsCounter, least, bounded, several]
      have first := Code.lt_of_instruction? reset
      have ahead := Code.lt_of_instruction? enter
      have marked := Code.lt_of_instruction? increment
      have behind := Code.lt_of_instruction? below
      have left := (leaves (by omega)).soon
      refine .jumpLess backward (inside _ (by omega) behind) below (fun few => ?_) fun _ => left
      rw [tracked (counted _)] at few
      have iterates := Assured.increment backward (inside _ (by omega) (by omega)) increment
        (begins (Quantifier.lt_most bounded few) _ (.incremented (counted _) tracked))
      exact (Assured.enterOr backward (inside _ (by omega) (by omega)) enter left
        iterates.soon).soon
  | atLeast least most consumes reset increment below again =>
      have counted nullable := quantifier.needsCounter_of_counting nullable (.inl least)
      have first := Code.lt_of_instruction? reset
      have marked := Code.lt_of_instruction? increment
      have behind := Code.lt_of_instruction? below
      have last := Code.lt_of_instruction? again
      have iterates := (Assured.increment backward (inside _ (by omega) (by omega)) increment
        (begins (unlimited most) _ (.incremented (counted _) tracked))).soon
      refine .jumpLess backward (inside _ (by omega) (by omega)) below (fun _ => iterates)
        fun enough => ?_
      rw [tracked (counted _)] at enough
      exact (Assured.againAt backward (inside _ (by omega) last) again (leaves enough).soon
        iterates).soon
  | watchedAtLeast least most watched reset increment below stuck again =>
      have counted nullable := quantifier.needsCounter_of_counting nullable (.inl least)
      have first := Code.lt_of_instruction? reset
      have marked := Code.lt_of_instruction? increment
      have behind := Code.lt_of_instruction? below
      have check := Code.lt_of_instruction? stuck
      have last := Code.lt_of_instruction? again
      have iterates := (Assured.increment backward (inside _ (by omega) (by omega)) increment
        (begins (unlimited most) _ (.incremented (counted _) tracked))).soon
      refine .jumpLess backward (inside _ (by omega) (by omega)) below (fun _ => iterates)
        fun enough => ?_
      rw [tracked (counted _)] at enough
      have left := (leaves enough).soon
      have repeats := Assured.againAt backward (inside _ (by omega) last) again left iterates
      exact (Assured.jumpStuck backward (inside _ (by omega) (by omega)) stuck left
        repeats.soon).soon
  | exactly least most reset increment below =>
      have counted nullable := quantifier.needsCounter_of_counting nullable
        (.inr ⟨least, by simp [most]⟩)
      have first := Code.lt_of_instruction? reset
      have marked := Code.lt_of_instruction? increment
      have behind := Code.lt_of_instruction? below
      refine .jumpLess backward (inside _ (by omega) behind) below (fun few => ?_) fun enough => ?_
      · rw [tracked (counted _)] at few
        exact (Assured.increment backward (inside _ (by omega) (by omega)) increment
          (begins (Quantifier.lt_most most few) _ (.incremented (counted _) tracked))).soon
      · rw [tracked (counted _)] at enough
        exact (leaves enough).soon
  | between least bounded differ reset increment below full again =>
      have counted nullable := quantifier.needsCounter_of_counting nullable
        (.inr ⟨least, by simp [bounded]⟩)
      have first := Code.lt_of_instruction? reset
      have marked := Code.lt_of_instruction? increment
      have behind := Code.lt_of_instruction? below
      have check := Code.lt_of_instruction? full
      have last := Code.lt_of_instruction? again
      have limits := (valid.most _ bounded).2.1
      have iterates (room : ∀ limit ∈ quantifier.most, count < limit) :=
        (Assured.increment backward (inside _ (by omega) (by omega)) increment
          (begins room _ (.incremented (counted _) tracked))).soon
      refine .jumpLess backward (inside _ (by omega) (by omega)) below (fun few => ?_)
        fun enough => ?_
      · rw [tracked (counted _)] at few
        exact iterates (Quantifier.lt_most bounded (Nat.lt_of_lt_of_le few limits))
      · rw [tracked (counted _)] at enough
        have left := (leaves enough).soon
        refine (Assured.jumpAtLeast backward (inside _ (by omega) (by omega)) full left
          fun room => ?_).soon
        rw [tracked (counted _)] at room
        exact (Assured.againAt backward (inside _ (by omega) last) again left
          (iterates (Quantifier.lt_most bounded room))).soon

end Loops

/-! ## Expressions -/

namespace Machine

/-- Code from one address to another consumes only as many bytes as a width allows, and changes no
more registers than these. -/
def Consumes (machine : Machine) (groups counters : List Nat) (width : Width) (start stop : Nat) :
    Prop :=
  ∀ ⦃among : Nat → Prop⦄ ⦃holds : Nat → Configuration → Prop⦄, machine.Backward among holds →
    (∀ address, start ≤ address → address < stop → among address) →
    ∀ ⦃fuel position : Nat⦄ ⦃registers : Registers⦄,
      (∀ taken after, width.Allows taken → registers.SameBut groups counters after →
        Assured holds fuel stop (position + taken) after) →
      Assured holds fuel start position registers

variable {machine : Machine} {groups counters moreGroups moreCounters : List Nat}
  {first second width whole : Width} {start middle stop : Nat}

namespace Consumes

theorem mono (consumes : machine.Consumes groups counters width start stop)
    (wider : ∀ taken, width.Allows taken → whole.Allows taken) :
    machine.Consumes groups counters whole start stop :=
  fun _ _ backward inside _ _ _ later =>
    consumes backward inside fun taken after allowed => later taken after (wider taken allowed)

theorem empty (machine : Machine) (address : Nat) :
    machine.Consumes [] [] (.exactly 0) address address :=
  fun _ _ _ _ _ _ _ later => later 0 _ (Width.allows_exactly 0) (.refl _)

/-- One instruction that goes on behind itself, if at all. -/
theorem single {instruction : Instruction}
    (read : machine.code.instruction? start = some (instruction, stop))
    (goes : instruction ≠ .succeed ∧ instruction ≠ .subEnd)
    (assures : ∀ {holds : Nat → Configuration → Prop} {fuel position : Nat} {registers : Registers},
      (∀ taken, width.Allows taken → Assured holds fuel stop (position + taken) registers) →
      machine.Assures holds fuel (machine.move instruction stop position registers) registers) :
    machine.Consumes [] [] width start stop := by
  intro among holds backward inside fuel position registers later
  have ahead := Code.lt_of_instruction? read
  refine .of_move backward (inside _ (Nat.le_refl _) ahead) read goes fun less fewer => ?_
  exact assures fun taken allowed => (later taken registers allowed (.refl _)).mono
    (Nat.le_of_lt fewer)

theorem test {single : ByteTest}
    (read : machine.code.instruction? start = some (.test single, stop)) :
    machine.Consumes [] [] (.exactly 1) start stop := by
  refine .single read ⟨nofun, nofun⟩ fun later => ?_
  simp only [move]
  split
  · exact .go (later 1 (Width.allows_exactly 1))
  · exact .fail

theorem text {caseless : Bool} {origin length : Nat}
    (read : machine.code.instruction? start = some (.text caseless origin (origin + length), stop)) :
    machine.Consumes [] [] (.exactly length) start stop := by
  refine .single read ⟨nofun, nofun⟩ fun later => ?_
  simp only [move, Nat.add_sub_cancel_left]
  split
  · exact .go (later length (Width.allows_exactly length))
  · exact .fail

theorem assertion {condition : Assertion}
    (read : machine.code.instruction? start = some (.assertion condition, stop)) :
    machine.Consumes [] [] (.exactly 0) start stop := by
  refine .single read ⟨nofun, nofun⟩ fun later => ?_
  simp only [move]
  split
  · exact .go (later 0 (Width.allows_exactly 0))
  · exact .fail

theorem backReference {caseless : Bool} {group : Fin Capacity.slots}
    (read : machine.code.instruction? start = some (.backReference caseless group, stop)) :
    machine.Consumes [] [] .unknown start stop := by
  refine .single read ⟨nofun, nofun⟩ fun later => ?_
  simp only [move, repeatGroupMove]
  split
  · exact .fail
  · split
    · split
      · exact .go (later _ (Width.allows_unknown _))
      · exact .fail
    · exact .fault _

theorem repetition {quantifier : Quantifier} {single : ByteTest} {next : Nat}
    (read : machine.code.instruction? start =
      some (.repetition quantifier.greed quantifier.least quantifier.most, next))
    (tested : machine.code.instruction? next = some (.test single, stop)) :
    machine.Consumes [] [] ((Width.exactly 1).repeated quantifier.least quantifier.most) start
      stop := by
  intro among holds backward inside fuel position registers later
  have ahead := Code.lt_of_instruction? read
  have beyond := Code.lt_of_instruction? tested
  refine .of_move backward (inside _ (Nat.le_refl _) (by omega)) read ⟨nofun, nofun⟩
    fun less fewer => ?_
  simp only [move, tested]
  refine .repeatTest fun taken enough few => (later taken registers ?_ (.refl _)).mono
    (Nat.le_of_lt fewer)
  refine Width.allows_repeated (Nat.le_of_eq (Nat.one_mul taken)) ?_ enough few
  rintro limit ⟨⟩
  exact Nat.le_of_eq (Nat.one_mul taken).symm

theorem sequence (former : machine.Consumes groups counters first start middle)
    (latter : machine.Consumes moreGroups moreCounters second middle stop)
    (ahead : start ≤ middle) (behind : middle ≤ stop)
    (allows : ∀ {left right : Nat}, first.Allows left → second.Allows right →
      whole.Allows (left + right)) :
    machine.Consumes (groups ++ moreGroups) (counters ++ moreCounters) whole start stop := by
  intro among holds backward inside fuel position registers later
  refine former backward (fun address _ _ => inside address (by omega) (by omega))
    fun left mid tried same => ?_
  refine latter backward (fun address _ _ => inside address (by omega) (by omega))
    fun right after more kept => ?_
  rw [Nat.add_assoc]
  exact later _ after (allows tried more)
    ((same.mono (fun _ => List.mem_append_left _) fun _ => List.mem_append_left _).trans
      (kept.mono (fun _ => List.mem_append_right _) fun _ => List.mem_append_right _))

theorem literal {caseless : Bool} {bytes : List UInt8}
    (laid : LiteralAt machine.code caseless bytes start stop) :
    start ≤ stop ∧ machine.Consumes [] [] (.exactly bytes.length) start stop := by
  have joins {one other : Nat} {left right : Nat} (former : (Width.exactly one).Allows left)
      (latter : (Width.exactly other).Allows right) :
      (Width.exactly (one + other)).Allows (left + right) :=
    ⟨Nat.add_le_add former.1 latter.1, fun most same => by
      cases same
      exact Nat.add_le_add (former.2 _ rfl) (latter.2 _ rfl)⟩
  induction laid with
  | nil address => exact ⟨Nat.le_refl _, empty machine address⟩
  | single read later ih =>
      have ahead := Code.lt_of_instruction? read
      refine ⟨by omega, ?_⟩
      rw [List.length_cons, Nat.add_comm]
      exact sequence (.test read) ih.2 (by omega) ih.1 joins
  | text several short read held later ih =>
      have ahead := Code.lt_of_instruction? read
      refine ⟨by omega, ?_⟩
      rw [List.length_append]
      exact sequence (.text read) ih.2 (by omega) ih.1 joins

theorem alternative {ahead joint behind : Nat}
    (enter : machine.code.instruction? start = some (.branch behind, ahead))
    (former : machine.Consumes groups counters first ahead joint)
    (leave : machine.code.instruction? joint = some (.jump stop, behind))
    (latter : machine.Consumes moreGroups moreCounters second behind stop)
    (inner : ahead ≤ joint) (outer : behind ≤ stop) :
    machine.Consumes (groups ++ moreGroups) (counters ++ moreCounters) (first.either second) start
      stop := by
  intro among holds backward inside fuel position registers later
  have enters := Code.lt_of_instruction? enter
  have leaves := Code.lt_of_instruction? leave
  have tried : Assured holds fuel ahead position registers :=
    former backward (fun address _ _ => inside address (by omega) (by omega))
      fun taken after allowed same => .jump backward (inside _ (by omega) (by omega)) leave
        (later taken after allowed.either_left
          (same.mono (fun _ => List.mem_append_left _) fun _ => List.mem_append_left _)).soon
  have otherwise : Assured holds fuel behind position registers :=
    latter backward (fun address _ _ => inside address (by omega) (by omega))
      fun taken after allowed same => later taken after allowed.either_right
        (same.mono (fun _ => List.mem_append_right _) fun _ => List.mem_append_right _)
  exact .branch backward (inside _ (Nat.le_refl _) (by omega)) enter otherwise.soon tried.soon

theorem capture {group : Fin Capacity.slots} {head tail : Nat}
    (opened : machine.code.instruction? start = some (.openGroup group, head))
    (body : machine.Consumes groups counters width head tail) (ordered : head ≤ tail)
    (closed : machine.code.instruction? tail = some (.closeGroup group, stop)) :
    machine.Consumes (group.val :: groups) counters width start stop := by
  intro among holds backward inside fuel position registers later
  have enters := Code.lt_of_instruction? opened
  have leaves := Code.lt_of_instruction? closed
  refine .of_move backward (inside _ (Nat.le_refl _) (by omega)) opened ⟨nofun, nofun⟩
    fun less fewer => .assign ?_
  refine body backward (fun address _ _ => inside address (by omega) (by omega))
    fun taken after allowed same => ?_
  refine .of_move backward (inside _ (by omega) (by omega)) closed ⟨nofun, nofun⟩
    fun least within => .assign ?_
  exact (later taken _ allowed (same.closeGroup _)).mono (Nat.le_of_lt (Nat.lt_trans within fewer))

/-- What a run of a body consumes that runs as a call. -/
theorem call {head tail next position fuel : Nat} {entered after : State}
    (body : machine.Consumes groups counters width head tail)
    (finish : machine.code.instruction? tail = some (.subEnd, next))
    (ran : machine.run fuel head position entered = .matched after) :
    ∃ taken, width.Allows taken ∧ after.stop = position + taken ∧
      entered.registers.SameBut groups counters after.registers := by
  have backward := machine.backward_matched fun stop registers =>
    ∃ taken, width.Allows taken ∧ stop = position + taken ∧
      entered.registers.SameBut groups counters registers
  have crossed : Assured _ fuel head position entered.registers :=
    body backward (fun _ _ _ => trivial) fun taken registers allowed same => ?_
  · exact crossed fuel (Nat.le_refl _) ⟨head, position, entered⟩ rfl rfl rfl after ran
  · rintro (_ | less) _ here rfl there rfl last ended
    · cases ended
    · rw [run_succ] at ended
      split at ended
      · cases ended
      · split at ended
        · cases ended
        · rw [finish] at ended
          cases ended
          exact ⟨taken, allowed, there, same⟩

theorem atomic {head tail : Nat}
    (enter : machine.code.instruction? start = some (.atomic stop, head))
    (body : machine.Consumes groups counters width head tail) (ordered : head ≤ tail)
    (finish : machine.code.instruction? tail = some (.subEnd, stop)) :
    machine.Consumes groups counters width start stop := by
  intro among holds backward inside fuel position registers later
  have enters := Code.lt_of_instruction? enter
  have leaves := Code.lt_of_instruction? finish
  refine .of_move backward (inside _ (Nat.le_refl _) (by omega)) enter ⟨nofun, nofun⟩
    fun less fewer => .atomic fun entered after same ran => ?_
  obtain ⟨taken, allowed, stops, kept⟩ := body.call finish ran
  rw [stops]
  rw [same] at kept
  exact (later taken _ allowed kept).mono (Nat.le_of_lt fewer)

theorem look {direction : Look} {size head tail : Nat}
    (enter : machine.code.instruction? start = some (.look direction size stop, head))
    (body : machine.Consumes groups counters width head tail) (ordered : head ≤ tail)
    (finish : machine.code.instruction? tail = some (.subEnd, stop)) :
    machine.Consumes groups counters (.exactly 0) start stop := by
  intro among holds backward inside fuel position registers later
  have enters := Code.lt_of_instruction? enter
  have leaves := Code.lt_of_instruction? finish
  have stays {after : Registers} (same : registers.SameBut groups counters after) :
      Assured holds fuel stop position after := later 0 after (Width.allows_exactly 0) same
  refine .of_move backward (inside _ (Nat.le_refl _) (by omega)) enter ⟨nofun, nofun⟩
    fun less fewer => .look ((stays (.refl _)).mono (Nat.le_of_lt fewer)) ?_
  intro origin entered after same ran
  obtain ⟨taken, _, _, kept⟩ := body.call finish ran
  rw [same] at kept
  exact (stays kept).mono (Nat.le_of_lt fewer)

/-- The iterations of a loop consume as much as its body, each of them, and the bounds of the
quantifier are bounds of their number. -/
theorem loop {quantifier : Quantifier} {nullable : Bool} {register : Fin Capacity.counters}
    {head tail : Nat} (valid : quantifier.Valid)
    (shape : LoopAt machine.code quantifier nullable register start head tail stop)
    (ordered : head ≤ tail)
    (body : machine.Consumes groups counters width head tail)
    (outside : quantifier.needsCounter nullable = true → register.val ∉ counters) :
    machine.Consumes groups
      (counters ++ if quantifier.needsCounter nullable then [register.val] else [])
      (width.repeated quantifier.least quantifier.most) start stop := by
  intro among holds backward inside fuel position registers later
  obtain ⟨early, last⟩ := shape.bounds ordered
  have own {before after : Registers} (same : before.SameBut []
      (if quantifier.needsCounter nullable then [register.val] else []) after) :
      before.SameBut groups
        (counters ++ if quantifier.needsCounter nullable then [register.val] else []) after :=
    same.mono nofun fun _ => List.mem_append_right _
  -- The invariant at the start of the body, after `count` iterations that took `taken` bytes.
  have iterates : ∀ less ≤ fuel, ∀ count taken begun, (∀ most ∈ quantifier.most, count < most) →
      width.least * count ≤ taken → (∀ most ∈ width.most, taken ≤ most * count) →
      registers.SameBut groups
        (counters ++ if quantifier.needsCounter nullable then [register.val] else []) begun →
      (quantifier.needsCounter false = true →
        (begun.counters.get register).count = count + 1) →
      Assured holds less head (position + taken) begun := by
    intro less
    induction less using Nat.strongRecOn with
    | _ less ih =>
        intro within count taken begun room least most same counted
        refine body backward (fun address _ _ => inside address (by omega) (by omega))
          fun more after allowed kept => ?_
        have tracked : quantifier.needsCounter false = true →
            (after.counters.get register).count = count + 1 := fun counts => by
          rw [kept.counters register (outside (Quantifier.needsCounter_mono counts))]
          exact counted counts
        have settled := same.trans (kept.mono (fun _ => id) fun _ => List.mem_append_left _)
        have fewest : width.least * (count + 1) ≤ taken + more := by
          rw [Nat.mul_succ]
          exact Nat.add_le_add least allowed.1
        have greatest : ∀ most ∈ width.most, taken + more ≤ most * (count + 1) := by
          intro limit bounded
          rw [Nat.mul_succ]
          exact Nat.add_le_add (most limit bounded) (allowed.2 limit bounded)
        rw [Nat.add_assoc]
        refine shape.assured_tail valid ordered backward inside (Nat.succ_pos count) tracked
          (fun enough => ?_) fun further begun' begins fewer shorter => ?_
        · exact (later _ after (Width.allows_repeated fewest greatest enough room) settled).mono within
        · exact ih fewer shorter (by omega) (count + 1) (taken + more) begun' further fewest greatest
            (settled.trans (own begins.same)) begins.count
  refine shape.assured_entry ordered backward inside (fun optional left same => ?_)
    fun begun begins => ?_
  · have none : (width.repeated quantifier.least quantifier.most).Allows 0 :=
      @Width.allows_repeated width quantifier 0 0 (Nat.le_of_eq (Nat.mul_zero _))
        (fun _ _ => Nat.zero_le _) (Nat.le_of_eq optional) fun _ _ => Nat.zero_le _
    exact later 0 left none (own same)
  · have room : ∀ most ∈ quantifier.most, 0 < most := fun most bounded => (valid.most most bounded).1
    exact iterates fuel (Nat.le_refl _) 0 0 begun room (Nat.le_of_eq (Nat.mul_zero _))
      (fun _ _ => Nat.zero_le _) (own begins.same) begins.count

end Consumes

end Machine

namespace Expr

theorem le_of_laidOut (expr : Expr) {code : Code} (wellFormed : expr.WellFormed) {start stop : Nat}
    (laid : expr.LaidOut code start stop) : start ≤ stop := by
  obtain ⟨entries, listed⟩ := expr.listed_of_laidOut wellFormed laid
  exact listed.fragment.row.le

/-- The code of an expression consumes as many bytes as the width of the expression allows. -/
theorem consumes {machine : Machine} (expr : Expr) (wellFormed : expr.WellFormed) {start stop : Nat}
    (laid : expr.LaidOut machine.code start stop) :
    machine.Consumes expr.captures expr.counters expr.width start stop := by
  induction expr generalizing start stop with
  | empty =>
      subst laid
      exact .empty machine start
  | test single => exact .test laid
  | literal caseless bytes =>
      refine (Machine.Consumes.literal laid).2.mono fun taken allowed => ?_
      have whole := (Width.allows_exactly 0).followedBy allowed
      rwa [Nat.zero_add] at whole
  | assertion condition => exact .assertion laid
  | backReference caseless group =>
      obtain ⟨_, read⟩ := laid
      refine (Machine.Consumes.backReference read).mono fun taken allowed => ?_
      have whole := (Width.allows_exactly 0).followedBy allowed
      rwa [Nat.zero_add] at whole
  | sequence first second ihFirst ihSecond =>
      obtain ⟨middle, former, latter⟩ := laid
      rw [width_sequence]
      exact (ihFirst wellFormed.1 former).sequence (ihSecond wellFormed.2 latter)
        (first.le_of_laidOut wellFormed.1 former) (second.le_of_laidOut wellFormed.2 latter) .followedBy
  | alternative first second ihFirst ihSecond =>
      obtain ⟨ahead, joint, behind, enter, former, leave, latter⟩ := laid
      rw [width_alternative]
      exact .alternative enter (ihFirst wellFormed.1 former) leave (ihSecond wellFormed.2 latter)
        (first.le_of_laidOut wellFormed.1 former) (second.le_of_laidOut wellFormed.2 latter)
  | capture group body ih =>
      obtain ⟨small, head, tail, opened, inner, closed⟩ := laid
      have wellBody := wellFormed.2.2.2
      have whole := Machine.Consumes.capture opened (ih wellBody inner)
        (body.le_of_laidOut wellBody inner) closed
      exact whole
  | repetition quantifier single =>
      obtain ⟨next, read, tested⟩ := laid
      rw [width_repetition]
      exact .repetition read tested
  | loop quantifier nullable counter body ih =>
      obtain ⟨register, head, tail, numbered, shape, inner⟩ := laid
      obtain ⟨valid, _, fresh, wellBody⟩ := wellFormed
      have own : (if quantifier.needsCounter nullable then [counter] else []) =
          if quantifier.needsCounter nullable then [register.val] else [] := by
        split
        · rw [numbered ‹_›]
        · rfl
      rw [width_loop, counters, own]
      exact .loop valid shape (body.le_of_laidOut wellBody inner) (ih wellBody inner) fun needed =>
        numbered needed ▸ (fresh needed).2
  | atomic body ih =>
      obtain ⟨head, tail, enter, inner, finish⟩ := laid
      exact .atomic enter (ih wellFormed inner) (body.le_of_laidOut wellFormed inner) finish
  | look direction width body ih =>
      obtain ⟨head, tail, enter, inner, finish⟩ := laid
      exact .look enter (ih wellFormed.2 inner) (body.le_of_laidOut wellFormed.2 inner) finish

end Expr

end ByteRegex
