import ByteRegex.Proofs.Assembly.LaidOut
import ByteRegex.Proofs.Simulation.Behavior

/-!
# Loops

A loop decides twice: where it is entered and where an iteration has ended. Either way it may leave,
iterate or try both in order, and each of the code shapes of a loop decides what the repeat decides
that it stands for. The proof about whole loops sees only these decisions.
-/

namespace ByteRegex

namespace Quantifier

variable {α : Type}

/-- The order in which a repeat that may leave or iterate tries the two. -/
def prefer (quantifier : Quantifier) (leave again : Option α) : Option α :=
  if quantifier.greed = .lazy then leave.or again else again.or leave

/-- What a repeat makes of leaving and of iterating, after so many iterations. -/
def resolve (quantifier : Quantifier) (count : Nat) (idle : Bool) (leave again : Option α) :
    Option α :=
  if quantifier.isDone count idle then leave
  else if count < quantifier.least then again
  else quantifier.prefer leave again

theorem not_isDone_of_lt {quantifier : Quantifier} {count : Nat} {idle : Bool}
    (below : count < quantifier.least) : ¬ quantifier.isDone count idle = true := by
  simp only [isDone, Bool.and_eq_true, decide_eq_true_eq, not_and]
  intro enough
  omega

theorem resolve_of_lt {quantifier : Quantifier} {count : Nat} {idle : Bool} {leave again : Option α}
    (below : count < quantifier.least) : quantifier.resolve count idle leave again = again := by
  rw [resolve, if_neg (not_isDone_of_lt below), if_pos below]

theorem resolve_of_isDone {quantifier : Quantifier} {count : Nat} {idle : Bool}
    {leave again : Option α} (finished : quantifier.isDone count idle = true) :
    quantifier.resolve count idle leave again = leave := by
  rw [resolve, if_pos finished]

theorem resolve_of_le {quantifier : Quantifier} {count : Nat} {idle : Bool} {leave again : Option α}
    (enough : quantifier.least ≤ count) (unfinished : ¬ quantifier.isDone count idle = true) :
    quantifier.resolve count idle leave again = quantifier.prefer leave again := by
  rw [resolve, if_neg unfinished, if_neg (Nat.not_lt.mpr enough)]

theorem needsCounter_mono {quantifier : Quantifier} {nullable : Bool}
    (counts : quantifier.needsCounter false = true) : quantifier.needsCounter nullable = true := by
  unfold needsCounter at counts ⊢
  split at counts <;> simp_all

theorem needsCounter_of_watched {quantifier : Quantifier} (unbounded : quantifier.most = none) :
    quantifier.needsCounter true = true := by
  unfold needsCounter
  split <;> simp_all

theorem findSome?_iterate {quantifier : Quantifier} {size : Nat}
    {body : Nat → Slots → List (Nat × Slots)} {count : Nat} {idle : Bool} {position : Nat}
    {slots : Slots} (answer : Nat × Slots → Option α) :
    (quantifier.iterate size body count idle position slots).findSome? answer =
      quantifier.resolve count idle (answer (position, slots))
        (((body position slots).flatMap fun result =>
          quantifier.iterate size body (count + 1) (result.1 ≤ position || size < result.1)
            result.1 result.2).findSome? answer) := by
  unfold resolve
  by_cases finished : quantifier.isDone count idle = true
  · rw [iterate_of_isDone _ _ finished, if_pos finished]
    simp
  · rw [iterate_of_not_isDone _ _ finished, if_neg finished, choices, prefer]
    split
    · rfl
    · split
      · rw [List.findSome?_cons]
        cases answer (position, slots) <;> rfl
      · simp [List.findSome?_append]

end Quantifier

namespace Machine

variable {machine : Machine} {keeps : Registers → Prop} {need address next position : Nat}
  {registers : Registers} {answer leave again : Option (Nat × Slots)} {quantifier : Quantifier}
  {register : Fin Capacity.counters} {bound target : Nat}

namespace Behaves

theorem jump (inside : position ≤ machine.subject.size)
    (read : machine.code.instruction? address = some (.jump target, next))
    (later : machine.Behaves keeps need target position registers answer) :
    machine.Behaves keeps (need + 1) address position registers answer :=
  .of_move inside read later

theorem reset (inside : position ≤ machine.subject.size)
    (read : machine.code.instruction? address = some (.counterReset register, next))
    (later : machine.Behaves keeps need next position (registers.resetCounter register position)
      answer) : machine.Behaves keeps (need + 1) address position registers answer :=
  .of_move inside read (.assign later)

theorem increment (inside : position ≤ machine.subject.size)
    (read : machine.code.instruction? address = some (.counterIncrement register, next))
    (later : machine.Behaves keeps need next position (registers.increment register position)
      answer) : machine.Behaves keeps (need + 1) address position registers answer :=
  .of_move inside read (.assign later)

theorem jumpLess (inside : position ≤ machine.subject.size)
    (read : machine.code.instruction? address = some (.jumpLess register bound target, next))
    (later : machine.Behaves keeps need
      (if (registers.counters.get register).count < bound then target else next) position registers
      answer) : machine.Behaves keeps (need + 1) address position registers answer :=
  .of_move inside read later

theorem jumpAtLeast (inside : position ≤ machine.subject.size)
    (read : machine.code.instruction? address = some (.jumpAtLeast register bound target, next))
    (later : machine.Behaves keeps need
      (if bound ≤ (registers.counters.get register).count then target else next) position registers
      answer) : machine.Behaves keeps (need + 1) address position registers answer :=
  .of_move inside read later

theorem jumpStuck (inside : position ≤ machine.subject.size)
    (read : machine.code.instruction? address = some (.jumpStuck register target, next))
    (later : machine.Behaves keeps need
      (if (registers.counters.get register).mark = position then target else next) position
      registers answer) : machine.Behaves keeps (need + 1) address position registers answer :=
  .of_move inside read later

theorem enterOr (inside : position ≤ machine.subject.size)
    (read : machine.code.instruction? address = some (quantifier.enterOr target, next))
    (leaves : machine.Behaves keeps need target position registers leave)
    (iterates : machine.Behaves keeps need next position registers again) :
    machine.Behaves keeps (need + 1) address position registers (quantifier.prefer leave again) := by
  unfold Quantifier.enterOr at read
  unfold Quantifier.prefer
  by_cases slow : quantifier.greed = .lazy
  · rw [if_pos slow] at read ⊢
    exact .of_move inside read (.branch leaves iterates)
  · rw [if_neg slow] at read ⊢
    exact .of_move inside read (.branch iterates leaves)

theorem againAt (inside : position ≤ machine.subject.size)
    (read : machine.code.instruction? address = some (quantifier.againAt target, next))
    (leaves : machine.Behaves keeps need next position registers leave)
    (iterates : machine.Behaves keeps need target position registers again) :
    machine.Behaves keeps (need + 1) address position registers (quantifier.prefer leave again) := by
  unfold Quantifier.againAt at read
  unfold Quantifier.prefer
  by_cases slow : quantifier.greed = .lazy
  · rw [if_pos slow] at read ⊢
    exact .of_move inside read (.branch leaves iterates)
  · rw [if_neg slow] at read ⊢
    exact .of_move inside read (.branch iterates leaves)

end Behaves

/-- What the register of a loop says behind an iteration. -/
structure Tracks (quantifier : Quantifier) (nullable : Bool) (register : Fin Capacity.counters)
    (count : Nat) (idle : Bool) (position : Nat) (registers : Registers) : Prop where
  count : quantifier.needsCounter false = true → (registers.counters.get register).count = count
  watched : quantifier.most = none → nullable = true →
    ((registers.counters.get register).mark = position ↔ idle = true)
  consumes : quantifier.most = none → nullable = false → idle = false

/-- What the registers are like at the start of the body, after `count` iterations. -/
structure Begins (quantifier : Quantifier) (nullable : Bool) (register : Fin Capacity.counters)
    (count position : Nat) (registers begun : Registers) : Prop where
  spans : begun.spans = registers.spans
  same : registers.SameBut [] (if quantifier.needsCounter nullable then [register.val] else []) begun
  count : quantifier.needsCounter false = true →
    (begun.counters.get register).count = count + 1
  mark : quantifier.most = none → nullable = true →
    (begun.counters.get register).mark = position

/-- At an address a loop decides as its repeat does after `count` iterations. It may change its own
register before it leaves or begins another iteration. -/
def Decides (machine : Machine) (quantifier : Quantifier) (nullable : Bool)
    (register : Fin Capacity.counters) (count : Nat) (idle : Bool)
    (address head exit position : Nat) (registers : Registers) : Prop :=
  ∃ left begun : Registers, left.spans = registers.spans ∧
    registers.SameBut [] (if quantifier.needsCounter nullable then [register.val] else []) left ∧
    Begins quantifier nullable register count position registers begun ∧
    ∀ {keeps : Registers → Prop} {need : Nat} {leave again : Option (Nat × Slots)},
      (quantifier.least ≤ count → machine.Behaves keeps need exit position left leave) →
      (¬ quantifier.isDone count idle = true →
        machine.Behaves keeps need head position begun again) →
      machine.Behaves keeps (need + 4) address position registers
        (quantifier.resolve count idle leave again)

section

variable {nullable : Bool} {count : Nat} {idle : Bool}

theorem Begins.unchanged (uncounted : quantifier.needsCounter false = false)
    (unwatched : quantifier.most = none → nullable = false) :
    Begins quantifier nullable register count position registers registers where
  spans := rfl
  same := .refl _
  count counted := by
    rw [uncounted] at counted
    cases counted
  mark unbounded watched := by
    rw [unwatched unbounded] at watched
    cases watched

theorem Begins.incremented (counted : quantifier.needsCounter nullable = true)
    (tracked : quantifier.needsCounter false = true →
      (registers.counters.get register).count = count) :
    Begins quantifier nullable register count position registers
      (registers.increment register position) where
  spans := rfl
  same := by
    refine ⟨fun _ _ => rfl, fun counter outside => ?_⟩
    rw [if_pos counted, List.mem_singleton] at outside
    rw [Registers.increment, Registers.get_set, if_neg fun same => outside (congrArg _ same)]
  count counts := by
    rw [Registers.increment, Registers.get_set, if_pos rfl]
    exact congrArg (· + 1) (tracked counts)
  mark _ _ := by rw [Registers.increment, Registers.get_set, if_pos rfl]

theorem resetCounter_sameBut (counted : quantifier.needsCounter nullable = true) :
    registers.SameBut [] (if quantifier.needsCounter nullable then [register.val] else [])
      (registers.resetCounter register position) := by
  refine ⟨fun _ _ => rfl, fun counter outside => ?_⟩
  rw [if_pos counted, List.mem_singleton] at outside
  rw [Registers.resetCounter, Registers.get_set, if_neg fun same => outside (congrArg _ same)]

/-- A loop that resets its counter begins its first iteration with a count of one. -/
theorem Begins.first (counted : quantifier.needsCounter nullable = true) :
    Begins quantifier nullable register 0 position registers
      ((registers.resetCounter register position).increment register position) := by
  have next : Begins quantifier nullable register 0 position
      (registers.resetCounter register position)
      ((registers.resetCounter register position).increment register position) := by
    refine .incremented counted fun _ => ?_
    rw [Registers.resetCounter, Registers.get_set, if_pos rfl]
  exact ⟨next.spans, (resetCounter_sameBut counted).trans next.same, next.count, next.mark⟩

/-- Behind an iteration that left the register of its loop alone. -/
theorem Begins.tracks {begun after : Registers} {stop : Nat}
    (begins : Begins quantifier nullable register count position registers begun)
    (untouched : quantifier.needsCounter nullable = true →
      after.counters.get register = begun.counters.get register)
    (consumes : nullable = false → position < stop) (beyond : position ≤ stop)
    (idles : idle = decide (stop ≤ position)) :
    Tracks quantifier nullable register (count + 1) idle stop after where
  count counted := by
    rw [untouched (Quantifier.needsCounter_mono counted)]
    exact begins.count counted
  watched most watched := by
    subst watched
    rw [untouched (Quantifier.needsCounter_of_watched most), begins.mark most rfl, idles,
      decide_eq_true_iff]
    omega
  consumes _ steady := by
    have ahead := consumes steady
    rw [idles, decide_eq_false_iff_not]
    omega

/-- A loop that counts to its minimum iterates until it is there. -/
theorem Behaves.untilLeast (inside : position ≤ machine.subject.size)
    (read : machine.code.instruction? address =
      some (.jumpLess register quantifier.least target, next))
    (counted : (registers.counters.get register).count = count)
    (iterates : count < quantifier.least →
      machine.Behaves keeps need target position registers again)
    (later : quantifier.least ≤ count → machine.Behaves keeps need next position registers
      (quantifier.resolve count idle leave again)) :
    machine.Behaves keeps (need + 1) address position registers
      (quantifier.resolve count idle leave again) := by
  apply Behaves.jumpLess inside read
  rw [counted]
  by_cases few : count < quantifier.least
  · rw [if_pos few, Quantifier.resolve_of_lt few]
    exact iterates few
  · rw [if_neg few]
    exact later (Nat.not_lt.mp few)

/-- A loop that watches its iterations leaves behind one that consumed nothing. -/
theorem Behaves.unlessStuck (inside : position ≤ machine.subject.size)
    (read : machine.code.instruction? address = some (.jumpStuck register target, next))
    (tracks : Tracks quantifier nullable register count idle position registers)
    (most : quantifier.most = none) (watched : nullable = true) (enough : quantifier.least ≤ count)
    (leaves : machine.Behaves keeps need target position registers leave)
    (later : ¬ quantifier.isDone count idle = true →
      machine.Behaves keeps need next position registers (quantifier.prefer leave again)) :
    machine.Behaves keeps (need + 1) address position registers
      (quantifier.resolve count idle leave again) := by
  have done : quantifier.isDone count idle = true ↔ idle = true := by
    simp [Quantifier.isDone, most, enough]
  apply Behaves.jumpStuck inside read
  by_cases finished : quantifier.isDone count idle = true
  · rw [if_pos ((tracks.watched most watched).mpr (done.mp finished)),
      Quantifier.resolve_of_isDone finished]
    exact leaves
  · rw [if_neg (mt (tracks.watched most watched).mp (mt done.mpr finished)),
      Quantifier.resolve_of_le enough finished]
    exact later finished

end

end Machine

section

open Machine

variable {machine : Machine} {quantifier : Quantifier} {nullable : Bool}
  {register : Fin Capacity.counters} {entry head tail exit position : Nat} {registers : Registers}

/-- A loop enters as its repeat begins. -/
theorem LoopAt.decides_entry
    (shape : LoopAt machine.code quantifier nullable register entry head tail exit)
    (valid : quantifier.Valid) (inside : position ≤ machine.subject.size) :
    Decides machine quantifier nullable register 0 false entry head exit position registers := by
  have optional : quantifier.least = 0 → ¬ quantifier.isDone 0 false = true := by
    intro least
    rcases bounded : quantifier.most with _ | most
    · simp [Quantifier.isDone, bounded]
    · have positive := (valid.most most bounded).1
      simp [Quantifier.isDone, bounded]
      omega
  cases shape with
  | optional least most enter =>
      refine ⟨registers, registers, rfl, .refl _, .unchanged ?_ ?_, ?_⟩
      · simp [Quantifier.needsCounter, least, most]
      · simp [most]
      · intro keeps need leave again leaves iterates
        have unfinished := optional least
        have enough := Nat.le_of_eq least
        rw [Quantifier.resolve_of_le enough unfinished]
        have entered := Behaves.enterOr inside enter (leaves enough) (iterates unfinished)
        exact entered.mono (by omega)
  | star least most consumes enter back =>
      refine ⟨registers, registers, rfl, .refl _, .unchanged ?_ fun _ => consumes, ?_⟩
      · simp [Quantifier.needsCounter, least, most]
      · intro keeps need leave again leaves iterates
        have unfinished := optional least
        have enough := Nat.le_of_eq least
        rw [Quantifier.resolve_of_le enough unfinished]
        have entered := Behaves.enterOr inside enter (leaves enough) (iterates unfinished)
        exact entered.mono (by omega)
  | watchedStar least most watched enter increment stuck back =>
      have counted : quantifier.needsCounter nullable = true := by
        simp [Quantifier.needsCounter, least, most, watched]
      refine ⟨registers, _, rfl, .refl _, .incremented counted ?_, ?_⟩
      · simp [Quantifier.needsCounter, least, most]
      · intro keeps need leave again leaves iterates
        have unfinished := optional least
        have enough := Nat.le_of_eq least
        rw [Quantifier.resolve_of_le enough unfinished]
        have begun := Behaves.increment inside increment (iterates unfinished)
        have left := (leaves enough).mono (Nat.le_succ _)
        have entered := Behaves.enterOr inside enter left begun
        exact entered.mono (by omega)
  | plus least most consumes again =>
      refine ⟨registers, registers, rfl, .refl _, .unchanged ?_ fun _ => consumes, ?_⟩
      · simp [Quantifier.needsCounter, least, most]
      · intro keeps need leave again leaves iterates
        have below : 0 < quantifier.least := by omega
        rw [Quantifier.resolve_of_lt below]
        exact (iterates (Quantifier.not_isDone_of_lt below)).mono (by omega)
  | watchedPlus least most watched increment stuck again =>
      have counted : quantifier.needsCounter nullable = true := by
        simp [Quantifier.needsCounter, least, most, watched]
      refine ⟨registers, _, rfl, .refl _, .incremented counted ?_, ?_⟩
      · simp [Quantifier.needsCounter, least, most]
      · intro keeps need leave again leaves iterates
        have below : 0 < quantifier.least := by omega
        rw [Quantifier.resolve_of_lt below]
        have begun := Behaves.increment inside increment
          (iterates (Quantifier.not_isDone_of_lt below))
        exact begun.mono (by omega)
  | atMost least bounded several reset enter increment below =>
      have counted : quantifier.needsCounter nullable = true := by
        simp [Quantifier.needsCounter, least, bounded, several]
      refine ⟨registers.resetCounter register position, _, rfl, resetCounter_sameBut counted,
        .first counted, ?_⟩
      intro keeps need leave again leaves iterates
      have unfinished := optional least
      have enough := Nat.le_of_eq least
      rw [Quantifier.resolve_of_le enough unfinished]
      have begun := Behaves.increment inside increment (iterates unfinished)
      have left := (leaves enough).mono (Nat.le_succ _)
      have entered := Behaves.enterOr inside enter left begun
      exact (Behaves.reset inside reset entered).mono (by omega)
  | atLeast least _ _ reset increment _ _ | watchedAtLeast least _ _ reset increment _ _ _
  | exactly least _ reset increment _ | between least _ _ reset increment _ _ _ =>
      have counted : quantifier.needsCounter nullable = true := by
        apply quantifier.needsCounter_of_counting nullable
        first
          | exact .inl least
          | exact .inr ⟨least, by simp_all⟩
      refine ⟨registers.resetCounter register position, _, rfl, resetCounter_sameBut counted,
        .first counted, ?_⟩
      intro keeps need leave again leaves iterates
      have below : 0 < quantifier.least := by omega
      rw [Quantifier.resolve_of_lt below]
      have begun := Behaves.increment inside increment
        (iterates (Quantifier.not_isDone_of_lt below))
      exact (Behaves.reset inside reset begun).mono (by omega)

/-- Behind an iteration a loop goes on as its repeat does. -/
theorem LoopAt.decides_tail
    (shape : LoopAt machine.code quantifier nullable register entry head tail exit)
    (inside : position ≤ machine.subject.size) {count : Nat} {idle : Bool} (started : 1 ≤ count)
    (tracks : Tracks quantifier nullable register count idle position registers) :
    Decides machine quantifier nullable register count idle tail head exit position registers := by
  have steady : quantifier.most = none → nullable = false →
      ¬ quantifier.isDone count idle = true := by
    intro most consumes
    simp [Quantifier.isDone, most, tracks.consumes most consumes]
  have limited : ∀ most, quantifier.most = some most → quantifier.least ≤ count →
      (quantifier.isDone count idle = true ↔ most ≤ count) := by
    intro most bounded enough
    simp [Quantifier.isDone, bounded, enough]
  cases shape with
  | optional least most enter =>
      refine ⟨registers, registers, rfl, .refl _, .unchanged ?_ ?_, ?_⟩
      · simp [Quantifier.needsCounter, least, most]
      · simp [most]
      · intro keeps need leave more leaves iterates
        have finished : quantifier.isDone count idle = true := by
          simp [Quantifier.isDone, least, most, started]
        rw [Quantifier.resolve_of_isDone finished]
        exact (leaves (by omega)).mono (by omega)
  | star least most consumes enter back =>
      refine ⟨registers, registers, rfl, .refl _, .unchanged ?_ fun _ => consumes, ?_⟩
      · simp [Quantifier.needsCounter, least, most]
      · intro keeps need leave more leaves iterates
        have enough : quantifier.least ≤ count := by omega
        have unfinished := steady most consumes
        rw [Quantifier.resolve_of_le enough unfinished]
        have entered := Behaves.enterOr inside enter (leaves enough) (iterates unfinished)
        exact (Behaves.jump inside back entered).mono (by omega)
  | watchedStar least most watched enter increment stuck back =>
      have counted : quantifier.needsCounter nullable = true := by
        simp [Quantifier.needsCounter, least, most, watched]
      refine ⟨registers, _, rfl, .refl _, .incremented counted tracks.count, ?_⟩
      intro keeps need leave more leaves iterates
      have enough : quantifier.least ≤ count := by omega
      apply Behaves.unlessStuck inside stuck tracks most watched enough
      · exact (leaves enough).mono (by omega)
      · intro unfinished
        have begun := Behaves.increment inside increment (iterates unfinished)
        have left := (leaves enough).mono (Nat.le_succ _)
        exact Behaves.jump inside back (Behaves.enterOr inside enter left begun)
  | plus least most consumes again =>
      refine ⟨registers, registers, rfl, .refl _, .unchanged ?_ fun _ => consumes, ?_⟩
      · simp [Quantifier.needsCounter, least, most]
      · intro keeps need leave more leaves iterates
        have enough : quantifier.least ≤ count := by omega
        have unfinished := steady most consumes
        rw [Quantifier.resolve_of_le enough unfinished]
        have repeats := Behaves.againAt inside again (leaves enough) (iterates unfinished)
        exact repeats.mono (by omega)
  | watchedPlus least most watched increment stuck again =>
      have counted : quantifier.needsCounter nullable = true := by
        simp [Quantifier.needsCounter, least, most, watched]
      refine ⟨registers, _, rfl, .refl _, .incremented counted tracks.count, ?_⟩
      intro keeps need leave more leaves iterates
      have enough : quantifier.least ≤ count := by omega
      apply Behaves.unlessStuck inside stuck tracks most watched enough
      · exact (leaves enough).mono (by omega)
      · intro unfinished
        have begun := Behaves.increment inside increment (iterates unfinished)
        have left := (leaves enough).mono (Nat.le_succ _)
        exact (Behaves.againAt inside again left begun).mono (by omega)
  | atMost least bounded several reset enter increment below =>
      have counted nullable : quantifier.needsCounter nullable = true := by
        simp [Quantifier.needsCounter, least, bounded, several]
      refine ⟨registers, _, rfl, .refl _, .incremented (counted _) tracks.count, ?_⟩
      intro keeps need leave more leaves iterates
      have enough : quantifier.least ≤ count := by omega
      apply Behaves.jumpLess inside below
      rw [tracks.count (counted _)]
      by_cases finished : quantifier.isDone count idle = true
      · have reached := (limited _ bounded enough).mp finished
        rw [Quantifier.resolve_of_isDone finished, if_neg (Nat.not_lt.mpr reached)]
        exact (leaves enough).mono (by omega)
      · have room := mt (limited _ bounded enough).mpr finished
        rw [Quantifier.resolve_of_le enough finished, if_pos (Nat.not_le.mp room)]
        have begun := Behaves.increment inside increment (iterates finished)
        have left := (leaves enough).mono (Nat.le_succ _)
        exact (Behaves.enterOr inside enter left begun).mono (by omega)
  | atLeast least most consumes reset increment below again =>
      have counted nullable := quantifier.needsCounter_of_counting nullable (.inl least)
      refine ⟨registers, _, rfl, .refl _, .incremented (counted _) tracks.count, ?_⟩
      intro keeps need leave more leaves iterates
      have unfinished := steady most consumes
      have begun := Behaves.increment inside increment (iterates unfinished)
      apply Behaves.untilLeast inside below (tracks.count (counted _))
      · intro few
        exact begun.mono (by omega)
      · intro enough
        rw [Quantifier.resolve_of_le enough unfinished]
        have left := (leaves enough).mono (Nat.le_succ _)
        exact (Behaves.againAt inside again left begun).mono (by omega)
  | watchedAtLeast least most watched reset increment below stuck again =>
      have counted nullable := quantifier.needsCounter_of_counting nullable (.inl least)
      refine ⟨registers, _, rfl, .refl _, .incremented (counted _) tracks.count, ?_⟩
      intro keeps need leave more leaves iterates
      apply Behaves.untilLeast inside below (tracks.count (counted _))
      · intro few
        have begun := Behaves.increment inside increment
          (iterates (Quantifier.not_isDone_of_lt few))
        exact begun.mono (by omega)
      · intro enough
        apply Behaves.unlessStuck inside stuck tracks most watched enough
        · exact (leaves enough).mono (by omega)
        · intro unfinished
          have begun := Behaves.increment inside increment (iterates unfinished)
          have left := (leaves enough).mono (Nat.le_succ _)
          exact Behaves.againAt inside again left begun
  | exactly least most reset increment below =>
      have counted nullable := quantifier.needsCounter_of_counting nullable
        (.inr ⟨least, by simp [most]⟩)
      refine ⟨registers, _, rfl, .refl _, .incremented (counted _) tracks.count, ?_⟩
      intro keeps need leave more leaves iterates
      apply Behaves.untilLeast inside below (tracks.count (counted _))
      · intro few
        have begun := Behaves.increment inside increment
          (iterates (Quantifier.not_isDone_of_lt few))
        exact begun.mono (by omega)
      · intro enough
        rw [Quantifier.resolve_of_isDone ((limited _ most enough).mpr enough)]
        exact (leaves enough).mono (by omega)
  | between least bounded differ reset increment below full again =>
      have counted nullable := quantifier.needsCounter_of_counting nullable
        (.inr ⟨least, by simp [bounded]⟩)
      refine ⟨registers, _, rfl, .refl _, .incremented (counted _) tracks.count, ?_⟩
      intro keeps need leave more leaves iterates
      apply Behaves.untilLeast inside below (tracks.count (counted _))
      · intro few
        have begun := Behaves.increment inside increment
          (iterates (Quantifier.not_isDone_of_lt few))
        exact begun.mono (by omega)
      · intro enough
        apply Behaves.jumpAtLeast inside full
        rw [tracks.count (counted _)]
        by_cases finished : quantifier.isDone count idle = true
        · have reached := (limited _ bounded enough).mp finished
          rw [Quantifier.resolve_of_isDone finished, if_pos reached]
          exact (leaves enough).mono (by omega)
        · have room := mt (limited _ bounded enough).mpr finished
          rw [Quantifier.resolve_of_le enough finished, if_neg room]
          have begun := Behaves.increment inside increment (iterates finished)
          have left := (leaves enough).mono (Nat.le_succ _)
          exact Behaves.againAt inside again left begun

/-- The rounds that are left pay for another iteration, or the byte that it consumes does. -/
theorem Quantifier.roundsLeft_pay {count stop size cost gain : Nat} {idle : Bool}
    (unfinished : ¬ quantifier.isDone count idle = true) (beyond : position ≤ stop)
    (bounded : stop ≤ size) (steep : cost ≤ gain) :
    gain * (size - stop) +
        quantifier.roundsLeft (count + 1) (stop ≤ position || size < stop) * cost ≤
      gain * (size - position) + (quantifier.roundsLeft count idle - 1) * cost := by
  have positive := quantifier.roundsLeft_pos unfinished
  rcases quantifier.roundsLeft_succ unfinished (stop ≤ position || size < stop) with
    fewer | ⟨same, active⟩
  · have nearer : size - stop ≤ size - position := by omega
    exact Nat.add_le_add (Nat.mul_le_mul_left _ nearer) (Nat.mul_le_mul_right _ (by omega))
  · rw [Bool.or_eq_false_iff, decide_eq_false_iff_not] at active
    obtain ⟨before, rounds⟩ : ∃ before, quantifier.roundsLeft count idle = before + 1 :=
      ⟨quantifier.roundsLeft count idle - 1, by omega⟩
    have step : gain * (size - stop) + gain ≤ gain * (size - position) := by
      rw [← Nat.mul_succ]
      exact Nat.mul_le_mul_left _ (by omega)
    rw [same, rounds, Nat.add_sub_cancel, Nat.succ_mul]
    omega

section

variable {groups counters : List Nat} {body : Nat → Slots → List (Nat × Slots)}
  {slope overhead reserve : Nat}

/-- Wherever a loop decides as its repeat does, it answers as its repeat does. -/
theorem behaves_of_decides
    (shape : LoopAt machine.code quantifier nullable register entry head tail exit)
    (runs : Simulates machine groups counters body slope overhead reserve head tail)
    (confined : Confined machine.subject.size body)
    (consumes : nullable = false → ∀ position slots result, position ≤ machine.subject.size →
      Slots.Within machine.subject.size slots → result ∈ body position slots → position < result.1)
    (fresh : quantifier.needsCounter nullable = true → register.val ∉ counters)
    {keeps : Registers → Prop} {steep spare : Nat} (answer : Nat × Slots → Option (Nat × Slots))
    (gains : slope + overhead + 4 ≤ steep) (ready : reserve ≤ spare) {home : Registers}
    {count : Nat} {idle : Bool} {position : Nat} {address : Nat} {registers : Registers}
    (inside : position ≤ machine.subject.size)
    (within : Slots.Within machine.subject.size registers.spans)
    (homely : home.SameBut groups
      (counters ++ if quantifier.needsCounter nullable then [register.val] else []) registers)
    (decides : Decides machine quantifier nullable register count idle address head exit position
      registers)
    (continues : ∀ result ∈ quantifier.iterate machine.subject.size body count idle position
      registers.spans, ∀ after : Registers, after.spans = result.2 →
      home.SameBut groups
        (counters ++ if quantifier.needsCounter nullable then [register.val] else []) after →
      machine.Behaves keeps (steep * (machine.subject.size - result.1) + spare) exit result.1 after
        (answer result)) :
    machine.Behaves keeps (steep * (machine.subject.size - position) + spare +
        quantifier.roundsLeft count idle * (overhead + 4) + 4) address position registers
      ((quantifier.iterate machine.subject.size body count idle position registers.spans).findSome?
        answer) := by
  induction count, idle, position using Quantifier.iterate_induction quantifier
      machine.subject.size generalizing address registers with
  | finish count idle position finished =>
      obtain ⟨left, begun, spans, same, _, runs⟩ := decides
      have reached : (position, registers.spans) ∈ quantifier.iterate machine.subject.size body count
          idle position registers.spans := by
        rw [Quantifier.iterate_of_isDone _ _ finished]
        exact List.mem_singleton_self _
      have unchanged := homely.trans (same.mono (fun _ none => nomatch none) fun _ =>
        List.mem_append_right _)
      have leaves := continues _ reached left spans unchanged
      rw [Quantifier.findSome?_iterate]
      exact runs (fun _ => leaves.mono (Nat.le_add_right _ _))
        (fun unfinished => absurd finished unfinished)
  | again count idle position unfinished ih =>
      obtain ⟨left, begun, spans, same, begins, decided⟩ := decides
      obtain ⟨gain, rfl⟩ : ∃ gain, steep = slope + gain := ⟨steep - slope, by omega⟩
      have widen : ∀ {other : Registers}, registers.SameBut []
          (if quantifier.needsCounter nullable then [register.val] else []) other →
          home.SameBut groups
            (counters ++ if quantifier.needsCounter nullable then [register.val] else []) other :=
        fun changed => homely.trans (changed.mono (fun _ none => nomatch none) fun _ =>
          List.mem_append_right _)
      rw [Quantifier.findSome?_iterate]
      refine decided (fun enough => ?_) fun _ => ?_
      · have leaves := continues _ (Quantifier.mem_iterate_of_le enough) left spans (widen same)
        exact leaves.mono (Nat.le_add_right _ _)
      · rw [findSome?_flatMap, ← begins.spans]
        rw [← begins.spans] at within
        have body : machine.Behaves keeps _ head position begun _ :=
          runs slope (gain * (machine.subject.size - position) + spare +
            (quantifier.roundsLeft count idle - 1) * (overhead + 4) + 4)
            (fun result => (quantifier.iterate machine.subject.size body (count + 1)
              (result.1 ≤ position || machine.subject.size < result.1) result.1
              result.2).findSome? answer) inside within (Nat.le_refl _) (by omega) ?_
        · apply body.mono
          have positive := quantifier.roundsLeft_pos unfinished
          obtain ⟨before, rounds⟩ : ∃ before, quantifier.roundsLeft count idle = before + 1 :=
            ⟨quantifier.roundsLeft count idle - 1, by omega⟩
          rw [rounds, Nat.add_sub_cancel, Nat.succ_mul, Nat.add_mul]
          omega
        · intro result taken after found changed
          obtain ⟨beyond, bounded, kept⟩ := confined _ _ _ inside within taken
          have idles : (decide (result.1 ≤ position) || decide (machine.subject.size < result.1)) =
              decide (result.1 ≤ position) := by
            rw [decide_eq_false (Nat.not_lt.mpr bounded), Bool.or_false]
          have tracks : Tracks quantifier nullable register (count + 1)
              (result.1 ≤ position || machine.subject.size < result.1) result.1 after :=
            begins.tracks (fun needed => changed.counters register (fresh needed))
              (fun steady => consumes steady _ _ _ inside within taken) beyond idles
          have arrived : home.SameBut groups
              (counters ++ if quantifier.needsCounter nullable then [register.val] else []) after :=
            (widen begins.same).trans
              (changed.mono (fun _ inner => inner) fun _ => List.mem_append_left _)
          rw [← found] at kept
          have rest := ih result.1 bounded kept arrived
            (shape.decides_tail bounded (Nat.le_add_left ..) tracks) fun last reached => by
              rw [found] at reached
              rw [begins.spans] at taken
              exact continues last (Quantifier.mem_iterate_of_body unfinished taken reached)
          have spent := quantifier.roundsLeft_pay unfinished beyond bounded
            (show overhead + 4 ≤ gain by omega)
          rw [← found]
          apply rest.mono
          rw [Nat.add_mul]
          omega

end

end

end ByteRegex
