import ByteRegex.Proofs.Simulation.Cost
import ByteRegex.Proofs.Simulation.Loop
import ByteRegex.Proofs.Simulation.Single

/-!
# Expressions

The code of an expression answers as the results of the expression do, in their order. The proof
follows the expression: whatever comes behind its code is the continuation that the code of a part
goes on with.
-/

namespace ByteRegex

namespace Machine

variable {machine : Machine} {groups moreGroups counters moreCounters : List Nat}
  {first second : Nat → Slots → List (Nat × Slots)}
  {slope steeper overhead more reserve further start middle stop : Nat}

namespace Simulates

theorem mono (simulates : machine.Simulates groups counters first slope overhead reserve start stop)
    (enough : overhead ≤ more) :
    machine.Simulates groups counters first slope more reserve start stop :=
  fun _ _ _ steep spare answer inside within steepness spared continues =>
    (simulates steep spare answer inside within steepness spared continues).mono (by omega)

theorem empty (machine : Machine) (address : Nat) :
    machine.Simulates [] [] (Expr.empty.results machine.subject) 0 0 0 address address := by
  intro keeps position registers steep spare answer _ _ _ _ continues
  rw [Expr.results] at continues ⊢
  rw [List.findSome?_singleton]
  exact continues _ (List.mem_singleton_self _) registers rfl (.refl _)

theorem sequence (former : machine.Simulates groups counters first slope overhead reserve start middle)
    (latter : machine.Simulates moreGroups moreCounters second steeper more further middle stop)
    (confined : Confined machine.subject.size first) :
    machine.Simulates (groups ++ moreGroups) (counters ++ moreCounters)
      (fun position slots => (first position slots).flatMap fun result => second result.1 result.2)
      (slope + steeper) (overhead + more) (reserve + further) start stop := by
  intro keeps position registers steep spare answer inside within steepness spared continues
  rw [findSome?_flatMap]
  have whole : machine.Behaves keeps _ start position registers _ :=
    former steep (spare + more) (fun result => (second result.1 result.2).findSome? answer) inside
      within (by omega) (by omega) ?_
  · exact whole.mono (by omega)
  · intro result taken after found changed
    obtain ⟨_, bounded, kept⟩ := confined _ _ _ inside within taken
    rw [← found] at kept ⊢
    rw [← Nat.add_assoc]
    apply latter steep spare answer bounded kept (by omega) (by omega)
    intro last reached final settled changedLater
    rw [found] at reached
    refine continues last (List.mem_flatMap.mpr ⟨result, taken, reached⟩) final settled ?_
    exact (changed.mono (fun _ => List.mem_append_left _) fun _ => List.mem_append_left _).trans
      (changedLater.mono (fun _ => List.mem_append_right _) fun _ => List.mem_append_right _)

theorem literal {caseless : Bool} {bytes : List UInt8}
    (laid : LiteralAt machine.code caseless bytes start stop) :
    machine.Simulates [] [] ((Expr.literal caseless bytes).results machine.subject) 0 bytes.length 0
      start stop := by
  induction laid with
  | nil address => exact empty machine address
  | @single byte rest start next stop read later ih =>
      have whole := sequence (simulates_test read) ih
        (Expr.results_confined (.test (.ofLiteral caseless byte)))
      have same : (Expr.literal caseless (byte :: rest)).results machine.subject =
          fun position slots => ((ByteTest.ofLiteral caseless byte).results machine.subject position
            slots).flatMap fun result =>
              (Expr.literal caseless rest).results machine.subject result.1 result.2 := by
        funext position slots
        rw [Expr.results, ByteTest.results, holdsAt_ofLiteral, spells, List.length_cons]
        cases machine.subject[position]?.any (equalBytes caseless · byte) with
        | false => rfl
        | true => simp only [Bool.true_and, if_true, List.flatMap_singleton, Expr.results,
            Nat.add_assoc, Nat.add_comm 1]
      rw [same]
      exact whole.mono (Nat.le_of_eq (Nat.add_comm ..))
  | @text bytes rest start first next stop several short read held later ih =>
      have filled : bytes ≠ [] := List.length_pos_iff.mp (by omega)
      have whole := sequence (simulates_text filled read held) ih
        (Expr.results_confined (.literal caseless bytes))
      have same : (Expr.literal caseless (bytes ++ rest)).results machine.subject =
          fun position slots => ((Expr.literal caseless bytes).results machine.subject position
            slots).flatMap fun result =>
              (Expr.literal caseless rest).results machine.subject result.1 result.2 := by
        funext position slots
        rw [Expr.results, Expr.results, spells_append, List.length_append]
        cases spells machine.subject caseless position bytes with
        | false => rfl
        | true => simp only [Bool.true_and, if_true, List.flatMap_singleton, Expr.results,
            Nat.add_assoc]
      rw [same]
      apply whole.mono
      rw [List.length_append]
      omega

theorem alternative {ahead joint behind : Nat}
    (enter : machine.code.instruction? start = some (.branch behind, ahead))
    (former : machine.Simulates groups counters first slope overhead reserve ahead joint)
    (leave : machine.code.instruction? joint = some (.jump stop, behind))
    (latter : machine.Simulates moreGroups moreCounters second steeper more further behind stop)
    (confined : Confined machine.subject.size first) :
    machine.Simulates (groups ++ moreGroups) (counters ++ moreCounters)
      (fun position slots => first position slots ++ second position slots)
      (slope + steeper) (overhead + more + 2) (reserve + further) start stop := by
  intro keeps position registers steep spare answer inside within steepness spared continues
  rw [List.findSome?_append]
  have tried : machine.Behaves keeps _ ahead position registers _ :=
    former steep (spare + 1) answer inside within (by omega) (by omega) fun result taken after found
      changed => by
        obtain ⟨_, bounded, _⟩ := confined _ _ _ inside within taken
        have later := continues result (List.mem_append_left _ taken) after found
          (changed.mono (fun _ => List.mem_append_left _) fun _ => List.mem_append_left _)
        exact .jump bounded leave later
  have otherwise : machine.Behaves keeps _ behind position registers _ :=
    latter steep spare answer inside within (by omega) (by omega) fun result taken after found
      changed => continues result (List.mem_append_right _ taken) after found
        (changed.mono (fun _ => List.mem_append_right _) fun _ => List.mem_append_right _)
  have entered : machine.Behaves keeps (steep * (machine.subject.size - position) + spare + 1 +
      overhead + more + 1) start position registers _ :=
    .of_move inside enter (.branch (tried.mono (by omega)) (otherwise.mono (by omega)))
  exact entered.mono (by omega)

theorem capture {group : Fin Capacity.slots} {head tail : Nat}
    (opened : machine.code.instruction? start = some (.openGroup group, head))
    (body : machine.Simulates groups counters first slope overhead reserve head tail)
    (closed : machine.code.instruction? tail = some (.closeGroup group, stop))
    (outside : group.val ∉ groups) (confined : Confined machine.subject.size first) :
    machine.Simulates (group.val :: groups) counters
      (fun position slots => (first position slots).map fun result =>
        (result.1, Slots.record result.2 group position result.1))
      slope (overhead + 2) reserve start stop := by
  intro keeps position registers steep spare answer inside within steepness spared continues
  rw [List.findSome?_map]
  have ran : machine.Behaves keeps _ head position (registers.openGroup group position) _ :=
    body steep (spare + 1) (fun result => answer (result.1,
        Slots.record result.2 group position result.1)) inside within steepness (by omega) ?_
  · have entered : machine.Behaves keeps _ start position registers _ :=
      .of_move inside opened (.assign ran)
    exact entered.mono (by omega)
  · intro result taken after found changed
    obtain ⟨_, bounded, _⟩ := confined _ _ _ inside within taken
    have origin : after.openings.get group = position := by
      rw [changed.openings group outside, Registers.openGroup, Registers.get_set, if_pos rfl]
    have recorded : (after.closeGroup group result.1).spans =
        Slots.record result.2 group position result.1 := by
      rw [Registers.closeGroup, origin, ← found, Slots.record_fin]
    have later := continues _ (List.mem_map_of_mem taken) (after.closeGroup group result.1) recorded
      (changed.closeGroup result.1)
    exact .of_move bounded closed (.assign later)

/-- A body that runs as a call stops at its first result. -/
theorem call {head tail position : Nat} {registers : Registers}
    (body : machine.Simulates groups counters first slope overhead reserve head tail)
    (finish : machine.code.instruction? tail = some (.subEnd, stop))
    (confined : Confined machine.subject.size first) (inside : position ≤ machine.subject.size)
    (within : Slots.Within machine.subject.size registers.spans) :
    machine.Behaves (registers.SameBut groups counters)
      (slope * machine.subject.size + reserve + overhead + 1) head position registers
      (first position registers.spans).head? := by
  have ran : machine.Behaves (registers.SameBut groups counters) _ head position registers _ :=
    body slope (reserve + 1) some inside within (Nat.le_refl _) (Nat.le_succ _) ?_
  · rw [← List.head?_filterMap, List.filterMap_some] at ran
    apply ran.mono
    have fewer : slope * (machine.subject.size - position) ≤ slope * machine.subject.size :=
      Nat.mul_le_mul_left _ (Nat.sub_le _ _)
    omega
  · intro result taken after found changed
    obtain ⟨_, bounded, _⟩ := confined _ _ _ inside within taken
    have stopped : machine.Behaves (registers.SameBut groups counters) (0 + 1) tail result.1 after
        (some (result.1, after.spans)) := .of_move bounded finish (.accept changed)
    rw [found] at stopped
    exact stopped.mono (by omega)

theorem atomic {head tail : Nat}
    (enter : machine.code.instruction? start = some (.atomic stop, head))
    (body : machine.Simulates groups counters first slope overhead reserve head tail)
    (finish : machine.code.instruction? tail = some (.subEnd, stop))
    (confined : Confined machine.subject.size first) :
    machine.Simulates groups counters (fun position slots => (first position slots).take 1) 0 1
      (slope * machine.subject.size + reserve + overhead + 1) start stop := by
  intro keeps position registers steep spare answer inside within _ spared continues
  dsimp only at continues ⊢
  have tried := (call body finish confined inside within).mono
    (Nat.le_trans spared (Nat.le_add_left _ (steep * (machine.subject.size - position))))
  refine .of_move inside enter (.atomic tried ?_ ?_)
  · intro none
    rw [List.head?_eq_none_iff.mp none]
    rfl
  · intro result reached after found kept
    obtain ⟨rest, same⟩ := List.head?_eq_some_iff.mp reached
    have taken : result ∈ first position registers.spans := List.mem_of_head? reached
    obtain ⟨beyond, _, _⟩ := confined _ _ _ inside within taken
    rw [same] at continues ⊢
    have later := continues result (List.mem_singleton_self _) after found kept
    rw [List.take_succ_cons, List.take_zero, List.findSome?_singleton]
    exact later.mono (reached_pays beyond)

/-- The body of a lookaround is tried at one place only. -/
theorem look {direction : Look} {width head tail : Nat}
    (enter : machine.code.instruction? start =
      some (.look direction (if direction.isBehind then width else 0) stop, head))
    (body : machine.Simulates groups counters first slope overhead reserve head tail)
    (finish : machine.code.instruction? tail = some (.subEnd, stop))
    (confined : Confined machine.subject.size first)
    (fixed : direction.isBehind = true → ∀ position slots result,
      position ≤ machine.subject.size → Slots.Within machine.subject.size slots →
      result ∈ first position slots → result.1 = position + width) :
    machine.Simulates groups counters
      (fun position slots =>
        match direction.found width first position slots with
        | some inner => if direction.isPositive then [(position, inner.2)] else []
        | none => if direction.isPositive then [] else [(position, slots)]) 0 1
      (slope * machine.subject.size + reserve + overhead + 1) start stop := by
  intro keeps position registers steep spare answer inside within _ spared continues
  have enough : slope * machine.subject.size + reserve + overhead + 1 ≤
      steep * (machine.subject.size - position) + spare :=
    Nat.le_trans spared (Nat.le_add_left _ _)
  have short : (direction.isBehind &&
      decide (position < if direction.isBehind then width else 0)) = true →
      direction.found width first position registers.spans = none := by
    intro near
    simp only [Bool.and_eq_true, decide_eq_true_eq] at near
    rw [if_pos near.1] at near
    rw [Look.found, if_pos near.1, if_pos near.2]
  have tried : ¬ (direction.isBehind &&
      decide (position < if direction.isBehind then width else 0)) = true →
      machine.Behaves (registers.SameBut groups counters)
        (steep * (machine.subject.size - position) + spare) head
        (if direction.isBehind then position - (if direction.isBehind then width else 0)
          else position) registers (direction.found width first position registers.spans) := by
    intro far
    unfold Look.found
    cases behind : direction.isBehind with
    | false => exact (call body finish confined inside within).mono enough
    | true =>
        have reach : ¬ position < width := by simpa [behind] using far
        have origin : position - width ≤ machine.subject.size := Nat.le_trans (Nat.sub_le ..) inside
        have ran := (call body finish confined origin within).mono enough
        have stops : ∀ result ∈ first (position - width) registers.spans,
            decide (result.1 = position) = true := by
          intro result taken
          have stop := fixed behind _ _ _ origin within taken
          rw [Nat.sub_add_cancel (Nat.not_lt.mp reach)] at stop
          exact decide_eq_true stop
        simp only [if_true, if_neg reach, find?_eq_head? stops]
        exact ran
  have stops : direction.isBehind = true →
      ∀ result ∈ direction.found width first position registers.spans, result.1 = position := by
    intro behind result found
    rw [Look.found, if_pos behind] at found
    split at found
    · cases found
    · have chosen : (first (position - width) registers.spans).find?
          (fun result => decide (result.1 = position)) = some result := found
      simpa using List.find?_some chosen
  refine .of_move inside enter (.look short tried stops ?_ ?_ ?_)
  · intro positive result found after settled kept
    have reached : direction.found width first position registers.spans = some result := found
    simp only [reached, positive, if_true] at continues ⊢
    rw [List.findSome?_singleton]
    exact continues _ (List.mem_singleton_self _) after settled kept
  · intro negative none
    simp only [none, negative, Bool.false_eq_true, if_false] at continues ⊢
    rw [List.findSome?_singleton]
    exact continues _ (List.mem_singleton_self _) registers rfl (.refl _)
  · intro refused
    dsimp only
    cases found : direction.found width first position registers.spans with
    | none =>
        rw [found] at refused
        simp only [refused, Option.isNone_none, if_true, List.findSome?_nil]
    | some result =>
        rw [found] at refused
        simp only [refused, Option.isNone_some, Bool.false_eq_true, if_false, List.findSome?_nil]

end Simulates

/-- A loop answers as its repeat does. -/
theorem Simulates.loop {quantifier : Quantifier} {nullable : Bool}
    {register : Fin Capacity.counters} {head tail : Nat} (valid : quantifier.Valid)
    (shape : LoopAt machine.code quantifier nullable register start head tail stop)
    (body : machine.Simulates groups counters first slope overhead reserve head tail)
    (confined : Confined machine.subject.size first)
    (consumes : nullable = false → ∀ position slots result, position ≤ machine.subject.size →
      Slots.Within machine.subject.size slots → result ∈ first position slots → position < result.1)
    (fresh : quantifier.needsCounter nullable = true → register.val ∉ counters) :
    machine.Simulates groups
      (counters ++ if quantifier.needsCounter nullable then [register.val] else [])
      (quantifier.iterate machine.subject.size first 0 false) (slope + overhead + 4)
      (quantifier.roundsLeft 0 false * (overhead + 4) + 4) reserve start stop := by
  intro keeps position registers steep spare answer inside within steepness spared continues
  have decides : Decides machine quantifier nullable register 0 false start head stop position
      registers := shape.decides_entry valid inside
  rw [← Nat.add_assoc]
  exact behaves_of_decides shape body confined consumes fresh answer steepness spared inside within
    (.refl _) decides continues

end Machine

namespace Expr

open Machine

/-- Where the code of an expression is laid out, it answers as the expression does. -/
theorem simulates {machine : Machine} (expr : Expr) (wellFormed : expr.WellFormed)
    {start stop : Nat} (laid : expr.LaidOut machine.code start stop) :
    machine.Simulates expr.captures expr.counters (expr.results machine.subject) expr.slope
      expr.overhead (expr.reserve machine.subject.size) start stop := by
  induction expr generalizing start stop with
  | empty =>
      subst laid
      exact .empty machine start
  | test single => exact simulates_test laid
  | literal caseless bytes => exact .literal laid
  | assertion condition => exact simulates_assertion laid
  | backReference caseless group =>
      obtain ⟨_, read⟩ := laid
      exact simulates_backReference read
  | sequence first second ihFirst ihSecond =>
      obtain ⟨middle, former, latter⟩ := laid
      exact .sequence (ihFirst wellFormed.1 former) (ihSecond wellFormed.2 latter)
        first.results_confined
  | alternative first second ihFirst ihSecond =>
      obtain ⟨ahead, joint, behind, enter, former, leave, latter⟩ := laid
      exact .alternative enter (ihFirst wellFormed.1 former) leave (ihSecond wellFormed.2 latter)
        first.results_confined
  | capture group body ih =>
      obtain ⟨_, head, tail, opened, inner, closed⟩ := laid
      obtain ⟨_, _, fresh, wellBody⟩ := wellFormed
      exact .capture opened (ih wellBody inner) closed fresh body.results_confined
  | repetition quantifier single =>
      obtain ⟨next, read, tested⟩ := laid
      exact simulates_repetition wellFormed read tested
  | loop quantifier nullable counter body ih =>
      obtain ⟨register, head, tail, numbered, shape, inner⟩ := laid
      obtain ⟨valid, measured, numbers, wellBody⟩ := wellFormed
      have consumes : nullable = false → ∀ position slots result,
          position ≤ machine.subject.size → Slots.Within machine.subject.size slots →
          result ∈ body.results machine.subject position slots → position < result.1 :=
        fun steady _ _ _ => lt_of_not_nullable wellBody (measured ▸ steady)
      have fresh : quantifier.needsCounter nullable = true → register.val ∉ body.counters := by
        intro needed
        rw [numbered needed]
        exact (numbers needed).2
      have same : (if quantifier.needsCounter nullable then [register.val] else []) =
          if quantifier.needsCounter nullable then [counter] else [] := by
        split
        · rename_i needed
          rw [numbered needed]
        · rfl
      have looped := Simulates.loop valid shape (ih wellBody inner) body.results_confined consumes
        fresh
      rw [same] at looped
      exact looped
  | atomic body ih =>
      obtain ⟨head, tail, enter, inner, finish⟩ := laid
      exact .atomic enter (ih wellFormed inner) finish body.results_confined
  | look direction width body ih =>
      obtain ⟨head, tail, enter, inner, finish⟩ := laid
      obtain ⟨fixed, wellBody⟩ := wellFormed
      exact .look enter (ih wellBody inner) finish body.results_confined
        fun behind _ _ _ => eq_of_fixed wellBody (fixed behind).1

end Expr

end ByteRegex
