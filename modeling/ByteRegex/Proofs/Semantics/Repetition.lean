import ByteRegex.Proofs.Semantics.Extent

/-!
# Repeated tests

A repeat of a test of one byte stops wherever it has taken as many bytes as its bounds allow, up to
the first byte that fails the test. That is what iterating the test amounts to.
-/

namespace ByteRegex

namespace Machine

variable (test : Nat → Bool)

theorem countWhile_eq_add (limit position count : Nat) :
    countWhile test limit position count = count + countWhile test limit position 0 := by
  induction limit generalizing position count with
  | zero => rfl
  | succ limit ih =>
      rw [countWhile, countWhile]
      split
      · rw [ih, ih _ (0 + 1)]
        omega
      · rfl

theorem countWhile_succ (limit position : Nat) :
    countWhile test (limit + 1) position 0 =
      if test position then countWhile test limit (position + 1) 0 + 1 else 0 := by
  rw [countWhile]
  split
  · rw [countWhile_eq_add, Nat.zero_add, Nat.add_comm]
  · rfl

theorem countWhile_le (limit position : Nat) : countWhile test limit position 0 ≤ limit := by
  induction limit generalizing position with
  | zero => exact Nat.le_refl _
  | succ limit ih =>
      rw [countWhile_succ]
      split
      · exact Nat.succ_le_succ (ih _)
      · exact Nat.zero_le _

theorem countWhile_add (first second position : Nat) :
    countWhile test (first + second) position 0 =
      if countWhile test first position 0 < first then countWhile test first position 0
      else first + countWhile test second (position + first) 0 := by
  induction first generalizing position with
  | zero => rw [if_neg (Nat.not_lt_zero _), Nat.zero_add, Nat.zero_add, Nat.add_zero]
  | succ first ih =>
      rw [Nat.succ_add, countWhile_succ, countWhile_succ]
      by_cases holds : test position = true
      · rw [if_pos holds, if_pos holds, ih, Nat.add_assoc position, Nat.add_comm 1]
        simp only [Nat.add_lt_add_iff_right]
        split
        · rfl
        · omega
      · rw [if_neg holds, if_neg holds, if_pos (Nat.succ_pos _)]

end Machine

namespace Quantifier

open Machine

/-- Having taken so many bytes, from the fewest to the most, in the order of a repeat. -/
def stops (quantifier : Quantifier) (origin fewest most : Nat) (slots : Slots) :
    List (Nat × Slots) :=
  let counts := List.range' fewest (most + 1 - fewest)
  (if quantifier.greed = .lazy then counts else counts.reverse).map fun count =>
    (origin + count, slots)

variable {quantifier : Quantifier} {origin : Nat} {slots : Slots}

theorem stops_self (count : Nat) :
    quantifier.stops origin count count slots = [(origin + count, slots)] := by
  rw [stops, Nat.add_sub_cancel_left]
  split <;> rfl

theorem stops_of_lt {fewest most : Nat} (short : most < fewest) :
    quantifier.stops origin fewest most slots = [] := by
  rw [stops, Nat.sub_eq_zero_of_le short]
  split <;> rfl

theorem stops_of_le {fewest most : Nat} (room : fewest ≤ most) :
    quantifier.stops origin fewest most slots =
      if quantifier.greed = .lazy then
        (origin + fewest, slots) :: quantifier.stops origin (fewest + 1) most slots
      else quantifier.stops origin (fewest + 1) most slots ++ [(origin + fewest, slots)] := by
  have split : List.range' fewest (most + 1 - fewest) =
      fewest :: List.range' (fewest + 1) (most + 1 - (fewest + 1)) := by
    obtain ⟨more, rfl⟩ := Nat.exists_eq_add_of_le room
    rw [show fewest + more + 1 - fewest = more + 1 by omega,
      show fewest + more + 1 - (fewest + 1) = more by omega, List.range'_succ]
  unfold stops
  by_cases slow : quantifier.greed = .lazy
  · simp only [slow, if_true, split, List.map_cons]
  · simp only [slow, if_false, split, List.reverse_cons, List.map_append, List.map_cons, List.map_nil]

/-- A repeat that is not lazy starts with the most. -/
theorem stops_succ (quick : quantifier.greed ≠ .lazy) {fewest most : Nat} (room : fewest ≤ most + 1) :
    quantifier.stops origin fewest (most + 1) slots =
      (origin + (most + 1), slots) :: quantifier.stops origin fewest most slots := by
  obtain ⟨more, same⟩ := Nat.exists_eq_add_of_le room
  have split : List.range' fewest (most + 1 + 1 - fewest) =
      List.range' fewest (most + 1 - fewest) ++ [most + 1] := by
    rw [show most + 1 + 1 - fewest = more + 1 by omega, show most + 1 - fewest = more by omega,
      List.range'_concat, Nat.one_mul, same]
  simp only [stops, if_neg quick, split, List.reverse_append, List.reverse_cons, List.reverse_nil,
    List.nil_append, List.map_cons, List.cons_append]

theorem take_stops (quick : quantifier.greed ≠ .lazy) {fewest most : Nat} (room : fewest ≤ most) :
    (quantifier.stops origin fewest most slots).take 1 = [(origin + most, slots)] := by
  cases most with
  | zero =>
      rw [Nat.le_zero.mp room, stops_self]
      rfl
  | succ most =>
      rw [stops_succ quick room]
      rfl

theorem mem_stops {fewest most : Nat} {result : Nat × Slots}
    (member : result ∈ quantifier.stops origin fewest most slots) :
    result.2 = slots ∧ origin ≤ result.1 := by
  obtain ⟨count, _, same⟩ := List.mem_map.mp member
  cases same
  exact ⟨rfl, Nat.le_add_right _ _⟩

/-- How many bytes of a subject a repeat may take from a position on. -/
def limit (quantifier : Quantifier) (size position : Nat) : Nat :=
  quantifier.most.elim (size - position) (min · (size - position))

theorem iterate_test (valid : quantifier.Valid) {subject : Array UInt8} (single : ByteTest)
    (slots : Slots) {count : Nat} (started : count ≤ quantifier.limit subject.size origin)
    (inside : origin ≤ subject.size) :
    quantifier.iterate subject.size (single.results subject) count false (origin + count) slots =
      quantifier.stops origin (max quantifier.least count)
        (count + countWhile (single.holdsAt subject)
          (quantifier.limit subject.size origin - count) (origin + count) 0) slots := by
  induction room : quantifier.limit subject.size origin - count generalizing count with
  | zero =>
      rw [countWhile, Nat.add_zero]
      by_cases finished : quantifier.isDone count false = true
      · have enough : quantifier.least ≤ count := by
          simp only [isDone, Bool.and_eq_true, decide_eq_true_eq] at finished
          exact finished.1
        rw [iterate_of_isDone _ _ finished, Nat.max_eq_right enough, stops_self]
      · -- The bounds leave room, so it is the subject that ends here.
        have ended : origin + count = subject.size := by
          unfold limit at started room
          rcases bounds : quantifier.most with _ | most
          · simp only [bounds, Option.elim_none] at started room
            omega
          · have ordered := (valid.most most bounds).2.1
            simp only [isDone, bounds, Option.elim_some, Bool.and_eq_true, decide_eq_true_eq,
              not_and] at finished
            simp only [bounds, Option.elim_some] at started room
            omega
        have nothing : single.holdsAt subject (origin + count) = false := by
          refine Bool.eq_false_iff.mpr fun holds => ?_
          exact absurd (ByteTest.lt_size_of_holdsAt holds) (by omega)
        rw [iterate_of_not_isDone _ _ finished, ByteTest.results, nothing, if_neg Bool.false_ne_true,
          List.flatMap_nil, choices]
        by_cases few : count < quantifier.least
        · rw [if_pos few, stops_of_lt (by omega)]
        · rw [if_neg few, Nat.max_eq_right (Nat.not_lt.mp few), stops_self]
          split <;> rfl
  | succ left ih =>
      have unfinished : ¬ quantifier.isDone count false = true := by
        unfold limit at room
        rcases bounds : quantifier.most with _ | most
        · simp [isDone, bounds]
        · simp only [bounds, Option.elim_some] at room
          simp only [isDone, bounds, Option.elim_some, Bool.and_eq_true, decide_eq_true_eq, not_and]
          omega
      rw [iterate_of_not_isDone _ _ unfinished, ByteTest.results, countWhile_succ, choices]
      by_cases holds : single.holdsAt subject (origin + count) = true
      · have here := ByteTest.lt_size_of_holdsAt holds
        have active : (decide (origin + count + 1 ≤ origin + count) ||
            decide (subject.size < origin + count + 1)) = false := by
          simp only [Bool.or_eq_false_iff, decide_eq_false_iff_not]
          omega
        have later := @ih (count + 1) (by omega) (by omega)
        rw [if_pos holds, if_pos holds, List.flatMap_singleton]
        dsimp only
        rw [active, Nat.add_assoc origin, later]
        rw [show count + 1 + countWhile (single.holdsAt subject) left (origin + (count + 1)) 0 =
          count + (countWhile (single.holdsAt subject) left (origin + (count + 1)) 0 + 1) by omega]
        by_cases few : count < quantifier.least
        · rw [if_pos few, Nat.max_eq_left few, Nat.max_eq_left (Nat.le_of_lt few)]
        · have enough := Nat.not_lt.mp few
          rw [if_neg few, Nat.max_eq_right (Nat.le_succ_of_le enough), Nat.max_eq_right enough,
            stops_of_le (Nat.le_add_right count _)]
      · rw [if_neg holds, if_neg holds, List.flatMap_nil, Nat.add_zero]
        by_cases few : count < quantifier.least
        · rw [if_pos few, stops_of_lt (by omega)]
        · rw [if_neg few, Nat.max_eq_right (Nat.not_lt.mp few), stops_self]
          split <;> rfl

end Quantifier

open Machine in
theorem Expr.results_repetition {quantifier : Quantifier} (valid : quantifier.Valid)
    {subject : Array UInt8} (single : ByteTest) {position : Nat} (slots : Slots)
    (inside : position ≤ subject.size) :
    (repetition quantifier single).results subject position slots =
      let all := quantifier.stops position quantifier.least
        (countWhile (single.holdsAt subject) (quantifier.limit subject.size position) position 0)
        slots
      if quantifier.greed = .possessive then all.take 1 else all := by
  have all := quantifier.iterate_test valid single slots (Nat.zero_le _) inside
  rw [Nat.add_zero, Nat.max_zero, Nat.zero_add, Nat.sub_zero] at all
  rw [results, all]

end ByteRegex
