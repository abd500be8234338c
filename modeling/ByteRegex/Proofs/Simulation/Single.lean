import ByteRegex.Proofs.Assembly.LaidOut
import ByteRegex.Proofs.Semantics.Repetition
import ByteRegex.Proofs.Simulation.Behavior

/-!
# Single instructions

What is matched without any call has at most one result. Its instruction takes it if it is there and
fails if it is not, and the bytes that it consumes are never given back to it.
-/

namespace ByteRegex

namespace Ascii

theorem toNat_toLower (byte : UInt8) :
    (toLower byte).toNat =
      if 65 ≤ byte.toNat ∧ byte.toNat ≤ 90 then byte.toNat + 32 else byte.toNat := by
  have upper : isUpper byte = true ↔ 65 ≤ byte.toNat ∧ byte.toNat ≤ 90 := by
    simp [isUpper, UInt8.le_iff_toNat_le]
  unfold toLower
  by_cases capital : isUpper byte = true
  · have range := upper.mp capital
    rw [if_pos capital, if_pos range, UInt8.toNat_add]
    show (byte.toNat + 32) % 256 = byte.toNat + 32
    omega
  · rw [if_neg capital, if_neg (mt upper.mpr capital)]

theorem toLower_toLower (byte : UInt8) : toLower (toLower byte) = toLower byte := by
  apply UInt8.toNat.inj
  simp only [toNat_toLower]
  by_cases capital : 65 ≤ byte.toNat ∧ byte.toNat ≤ 90
  · rw [if_pos capital, if_neg (by omega)]
  · rw [if_neg capital, if_neg capital]

theorem toLower_eq_iff {expected : UInt8} (letter : isLetter expected = false) (found : UInt8) :
    toLower found = toLower expected ↔ found = expected := by
  have outside : ¬ (97 ≤ expected.toNat ∧ expected.toNat ≤ 122) ∧
      ¬ (65 ≤ expected.toNat ∧ expected.toNat ≤ 90) := by
    simpa [isLetter, isLower, isUpper, UInt8.le_iff_toNat_le, not_and] using letter
  have bounds := toNat_toLower found
  rw [← UInt8.toNat_inj, ← UInt8.toNat_inj, bounds, toNat_toLower, if_neg outside.2]
  split <;> omega

end Ascii

namespace Machine

theorem equalBytes_toLower (caseless : Bool) (found expected : UInt8) :
    equalBytes caseless found (if caseless then Ascii.toLower expected else expected) =
      equalBytes caseless found expected := by
  cases caseless with
  | false => rfl
  | true => simp only [equalBytes, if_true, Ascii.toLower_toLower]

theorem holdsAt_ofLiteral (caseless : Bool) (byte : UInt8) (subject : Array UInt8)
    (position : Nat) :
    (ByteTest.ofLiteral caseless byte).holdsAt subject position =
      subject[position]?.any (equalBytes caseless · byte) := by
  unfold ByteTest.holdsAt ByteTest.ofLiteral
  cases subject[position]? with
  | none => rfl
  | some found =>
      cases caseless with
      | false => rfl
      | true =>
          by_cases letter : Ascii.isLetter byte = true
          · simp [letter, equalBytes]
          · have plain : Ascii.isLetter byte = false := Bool.eq_false_iff.mpr letter
            simp [plain, equalBytes, Ascii.toLower_eq_iff plain]

/-- Comparing with bytes that are held somewhere is reading them. -/
theorem agree_eq_spells (caseless : Bool) {left right : Array UInt8} {first second : Nat}
    {bytes : List UInt8} (held : Code.Has right second bytes) (start : first ≤ left.size)
    (origin : second ≤ right.size) :
    agree caseless left right bytes.length first second = spells left caseless first bytes := by
  induction bytes generalizing first second with
  | nil =>
      have fits : first + 0 ≤ left.size ∧ second + 0 ≤ right.size := ⟨start, origin⟩
      rw [List.length_nil, agree, dif_pos fits]
      rfl
  | cons byte rest ih =>
      obtain ⟨here, later⟩ := Code.has_append.mp (show Code.Has right second ([byte] ++ rest) from held)
      have read : right[second]? = some byte := here 0 (Nat.lt_succ_self 0)
      obtain ⟨inRight, same⟩ := Array.getElem?_eq_some_iff.mp read
      rw [spells]
      by_cases inLeft : first < left.size
      · have others : agree caseless left right rest.length (first + 1) (second + 1) =
            spells left caseless (first + 1) rest := ih later inLeft inRight
        rw [Array.getElem?_eq_getElem inLeft, ← others, Option.any_some]
        unfold agree
        by_cases fits : first + 1 + rest.length ≤ left.size ∧ second + 1 + rest.length ≤ right.size
        · have whole : first + (rest.length + 1) ≤ left.size ∧
              second + (rest.length + 1) ≤ right.size := by omega
          rw [dif_pos fits, List.length_cons, dif_pos whole, agreeFrom, same]
          split <;> simp_all
        · have short : ¬ (first + (rest.length + 1) ≤ left.size ∧
              second + (rest.length + 1) ≤ right.size) := by omega
          rw [dif_neg fits, List.length_cons, dif_neg short, Bool.and_false]
      · have short : ¬ (first + (rest.length + 1) ≤ left.size ∧
            second + (rest.length + 1) ≤ right.size) := by omega
        rw [Array.getElem?_eq_none (Nat.not_lt.mp inLeft), agree, List.length_cons, dif_neg short]
        rfl

theorem spells_toLower {subject : Array UInt8} {caseless : Bool} {position : Nat}
    {bytes : List UInt8} :
    spells subject caseless position (if caseless then bytes.map Ascii.toLower else bytes) =
      spells subject caseless position bytes := by
  cases caseless with
  | false => rfl
  | true =>
      induction bytes generalizing position with
      | nil => rfl
      | cons byte rest ih =>
          have same : ∀ found, equalBytes true found (Ascii.toLower byte) =
              equalBytes true found byte := fun found => equalBytes_toLower true found byte
          simp only [if_true] at ih
          simp only [if_true, List.map_cons, spells, ih, same]

theorem spells_append {subject : Array UInt8} {caseless : Bool} {position : Nat}
    {front back : List UInt8} :
    spells subject caseless position (front ++ back) =
      (spells subject caseless position front &&
        spells subject caseless (position + front.length) back) := by
  induction front generalizing position with
  | nil => rfl
  | cons byte rest ih =>
      rw [List.cons_append, spells, spells, ih, Bool.and_assoc, List.length_cons,
        Nat.add_assoc, Nat.add_comm 1]

theorem has_extract (subject : Array UInt8) (start stop : Nat) :
    Code.Has subject start (subject.extract start stop).toList := by
  intro index inside
  rw [Array.length_toList, Array.size_extract] at inside
  rw [Array.getElem?_toList, Array.getElem?_extract, if_pos (by omega)]

section

variable {machine : Machine} {keeps : Registers → Prop} {groups counters : List Nat}
  {caseless : Bool} {start stop position : Nat} {registers : Registers}

theorem reached_pays {size steep spare stop : Nat} (ahead : position ≤ stop) :
    steep * (size - stop) + spare ≤ steep * (size - position) + spare :=
  Nat.add_le_add_right (Nat.mul_le_mul_left _ (Nat.sub_le_sub_left ahead _)) _

/-- An instruction that goes on from one position or fails. -/
theorem Behaves.of_condition {instruction : Instruction} {next reached steep spare : Nat}
    {condition : Bool} {answer : Nat × Slots → Option (Nat × Slots)}
    (inside : position ≤ machine.subject.size) (ahead : position ≤ reached)
    (read : machine.code.instruction? start = some (instruction, next))
    (moves : machine.move instruction next position registers =
      if condition then .go next reached else .fail)
    (continues : ∀ result ∈ (if condition then [(reached, registers.spans)] else []),
      ∀ after : Registers, after.spans = result.2 → registers.SameBut groups counters after →
      machine.Behaves keeps (steep * (machine.subject.size - result.1) + spare) next result.1 after
        (answer result)) :
    machine.Behaves keeps (steep * (machine.subject.size - position) + spare + 1) start position
      registers ((if condition then [(reached, registers.spans)] else []).findSome? answer) := by
  refine .of_move inside read ?_
  rw [moves]
  cases condition with
  | false => exact .fail
  | true =>
      have later := continues _ (List.mem_singleton_self _) registers rfl (.refl _)
      rw [if_pos rfl, if_pos rfl, List.findSome?_singleton]
      exact .go (later.mono (reached_pays ahead))

theorem simulates_test {single : ByteTest}
    (read : machine.code.instruction? start = some (.test single, stop)) :
    machine.Simulates [] [] (single.results machine.subject) 0 1 0 start stop :=
  fun _ _ _ _ _ _ inside _ _ _ continues =>
    .of_condition inside (Nat.le_succ _) read rfl continues

theorem simulates_assertion {condition : Assertion}
    (read : machine.code.instruction? start = some (.assertion condition, stop)) :
    machine.Simulates [] [] ((Expr.assertion condition).results machine.subject) 0 1 0 start stop :=
  fun _ _ _ _ _ _ inside _ _ _ continues =>
    .of_condition inside (Nat.le_refl _) read rfl continues

theorem move_text {bytes : List UInt8} {first : Nat} (filled : bytes ≠ [])
    (held : machine.code.Has first (if caseless then bytes.map Ascii.toLower else bytes))
    (inside : position ≤ machine.subject.size) :
    machine.move (.text caseless first (first + bytes.length)) stop position registers =
      if spells machine.subject caseless position bytes then .go stop (position + bytes.length)
      else .fail := by
  have lowered : (if caseless then bytes.map Ascii.toLower else bytes).length = bytes.length := by
    split
    · exact List.length_map _
    · rfl
  have bound : first ≤ machine.code.size := by
    have reach := Code.has_bound held (by
      intro none
      rw [none] at lowered
      exact filled (List.length_eq_zero_iff.mp lowered.symm))
    omega
  have agrees := agree_eq_spells caseless held inside bound
  rw [lowered, spells_toLower] at agrees
  simp only [move, Nat.add_sub_cancel_left, agrees]

theorem simulates_text {bytes : List UInt8} {first : Nat} (filled : bytes ≠ [])
    (read : machine.code.instruction? start =
      some (.text caseless first (first + bytes.length), stop))
    (held : machine.code.Has first (if caseless then bytes.map Ascii.toLower else bytes)) :
    machine.Simulates [] [] ((Expr.literal caseless bytes).results machine.subject) 0 1 0 start
      stop :=
  fun _ _ _ _ _ _ inside _ _ _ continues =>
    .of_condition inside (Nat.le_add_right _ bytes.length) read (move_text filled held inside)
      continues

theorem simulates_backReference {group : Fin Capacity.slots}
    (read : machine.code.instruction? start = some (.backReference caseless group, stop)) :
    machine.Simulates [] [] ((Expr.backReference caseless group.val).results machine.subject) 0 1 0
      start stop := by
  intro keeps position registers steep spare answer inside within _ _ continues
  have held : Slots.get? registers.spans group = registers.spans.get group := by
    show registers.spans[group.val]?.join = registers.spans[group.val]
    rw [Vector.getElem?_eq_getElem group.isLt]
    rfl
  cases found : registers.spans.get group with
  | none =>
      have moves : machine.move (.backReference caseless group) stop position registers = .fail := by
        simp only [move, found, repeatGroupMove]
      have nothing : (Expr.backReference caseless group.val).results machine.subject position
          registers.spans = [] := by
        rw [Expr.results, held, found]
      rw [nothing]
      refine .of_move inside read ?_
      rw [moves]
      exact .fail
  | some span =>
      obtain ⟨ordered, bounded⟩ := within group.val span (held.trans found)
      have length : (machine.subject.extract span.start span.stop).toList.length =
          span.stop - span.start := by
        rw [Array.length_toList, Array.size_extract, Nat.min_eq_left bounded]
      have agrees := agree_eq_spells caseless (has_extract machine.subject span.start span.stop) inside
        (Nat.le_trans ordered bounded)
      rw [length] at agrees
      have same : (Expr.backReference caseless group.val).results machine.subject position
          registers.spans = if spells machine.subject caseless position
            (machine.subject.extract span.start span.stop).toList then
              [(position + (span.stop - span.start), registers.spans)] else [] := by
        rw [Expr.results, held, found]
        dsimp only
        rw [length]
      rw [same] at continues ⊢
      refine .of_condition inside (Nat.le_add_right _ _) read ?_ continues
      have kept : (decide (span.start ≤ span.stop) && decide (span.stop ≤ machine.subject.size)) =
          true := by
        rw [decide_eq_true ordered, decide_eq_true bounded, Bool.and_self]
      simp only [move, found, repeatGroupMove, agrees, kept, if_true]

/-- Giving back byte after byte tries every stop of a greedy repeat. -/
theorem Makes.givingBack {quantifier : Quantifier} (quick : quantifier.greed ≠ .lazy)
    {need after origin fewest : Nat} {answer : Nat × Slots → Option (Nat × Slots)} (extra : Nat)
    (continues : ∀ result ∈ quantifier.stops origin fewest (fewest + extra) registers.spans,
      machine.Behaves keeps need after result.1 registers (answer result)) :
    machine.Makes keeps need (.givingBack after (origin + fewest) extra) registers
      ((quantifier.stops origin fewest (fewest + extra) registers.spans).findSome? answer) := by
  induction extra with
  | zero =>
      rw [Nat.add_zero, Quantifier.stops_self] at continues ⊢
      rw [List.findSome?_singleton]
      exact .go (continues _ (List.mem_singleton_self _))
  | succ extra ih =>
      rw [← Nat.add_assoc, Quantifier.stops_succ quick (by omega)] at continues ⊢
      have later := ih fun result member => continues result (List.mem_cons_of_mem _ member)
      have first := continues _ (List.mem_cons_self ..)
      have made := Makes.choice first later
      rw [← List.singleton_append, List.findSome?_append, List.findSome?_singleton,
        Move.givingBack, Nat.add_assoc origin, ← Nat.add_assoc fewest]
      exact made

/-- Taking byte after byte tries every stop of a lazy repeat. -/
theorem Makes.takingMore {quantifier : Quantifier} (slow : quantifier.greed = .lazy)
    {need after origin fewest : Nat} {test : Nat → Bool}
    {answer : Nat × Slots → Option (Nat × Slots)} (extra : Nat)
    (continues : ∀ result ∈ quantifier.stops origin fewest
        (fewest + countWhile test extra (origin + fewest) 0) registers.spans,
      machine.Behaves keeps need after result.1 registers (answer result)) :
    machine.Makes keeps need (.takingMore test after extra (origin + fewest)) registers
      ((quantifier.stops origin fewest (fewest + countWhile test extra (origin + fewest) 0)
        registers.spans).findSome? answer) := by
  induction extra generalizing fewest with
  | zero =>
      rw [countWhile, Nat.add_zero, Quantifier.stops_self] at continues ⊢
      have nothing : machine.Makes keeps need .fail registers none := .fail
      have made := Makes.choice (continues _ (List.mem_singleton_self _)) nothing
      rw [Option.or_none] at made
      rw [List.findSome?_singleton]
      exact made
  | succ extra ih =>
      rw [Quantifier.stops_of_le (Nat.le_add_right _ _), if_pos slow] at continues ⊢
      rw [← List.singleton_append, List.findSome?_append, List.findSome?_singleton, Move.takingMore]
      refine .choice (continues _ (List.mem_cons_self ..)) ?_
      have rest := fun result member => continues result (List.mem_cons_of_mem _ member)
      rw [countWhile_succ] at rest ⊢
      by_cases holds : test (origin + fewest) = true
      · have taken : fewest + (countWhile test extra (origin + fewest + 1) 0 + 1) =
            fewest + 1 + countWhile test extra (origin + (fewest + 1)) 0 := by
          rw [Nat.add_assoc origin, Nat.add_comm _ 1, Nat.add_assoc fewest]
        rw [if_pos holds, taken] at rest
        rw [if_pos holds, if_pos holds, taken]
        exact ih rest
      · rw [if_neg holds, if_neg holds,
          Quantifier.stops_of_lt (show fewest + 0 < fewest + 1 from Nat.lt_succ_self _)]
        exact .fail

theorem simulates_repetition {quantifier : Quantifier} {single : ByteTest} {next : Nat}
    (valid : quantifier.Valid)
    (read : machine.code.instruction? start =
      some (.repetition quantifier.greed quantifier.least quantifier.most, next))
    (tested : machine.code.instruction? next = some (.test single, stop)) :
    machine.Simulates [] [] ((Expr.repetition quantifier single).results machine.subject) 0 1 0 start
      stop := by
  intro keeps position registers steep spare answer inside _ _ _ continues
  rw [Expr.results_repetition valid single registers.spans inside] at continues ⊢
  refine .of_move inside read ?_
  have moves : machine.move (.repetition quantifier.greed quantifier.least quantifier.most) next
      position registers = machine.repeatTestMove quantifier.greed quantifier.least quantifier.most
        single stop position := by
    simp only [move, tested]
  rw [moves]
  unfold repeatTestMove
  dsimp only at continues ⊢
  rw [← Quantifier.limit]
  have most := countWhile_le (single.holdsAt machine.subject)
    (quantifier.limit machine.subject.size position) position
  by_cases short : quantifier.limit machine.subject.size position < quantifier.least
  · rw [if_pos short, Quantifier.stops_of_lt (Nat.lt_of_le_of_lt most short), List.take_nil, ite_self]
    exact .fail
  rw [if_neg short]
  have total := countWhile_add (single.holdsAt machine.subject) quantifier.least
    (quantifier.limit machine.subject.size position - quantifier.least) position
  rw [Nat.add_sub_cancel' (Nat.not_lt.mp short)] at total
  have visits : ∀ result ∈ (if quantifier.greed = .possessive then
        (quantifier.stops position quantifier.least (countWhile (single.holdsAt machine.subject)
          (quantifier.limit machine.subject.size position) position 0) registers.spans).take 1
        else quantifier.stops position quantifier.least (countWhile (single.holdsAt machine.subject)
          (quantifier.limit machine.subject.size position) position 0) registers.spans),
      machine.Behaves keeps (steep * (machine.subject.size - position) + spare) stop result.1
        registers (answer result) := by
    intro result member
    have stopped : result.2 = registers.spans ∧ position ≤ result.1 := by
      split at member
      · exact Quantifier.mem_stops (List.mem_of_mem_take member)
      · exact Quantifier.mem_stops member
    have later := continues result member registers stopped.1.symm (.refl _)
    exact later.mono (reached_pays stopped.2)
  by_cases few : countWhile (single.holdsAt machine.subject)
      (quantifier.limit machine.subject.size position) position 0 < quantifier.least
  · rw [Quantifier.stops_of_lt few, List.take_nil, ite_self]
    cases quantifier.greed with
    | greedy | possessive =>
        dsimp only
        rw [if_pos few]
        exact .fail
    | lazy =>
        dsimp only
        split at total
        · rename_i short
          rw [if_pos short]
          exact .fail
        · omega
  · cases greed : quantifier.greed with
    | greedy =>
        have quick : quantifier.greed ≠ .lazy := by simp [greed]
        rw [greed] at visits
        simp only [reduceCtorEq, if_false, few] at visits ⊢
        have enough := Nat.add_sub_cancel' (Nat.not_lt.mp few)
        rw [← enough] at visits
        have made := Makes.givingBack quick _ visits
        rwa [enough] at made
    | lazy =>
        rw [greed] at visits
        simp only [reduceCtorEq, if_false] at visits ⊢
        split at total
        · omega
        · rename_i enough
          rw [if_neg enough]
          rw [total] at visits ⊢
          exact .takingMore greed _ visits
    | possessive =>
        have quick : quantifier.greed ≠ .lazy := by simp [greed]
        rw [greed] at visits
        simp only [if_true, few, if_false, Quantifier.take_stops quick (Nat.not_lt.mp few)]
          at visits ⊢
        rw [List.findSome?_singleton]
        exact .go (visits _ (List.mem_singleton_self _))

end

end Machine

end ByteRegex
