import ByteRegex.Proofs.Search.Windows
import ByteRegex.Proofs.Semantics.Mirror

/-!
# Verbatim words

A verbatim pattern is a word to look for. Its code compares bytes and never calls anything, so no
limit on depth touches the search for it, and the search finds the first occurrence of the word in
the window, whatever the number of instructions that the word is cut into.
-/

namespace ByteRegex

/-- Whether a word stands at a position, up to the case of its letters if that is disregarded. -/
def OccursAt (caseless : Bool) (word : List UInt8) (subject : Array UInt8) (start : Nat) : Prop :=
  start + word.length ≤ subject.size ∧
    (subject.extract start (start + word.length)).toList.map (Ascii.fold caseless) =
      word.map (Ascii.fold caseless)

theorem toList_extract_cons {subject : Array UInt8} {start stop : Nat}
    (inside : start < subject.size) (ahead : start < stop) :
    (subject.extract start stop).toList =
      subject[start] :: (subject.extract (start + 1) stop).toList := by
  have filled : start < subject.toList.length := inside
  have longer : stop - start = stop - (start + 1) + 1 := by omega
  rw [Array.toList_extract, Array.toList_extract, List.extract_eq_take_drop,
    List.extract_eq_take_drop, longer, List.drop_eq_getElem_cons filled, List.take_succ_cons,
    Array.getElem_toList]

/-- What a literal looks for is its occurrences. -/
theorem spells_iff_occursAt {subject : Array UInt8} {caseless : Bool} {word : List UInt8}
    {start : Nat} (inside : start ≤ subject.size) :
    spells subject caseless start word = true ↔ OccursAt caseless word subject start := by
  induction word generalizing start with
  | nil =>
      simp only [spells, OccursAt, List.length_nil, Nat.add_zero, List.map_nil, true_iff]
      refine ⟨inside, ?_⟩
      rw [Array.extract_empty_of_stop_le_start (Nat.le_refl start)]
      rfl
  | cons byte rest ih =>
      rw [spells]
      by_cases more : start < subject.size
      · have shift : start + 1 + rest.length = start + (rest.length + 1) := by omega
        rw [Array.getElem?_eq_getElem more, Option.any_some, Bool.and_eq_true, ih more,
          Machine.equalBytes_eq_fold, decide_eq_true_eq, OccursAt, OccursAt, List.length_cons,
          toList_extract_cons more (by omega), List.map_cons, List.map_cons, List.cons.injEq, shift]
        exact and_left_comm
      · have beyond : ¬ start + (byte :: rest).length ≤ subject.size := by
          rw [List.length_cons]
          omega
        rw [Array.getElem?_eq_none (Nat.not_lt.mp more)]
        refine ⟨fun spelled => ?_, fun occurs => absurd occurs.1 beyond⟩
        cases spelled

namespace Machine

variable {machine : Machine} {caseless : Bool} {bytes : List UInt8}
  {fuel address next position start stop behind : Nat} {state after : State}

/-- An instruction that ends the run or goes on behind itself calls nothing. -/
theorem run_peak_of_straight {instruction : Instruction}
    (read : machine.code.instruction? address = some (instruction, next))
    (straight : machine.move instruction next position state.registers = .fail ∨
      machine.move instruction next position state.registers = .accept position ∨
        ∃ further, machine.move instruction next position state.registers = .go next further ∧
          ∀ mid last, (machine.run fuel next further mid).state? = some last →
            last.peak = mid.peak)
    (ended : (machine.run (fuel + 1) address position state).state? = some after) :
    after.peak = state.peak := by
  rw [run_succ] at ended
  split at ended
  · cases ended
    rfl
  · split at ended
    · cases ended
    · rw [read] at ended
      dsimp only at ended
      rcases straight with fails | accepts | ⟨further, goes, later⟩
      · rw [fails] at ended
        cases ended
        rfl
      · rw [accepts] at ended
        cases ended
        rfl
      · rw [goes] at ended
        exact later (state.tick machine.ceilings) after ended

/-- The code of a literal, up to the end of the match, makes no calls. -/
theorem run_peak_of_literalAt (laid : LiteralAt machine.code caseless bytes start stop)
    (finish : machine.code.instruction? stop = some (.succeed, behind))
    (ended : (machine.run fuel start position state).state? = some after) :
    after.peak = state.peak := by
  induction laid generalizing fuel position state after with
  | nil address =>
      cases fuel with
      | zero => cases ended
      | succ fuel =>
          refine run_peak_of_straight finish ?_ ended
          simp only [move]
          split
          · exact .inl rfl
          · exact .inr (.inl rfl)
  | @single byte rest start next stop read later ih =>
      cases fuel with
      | zero => cases ended
      | succ fuel =>
          refine run_peak_of_straight read ?_ ended
          simp only [move]
          split
          · exact .inr (.inr ⟨_, rfl, fun _ _ => ih finish⟩)
          · exact .inl rfl
  | @text bytes rest start first next stop several short read held later ih =>
      cases fuel with
      | zero => cases ended
      | succ fuel =>
          refine run_peak_of_straight read ?_ ended
          simp only [move]
          split
          · exact .inr (.inr ⟨_, rfl, fun _ _ => ih finish⟩)
          · exact .inl rfl

end Machine

namespace Program

variable {program : Program} {word : List UInt8} {subject : Array UInt8} {flags : Flags}

/-- The search for a literal never nests. -/
theorem Implements.peak_of_literal {caseless : Bool}
    (implements : program.Implements (.literal caseless word)) (subject : Array UInt8)
    (window : Window) (ceilings : Machine.Ceilings) :
    (program.report subject window ceilings).peak = 0 := by
  obtain ⟨stop, laid, finish⟩ := implements.laidOut
  unfold report
  generalize program.code.fuel subject.size = fuel
  have run_peak : ∀ start position state after,
      ({ program.machine subject ceilings with start }.run fuel 0 position state).state? =
        some after → after.peak = state.peak :=
    fun start position state after => Machine.run_peak_of_literalAt laid finish
  have scanned : ∀ (starts : List Nat) (state : Machine.State), state.peak = 0 →
      (program.scan (program.machine subject ceilings) fuel starts state).peak = 0 := by
    intro starts
    induction starts with
    | nil => exact fun state level => level
    | cons start rest ih =>
        intro state level
        have kept : ∀ after, ((program.machine subject ceilings).attempt fuel start state).state? =
            some after → after.peak = 0 :=
          fun after ended => (run_peak start start state.rearmed after ended).trans level
        simp only [scan]
        cases tried : (program.machine subject ceilings).attempt fuel start state with
        | matched after => exact kept after (by rw [tried]; rfl)
        | failed after =>
            have still := kept after (by rw [tried]; rfl)
            dsimp only
            split
            · exact still
            · exact ih after still
        | fault reason => rfl
  exact scanned _ _ rfl

/-- A literal matches where it occurs and takes part in no group. -/
theorem matchAt_literal (filled : word ≠ []) (notEmpty caseless : Bool) {start : Nat}
    (inside : start ≤ subject.size) (captures : Captures) :
    (Expr.literal caseless word).matchAt subject notEmpty start = some captures ↔
      OccursAt caseless word subject start ∧
        ⟨Slots.record .unset 0 start (start + word.length)⟩ = captures := by
  have advances : ¬ start + word.length = start := by
    have positive := List.length_pos_iff.mpr filled
    omega
  rw [← spells_iff_occursAt inside, Expr.matchAt, Expr.results]
  split
  · rename_i spelled
    simp only [List.find?_cons, advances, decide_false, Bool.and_false, Bool.not_false,
      Option.map_some, Option.some.injEq, spelled, true_and]
  · rename_i differs
    simp only [List.find?_nil, Option.map_none, differs, false_and, reduceCtorEq]

/-- Every word compiles verbatim. -/
theorem implements_verbatim (filled : word ≠ []) (verbatim : flags.verbatim = true) :
    ∃ program, compile word flags = .ok program ∧ program.groups = 0 ∧
      program.flags = flags ∧ program.Implements (.literal flags.caseless word) := by
  have parsed : parse word flags = .ok (.literal flags.caseless word, 0) := by
    rw [parse, if_neg (by rwa [List.isEmpty_iff]), if_pos verbatim]
  obtain ⟨program, compiled⟩ : ∃ program, compile word flags = .ok program := by
    rw [compile, assemble, parsed]
    exact ⟨_, rfl⟩
  obtain ⟨expr, same, kept, implements⟩ := implements_of_compile compiled
  obtain ⟨literal, groups⟩ := Prod.mk.inj (Except.ok.inj (parsed.symm.trans same))
  subst literal
  exact ⟨program, compiled, groups.symm, kept, implements⟩

/-- A verbatim pattern finds the first occurrence of its bytes, at any limit on depth. -/
theorem search_verbatim (filled : word ≠ []) (verbatim : flags.verbatim = true) :
    ∃ program, compile word flags = .ok program ∧ program.groups = 0 ∧
      ∀ (subject : Array UInt8) (window : Window) (depth : Nat),
        (program.search subject window ⟨depth, none⟩ = none ↔
          ∀ start, window.first ≤ start → start ≤ min window.last subject.size →
            ¬ OccursAt flags.caseless word subject start) ∧
        ∀ captures, program.search subject window ⟨depth, none⟩ = some captures →
          ∃ start, window.first ≤ start ∧ start ≤ min window.last subject.size ∧
            OccursAt flags.caseless word subject start ∧
            (∀ other, window.first ≤ other → other ≤ min window.last subject.size →
              window.Before other start → ¬ OccursAt flags.caseless word subject other) ∧
            captures.get? 0 = some ⟨start, start + word.length⟩ ∧
            ∀ group ≠ 0, captures.get? group = none := by
  obtain ⟨program, compiled, groups, kept, implements⟩ := implements_verbatim filled verbatim
  refine ⟨program, compiled, groups, fun subject window depth => ?_⟩
  have listed : ∀ start, start ∈ window.starts subject ↔
      window.first ≤ start ∧ start ≤ min window.last subject.size := by
    intro start
    rw [Window.mem_starts, Nat.le_min]
  have missed : ∀ start ∈ window.starts subject,
      (Expr.literal flags.caseless word).matchAt subject program.flags.notEmpty start = none ↔
        ¬ OccursAt flags.caseless word subject start := by
    intro start member
    have inside := (Window.mem_starts.mp member).2.2
    simp only [Option.eq_none_iff_forall_ne_some, ne_eq, matchAt_literal filled _ _ inside]
    exact ⟨fun never occurs => never _ ⟨occurs, rfl⟩, fun absent _ both => absent both.1⟩
  have admitted : (Limits.ceilings ⟨depth, none⟩).Admits
      (program.report subject window .unlimited).steps
      (program.report subject window .unlimited).peak := by
    rw [implements.peak_of_literal subject window .unlimited]
    exact ⟨fun _ _ => Nat.zero_le _, fun _ given => nomatch given⟩
  rw [implements.search_eq subject window, if_pos admitted]
  refine ⟨?_, fun captures found => ?_⟩
  · rw [Expr.firstMatch, List.findSome?_eq_none_iff]
    refine ⟨fun none start after before => ?_, fun absent start member => ?_⟩
    · have member := (listed start).mpr ⟨after, before⟩
      exact (missed start member).mp (none start member)
    · obtain ⟨after, before⟩ := (listed start).mp member
      exact (missed start member).mpr (absent start after before)
  · obtain ⟨earlier, start, later, split, matched, ahead⟩ := List.findSome?_eq_some_iff.mp found
    have member : start ∈ window.starts subject := by
      rw [split]
      exact List.mem_append_right _ (List.mem_cons_self ..)
    obtain ⟨after, before⟩ := (listed start).mp member
    obtain ⟨occurs, same⟩ :=
      (matchAt_literal filled _ _ (Window.mem_starts.mp member).2.2 captures).mp matched
    subst same
    refine ⟨start, after, before, occurs, fun other behind within earliest => ?_, ?_, ?_⟩
    · have among := (listed other).mpr ⟨behind, within⟩
      exact (missed other among).mp (ahead other (Window.mem_of_before split earliest among))
    · exact (Slots.get?_record .unset 0 start _ 0).trans (if_pos ⟨rfl, by decide⟩)
    · intro group other
      refine (Slots.get?_record .unset 0 start _ group).trans ?_
      rw [if_neg fun same => other same.1, Slots.get?_unset]

theorem search_verbatim_backward :
    ([97, 46, 66] : List UInt8) ≠ [] ∧ (⟨true, false, true, true, true⟩ : Flags).verbatim = true ∧
      ∃ program captures, compile [97, 46, 66] ⟨true, false, true, true, true⟩ = .ok program ∧
        program.search #[65, 46, 98, 97, 46, 66, 97] ⟨0, 9, .backward⟩ ⟨0, none⟩ = some captures ∧
        ∃ start, start ≤ min 9 7 ∧
          OccursAt true [97, 46, 66] #[65, 46, 98, 97, 46, 66, 97] start ∧
          (∀ other, other ≤ min 9 7 → start < other →
            ¬ OccursAt true [97, 46, 66] #[65, 46, 98, 97, 46, 66, 97] other) ∧
          captures.get? 0 = some ⟨start, start + 3⟩ := by
  have filled : ([97, 46, 66] : List UInt8) ≠ [] := List.cons_ne_nil _ _
  have verbatim : (⟨true, false, true, true, true⟩ : Flags).verbatim = true := rfl
  obtain ⟨program, compiled, _, finds⟩ := search_verbatim filled verbatim
  have known : compile [97, 46, 66] ⟨true, false, true, true, true⟩ =
      .ok ⟨#[6, 3, 0, 97, 46, 98, 0], 0, ⟨true, false, true, true, true⟩⟩ :=
    compile_of_toOption (by decide +kernel)
  obtain rfl := Except.ok.inj (known.symm.trans compiled)
  have found : Program.search ⟨#[6, 3, 0, 97, 46, 98, 0], 0, ⟨true, false, true, true, true⟩⟩
      #[65, 46, 98, 97, 46, 66, 97] ⟨0, 9, .backward⟩ ⟨0, none⟩ =
        some ⟨#v[some ⟨3, 6⟩, none, none, none, none, none, none, none, none, none]⟩ := by
    decide +kernel
  obtain ⟨start, _, before, occurs, first, whole, _⟩ :=
    (finds #[65, 46, 98, 97, 46, 66, 97] ⟨0, 9, .backward⟩ 0).2 _ found
  refine ⟨filled, verbatim, _, _, compiled, found, start, before, occurs, ?_, whole⟩
  exact fun other within later => first other (Nat.zero_le _) within later

end Program

end ByteRegex
