import ByteRegex.Proofs.Machine.Fuel
import ByteRegex.Proofs.Search.Thresholds
import ByteRegex.Proofs.Simulation.Expr
import ByteRegex.Proofs.Simulation.Fuel

/-!
# Correctness

A compiled program finds what its pattern means. An attempt without ceilings ends with the first
result of the expression, a search without ceilings with the first match in the window, and a search
under ceilings with the same match or with none.
-/

namespace ByteRegex

/-- The instruction behind an expression. -/
theorem Machine.Behaves.succeed {machine : Machine} {address next position : Nat}
    (read : machine.code.instruction? address = some (.succeed, next))
    (inside : position ≤ machine.subject.size) (registers : Registers) :
    machine.Behaves (fun _ => True) 1 address position registers
      (Option.guard (fun result => !(machine.notEmpty && result.1 = machine.start))
        (position, registers.spans)) := by
  refine .of_move inside read ?_
  simp only [Machine.move, Option.guard, Bool.not_eq_true', ← Bool.not_eq_true, ite_not]
  split
  · exact .fail
  · exact .accept trivial

namespace Program

variable {program : Program} {expr : Expr} {subject : Array UInt8} {ceilings : Machine.Ceilings}
  {fuel start : Nat} {state : Machine.State}

/-- The captures of a result. Groups that the program does not have are not set in it either. -/
theorem Implements.captures_eq (implements : program.Implements expr) {result : Nat × Slots}
    (state : Machine.State) (reached : result ∈ expr.results subject start .unset) (stops : state.stop = result.1)
    (spans : state.registers.spans = result.2) :
    program.captures start state = ⟨Slots.record result.2 0 start result.1⟩ := by
  unfold captures
  refine congrArg Captures.mk (Vector.ext fun slot inside => ?_)
  rw [Vector.getElem_ofFn, Slots.record, Vector.getElem_setIfInBounds]
  by_cases whole : slot = 0
  · simp [whole, stops]
  · have named : ¬ 0 = slot := fun same => whole same.symm
    simp only [whole, named, if_false]
    by_cases known : slot ≤ program.groups
    · rw [if_pos known, spans]
      rfl
    · have outside : slot ∉ expr.captures := by
        rw [implements.numbered.captures, List.mem_range'_1]
        omega
      have kept := expr.results_frame outside reached
      rw [Slots.get?_unset, Slots.get?, Vector.getElem?_eq_getElem inside] at kept
      rw [if_neg known]
      exact kept.symm

/-- From its first instruction on, the code behaves as the first result that the machine allows. -/
theorem Implements.behaves (implements : program.Implements expr) {machine : Machine}
    (loaded : machine.code = program.code) (inside : start ≤ machine.subject.size) :
    machine.Behaves (fun _ => True) (expr.need machine.subject.size) 0 start .initial
      ((expr.results machine.subject start .unset).find? fun result =>
        !(machine.notEmpty && result.1 = machine.start)) := by
  obtain ⟨stop, laid, finish⟩ := implements.laidOut
  rw [← loaded] at laid finish
  have simulates := expr.simulates implements.numbered.wellFormed laid
  rw [← List.findSome?_guard]
  have ends : machine.Behaves (fun _ => True) (expr.slope * (machine.subject.size - start) +
      (expr.reserve machine.subject.size + 1) + expr.overhead) 0 start .initial
      ((expr.results machine.subject start .unset).findSome? (Option.guard fun result =>
        !(machine.notEmpty && result.1 = machine.start))) := by
    apply simulates expr.slope _ _ inside (.unset _) (Nat.le_refl _) (Nat.le_succ _)
    intro result reached after spans _
    obtain ⟨_, bounded, _⟩ := expr.results_within inside (.unset _) reached
    have last := Machine.Behaves.succeed finish bounded after
    rw [spans] at last
    exact last.mono (Nat.le_add_left 1 _)
  apply ends.mono
  have shorter := Nat.mul_le_mul_left expr.slope (Nat.sub_le machine.subject.size start)
  unfold Expr.need
  omega

/-- An attempt without ceilings ends with the first result that the flags allow. -/
theorem Implements.attempt_answers (implements : program.Implements expr)
    (inside : start ≤ subject.size) (enough : program.code.fuel subject.size ≤ fuel)
    (running : state.halted = false) :
    ((program.machine subject .unlimited).attempt fuel start state).Answers (fun _ => True)
      state.rearmed ((expr.results subject start .unset).find? fun result =>
        !(program.flags.notEmpty && result.1 = start)) := by
  have fuelled := Nat.le_trans (implements.need_le_fuel subject.size) enough
  have behaves : Machine.Behaves { program.machine subject .unlimited with start } _ _ _ _ _ _ :=
    implements.behaves rfl inside
  exact behaves fuel state.rearmed fuelled running rfl

/-- A search without ceilings ends with the first match. -/
theorem Implements.scan_finds (implements : program.Implements expr) {starts : List Nat}
    (inside : ∀ start ∈ starts, start ≤ subject.size)
    (enough : program.code.fuel subject.size ≤ fuel) (running : state.halted = false) :
    (program.scan (program.machine subject .unlimited) fuel starts state).outcome =
      .ok (starts.findSome? (expr.matchAt subject program.flags.notEmpty)) := by
  induction starts generalizing state with
  | nil => rfl
  | cons start rest ih =>
      have answers := implements.attempt_answers (inside start (List.mem_cons_self ..)) enough
        running
      cases tried : (program.machine subject .unlimited).attempt fuel start state with
      | matched after =>
          rw [tried] at answers
          obtain ⟨_, _, _, found⟩ := answers
          have reached := List.mem_of_find?_eq_some found
          have captured := implements.captures_eq after reached rfl rfl
          simp only [scan, tried, List.findSome?_cons, Expr.matchAt, found, Option.map_some, captured]
      | failed after =>
          rw [tried] at answers
          obtain ⟨halted, _, missed⟩ := answers
          have later := ih (fun start member => inside start (List.mem_cons_of_mem _ member)) halted
          simp only [scan, tried, halted, Bool.false_eq_true, if_false, later, List.findSome?_cons,
            Expr.matchAt, missed, Option.map_none]
      | fault reason =>
          rw [tried] at answers
          exact answers.elim

/-- More fuel changes nothing in a search that had enough. -/
theorem scan_prolongs {machine : Machine} (extra : Nat) {starts : List Nat}
    (ended : (program.scan machine fuel starts state).outcome ≠ .error .outOfFuel) :
    program.scan machine (fuel + extra) starts state = program.scan machine fuel starts state := by
  induction starts generalizing state with
  | nil => rfl
  | cons start rest ih =>
      have inner : machine.attempt fuel start state ≠ .fault .outOfFuel := by
        intro spent
        simp only [scan, spent] at ended
        exact ended rfl
      have longer : machine.attempt (fuel + extra) start state = machine.attempt fuel start state :=
        Machine.run_prolongs _ fuel extra 0 start _ inner
      simp only [scan, longer] at ended ⊢
      split
      · rfl
      · rename_i after tried
        simp only [tried] at ended
        by_cases halted : after.halted = true
        · rw [if_pos halted, if_pos halted]
        · rw [if_neg halted] at ended ⊢
          rw [if_neg halted]
          exact ih ended
      · rfl

/-- A search without ceilings reports the first match. -/
theorem Implements.report_finds (implements : program.Implements expr) (subject : Array UInt8)
    (window : Window) : (program.report subject window .unlimited).outcome =
      .ok (expr.firstMatch subject window program.flags.notEmpty) := by
  have inside : ∀ start ∈ window.starts subject, start ≤ subject.size :=
    fun start member => (Window.mem_starts.mp member).2.2
  exact implements.scan_finds inside (Nat.le_refl _) rfl

/-- Ceilings cut a whole search. -/
theorem Implements.report_cut (implements : program.Implements expr) (subject : Array UInt8)
    (window : Window) (ceilings : Machine.Ceilings) :
    (program.report subject window .unlimited).Cut ceilings .initial
      (program.report subject window ceilings) := by
  have found : (program.scan (program.machine subject ceilings).free
      (program.code.fuel subject.size) (window.starts subject) .initial).outcome = _ :=
    implements.report_finds subject window
  exact scan_cut (window.starts subject) rfl found

theorem admits_zero (ceilings : Machine.Ceilings) : ceilings.Admits 0 0 :=
  ⟨fun _ _ => Nat.zero_le _, fun _ _ => Nat.zero_le _⟩

/-- A search finds the first match if its limits admit what the search without limits takes. -/
theorem Implements.search_eq (implements : program.Implements expr) (subject : Array UInt8)
    (window : Window) (limits : Limits) :
    program.search subject window limits =
      if limits.ceilings.Admits (program.report subject window .unlimited).steps
          (program.report subject window .unlimited).peak then
        expr.firstMatch subject window program.flags.notEmpty
      else none := by
  have found := implements.report_finds subject window
  have cut := implements.report_cut subject window limits.ceilings
  unfold search
  by_cases admitted : limits.ceilings.Admits (program.report subject window .unlimited).steps
      (program.report subject window .unlimited).peak
  · rw [if_pos admitted, cut.same (admits_zero _) admitted, found]
  · rw [if_neg admitted, (cut.nothing (admits_zero _) admitted).1]

/-- A search that its limits do not stop finds the first match. -/
theorem Implements.search_of_running (implements : program.Implements expr) {window : Window}
    {limits : Limits} (running : (program.report subject window limits.ceilings).halted = false) :
    program.search subject window limits =
      expr.firstMatch subject window program.flags.notEmpty := by
  rw [implements.search_eq subject window limits]
  split
  · rfl
  · rename_i refused
    have halted := ((implements.report_cut subject window _).nothing (admits_zero _) refused).2
    cases running.symm.trans halted

/-- Searching with compiled code finds the first match of the pattern, whenever no ceiling is
hit. -/
theorem search_eq_firstMatch {pattern : List UInt8} {flags : Flags}
    (compiled : compile pattern flags = .ok program) :
    ∃ expr, parse pattern flags = .ok (expr, program.groups) ∧
      ∀ subject window,
        (program.report subject window .unlimited).outcome =
            .ok (expr.firstMatch subject window flags.notEmpty) ∧
          ∀ limits : Limits, (program.report subject window limits.ceilings).halted = false →
            program.search subject window limits =
              expr.firstMatch subject window flags.notEmpty := by
  obtain ⟨expr, parsed, same, implements⟩ := implements_of_compile compiled
  subst same
  refine ⟨expr, parsed, fun subject window => ⟨implements.report_finds subject window, ?_⟩⟩
  intro limits running
  have cut := implements.report_cut subject window limits.ceilings
  rw [implements.search_eq subject window limits]
  split
  · rfl
  · rename_i refused
    have halted := (cut.nothing (admits_zero _) refused).2
    rw [running] at halted
    cases halted

theorem search_finds_repeated_letter :
    ∃ program expr, compile "(a|b)+?\\1".toUTF8.toList .default = .ok program ∧
      parse "(a|b)+?\\1".toUTF8.toList .default = .ok (expr, program.groups) ∧
      program.search #[98, 97, 97] ⟨0, 3, .forward⟩ .default =
        expr.firstMatch #[98, 97, 97] ⟨0, 3, .forward⟩ false ∧
      (expr.firstMatch #[98, 97, 97] ⟨0, 3, .forward⟩ false).bind (·.get? 0) = some ⟨0, 3⟩ := by
  have compiled : compile "(a|b)+?\\1".toUTF8.toList .default =
      .ok ⟨#[20, 1, 0, 25, 6, 0, 3, 97, 0, 24, 3, 0, 3, 98, 0, 21, 1, 0, 25, 235, 255, 22, 1, 0, 0],
        1, .default⟩ :=
    compile_of_toOption (by decide +kernel)
  obtain ⟨expr, parsed, finds⟩ := search_eq_firstMatch compiled
  have found := (finds #[98, 97, 97] ⟨0, 3, .forward⟩).2 .default (by decide +kernel)
  have matched := congrArg (fun captures => captures.bind (·.get? 0)) found
  exact ⟨_, expr, compiled, parsed, found, matched.symm.trans (by decide +kernel)⟩

/-- A search under any ceilings, or under none, ends by itself: beyond a bound that depends on the
code and on the size of the subject only, no fuel changes what it reports. -/
theorem scan_terminates {pattern : List UInt8} {flags : Flags}
    (compiled : compile pattern flags = .ok program) (subject : Array UInt8) (window : Window)
    (ceilings : Machine.Ceilings) :
    ∃ report found, report.outcome = .ok found ∧
      ∀ fuel, program.code.fuel subject.size ≤ fuel →
        program.scan (program.machine subject ceilings) fuel (window.starts subject) .initial =
          report := by
  obtain ⟨expr, _, _, implements⟩ := implements_of_compile compiled
  have cut := implements.report_cut subject window ceilings
  have ended : ∃ found, (program.report subject window ceilings).outcome = .ok found := by
    by_cases admitted : ceilings.Admits (program.report subject window .unlimited).steps
        (program.report subject window .unlimited).peak
    · rw [cut.same (admits_zero _) admitted]
      exact ⟨_, implements.report_finds subject window⟩
    · exact ⟨none, (cut.nothing (admits_zero _) admitted).1⟩
  obtain ⟨found, ended⟩ := ended
  refine ⟨program.report subject window ceilings, found, ended, fun fuel enough => ?_⟩
  obtain ⟨extra, rfl⟩ := Nat.exists_eq_add_of_le enough
  apply scan_prolongs extra
  intro spent
  have both := ended.symm.trans spent
  cases both

theorem scan_terminates_nested_stars :
    ∃ program, compile "(a*)*b".toUTF8.toList .default = .ok program ∧
      ∃ report found, report.outcome = .ok found ∧
        ∀ fuel, program.code.fuel 3 ≤ fuel →
          program.scan (program.machine #[97, 97, 99] .unlimited) fuel [0, 1, 2, 3] .initial =
            report := by
  have compiled : compile "(a*)*b".toUTF8.toList .default =
      .ok ⟨#[25, 25, 0, 36, 0, 0, 20, 1, 0, 27, 0, 0, 255, 255, 3, 97, 0, 21, 1, 0, 39, 0, 0, 3, 0, 24,
        228, 255, 3, 98, 0, 0], 1, .default⟩ :=
    compile_of_toOption (by decide +kernel)
  exact ⟨_, compiled, scan_terminates compiled #[97, 97, 99] ⟨0, 3, .forward⟩ .unlimited⟩

/-- The limits of a search are thresholds on the steps and the peak of the search without limits. At
or above them it finds the same, below them nothing. -/
theorem search_thresholds {pattern : List UInt8} {flags : Flags}
    (compiled : compile pattern flags = .ok program) (subject : Array UInt8) (window : Window) :
    ∃ found steps peak,
      program.report subject window .unlimited = ⟨.ok found, steps, peak, false⟩ ∧
      (∀ limits : Limits, program.search subject window limits =
        if (∀ budget ∈ limits.steps, steps ≤ budget) ∧ peak ≤ min limits.depth Capacity.depth then
          found
        else none) ∧
      (∀ limits : Limits, program.search subject window limits = none ∨
        program.search subject window limits = found) ∧
      ∀ lower higher : Limits, lower.depth ≤ higher.depth →
        (∀ budget ∈ higher.steps, ∃ less ∈ lower.steps, less ≤ budget) →
        ∀ captures, program.search subject window lower = some captures →
          program.search subject window higher = some captures := by
  obtain ⟨expr, _, _, implements⟩ := implements_of_compile compiled
  have found := implements.report_finds subject window
  have running := (implements.report_cut subject window .unlimited).running
  have searched := implements.search_eq subject window
  generalize program.report subject window .unlimited = report at found running searched ⊢
  obtain ⟨outcome, steps, peak, halted⟩ := report
  dsimp only at found running searched
  have exact : ∀ limits : Limits, program.search subject window limits =
      if (∀ budget ∈ limits.steps, steps ≤ budget) ∧ peak ≤ min limits.depth Capacity.depth then
        expr.firstMatch subject window program.flags.notEmpty
      else none := by
    intro limits
    have same : limits.ceilings.Admits steps peak ↔
        (∀ budget ∈ limits.steps, steps ≤ budget) ∧ peak ≤ min limits.depth Capacity.depth := by
      simp [Machine.Ceilings.Admits, Limits.ceilings, and_comm]
    simp only [searched, same]
  refine ⟨_, steps, peak, by rw [found, running], exact, ?_, ?_⟩
  · intro limits
    rw [exact]
    split
    · exact .inr rfl
    · exact .inl rfl
  · intro lower higher deeper longer captures matched
    rw [exact] at matched ⊢
    split at matched
    · rename_i admitted
      have budgets : ∀ budget ∈ higher.steps, steps ≤ budget := by
        intro budget given
        obtain ⟨less, known, below⟩ := longer budget given
        exact Nat.le_trans (admitted.1 less known) below
      have nested : peak ≤ min higher.depth Capacity.depth := by
        have bound := admitted.2
        omega
      rw [if_pos ⟨budgets, nested⟩]
      exact matched
    · cases matched

theorem search_thresholds_alternatives :
    ∃ program found steps peak, compile "(?:a|b)*b".toUTF8.toList .default = .ok program ∧
      program.report #[97, 98, 97] ⟨0, 3, .forward⟩ .unlimited = ⟨.ok found, steps, peak, false⟩ ∧
      ∀ limits : Limits, program.search #[97, 98, 97] ⟨0, 3, .forward⟩ limits =
        if (∀ budget ∈ limits.steps, steps ≤ budget) ∧ peak ≤ min limits.depth Capacity.depth then
          found
        else none := by
  have compiled : compile "(?:a|b)*b".toUTF8.toList .default =
      .ok ⟨#[25, 15, 0, 25, 6, 0, 3, 97, 0, 24, 3, 0, 3, 98, 0, 24, 238, 255, 3, 98, 0, 0], 0,
        .default⟩ :=
    compile_of_toOption (by decide +kernel)
  obtain ⟨found, steps, peak, free, exact, _⟩ :=
    search_thresholds compiled #[97, 98, 97] ⟨0, 3, .forward⟩
  exact ⟨_, found, steps, peak, compiled, free, exact⟩

end Program

end ByteRegex
