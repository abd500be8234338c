import ByteRegex.Proofs.Machine.Leftovers
import ByteRegex.Proofs.Search.Correctness

/-!
# Windows

A search through a window finds what the search at the first successful start alone finds. The
attempts that fail before it leave nothing behind but their steps, so the search at one start takes
no more than the search through the window, and no ceiling stops it that has let the whole search
pass.
-/

namespace ByteRegex

namespace Window

/-- Whether a window tries one start before another. -/
def Before (window : Window) (first second : Nat) : Prop :=
  match window.direction with
  | .forward => first < second
  | .backward => second < first

instance (window : Window) (first second : Nat) : Decidable (window.Before first second) :=
  match window with
  | ⟨_, _, .forward⟩ => inferInstanceAs (Decidable (first < second))
  | ⟨_, _, .backward⟩ => inferInstanceAs (Decidable (second < first))

/-- The window with one start. -/
def single (start : Nat) : Window := ⟨start, start, .forward⟩

theorem starts_single {subject : Array UInt8} {start : Nat} (inside : start ≤ subject.size) :
    (single start).starts subject = [start] := by
  have one : min start subject.size + 1 - start = 1 := by omega
  simp only [starts, single, one, List.range'_one]

theorem starts_pairwise (window : Window) (subject : Array UInt8) :
    (window.starts subject).Pairwise window.Before := by
  obtain ⟨first, last, direction⟩ := window
  cases direction with
  | forward => exact List.pairwise_lt_range'
  | backward => exact List.pairwise_reverse.mpr List.pairwise_lt_range'

/-- What stands in front of a start is all that is tried before it. -/
theorem mem_of_before {window : Window} {subject : Array UInt8} {earlier later : List Nat}
    {start other : Nat} (split : window.starts subject = earlier ++ start :: later)
    (before : window.Before other start) (member : other ∈ window.starts subject) :
    other ∈ earlier := by
  have ordered := window.starts_pairwise subject
  rw [split, List.pairwise_append] at ordered
  rw [split] at member
  have irreflexive : ¬ window.Before start start := by
    unfold Before
    cases window.direction <;> exact Nat.lt_irrefl start
  have asymmetric : ¬ window.Before start other := by
    unfold Before at before ⊢
    cases direction : window.direction <;> rw [direction] at before <;> exact Nat.lt_asymm before
  rcases List.mem_append.mp member with inside | beyond
  · exact inside
  · rcases List.mem_cons.mp beyond with same | behind
    · exact absurd (same ▸ before) irreflexive
    · exact absurd ((List.pairwise_cons.mp ordered.2.1).1 other behind) asymmetric

end Window

/-- The same report, with so many more steps in it on the right. -/
structure Report.Later (lead : Nat) (left right : Report) : Prop where
  outcome : right.outcome = left.outcome
  halted : right.halted = left.halted
  steps : ∀ found, left.outcome = .ok found → right.steps = left.steps + lead
  peak : left.peak ≤ right.peak

/-- What can be told from how an attempt ends: its registers and where it stopped if it matched, the
steps, and whether the search has been halted. -/
def Machine.Outcome.shows :
    Machine.Outcome → Except Machine.Fault (Option (Registers × Nat) × Nat × Bool)
  | .matched state => .ok (some (state.registers, state.stop), state.steps, state.halted)
  | .failed state => .ok (none, state.steps, state.halted)
  | .fault reason => .error reason

theorem Machine.Outcome.Later.shows_eq {left right : Machine.Outcome} (later : left.Later 0 right) :
    left.shows = right.shows := by
  cases later with
  | matched later stop =>
      simp only [shows, later.registers, stop, later.steps, Nat.add_zero, later.halted]
  | failed later => simp only [shows, later.steps, Nat.add_zero, later.halted]
  | fault reason => rfl

/-- An attempt sees nothing of the attempts before it but their steps and a limit that they hit. -/
theorem Machine.attempt_shows {machine : Machine} (fuel start : Nat) {left right : Machine.State}
    (steps : left.steps = right.steps) (halted : left.halted = right.halted) :
    (machine.attempt fuel start left).shows = (machine.attempt fuel start right).shows := by
  rcases Nat.le_total left.peak right.peak with lower | higher
  · exact (attempt_later (.inr rfl) fuel start halted.symm steps.symm lower).shows_eq
  · exact (attempt_later (.inr rfl) fuel start halted steps higher).shows_eq.symm

namespace Program

variable {program : Program} {expr : Expr} {machine : Machine} {fuel lead : Nat}

/-- Attempts that come later in a search report the same. -/
theorem scan_later (even : machine.ceilings.steps = none ∨ lead = 0) (starts : List Nat)
    {left right : Machine.State} (halted : right.halted = left.halted)
    (steps : right.steps = left.steps + lead) (peak : left.peak ≤ right.peak) :
    (program.scan machine fuel starts left).Later lead
      (program.scan machine fuel starts right) := by
  induction starts generalizing left right with
  | nil => exact ⟨rfl, halted, fun _ _ => steps, peak⟩
  | cons start rest ih =>
      have attempted := Machine.attempt_later even fuel start halted steps peak
      simp only [scan]
      generalize machine.attempt fuel start left = first at attempted ⊢
      generalize machine.attempt fuel start right = second at attempted ⊢
      cases attempted with
      | matched later stop =>
          refine ⟨?_, later.halted, fun _ _ => later.steps, later.peak⟩
          simp only [captures, later.registers, stop]
      | failed later =>
          dsimp only
          rw [later.halted]
          split
          · exact ⟨rfl, rfl, fun _ _ => later.steps, later.peak⟩
          · exact ih later.halted later.steps later.peak
      | fault reason => exact ⟨rfl, rfl, fun _ ended => (by cases ended), Nat.le_refl _⟩

/-- A search without ceilings gets past the starts where nothing matches, to the first one where
something does. -/
theorem Implements.scan_reaches (implements : program.Implements expr) {subject : Array UInt8}
    {earlier : List Nat} {start : Nat} (later : List Nat)
    (enough : program.code.fuel subject.size ≤ fuel)
    (inside : ∀ other ∈ earlier ++ [start], other ≤ subject.size)
    (missed : ∀ other ∈ earlier, expr.matchAt subject program.flags.notEmpty other = none)
    (found : (expr.matchAt subject program.flags.notEmpty start).isSome = true)
    {state : Machine.State} (running : state.halted = false) :
    ∃ mid : Machine.State, mid.halted = false ∧
      program.scan (program.machine subject .unlimited) fuel (earlier ++ start :: later) state =
        program.scan (program.machine subject .unlimited) fuel [start] mid := by
  induction earlier generalizing state with
  | nil =>
      have answers := implements.attempt_answers (inside start (List.mem_singleton.mpr rfl))
        enough running
      refine ⟨state, running, ?_⟩
      cases tried : (program.machine subject .unlimited).attempt fuel start state with
      | matched after => simp only [List.nil_append, scan, tried]
      | failed after =>
          rw [tried] at answers
          obtain ⟨_, _, nothing⟩ := answers
          rw [Expr.matchAt, nothing] at found
          cases found
      | fault reason =>
          rw [tried] at answers
          exact answers.elim
  | cons other rest ih =>
      have answers := implements.attempt_answers (inside other (List.mem_cons_self ..))
        enough running
      have nothing := missed other (List.mem_cons_self ..)
      cases tried : (program.machine subject .unlimited).attempt fuel other state with
      | matched after =>
          rw [tried] at answers
          obtain ⟨_, _, _, result⟩ := answers
          rw [Expr.matchAt, result] at nothing
          cases nothing
      | failed after =>
          rw [tried] at answers
          obtain ⟨kept, _, _⟩ := answers
          obtain ⟨mid, still, reached⟩ := ih
            (fun other member => inside other (List.mem_cons_of_mem _ member))
            (fun other member => missed other (List.mem_cons_of_mem _ member)) kept
          refine ⟨mid, still, ?_⟩
          simp only [List.cons_append, scan, tried, kept, Bool.false_eq_true, if_false] at reached ⊢
          exact reached
      | fault reason =>
          rw [tried] at answers
          exact answers.elim

/-- At one start a search finds the match there if its limits admit it. -/
theorem Implements.search_single (implements : program.Implements expr) {subject : Array UInt8}
    {start : Nat} (inside : start ≤ subject.size) (limits : Limits) :
    program.search subject (.single start) limits =
      if limits.ceilings.Admits (program.report subject (.single start) .unlimited).steps
          (program.report subject (.single start) .unlimited).peak then
        expr.matchAt subject program.flags.notEmpty start
      else none := by
  have one : expr.firstMatch subject (.single start) program.flags.notEmpty =
      expr.matchAt subject program.flags.notEmpty start := by
    rw [Expr.firstMatch, Window.starts_single inside, List.findSome?_cons, List.findSome?_nil]
    cases expr.matchAt subject program.flags.notEmpty start <;> rfl
  rw [implements.search_eq, one]

/-- Where nothing matches, no limits make a search find something. -/
theorem Implements.search_single_eq_none (implements : program.Implements expr)
    {subject : Array UInt8} {start : Nat} (inside : start ≤ subject.size)
    (missed : expr.matchAt subject program.flags.notEmpty start = none) (limits : Limits) :
    program.search subject (.single start) limits = none := by
  rw [implements.search_single inside, missed, ite_self]

/-- The search at the first successful start takes no more than the search up to it. -/
theorem Implements.report_single_le (implements : program.Implements expr) {subject : Array UInt8}
    {window : Window} {earlier later : List Nat} {start : Nat}
    (split : window.starts subject = earlier ++ start :: later)
    (missed : ∀ other ∈ earlier, expr.matchAt subject program.flags.notEmpty other = none)
    (found : (expr.matchAt subject program.flags.notEmpty start).isSome = true) :
    (program.report subject (.single start) .unlimited).steps ≤
        (program.report subject window .unlimited).steps ∧
      (program.report subject (.single start) .unlimited).peak ≤
        (program.report subject window .unlimited).peak := by
  have inside : ∀ other ∈ earlier ++ [start], other ≤ subject.size := by
    intro other member
    have tried : other ∈ window.starts subject := by
      rw [split, List.append_cons]
      exact List.mem_append_left later member
    exact (Window.mem_starts.mp tried).2.2
  have last : start ≤ subject.size := inside start (List.mem_append_right earlier (by simp))
  have fresh : Machine.State.initial.halted = false := rfl
  obtain ⟨mid, running, reached⟩ := implements.scan_reaches later (Nat.le_refl _) inside missed
    found fresh
  have same : (program.report subject (.single start) .unlimited).Later mid.steps
      (program.report subject window .unlimited) := by
    rw [report, report, Window.starts_single last, split, reached]
    exact scan_later (.inl rfl) [start] running (Nat.zero_add _).symm (Nat.zero_le _)
  have counted := same.steps _ (implements.report_finds subject (.single start))
  exact ⟨by omega, same.peak⟩

/-- A search through a window is the search at the first start where one succeeds, and no attempt
depends on what the ones before it have written. -/
theorem search_window {pattern : List UInt8} {flags : Flags}
    (compiled : compile pattern flags = .ok program) (subject : Array UInt8) (window : Window)
    (limits : Limits) :
    (∀ captures, program.search subject window limits = some captures →
      ∃ start stop, captures.get? 0 = some ⟨start, stop⟩ ∧
        window.first ≤ start ∧ start ≤ min window.last subject.size ∧
        program.search subject ⟨start, start, .forward⟩ limits = some captures ∧
        ∀ other, window.first ≤ other → other ≤ min window.last subject.size →
          window.Before other start →
          program.search subject ⟨other, other, .forward⟩ limits = none) ∧
      (program.search subject window limits = none →
        (program.report subject window limits.ceilings).halted = false →
        ∀ start, window.first ≤ start → start ≤ min window.last subject.size →
          program.search subject ⟨start, start, .forward⟩ limits = none) ∧
      ∀ fuel start (left right : Machine.State), left.steps = right.steps →
        left.halted = right.halted →
        ((program.machine subject limits.ceilings).attempt fuel start left).shows =
          ((program.machine subject limits.ceilings).attempt fuel start right).shows := by
  obtain ⟨expr, _, _, implements⟩ := implements_of_compile compiled
  have member : ∀ start, window.first ≤ start → start ≤ min window.last subject.size →
      start ∈ window.starts subject := by
    intro start after before
    rw [Window.mem_starts]
    omega
  refine ⟨fun captures searched => ?_, fun nothing unhalted start after before => ?_, ?_⟩
  · rw [implements.search_eq] at searched
    split at searched
    · rename_i admitted
      obtain ⟨earlier, start, later, split, found, missed⟩ :=
        List.findSome?_eq_some_iff.mp searched
      have inside : start ∈ window.starts subject := by
        rw [split]
        exact List.mem_append_right earlier (List.mem_cons_self ..)
      obtain ⟨after, before, bounded⟩ := Window.mem_starts.mp inside
      obtain ⟨fewer, lower⟩ := implements.report_single_le split missed
        (Option.isSome_of_eq_some found)
      obtain ⟨result, _, whole⟩ := Option.map_eq_some_iff.mp found
      refine ⟨start, result.1, ?_, after, Nat.le_min.mpr ⟨before, bounded⟩, ?_, ?_⟩
      · rw [← whole]
        exact (Slots.get?_record result.2 0 start result.1 0).trans (if_pos ⟨rfl, by decide⟩)
      · exact (implements.search_single bounded limits).trans
          ((if_pos (admitted.mono fewer lower)).trans found)
      · intro other first last sooner
        have ahead := Window.mem_of_before split sooner (member other first last)
        exact implements.search_single_eq_none (Nat.le_trans last (Nat.min_le_right _ _))
          (missed other ahead) limits
    · cases searched
  · have cut := implements.report_cut subject window limits.ceilings
    rw [implements.search_eq] at nothing
    split at nothing
    · exact implements.search_single_eq_none (Nat.le_trans before (Nat.min_le_right _ _))
        (List.findSome?_eq_none_iff.mp nothing start (member start after before)) limits
    · rename_i refused
      have halted := (cut.nothing (admits_zero _) refused).2
      rw [unhalted] at halted
      cases halted
  · exact fun fuel start left right steps halted => Machine.attempt_shows fuel start steps halted

/-- The limits are just what the two attempts take together, the first of which fails. -/
theorem search_window_backward :
    ∃ program captures, compile "(a|b)+?\\1".toUTF8.toList .default = .ok program ∧
      program.search #[98, 97, 97] ⟨0, 2, .backward⟩ ⟨2, some 20⟩ = some captures ∧
      (∃ start stop, captures.get? 0 = some ⟨start, stop⟩ ∧
        program.search #[98, 97, 97] ⟨start, start, .forward⟩ ⟨2, some 20⟩ = some captures) ∧
      program.search #[98, 97, 97] ⟨2, 2, .forward⟩ ⟨2, some 20⟩ = none := by
  have compiled : compile "(a|b)+?\\1".toUTF8.toList .default =
      .ok ⟨#[20, 1, 0, 25, 6, 0, 3, 97, 0, 24, 3, 0, 3, 98, 0, 21, 1, 0, 25, 235, 255, 22, 1, 0, 0],
        1, .default⟩ :=
    compile_of_toOption (by decide +kernel)
  have found : Program.search ⟨#[20, 1, 0, 25, 6, 0, 3, 97, 0, 24, 3, 0, 3, 98, 0, 21, 1, 0, 25, 235,
      255, 22, 1, 0, 0], 1, .default⟩ #[98, 97, 97] ⟨0, 2, .backward⟩ ⟨2, some 20⟩ =
      some ⟨#v[some ⟨1, 3⟩, some ⟨1, 2⟩, none, none, none, none, none, none, none, none]⟩ := by
    decide +kernel
  obtain ⟨first, _, _⟩ := search_window compiled #[98, 97, 97] ⟨0, 2, .backward⟩ ⟨2, some 20⟩
  obtain ⟨start, stop, whole, _, _, alone, sooner⟩ := first _ found
  refine ⟨_, _, compiled, found, ⟨start, stop, whole, alone⟩, ?_⟩
  cases whole
  exact sooner 2 (by decide) (by decide) (by decide)

end Program

end ByteRegex
