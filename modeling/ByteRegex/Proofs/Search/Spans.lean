import ByteRegex.Proofs.Search.Correctness
import ByteRegex.Proofs.Syntax.LookFree

/-!
# Spans

The spans of a match are in order and inside the subject. Every group is closed behind the position
where it was opened, whatever loops, failed alternatives and lookarounds lie between. Without
lookarounds the position never falls, so then every group is inside the whole match.
-/

namespace ByteRegex

/-- All spans are in order and between two positions. -/
def Slots.Between (origin stop : Nat) (slots : Slots) : Prop :=
  ∀ group span, slots.get? group = some span →
    origin ≤ span.start ∧ span.start ≤ span.stop ∧ span.stop ≤ stop

namespace Slots

variable {origin stop : Nat} {slots : Slots}

theorem Between.unset (origin stop : Nat) : Slots.unset.Between origin stop := by
  intro group span found
  rw [get?_unset] at found
  cases found

theorem Between.mono (between : slots.Between origin stop) {later : Nat} (further : stop ≤ later) :
    slots.Between origin later := by
  intro group span found
  obtain ⟨after, ordered, before⟩ := between group span found
  exact ⟨after, ordered, Nat.le_trans before further⟩

theorem Between.within (between : slots.Between origin stop) {size : Nat} (inside : stop ≤ size) :
    slots.Within size := by
  intro group span found
  obtain ⟨_, ordered, before⟩ := between group span found
  exact ⟨ordered, Nat.le_trans before inside⟩

theorem Between.record (between : slots.Between origin stop) {start : Nat} (group : Nat)
    (after : origin ≤ start) (ordered : start ≤ stop) :
    (slots.record group start stop).Between origin stop := by
  intro other span found
  rw [get?_record] at found
  split at found
  · cases found
    exact ⟨after, ordered, Nat.le_refl _⟩
  · exact between other span found

end Slots

namespace Expr

variable {subject : Array UInt8} {origin : Nat}

/-- A repeat keeps its spans between the origin and where it stands if its body does. -/
theorem iterate_between {quantifier : Quantifier} {body : Nat → Slots → List (Nat × Slots)}
    (kept : ∀ position slots result, origin ≤ position → position ≤ subject.size →
      Slots.Between origin position slots → result ∈ body position slots →
        position ≤ result.1 ∧ result.1 ≤ subject.size ∧ Slots.Between origin result.1 result.2)
    {position : Nat} {slots : Slots} {result : Nat × Slots} (after : origin ≤ position)
    (inside : position ≤ subject.size) (between : slots.Between origin position)
    (reached : result ∈ quantifier.iterate subject.size body 0 false position slots) :
    Slots.Between origin result.1 result.2 := by
  obtain ⟨_, ⟨_, _, final⟩, _⟩ := Quantifier.iterate_invariant
    (fun _ stop slots => origin ≤ stop ∧ stop ≤ subject.size ∧ slots.Between origin stop)
    (by
      intro count stop slots result ⟨after, inside, between⟩ _ taken
      obtain ⟨later, bounded, final⟩ := kept stop slots result after inside between taken
      exact ⟨Nat.le_trans after later, bounded, final⟩)
    ⟨after, inside, between⟩ reached
  exact final

/-- Where nothing looks around, spans lie between where the match began and where it stands. -/
theorem results_between (expr : Expr) (free : expr.LookFree) {position : Nat} {slots : Slots}
    {result : Nat × Slots} (after : origin ≤ position) (inside : position ≤ subject.size)
    (between : slots.Between origin position)
    (reached : result ∈ expr.results subject position slots) :
    Slots.Between origin result.1 result.2 := by
  induction expr generalizing position slots result with
  | empty =>
      cases List.mem_singleton.mp reached
      exact between
  | test single =>
      obtain ⟨_, rfl⟩ := ByteTest.mem_results.mp reached
      exact between.mono (Nat.le_succ _)
  | literal | assertion =>
      simp only [results] at reached
      split at reached
      · cases List.mem_singleton.mp reached
        exact between.mono (by simp only [Nat.le_add_right, Nat.le_refl])
      · cases reached
  | backReference caseless group =>
      simp only [results] at reached
      split at reached
      · cases reached
      · split at reached
        · cases List.mem_singleton.mp reached
          exact between.mono (Nat.le_add_right _ _)
        · cases reached
  | sequence first second ihFirst ihSecond =>
      obtain ⟨middle, taken, later⟩ := List.mem_flatMap.mp reached
      obtain ⟨behind, bounded, _⟩ := results_within first inside (between.within inside) taken
      have kept := ihFirst free.1 after inside between taken
      exact ihSecond free.2 (Nat.le_trans after behind) bounded kept later
  | alternative first second ihFirst ihSecond =>
      rcases List.mem_append.mp reached with taken | taken
      · exact ihFirst free.1 after inside between taken
      · exact ihSecond free.2 after inside between taken
  | capture group body ih =>
      obtain ⟨inner, taken, rfl⟩ := List.mem_map.mp reached
      obtain ⟨behind, _, _⟩ := results_within body inside (between.within inside) taken
      exact (ih free after inside between taken).record group after behind
  | repetition quantifier single =>
      refine iterate_between ?_ after inside between (mem_repetition reached)
      intro position slots result _ _ between taken
      obtain ⟨holds, rfl⟩ := ByteTest.mem_results.mp taken
      exact ⟨Nat.le_succ _, ByteTest.lt_size_of_holdsAt holds, between.mono (Nat.le_succ _)⟩
  | loop quantifier nullable counter body ih =>
      refine iterate_between ?_ after inside between reached
      intro position slots result after inside between taken
      obtain ⟨behind, bounded, _⟩ := results_within body inside (between.within inside) taken
      exact ⟨behind, bounded, ih free after inside between taken⟩
  | atomic body ih => exact ih free after inside between (List.mem_of_mem_take reached)
  | look => exact free.elim

/-- What a match consists of: a start in the window, a result at it, and the captures of both. -/
theorem exists_of_firstMatch {expr : Expr} {window : Window} {notEmpty : Bool}
    {captures : Captures} (found : expr.firstMatch subject window notEmpty = some captures) :
    ∃ start ∈ window.starts subject, ∃ result ∈ expr.results subject start .unset,
      captures = ⟨Slots.record result.2 0 start result.1⟩ := by
  obtain ⟨start, member, matched⟩ := List.exists_of_findSome?_eq_some found
  obtain ⟨result, reached, same⟩ := Option.map_eq_some_iff.mp matched
  exact ⟨start, member, result, List.mem_of_find?_eq_some reached, same.symm⟩

end Expr

theorem Captures.slice?_of_within {captures : Captures} {subject : Array UInt8}
    (within : Slots.Within subject.size captures.slots) {group : Nat} {span : Span}
    (found : captures.get? group = some span) :
    captures.slice? group subject = some (subject.extract span.start span.stop) := by
  obtain ⟨ordered, inside⟩ := within group span found
  simp [slice?, found, ordered, inside]

namespace Program

variable {program : Program}

/-- The spans that a search reports. -/
theorem search_spans {pattern : List UInt8} {flags : Flags}
    (compiled : compile pattern flags = .ok program) {subject : Array UInt8} {window : Window}
    {limits : Limits} {captures : Captures}
    (found : program.search subject window limits = some captures) :
    ∃ start stop, captures.get? 0 = some ⟨start, stop⟩ ∧
      window.first ≤ start ∧ start ≤ min window.last subject.size ∧
      start ≤ stop ∧ stop ≤ subject.size ∧
      (∀ group span, captures.get? group = some span →
        span.start ≤ span.stop ∧ span.stop ≤ subject.size ∧
          captures.slice? group subject = some (subject.extract span.start span.stop)) ∧
      (∀ group, program.groups < group → captures.get? group = none) ∧
      (LookFree pattern flags → ∀ group span, captures.get? group = some span →
        start ≤ span.start ∧ span.start ≤ span.stop ∧ span.stop ≤ stop) := by
  obtain ⟨expr, parsed, _, implements⟩ := implements_of_compile compiled
  rw [implements.search_eq] at found
  split at found
  · obtain ⟨start, member, result, reached, rfl⟩ := Expr.exists_of_firstMatch found
    obtain ⟨after, before, inside⟩ := Window.mem_starts.mp member
    obtain ⟨ordered, bounded, within⟩ := expr.results_within inside (.unset _) reached
    have whole := within.record 0 ordered bounded
    refine ⟨start, result.1, ?_, after, ?_, ordered, bounded, ?_, ?_, ?_⟩
    · exact (Slots.get?_record result.2 0 start result.1 0).trans (if_pos ⟨rfl, by decide⟩)
    · exact Nat.le_min.mpr ⟨before, inside⟩
    · intro group span known
      obtain ⟨ordered, bounded⟩ := whole group span known
      exact ⟨ordered, bounded, Captures.slice?_of_within whole known⟩
    · intro group beyond
      have positive : group ≠ 0 := Nat.ne_of_gt (Nat.zero_lt_of_lt beyond)
      have outside : group ∉ expr.captures := by
        rw [implements.numbered.captures, List.mem_range'_1]
        omega
      have kept := expr.results_frame outside reached
      refine (Slots.get?_record result.2 0 start result.1 group).trans ?_
      rw [if_neg (fun same => positive same.1), kept, Slots.get?_unset]
    · intro free group span known
      have plain := lookFree_of_parse free parsed
      have between := expr.results_between plain (Nat.le_refl start) inside (.unset _ _) reached
      exact between.record 0 (Nat.le_refl start) ordered group span known
  · cases found

theorem search_spans_repeated_group :
    ∃ program captures, compile "(?:(a)|b\\1?)+".toUTF8.toList .default = .ok program ∧
      program.search #[99, 97, 98, 97] ⟨0, 4, .forward⟩ .default = some captures ∧
      ∃ start stop, captures.get? 0 = some ⟨start, stop⟩ ∧
        ∀ group span, captures.get? group = some span →
          start ≤ span.start ∧ span.start ≤ span.stop ∧ span.stop ≤ stop := by
  have compiled : compile "(?:(a)|b\\1?)+".toUTF8.toList .default =
      .ok ⟨#[25, 12, 0, 20, 1, 0, 3, 97, 0, 21, 1, 0, 24, 9, 0, 3, 98, 0, 25, 3, 0, 22, 1, 0, 26,
        229, 255, 0], 1, .default⟩ :=
    compile_of_toOption (by decide +kernel)
  have found : Program.search ⟨#[25, 12, 0, 20, 1, 0, 3, 97, 0, 21, 1, 0, 24, 9, 0, 3, 98, 0, 25, 3,
      0, 22, 1, 0, 26, 229, 255, 0], 1, .default⟩ #[99, 97, 98, 97] ⟨0, 4, .forward⟩ .default =
      some ⟨#v[some ⟨1, 4⟩, some ⟨1, 2⟩, none, none, none, none, none, none, none, none]⟩ := by
    decide +kernel
  have plain : (tokens "(?:(a)|b\\1?)+".toUTF8.toList).any Token.isLook = false := by
    decide +kernel
  have free : LookFree "(?:(a)|b\\1?)+".toUTF8.toList .default :=
    .inr fun token member => Bool.not_eq_true _ ▸ List.any_eq_false.mp plain token member
  obtain ⟨start, stop, whole, _, _, _, _, _, _, inside⟩ := search_spans compiled found
  exact ⟨_, _, compiled, found, start, stop, whole, inside free⟩

end Program

end ByteRegex
