import ByteRegex.Proofs.Grammar.Acceptance
import ByteRegex.Proofs.Grammar.Suffixes
import ByteRegex.Proofs.Search.Mirror
import ByteRegex.Proofs.Semantics.Caseless

/-!
# Subjects that differ in case

A pattern that disregards case throughout is blind to the case of the subject. It disregards case
throughout if it is compiled so and no group of it clears a flag.
-/

namespace ByteRegex

/-- The same flags, and case is disregarded. -/
structure Flags.BothCaseless (flags other : Flags) : Prop where
  same : flags = other
  caseless : flags.caseless = true

theorem Flags.unseen_caseless {left right : Array UInt8} (folded : Folded true left right) :
    Flags.Unseen left right Flags.BothCaseless where
  capturing both := congrArg Flags.capturing both.same
  verbatim both := congrArg Flags.verbatim both.same
  caseless both := congrArg Flags.caseless both.same
  folded both := both.caseless.symm ▸ folded
  dot both := by
    rw [← both.same]
    split
    · exact folded.mirrors_anyButNewline
    · exact folded.mirrors_any
  caret both := by
    rw [← both.same]
    exact folded.mirrors_assertion _
  dollar both := by
    rw [← both.same]
    exact folded.mirrors_assertion _
  bracket both bracket := by
    rw [← both.same]
    exact folded.mirrors_set bracket both.caseless
  inClass kind := folded.mirrors_inClass kind
  notInClass kind := folded.mirrors_notInClass kind
  assertion condition := folded.mirrors_assertion condition

/-- A token disregards case as before unless it clears flags. -/
theorem Token.keeps_bothCaseless {token : Token}
    (clears : ∀ changed, token ≠ .opening (.ok (.inline false changed))) :
    token.Keeps Flags.BothCaseless := by
  cases token with
  | opening read =>
      intro enable changed same flags other both
      cases enable with
      | false => exact absurd (congrArg Token.opening same) (clears changed)
      | true =>
          rw [← both.same]
          exact ⟨rfl, by simp [Flags.inside, Flags.union, both.caseless]⟩
  | literal _ | dot | caret | dollar | bracket _ | inClass _ | notInClass _ | assertion _ => trivial
  | backReference _ | closing | bar | quantifier _ | malformed _ => trivial

namespace Program

variable {pattern : List UInt8} {flags : Flags} {program : Program}

/-- Every token of a pattern that compiles is spelled out in it. -/
theorem lexemes_of_compile (spelled : flags.verbatim = false)
    (compiled : compile pattern flags = .ok program) :
    Grammar.Lexemes pattern (tokens pattern) := by
  have filled : pattern ≠ [] := by
    rintro rfl
    cases compiled
  have accepted := (compile_follows filled spelled).accepted program compiled
  obtain ⟨last, ran, _⟩ := Option.bind_eq_some_iff.mp accepted
  exact Grammar.lexemes_iff.mpr ⟨rfl, Grammar.isSpelled_of_run ran⟩

/-- A pattern that disregards case and clears no flag finds the same, groups included, in subjects
that differ in the case of ASCII letters only. -/
theorem search_caseless (caseless : flags.caseless = true)
    (clears : ¬['('.toUInt8, '?'.toUInt8, '-'.toUInt8] <:+: pattern)
    (compiled : compile pattern flags = .ok program)
    {left right : Array UInt8} (same : left.map Ascii.toLower = right.map Ascii.toLower)
    (window : Window) (limits : Limits) :
    program.search left window limits = program.search right window limits := by
  have folded := Folded.iff_map.mpr same
  have keeps : flags.verbatim = false → ∀ token ∈ tokens pattern,
      token.Keeps Flags.BothCaseless := by
    intro spelled token member
    apply Token.keeps_bothCaseless
    rintro changed rfl
    exact clears ((lexemes_of_compile spelled compiled).infix_of_clearing member)
  have both := search_both (Flags.unseen_caseless folded) keeps ⟨rfl, caseless⟩ rfl
  rw [compiled] at both
  cases both with
  | ok holds => exact holds window limits

/-- A back-reference under a limit that the last attempt uses up. -/
theorem search_caseless_backReference :
    ∃ program captures,
      compile "(\\lx)(?i)\\1\\b".toUTF8.toList { Flags.default with caseless := true } =
        .ok program ∧
      program.search #[33, 100, 120, 68, 88] ⟨0, 4, .backward⟩ ⟨2, some 20⟩ = some captures ∧
      program.search #[33, 68, 88, 100, 120] ⟨0, 4, .backward⟩ ⟨2, some 20⟩ = some captures := by
  have compiled :
      compile "(\\lx)(?i)\\1\\b".toUTF8.toList { Flags.default with caseless := true } =
        .ok ⟨#[20, 1, 0, 10, 4, 0, 4, 120, 0, 21, 1, 0, 23, 1, 0, 16, 0], 1,
          { Flags.default with caseless := true }⟩ :=
    compile_of_toOption (by decide +kernel)
  have clears : ¬['('.toUInt8, '?'.toUInt8, '-'.toUInt8] <:+:
      "(\\lx)(?i)\\1\\b".toUTF8.toList := by decide +kernel
  have letters : (#[33, 100, 120, 68, 88] : Array UInt8).map Ascii.toLower =
      (#[33, 68, 88, 100, 120] : Array UInt8).map Ascii.toLower := by decide +kernel
  have same := search_caseless rfl clears compiled letters ⟨0, 4, .backward⟩ ⟨2, some 20⟩
  have found : Program.search ⟨#[20, 1, 0, 10, 4, 0, 4, 120, 0, 21, 1, 0, 23, 1, 0, 16, 0], 1,
      { Flags.default with caseless := true }⟩ #[33, 68, 88, 100, 120] ⟨0, 4, .backward⟩
      ⟨2, some 20⟩ =
      some ⟨#v[some ⟨1, 5⟩, some ⟨1, 3⟩, none, none, none, none, none, none, none, none]⟩ := by
    decide +kernel
  exact ⟨_, _, compiled, same.trans found, found⟩

end Program

end ByteRegex
