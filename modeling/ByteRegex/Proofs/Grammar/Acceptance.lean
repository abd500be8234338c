import ByteRegex.Program
import ByteRegex.Proofs.Assembly.Compiled
import ByteRegex.Proofs.Grammar.Lexing
import ByteRegex.Proofs.Grammar.Refinement

/-!
# Acceptance

A pattern is compiled if and only if the grammar derives it, limits apart, and the program has as
many groups as the derivation.
-/

namespace ByteRegex

namespace Grammar

theorem isSpelled_of_step {outline next : Outline} {token : Token}
    (stepped : outline.step token = some next) : isSpelled token = true := by
  cases token with
  | literal | dot | caret | dollar | bracket | inClass | notInClass | assertion | backReference
  | closing | bar => rfl
  | opening read | quantifier read =>
      cases read with
      | ok => rfl
      | error => cases stepped
  | malformed => cases stepped

/-- The automaton gets past no token that is malformed. -/
theorem isSpelled_of_run {outline last : Outline} {remaining : List Token}
    (ran : outline.run remaining = some last) : ∀ token ∈ remaining, isSpelled token = true := by
  induction remaining generalizing outline with
  | nil => exact nofun
  | cons token rest ih =>
      rw [Outline.run_cons] at ran
      obtain ⟨next, stepped, later⟩ := Option.bind_eq_some_iff.mp ran
      exact List.forall_mem_cons.mpr ⟨isSpelled_of_step stepped, ih later⟩

theorem derives_iff {capturing : Bool} {pattern : List UInt8} {groups : Nat} :
    Derives capturing pattern groups ↔
      ((Outline.initial capturing).run (tokens pattern)).bind Outline.finish = some groups := by
  constructor
  · rintro ⟨found, closed, width, spelled, phrase⟩
    obtain ⟨rfl, _⟩ := lexemes_iff.mp spelled
    exact accepts_iff.mpr ⟨closed, width, phrase⟩
  · intro accepted
    obtain ⟨last, ran, _⟩ := Option.bind_eq_some_iff.mp accepted
    obtain ⟨closed, width, phrase⟩ := accepts_iff.mp accepted
    exact ⟨_, closed, width, lexemes_iff.mpr ⟨rfl, isSpelled_of_run ran⟩, phrase⟩

instance (capturing : Bool) (pattern : List UInt8) (groups : Nat) :
    Decidable (Derives capturing pattern groups) :=
  decidable_of_iff _ derives_iff.symm

/-- A group is not closed inside itself. -/
example : ¬Derives true "(a\\1)".toUTF8.toList 1 := by decide +kernel

end Grammar

open Grammar

namespace Program

/-- Assembly adds no reason of its own to refuse a pattern but the length of a jump. -/
theorem compile_follows {pattern : List UInt8} (filled : pattern ≠ []) {flags : Flags}
    (spelled : flags.verbatim = false) :
    Follows groups (compile pattern flags)
      (((Outline.initial flags.capturing).run (tokens pattern)).bind Outline.finish) := by
  have parsed := parse_follows filled spelled
  unfold compile assemble
  cases found : parse pattern flags with
  | error error =>
      refine ⟨fun program compiled => (by cases compiled), fun other failed => ?_⟩
      cases failed
      exact parsed.refused error found
  | ok result =>
      rw [parsed.accepted result found]
      refine .limit (((result.1.emit_limited _).map _).map _) fun program compiled => ?_
      obtain ⟨made, assembled, rfl⟩ := exists_of_map compiled
      obtain ⟨buffer, _, rfl⟩ := exists_of_map assembled
      rfl

/-- Whatever is compiled is derived, with as many groups as the program has, and whatever is derived
is compiled unless it meets a limit. -/
theorem compile_accepts {pattern : List UInt8} (filled : pattern ≠ []) {flags : Flags}
    (spelled : flags.verbatim = false) :
    (∀ program, compile pattern flags = .ok program →
      Derives flags.capturing pattern program.groups) ∧
    ∀ groups, Derives flags.capturing pattern groups →
      (∃ program, compile pattern flags = .ok program ∧ program.groups = groups) ∨
        compile pattern flags = .error .tooComplex := by
  have follows := compile_follows filled spelled
  constructor
  · intro program compiled
    exact derives_iff.mpr (follows.accepted program compiled)
  · intro groups derives
    have accepted := derives_iff.mp derives
    cases compiled : compile pattern flags with
    | ok program =>
        have same := follows.accepted program compiled
        exact .inl ⟨program, rfl, Option.some.inj (same.symm.trans accepted)⟩
    | error error =>
        rcases follows.refused error compiled with rfl | refused
        · exact .inr rfl
        · cases refused.symm.trans accepted

theorem compile_accepts_backReference :
    ∃ program, compile "(a|\\x62\x7b1,\x7d)(?-i:[]^-])\\1+?(?<!c|d)".toUTF8.toList .default =
        .ok program ∧
      program.groups = 1 ∧
      Derives true "(a|\\x62\x7b1,\x7d)(?-i:[]^-])\\1+?(?<!c|d)".toUTF8.toList program.groups := by
  have compiled : compile "(a|\\x62\x7b1,\x7d)(?-i:[]^-])\\1+?(?<!c|d)".toUTF8.toList .default =
      .ok ⟨#[20, 1, 0, 25, 6, 0, 3, 97, 0, 24, 8, 0, 27, 1, 0, 255, 255, 3, 98, 0, 21, 1, 0, 9, 0,
        0, 0, 0, 0, 32, 0, 0, 0, 0, 0, 96, 0, 0, 0, 0, 0, 0, 0, 0, 0, 0, 0, 0, 0, 0, 0, 0, 0, 0, 0,
        0, 36, 0, 0, 22, 1, 0, 39, 0, 0, 3, 0, 25, 242, 255, 33, 1, 0, 13, 0, 25, 6, 0, 3, 99, 0,
        24, 3, 0, 3, 100, 0, 1, 0], 1, .default⟩ :=
    compile_of_toOption (by decide +kernel)
  have filled : "(a|\\x62\x7b1,\x7d)(?-i:[]^-])\\1+?(?<!c|d)".toUTF8.toList ≠ [] := by
    decide +kernel
  exact ⟨_, compiled, rfl, (compile_accepts filled rfl).1 _ compiled⟩

end Program

end ByteRegex
