import ByteRegex.Proofs.Search.Mirror

/-!
# Subjects without a newline

The newline flag chooses between two tests and between two pairs of assertions, and it takes the
newline out of negated sets. Where no byte is a newline the choice makes no difference, wherever in
a pattern the flag is set or cleared.
-/

namespace ByteRegex

/-- Flags that put the same into a pattern except where lines matter. -/
structure Flags.SameButNewline (flags other : Flags) : Prop where
  capturing : flags.capturing = other.capturing
  verbatim : flags.verbatim = other.verbatim
  caseless : flags.caseless = other.caseless

section Absent

variable {subject : Array UInt8} (absent : Ascii.newline ∉ subject)
include absent

theorem getElem?_ne_newline (position : Nat) : subject[position]? ≠ some Ascii.newline :=
  fun found => absent (Array.mem_of_getElem? found)

theorem ByteTest.holdsAt_anyButNewline (position : Nat) :
    ByteTest.anyButNewline.holdsAt subject position = ByteTest.any.holdsAt subject position := by
  have differs := getElem?_ne_newline absent position
  simp only [holdsAt]
  cases found : subject[position]? with
  | none => rfl
  | some byte =>
      have other : byte ≠ Ascii.newline := fun same => differs (by rw [found, same])
      simp only [ne_eq, other, not_false_eq_true, decide_true]

theorem Assertion.holdsAt_lineBegin (position : Nat) :
    Assertion.lineBegin.holdsAt subject position = Assertion.textBegin.holdsAt subject position := by
  simp only [holdsAt, getElem?_ne_newline absent, decide_false, Bool.or_false]

theorem Assertion.holdsAt_lineEnd (position : Nat) :
    Assertion.lineEnd.holdsAt subject position = Assertion.textEnd.holdsAt subject position := by
  simp only [holdsAt, getElem?_ne_newline absent, decide_false, Bool.or_false]

/-- The newline that a negated set leaves out is not there. -/
theorem Bracket.holdsAt_toByteSet (bracket : Bracket) (flags : Flags) (position : Nat) :
    (ByteTest.set (bracket.toByteSet flags)).holdsAt subject position =
      subject[position]?.any fun byte => bracket.negated != bracket.covers flags.caseless byte := by
  have differs := getElem?_ne_newline absent position
  simp only [ByteTest.holdsAt]
  cases found : subject[position]? with
  | none => rfl
  | some byte =>
      have other : byte ≠ Ascii.newline := fun same => differs (by rw [found, same])
      cases negated : bracket.negated <;> simp [toByteSet, denotes, other, negated]

theorem Flags.unseen_newline : Flags.Unseen subject subject Flags.SameButNewline where
  capturing same := same.capturing
  verbatim same := same.verbatim
  caseless same := same.caseless
  folded _ := .refl _ subject
  dot {flags other} _ := by
    have plain := ByteTest.holdsAt_anyButNewline absent
    constructor <;> cases flags.newline <;> cases other.newline <;>
      simp [ByteTest.encode, Opcode.encode, plain]
  caret {flags other} _ position := by
    have plain := Assertion.holdsAt_lineBegin absent
    cases flags.newline <;> cases other.newline <;> simp [plain]
  dollar {flags other} _ position := by
    have plain := Assertion.holdsAt_lineEnd absent
    cases flags.newline <;> cases other.newline <;> simp [plain]
  bracket {flags other} same bracket :=
    { length := by simp [ByteTest.encode]
      holds position := by
        rw [bracket.holdsAt_toByteSet absent, bracket.holdsAt_toByteSet absent, same.caseless] }
  inClass _ := ⟨rfl, fun _ => rfl⟩
  notInClass _ := ⟨rfl, fun _ => rfl⟩
  assertion _ _ := rfl

end Absent

/-- No group header tells apart flags that differ in the newline flag alone. -/
theorem Token.keeps_sameButNewline (token : Token) : token.Keeps Flags.SameButNewline := by
  cases token with
  | opening read =>
      intro enable changed _ flags other same
      cases enable <;> constructor <;>
        simp [Flags.inside, Flags.union, Flags.difference, same.capturing, same.verbatim,
          same.caseless]
  | literal _ | dot | caret | dollar | bracket _ | inClass _ | notInClass _ | assertion _ => trivial
  | backReference _ | closing | bar | quantifier _ | malformed _ => trivial

namespace Program

/-- A pattern compiles under the newline flag if and only if it compiles without, with the same
error if it does not, and both programs find the same in a subject without newlines. -/
theorem search_newline (pattern : List UInt8) (flags : Flags) :
    (∃ error, compile pattern flags = .error error ∧
      compile pattern { flags with newline := true } = .error error) ∨
    ∃ program other, compile pattern flags = .ok program ∧
      compile pattern { flags with newline := true } = .ok other ∧
      ∀ subject : Array UInt8, Ascii.newline ∉ subject → ∀ window limits,
        program.search subject window limits = other.search subject window limits := by
  have both : ∀ subject : Array UInt8, Ascii.newline ∉ subject →
      Both (fun program other => ∀ window limits,
          program.search subject window limits = other.search subject window limits)
        (compile pattern flags) (compile pattern { flags with newline := true }) :=
    fun subject absent => search_both (Flags.unseen_newline absent)
      (fun _ token _ => token.keeps_sameButNewline) ⟨rfl, rfl, rfl⟩ rfl
  generalize compile pattern flags = result at both ⊢
  generalize compile pattern { flags with newline := true } = result' at both ⊢
  cases both #[] (Array.not_mem_empty _) with
  | error error => exact .inl ⟨error, rfl, rfl⟩
  | @ok program other _ =>
      refine .inr ⟨program, other, rfl, rfl, fun subject absent => ?_⟩
      cases both subject absent with
      | ok same => exact same

/-- The programs differ in the set and the dot, but not in the anchor, whose group clears the flag. -/
theorem search_newline_inline :
    ∃ program other captures, compile "([^b].)(?-n$)".toUTF8.toList .default = .ok program ∧
      compile "([^b].)(?-n$)".toUTF8.toList { Flags.default with newline := true } = .ok other ∧
      program.code ≠ other.code ∧
      program.search #[97, 98, 32, 99] ⟨0, 4, .backward⟩ ⟨1, some 11⟩ = some captures ∧
      other.search #[97, 98, 32, 99] ⟨0, 4, .backward⟩ ⟨1, some 11⟩ = some captures := by
  have compiled : compile "([^b].)(?-n$)".toUTF8.toList .default =
      .ok ⟨#[20, 1, 0, 9, 255, 255, 255, 255, 255, 255, 255, 255, 255, 255, 255, 255, 251, 255, 255,
        255, 255, 255, 255, 255, 255, 255, 255, 255, 255, 255, 255, 255, 255, 255, 255, 255, 7, 21,
        1, 0, 15, 0], 1, .default⟩ :=
    compile_of_toOption (by decide +kernel)
  have found : Program.search ⟨#[20, 1, 0, 9, 255, 255, 255, 255, 255, 255, 255, 255, 255, 255, 255,
      255, 251, 255, 255, 255, 255, 255, 255, 255, 255, 255, 255, 255, 255, 255, 255, 255, 255, 255,
      255, 255, 7, 21, 1, 0, 15, 0], 1, .default⟩ #[97, 98, 32, 99] ⟨0, 4, .backward⟩ ⟨1, some 11⟩ =
      some ⟨#v[some ⟨2, 4⟩, some ⟨2, 4⟩, none, none, none, none, none, none, none, none]⟩ := by
    decide +kernel
  have inNewline : (compile "([^b].)(?-n$)".toUTF8.toList
      { Flags.default with newline := true }).toOption.map (·.code[5]?) = some (some 251) := by
    decide +kernel
  rcases search_newline "([^b].)(?-n$)".toUTF8.toList .default with
    ⟨error, failed, _⟩ | ⟨program, other, first, second, same⟩
  · cases compiled.symm.trans failed
  · cases compiled.symm.trans first
    refine ⟨_, other, _, compiled, second, fun equal => ?_, found, ?_⟩
    · rw [second] at inNewline
      simp [Except.toOption, ← equal] at inNewline
    · rw [← same _ (by simp [Ascii.newline]), found]

end Program

end ByteRegex
