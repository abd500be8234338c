import ByteRegex.Proofs.Assembly.Sinks
import ByteRegex.Proofs.Grammar.Splicing
import ByteRegex.Program

/-!
# Escaping

A word can be written in many ways. As long as each byte is spelled on its own, by itself where it
means nothing else or by an escape that stands for it, the pattern is compiled to the code of the
word as it is.
-/

namespace ByteRegex

namespace Grammar

/-- The spellings of one byte. -/
inductive Spells : List UInt8 → UInt8 → Prop where
  | itself {byte : UInt8} (plain : byte ∉ metas) : Spells [byte] byte
  | quoted {byte : UInt8} (other : Ascii.isAlphanumeric byte = false) (begins : byte ≠ '<'.toUInt8)
      (ends : byte ≠ '>'.toUInt8) : Spells ['\\'.toUInt8, byte] byte
  | hex {first second high low byte : UInt8} (leading : Ascii.hexValue? first = some high)
      (trailing : Ascii.hexValue? second = some low)
      (value : byte.toNat = 16 * high.toNat + low.toNat) :
      Spells ['\\'.toUInt8, 'x'.toUInt8, first, second] byte
  | octal {first second third byte : UInt8}
      (octal : ∀ digit ∈ [first, second, third], Escape.isOctalDigit digit = true)
      (value : byte.toNat = numeral 8 [first, second, third]) :
      Spells ['\\'.toUInt8, '0'.toUInt8, first, second, third] byte
  | named {letter byte : UInt8} (known : (letter, byte) ∈ namedEscapes) :
      Spells ['\\'.toUInt8, letter] byte
  | control {letter byte : UInt8} (known : Ascii.isLetter letter = true)
      (value : letter &&& 0x1f = byte) : Spells ['\\'.toUInt8, 'c'.toUInt8, letter] byte

/-- A pattern that spells a word, byte after byte. -/
inductive Spelling : List UInt8 → List UInt8 → Prop where
  | nil : Spelling [] []
  | cons {text pattern word : List UInt8} {byte : UInt8} (one : Spells text byte)
      (later : Spelling pattern word) : Spelling (text ++ pattern) (byte :: word)

/-- Whatever follows the spelling of a byte, it is read as that byte and no further. -/
theorem Spells.lexeme {text : List UInt8} {byte : UInt8} (spells : Spells text byte)
    (rest : List UInt8) : Lexeme (text ++ rest) (.literal byte) rest := by
  cases spells with
  | itself plain => exact .literal plain rest
  | quoted other begins ends => exact .escaped (.itself other rest) begins ends
  | @hex _ _ high low byte leading trailing value =>
      have same : high * 16 + low = byte := by
        have small := byte.toNat_lt
        have sixteen : (16 : UInt8).toNat = 16 := rfl
        apply UInt8.toNat_inj.mp
        rw [UInt8.toNat_add, UInt8.toNat_mul, sixteen]
        omega
      have escape : EscapedByte false _ _ rest := .hex leading trailing rest
      rw [same] at escape
      exact .escaped escape (by decide) (by decide)
  | @octal first second third byte octal value =>
      have small : numeral 8 [first, second, third] ≤ 255 := by
        rw [← value]
        exact Nat.le_of_lt_succ byte.toNat_lt
      have escape : EscapedByte false _ _ rest :=
        @EscapedByte.octal _ [first, second, third] rest (Nat.le_refl 3) octal (.inl rfl) small
      rw [← value, UInt8.ofNat_toNat] at escape
      exact .escaped escape (by decide) (by decide)
  | @named letter byte known =>
      have apart : letter ≠ '<'.toUInt8 ∧ letter ≠ '>'.toUInt8 := by
        have others : namedEscapes.all fun pair =>
            decide (pair.1 ≠ '<'.toUInt8 ∧ pair.1 ≠ '>'.toUInt8) := rfl
        exact of_decide_eq_true (List.all_eq_true.mp others _ known)
      exact .escaped (.named known rest) apart.1 apart.2
  | control known value =>
      subst value
      exact .escaped (.control known rest) (by decide) (by decide)

/-- The tokens of a spelling are the bytes of the word. -/
theorem Spelling.reads {pattern word : List UInt8} (spelling : Spelling pattern word) :
    Reads pattern (word.map .literal) [] := by
  induction spelling with
  | nil => exact .nil []
  | cons one _ ih => exact .cons (one.lexeme _) ih

end Grammar

namespace ParseState

/-- A parser that has read nothing but the bytes of a literal, which are given latest first. -/
def spelling (flags : Flags) (last : UInt8) (earlier : List UInt8) : ParseState :=
  (initial flags).withFrame ((initial flags).frame.await (.literals last earlier))

theorem foldlM_spelling (flags : Flags) (word : List UInt8) (last : UInt8)
    (earlier : List UInt8) :
    ∃ last' earlier', (word.map Token.literal).foldlM step (spelling flags last earlier) =
        .ok (spelling flags last' earlier') ∧
      (last' :: earlier').reverse = (last :: earlier).reverse ++ word := by
  induction word generalizing last earlier with
  | nil => exact ⟨last, earlier, rfl, (List.append_nil _).symm⟩
  | cons byte word ih =>
      obtain ⟨last', earlier', folded, whole⟩ := ih byte (last :: earlier)
      refine ⟨last', earlier', folded, ?_⟩
      rw [whole, List.reverse_cons, List.append_assoc, List.singleton_append]

/-- However long the literal is, its code is that of the bytes one after another. -/
theorem finish_spelling (flags : Flags) (last : UInt8) (earlier : List UInt8) :
    ∃ piece, (spelling flags last earlier).finish = .ok (.sequence piece .empty, 0) ∧
      ∀ {σ : Type} [CodeSink σ] (sink : σ),
        piece.emit sink = .ok (appendLiteral flags.caseless (last :: earlier).reverse sink) := by
  cases earlier with
  | nil =>
      refine ⟨.test (.ofLiteral flags.caseless last), rfl, fun sink => ?_⟩
      rw [List.reverse_singleton, appendLiteral_of_filled _ (List.cons_ne_nil _ _)]
      exact congrArg Except.ok (appendLiteral_nil flags.caseless _).symm
  | cons next earlier =>
      exact ⟨.literal flags.caseless (last :: next :: earlier).reverse, rfl, fun sink => rfl⟩

end ParseState

namespace Program

open Grammar

variable {pattern word : List UInt8} {flags : Flags}

/-- Reading a spelling and taking the word as it is come to the same code. -/
theorem assemble_spelling (filled : word ≠ []) (readable : flags.verbatim = false)
    (spelling : Spelling pattern word) {σ : Type} [CodeSink σ] (sink : σ) :
    assemble pattern flags sink = assemble word { flags with verbatim := true } sink := by
  obtain ⟨byte, word, rfl⟩ := List.exists_cons_of_ne_nil filled
  obtain ⟨last, earlier, folded, whole⟩ := ParseState.foldlM_spelling flags word byte []
  obtain ⟨piece, finished, emitted⟩ := ParseState.finish_spelling flags last earlier
  have nonempty : pattern.isEmpty = false := by
    cases spelling with
    | cons one _ => cases one <;> rfl
  have read : parse pattern flags = .ok (.sequence piece .empty, 0) := by
    rw [parse, nonempty, readable, if_neg Bool.false_ne_true, if_neg Bool.false_ne_true,
      ParseState.readAll_eq_foldlM, spelling.reads.tokens_eq, tokens, List.append_nil]
    exact (congrArg (· >>= ParseState.finish) folded).trans finished
  have taken : parse (byte :: word) { flags with verbatim := true } =
      .ok (.literal flags.caseless (byte :: word), 0) := rfl
  rw [assemble, assemble, read, taken]
  simp only [Expr.emit, emitted sink, whole]
  rfl

/-- However a word is spelled, it is compiled to the code of the word. -/
theorem compile_spelling (filled : word ≠ []) (readable : flags.verbatim = false)
    (spelling : Spelling pattern word) :
    ∃ program verbatim, compile pattern flags = .ok program ∧ program.groups = 0 ∧
      compile word { flags with verbatim := true } = .ok verbatim ∧
      program.code = verbatim.code := by
  obtain ⟨buffer, taken⟩ : ∃ buffer,
      assemble word { flags with verbatim := true } CodeBuffer.empty = .ok (buffer, 0) := by
    obtain ⟨byte, word, rfl⟩ := List.exists_cons_of_ne_nil filled
    exact ⟨_, rfl⟩
  have read : assemble pattern flags CodeBuffer.empty = .ok (buffer, 0) :=
    (assemble_spelling filled readable spelling CodeBuffer.empty).trans taken
  refine ⟨⟨buffer.code, 0, flags⟩, ⟨buffer.code, 0, { flags with verbatim := true }⟩, ?_, rfl, ?_,
    rfl⟩
  · rw [compile, read]
    rfl
  · rw [compile, taken]
    rfl

theorem compile_spelling_mixed :
    ([97, 91, 10, 46, 1, 255] : List UInt8) ≠ [] ∧
      (⟨true, false, true, false, false⟩ : Flags).verbatim = false ∧
      Spelling ([97] ++ ([92, 91] ++ ([92, 110] ++ ([92, 120, 50, 69] ++ ([92, 99, 97] ++
        ([92, 48, 51, 55, 55] ++ [])))))) [97, 91, 10, 46, 1, 255] ∧
      ∃ program verbatim,
        compile [97, 92, 91, 92, 110, 92, 120, 50, 69, 92, 99, 97, 92, 48, 51, 55, 55]
          ⟨true, false, true, false, false⟩ = .ok program ∧
        program.groups = 0 ∧
        compile [97, 91, 10, 46, 1, 255] ⟨true, false, true, true, false⟩ = .ok verbatim ∧
        program.code = verbatim.code := by
  have filled : ([97, 91, 10, 46, 1, 255] : List UInt8) ≠ [] := List.cons_ne_nil _ _
  have spelling : Spelling ([97] ++ ([92, 91] ++ ([92, 110] ++ ([92, 120, 50, 69] ++
      ([92, 99, 97] ++ ([92, 48, 51, 55, 55] ++ [])))))) [97, 91, 10, 46, 1, 255] :=
    .cons (.itself (by decide)) <|
      .cons (.quoted (by decide) (by decide) (by decide)) <|
      .cons (.named (by decide)) <|
      .cons (.hex (rfl : Ascii.hexValue? 50 = some 2) (rfl : Ascii.hexValue? 69 = some 14)
        (by decide)) <|
      .cons (.control (by decide) (by decide)) <|
      .cons (.octal (List.all_eq_true.mp rfl) (by decide)) .nil
  exact ⟨filled, rfl, spelling, compile_spelling filled rfl spelling⟩

end Program

end ByteRegex
