import ByteRegex.Proofs.Grammar.Groups
import ByteRegex.Proofs.Grammar.Quantifiers
import ByteRegex.Proofs.Grammar.Sets
import ByteRegex.Proofs.Syntax.Tokens

/-!
# Lexing

The tokens that reading a pattern finds are those it is spelled with, unless one of them is
malformed.
-/

namespace ByteRegex.Grammar

/-- Whether a token was spelled without an error. -/
def isSpelled : Token → Bool
  | .malformed _ | .opening (.error _) | .quantifier (.error _) => false
  | _ => true

theorem classEscape?_iff {letter : UInt8} {token : Token} :
    Token.classEscape? letter = some token ↔
      ∃ kind, letter = classLetter kind ∧ token = .inClass kind ∨
        letter = Ascii.toUpper (classLetter kind) ∧ token = .notInClass kind :=
  map_ofEscapeLetter?_iff

theorem assertionEscape?_iff (condition : Assertion) : ∀ letter : UInt8,
    Token.assertionEscape? letter = some condition ↔ (letter, condition) ∈ assertionEscapes := by
  cases condition <;> exact byte_cases (by decide +kernel)

theorem readEscape_sound {input : List UInt8} (spelled : isSpelled (Token.readEscape input).1) :
    Lexeme ('\\'.toUInt8 :: input) (Token.readEscape input).1 (Token.readEscape input).2 := by
  cases input with
  | nil => cases spelled
  | cons letter rest =>
      simp only [Token.readEscape] at spelled ⊢
      cases known : Token.classEscape? letter with
      | some token =>
          obtain ⟨kind, ⟨rfl, rfl⟩ | ⟨rfl, rfl⟩⟩ := classEscape?_iff.mp known
          · exact .inClass kind rest
          · exact .notInClass kind rest
      | none =>
          cases found : Token.assertionEscape? letter with
          | some condition =>
              exact .assertion ((assertionEscape?_iff condition letter).mp found) rest
          | none =>
              simp only [known, found] at spelled
              dsimp only
              split
              · rename_i digit
                simp only [Bool.and_eq_true, decide_eq_true_eq] at digit
                exact .backReference digit.1 digit.2 rest
              · rename_i other
                rw [if_neg other] at spelled
                cases read : Escape.readByte false letter rest with
                | error error =>
                    rw [read] at spelled
                    cases spelled
                | ok result =>
                    refine .escaped (readByte_sound read) ?_ ?_ <;> rintro rfl <;> cases found

/-- An escape that stands for one byte stands for nothing else, except for two of them outside
sets. -/
theorem unknown_of_escapedByte {letter byte : UInt8} {input rest : List UInt8}
    (escape : EscapedByte false (letter :: input) byte rest) (begins : letter ≠ '<'.toUInt8)
    (ends : letter ≠ '>'.toUInt8) :
    Token.classEscape? letter = none ∧ Token.assertionEscape? letter = none ∧
      ('1'.toUInt8 ≤ letter && letter ≤ '9'.toUInt8) = false := by
  have apart : ∀ letter : UInt8, (Escape.named? false letter).isSome = true ∨
      letter = '0'.toUInt8 ∨ letter = 'x'.toUInt8 ∨ letter = 'c'.toUInt8 ∨
        Ascii.isAlphanumeric letter = false →
      letter ≠ '<'.toUInt8 → letter ≠ '>'.toUInt8 →
      ByteClass.ofEscapeLetter? (Ascii.toLower letter) = none ∧
        Token.assertionEscape? letter = none ∧
        ('1'.toUInt8 ≤ letter && letter ≤ '9'.toUInt8) = false := byte_cases (by decide +kernel)
  have bytes : (Escape.named? false letter).isSome = true ∨ letter = '0'.toUInt8 ∨
      letter = 'x'.toUInt8 ∨ letter = 'c'.toUInt8 ∨ Ascii.isAlphanumeric letter = false := by
    cases escape with
    | named known => exact .inl (by rw [named?_complete known]; rfl)
    | backspace within => cases within
    | octal => exact .inr (.inl rfl)
    | hex => exact .inr (.inr (.inl rfl))
    | control => exact .inr (.inr (.inr (.inl rfl)))
    | itself other => exact .inr (.inr (.inr (.inr other)))
  obtain ⟨kindless, unassertive, other⟩ := apart letter bytes begins ends
  exact ⟨by rw [Token.classEscape?, kindless]; rfl, unassertive, other⟩

/-- A token begins with the byte that says what it is. -/
theorem lexeme_of_read {byte : UInt8} {tail : List UInt8}
    (spelled : isSpelled (Token.read byte tail).1) :
    Lexeme (byte :: tail) (Token.read byte tail).1 (Token.read byte tail).2 := by
  unfold Token.read at spelled ⊢
  by_cases backslash : byte = '\\'.toUInt8
  · rw [if_pos backslash] at spelled ⊢
    exact backslash ▸ readEscape_sound spelled
  rw [if_neg backslash] at spelled ⊢
  by_cases opens : byte = '('.toUInt8
  · rw [if_pos opens] at spelled ⊢
    cases found : (Opening.read tail).1 with
    | error error =>
        simp only [found] at spelled
        cases spelled
    | ok opening =>
        simp only [found]
        exact opens ▸ .opening (readOpening_sound found)
  rw [if_neg opens] at spelled ⊢
  by_cases closes : byte = ')'.toUInt8
  · rw [if_pos closes]
    exact closes ▸ .closing tail
  rw [if_neg closes] at spelled ⊢
  by_cases bar : byte = '|'.toUInt8
  · rw [if_pos bar]
    exact bar ▸ .bar tail
  rw [if_neg bar] at spelled ⊢
  by_cases set : byte = '['.toUInt8
  · rw [if_pos set] at spelled ⊢
    cases found : Bracket.read tail with
    | error error =>
        rw [found] at spelled
        cases spelled
    | ok result => exact set ▸ .set (readSet_sound found)
  rw [if_neg set] at spelled ⊢
  by_cases dot : byte = '.'.toUInt8
  · rw [if_pos dot]
    exact dot ▸ .dot tail
  rw [if_neg dot] at spelled ⊢
  by_cases caret : byte = '^'.toUInt8
  · rw [if_pos caret]
    exact caret ▸ .caret tail
  rw [if_neg caret] at spelled ⊢
  by_cases dollar : byte = '$'.toUInt8
  · rw [if_pos dollar]
    exact dollar ▸ .dollar tail
  rw [if_neg dollar] at spelled ⊢
  by_cases repeats : Quantifier.startsWith byte = true
  · rw [if_pos repeats] at spelled ⊢
    cases found : (Quantifier.read byte tail).1 with
    | error error =>
        simp only [found] at spelled
        cases spelled
    | ok quantifier =>
        simp only [found]
        exact readQuantifier_sound repeats found
  rw [if_neg repeats] at spelled ⊢
  by_cases bracket : byte = ']'.toUInt8
  · rw [if_pos bracket] at spelled
    cases spelled
  rw [if_neg bracket] at spelled ⊢
  by_cases brace : byte = 0x7d
  · rw [if_pos brace] at spelled
    cases spelled
  rw [if_neg brace]
  refine .literal ?_ tail
  simp only [Quantifier.startsWith, Bool.or_eq_true, decide_eq_true_eq, not_or] at repeats
  simp [metas, backslash, opens, closes, bar, set, dot, caret, dollar, repeats, bracket, brace]

theorem read_backslash (tail : List UInt8) :
    Token.read '\\'.toUInt8 tail = Token.readEscape tail := rfl

theorem read_of_startsWith {byte : UInt8} (starts : Quantifier.startsWith byte = true)
    (tail : List UInt8) :
    Token.read byte tail =
      (.quantifier (Quantifier.read byte tail).1, (Quantifier.read byte tail).2) := by
  simp only [Quantifier.startsWith, Bool.or_eq_true, decide_eq_true_eq] at starts
  rcases starts with ((rfl | rfl) | rfl) | rfl <;> rfl

theorem read_of_lexeme {input rest : List UInt8} {token : Token}
    (lexeme : Lexeme input token rest) :
    ∃ byte tail, input = byte :: tail ∧ Token.read byte tail = (token, rest) := by
  cases lexeme with
  | literal plain =>
      simp only [metas, List.map_cons, List.map_nil, List.cons_append, List.nil_append,
        List.mem_cons, List.not_mem_nil, or_false, not_or] at plain
      refine ⟨_, _, rfl, ?_⟩
      simp [Token.read, Quantifier.startsWith, plain]
  | escaped escape begins ends =>
      obtain ⟨kindless, unassertive, other⟩ := unknown_of_escapedByte escape begins ends
      refine ⟨_, _, rfl, ?_⟩
      simp [Token.read, Token.readEscape, kindless, unassertive, other, readByte_complete escape]
  | dot | caret | dollar | closing | bar => exact ⟨_, _, rfl, rfl⟩
  | @set input _ _ body =>
      refine ⟨_, input, rfl, ?_⟩
      rw [Token.read, if_neg (by decide), if_neg (by decide), if_neg (by decide),
        if_neg (by decide), if_pos rfl, readSet_complete body]
  | inClass kind =>
      have known := classEscape?_iff.mpr ⟨kind, .inl ⟨rfl, rfl⟩⟩
      refine ⟨_, _, rfl, ?_⟩
      simp only [read_backslash, Token.readEscape, known]
  | notInClass kind =>
      have known := classEscape?_iff.mpr ⟨kind, .inr ⟨rfl, rfl⟩⟩
      refine ⟨_, _, rfl, ?_⟩
      simp only [read_backslash, Token.readEscape, known]
  | @assertion letter condition known =>
      have kindless : ∀ letter : UInt8, (Token.assertionEscape? letter).isSome = true →
          ByteClass.ofEscapeLetter? (Ascii.toLower letter) = none := byte_cases (by decide +kernel)
      have found := (assertionEscape?_iff condition letter).mpr known
      refine ⟨_, _, rfl, ?_⟩
      simp only [read_backslash, Token.readEscape, Token.classEscape?,
        kindless letter (by rw [found]; rfl), Option.map_none, found]
  | @backReference digit lower upper =>
      have unknown : ∀ digit : UInt8, '1'.toUInt8 ≤ digit ∧ digit ≤ '9'.toUInt8 →
          ByteClass.ofEscapeLetter? (Ascii.toLower digit) = none ∧
            Token.assertionEscape? digit = none := byte_cases (by decide +kernel)
      obtain ⟨kindless, unassertive⟩ := unknown digit ⟨lower, upper⟩
      refine ⟨_, _, rfl, ?_⟩
      simp only [read_backslash, Token.readEscape, Token.classEscape?, kindless, Option.map_none,
        unassertive, lower, upper, decide_true, Bool.and_self, if_true]
      rfl
  | @opening input _ _ header =>
      refine ⟨_, input, rfl, ?_⟩
      have reads : Token.read '('.toUInt8 input =
          (.opening (Opening.read input).1, (Opening.read input).2) := rfl
      rw [reads, readOpening_complete header]
  | quantifier repeats suffix =>
      obtain ⟨byte, tail, same, starts, reads⟩ :=
        readQuantifier_complete (.quantifier repeats suffix)
      exact ⟨byte, tail, same, by rw [read_of_startsWith starts, reads]⟩

theorem isSpelled_of_lexeme {input rest : List UInt8} {token : Token}
    (lexeme : Lexeme input token rest) : isSpelled token = true := by
  cases lexeme <;> rfl

/-- A pattern is spelled in at most one way, as the tokens that reading it finds. -/
theorem lexemes_iff {pattern : List UInt8} {found : List Token} :
    Lexemes pattern found ↔
      found = tokens pattern ∧ ∀ token ∈ found, isSpelled token = true := by
  constructor
  · intro lexemes
    induction lexemes with
    | nil => exact ⟨by rw [tokens], nofun⟩
    | cons lexeme _ ih =>
        obtain ⟨byte, tail, rfl, reads⟩ := read_of_lexeme lexeme
        obtain ⟨same, spelled⟩ := ih
        refine ⟨by rw [tokens_cons, reads, same], ?_⟩
        exact List.forall_mem_cons.mpr ⟨isSpelled_of_lexeme lexeme, spelled⟩
  · rintro ⟨rfl, spelled⟩
    fun_induction tokens pattern with
    | case1 => exact .nil
    | case2 byte rest found ih =>
        obtain ⟨first, later⟩ := List.forall_mem_cons.mp spelled
        exact .cons (lexeme_of_read first) (ih later)

end ByteRegex.Grammar
