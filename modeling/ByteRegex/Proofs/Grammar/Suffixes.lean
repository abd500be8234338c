import Mathlib.Data.List.Infix
import ByteRegex.Proofs.Grammar.Spelling

/-!
# Where tokens stand

What is read behind a token is a suffix of the pattern. So whatever a token is spelled with can be
found in the pattern as it is written.
-/

namespace ByteRegex.Grammar

open List (suffix_cons suffix_append suffix_refl)

theorem EscapedByte.suffix {inSet : Bool} {input rest : List UInt8} {byte : UInt8}
    (escape : EscapedByte inSet input byte rest) : rest <:+ input := by
  cases escape with
  | named _ | backspace _ | itself _ => exact suffix_cons _ _
  | @octal digits => exact (suffix_append digits rest).trans (suffix_cons _ _)
  | hex _ _ => exact suffix_append [_, _, _] rest
  | control _ => exact suffix_append [_, _] rest

theorem Member.suffix {input rest : List UInt8} {byte : UInt8} (member : Member input byte rest) :
    rest <:+ input := by
  cases member with
  | plain _ => exact suffix_cons _ _
  | escaped escape => exact escape.suffix.trans (suffix_cons _ _)

theorem Item.suffix {input rest : List UInt8} {item : BracketItem} (spelled : Item input item rest) :
    rest <:+ input := by
  cases spelled with
  | byte member _ => exact member.suffix
  | range lower upper _ _ => exact upper.suffix.trans ((suffix_cons _ _).trans lower.suffix)
  | inClass _ | notInClass _ => exact suffix_append [_, _] rest

theorem Items.suffix {first : Bool} {input rest : List UInt8} {items : List BracketItem}
    (listed : Items first input items rest) : rest <:+ input := by
  induction listed with
  | done rest => exact suffix_cons _ _
  | more _ one _ later => exact later.trans one.suffix

theorem SetBody.suffix {input rest : List UInt8} {bracket : Bracket}
    (body : SetBody input bracket rest) : rest <:+ input := by
  cases body with
  | plain _ _ listed => exact listed.suffix
  | negated _ listed => exact listed.suffix.trans (suffix_cons _ _)

theorem Header.suffix {input rest : List UInt8} {opening : Opening}
    (header : Header input opening rest) : rest <:+ input := by
  cases header with
  | plain _ => exact suffix_refl _
  | enclosing | atomic | ahead | notAhead => exact suffix_append [_, _] rest
  | behind | notBehind => exact suffix_append [_, _, _] rest
  | @inline letters behind _ enable _ _ _ colon =>
      have last : rest <:+ behind := by
        rcases colon with rfl | ⟨rfl, _⟩
        · exact suffix_cons _ _
        · exact suffix_refl _
      exact last.trans ((suffix_append _ behind).trans (suffix_cons _ _))

theorem Repeats.suffix {input rest : List UInt8} {least : Nat} {most : Option Nat}
    (repeats : Repeats input least most rest) : rest <:+ input := by
  cases repeats with
  | star | plus | mark => exact suffix_cons _ _
  | @braces text _ _ _ _ =>
      exact (suffix_cons _ _).trans ((suffix_append text _).trans (suffix_cons _ _))

theorem Suffix.suffix {input rest : List UInt8} {greed : Greed} (mark : Suffix input greed rest) :
    rest <:+ input := by
  cases mark with
  | lazy | possessive => exact suffix_cons _ _
  | greedy => exact suffix_refl _

theorem Lexeme.suffix {input rest : List UInt8} {token : Token} (lexeme : Lexeme input token rest) :
    rest <:+ input := by
  cases lexeme with
  | literal _ | dot | caret | dollar | closing | bar => exact suffix_cons _ _
  | escaped escape _ _ => exact escape.suffix.trans (suffix_cons _ _)
  | set body => exact body.suffix.trans (suffix_cons _ _)
  | inClass _ | notInClass _ | assertion _ | backReference _ _ => exact suffix_append [_, _] rest
  | opening header => exact header.suffix.trans (suffix_cons _ _)
  | quantifier repeats suffix => exact suffix.suffix.trans repeats.suffix

/-- A token of a pattern is spelled somewhere in it. -/
theorem Lexemes.exists_lexeme {pattern : List UInt8} {found : List Token}
    (lexemes : Lexemes pattern found) :
    ∀ token ∈ found, ∃ input rest, input <:+ pattern ∧ Lexeme input token rest := by
  induction lexemes with
  | nil => exact nofun
  | @cons input rest token later lexeme _ ih =>
      intro other member
      rcases List.mem_cons.mp member with rfl | member
      · exact ⟨input, rest, suffix_refl _, lexeme⟩
      · obtain ⟨input', rest', behind, spelled⟩ := ih other member
        exact ⟨input', rest', behind.trans lexeme.suffix, spelled⟩

/-- A group that clears flags begins in one way only. -/
theorem Lexemes.infix_of_clearing {pattern : List UInt8} {found : List Token}
    (lexemes : Lexemes pattern found) {changed : Flags}
    (member : .opening (.ok (.inline false changed)) ∈ found) :
    ['('.toUInt8, '?'.toUInt8, '-'.toUInt8] <:+: pattern := by
  obtain ⟨input, rest, behind, lexeme⟩ := lexemes.exists_lexeme _ member
  cases lexeme with
  | opening header =>
      cases header with
      | @inline letters after _ _ _ _ _ _ =>
          have first : ['('.toUInt8, '?'.toUInt8, '-'.toUInt8] <+:
              '('.toUInt8 :: '?'.toUInt8 :: (['-'.toUInt8] ++ letters ++ after) :=
            ⟨letters ++ after, rfl⟩
          exact first.isInfix.trans behind.isInfix

end ByteRegex.Grammar
