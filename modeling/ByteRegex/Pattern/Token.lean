import ByteRegex.Assertion
import ByteRegex.Pattern.Bracket
import ByteRegex.Pattern.Opening
import ByteRegex.Pattern.Repeat

/-!
Patterns as tokens. A token does not depend on flags or on the tokens before it. A token that is
malformed carries its error, which counts only once the parser gets there.
-/

namespace ByteRegex

inductive Token where
  | literal (byte : UInt8)
  | dot
  | caret
  | dollar
  | bracket (bracket : Bracket)
  | inClass (kind : ByteClass)
  | notInClass (kind : ByteClass)
  | assertion (assertion : Assertion)
  | backReference (group : Nat)
  | opening (opening : Except CompileError Opening)
  | closing
  | bar
  | quantifier (quantifier : Except CompileError Quantifier)
  | malformed (error : CompileError)

namespace Token

def classEscape? (letter : UInt8) : Option Token :=
  (ByteClass.ofEscapeLetter? (Ascii.toLower letter)).map fun kind =>
    if Ascii.isUpper letter then notInClass kind else inClass kind

def assertionEscape? (letter : UInt8) : Option Assertion :=
  if letter = 'b'.toUInt8 then some .wordBoundary
  else if letter = 'B'.toUInt8 then some .notWordBoundary
  else if letter = '<'.toUInt8 then some .wordBegin
  else if letter = '>'.toUInt8 then some .wordEnd
  else if letter = 'A'.toUInt8 then some .textBegin
  else if letter = 'Z'.toUInt8 then some .textEnd
  else none

/-- An escape outside sets, read after its backslash. -/
def readEscape : List UInt8 → Token × List UInt8
  | [] => (malformed .illegalToken, [])
  | letter :: rest =>
      match classEscape? letter with
      | some token => (token, rest)
      | none =>
          match assertionEscape? letter with
          | some found => (assertion found, rest)
          | none =>
              if '1'.toUInt8 ≤ letter && letter ≤ '9'.toUInt8 then
                (backReference (letter.toNat - '0'.toNat), rest)
              else
                match Escape.readByte false letter rest with
                | .ok (byte, rest) => (literal byte, rest)
                | .error error => (malformed error, rest)

/-- The token that starts with a byte, and the pattern after it. -/
def read (byte : UInt8) (rest : List UInt8) : Token × List UInt8 :=
  if byte = '\\'.toUInt8 then readEscape rest
  else if byte = '('.toUInt8 then
    let found := Opening.read rest
    (opening found.1, found.2)
  else if byte = ')'.toUInt8 then (closing, rest)
  else if byte = '|'.toUInt8 then (bar, rest)
  else if byte = '['.toUInt8 then
    match Bracket.read rest with
    | .ok (found, rest) => (bracket found, rest)
    | .error error => (malformed error, rest)
  else if byte = '.'.toUInt8 then (dot, rest)
  else if byte = '^'.toUInt8 then (caret, rest)
  else if byte = '$'.toUInt8 then (dollar, rest)
  else if Quantifier.startsWith byte then
    let found := Quantifier.read byte rest
    (quantifier found.1, found.2)
  else if byte = ']'.toUInt8 then (malformed .unmatchedBracket, rest)
  else if byte = 0x7d then (malformed .illegalToken, rest)
  else (literal byte, rest)

theorem readEscape_length (rest : List UInt8) : (readEscape rest).2.length ≤ rest.length := by
  cases rest with
  | nil => exact Nat.le_refl _
  | cons letter rest =>
      simp only [readEscape]
      split
      · exact Nat.le_succ _
      · split
        · exact Nat.le_succ _
        · split
          · exact Nat.le_succ _
          · split
            · rename_i found
              exact Nat.le_succ_of_le (Escape.readByte_length found)
            · exact Nat.le_succ _

theorem read_length (byte : UInt8) (rest : List UInt8) :
    (read byte rest).2.length ≤ rest.length := by
  let fits (result : Token × List UInt8) : Prop := result.2.length ≤ rest.length
  have same (token : Token) : fits (token, rest) := Nat.le_refl _
  show fits (read byte rest)
  unfold read
  refine iteInduction (fun _ => readEscape_length rest) fun _ => ?_
  refine iteInduction (fun _ => Opening.read_length rest) fun _ => ?_
  refine iteInduction (fun _ => same _) fun _ => ?_
  refine iteInduction (fun _ => same _) fun _ => ?_
  refine iteInduction (fun _ => ?_) fun _ => ?_
  · cases found : Bracket.read rest with
    | ok result => exact Bracket.read_length found
    | error error => exact same _
  refine iteInduction (fun _ => same _) fun _ => ?_
  refine iteInduction (fun _ => same _) fun _ => ?_
  refine iteInduction (fun _ => same _) fun _ => ?_
  refine iteInduction (fun _ => Quantifier.read_length byte rest) fun _ => ?_
  refine iteInduction (fun _ => same _) fun _ => ?_
  exact iteInduction (fun _ => same _) fun _ => same _

end Token

end ByteRegex
