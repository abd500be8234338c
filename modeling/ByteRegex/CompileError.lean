/-!
The ways in which a pattern can be refused. Searching has no errors of its own.
-/

namespace ByteRegex

inductive CompileError where
  | emptyPattern
  /-- A parenthesis without its partner. -/
  | unmatchedParen
  /-- A `[` without `]`, or a `]` outside a set. -/
  | unmatchedBracket
  /-- An opening brace without the closing one. -/
  | unmatchedBrace
  /-- A quantifier or an alternation with nothing in front of it. -/
  | missingOperand
  /-- An unknown escape or a malformed token. -/
  | illegalToken
  /-- A counted repeat with a maximum of zero or below its minimum, or with a bound too large. -/
  | badRepeatRange
  /-- Too many groups or counted loops, too deep nesting, or a jump that is too long. -/
  | tooComplex
  /-- A back-reference to a group that does not exist or is not closed yet. -/
  | badBackReference
  /-- A lookbehind over an expression without a fixed width. -/
  | variableLookbehind
deriving DecidableEq, Repr

namespace CompileError

def message : CompileError → String
  | emptyPattern => "Empty regular expression"
  | unmatchedParen => "Unmatched parenthesis"
  | unmatchedBracket => "Unmatched bracket"
  | unmatchedBrace => "Unmatched brace"
  | missingOperand => "Nothing to repeat or alternate"
  | illegalToken => "Illegal token"
  | badRepeatRange => "Bad repeat range"
  | tooComplex => "Regular expression too complex"
  | badBackReference => "Bad back-reference"
  | variableLookbehind => "Lookbehind requires a fixed-width expression"

end CompileError

end ByteRegex
