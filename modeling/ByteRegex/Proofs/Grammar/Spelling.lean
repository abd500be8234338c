import ByteRegex.Pattern.Token

/-!
# Spelling

How each token of a pattern is written. A judgement relates the pattern from some place on, what
stands there, and the pattern behind it. No token can be spelled in two ways at one place: numbers,
flag letters and the marks behind a quantifier are taken as far as they go.
-/

namespace ByteRegex.Grammar

/-- The bytes that mean something other than themselves outside sets. -/
def metas : List UInt8 :=
  ['^', '$', '.', '|', '?', '*', '+', '(', ')', '[', ']', '\\'].map Char.toUInt8 ++ [0x7b, 0x7d]

/-- The number that digits stand for in a base of at most ten. -/
def numeral (base : Nat) (digits : List UInt8) : Nat :=
  digits.foldl (fun number digit => base * number + (digit.toNat - 48)) 0

/-! ## Escapes -/

/-- The letters that name one byte, and that byte. -/
def namedEscapes : List (UInt8 × UInt8) :=
  [('n'.toUInt8, 0x0a), ('r'.toUInt8, 0x0d), ('t'.toUInt8, 0x09), ('f'.toUInt8, 0x0c),
    ('v'.toUInt8, 0x0b), ('e'.toUInt8, 0x1b), ('a'.toUInt8, 0x07)]

/-- An escape that stands for one byte, behind its backslash. -/
inductive EscapedByte (inSet : Bool) : List UInt8 → UInt8 → List UInt8 → Prop where
  | named {letter byte : UInt8} (known : (letter, byte) ∈ namedEscapes) (rest : List UInt8) :
      EscapedByte inSet (letter :: rest) byte rest
  | backspace (within : inSet = true) (rest : List UInt8) :
      EscapedByte inSet ('b'.toUInt8 :: rest) 0x08 rest
  | octal {digits rest : List UInt8} (few : digits.length ≤ 3)
      (octal : ∀ digit ∈ digits, Escape.isOctalDigit digit = true)
      (all : digits.length = 3 ∨ ∀ next ∈ rest.head?, Escape.isOctalDigit next = false)
      (small : numeral 8 digits ≤ 255) :
      EscapedByte inSet ('0'.toUInt8 :: (digits ++ rest)) (UInt8.ofNat (numeral 8 digits)) rest
  | hex {first second high low : UInt8} (leading : Ascii.hexValue? first = some high)
      (trailing : Ascii.hexValue? second = some low) (rest : List UInt8) :
      EscapedByte inSet ('x'.toUInt8 :: first :: second :: rest) (high * 16 + low) rest
  | control {letter : UInt8} (known : Ascii.isLetter letter = true) (rest : List UInt8) :
      EscapedByte inSet ('c'.toUInt8 :: letter :: rest) (letter &&& 0x1f) rest
  | itself {byte : UInt8} (other : Ascii.isAlphanumeric byte = false) (rest : List UInt8) :
      EscapedByte inSet (byte :: rest) byte rest

/-- The lowercase letter of a class. Its capital stands for the bytes outside the class. -/
def classLetter : ByteClass → UInt8
  | .digit => 'd'.toUInt8
  | .space => 's'.toUInt8
  | .word => 'w'.toUInt8
  | .hex => 'h'.toUInt8
  | .letter => 'l'.toUInt8
  | .punctuation => 'p'.toUInt8

/-- The assertions that are written as escapes. -/
def assertionEscapes : List (UInt8 × Assertion) :=
  [('b'.toUInt8, .wordBoundary), ('B'.toUInt8, .notWordBoundary), ('<'.toUInt8, .wordBegin),
    ('>'.toUInt8, .wordEnd), ('A'.toUInt8, .textBegin), ('Z'.toUInt8, .textEnd)]

/-! ## Sets -/

/-- One byte of a set, alone or at either end of a range. -/
inductive Member : List UInt8 → UInt8 → List UInt8 → Prop where
  | plain {byte : UInt8} (unescaped : byte ≠ '\\'.toUInt8) (rest : List UInt8) :
      Member (byte :: rest) byte rest
  | escaped {input rest : List UInt8} {byte : UInt8} (escape : EscapedByte true input byte rest) :
      Member ('\\'.toUInt8 :: input) byte rest

/-- An item of a set. A hyphen makes a range unless it is the last byte of the set. -/
inductive Item : List UInt8 → BracketItem → List UInt8 → Prop where
  | byte {input rest : List UInt8} {byte : UInt8} (member : Member input byte rest)
      (alone : ∀ next after, rest = '-'.toUInt8 :: next :: after → next = ']'.toUInt8) :
      Item input (.byte byte) rest
  | range {input next rest : List UInt8} {low high : UInt8}
      (lower : Member input low ('-'.toUInt8 :: next)) (upper : Member next high rest)
      (goes : next.head? ≠ some ']'.toUInt8) (ordered : low ≤ high) :
      Item input (.range low high) rest
  | inClass (kind : ByteClass) (rest : List UInt8) :
      Item ('\\'.toUInt8 :: classLetter kind :: rest) (.inClass kind) rest
  | notInClass (kind : ByteClass) (rest : List UInt8) :
      Item ('\\'.toUInt8 :: Ascii.toUpper (classLetter kind) :: rest) (.notInClass kind) rest

/-- The items up to the closing bracket, which is an item itself where it comes first. -/
inductive Items : (first : Bool) → List UInt8 → List BracketItem → List UInt8 → Prop where
  | done (rest : List UInt8) : Items false (']'.toUInt8 :: rest) [] rest
  | more {first : Bool} {input next rest : List UInt8} {item : BracketItem}
      {items : List BracketItem} (opens : first = true ∨ input.head? ≠ some ']'.toUInt8)
      (one : Item input item next) (later : Items false next items rest) :
      Items first input (item :: items) rest

/-- A set behind its opening bracket. -/
inductive SetBody : List UInt8 → Bracket → List UInt8 → Prop where
  | plain {input rest : List UInt8} {items : List BracketItem}
      (caret : input.head? ≠ some '^'.toUInt8) (mark : input.head? ≠ some '!'.toUInt8)
      (listed : Items true input items rest) : SetBody input ⟨false, items⟩ rest
  | negated {sign : UInt8} {input rest : List UInt8} {items : List BracketItem}
      (negates : sign = '^'.toUInt8 ∨ sign = '!'.toUInt8) (listed : Items true input items rest) :
      SetBody (sign :: input) ⟨true, items⟩ rest

/-! ## Groups -/

def IsFlagLetter (byte : UInt8) : Prop := byte = 'i'.toUInt8 ∨ byte = 'n'.toUInt8

def flagsOf (letters : List UInt8) : Flags :=
  { Flags.none with
    caseless := letters.contains 'i'.toUInt8
    newline := letters.contains 'n'.toUInt8 }

/-- What stands behind an opening parenthesis. -/
inductive Header : List UInt8 → Opening → List UInt8 → Prop where
  | plain {input : List UInt8} (bare : input.head? ≠ some '?'.toUInt8) : Header input .plain input
  | enclosing (rest : List UInt8) : Header ('?'.toUInt8 :: ':'.toUInt8 :: rest) .enclosing rest
  | atomic (rest : List UInt8) : Header ('?'.toUInt8 :: '>'.toUInt8 :: rest) .atomic rest
  | ahead (rest : List UInt8) : Header ('?'.toUInt8 :: '='.toUInt8 :: rest) (.look .ahead) rest
  | notAhead (rest : List UInt8) :
      Header ('?'.toUInt8 :: '!'.toUInt8 :: rest) (.look .notAhead) rest
  | behind (rest : List UInt8) :
      Header ('?'.toUInt8 :: '<'.toUInt8 :: '='.toUInt8 :: rest) (.look .behind) rest
  | notBehind (rest : List UInt8) :
      Header ('?'.toUInt8 :: '<'.toUInt8 :: '!'.toUInt8 :: rest) (.look .notBehind) rest
  | inline {letters behind rest : List UInt8} (enable : Bool) (filled : letters ≠ [])
      (flags : ∀ letter ∈ letters, IsFlagLetter letter)
      (all : ∀ next ∈ behind.head?, ¬IsFlagLetter next)
      (colon : behind = ':'.toUInt8 :: rest ∨ behind = rest ∧ rest.head? ≠ some ':'.toUInt8) :
      Header ('?'.toUInt8 :: ((if enable then [] else ['-'.toUInt8]) ++ letters ++ behind))
        (.inline enable (flagsOf letters)) rest

/-! ## Quantifiers -/

/-- A number that can bound a repeat. -/
structure Bound (digits : List UInt8) (number : Nat) : Prop where
  filled : digits ≠ []
  decimal : ∀ digit ∈ digits, Ascii.isDigit digit = true
  same : numeral 10 digits = number
  small : number ≤ 32767

/-- The text between the braces of a quantifier. -/
inductive Bounds : List UInt8 → Nat → Option Nat → Prop where
  | exactly {digits : List UInt8} {number : Nat} (bound : Bound digits number)
      (positive : 1 ≤ number) : Bounds digits number (some number)
  | atLeast {digits : List UInt8} {least : Nat} (bound : Bound digits least) :
      Bounds (digits ++ [','.toUInt8]) least none
  | between {low high : List UInt8} {least most : Nat} (lower : Bound low least)
      (upper : Bound high most) (positive : 1 ≤ most) (ordered : least ≤ most) :
      Bounds (low ++ ','.toUInt8 :: high) least (some most)
  | atMost {high : List UInt8} {most : Nat} (upper : Bound high most) (positive : 1 ≤ most) :
      Bounds (','.toUInt8 :: high) 0 (some most)

/-- How often a quantifier repeats. -/
inductive Repeats : List UInt8 → Nat → Option Nat → List UInt8 → Prop where
  | star (rest : List UInt8) : Repeats ('*'.toUInt8 :: rest) 0 none rest
  | plus (rest : List UInt8) : Repeats ('+'.toUInt8 :: rest) 1 none rest
  | mark (rest : List UInt8) : Repeats ('?'.toUInt8 :: rest) 0 (some 1) rest
  | braces {text : List UInt8} {least : Nat} {most : Option Nat} (bounds : Bounds text least most)
      (rest : List UInt8) : Repeats (0x7b :: (text ++ 0x7d :: rest)) least most rest

/-- The mark behind a quantifier that chooses the order of its repeats. -/
inductive Suffix : List UInt8 → Greed → List UInt8 → Prop where
  | lazy (rest : List UInt8) : Suffix ('?'.toUInt8 :: rest) .lazy rest
  | possessive (rest : List UInt8) : Suffix ('+'.toUInt8 :: rest) .possessive rest
  | greedy {rest : List UInt8} (mark : rest.head? ≠ some '?'.toUInt8)
      (plus : rest.head? ≠ some '+'.toUInt8) : Suffix rest .greedy rest

/-! ## Tokens -/

inductive Lexeme : List UInt8 → Token → List UInt8 → Prop where
  | literal {byte : UInt8} (plain : byte ∉ metas) (rest : List UInt8) :
      Lexeme (byte :: rest) (.literal byte) rest
  | escaped {letter byte : UInt8} {input rest : List UInt8}
      (escape : EscapedByte false (letter :: input) byte rest)
      (begins : letter ≠ '<'.toUInt8) (ends : letter ≠ '>'.toUInt8) :
      Lexeme ('\\'.toUInt8 :: letter :: input) (.literal byte) rest
  | dot (rest : List UInt8) : Lexeme ('.'.toUInt8 :: rest) .dot rest
  | caret (rest : List UInt8) : Lexeme ('^'.toUInt8 :: rest) .caret rest
  | dollar (rest : List UInt8) : Lexeme ('$'.toUInt8 :: rest) .dollar rest
  | set {input rest : List UInt8} {bracket : Bracket} (body : SetBody input bracket rest) :
      Lexeme ('['.toUInt8 :: input) (.bracket bracket) rest
  | inClass (kind : ByteClass) (rest : List UInt8) :
      Lexeme ('\\'.toUInt8 :: classLetter kind :: rest) (.inClass kind) rest
  | notInClass (kind : ByteClass) (rest : List UInt8) :
      Lexeme ('\\'.toUInt8 :: Ascii.toUpper (classLetter kind) :: rest) (.notInClass kind) rest
  | assertion {letter : UInt8} {condition : Assertion}
      (known : (letter, condition) ∈ assertionEscapes) (rest : List UInt8) :
      Lexeme ('\\'.toUInt8 :: letter :: rest) (.assertion condition) rest
  | backReference {digit : UInt8} (lower : '1'.toUInt8 ≤ digit) (upper : digit ≤ '9'.toUInt8)
      (rest : List UInt8) :
      Lexeme ('\\'.toUInt8 :: digit :: rest) (.backReference (digit.toNat - 48)) rest
  | opening {input rest : List UInt8} {opening : Opening} (header : Header input opening rest) :
      Lexeme ('('.toUInt8 :: input) (.opening (.ok opening)) rest
  | closing (rest : List UInt8) : Lexeme (')'.toUInt8 :: rest) .closing rest
  | bar (rest : List UInt8) : Lexeme ('|'.toUInt8 :: rest) .bar rest
  | quantifier {input behind rest : List UInt8} {least : Nat} {most : Option Nat} {greed : Greed}
      (repeats : Repeats input least most behind) (suffix : Suffix behind greed rest) :
      Lexeme input (.quantifier (.ok ⟨least, most, greed⟩)) rest

/-- A pattern as its tokens, one after another. -/
inductive Lexemes : List UInt8 → List Token → Prop where
  | nil : Lexemes [] []
  | cons {input rest : List UInt8} {token : Token} {later : List Token}
      (lexeme : Lexeme input token rest) (following : Lexemes rest later) :
      Lexemes input (token :: later)

end ByteRegex.Grammar
