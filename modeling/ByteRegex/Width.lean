/-!
How many bytes an expression can match. Widths are counted in words of 64 bits: a least width stops
at the largest word, and a greatest width that is larger counts as no bound.
-/

namespace ByteRegex

structure Width where
  least : Nat
  most : Option Nat
deriving DecidableEq, Repr

namespace Width

def largest : Nat := UInt64.size - 1

def capped (number : Nat) : Nat := min number largest

def bounded (number : Nat) : Option Nat := if number ≤ largest then some number else none

def exactly (number : Nat) : Width := ⟨number, some number⟩

def unknown : Width := ⟨0, none⟩

def followedBy (first second : Width) : Width where
  least := capped (first.least + second.least)
  most :=
    match first.most, second.most with
    | some left, some right => bounded (left + right)
    | _, _ => none

def either (first second : Width) : Width where
  least := min first.least second.least
  most :=
    match first.most, second.most with
    | some left, some right => some (max left right)
    | _, _ => none

/-- The width of a repeat. Repeating the empty text any number of times leaves it empty. -/
def repeated (width : Width) (least : Nat) (most : Option Nat) : Width where
  least := capped (width.least * least)
  most :=
    match width.most, most with
    | some 0, _ => some 0
    | some left, some right => bounded (left * right)
    | _, _ => none

/-- The one number of bytes that is possible, if there is one. -/
def fixed? (width : Width) : Option Nat := width.most.filter (· = width.least)

end Width

end ByteRegex
