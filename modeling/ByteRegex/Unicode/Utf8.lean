/-!
Reading one UTF-8 sequence out of bytes that need not be UTF-8 throughout.
-/

namespace ByteRegex.Unicode.Utf8

def isContinuation (byte : UInt8) : Bool := 0x80 ≤ byte && byte ≤ 0xbf

/-- The length of the sequence that a lead byte announces. Continuation bytes and the bytes that no
well-formed sequence starts with announce none. -/
def sequenceLength? (lead : UInt8) : Option Nat :=
  if lead < 0x80 then some 1
  else if 0xc2 ≤ lead && lead ≤ 0xdf then some 2
  else if 0xe0 ≤ lead && lead ≤ 0xef then some 3
  else if 0xf0 ≤ lead && lead ≤ 0xf4 then some 4
  else none

/-- The scalar value with this number, which is no surrogate and at least `least`. -/
def scalar? (least value : Nat) : Option Char :=
  if valid : least ≤ value ∧ value.isValidChar then some (Char.ofNatAux value valid.2) else none

/-- The character whose well-formed encoding is exactly these bytes. A sequence longer than its
character needs is not well-formed. -/
def decode? : List UInt8 → Option Char
  | [first] => if first < 0x80 then scalar? 0 first.toNat else none
  | [first, second] =>
      if 0xc0 ≤ first && first ≤ 0xdf && isContinuation second then
        scalar? 0x80 ((first.toNat - 0xc0) * 64 + (second.toNat - 0x80))
      else none
  | [first, second, third] =>
      if 0xe0 ≤ first && first ≤ 0xef && isContinuation second && isContinuation third then
        scalar? 0x800
          ((first.toNat - 0xe0) * 4096 + (second.toNat - 0x80) * 64 + (third.toNat - 0x80))
      else none
  | [first, second, third, fourth] =>
      if 0xf0 ≤ first && first ≤ 0xf7 && isContinuation second && isContinuation third
          && isContinuation fourth then
        scalar? 0x10000
          ((first.toNat - 0xf0) * 262144 + (second.toNat - 0x80) * 4096
            + (third.toNat - 0x80) * 64 + (fourth.toNat - 0x80))
      else none
  | _ => none

/-- Steps back over at most `limit` continuation bytes. -/
def leadBefore (bytes : Array UInt8) : Nat → Nat → Nat
  | limit + 1, position + 1 =>
      if isContinuation (bytes.getD (position + 1) 0) then leadBefore bytes limit position
      else position + 1
  | _, position => position

/-- The character whose encoding covers a position. Since no encoding is longer than four bytes, its
lead is at most three bytes back. -/
def charAround? (bytes : Array UInt8) (position : Nat) : Option Char :=
  let lead := leadBefore bytes 3 position
  match sequenceLength? (bytes.getD lead 0) with
  | none => none
  | some length =>
      if position < lead + length && lead + length ≤ bytes.size then
        decode? (bytes.extract lead (lead + length)).toList
      else none

end ByteRegex.Unicode.Utf8
