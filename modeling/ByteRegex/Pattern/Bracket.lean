import ByteRegex.ByteClass
import ByteRegex.ByteSet
import ByteRegex.Flags
import ByteRegex.Pattern.Escape

/-!
Bracketed sets: reading their items, and the set of bytes that they denote.
-/

namespace ByteRegex

inductive BracketItem where
  | byte (byte : UInt8)
  | range (low high : UInt8)
  | inClass (kind : ByteClass)
  | notInClass (kind : ByteClass)
deriving DecidableEq, Repr

structure Bracket where
  negated : Bool
  items : List BracketItem
deriving DecidableEq, Repr

namespace BracketItem

def contains : BracketItem → UInt8 → Bool
  | byte member, found => found = member
  | range low high, found => low ≤ found && found ≤ high
  | inClass kind, found => kind.contains found
  | notInClass kind, found => !kind.contains found

end BracketItem

namespace Bracket

/-- Whether some item holds the byte, or its other case where case is disregarded. -/
def covers (bracket : Bracket) (caseless : Bool) (byte : UInt8) : Bool :=
  let held (member : UInt8) : Bool := bracket.items.any (·.contains member)
  held byte ||
    (caseless && Ascii.isLetter byte && (held (Ascii.toLower byte) || held (Ascii.toUpper byte)))

/-- A negated set excludes the newline where lines matter. -/
def denotes (bracket : Bracket) (flags : Flags) (byte : UInt8) : Bool :=
  if bracket.negated then
    !bracket.covers flags.caseless byte && !(flags.newline && byte = Ascii.newline)
  else bracket.covers flags.caseless byte

def toByteSet (bracket : Bracket) (flags : Flags) : ByteSet :=
  ByteSet.ofPredicate (bracket.denotes flags)

/-- A class escape, whose capital letter stands for the bytes outside the class. -/
def classItem? (letter : UInt8) : Option BracketItem :=
  (ByteClass.ofEscapeLetter? (Ascii.toLower letter)).map fun kind =>
    if Ascii.isUpper letter then .notInClass kind else .inClass kind

/-- An escape in a set, read after its backslash. -/
def readEscape : List UInt8 → Except CompileError (BracketItem × List UInt8)
  | [] => .error .unmatchedBracket
  | letter :: rest =>
      match classItem? letter with
      | some item => .ok (item, rest)
      | none => (Escape.readByte true letter rest).map fun (byte, rest) => (.byte byte, rest)

/-- The upper end of a range. -/
def readHigh : List UInt8 → Except CompileError (UInt8 × List UInt8)
  | [] => .error .unmatchedBracket
  | byte :: rest =>
      if byte = '\\'.toUInt8 then
        match readEscape rest with
        | .ok (.byte high, rest) => .ok (high, rest)
        | .ok _ => .error .illegalToken
        | .error error => .error error
      else .ok (byte, rest)

/-- A range if a hyphen follows that is not the last byte of the set, otherwise the byte alone. -/
def readRange (low : UInt8) (rest : List UInt8) : Except CompileError (BracketItem × List UInt8) :=
  match rest with
  | hyphen :: next :: after =>
      if hyphen = '-'.toUInt8 && next ≠ ']'.toUInt8 then
        match readHigh (next :: after) with
        | .error error => .error error
        | .ok (high, rest) =>
            if high < low then .error .illegalToken else .ok (.range low high, rest)
      else .ok (.byte low, rest)
  | _ => .ok (.byte low, rest)

/-- An item that starts with a byte. A class never starts a range. -/
def readItem (byte : UInt8) (rest : List UInt8) :
    Except CompileError (BracketItem × List UInt8) :=
  if byte = '\\'.toUInt8 then
    match readEscape rest with
    | .ok (.byte low, rest) => readRange low rest
    | other => other
  else readRange byte rest

theorem readEscape_length {item : BracketItem} {rest after : List UInt8}
    (read : readEscape rest = .ok (item, after)) : after.length ≤ rest.length := by
  cases rest with
  | nil => simp [readEscape] at read
  | cons letter rest =>
      simp only [readEscape] at read
      split at read
      · cases read
        exact Nat.le_succ _
      · cases escaped : Escape.readByte true letter rest with
        | error error => simp [escaped, Except.map] at read
        | ok result =>
            obtain ⟨byte, remaining⟩ := result
            simp only [escaped, Except.map, Except.ok.injEq, Prod.mk.injEq] at read
            have shorter := Escape.readByte_length escaped
            rw [← read.2]
            exact Nat.le_succ_of_le shorter

theorem readHigh_length {high : UInt8} {rest after : List UInt8}
    (read : readHigh rest = .ok (high, after)) : after.length ≤ rest.length := by
  cases rest with
  | nil => simp [readHigh] at read
  | cons byte rest =>
      simp only [readHigh] at read
      split at read
      · split at read
        · rename_i escaped
          cases read
          exact Nat.le_succ_of_le (readEscape_length escaped)
        · contradiction
        · contradiction
      · cases read
        exact Nat.le_succ _

theorem readRange_length {low : UInt8} {item : BracketItem} {rest after : List UInt8}
    (read : readRange low rest = .ok (item, after)) : after.length ≤ rest.length := by
  unfold readRange at read
  split at read
  · split at read
    · split at read
      · contradiction
      · rename_i high
        have shorter := readHigh_length high
        split at read
        · contradiction
        · cases read
          exact Nat.le_succ_of_le shorter
    · cases read
      exact Nat.le_refl _
  · cases read
    exact Nat.le_refl _

theorem readItem_length {byte : UInt8} {item : BracketItem} {rest after : List UInt8}
    (read : readItem byte rest = .ok (item, after)) : after.length ≤ rest.length := by
  unfold readItem at read
  split at read
  · split at read
    · rename_i escaped
      exact Nat.le_trans (readRange_length read) (readEscape_length escaped)
    · exact readEscape_length read
  · exact readRange_length read

/-- Reads items up to the closing bracket, which is an item itself where it comes first. Those read
already are given latest first. -/
def readItems (first : Bool) (met : List BracketItem) (rest : List UInt8) :
    Except CompileError (List BracketItem × List UInt8) :=
  match rest with
  | [] => .error .unmatchedBracket
  | byte :: rest =>
      if byte = ']'.toUInt8 && !first then .ok (met.reverse, rest)
      else
        match _found : readItem byte rest with
        | .error error => .error error
        | .ok (item, after) => readItems false (item :: met) after
termination_by rest.length
decreasing_by
  have := readItem_length _found
  simp only [List.length_cons]
  omega

/-- A set, read after its opening bracket. -/
def read (rest : List UInt8) : Except CompileError (Bracket × List UInt8) :=
  match rest with
  | [] => .error .unmatchedBracket
  | byte :: after =>
      if byte = '^'.toUInt8 || byte = '!'.toUInt8 then
        (readItems true [] after).map fun (items, rest) => (⟨true, items⟩, rest)
      else (readItems true [] rest).map fun (items, rest) => (⟨false, items⟩, rest)

theorem readItems_length {first : Bool} {met items : List BracketItem} {rest after : List UInt8}
    (read : readItems first met rest = .ok (items, after)) : after.length ≤ rest.length := by
  fun_induction readItems first met rest with
  | case1 => contradiction
  | case2 =>
      cases read
      exact Nat.le_succ _
  | case3 => contradiction
  | case4 first met byte rest closing item remaining found ih =>
      have shorter := readItem_length found
      have later := ih read
      simp only [List.length_cons]
      omega

theorem read_length {bracket : Bracket} {rest after : List UInt8}
    (found : read rest = .ok (bracket, after)) : after.length ≤ rest.length := by
  unfold read at found
  split at found
  · contradiction
  · split at found
    · rename_i byte remaining _
      cases items : readItems true [] remaining with
      | error error => simp [items, Except.map] at found
      | ok result =>
          simp only [items, Except.map, Except.ok.injEq, Prod.mk.injEq] at found
          have shorter := readItems_length items
          rw [← found.2]
          exact Nat.le_succ_of_le shorter
    · rename_i byte remaining _
      cases items : readItems true [] (byte :: remaining) with
      | error error => simp [items, Except.map] at found
      | ok result =>
          simp only [items, Except.map, Except.ok.injEq, Prod.mk.injEq] at found
          have shorter := readItems_length items
          rw [← found.2]
          exact shorter

end Bracket

end ByteRegex
