import ByteRegex.CompileError
import ByteRegex.Flags
import ByteRegex.Look

/-!
What stands between an opening parenthesis and the group's expression.
-/

namespace ByteRegex

inductive Opening where
  /-- A parenthesis alone: the group captures if the flags say so. -/
  | plain
  | enclosing
  | atomic
  | look (look : Look)
  /-- Sets or clears flags up to the end of the group. -/
  | inline (enable : Bool) (flags : Flags)
deriving DecidableEq, Repr

namespace Opening

/-- Reads flag letters as long as there are any and adds them to those read already. -/
def readLetters (met : Flags) : List UInt8 → Flags × List UInt8
  | [] => (met, [])
  | letter :: rest =>
      match Flags.ofInlineLetter? letter with
      | some flag => readLetters (met.union flag) rest
      | none => (met, letter :: rest)

/-- Skips one colon. -/
def skipColon : List UInt8 → List UInt8
  | [] => []
  | byte :: rest => if byte = ':'.toUInt8 then rest else byte :: rest

/-- At least one flag letter and a colon that may be missing. -/
def readFlags (enable : Bool) (rest : List UInt8) : Except CompileError Opening × List UInt8 :=
  let (flags, rest) := readLetters .none rest
  if flags = .none then (.error .illegalToken, rest)
  else (.ok (.inline enable flags), skipColon rest)

/-- The direction of a lookbehind. -/
def readBehind : List UInt8 → Except CompileError Opening × List UInt8
  | [] => (.error .illegalToken, [])
  | byte :: rest =>
      if byte = '='.toUInt8 then (.ok (.look .behind), rest)
      else if byte = '!'.toUInt8 then (.ok (.look .notBehind), rest)
      else (.error .illegalToken, rest)

/-- What follows a question mark. -/
def readSpecial : List UInt8 → Except CompileError Opening × List UInt8
  | [] => (.error .unmatchedParen, [])
  | byte :: rest =>
      if byte = ':'.toUInt8 then (.ok .enclosing, rest)
      else if byte = '>'.toUInt8 then (.ok .atomic, rest)
      else if byte = '='.toUInt8 then (.ok (.look .ahead), rest)
      else if byte = '!'.toUInt8 then (.ok (.look .notAhead), rest)
      else if byte = '<'.toUInt8 then readBehind rest
      else if byte = '-'.toUInt8 then readFlags false rest
      else readFlags true (byte :: rest)

/-- An opening, read after its parenthesis, and the pattern after it. -/
def read : List UInt8 → Except CompileError Opening × List UInt8
  | [] => (.ok .plain, [])
  | byte :: rest => if byte = '?'.toUInt8 then readSpecial rest else (.ok .plain, byte :: rest)

theorem readLetters_length (met : Flags) (rest : List UInt8) :
    (readLetters met rest).2.length ≤ rest.length := by
  induction rest generalizing met with
  | nil => exact Nat.le_refl _
  | cons letter rest ih =>
      simp only [readLetters]
      split
      · exact Nat.le_succ_of_le (ih _)
      · exact Nat.le_refl _

theorem skipColon_length (rest : List UInt8) : (skipColon rest).length ≤ rest.length := by
  cases rest with
  | nil => exact Nat.le_refl _
  | cons byte rest =>
      simp only [skipColon]
      split
      · exact Nat.le_succ _
      · exact Nat.le_refl _

theorem readFlags_length (enable : Bool) (rest : List UInt8) :
    (readFlags enable rest).2.length ≤ rest.length := by
  have letters := readLetters_length .none rest
  simp only [readFlags]
  split
  · exact letters
  · exact Nat.le_trans (skipColon_length _) letters

theorem readBehind_length (rest : List UInt8) : (readBehind rest).2.length ≤ rest.length := by
  cases rest with
  | nil => exact Nat.le_refl _
  | cons byte rest =>
      simp only [readBehind]
      split
      · exact Nat.le_succ _
      · split <;> exact Nat.le_succ _

theorem readSpecial_length (rest : List UInt8) : (readSpecial rest).2.length ≤ rest.length := by
  cases rest with
  | nil => exact Nat.le_refl _
  | cons byte rest =>
      simp only [readSpecial]
      repeat' split
      all_goals first
        | exact Nat.le_succ _
        | exact Nat.le_succ_of_le (readBehind_length rest)
        | exact Nat.le_succ_of_le (readFlags_length false rest)
        | exact readFlags_length true (byte :: rest)

theorem read_length (rest : List UInt8) : (read rest).2.length ≤ rest.length := by
  cases rest with
  | nil => exact Nat.le_refl _
  | cons byte rest =>
      simp only [read]
      split
      · exact Nat.le_succ_of_le (readSpecial_length rest)
      · exact Nat.le_refl _

end Opening

end ByteRegex
