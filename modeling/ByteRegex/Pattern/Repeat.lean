import ByteRegex.Ascii
import ByteRegex.Capacity
import ByteRegex.CompileError
import ByteRegex.Quantifier

/-!
Reading quantifiers: a star, a plus, a question mark or bounds in braces, then the greed.
-/

namespace ByteRegex.Quantifier

/-- A decimal number of at least one digit and at most the largest bound. -/
def readBound (digits : List UInt8) : Except CompileError Nat :=
  if digits.isEmpty || !digits.all Ascii.isDigit then .error .badRepeatRange
  else
    digits.foldlM
      (fun number digit =>
        let longer := 10 * number + (digit.toNat - 48)
        if longer ≤ Capacity.bound then .ok longer else .error .badRepeatRange)
      0

/-- A maximum is at least one and at least the minimum. -/
def checkBounds (least : Nat) (most : Option Nat) : Except CompileError (Nat × Option Nat) :=
  match most with
  | none => .ok (least, none)
  | some most =>
      if most = 0 || most < least then .error .badRepeatRange else .ok (least, some most)

/-- The text between braces: one number for both bounds, or two with a comma between them, of which
one may be missing. -/
def readBounds (text : List UInt8) : Except CompileError (Nat × Option Nat) :=
  let low := text.takeWhile (· ≠ ','.toUInt8)
  match text.dropWhile (· ≠ ','.toUInt8) with
  | [] => do
      let number ← readBound low
      checkBounds number (some number)
  | _ :: high =>
      if low.isEmpty && high.isEmpty then .error .badRepeatRange
      else do
        let least ← if low.isEmpty then .ok 0 else readBound low
        let most ← if high.isEmpty then .ok none else (readBound high).map some
        checkBounds least most

def startsWith (byte : UInt8) : Bool :=
  byte = '*'.toUInt8 || byte = '+'.toUInt8 || byte = '?'.toUInt8 || byte = 0x7b

def readGreed (rest : List UInt8) : Greed × List UInt8 :=
  match rest with
  | [] => (.greedy, [])
  | byte :: after =>
      if byte = '?'.toUInt8 then (.lazy, after)
      else if byte = '+'.toUInt8 then (.possessive, after)
      else (.greedy, rest)

def withGreed (bounds : Except CompileError (Nat × Option Nat)) (rest : List UInt8) :
    Except CompileError Quantifier × List UInt8 :=
  let (greed, rest) := readGreed rest
  (bounds.map fun (least, most) => ⟨least, most, greed⟩, rest)

/-- A quantifier that starts with a byte, and the pattern after it. -/
def read (byte : UInt8) (rest : List UInt8) : Except CompileError Quantifier × List UInt8 :=
  if byte = '*'.toUInt8 then withGreed (.ok (0, none)) rest
  else if byte = '+'.toUInt8 then withGreed (.ok (1, none)) rest
  else if byte = '?'.toUInt8 then withGreed (.ok (0, some 1)) rest
  else
    match rest.dropWhile (· ≠ 0x7d) with
    | [] => (.error .unmatchedBrace, [])
    | _ :: after => withGreed (readBounds (rest.takeWhile (· ≠ 0x7d))) after

theorem withGreed_length (bounds : Except CompileError (Nat × Option Nat)) (rest : List UInt8) :
    (withGreed bounds rest).2.length ≤ rest.length := by
  simp only [withGreed, readGreed]
  split
  · exact Nat.le_refl _
  · split
    · exact Nat.le_succ _
    · split
      · exact Nat.le_succ _
      · exact Nat.le_refl _

theorem read_length (byte : UInt8) (rest : List UInt8) :
    (read byte rest).2.length ≤ rest.length := by
  unfold read
  split
  · exact withGreed_length _ _
  · split
    · exact withGreed_length _ _
    · split
      · exact withGreed_length _ _
      · split
        · exact Nat.zero_le _
        · rename_i closing after found
          have shorter := withGreed_length
            (readBounds (rest.takeWhile (· ≠ 0x7d))) after
          have kept := (List.dropWhile_sublist (· ≠ 0x7d) (l := rest)).length_le
          rw [found] at kept
          exact Nat.le_trans shorter (Nat.le_of_succ_le kept)

end ByteRegex.Quantifier
