import ByteRegex.Proofs.Assembly.Sinks
import ByteRegex.Proofs.Simulation.Single

/-!
# Mirrored expressions

Two expressions mirror each other on two subjects if they have the same shape and whatever looks at
the subject sees the same in both: a test or an assertion of one, put in the place of the other's,
holds at the same positions. Mirrored expressions have the same width and take up the same space.
-/

namespace ByteRegex

/-- A byte as it is compared with another one. -/
def Ascii.fold (caseless : Bool) (byte : UInt8) : UInt8 := if caseless then toLower byte else byte

/-- Subjects that hold the same bytes, up to case if that is disregarded. -/
def Folded (caseless : Bool) (left right : Array UInt8) : Prop :=
  ∀ index : Nat, left[index]?.map (Ascii.fold caseless) = right[index]?.map (Ascii.fold caseless)

variable {caseless : Bool} {left right : Array UInt8}

theorem Machine.equalBytes_eq_fold (caseless : Bool) (found expected : UInt8) :
    equalBytes caseless found expected =
      decide (Ascii.fold caseless found = Ascii.fold caseless expected) := by
  cases caseless <;> rfl

namespace Folded

theorem refl (caseless : Bool) (subject : Array UInt8) : Folded caseless subject subject :=
  fun _ => rfl

theorem size (folded : Folded caseless left right) : left.size = right.size := by
  have ends : ∀ index : Nat, left[index]? = none ↔ right[index]? = none := by
    intro index
    rw [← Option.map_eq_none_iff, folded index, Option.map_eq_none_iff]
  simp only [Array.getElem?_eq_none_iff] at ends
  exact Nat.le_antisymm ((ends _).mpr (Nat.le_refl _)) ((ends _).mp (Nat.le_refl _))

theorem get (folded : Folded caseless left right) {index : Nat} (inLeft : index < left.size)
    (inRight : index < right.size) :
    Ascii.fold caseless left[index] = Ascii.fold caseless right[index] := by
  have same := folded index
  rw [Array.getElem?_eq_getElem inLeft, Array.getElem?_eq_getElem inRight] at same
  exact Option.some.inj same

theorem any_equalBytes (folded : Folded caseless left right) (position : Nat) (byte : UInt8) :
    left[position]?.any (Machine.equalBytes caseless · byte) =
      right[position]?.any (Machine.equalBytes caseless · byte) := by
  have same := folded position
  simp only [Machine.equalBytes_eq_fold]
  cases first : left[position]? <;> cases second : right[position]? <;>
    rw [first, second] at same <;> simp_all

theorem spells (folded : Folded caseless left right) (position : Nat) (bytes : List UInt8) :
    spells left caseless position bytes = spells right caseless position bytes := by
  induction bytes generalizing position with
  | nil => rfl
  | cons byte rest ih => rw [ByteRegex.spells, ByteRegex.spells, folded.any_equalBytes, ih]

/-- Whether two parts of a subject agree can be told from either of two that hold the same bytes. -/
theorem agree (folded : Folded caseless left right) (count first second : Nat) :
    Machine.agree caseless left left count first second =
      Machine.agree caseless right right count first second := by
  have level := folded.size
  have inner : ∀ count first second (one : first + count ≤ left.size)
      (two : second + count ≤ left.size) (three : first + count ≤ right.size)
      (four : second + count ≤ right.size),
      Machine.agreeFrom caseless left left count first second one two =
        Machine.agreeFrom caseless right right count first second three four := by
    intro count
    induction count with
    | zero => exact fun _ _ _ _ _ _ => rfl
    | succ count ih =>
        intro first second one two three four
        rw [Machine.agreeFrom, Machine.agreeFrom, Machine.equalBytes_eq_fold,
          Machine.equalBytes_eq_fold, folded.get (by omega) (by omega),
          folded.get (by omega) (by omega), ih]
  unfold Machine.agree
  by_cases fits : first + count ≤ left.size ∧ second + count ≤ left.size
  · have fits' : first + count ≤ right.size ∧ second + count ≤ right.size := level ▸ fits
    rw [dif_pos fits, dif_pos fits']
    exact inner count first second _ _ _ _
  · have misfits : ¬ (first + count ≤ right.size ∧ second + count ≤ right.size) := level ▸ fits
    rw [dif_neg fits, dif_neg misfits]

end Folded

/-- Tests that take up the same space and hold at the same positions of two subjects. -/
structure ByteTest.Mirrors (left right : Array UInt8) (test other : ByteTest) : Prop where
  length : test.encode.length = other.encode.length
  holds : ∀ position, test.holdsAt left position = other.holdsAt right position

/-- Assertions that hold at the same positions of two subjects. -/
def Assertion.Mirrors (left right : Array UInt8) (condition other : Assertion) : Prop :=
  ∀ position, condition.holdsAt left position = other.holdsAt right position

theorem ByteTest.Mirrors.of_literal (folded : Folded caseless left right) (byte : UInt8) :
    (ByteTest.ofLiteral caseless byte).Mirrors left right (.ofLiteral caseless byte) where
  length := rfl
  holds position := by
    rw [Machine.holdsAt_ofLiteral, Machine.holdsAt_ofLiteral, folded.any_equalBytes]

namespace Expr

/-- Expressions of the same shape of which the parts see the same in two subjects. -/
inductive Mirrors (left right : Array UInt8) : Expr → Expr → Prop where
  | empty : Mirrors left right .empty .empty
  | test {test other : ByteTest} (mirrors : test.Mirrors left right other) :
      Mirrors left right (.test test) (.test other)
  | literal {caseless : Bool} (bytes : List UInt8) (folded : Folded caseless left right) :
      Mirrors left right (.literal caseless bytes) (.literal caseless bytes)
  | assertion {condition other : Assertion} (mirrors : condition.Mirrors left right other) :
      Mirrors left right (.assertion condition) (.assertion other)
  | backReference {caseless : Bool} (group : Nat) (folded : Folded caseless left right) :
      Mirrors left right (.backReference caseless group) (.backReference caseless group)
  | sequence {first second first' second' : Expr} (former : Mirrors left right first first')
      (latter : Mirrors left right second second') :
      Mirrors left right (.sequence first second) (.sequence first' second')
  | alternative {first second first' second' : Expr} (former : Mirrors left right first first')
      (latter : Mirrors left right second second') :
      Mirrors left right (.alternative first second) (.alternative first' second')
  | capture (group : Nat) {body body' : Expr} (inner : Mirrors left right body body') :
      Mirrors left right (.capture group body) (.capture group body')
  | repetition (quantifier : Quantifier) {test other : ByteTest}
      (mirrors : test.Mirrors left right other) :
      Mirrors left right (.repetition quantifier test) (.repetition quantifier other)
  | loop (quantifier : Quantifier) (nullable : Bool) (counter : Nat) {body body' : Expr}
      (inner : Mirrors left right body body') :
      Mirrors left right (.loop quantifier nullable counter body)
        (.loop quantifier nullable counter body')
  | atomic {body body' : Expr} (inner : Mirrors left right body body') :
      Mirrors left right (.atomic body) (.atomic body')
  | look (direction : Look) (width : Nat) {body body' : Expr}
      (inner : Mirrors left right body body') :
      Mirrors left right (.look direction width body) (.look direction width body')

namespace Mirrors

variable {expr other : Expr}

theorem widthAfter_eq (mirrors : expr.Mirrors left right other) (before : Width) :
    expr.widthAfter before = other.widthAfter before := by
  induction mirrors generalizing before with
  | empty | test | literal | assertion | backReference | repetition | look => rfl
  | sequence _ _ former latter => rw [widthAfter, widthAfter, former, latter]
  | alternative _ _ former latter => rw [widthAfter, widthAfter, former, latter]
  | capture _ _ ih => exact ih before
  | loop _ _ _ _ ih => rw [widthAfter, widthAfter, ih]
  | atomic _ ih => exact ih before

theorem nullable_eq (mirrors : expr.Mirrors left right other) : expr.nullable = other.nullable := by
  rw [nullable, nullable, width, width, mirrors.widthAfter_eq]

/-- Mirrored expressions take up the same space. -/
theorem emit_eq (mirrors : expr.Mirrors left right other) (measure : Measure) :
    expr.emit measure = other.emit measure := by
  induction mirrors generalizing measure with
  | empty | literal | backReference => rfl
  | test mirrors => rw [emit, emit, Measure.append_congr _ mirrors.length]
  | @assertion condition other =>
      have one : ∀ condition : Assertion, (condition.opcode.encode []).length = 1 := fun _ => rfl
      rw [emit, emit, Measure.append_congr _ ((one condition).trans (one other).symm)]
  | sequence _ _ former latter =>
      rw [emit_sequence, emit_sequence, former]
      exact congrArg (Except.bind _) (funext latter)
  | alternative _ _ former latter => simp only [emit_alternative, former, latter]
  | capture _ _ ih => rw [emit, emit, ih]
  | repetition _ mirrors => rw [emit, emit, Measure.append_congr _ mirrors.length]
  | loop _ _ _ _ ih => rw [emit, emit, ih]
  | atomic _ ih => rw [emit, emit, ih]
  | look _ _ _ ih => rw [emit, emit, ih]

theorem codeSize_eq (mirrors : expr.Mirrors left right other) : expr.codeSize = other.codeSize := by
  rw [codeSize, codeSize, mirrors.emit_eq]

end Mirrors

end Expr

end ByteRegex
