import ByteRegex.Expr

/-!
# Widths

Widths in words of 64 bits add up in any order, because a sum that has left the words never returns
to them. So the width of an expression does not depend on what stands in front of it.
-/

namespace ByteRegex

namespace Width

/-- A width that words can hold. -/
def Proper (width : Width) : Prop :=
  width.least ≤ largest ∧ ∀ most ∈ width.most, most ≤ largest

theorem capped_le_largest (number : Nat) : capped number ≤ largest := Nat.min_le_right _ _

theorem capped_of_le {number : Nat} (small : number ≤ largest) : capped number = number :=
  Nat.min_eq_left small

theorem bounded_of_le {number : Nat} (small : number ≤ largest) : bounded number = some number :=
  if_pos small

theorem le_of_mem_bounded {number most : Nat} (bound : most ∈ bounded number) : most ≤ largest := by
  unfold bounded at bound
  split at bound
  · rename_i small
    cases bound
    exact small
  · cases bound

theorem proper_exactly {number : Nat} (small : number ≤ largest) : (exactly number).Proper :=
  ⟨small, fun _ same => by cases same; exact small⟩

theorem followedBy_proper (first second : Width) : (first.followedBy second).Proper := by
  refine ⟨capped_le_largest _, fun most bound => ?_⟩
  simp only [followedBy] at bound
  split at bound
  · exact le_of_mem_bounded bound
  · cases bound

theorem either_proper {first second : Width} (left : first.Proper) (right : second.Proper) :
    (first.either second).Proper := by
  refine ⟨Nat.le_trans (Nat.min_le_left _ _) left.1, fun most bound => ?_⟩
  simp only [either] at bound
  split at bound
  · rename_i one other first second
    cases bound
    exact Nat.max_le.mpr ⟨left.2 one first, right.2 other second⟩
  · cases bound

theorem repeated_proper (width : Width) (least : Nat) (most : Option Nat) :
    (width.repeated least most).Proper := by
  refine ⟨capped_le_largest _, fun bound found => ?_⟩
  simp only [repeated] at found
  split at found
  · cases found
    exact Nat.zero_le _
  · exact le_of_mem_bounded found
  · cases found

theorem capped_capped_add (first second : Nat) :
    capped (capped first + second) = capped (first + second) := by
  unfold capped
  omega

theorem capped_add_capped (first second : Nat) :
    capped (first + capped second) = capped (first + second) := by
  unfold capped
  omega

theorem followedBy_assoc (first second third : Width) :
    (first.followedBy second).followedBy third = first.followedBy (second.followedBy third) := by
  have least : capped (capped (first.least + second.least) + third.least) =
      capped (first.least + capped (second.least + third.least)) := by
    rw [capped_capped_add, capped_add_capped, Nat.add_assoc]
  simp only [followedBy, least, mk.injEq, true_and]
  rcases first.most with _ | left
  · rfl
  rcases second.most with _ | middle
  · rfl
  simp only [bounded]
  rcases third.most with _ | right
  · by_cases former : left + middle ≤ largest <;> simp only [former, if_true, if_false]
  -- A partial sum that fits is no larger than the whole one.
  by_cases fits : left + (middle + right) ≤ largest
  · have former : left + middle ≤ largest := by omega
    have latter : middle + right ≤ largest := by omega
    simp only [former, latter, if_true, Nat.add_assoc]
  · by_cases former : left + middle ≤ largest <;>
      by_cases latter : middle + right ≤ largest <;>
      simp only [former, latter, fits, Nat.add_assoc, if_true, if_false]

theorem either_assoc (first second third : Width) :
    (first.either second).either third = first.either (second.either third) := by
  simp only [either, mk.injEq, Nat.min_assoc, true_and]
  cases first.most <;> cases second.most <;> cases third.most <;> simp only [Nat.max_assoc]

theorem Proper.followedBy_empty {width : Width} (proper : width.Proper) :
    width.followedBy (exactly 0) = width := by
  obtain ⟨least, most⟩ := width
  have low : capped least = least := capped_of_le proper.1
  cases most with
  | none => simp only [followedBy, exactly, Nat.add_zero, low]
  | some most =>
      have high : bounded most = some most := bounded_of_le (proper.2 most rfl)
      simp only [followedBy, exactly, Nat.add_zero, low, high]

theorem Proper.empty_followedBy {width : Width} (proper : width.Proper) :
    (exactly 0).followedBy width = width := by
  obtain ⟨least, most⟩ := width
  have low : capped least = least := capped_of_le proper.1
  cases most with
  | none => simp only [followedBy, exactly, Nat.zero_add, low]
  | some most =>
      have high : bounded most = some most := bounded_of_le (proper.2 most rfl)
      simp only [followedBy, exactly, Nat.zero_add, low, high]

theorem Proper.repeated_once {width : Width} (proper : width.Proper) :
    width.repeated 1 (some 1) = width := by
  obtain ⟨least, most⟩ := width
  have low : capped least = least := capped_of_le proper.1
  cases most with
  | none => simp only [repeated, Nat.mul_one, low]
  | some most =>
      have high : bounded most = some most := bounded_of_le (proper.2 most rfl)
      cases most with
      | zero => simp only [repeated, Nat.mul_one, low]
      | succ most => simp only [repeated, Nat.mul_one, low, high]

/-- One byte more, also where the bytes no longer fit into a word. -/
theorem followedBy_exactly_succ (width : Width) (number : Nat) :
    (width.followedBy (exactly number)).followedBy (exactly 1) =
      width.followedBy (exactly (number + 1)) := by
  obtain ⟨least, most⟩ := width
  have low : capped (capped (least + number) + 1) = capped (least + (number + 1)) :=
    capped_capped_add _ _
  cases most with
  | none => simp only [followedBy, exactly, low]
  | some most =>
      simp only [followedBy, exactly, low, bounded]
      by_cases fits : most + number ≤ largest
      · simp only [fits, if_true, Nat.add_assoc]
      · have beyond : ¬most + (number + 1) ≤ largest := by omega
        simp only [fits, beyond, if_false]

/-- The width of a last alternative together with those before it, if there are any. -/
def joined (earlier : Option Width) (last : Width) : Width :=
  match earlier with
  | none => last
  | some width => width.either last

end Width

namespace Expr

open Width (Proper)

theorem widthAfter_eq (expr : Expr) {before : Width} (proper : before.Proper) :
    expr.widthAfter before = before.followedBy expr.width := by
  induction expr generalizing before with
  | empty => exact proper.followedBy_empty.symm
  | test | literal | backReference | alternative | repetition | loop =>
      rw [width, widthAfter, widthAfter, ← Width.followedBy_assoc, proper.followedBy_empty]
  | assertion | look => exact proper.followedBy_empty.symm
  | sequence first second former latter =>
      have empty : Proper (.exactly 0) := Width.proper_exactly (Nat.zero_le _)
      rw [width, widthAfter, widthAfter, former proper, former empty,
        latter (Width.followedBy_proper _ _), latter (Width.followedBy_proper _ _),
        ← Width.followedBy_assoc, ← Width.followedBy_assoc, proper.followedBy_empty]
  | capture group body ih => exact ih proper
  | atomic body ih => exact ih proper

theorem width_proper (expr : Expr) : expr.width.Proper := by
  induction expr with
  | empty => exact Width.proper_exactly (Nat.zero_le _)
  | test | literal | backReference | alternative | repetition | loop =>
      exact Width.followedBy_proper _ _
  | assertion | look => exact Width.proper_exactly (Nat.zero_le _)
  | sequence first second former latter =>
      have empty : Proper (.exactly 0) := Width.proper_exactly (Nat.zero_le _)
      rw [width, widthAfter, ← width, second.widthAfter_eq former]
      exact Width.followedBy_proper _ _
  | capture group body ih => exact ih
  | atomic body ih => exact ih

theorem width_sequence (first second : Expr) :
    (sequence first second).width = first.width.followedBy second.width :=
  second.widthAfter_eq first.width_proper

theorem width_alternative (first second : Expr) :
    (alternative first second).width = first.width.either second.width :=
  (Width.either_proper first.width_proper second.width_proper).empty_followedBy

theorem width_loop (quantifier : Quantifier) (nullable : Bool) (counter : Nat) (body : Expr) :
    (loop quantifier nullable counter body).width =
      body.width.repeated quantifier.least quantifier.most :=
  (Width.repeated_proper _ _ _).empty_followedBy

theorem width_repetition (quantifier : Quantifier) (test : ByteTest) :
    (repetition quantifier test).width =
      (Width.exactly 1).repeated quantifier.least quantifier.most :=
  (Width.repeated_proper _ _ _).empty_followedBy

theorem width_empty : empty.width = .exactly 0 := rfl

theorem width_atomic (body : Expr) : (atomic body).width = body.width := rfl

theorem width_test (single : ByteTest) : (test single).width = .exactly 1 := rfl

theorem width_foldl_sequence (pieces : List Expr) (later : Expr) :
    (pieces.foldl (fun later piece => sequence piece later) later).width =
      (sequenceOfReversed pieces).width.followedBy later.width := by
  induction pieces generalizing later with
  | nil => exact later.width_proper.empty_followedBy.symm
  | cons piece rest ih =>
      have whole : (sequenceOfReversed (piece :: rest)).width =
          (sequenceOfReversed rest).width.followedBy (sequence piece empty).width := ih _
      rw [List.foldl_cons, ih, whole, width_sequence, width_sequence, width_empty,
        piece.width_proper.followedBy_empty, Width.followedBy_assoc]

theorem width_sequenceOfReversed_cons (piece : Expr) (pieces : List Expr) :
    (sequenceOfReversed (piece :: pieces)).width =
      (sequenceOfReversed pieces).width.followedBy piece.width := by
  rw [sequenceOfReversed, List.foldl_cons, width_foldl_sequence, width_sequence, width_empty,
    piece.width_proper.followedBy_empty]

/-- The width of alternatives, which are given latest first. -/
def alternativesWidth : List Expr → Option Width
  | [] => none
  | branch :: earlier => some (Width.joined (alternativesWidth earlier) branch.width)

theorem width_alternationOfReversed (branches : List Expr) (last : Expr) :
    (alternationOfReversed branches last).width =
      Width.joined (alternativesWidth branches) last.width := by
  unfold alternationOfReversed
  induction branches generalizing last with
  | nil => rfl
  | cons branch earlier ih =>
      rw [List.foldl_cons, ih, width_alternative, alternativesWidth]
      cases alternativesWidth earlier with
      | none => rfl
      | some width => exact (Width.either_assoc _ _ _).symm

end Expr

end ByteRegex
