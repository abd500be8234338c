import ByteRegex.Proofs.Semantics.Extent
import ByteRegex.Proofs.Syntax.Congruence

/-!
# Equivalent expressions

Expressions with the same results at every place of every subject, in the same order. A repeat of
one byte is equivalent to a loop over its test, and a possessive repeat to an atomic greedy one. What
is equivalent stays so inside any other expression.
-/

namespace ByteRegex

/-- Expressions with the same width and the same results. -/
structure Expr.Equivalent (expr other : Expr) : Prop where
  widthAfter : ∀ before, expr.widthAfter before = other.widthAfter before
  results : ∀ subject, expr.results subject = other.results subject

/-- Greed matters to a repeat only in so far as it is lazy. -/
theorem Quantifier.iterate_congr {quantifier other : Quantifier}
    (least : quantifier.least = other.least) (most : quantifier.most = other.most)
    (lazy : quantifier.greed = .lazy ↔ other.greed = .lazy) (size : Nat)
    (body : Nat → Slots → List (Nat × Slots)) (count : Nat) (idle : Bool) (position : Nat)
    (slots : Slots) :
    quantifier.iterate size body count idle position slots =
      other.iterate size body count idle position slots := by
  have ends : ∀ count idle, quantifier.isDone count idle = other.isDone count idle :=
    fun count idle => by rw [isDone, isDone, least, most]
  induction count, idle, position using iterate_induction quantifier size generalizing slots with
  | finish count idle position finished =>
      rw [iterate_of_isDone _ _ finished, iterate_of_isDone _ _ (ends count idle ▸ finished)]
  | again count idle position unfinished ih =>
      rw [iterate_of_not_isDone _ _ unfinished,
        iterate_of_not_isDone _ _ (ends count idle ▸ unfinished)]
      simp only [ih, choices, least, lazy]

namespace Expr.Equivalent

theorem refl (expr : Expr) : expr.Equivalent expr := ⟨fun _ => rfl, fun _ => rfl⟩

theorem symm {expr other : Expr} (same : expr.Equivalent other) : other.Equivalent expr :=
  ⟨fun before => (same.widthAfter before).symm, fun subject => (same.results subject).symm⟩

theorem trans {expr middle other : Expr} (former : expr.Equivalent middle)
    (latter : middle.Equivalent other) : expr.Equivalent other :=
  ⟨fun before => (former.widthAfter before).trans (latter.widthAfter before),
    fun subject => (former.results subject).trans (latter.results subject)⟩

/-! ## Formers -/

variable {first second first' second' body body' : Expr}

theorem sequence (former : first.Equivalent first') (latter : second.Equivalent second') :
    (Expr.sequence first second).Equivalent (.sequence first' second') where
  widthAfter before := by
    simp only [Expr.widthAfter, former.widthAfter, latter.widthAfter]
  results subject := by
    funext position slots
    simp only [Expr.results, former.results, latter.results]

theorem alternative (former : first.Equivalent first') (latter : second.Equivalent second') :
    (Expr.alternative first second).Equivalent (.alternative first' second') where
  widthAfter before := by
    simp only [Expr.widthAfter, former.widthAfter, latter.widthAfter]
  results subject := by
    funext position slots
    simp only [Expr.results, former.results, latter.results]

theorem capture (group : Nat) (inner : body.Equivalent body') :
    (Expr.capture group body).Equivalent (.capture group body') where
  widthAfter before := by simp only [Expr.widthAfter, inner.widthAfter]
  results subject := by
    funext position slots
    simp only [Expr.results, inner.results]

/-- Which counter a loop has does not show, nor what was found out about its body. -/
theorem loop {quantifier other : Quantifier} (least : quantifier.least = other.least)
    (most : quantifier.most = other.most) (lazy : quantifier.greed = .lazy ↔ other.greed = .lazy)
    (nullable nullable' : Bool) (counter counter' : Nat) (inner : body.Equivalent body') :
    (Expr.loop quantifier nullable counter body).Equivalent
      (.loop other nullable' counter' body') where
  widthAfter before := by simp only [Expr.widthAfter, inner.widthAfter, least, most]
  results subject := by
    funext position slots
    simp only [Expr.results, inner.results, Quantifier.iterate_congr least most lazy]

theorem atomic (inner : body.Equivalent body') :
    (Expr.atomic body).Equivalent (.atomic body') where
  widthAfter before := inner.widthAfter before
  results subject := by
    funext position slots
    simp only [Expr.results, inner.results]

theorem look (direction : Look) (width : Nat) (inner : body.Equivalent body') :
    (Expr.look direction width body).Equivalent (.look direction width body') where
  widthAfter _ := rfl
  results subject := by
    funext position slots
    simp only [Expr.results, inner.results]

/-! ## Laws -/

theorem sequence_empty (expr : Expr) : (Expr.sequence expr .empty).Equivalent expr where
  widthAfter _ := rfl
  results subject := by
    funext position slots
    simp only [Expr.results, List.flatMap_singleton']

/-- An atomic expression with no choice is that expression. -/
theorem atomic_of_single {expr : Expr}
    (single : ∀ subject position slots, (expr.results subject position slots).length ≤ 1) :
    (Expr.atomic expr).Equivalent expr where
  widthAfter _ := rfl
  results subject := by
    funext position slots
    exact List.take_of_length_le (single subject position slots)

theorem atomic_test (test : ByteTest) : (Expr.atomic (.test test)).Equivalent (.test test) :=
  atomic_of_single fun subject position slots => by
    simp only [Expr.results, ByteTest.results]
    split <;> simp

theorem atomic_backReference (caseless : Bool) (group : Nat) :
    (Expr.atomic (.backReference caseless group)).Equivalent (.backReference caseless group) :=
  atomic_of_single fun subject position slots => by
    simp only [Expr.results]
    split
    · simp
    · split <;> simp

/-- A byte repeated by an instruction of its own and the general loop over its test. -/
theorem repetition_loop {quantifier : Quantifier} (backtracks : quantifier.greed ≠ .possessive)
    (nullable : Bool) (counter : Nat) (test : ByteTest) :
    (Expr.repetition quantifier test).Equivalent (.loop quantifier nullable counter (.test test)) where
  widthAfter _ := rfl
  results subject := by
    funext position slots
    simp only [Expr.results, if_neg backtracks]

variable (least : Nat) (most : Option Nat)

/-- A loop never looks at whether it is possessive. -/
theorem loop_possessive (nullable nullable' : Bool) (counter counter' : Nat) (body : Expr) :
    (Expr.loop ⟨least, most, .possessive⟩ nullable counter body).Equivalent
      (.loop ⟨least, most, .greedy⟩ nullable' counter' body) := by
  refine loop ?_ ?_ ?_ nullable nullable' counter counter' (refl body)
  · rfl
  · rfl
  · exact iff_of_false nofun nofun

/-- The instruction that gives nothing back is the greedy one, cut to its first result. -/
theorem repetition_possessive (test : ByteTest) :
    (Expr.repetition ⟨least, most, .possessive⟩ test).Equivalent
      (.atomic (.repetition ⟨least, most, .greedy⟩ test)) where
  widthAfter _ := rfl
  results subject := by
    have same := (loop_possessive least most false false 0 0 (.test test)).results subject
    funext position slots
    have same := congrFun (congrFun same position) slots
    simp only [Expr.results] at same ⊢
    simp only [same, if_true, reduceCtorEq, if_false]

/-- One byte under a quantifier and a group of that byte under the same quantifier. -/
theorem repeated_test (quantifier : Quantifier) (test : ByteTest) (counter : Nat) :
    (if quantifier.isOnce then Expr.test test else .repetition quantifier test).Equivalent
      ((Expr.sequence (.test test) .empty).repeated quantifier counter) := by
  have inner := (sequence_empty (.test test)).symm
  have looped {quantifier : Quantifier} (nullable : Bool) :
      (Expr.loop quantifier nullable counter (.test test)).Equivalent
        (.loop quantifier nullable counter (.sequence (.test test) .empty)) :=
    loop rfl rfl Iff.rfl nullable nullable counter counter inner
  unfold Expr.repeated
  by_cases once : quantifier.isOnce = true
  · simp only [once, if_true]
    exact inner
  simp only [once, Bool.false_eq_true, if_false]
  generalize (Expr.sequence (.test test) .empty).nullable = nullable
  by_cases possessive : quantifier.greed = .possessive
  · obtain ⟨least, most, greed⟩ := quantifier
    subst possessive
    rw [if_pos rfl]
    have greedy : (Expr.repetition ⟨least, most, .greedy⟩ test).Equivalent
        (.loop ⟨least, most, .greedy⟩ nullable counter (.test test)) :=
      repetition_loop (by simp) nullable counter test
    have atom := greedy.trans (loop_possessive least most nullable nullable counter counter _).symm
    exact (repetition_possessive least most test).trans (atom.trans (looped nullable)).atomic
  · rw [if_neg possessive]
    exact (repetition_loop possessive nullable counter test).trans (looped nullable)

/-- One byte under a possessive quantifier is atomic under the greedy one. -/
theorem possessive_test (test : ByteTest) :
    let once := (⟨least, most, .greedy⟩ : Quantifier).isOnce
    (if once then Expr.test test else .repetition ⟨least, most, .possessive⟩ test).Equivalent
      (.atomic (.sequence
        (if once then Expr.test test else .repetition ⟨least, most, .greedy⟩ test) .empty)) := by
  dsimp only
  split
  · exact (atomic_test test).symm.trans (sequence_empty _).symm.atomic
  · exact (repetition_possessive least most test).trans (sequence_empty _).symm.atomic

/-- An expression under a possessive quantifier is atomic under the greedy one, unless the
quantifier says no more than once. -/
theorem possessive_repeated {expr : Expr}
    (settled : (⟨least, most, .greedy⟩ : Quantifier).isOnce = true →
      (Expr.atomic expr).Equivalent expr) (counter counter' : Nat) :
    (expr.repeated ⟨least, most, .possessive⟩ counter).Equivalent
      (.atomic (.sequence (expr.repeated ⟨least, most, .greedy⟩ counter') .empty)) := by
  have same : (⟨least, most, .possessive⟩ : Quantifier).isOnce =
    (⟨least, most, .greedy⟩ : Quantifier).isOnce := rfl
  have inner (expr : Expr) := (sequence_empty expr).symm.atomic
  unfold Expr.repeated
  rw [same]
  by_cases once : (⟨least, most, .greedy⟩ : Quantifier).isOnce = true
  · simp only [once, if_true]
    exact (settled once).symm.trans (inner _)
  · simp only [once, Bool.false_eq_true, if_false, reduceCtorEq, if_true]
    exact (loop_possessive least most _ _ counter counter' expr).atomic.trans (inner _)

end Expr.Equivalent

/-- Patterns that are compared for being equivalent. Which of them are refused does not matter. -/
def Comparison.equivalence : Comparison where
  exact := False
  enclosing := True
  quantifiers := Eq
  exprs := Expr.Equivalent

theorem Comparison.equivalence_congruent : equivalence.Congruent where
  refl := .refl
  sequence := .sequence
  alternative := .alternative
  capture group _ _ := .capture group
  repetition test _ _ same := same ▸ .refl _
  loop nullable counter counter' _ _ _ _ same inner :=
    .loop (congrArg _ same) (congrArg _ same) (by rw [show _ = _ from same]) nullable nullable counter
      counter' inner
  atomic _ _ _ := .atomic
  look _ direction width _ _ := .look direction width
  width same := same.widthAfter _
  emit precise := precise.elim
  least same := congrArg _ same
  most same := congrArg _ same
  possessive same := by rw [show _ = _ from same]
  enclosing _ _ := trivial

/-- Any token agrees with itself as far as equivalence goes. -/
theorem Token.agrees_equivalence (token : Token) : token.Agrees .equivalence token := by
  by_cases quantified : ∃ quantifier, token = .quantifier (.ok quantifier)
  · obtain ⟨quantifier, rfl⟩ := quantified
    exact .quantifier rfl
  · exact .same (fun quantifier same => quantified ⟨quantifier, same⟩) (fun _ => trivial)
      fun _ _ => trivial

end ByteRegex
