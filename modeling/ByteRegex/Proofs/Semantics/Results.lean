import ByteRegex.Captures
import ByteRegex.Expr
import ByteRegex.Machine.Run
import ByteRegex.Search

/-!
# Results

What an expression matches, without any code: the list of its results at a position, best first.
A result is where the match stops and what the groups hold then. The meaning of a pattern is its
list of results, and the first match is the first result at the first start that has one.
-/

namespace ByteRegex

abbrev Slots := Vector (Option Span) Capacity.slots

namespace Slots

def unset : Slots := Vector.replicate _ none

def get? (slots : Slots) (group : Nat) : Option Span := slots[group]?.join

def record (slots : Slots) (group start stop : Nat) : Slots :=
  slots.setIfInBounds group (some ⟨start, stop⟩)

@[simp] theorem get?_unset (group : Nat) : unset.get? group = none := by
  rw [get?, unset, Vector.getElem?_replicate]
  split <;> rfl

end Slots

theorem findSome?_flatMap {α β γ : Type} (items : List α) (results : α → List β)
    (answer : β → Option γ) :
    (items.flatMap results).findSome? answer =
      items.findSome? fun item => (results item).findSome? answer := by
  induction items with
  | nil => rfl
  | cons item rest ih =>
      rw [List.flatMap_cons, List.findSome?_append, List.findSome?_cons, ih]
      cases (results item).findSome? answer <;> rfl

theorem find?_eq_head? {α : Type} {test : α → Bool} {items : List α}
    (passes : ∀ item ∈ items, test item = true) : items.find? test = items.head? := by
  cases items with
  | nil => rfl
  | cons item rest => rw [List.find?_cons_of_pos (passes _ (List.mem_cons_self ..)), List.head?_cons]

/-- Whether the subject has these bytes from a position on. -/
def spells (subject : Array UInt8) (caseless : Bool) : Nat → List UInt8 → Bool
  | _, [] => true
  | position, byte :: rest =>
      subject[position]?.any (Machine.equalBytes caseless · byte) &&
        spells subject caseless (position + 1) rest

namespace Quantifier

/-- Whether no iteration may follow. An iteration is idle if it consumes nothing; where any number
of iterations is allowed, an idle one beyond the minimum is the last. -/
def isDone (quantifier : Quantifier) (count : Nat) (idle : Bool) : Bool :=
  quantifier.least ≤ count && quantifier.most.elim idle (· ≤ count)

/-- How many iterations may still follow, where one that consumes a byte counts only up to the
minimum of a repeat without maximum. -/
def roundsLeft (quantifier : Quantifier) (count : Nat) (idle : Bool) : Nat :=
  match quantifier.most with
  | some most => max quantifier.least most - count
  | none => if count < quantifier.least then quantifier.least - count else (!idle).toNat

/-- An iteration uses up a round or consumes a byte. -/
theorem roundsLeft_succ {quantifier : Quantifier} {count : Nat} {idle : Bool}
    (unfinished : ¬ quantifier.isDone count idle = true) (idler : Bool) :
    quantifier.roundsLeft (count + 1) idler < quantifier.roundsLeft count idle ∨
      (quantifier.roundsLeft (count + 1) idler = quantifier.roundsLeft count idle ∧
        idler = false) := by
  unfold roundsLeft
  rcases bounds : quantifier.most with _ | most
  · have active : quantifier.least ≤ count → idle = false := by
      simpa [isDone, bounds] using unfinished
    dsimp only
    by_cases below : count < quantifier.least
    · rw [if_pos below]
      cases idler <;> split <;> simp <;> omega
    · have above : ¬ count + 1 < quantifier.least := by omega
      rw [if_neg below, if_neg above, active (Nat.not_lt.mp below)]
      cases idler <;> simp
  · have remaining : ¬ (quantifier.least ≤ count ∧ most ≤ count) := by
      simpa [isDone, bounds] using unfinished
    dsimp only
    omega

theorem roundsLeft_pos {quantifier : Quantifier} {count : Nat} {idle : Bool}
    (unfinished : ¬ quantifier.isDone count idle = true) : 0 < quantifier.roundsLeft count idle := by
  rcases roundsLeft_succ unfinished true with fewer | ⟨_, active⟩
  · exact Nat.zero_lt_of_lt fewer
  · cases active

/-- The results of leaving a repeat after `count` iterations and those of iterating again, in the
order of the repeat: a lazy one leaves first, every other one iterates first. -/
def choices (quantifier : Quantifier) (count : Nat) (leave : Nat × Slots)
    (again : List (Nat × Slots)) : List (Nat × Slots) :=
  if count < quantifier.least then again
  else if quantifier.greed = .lazy then leave :: again
  else again ++ [leave]

/-- The results of going on with a repeat after `count` iterations, the last one idle or not. -/
def iterate (quantifier : Quantifier) (size : Nat) (body : Nat → Slots → List (Nat × Slots))
    (count : Nat) (idle : Bool) (position : Nat) (slots : Slots) : List (Nat × Slots) :=
  if quantifier.isDone count idle then [(position, slots)]
  else
    -- A result that does not advance inside the subject counts as idle, so the recursion ends
    -- whatever the body is.
    quantifier.choices count (position, slots)
      ((body position slots).flatMap fun result =>
        iterate quantifier size body (count + 1) (result.1 ≤ position || size < result.1) result.1
          result.2)
termination_by (quantifier.roundsLeft count idle, size + 1 - position)
decreasing_by
  rename_i unfinished
  rcases roundsLeft_succ unfinished (result.1 ≤ position || size < result.1) with
    fewer | ⟨same, active⟩
  · exact Prod.Lex.left _ _ fewer
  · rw [same]
    apply Prod.Lex.right _
    simp only [Bool.or_eq_false_iff, decide_eq_false_iff_not] at active
    omega

theorem iterate_of_isDone {quantifier : Quantifier} {size : Nat}
    {body : Nat → Slots → List (Nat × Slots)} {count : Nat} {idle : Bool} (position : Nat)
    (slots : Slots) (finished : quantifier.isDone count idle = true) :
    quantifier.iterate size body count idle position slots = [(position, slots)] := by
  rw [iterate, if_pos finished]

theorem iterate_of_not_isDone {quantifier : Quantifier} {size : Nat}
    {body : Nat → Slots → List (Nat × Slots)} {count : Nat} {idle : Bool} (position : Nat)
    (slots : Slots) (unfinished : ¬ quantifier.isDone count idle = true) :
    quantifier.iterate size body count idle position slots =
      quantifier.choices count (position, slots)
        ((body position slots).flatMap fun result =>
          quantifier.iterate size body (count + 1) (result.1 ≤ position || size < result.1)
            result.1 result.2) := by
  rw [iterate, if_neg unfinished]

/-- A repeat that may leave has its own position among its results. -/
theorem mem_iterate_of_le {quantifier : Quantifier} {size : Nat}
    {body : Nat → Slots → List (Nat × Slots)} {count : Nat} {idle : Bool} {position : Nat}
    {slots : Slots} (enough : quantifier.least ≤ count) :
    (position, slots) ∈ quantifier.iterate size body count idle position slots := by
  by_cases finished : quantifier.isDone count idle = true
  · rw [iterate_of_isDone _ _ finished]
    exact List.mem_singleton_self _
  · rw [iterate_of_not_isDone _ _ finished, choices, if_neg (Nat.not_lt.mpr enough)]
    split
    · exact List.mem_cons_self ..
    · exact List.mem_append_right _ (List.mem_singleton_self _)

theorem mem_iterate_of_body {quantifier : Quantifier} {size : Nat}
    {body : Nat → Slots → List (Nat × Slots)} {count : Nat} {idle : Bool} {position : Nat}
    {slots : Slots} {middle result : Nat × Slots}
    (unfinished : ¬ quantifier.isDone count idle = true) (taken : middle ∈ body position slots)
    (later : result ∈ quantifier.iterate size body (count + 1)
      (middle.1 ≤ position || size < middle.1) middle.1 middle.2) :
    result ∈ quantifier.iterate size body count idle position slots := by
  have again : result ∈ (body position slots).flatMap fun step => quantifier.iterate size body
      (count + 1) (step.1 ≤ position || size < step.1) step.1 step.2 :=
    List.mem_flatMap.mpr ⟨middle, taken, later⟩
  rw [iterate_of_not_isDone _ _ unfinished, choices]
  split
  · exact again
  · split
    · exact List.mem_cons_of_mem _ again
    · exact List.mem_append_left _ again

/-- Induction over the iterations of a repeat. -/
theorem iterate_induction (quantifier : Quantifier) (size : Nat) {motive : Nat → Bool → Nat → Prop}
    (finish : ∀ count idle position, quantifier.isDone count idle = true →
      motive count idle position)
    (again : ∀ count idle position, ¬ quantifier.isDone count idle = true →
      (∀ stop, motive (count + 1) (stop ≤ position || size < stop) stop) →
      motive count idle position)
    (count : Nat) (idle : Bool) (position : Nat) : motive count idle position := by
  by_cases finished : quantifier.isDone count idle = true
  · exact finish count idle position finished
  · refine again count idle position finished fun stop => ?_
    exact iterate_induction quantifier size finish again (count + 1) _ stop
termination_by (quantifier.roundsLeft count idle, size + 1 - position)
decreasing_by
  rcases roundsLeft_succ finished (stop ≤ position || size < stop) with fewer | ⟨same, active⟩
  · exact Prod.Lex.left _ _ fewer
  · rw [same]
    apply Prod.Lex.right _
    simp only [Bool.or_eq_false_iff, decide_eq_false_iff_not] at active
    omega

end Quantifier

def ByteTest.results (subject : Array UInt8) (test : ByteTest) (position : Nat) (slots : Slots) :
    List (Nat × Slots) :=
  if test.holdsAt subject position then [(position + 1, slots)] else []

/-- The first result that a lookaround accepts from its body. A lookbehind has to end where it looks
back from. -/
def Look.found (direction : Look) (width : Nat) (body : Nat → Slots → List (Nat × Slots))
    (position : Nat) (slots : Slots) : Option (Nat × Slots) :=
  if direction.isBehind then
    if position < width then none
    else (body (position - width) slots).find? fun result => result.1 = position
  else (body position slots).head?

namespace Expr

/-- The results of an expression at a position. -/
def results (subject : Array UInt8) : Expr → Nat → Slots → List (Nat × Slots)
  | empty, position, slots => [(position, slots)]
  | test single, position, slots => single.results subject position slots
  | literal caseless bytes, position, slots =>
      if spells subject caseless position bytes then [(position + bytes.length, slots)] else []
  | assertion condition, position, slots =>
      if condition.holdsAt subject position then [(position, slots)] else []
  | backReference caseless group, position, slots =>
      match slots.get? group with
      | none => []
      | some span =>
          let text := (subject.extract span.start span.stop).toList
          if spells subject caseless position text then [(position + text.length, slots)] else []
  | sequence first second, position, slots =>
      (first.results subject position slots).flatMap fun result =>
        second.results subject result.1 result.2
  | alternative first second, position, slots =>
      first.results subject position slots ++ second.results subject position slots
  | capture group body, position, slots =>
      (body.results subject position slots).map fun result =>
        (result.1, Slots.record result.2 group position result.1)
  | repetition quantifier single, position, slots =>
      let all := quantifier.iterate subject.size (single.results subject) 0 false position slots
      if quantifier.greed = .possessive then all.take 1 else all
  | loop quantifier _ _ body, position, slots =>
      quantifier.iterate subject.size (body.results subject) 0 false position slots
  | atomic body, position, slots => (body.results subject position slots).take 1
  | look direction width body, position, slots =>
      match direction.found width (body.results subject) position slots with
      | some inner => if direction.isPositive then [(position, inner.2)] else []
      | none => if direction.isPositive then [] else [(position, slots)]

/-- The match at a start: the first result, or the first that consumes something if it has to. -/
def matchAt (expr : Expr) (subject : Array UInt8) (notEmpty : Bool) (start : Nat) :
    Option Captures :=
  ((expr.results subject start .unset).find? fun result =>
    !(notEmpty && result.1 = start)).map fun result => ⟨Slots.record result.2 0 start result.1⟩

/-- The first match with a start in the window. -/
def firstMatch (expr : Expr) (subject : Array UInt8) (window : Window) (notEmpty : Bool) :
    Option Captures :=
  (window.starts subject).findSome? (expr.matchAt subject notEmpty)

end Expr

end ByteRegex
