import ByteRegex.Proofs.Semantics.Results
import ByteRegex.Proofs.Syntax.WellFormed

/-!
# Extent

How far results reach. No result lies before its start or past the subject, the spans it sets are
inside the subject, and the bytes it takes are as many as the width of the expression allows.
-/

namespace ByteRegex

/-- All spans are in order and inside a subject of this size. -/
def Slots.Within (size : Nat) (slots : Slots) : Prop :=
  ∀ group span, slots.get? group = some span → span.start ≤ span.stop ∧ span.stop ≤ size

namespace Slots

theorem get?_record (slots : Slots) (group start stop other : Nat) :
    (slots.record group start stop).get? other =
      if other = group ∧ group < Capacity.slots then some ⟨start, stop⟩ else slots.get? other := by
  unfold record get?
  rw [Vector.getElem?_setIfInBounds]
  by_cases same : group = other
  · subst same
    by_cases bound : group < Capacity.slots
    · simp [bound]
    · simp [bound]
  · simp [same, Ne.symm same]

theorem record_fin (slots : Slots) (group : Fin Capacity.slots) (start stop : Nat) :
    slots.record group start stop = slots.set group.val (some ⟨start, stop⟩) group.isLt := by
  refine Vector.ext fun index inside => ?_
  rw [record, Vector.getElem_setIfInBounds, Vector.getElem_set]

theorem Within.unset (size : Nat) : Slots.unset.Within size := by
  intro group span found
  rw [get?_unset] at found
  cases found

theorem Within.record {size : Nat} {slots : Slots} (within : slots.Within size) {start stop : Nat}
    (group : Nat) (ordered : start ≤ stop) (bounded : stop ≤ size) :
    (slots.record group start stop).Within size := by
  intro other span found
  rw [get?_record] at found
  split at found
  · cases found
    exact ⟨ordered, bounded⟩
  · exact within other span found

end Slots

/-- Results behind their start and inside the subject, with all of their spans. -/
def Confined (size : Nat) (results : Nat → Slots → List (Nat × Slots)) : Prop :=
  ∀ position slots result, position ≤ size → Slots.Within size slots →
    result ∈ results position slots →
      position ≤ result.1 ∧ result.1 ≤ size ∧ Slots.Within size result.2

theorem ByteTest.lt_size_of_holdsAt {test : ByteTest} {subject : Array UInt8} {position : Nat}
    (holds : test.holdsAt subject position = true) : position < subject.size := by
  unfold holdsAt at holds
  split at holds
  · cases holds
  · rename_i found
    obtain ⟨inside, _⟩ := Array.getElem?_eq_some_iff.mp found
    exact inside

theorem ByteTest.mem_results {test : ByteTest} {subject : Array UInt8} {position : Nat}
    {slots : Slots} {result : Nat × Slots} :
    result ∈ test.results subject position slots ↔
      test.holdsAt subject position = true ∧ result = (position + 1, slots) := by
  unfold results
  split <;> simp_all

theorem spells_bound {subject : Array UInt8} {caseless : Bool} {position : Nat}
    {bytes : List UInt8} (start : position ≤ subject.size)
    (spelled : spells subject caseless position bytes = true) :
    position + bytes.length ≤ subject.size := by
  induction bytes generalizing position with
  | nil => exact start
  | cons byte rest ih =>
      simp only [spells, Bool.and_eq_true] at spelled
      obtain ⟨here, later⟩ := spelled
      obtain ⟨found, read, _⟩ := (Option.any_eq_true _ _).mp here
      obtain ⟨inside, _⟩ := Array.getElem?_eq_some_iff.mp read
      have reached := ih inside later
      simp only [List.length_cons]
      omega

namespace Quantifier

theorem mem_choices {quantifier : Quantifier} {count : Nat} {leave result : Nat × Slots}
    {again : List (Nat × Slots)} (chosen : result ∈ quantifier.choices count leave again) :
    (quantifier.least ≤ count ∧ result = leave) ∨ result ∈ again := by
  unfold choices at chosen
  split at chosen
  · exact .inr chosen
  · rename_i enough
    have least := Nat.not_lt.mp enough
    split at chosen
    · rcases List.mem_cons.mp chosen with same | later
      · exact .inl ⟨least, same⟩
      · exact .inr later
    · rcases List.mem_append.mp chosen with later | same
      · exact .inr later
      · exact .inl ⟨least, List.mem_singleton.mp same⟩

/-- What holds before a repeat and is kept by every iteration holds at each of its results. -/
theorem iterate_invariant {quantifier : Quantifier} {size : Nat}
    {body : Nat → Slots → List (Nat × Slots)} (invariant : Nat → Nat → Slots → Prop)
    (kept : ∀ count position slots result, invariant count position slots →
      (∀ most ∈ quantifier.most, count < max quantifier.least most) →
      result ∈ body position slots → invariant (count + 1) result.1 result.2)
    {count : Nat} {idle : Bool} {position : Nat} {slots : Slots} {result : Nat × Slots}
    (holds : invariant count position slots)
    (reached : result ∈ quantifier.iterate size body count idle position slots) :
    ∃ total, invariant total result.1 result.2 ∧ quantifier.least ≤ total ∧
      ∀ most ∈ quantifier.most, total ≤ max count (max quantifier.least most) := by
  induction count, idle, position using iterate_induction quantifier size generalizing slots with
  | finish count idle position finished =>
      rw [iterate_of_isDone _ _ finished] at reached
      cases List.mem_singleton.mp reached
      refine ⟨count, holds, ?_, fun most bound => Nat.le_max_left _ _⟩
      simp only [isDone, Bool.and_eq_true, decide_eq_true_eq] at finished
      exact finished.1
  | again count idle position unfinished ih =>
      have below : ∀ most ∈ quantifier.most, count < max quantifier.least most := by
        intro most bound
        have bounds : quantifier.most = some most := bound
        have remaining : ¬ (quantifier.least ≤ count ∧ most ≤ count) := by
          simpa [isDone, bounds] using unfinished
        omega
      rw [iterate_of_not_isDone _ _ unfinished] at reached
      rcases mem_choices reached with ⟨enough, same⟩ | reached
      · cases same
        exact ⟨count, holds, enough, fun most bound => Nat.le_max_left _ _⟩
      · obtain ⟨step, taken, later⟩ := List.mem_flatMap.mp reached
        have stepped := kept count position slots step holds below taken
        obtain ⟨total, final, enough, bounded⟩ := ih step.1 stepped later
        refine ⟨total, final, enough, fun most bound => ?_⟩
        have room := below most bound
        have limit := bounded most bound
        omega

end Quantifier

namespace Expr

variable {subject : Array UInt8}

theorem mem_repetition {quantifier : Quantifier} {single : ByteTest} {position : Nat}
    {slots : Slots} {result : Nat × Slots}
    (reached : result ∈ (repetition quantifier single).results subject position slots) :
    result ∈ quantifier.iterate subject.size (single.results subject) 0 false position slots := by
  simp only [results] at reached
  split at reached
  · exact List.mem_of_mem_take reached
  · exact reached

theorem mem_of_found {direction : Look} {width position : Nat}
    {body : Nat → Slots → List (Nat × Slots)} {slots : Slots} {inner : Nat × Slots}
    (found : direction.found width body position slots = some inner) :
    ∃ origin ≤ position, inner ∈ body origin slots := by
  unfold Look.found at found
  split at found
  · split at found
    · cases found
    · exact ⟨_, Nat.sub_le _ _, List.mem_of_find?_eq_some found⟩
  · exact ⟨_, Nat.le_refl _, List.mem_of_head? found⟩

/-- A lookaround stays where it is. Its slots are the old ones or those of a result of its body. -/
theorem mem_look {direction : Look} {width position : Nat} {body : Expr} {slots : Slots}
    {result : Nat × Slots}
    (reached : result ∈ (look direction width body).results subject position slots) :
    result = (position, slots) ∨ ∃ origin ≤ position, ∃ inner ∈ body.results subject origin slots,
      result = (position, inner.2) := by
  simp only [results] at reached
  split at reached
  · rename_i inner found
    obtain ⟨origin, before, taken⟩ := mem_of_found found
    split at reached
    · exact .inr ⟨origin, before, inner, taken, List.mem_singleton.mp reached⟩
    · cases reached
  · split at reached
    · cases reached
    · exact .inl (List.mem_singleton.mp reached)

theorem results_within (expr : Expr) {position : Nat} {slots : Slots} {result : Nat × Slots}
    (start : position ≤ subject.size) (within : slots.Within subject.size)
    (reached : result ∈ expr.results subject position slots) :
    position ≤ result.1 ∧ result.1 ≤ subject.size ∧ Slots.Within subject.size result.2 := by
  induction expr generalizing position slots result with
  | empty =>
      cases List.mem_singleton.mp reached
      exact ⟨Nat.le_refl _, start, within⟩
  | test single =>
      obtain ⟨holds, rfl⟩ := ByteTest.mem_results.mp reached
      exact ⟨Nat.le_succ _, ByteTest.lt_size_of_holdsAt holds, within⟩
  | literal caseless bytes =>
      simp only [results] at reached
      split at reached
      · rename_i spelled
        cases List.mem_singleton.mp reached
        exact ⟨Nat.le_add_right _ _, spells_bound start spelled, within⟩
      · cases reached
  | assertion condition =>
      simp only [results] at reached
      split at reached
      · cases List.mem_singleton.mp reached
        exact ⟨Nat.le_refl _, start, within⟩
      · cases reached
  | backReference caseless group =>
      simp only [results] at reached
      split at reached
      · cases reached
      · split at reached
        · rename_i spelled
          cases List.mem_singleton.mp reached
          exact ⟨Nat.le_add_right _ _, spells_bound start spelled, within⟩
        · cases reached
  | sequence first second ihFirst ihSecond =>
      obtain ⟨middle, taken, later⟩ := List.mem_flatMap.mp reached
      obtain ⟨after, inside, kept⟩ := ihFirst start within taken
      obtain ⟨later, rest⟩ := ihSecond inside kept later
      exact ⟨Nat.le_trans after later, rest⟩
  | alternative first second ihFirst ihSecond =>
      rcases List.mem_append.mp reached with taken | taken
      · exact ihFirst start within taken
      · exact ihSecond start within taken
  | capture group body ih =>
      obtain ⟨inner, taken, same⟩ := List.mem_map.mp reached
      obtain ⟨after, inside, kept⟩ := ih start within taken
      cases same
      exact ⟨after, inside, kept.record group after inside⟩
  | repetition quantifier single =>
      obtain ⟨total, ⟨after, inside, kept⟩, _⟩ := Quantifier.iterate_invariant
        (fun _ stop slots => position ≤ stop ∧ stop ≤ subject.size ∧ slots.Within subject.size)
        (by
          intro count stop slots result ⟨after, inside, kept⟩ _ taken
          obtain ⟨holds, rfl⟩ := ByteTest.mem_results.mp taken
          exact ⟨Nat.le_succ_of_le after, ByteTest.lt_size_of_holdsAt holds, kept⟩)
        ⟨Nat.le_refl _, start, within⟩ (mem_repetition reached)
      exact ⟨after, inside, kept⟩
  | loop quantifier nullable counter body ih =>
      obtain ⟨total, ⟨after, inside, kept⟩, _⟩ := Quantifier.iterate_invariant
        (fun _ stop slots => position ≤ stop ∧ stop ≤ subject.size ∧ slots.Within subject.size)
        (by
          intro count stop slots result ⟨after, inside, kept⟩ _ taken
          obtain ⟨later, rest⟩ := ih inside kept taken
          exact ⟨Nat.le_trans after later, rest⟩)
        ⟨Nat.le_refl _, start, within⟩ reached
      exact ⟨after, inside, kept⟩
  | atomic body ih => exact ih start within (List.mem_of_mem_take reached)
  | look direction width body ih =>
      rcases mem_look reached with rfl | ⟨origin, before, inner, taken, rfl⟩
      · exact ⟨Nat.le_refl _, start, within⟩
      · obtain ⟨_, _, kept⟩ := ih (Nat.le_trans before start) within taken
        exact ⟨Nat.le_refl _, start, kept⟩

theorem results_confined (expr : Expr) : Confined subject.size (expr.results subject) :=
  fun _ _ _ => expr.results_within

end Expr

/-- Whether so many bytes are between the bounds of a width. -/
def Width.Allows (width : Width) (count : Nat) : Prop :=
  width.least ≤ count ∧ ∀ most ∈ width.most, count ≤ most

namespace Width

variable {first second : Width} {left right : Nat}

theorem allows_exactly (count : Nat) : (exactly count).Allows count :=
  ⟨Nat.le_refl _, fun _ bound => Nat.le_of_eq (Option.some.inj bound)⟩

theorem allows_unknown (count : Nat) : unknown.Allows count :=
  ⟨Nat.zero_le _, fun _ bound => nomatch bound⟩

theorem capped_le (number : Nat) : capped number ≤ number := Nat.min_le_left _ _

theorem eq_of_mem_bounded {number most : Nat} (bound : most ∈ bounded number) : most = number := by
  unfold bounded at bound
  split at bound
  · exact (Option.some.inj bound).symm
  · cases bound

theorem Allows.followedBy (allows : first.Allows left) (later : second.Allows right) :
    (first.followedBy second).Allows (left + right) := by
  obtain ⟨firstLeast, firstMost⟩ := allows
  obtain ⟨secondLeast, secondMost⟩ := later
  refine ⟨Nat.le_trans (capped_le _) (Nat.add_le_add firstLeast secondLeast), ?_⟩
  intro most bound
  simp only [Width.followedBy] at bound
  split at bound
  · rename_i leftMost rightMost leftBound rightBound
    rw [eq_of_mem_bounded bound]
    exact Nat.add_le_add (firstMost _ leftBound) (secondMost _ rightBound)
  · cases bound

theorem Allows.either_left (allows : first.Allows left) : (first.either second).Allows left := by
  refine ⟨Nat.le_trans (Nat.min_le_left _ _) allows.1, fun most bound => ?_⟩
  simp only [Width.either] at bound
  split at bound
  · rename_i leftMost rightMost leftBound rightBound
    cases bound
    exact Nat.le_trans (allows.2 _ leftBound) (Nat.le_max_left _ _)
  · cases bound

theorem Allows.either_right (allows : second.Allows left) : (first.either second).Allows left := by
  refine ⟨Nat.le_trans (Nat.min_le_right _ _) allows.1, fun most bound => ?_⟩
  simp only [Width.either] at bound
  split at bound
  · rename_i leftMost rightMost leftBound rightBound
    cases bound
    exact Nat.le_trans (allows.2 _ rightBound) (Nat.le_max_right _ _)
  · cases bound

/-- Of one possible number only that one is allowed. -/
theorem Allows.eq_of_fixed {width : Width} {count size : Nat} (allows : width.Allows count)
    (fixed : width.fixed? = some size) : count = size := by
  obtain ⟨bound, tight⟩ := Option.filter_eq_some_iff.mp fixed
  have same := of_decide_eq_true tight
  exact Nat.le_antisymm (allows.2 size bound) (same ▸ allows.1)

/-- Between them, `rounds` iterations take as much as each of them may, times their number. -/
theorem allows_repeated {width : Width} {quantifier : Quantifier} {rounds count : Nat}
    (least : width.least * rounds ≤ count) (most : ∀ most ∈ width.most, count ≤ most * rounds)
    (enough : quantifier.least ≤ rounds) (bounded : ∀ most ∈ quantifier.most, rounds ≤ most) :
    (width.repeated quantifier.least quantifier.most).Allows count := by
  refine ⟨?_, fun total bound => ?_⟩
  · calc
      _ ≤ width.least * quantifier.least := capped_le _
      _ ≤ width.least * rounds := Nat.mul_le_mul_left _ enough
      _ ≤ count := least
  · simp only [repeated] at bound
    split at bound
    · rename_i nothing
      cases bound
      simpa using most 0 nothing
    · rename_i each limit _ wide limited
      rw [eq_of_mem_bounded bound]
      exact Nat.le_trans (most each wide) (Nat.mul_le_mul_left _ (bounded limit limited))
    · cases bound

end Width

namespace Expr

variable {subject : Array UInt8}

/-- Repeats stay within the width of their body, repeated. -/
theorem iterate_width {quantifier : Quantifier} (valid : quantifier.Valid) {width : Width}
    {body : Nat → Slots → List (Nat × Slots)}
    (taking : ∀ position slots result, position ≤ subject.size → slots.Within subject.size →
      result ∈ body position slots → position ≤ result.1 ∧ result.1 ≤ subject.size ∧
        Slots.Within subject.size result.2 ∧ width.Allows (result.1 - position))
    {position : Nat} {slots : Slots} {result : Nat × Slots} (start : position ≤ subject.size)
    (within : slots.Within subject.size)
    (reached : result ∈ quantifier.iterate subject.size body 0 false position slots) :
    (width.repeated quantifier.least quantifier.most).Allows (result.1 - position) := by
  obtain ⟨rounds, ⟨_, _, _, least, most⟩, enough, bounded⟩ := Quantifier.iterate_invariant
    (fun rounds stop slots => position ≤ stop ∧ stop ≤ subject.size ∧ slots.Within subject.size ∧
      width.least * rounds ≤ stop - position ∧
      ∀ most ∈ width.most, stop - position ≤ most * rounds)
    (by
      intro rounds stop slots result ⟨after, inside, kept, least, most⟩ _ taken
      obtain ⟨later, bound, keeps, least', most'⟩ := taking stop slots result inside kept taken
      refine ⟨Nat.le_trans after later, bound, keeps, ?_, fun limit given => ?_⟩
      · rw [Nat.mul_succ]
        omega
      · have sofar := most limit given
        have more := most' limit given
        rw [Nat.mul_succ]
        omega)
    ⟨Nat.le_refl _, start, within, by simp, by simp⟩ reached
  refine Width.allows_repeated least most enough fun limit given => ?_
  have ordered := (valid.most limit given).2.1
  have total := bounded limit given
  omega

theorem results_width (expr : Expr) (wellFormed : expr.WellFormed) {before : Width} {taken : Nat}
    {position : Nat} {slots : Slots} {result : Nat × Slots} (start : position ≤ subject.size)
    (within : slots.Within subject.size) (allowed : before.Allows taken)
    (reached : result ∈ expr.results subject position slots) :
    (expr.widthAfter before).Allows (taken + (result.1 - position)) := by
  induction expr generalizing before taken position slots result with
  | empty =>
      cases List.mem_singleton.mp reached
      rw [Nat.sub_self]
      exact allowed
  | test single =>
      obtain ⟨_, rfl⟩ := ByteTest.mem_results.mp reached
      rw [Nat.add_sub_cancel_left]
      exact allowed.followedBy (Width.allows_exactly 1)
  | literal caseless bytes =>
      simp only [results] at reached
      split at reached
      · cases List.mem_singleton.mp reached
        rw [Nat.add_sub_cancel_left]
        exact allowed.followedBy (Width.allows_exactly _)
      · cases reached
  | assertion condition =>
      simp only [results] at reached
      split at reached
      · cases List.mem_singleton.mp reached
        rw [Nat.sub_self]
        exact allowed
      · cases reached
  | backReference caseless group => exact allowed.followedBy (Width.allows_unknown _)
  | sequence first second ihFirst ihSecond =>
      obtain ⟨wellFirst, wellSecond⟩ := wellFormed
      obtain ⟨middle, tried, later⟩ := List.mem_flatMap.mp reached
      obtain ⟨after, inside, kept⟩ := results_within first start within tried
      obtain ⟨beyond, _, _⟩ := results_within second inside kept later
      have both := ihSecond wellSecond inside kept
        (ihFirst wellFirst start within allowed tried) later
      rwa [show taken + (middle.1 - position) + (result.1 - middle.1) =
        taken + (result.1 - position) by omega] at both
  | alternative first second ihFirst ihSecond =>
      obtain ⟨wellFirst, wellSecond⟩ := wellFormed
      have none := Width.allows_exactly 0
      apply allowed.followedBy
      rcases List.mem_append.mp reached with tried | tried
      · have alone := ihFirst wellFirst start within none tried
        rw [Nat.zero_add] at alone
        exact alone.either_left
      · have alone := ihSecond wellSecond start within none tried
        rw [Nat.zero_add] at alone
        exact alone.either_right
  | capture group body ih =>
      obtain ⟨inner, tried, rfl⟩ := List.mem_map.mp reached
      have alone := ih wellFormed.2.2.2 start within allowed tried
      exact alone
  | repetition quantifier single =>
      refine allowed.followedBy
        (iterate_width wellFormed ?_ start within (mem_repetition reached))
      intro position slots result inside kept tried
      obtain ⟨holds, rfl⟩ := ByteTest.mem_results.mp tried
      rw [Nat.add_sub_cancel_left]
      exact ⟨Nat.le_succ _, ByteTest.lt_size_of_holdsAt holds, kept, Width.allows_exactly 1⟩
  | loop quantifier nullable counter body ih =>
      obtain ⟨valid, _, _, wellBody⟩ := wellFormed
      refine allowed.followedBy (iterate_width valid ?_ start within reached)
      intro position slots result inside kept tried
      obtain ⟨after, bounded, keeps⟩ := results_within body inside kept tried
      have alone := ih wellBody inside kept (Width.allows_exactly 0) tried
      rw [Nat.zero_add] at alone
      exact ⟨after, bounded, keeps, alone⟩
  | atomic body ih => exact ih wellFormed start within allowed (List.mem_of_mem_take reached)
  | look direction width body ih =>
      have stays : result.1 = position := by
        rcases mem_look reached with rfl | ⟨_, _, _, _, rfl⟩ <;> rfl
      rw [stays, Nat.sub_self]
      exact allowed

/-- The width of an expression bounds what each of its results takes. -/
theorem width_allows (expr : Expr) (wellFormed : expr.WellFormed) {position : Nat} {slots : Slots}
    {result : Nat × Slots} (start : position ≤ subject.size) (within : slots.Within subject.size)
    (reached : result ∈ expr.results subject position slots) :
    expr.width.Allows (result.1 - position) := by
  have allowed := results_width expr wellFormed start within (Width.allows_exactly 0) reached
  rwa [Nat.zero_add] at allowed

/-- An expression that is not nullable consumes something. -/
theorem lt_of_not_nullable {expr : Expr} (wellFormed : expr.WellFormed)
    (consumes : expr.nullable = false) {position : Nat} {slots : Slots} {result : Nat × Slots}
    (start : position ≤ subject.size) (within : slots.Within subject.size)
    (reached : result ∈ expr.results subject position slots) : position < result.1 := by
  have least := (width_allows expr wellFormed start within reached).1
  have positive : expr.width.least ≠ 0 := of_decide_eq_false consumes
  omega

/-- An expression of fixed width always takes as many bytes. -/
theorem eq_of_fixed {expr : Expr} {width : Nat} (wellFormed : expr.WellFormed)
    (fixed : expr.width.fixed? = some width) {position : Nat} {slots : Slots}
    {result : Nat × Slots} (start : position ≤ subject.size) (within : slots.Within subject.size)
    (reached : result ∈ expr.results subject position slots) : result.1 = position + width := by
  have taken := (width_allows expr wellFormed start within reached).eq_of_fixed fixed
  have after := (results_within expr start within reached).1
  omega

/-- Only the groups of an expression are ever set by it. -/
theorem results_frame (expr : Expr) {position group : Nat} {slots : Slots} {result : Nat × Slots}
    (outside : group ∉ expr.captures) (reached : result ∈ expr.results subject position slots) :
    Slots.get? result.2 group = slots.get? group := by
  induction expr generalizing position slots result with
  | empty =>
      cases List.mem_singleton.mp reached
      rfl
  | test single =>
      obtain ⟨_, rfl⟩ := ByteTest.mem_results.mp reached
      rfl
  | literal | assertion =>
      simp only [results] at reached
      split at reached
      · cases List.mem_singleton.mp reached
        rfl
      · cases reached
  | backReference caseless group =>
      simp only [results] at reached
      split at reached
      · cases reached
      · split at reached
        · cases List.mem_singleton.mp reached
          rfl
        · cases reached
  | sequence first second ihFirst ihSecond =>
      simp only [captures, List.mem_append, not_or] at outside
      obtain ⟨middle, tried, later⟩ := List.mem_flatMap.mp reached
      exact (ihSecond outside.2 later).trans (ihFirst outside.1 tried)
  | alternative first second ihFirst ihSecond =>
      simp only [captures, List.mem_append, not_or] at outside
      rcases List.mem_append.mp reached with tried | tried
      · exact ihFirst outside.1 tried
      · exact ihSecond outside.2 tried
  | capture number body ih =>
      simp only [captures, List.mem_cons, not_or] at outside
      obtain ⟨inner, tried, rfl⟩ := List.mem_map.mp reached
      rw [Slots.get?_record, if_neg (fun same => outside.1 same.1)]
      exact ih outside.2 tried
  | repetition quantifier single =>
      obtain ⟨_, kept, _⟩ := Quantifier.iterate_invariant
        (fun _ _ later => Slots.get? later group = slots.get? group)
        (by
          intro count stop later result kept _ taken
          obtain ⟨_, rfl⟩ := ByteTest.mem_results.mp taken
          exact kept)
        rfl (mem_repetition reached)
      exact kept
  | loop quantifier nullable counter body ih =>
      obtain ⟨_, kept, _⟩ := Quantifier.iterate_invariant
        (fun _ _ later => Slots.get? later group = slots.get? group)
        (fun count stop later result kept _ taken => (ih outside taken).trans kept)
        rfl reached
      exact kept
  | atomic body ih => exact ih outside (List.mem_of_mem_take reached)
  | look direction width body ih =>
      rcases mem_look reached with rfl | ⟨origin, _, inner, taken, rfl⟩
      · rfl
      · have alone := ih outside taken
        exact alone

end Expr

end ByteRegex
