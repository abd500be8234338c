import ByteRegex.Proofs.Assembly.Compiled
import ByteRegex.Proofs.Assembly.Listed

/-!
# Fuel

The fuel of a search is enough for each of its attempts. An expression costs no more than the extent
of its code and the rounds of its counted loops allow, and both can be read off the code.
-/

namespace ByteRegex

/-- The instructions on a way that consumes nothing, at most. -/
def wayCost (extent rounds : Nat) : Nat := 8 * extent * rounds

/-- The instructions on the way through a call, at most. -/
def callCost (size extent rounds : Nat) : Nat :=
  extent * wayCost extent rounds * size + wayCost extent rounds + 1

section

variable {size extent more rounds greater : Nat}

theorem wayCost_mono (longer : extent ≤ more) (oftener : rounds ≤ greater) :
    wayCost extent rounds ≤ wayCost more greater :=
  Nat.mul_le_mul (Nat.mul_le_mul_left 8 longer) oftener

theorem callCost_mono (longer : extent ≤ more) (oftener : rounds ≤ greater) :
    callCost size extent rounds ≤ callCost size more greater := by
  have way := wayCost_mono longer oftener
  have slope := Nat.mul_le_mul_right size (Nat.mul_le_mul longer way)
  exact Nat.succ_le_succ (Nat.add_le_add slope way)

theorem wayCost_add (extent gap rounds : Nat) :
    wayCost (extent + gap) rounds = wayCost extent rounds + 8 * gap * rounds := by
  rw [wayCost, Nat.mul_add, Nat.add_mul, wayCost]

/-- Room for `gap` more instructions pays for eight times as many. -/
theorem wayCost_gap (extent gap : Nat) (positive : 0 < rounds) :
    wayCost extent rounds + 8 * gap ≤ wayCost (extent + gap) rounds := by
  rw [wayCost_add]
  exact Nat.add_le_add_left (Nat.le_mul_of_pos_right _ positive) _

namespace Quantifier

theorem rounds_pos (quantifier : Quantifier) : 0 < quantifier.rounds := by
  unfold rounds
  split <;> omega

/-- Each round costs four instructions around the body, and so do entering and leaving. -/
theorem roundsLeft_le_rounds (quantifier : Quantifier) :
    quantifier.roundsLeft 0 false ≤ quantifier.rounds ∧
      quantifier.roundsLeft 0 false * 4 + 4 ≤ 8 * quantifier.rounds := by
  unfold rounds
  by_cases counted : quantifier.needsCounter false = true
  · rw [if_pos counted]
    omega
  · rw [if_neg counted]
    have single : quantifier.roundsLeft 0 false ≤ 1 := by
      unfold needsCounter at counted
      unfold roundsLeft
      split at counted <;> simp_all
    omega

end Quantifier

namespace Expr

/-- The cost of an expression in a subject of this size is what code of this extent allows. -/
structure Affordable (size : Nat) (expr : Expr) (extent : Nat) : Prop where
  positive : 0 < expr.rounds
  overhead : expr.overhead ≤ wayCost extent expr.rounds
  slope : expr.slope ≤ extent * wayCost extent expr.rounds
  reserve : expr.reserve size ≤ extent * callCost size extent expr.rounds

/-- What an attempt takes that starts with this expression. -/
def need (size : Nat) (expr : Expr) : Nat :=
  expr.slope * size + expr.reserve size + expr.overhead + 1

variable {expr first second body : Expr} {former latter gap : Nat}

namespace Affordable

theorem mono (affordable : expr.Affordable size extent) (longer : extent ≤ more) :
    expr.Affordable size more where
  positive := affordable.positive
  overhead := Nat.le_trans affordable.overhead (wayCost_mono longer (Nat.le_refl _))
  slope := Nat.le_trans affordable.slope
    (Nat.mul_le_mul longer (wayCost_mono longer (Nat.le_refl _)))
  reserve := Nat.le_trans affordable.reserve
    (Nat.mul_le_mul longer (callCost_mono longer (Nat.le_refl _)))

/-- A call costs once more what each of the calls inside it may cost. -/
theorem need_le (affordable : expr.Affordable size extent) :
    expr.need size ≤ (extent + 1) * callCost size extent expr.rounds := by
  have slope := Nat.mul_le_mul_right size affordable.slope
  have overhead := affordable.overhead
  have reserve := affordable.reserve
  rw [Nat.succ_mul, need]
  simp only [callCost] at reserve ⊢
  omega

/-- An expression that calls nothing and repeats nothing. -/
theorem plain (rounds : expr.rounds = 1) (slope : expr.slope = 0) (reserve : expr.reserve size = 0)
    (overhead : expr.overhead ≤ extent) : expr.Affordable size extent where
  positive := by rw [rounds]; exact Nat.one_pos
  overhead := by
    rw [rounds, wayCost]
    omega
  slope := by rw [slope]; exact Nat.zero_le _
  reserve := by rw [reserve]; exact Nat.zero_le _

/-- An expression with two parts and some instructions between them. -/
theorem both (one : first.Affordable size former) (other : second.Affordable size latter)
    (rounds : expr.rounds = first.rounds * second.rounds)
    (overhead : expr.overhead ≤ first.overhead + second.overhead + 8 * gap)
    (slope : expr.slope = first.slope + second.slope)
    (reserve : expr.reserve size = first.reserve size + second.reserve size) :
    expr.Affordable size (former + latter + gap) := by
  have oftener : first.rounds ≤ expr.rounds ∧ second.rounds ≤ expr.rounds := by
    rw [rounds]
    exact ⟨Nat.le_mul_of_pos_right _ other.positive, Nat.le_mul_of_pos_left _ one.positive⟩
  have positive : 0 < expr.rounds := Nat.lt_of_lt_of_le one.positive oftener.1
  have longer : former ≤ former + latter + gap ∧ latter ≤ former + latter + gap := by omega
  refine ⟨positive, ?_, ?_, ?_⟩
  · have ahead := Nat.le_trans one.overhead (wayCost_mono (Nat.le_refl former) oftener.1)
    have behind := Nat.le_trans other.overhead (wayCost_mono (Nat.le_refl latter) oftener.2)
    have together := wayCost_add former latter expr.rounds
    have whole := wayCost_gap (former + latter) gap positive
    unfold wayCost at *
    omega
  · have ahead := Nat.le_trans one.slope
      (Nat.mul_le_mul_left former (wayCost_mono longer.1 oftener.1))
    have behind := Nat.le_trans other.slope
      (Nat.mul_le_mul_left latter (wayCost_mono longer.2 oftener.2))
    rw [slope, Nat.add_mul, Nat.add_mul]
    omega
  · have ahead := Nat.le_trans one.reserve
      (Nat.mul_le_mul_left former (callCost_mono longer.1 oftener.1))
    have behind := Nat.le_trans other.reserve
      (Nat.mul_le_mul_left latter (callCost_mono longer.2 oftener.2))
    rw [reserve, Nat.add_mul, Nat.add_mul]
    omega

/-- A loop has at least one instruction of its own. -/
theorem loop {quantifier : Quantifier} {nullable : Bool} {counter : Nat}
    (inner : body.Affordable size extent) :
    (loop quantifier nullable counter body).Affordable size (extent + 1) := by
  have some := inner.positive
  have often := quantifier.rounds_pos
  obtain ⟨fewer, turns⟩ := quantifier.roundsLeft_le_rounds
  have oftener : body.rounds ≤ quantifier.rounds * body.rounds :=
    Nat.le_mul_of_pos_left _ often
  have positive : 0 < quantifier.rounds * body.rounds := Nat.mul_pos often some
  have way := wayCost_mono (Nat.le_refl extent) oftener
  have room := wayCost_gap extent 1 positive
  have longer := wayCost_mono (Nat.le_add_right extent 1)
    (Nat.le_refl (quantifier.rounds * body.rounds))
  refine ⟨positive, ?_, ?_, ?_⟩
  · have bodies : quantifier.roundsLeft 0 false * body.overhead ≤
        wayCost extent (quantifier.rounds * body.rounds) := by
      calc quantifier.roundsLeft 0 false * body.overhead
          ≤ quantifier.rounds * wayCost extent body.rounds := Nat.mul_le_mul fewer inner.overhead
        _ = wayCost extent (quantifier.rounds * body.rounds) := by
          rw [wayCost, wayCost, Nat.mul_left_comm]
    have around : 8 * quantifier.rounds ≤ 8 * 1 * (quantifier.rounds * body.rounds) :=
      Nat.mul_le_mul_left 8 (Nat.le_mul_of_pos_right _ some)
    simp only [Expr.overhead, rounds, wayCost_add, Nat.mul_add]
    omega
  · have gentle := inner.slope
    have overhead := inner.overhead
    simp only [Expr.slope, rounds]
    calc body.slope + body.overhead + 4
        ≤ extent * wayCost extent body.rounds + (wayCost extent body.rounds + 8) := by omega
      _ ≤ extent * wayCost (extent + 1) (quantifier.rounds * body.rounds) +
          wayCost (extent + 1) (quantifier.rounds * body.rounds) :=
        Nat.add_le_add (Nat.mul_le_mul_left _ (Nat.le_trans way longer)) (by omega)
      _ = (extent + 1) * wayCost (extent + 1) (quantifier.rounds * body.rounds) :=
        (Nat.succ_mul ..).symm
  · simp only [Expr.reserve, rounds]
    exact Nat.le_trans inner.reserve
      (Nat.mul_le_mul (Nat.le_add_right ..) (callCost_mono (Nat.le_add_right ..) oftener))

/-- An expression whose body is a call. -/
theorem call (inner : body.Affordable size extent) (rounds : expr.rounds = body.rounds)
    (overhead : expr.overhead = 1) (slope : expr.slope = 0)
    (reserve : expr.reserve size = body.need size) : expr.Affordable size (extent + 1) where
  positive := rounds ▸ inner.positive
  overhead := by
    have room := wayCost_gap extent 1 inner.positive
    rw [rounds, overhead]
    omega
  slope := by rw [slope]; exact Nat.zero_le _
  reserve := by
    rw [reserve, rounds]
    exact Nat.le_trans inner.need_le
      (Nat.mul_le_mul_left _ (callCost_mono (Nat.le_add_right ..) (Nat.le_refl _)))

end Affordable

end Expr

end

theorem LoopAt.extent {code : Code} {quantifier : Quantifier} {nullable : Bool}
    {register : Fin Capacity.counters} {entry head tail exit : Nat}
    (shape : LoopAt code quantifier nullable register entry head tail exit) :
    entry ≤ head ∧ tail ≤ exit ∧ (entry < head ∨ tail < exit) := by
  cases shape <;> grind [→ Code.lt_of_instruction?]

theorem LiteralAt.length_le {code : Code} {caseless : Bool} {bytes : List UInt8} {start stop : Nat}
    (laid : LiteralAt code caseless bytes start stop) : start + bytes.length ≤ stop := by
  induction laid with
  | nil address => exact Nat.le_refl _
  | single read later ih =>
      have ahead := Code.lt_of_instruction? read
      rw [List.length_cons]
      omega
  | text several short read held later ih =>
      obtain ⟨ahead, finish⟩ := Code.text_bounds read
      rw [List.length_append]
      omega

/-- Code in place shows what its expression costs. -/
theorem Expr.affordable_of_laidOut {code : Code} (size : Nat) (expr : Expr) {start stop : Nat}
    (laid : expr.LaidOut code start stop) :
    ∃ extent, stop = start + extent ∧ expr.Affordable size extent := by
  induction expr generalizing start stop with
  | empty => exact ⟨0, laid.symm, .plain rfl rfl rfl (Nat.le_refl _)⟩
  | test single | assertion condition =>
      have ahead := Code.lt_of_instruction? laid
      exact ⟨stop - start, by omega, .plain rfl rfl rfl (Nat.le_sub_of_add_le' ahead)⟩
  | literal caseless bytes =>
      have ahead := LiteralAt.length_le laid
      exact ⟨stop - start, by omega, .plain rfl rfl rfl (Nat.le_sub_of_add_le' ahead)⟩
  | backReference caseless group =>
      obtain ⟨_, read⟩ := laid
      have ahead := Code.lt_of_instruction? read
      exact ⟨stop - start, by omega, .plain rfl rfl rfl (Nat.le_sub_of_add_le' ahead)⟩
  | sequence first second ihFirst ihSecond =>
      obtain ⟨middle, former, latter⟩ := laid
      obtain ⟨early, rfl, first⟩ := ihFirst former
      obtain ⟨late, rfl, second⟩ := ihSecond latter
      have whole : (sequence _ _).Affordable size (early + late + 0) :=
        first.both second rfl (Nat.le_refl _) rfl rfl
      exact ⟨early + late, Nat.add_assoc .., whole⟩
  | alternative first second ihFirst ihSecond =>
      obtain ⟨ahead, joint, behind, enter, former, leave, latter⟩ := laid
      have enters := Code.lt_of_instruction? enter
      have leaves := Code.lt_of_instruction? leave
      obtain ⟨early, rfl, first⟩ := ihFirst former
      obtain ⟨late, rfl, second⟩ := ihSecond latter
      have whole : (alternative _ _).Affordable size (early + late + 1) :=
        first.both second rfl (Nat.add_le_add_left (by omega) _) rfl rfl
      exact ⟨behind + late - start, by omega, whole.mono (by omega)⟩
  | capture group body ih =>
      obtain ⟨_, head, tail, opened, inner, closed⟩ := laid
      have opens := Code.lt_of_instruction? opened
      have closes := Code.lt_of_instruction? closed
      obtain ⟨extent, rfl, affordable⟩ := ih inner
      have nothing : empty.Affordable size 0 := .plain rfl rfl rfl (Nat.le_refl _)
      have whole : (capture group body).Affordable size (extent + 0 + 1) :=
        affordable.both nothing (Nat.mul_one _).symm (Nat.add_le_add_left (by omega) _) rfl rfl
      exact ⟨stop - start, by omega, whole.mono (by omega)⟩
  | repetition quantifier single =>
      obtain ⟨next, read, tested⟩ := laid
      have repeats := Code.lt_of_instruction? read
      have tests := Code.lt_of_instruction? tested
      have once : 1 ≤ stop - start := by omega
      exact ⟨stop - start, by omega, .plain rfl rfl rfl once⟩
  | loop quantifier nullable counter body ih =>
      obtain ⟨register, head, tail, _, shape, inner⟩ := laid
      obtain ⟨enters, leaves, own⟩ := shape.extent
      obtain ⟨extent, rfl, affordable⟩ := ih inner
      exact ⟨stop - start, by omega, affordable.loop.mono (by omega)⟩
  | atomic body ih =>
      obtain ⟨head, tail, enter, inner, finish⟩ := laid
      have enters := Code.lt_of_instruction? enter
      have finishes := Code.lt_of_instruction? finish
      obtain ⟨extent, rfl, affordable⟩ := ih inner
      have whole : (atomic body).Affordable size (extent + 1) := affordable.call rfl rfl rfl rfl
      exact ⟨stop - start, by omega, whole.mono (by omega)⟩
  | look direction width body ih =>
      obtain ⟨head, tail, enter, inner, finish⟩ := laid
      have enters := Code.lt_of_instruction? enter
      have finishes := Code.lt_of_instruction? finish
      obtain ⟨extent, rfl, affordable⟩ := ih inner
      have whole : (look direction width body).Affordable size (extent + 1) :=
        affordable.call rfl rfl rfl rfl
      exact ⟨stop - start, by omega, whole.mono (by omega)⟩

namespace Code.Row

variable {code : Code} {start stop : Nat} {entries : List Entry}

theorem foldl_rounds (row : code.Row start entries stop) {weigh : Nat → Nat → Nat}
    (weighs : ∀ product address instruction next,
      code.instruction? address = some (instruction, next) →
        weigh product address = product * instruction.rounds) (product : Nat) :
    (entries.map Entry.address).foldl weigh product = product * Entry.rounds entries := by
  induction row generalizing product with
  | nil address => exact (Nat.mul_one _).symm
  | cons read later ih =>
      rw [List.map_cons, List.foldl_cons, ih, weighs _ _ _ _ read, Entry.rounds, ← Nat.mul_assoc]

theorem repeatFactor_eq (row : code.Row 0 entries code.size) :
    code.repeatFactor = Entry.rounds entries := by
  rw [repeatFactor, row.addresses_eq, row.foldl_rounds, Nat.one_mul]
  intro product address instruction next read
  rw [read]
  cases instruction <;> simp [Instruction.rounds]

end Code.Row

/-- The formula for the fuel holds as many calls as there are instructions. -/
theorem Code.callCost_le_fuel {code : Code} {size extent rounds : Nat} (inside : extent < code.size)
    (positive : 0 < rounds) (factor : rounds ≤ code.repeatFactor) :
    (extent + 1) * callCost size extent rounds ≤ code.fuel size := by
  have longer : extent ≤ code.size + 1 := by omega
  have way := wayCost_mono longer factor
  have room := wayCost_gap extent 1 positive
  have wider : wayCost (extent + 1) rounds ≤ wayCost (code.size + 1) code.repeatFactor :=
    wayCost_mono (by omega) factor
  have slope := Nat.mul_le_mul_right size (Nat.mul_le_mul longer way)
  have call : callCost size extent rounds ≤
      (code.size + 1) * wayCost (code.size + 1) code.repeatFactor * (size + 2) := by
    have whole := Nat.le_mul_of_pos_left (wayCost (code.size + 1) code.repeatFactor)
      (show 0 < code.size + 1 from Nat.succ_pos _)
    rw [callCost, Nat.mul_add]
    omega
  calc (extent + 1) * callCost size extent rounds
      ≤ (code.size + 1) *
          ((code.size + 1) * wayCost (code.size + 1) code.repeatFactor * (size + 2)) :=
        Nat.mul_le_mul (by omega) call
    _ = code.fuel size := by
      rw [wayCost, fuel]
      ac_rfl

/-- A search gives each attempt enough fuel. -/
theorem Program.Implements.need_le_fuel {program : Program} {expr : Expr}
    (implements : program.Implements expr) (size : Nat) :
    expr.need size ≤ program.code.fuel size := by
  obtain ⟨stop, laid, finish⟩ := implements.laidOut
  obtain ⟨entries, listed⟩ := expr.listed_of_laidOut implements.numbered.wellFormed laid
  obtain ⟨extent, same, affordable⟩ := expr.affordable_of_laidOut size laid
  have ending := Code.lt_of_instruction? finish
  have row := listed.fragment.row.append (.single finish)
  have factor : expr.rounds ≤ program.code.repeatFactor := by
    rw [row.repeatFactor_eq, Entry.rounds_append]
    exact Nat.le_trans listed.rounds (Nat.le_mul_of_pos_right _ (Entry.rounds_pos _))
  exact Nat.le_trans affordable.need_le
    (Code.callCost_le_fuel (by omega) affordable.positive factor)

end ByteRegex
