import ByteRegex.Proofs.Assembly.LaidOut
import ByteRegex.Proofs.Machine.Lockstep
import ByteRegex.Proofs.Simulation.Single
import ByteRegex.Proofs.Syntax.Erasure

/-!
# Running erased expressions

The code of an expression without back-references runs in lockstep with the code of the same
expression without its groups. The two may stand at different addresses and cut a literal into
different pieces; they decide the same way at each choice, so they also nest equally deep.
-/

namespace ByteRegex.Machine

theorem Lock.zero (left right : Machine) (address other : Nat) : Lock left right 0 address other := by
  intro less none enough position first second _
  rw [Nat.le_zero.mp none]
  exact .faultLeft .outOfFuel _

/-- A search that has hit a limit does nothing more. -/
theorem run_of_halted {machine : Machine} (unlimited : machine.ceilings.steps = none)
    (fuel address position : Nat) {state : State} (halted : state.halted = true) :
    (∃ after, machine.run fuel address position state = .failed after ∧ after.Alike state) ∨
      ∃ reason, machine.run fuel address position state = .fault reason := by
  have ticked := State.Alike.tick unlimited state
  obtain _ | fuel := fuel
  · exact .inr ⟨.outOfFuel, rfl⟩
  · rw [run_succ, if_pos (ticked.halted.trans halted)]
    exact .inl ⟨_, rfl, ticked⟩

/-- A run that gets to an address and a position if a condition holds, in a state like the one it
started in and with no more fuel, and that fails there otherwise. -/
inductive Crosses (machine : Machine) (fuel stop reached : Nat) (condition : Bool) (state : State) :
    Outcome → Prop where
  | fault (reason : Fault) : Crosses machine fuel stop reached condition state (.fault reason)
  | failed {after : State} (alike : after.Alike state)
      (refused : condition = false ∨ state.halted = true) :
      Crosses machine fuel stop reached condition state (.failed after)
  | passed {after : State} {less : Nat} (alike : after.Alike state) (fewer : less ≤ fuel)
      (held : condition = true) :
      Crosses machine fuel stop reached condition state (machine.run less stop reached after)

section Literals

variable {machine : Machine} {fuel start next stop reached final position : Nat} {state : State}

theorem Crosses.mono {condition : Bool} {first : State} {outcome : Outcome}
    (crosses : machine.Crosses fuel stop reached condition first outcome)
    (alike : first.Alike state) {more : Nat} (enough : fuel ≤ more) :
    machine.Crosses more stop reached condition state outcome := by
  cases crosses with
  | fault reason => exact .fault reason
  | failed same refused => exact .failed (same.trans alike) (alike.halted ▸ refused)
  | passed same fewer held =>
      exact .passed (same.trans alike) (Nat.le_trans fewer enough) held

/-- An instruction in front that goes on or fails. -/
theorem Crosses.of_move (unlimited : machine.ceilings.steps = none) {instruction : Instruction}
    (read : machine.code.instruction? start = some (instruction, next)) {here rest : Bool}
    (moves : position ≤ machine.subject.size → ∀ registers,
      machine.move instruction next position registers = if here then .go next reached else .fail)
    (later : ∀ less after,
      machine.Crosses less stop final rest after (machine.run less next reached after)) :
    machine.Crosses fuel stop final (here && rest) state (machine.run fuel start position state) := by
  have ticked := State.Alike.tick unlimited state
  obtain _ | fuel := fuel
  · exact .fault .outOfFuel
  · rw [run_succ]
    by_cases halted : (state.tick machine.ceilings).halted = true
    · rw [if_pos halted]
      exact .failed ticked (.inr (ticked.halted ▸ halted))
    · rw [if_neg halted]
      by_cases outside : machine.subject.size < position
      · rw [if_pos outside]
        exact .fault .badPosition
      · rw [if_neg outside, read]
        dsimp only
        rw [moves (Nat.not_lt.mp outside)]
        cases here with
        | false => exact .failed ticked (.inl rfl)
        | true => exact (later fuel _).mono ticked (Nat.le_succ fuel)

/-- The code of a literal passes it exactly if the subject spells it. -/
theorem crosses_literal (unlimited : machine.ceilings.steps = none) {caseless : Bool}
    {bytes : List UInt8} (laid : LiteralAt machine.code caseless bytes start stop) (fuel : Nat)
    (position : Nat) (state : State) :
    machine.Crosses fuel stop (position + bytes.length)
      (spells machine.subject caseless position bytes) state
      (machine.run fuel start position state) := by
  induction laid generalizing fuel position state with
  | nil address => exact .passed (.refl state) (Nat.le_refl fuel) rfl
  | @single byte rest start next stop read later ih =>
      have spelled : spells machine.subject caseless position (byte :: rest) =
          ((ByteTest.ofLiteral caseless byte).holdsAt machine.subject position &&
            spells machine.subject caseless (position + 1) rest) := by
        rw [spells, holdsAt_ofLiteral]
      rw [spelled, List.length_cons, Nat.add_comm rest.length, ← Nat.add_assoc]
      exact .of_move unlimited read (fun _ _ => rfl) fun less after => ih less (position + 1) after
  | @text bytes rest start first next stop several short read held later ih =>
      rw [spells_append, List.length_append, ← Nat.add_assoc]
      refine .of_move unlimited read (fun inside registers => ?_) fun less after =>
        ih less (position + bytes.length) after
      have filled : bytes ≠ [] := List.ne_nil_of_length_pos (Nat.lt_of_lt_of_le (by decide) several)
      exact move_text filled held inside

end Literals

variable {left right : Machine}

theorem Lock.literal (alongside : Alongside left right) {caseless : Bool} {bytes : List UInt8}
    {fuel start stop origin further : Nat} (laid : LiteralAt left.code caseless bytes start stop)
    (laid' : LiteralAt right.code caseless bytes origin further)
    (lock : Lock left right fuel stop further) : Lock left right fuel start origin := by
  intro less fewer enough position first second alike
  have unlimited : right.ceilings.steps = none := alongside.ceilings ▸ alongside.unlimited
  have crosses := crosses_literal alongside.unlimited laid less position first
  have crosses' := crosses_literal unlimited laid' enough position second
  rw [← alongside.subject] at crosses'
  generalize left.run less start position first = outcome at crosses ⊢
  generalize right.run enough origin position second = outcome' at crosses' ⊢
  cases crosses with
  | fault reason => exact .faultLeft reason _
  | failed same refused =>
      cases crosses' with
      | fault reason => exact .faultRight _ reason
      | failed same' _ => exact .failed ((same.trans alike).trans same'.symm)
      | @passed _ rest same' _ held =>
          have halted := refused.resolve_left fun missed => nomatch missed.symm.trans held
          have halts := run_of_halted unlimited rest further (position + bytes.length)
            (same'.halted.trans (alike.halted.symm.trans halted))
          rcases halts with ⟨_, halts, last⟩ | ⟨reason, halts⟩
          · rw [halts]
            exact .failed ((same.trans alike).trans (last.trans same').symm)
          · rw [halts]
            exact .faultRight _ reason
  | @passed _ rest same least held =>
      cases crosses' with
      | fault reason => exact .faultRight _ reason
      | failed same' refused =>
          have halted := refused.resolve_left fun missed => nomatch missed.symm.trans held
          have halts := run_of_halted alongside.unlimited rest stop (position + bytes.length)
            (same.halted.trans (alike.halted.trans halted))
          rcases halts with ⟨_, halts, last⟩ | ⟨reason, halts⟩
          · rw [halts]
            exact .failed (((last.trans same).trans alike).trans same'.symm)
          · rw [halts]
            exact .faultLeft reason _
      | passed same' _ _ =>
          exact lock _ (Nat.le_trans least fewer) _ _ _ _ ((same.trans alike).trans same'.symm)

section Loops

variable {quantifier : Quantifier} {along : Nat → Nat → Prop} {next further : Nat}

theorem Twin.enterOr {exit exit' : Nat} (inside : along next further) (behind : along exit exit') :
    Twin along (quantifier.enterOr exit) next (quantifier.enterOr exit') further := by
  unfold Quantifier.enterOr
  split
  · exact .branchReverse inside behind
  · exact .branch inside behind

theorem Twin.againAt {head head' : Nat} (behind : along next further) (inside : along head head') :
    Twin along (quantifier.againAt head) next (quantifier.againAt head') further := by
  unfold Quantifier.againAt
  split
  · exact .branch behind inside
  · exact .branchReverse behind inside

/-- The same instruction in front, counted without the fuel that it takes. -/
theorem Lock.ahead (alongside : Alongside left right) {instruction other : Instruction}
    {fuel address origin : Nat}
    (read : left.code.instruction? address = some (instruction, next))
    (read' : right.code.instruction? origin = some (other, further))
    (twin : Twin (Lock left right fuel) instruction next other further) :
    Lock left right fuel address origin :=
  (Lock.of_twin alongside read read' twin).mono (Nat.le_succ fuel)

/-- Going round: what holds at the head of a loop with less fuel is there for the jump back. -/
theorem Lock.again {start origin exit exit' fuel : Nat} (behind : Lock left right fuel exit exit')
    (step : ∀ fuel, Lock left right fuel exit exit' → Lock left right fuel start origin →
      Lock left right (fuel + 1) start origin) : Lock left right fuel start origin := by
  induction fuel with
  | zero => exact .zero _ _ _ _
  | succ fuel ih =>
      have less := behind.mono (Nat.le_succ fuel)
      exact step fuel less (ih less)

/-- A loop stays in lockstep if its body does. -/
theorem Lock.loop (alongside : Alongside left right) {nullable : Bool}
    {register register' : Fin Capacity.counters} {entry head tail exit origin top bottom end' : Nat}
    (laid : LoopAt left.code quantifier nullable register entry head tail exit)
    (laid' : LoopAt right.code quantifier nullable register' origin top bottom end')
    (same : quantifier.needsCounter nullable = true → register = register')
    (body : ∀ fuel, Lock left right fuel tail bottom → Lock left right fuel head top) (fuel : Nat)
    (behind : Lock left right fuel exit end') : Lock left right fuel entry origin := by
  cases laid with
  | optional least most enter =>
      cases laid' with
      | optional least' most' enter' =>
          exact .ahead alongside enter enter' (.enterOr (body fuel behind) behind)
      | _ => exfalso; simp_all
  | star least most consumes enter back =>
      cases laid' with
      | star least' most' consumes' enter' back' =>
          refine .again behind fun fuel behind head => ?_
          have ended := Lock.ahead alongside back back' (.jump _ _ head)
          exact .of_twin alongside enter enter' (.enterOr (body fuel ended) behind)
      | _ => exfalso; simp_all
  | watchedStar least most watched enter increment stuck again =>
      obtain rfl := same (by simp [Quantifier.needsCounter, least, most, watched])
      cases laid' with
      | watchedStar least' most' watched' enter' increment' stuck' again' =>
          refine .again behind fun fuel behind head => ?_
          have back := Lock.ahead alongside again again' (.jump _ _ head)
          have ended := Lock.ahead alongside stuck stuck' (.jumpStuck _ back behind)
          have marked := Lock.ahead alongside increment increment'
            (.counterIncrement _ (body fuel ended))
          exact .of_twin alongside enter enter' (.enterOr marked behind)
      | _ => exfalso; simp_all
  | plus least most consumes again =>
      cases laid' with
      | plus least' most' consumes' again' =>
          refine .again behind fun fuel behind head => ?_
          exact body _ (.of_twin alongside again again' (.againAt behind head))
      | _ => exfalso; simp_all
  | watchedPlus least most watched increment stuck again =>
      obtain rfl := same (by simp [Quantifier.needsCounter, least, most, watched])
      cases laid' with
      | watchedPlus least' most' watched' increment' stuck' again' =>
          refine .again behind fun fuel behind head => ?_
          have back := Lock.ahead alongside again again' (.againAt behind head)
          have ended := Lock.ahead alongside stuck stuck' (.jumpStuck _ back behind)
          exact .of_twin alongside increment increment' (.counterIncrement _ (body fuel ended))
      | _ => exfalso; simp_all
  | atMost least bounded several reset enter increment below =>
      obtain rfl := same (by simp [Quantifier.needsCounter, least, bounded, several])
      cases laid' with
      | atMost least' bounded' several' reset' enter' increment' below' =>
          cases bounded.symm.trans bounded'
          refine .ahead alongside reset reset' (.counterReset _ (.again behind ?_))
          intro fuel behind start
          have ended := Lock.ahead alongside below below' (.jumpLess _ _ behind start)
          have marked := Lock.ahead alongside increment increment'
            (.counterIncrement _ (body fuel ended))
          exact .of_twin alongside enter enter' (.enterOr marked behind)
      | _ => exfalso; simp_all <;> omega
  | atLeast least most consumes reset increment below again =>
      obtain rfl := same (quantifier.needsCounter_of_counting nullable (.inl least))
      cases laid' with
      | atLeast least' most' consumes' reset' increment' below' again' =>
          refine .ahead alongside reset reset' (.counterReset _ (.again behind ?_))
          intro fuel behind start
          have decided := Lock.ahead alongside again again' (.againAt behind start)
          have ended := Lock.ahead alongside below below' (.jumpLess _ _ decided start)
          exact .of_twin alongside increment increment' (.counterIncrement _ (body fuel ended))
      | _ => exfalso; simp_all
  | watchedAtLeast least most watched reset increment below stuck again =>
      obtain rfl := same (quantifier.needsCounter_of_counting nullable (.inl least))
      cases laid' with
      | watchedAtLeast least' most' watched' reset' increment' below' stuck' again' =>
          refine .ahead alongside reset reset' (.counterReset _ (.again behind ?_))
          intro fuel behind start
          have back := Lock.ahead alongside again again' (.againAt behind start)
          have decided := Lock.ahead alongside stuck stuck' (.jumpStuck _ back behind)
          have ended := Lock.ahead alongside below below' (.jumpLess _ _ decided start)
          exact .of_twin alongside increment increment' (.counterIncrement _ (body fuel ended))
      | _ => exfalso; simp_all
  | exactly least most reset increment below =>
      obtain rfl := same (quantifier.needsCounter_of_counting nullable (.inr ⟨least, by simp [most]⟩))
      cases laid' with
      | exactly least' most' reset' increment' below' =>
          refine .ahead alongside reset reset' (.counterReset _ (.again behind ?_))
          intro fuel behind start
          have ended := Lock.ahead alongside below below' (.jumpLess _ _ behind start)
          exact .of_twin alongside increment increment' (.counterIncrement _ (body fuel ended))
      | _ => exfalso; simp_all
  | between least bounded differ reset increment below enough again =>
      obtain rfl := same
        (quantifier.needsCounter_of_counting nullable (.inr ⟨least, by simp [bounded]⟩))
      cases laid' with
      | between least' bounded' differ' reset' increment' below' enough' again' =>
          cases bounded.symm.trans bounded'
          refine .ahead alongside reset reset' (.counterReset _ (.again behind ?_))
          intro fuel behind start
          have back := Lock.ahead alongside again again' (.againAt behind start)
          have decided := Lock.ahead alongside enough enough' (.jumpAtLeast _ _ back behind)
          have ended := Lock.ahead alongside below below' (.jumpLess _ _ decided start)
          exact .of_twin alongside increment increment' (.counterIncrement _ (body fuel ended))
      | _ => exfalso; simp_all

end Loops

/-- The code of an expression and the code without its groups stay in lockstep as long as what
stands behind them does. -/
theorem Lock.of_laidOut (alongside : Alongside left right) {expr : Expr}
    (plain : expr.references = []) {start stop origin further : Nat}
    (laid : expr.LaidOut left.code start stop) (laid' : expr.erase.LaidOut right.code origin further)
    (fuel : Nat) (behind : Lock left right fuel stop further) :
    Lock left right fuel start origin := by
  induction expr generalizing start stop origin further fuel with
  | empty =>
      cases laid
      cases laid'
      exact behind
  | test single => exact .ahead alongside laid laid' (.test single behind)
  | literal caseless bytes => exact .literal alongside laid laid' behind
  | assertion condition => exact .ahead alongside laid laid' (.assertion condition behind)
  | backReference caseless group => cases plain
  | sequence first second ihFirst ihSecond =>
      obtain ⟨former, latter⟩ := List.append_eq_nil_iff.mp plain
      obtain ⟨_, before, after⟩ := laid
      obtain ⟨_, before', after'⟩ := laid'
      exact ihFirst former before before' fuel (ihSecond latter after after' fuel behind)
  | alternative first second ihFirst ihSecond =>
      obtain ⟨former, latter⟩ := List.append_eq_nil_iff.mp plain
      obtain ⟨_, _, _, choose, tried, leave, otherwise⟩ := laid
      obtain ⟨_, _, _, choose', tried', leave', otherwise'⟩ := laid'
      have joint := Lock.ahead alongside leave leave' (.jump _ _ behind)
      exact .ahead alongside choose choose' (.branch (ihFirst former tried tried' fuel joint)
        (ihSecond latter otherwise otherwise' fuel behind))
  | capture group body ih =>
      obtain ⟨_, _, _, opened, inside, closed⟩ := laid
      have tail := (Lock.closeGroup alongside closed behind).mono (Nat.le_succ fuel)
      have head := ih plain inside laid' fuel tail
      exact (Lock.openGroup alongside opened head).mono (Nat.le_succ fuel)
  | repetition quantifier single =>
      obtain ⟨_, read, tested⟩ := laid
      obtain ⟨_, read', tested'⟩ := laid'
      exact (Lock.repetition alongside read tested read' tested' behind).mono (Nat.le_succ fuel)
  | loop quantifier nullable counter body ih =>
      obtain ⟨register, _, _, named, around, inside⟩ := laid
      obtain ⟨register', _, _, named', around', inside'⟩ := laid'
      have same : quantifier.needsCounter nullable = true → register = register' :=
        fun counted => Fin.ext ((named counted).trans (named' counted).symm)
      exact .loop alongside around around' same (ih plain inside inside') fuel behind
  | atomic body ih =>
      obtain ⟨_, _, enter, inside, ended⟩ := laid
      obtain ⟨_, _, enter', inside', ended'⟩ := laid'
      have head := ih plain inside inside' fuel (.ahead alongside ended ended' (.subEnd _ _))
      exact .ahead alongside enter enter' (.atomic head behind)
  | look direction width body ih =>
      obtain ⟨_, _, enter, inside, ended⟩ := laid
      obtain ⟨_, _, enter', inside', ended'⟩ := laid'
      have head := ih plain inside inside' fuel (.ahead alongside ended ended' (.subEnd _ _))
      exact .ahead alongside enter enter' (.look direction _ head behind)

end ByteRegex.Machine
