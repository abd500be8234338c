import ByteRegex.Proofs.Search.Safety
import ByteRegex.Proofs.Simulation.Erasure

/-!
# Capturing

Whether a pattern's groups capture has no influence on where it matches. A search with the groups
and one without them make the same attempts in lockstep: they nest equally deep, so they are halted
together by a ceiling on depth, and they stop at the same positions. Only a ceiling on steps could
tell them apart, since opening and closing a group are instructions.
-/

namespace ByteRegex

open Machine (State Lock)

/-- Reports of searches that went the same way: both found nothing, or both stopped in like states
behind the same start. -/
inductive Report.Matched (capturing plain : Program) (left right : Report) : Prop where
  | nothing (first : left.outcome = .ok none) (second : right.outcome = .ok none)
  | found (start : Nat) {after after' : State} (alike : after.Alike after')
      (first : left.outcome = .ok (some (capturing.captures start after)))
      (second : right.outcome = .ok (some (plain.captures start after')))

namespace Program

variable {capturing plain : Program} {left right : Machine} {fuel enough : Nat}
  {state state' : State}

/-- Searches whose attempts are in lockstep go the same way, unless one of them faults. -/
theorem scan_matched
    (lock : ∀ start, Lock { left with start } { right with start } fuel 0 0) {starts : List Nat}
    (alike : state.Alike state') {found found' : Option Captures}
    (ended : (capturing.scan left fuel starts state).outcome = .ok found)
    (ended' : (plain.scan right enough starts state').outcome = .ok found') :
    (capturing.scan left fuel starts state).peak = (plain.scan right enough starts state').peak ∧
    (capturing.scan left fuel starts state).halted =
      (plain.scan right enough starts state').halted ∧
    Report.Matched capturing plain (capturing.scan left fuel starts state)
      (plain.scan right enough starts state') := by
  induction starts generalizing state state' with
  | nil => exact ⟨alike.peak, alike.halted, .nothing rfl rfl⟩
  | cons start rest ih =>
      have agrees : (left.attempt fuel start state).Agrees (right.attempt enough start state') :=
        lock start fuel (Nat.le_refl fuel) enough start _ _ alike.rearmed
      simp only [scan] at ended ended' ⊢
      generalize left.attempt fuel start state = outcome at agrees ended ⊢
      generalize right.attempt enough start state' = outcome' at agrees ended' ⊢
      cases agrees with
      | matched same => exact ⟨same.peak, same.halted, .found start same rfl rfl⟩
      | failed same =>
          dsimp only at ended ended' ⊢
          rw [same.halted] at ended ⊢
          split at ended'
          · rename_i halted
            simp only [halted, if_true]
            exact ⟨same.peak, trivial, .nothing rfl rfl⟩
          · rename_i running
            simp only [running] at ended ⊢
            exact ih same ended ended'
      | faultLeft reason => cases ended
      | faultRight _ reason => cases ended'

theorem get?_captures_zero (program : Program) (start : Nat) (after : State) :
    (program.captures start after).get? 0 = some ⟨start, after.stop⟩ := rfl

/-- Groups that a program does not have are not set. -/
theorem get?_captures_of_lt {program : Program} {start group : Nat} {after : State}
    (beyond : program.groups < group) : (program.captures start after).get? group = none := by
  unfold Captures.get? captures
  by_cases inside : group < Capacity.slots
  · rw [Vector.getElem?_eq_getElem inside, Vector.getElem_ofFn]
    have named : ¬ group = 0 := Nat.ne_of_gt (Nat.zero_lt_of_lt beyond)
    simp only [named, if_false, Nat.not_le.mpr beyond, Option.join_some]
  · rw [Vector.getElem?_eq_none (Nat.not_lt.mp inside)]
    rfl

/-- A program and the one of its pattern without groups run in lockstep. -/
theorem Implements.lock {expr : Expr} (implements : capturing.Implements expr)
    (erased : plain.Implements expr.erase) (none : plain.groups = 0)
    (alongside : left.Alongside right) (loaded : left.code = capturing.code)
    (loaded' : right.code = plain.code) : Lock left right fuel 0 0 := by
  have plainly : expr.references = [] := by
    rw [← Expr.erase_references, List.eq_nil_iff_forall_not_mem]
    intro group member
    have bounds := erased.numbered.references group member
    omega
  obtain ⟨stop, laid, last⟩ := implements.laidOut
  obtain ⟨stop', laid', last'⟩ := erased.laidOut
  rw [← loaded] at laid last
  rw [← loaded'] at laid' last'
  exact .of_laidOut alongside plainly laid laid' fuel
    (.ahead alongside last last' (.succeed _ _))

/-- The same pattern compiled with and without capturing. -/
theorem report_matched {pattern : List UInt8} {flags : Flags}
    (compiled : compile pattern { flags with capturing := true } = .ok capturing)
    (compiled' : compile pattern { flags with capturing := false } = .ok plain)
    (subject : Array UInt8) (window : Window) {ceilings : Machine.Ceilings}
    (unlimited : ceilings.steps = none) :
    plain.groups = 0 ∧
    (capturing.report subject window ceilings).peak =
      (plain.report subject window ceilings).peak ∧
    (capturing.report subject window ceilings).halted =
      (plain.report subject window ceilings).halted ∧
    Report.Matched capturing plain (capturing.report subject window ceilings)
      (plain.report subject window ceilings) := by
  obtain ⟨expr, parsed, kept, implements⟩ := implements_of_compile compiled
  obtain ⟨expr', parsed', kept', implements'⟩ := implements_of_compile compiled'
  obtain ⟨rfl, none⟩ := erase_of_parse parsed parsed'
  have alongside : ∀ start, Machine.Alongside
      { capturing.machine subject ceilings with start } { plain.machine subject ceilings with start } :=
    fun start => {
      subject := rfl
      notEmpty := by simp only [machine, kept, kept']
      start := rfl
      ceilings := rfl
      unlimited := unlimited }
  obtain ⟨_, ended⟩ := report_ends (.inr ⟨_, _, compiled⟩) subject window ceilings
  obtain ⟨_, ended'⟩ := report_ends (.inr ⟨_, _, compiled'⟩) subject window ceilings
  exact ⟨none, scan_matched (fun start => implements.lock implements' none (alongside start) rfl rfl)
    (.refl .initial) ended ended'⟩

/-- Capturing never influences matching, as long as steps are not limited. -/
theorem search_capturing {pattern : List UInt8} {flags : Flags}
    (compiled : compile pattern { flags with capturing := true } = .ok capturing)
    (compiled' : compile pattern { flags with capturing := false } = .ok plain)
    (subject : Array UInt8) (window : Window) (depth : Nat) :
    (capturing.search subject window ⟨depth, none⟩ = none ∧
        plain.search subject window ⟨depth, none⟩ = none) ∨
      ∃ captures captures' span,
        capturing.search subject window ⟨depth, none⟩ = some captures ∧
        plain.search subject window ⟨depth, none⟩ = some captures' ∧
        captures.get? 0 = some span ∧ captures'.get? 0 = some span ∧
        ∀ group, group ≠ 0 → captures'.get? group = none := by
  have unlimited : (Limits.ceilings ⟨depth, none⟩).steps = none := rfl
  obtain ⟨groups, _, _, matched⟩ := report_matched compiled compiled' subject window unlimited
  cases matched with
  | nothing first second =>
      left
      simp only [search, first, second, and_self]
  | @found start after after' alike first second =>
      right
      refine ⟨capturing.captures start after, plain.captures start after', ⟨start, after.stop⟩,
        by simp only [search, first], by simp only [search, second], get?_captures_zero ..,
        ?_, fun group whole => ?_⟩
      · rw [get?_captures_zero, alike.stop]
      · exact get?_captures_of_lt (groups ▸ Nat.pos_of_ne_zero whole)

theorem search_capturing_nested_groups :
    ∃ capturing plain captures,
      compile "((a)|(?=(b))b)*+".toUTF8.toList { Flags.none with capturing := true } = .ok capturing ∧
      compile "((a)|(?=(b))b)*+".toUTF8.toList { Flags.none with capturing := false } = .ok plain ∧
      capturing.search #[97, 98, 99] ⟨0, 3, .forward⟩ ⟨6, none⟩ = some captures ∧
      captures.get? 0 = some ⟨0, 2⟩ ∧ captures.get? 3 = some ⟨1, 2⟩ ∧
      ∃ captures', plain.search #[97, 98, 99] ⟨0, 3, .forward⟩ ⟨6, none⟩ = some captures' ∧
        captures'.get? 0 = some ⟨0, 2⟩ ∧ captures'.get? 3 = none := by
  have compiled : compile "((a)|(?=(b))b)*+".toUTF8.toList { Flags.none with capturing := true } =
      .ok ⟨#[34, 44, 0, 25, 40, 0, 20, 1, 0, 25, 12, 0, 20, 2, 0, 3, 97, 0, 21, 2, 0, 24, 16, 0, 30,
        10, 0, 20, 3, 0, 3, 98, 0, 21, 3, 0, 1, 3, 98, 0, 21, 1, 0, 24, 213, 255, 1, 0], 3,
        { Flags.none with capturing := true }⟩ :=
    compile_of_toOption (by decide +kernel)
  have compiled' : compile "((a)|(?=(b))b)*+".toUTF8.toList { Flags.none with capturing := false } =
      .ok ⟨#[34, 26, 0, 25, 22, 0, 25, 6, 0, 3, 97, 0, 24, 10, 0, 30, 4, 0, 3, 98, 0, 1, 3, 98, 0, 24,
        231, 255, 1, 0], 0, { Flags.none with capturing := false }⟩ :=
    compile_of_toOption (by decide +kernel)
  have found : Program.search ⟨#[34, 44, 0, 25, 40, 0, 20, 1, 0, 25, 12, 0, 20, 2, 0, 3, 97, 0, 21, 2,
      0, 24, 16, 0, 30, 10, 0, 20, 3, 0, 3, 98, 0, 21, 3, 0, 1, 3, 98, 0, 21, 1, 0, 24, 213, 255, 1,
      0], 3, { Flags.none with capturing := true }⟩ #[97, 98, 99] ⟨0, 3, .forward⟩ ⟨6, none⟩ =
      some ⟨#v[some ⟨0, 2⟩, some ⟨1, 2⟩, some ⟨0, 1⟩, some ⟨1, 2⟩, none, none, none, none, none,
        none]⟩ := by decide +kernel
  rcases search_capturing compiled compiled' #[97, 98, 99] ⟨0, 3, .forward⟩ 6 with
    ⟨nothing, _⟩ | ⟨captures, captures', span, first, second, whole, whole', unset⟩
  · cases nothing.symm.trans found
  · cases first.symm.trans found
    cases whole
    exact ⟨_, _, _, compiled, compiled', found, rfl, rfl, captures', second, whole',
      unset 3 (by decide)⟩

end Program

end ByteRegex
