import ByteRegex.Proofs.Machine.Consuming
import ByteRegex.Proofs.Search.Mirror
import ByteRegex.Proofs.Search.Windows
import ByteRegex.Proofs.Syntax.Unread

/-!
# Searches that have to consume

Whether a match has to consume something is left to the last instruction of a program. What runs
inside an atomic group or a lookaround never gets there, so it runs the same either way. At each
start the duty to consume therefore changes nothing unless the match there is empty, and then it
only ever finds a longer one or none.
-/

namespace ByteRegex

namespace Code

variable {code : Code} {groups : Nat} {region entry : Entry}

theorem Row.next_le_last {start stop : Nat} {front : List Entry} {last : Entry}
    (row : code.Row start (front ++ [last]) stop) : ∀ entry ∈ front, entry.next ≤ last.address := by
  induction front generalizing start with
  | nil => exact fun entry member => nomatch member
  | cons head rest ih =>
      intro entry member
      cases row with
      | cons read later =>
          rcases List.mem_cons.mp member with same | further
          · rw [same]
            exact (later.mem_bounds (List.mem_append_right _ (List.mem_singleton_self last))).1
          · exact ih later entry further

namespace WellFormed

variable (wellFormed : code.WellFormed groups)
include wellFormed

/-- Inside a region instruction follows instruction up to the one that ends it. -/
theorem contains_next (hosts : region ∈ code.entries) (member : entry ∈ code.entries)
    (inside : region.Contains entry.address) (goes : entry.instruction ≠ .subEnd) :
    region.Contains entry.next := by
  obtain ⟨encloses, after, target, ends, before⟩ := inside
  obtain ⟨last, among, final, begins, jumps⟩ := wellFormed.delimited region hosts encloses
  cases ends.symm.trans jumps
  have here := wellFormed.row.mem_bounds member
  have there := wellFormed.row.mem_bounds among
  rcases wellFormed.row.ordered member among with same | ahead | behind
  · exact absurd (same ▸ final) goes
  · exact ⟨encloses, by omega, last.next, ends, by omega⟩
  · omega

/-- The program does not end inside a region. -/
theorem contains_ne_succeed (hosts : region ∈ code.entries) (member : entry ∈ code.entries)
    (inside : region.Contains entry.address) : entry.instruction ≠ .succeed := by
  intro succeeds
  obtain ⟨encloses, _, target, ends, before⟩ := inside
  obtain ⟨final, among, finishes, _, jumps⟩ := wellFormed.delimited region hosts encloses
  cases ends.symm.trans jumps
  obtain ⟨front, last, all, lastSucceeds, others⟩ := wellFormed.ends
  have row := wellFormed.row
  rw [all] at row member among
  have same : entry = last := by
    rcases List.mem_append.mp member with early | late
    · exact absurd succeeds (others entry early)
    · exact List.mem_singleton.mp late
  have early : final ∈ front := by
    rcases List.mem_append.mp among with early | late
    · exact early
    · rw [List.mem_singleton.mp late, lastSucceeds] at finishes
      cases finishes
  have apart := row.next_le_last final early
  rw [← same] at apart
  omega

/-- What an instruction inside a region leads to is inside it as well. -/
theorem contains_leads {machine : Machine} (loaded : machine.code = code)
    (hosts : region ∈ code.entries) (member : entry ∈ code.entries)
    (inside : region.Contains entry.address) {position address : Nat} {registers : Registers}
    (goes : address ∈
      (machine.move entry.instruction entry.next position registers).addresses) :
    region.Contains address := by
  have going : entry.instruction ≠ .subEnd := by
    intro ends
    rw [ends] at goes
    cases goes
  have behind := wellFormed.contains_next hosts member inside going
  rcases Machine.addresses_move goes with same | jumps | ⟨repeats, test, found⟩
  · rw [same]
    exact behind
  · exact (wellFormed.crossing region hosts entry member address jumps).mp inside
  · obtain ⟨test', after, single⟩ :=
      Code.Orderly.single_of_repeats wellFormed.orderly member repeats
    have read := wellFormed.row.mem_read single
    rw [loaded] at found
    cases found.symm.trans read
    exact wellFormed.contains_next hosts single behind nofun

end WellFormed

end Code

namespace Machine

variable {machine : Machine} {groups : Nat} (wellFormed : machine.code.WellFormed groups)
include wellFormed

/-- A sub-program runs the same whether or not a match has to consume something. -/
theorem run_enclosed {region : Entry} (hosts : region ∈ machine.code.entries) (fuel : Nat)
    {address : Nat} (inside : region.Contains address)
    (listed : address ∈ machine.code.addresses ∨ address = machine.code.size) (position : Nat)
    (state : State) :
    machine.consuming.run fuel address position state =
      machine.run fuel address position state := by
  induction fuel generalizing address position state with
  | zero => rfl
  | succ fuel ih =>
      rw [consuming_run_succ, run_succ]
      rcases found : machine.code.instruction? address with _ | ⟨instruction, next⟩
      · rfl
      · have member := wellFormed.orderly.entry_of_address
          (Code.Orderly.address_of_read listed found) found
        have goes := wellFormed.contains_ne_succeed hosts member inside
        have leads := wellFormed.orderly.leads listed found position state.registers
        have stays : ∀ further ∈
            (machine.move instruction next position state.registers).addresses,
            region.Contains further :=
          fun further => wellFormed.contains_leads rfl hosts member inside
        dsimp only
        rw [consuming_move goes, perform_congr machine.ceilings _ fun further goes position =>
          funext fun state => ih (stays further goes) (leads further goes) position state]

/-- A run whose match has to consume something is the same run up to the first empty match. -/
theorem run_refuses (fuel : Nat) {address : Nat}
    (listed : address ∈ machine.code.addresses ∨ address = machine.code.size) (position : Nat)
    (state : State) :
    (machine.run fuel address position state).Refuses machine.start
      (machine.consuming.run fuel address position state) := by
  induction fuel generalizing address position state with
  | zero => exact .inl rfl
  | succ fuel ih =>
      rw [consuming_run_succ, run_succ]
      split
      · exact .inl rfl
      · split
        · exact .inl rfl
        · rcases found : machine.code.instruction? address with _ | ⟨instruction, next⟩
          · exact .inl rfl
          · dsimp only
            by_cases ends : instruction = .succeed
            · subst ends
              exact succeed_refuses machine _ _ _ next position _ _
            · rw [consuming_move ends]
              have member := wellFormed.orderly.entry_of_address
                (Code.Orderly.address_of_read listed found) found
              have leads := wellFormed.orderly.leads listed found position state.registers
              refine perform_refuses _
                (fun further goes position state => ih (leads further goes) position state) ?_ _
              intro further begins position
              obtain ⟨same, encloses⟩ := Move.bodies_move begins
              subst same
              have hosts : instruction.encloses = true := by
                rcases encloses with ⟨look, width, target, rfl⟩ | ⟨target, rfl⟩ <;> rfl
              obtain ⟨last, among, _, after, jumps⟩ := wellFormed.delimited _ member hosts
              have ahead := wellFormed.row.mem_bounds among
              have inside : Entry.Contains ⟨address, instruction, further⟩ further :=
                ⟨hosts, Nat.le_refl _, last.next, jumps, by dsimp only at after; omega⟩
              exact funext fun state => run_enclosed wellFormed member fuel inside
                (wellFormed.orderly.next_address member) position state

theorem attempt_refuses (fuel start : Nat) (state : State) :
    (machine.attempt fuel start state).Refuses start
      (machine.consuming.attempt fuel start state) := by
  have first : 0 ∈ machine.code.addresses ∨ 0 = machine.code.size := by
    rw [wellFormed.walk]
    exact wellFormed.row.start_mem.symm
  have attempted : { machine with start }.code.WellFormed groups := wellFormed
  exact run_refuses attempted fuel first start state.rearmed

end Machine

namespace Program

variable {program other : Program} {subject : Array UInt8} {start : Nat} {limits : Limits}

theorem starts_at (inside : start ≤ subject.size) (direction : Direction) :
    (Window.mk start start direction).starts subject = [start] := by
  have forward := Window.starts_single inside
  cases direction with
  | forward => exact forward
  | backward => exact congrArg List.reverse forward

/-- A search at one start is one attempt. -/
theorem search_at (program : Program) (inside : start ≤ subject.size) (direction : Direction)
    (limits : Limits) :
    program.search subject ⟨start, start, direction⟩ limits =
      match (program.machine subject limits.ceilings).attempt (program.code.fuel subject.size)
          start .initial with
      | .matched state => some (program.captures start state)
      | _ => none := by
  rw [search, report, starts_at inside direction]
  simp only [scan]
  cases (program.machine subject limits.ceilings).attempt (program.code.fuel subject.size) start
      .initial with
  | matched state => rfl
  | failed state =>
      dsimp only
      by_cases halted : state.halted = true
      · rw [if_pos halted]
      · rw [if_neg halted]
  | fault reason => rfl

theorem get?_captures (start : Nat) (state : Machine.State) :
    (program.captures start state).get? 0 = some ⟨start, state.stop⟩ := by
  simp [captures, Captures.get?]

/-- With the duty to consume a search at one start finds the same as without, unless that is an
empty match. -/
theorem search_refuses {groups : Nat} (wellFormed : program.code.WellFormed groups)
    (code : other.code = program.code) (same : other.groups = program.groups)
    (strict : other.flags.notEmpty = true) (subject : Array UInt8) (start : Nat)
    (direction : Direction) (limits : Limits) :
    other.search subject ⟨start, start, direction⟩ limits =
        program.search subject ⟨start, start, direction⟩ limits ∨
      ∃ empty, program.search subject ⟨start, start, direction⟩ limits = some empty ∧
        empty.get? 0 = some ⟨start, start⟩ := by
  by_cases inside : start ≤ subject.size
  · have machines : other.machine subject limits.ceilings =
        (program.machine subject limits.ceilings).consuming := by
      simp only [machine, Machine.consuming, code, strict]
    have loaded : (program.machine subject limits.ceilings).code.WellFormed groups := wellFormed
    rw [search_at other inside, search_at program inside, machines, code]
    rcases Machine.attempt_refuses loaded (program.code.fuel subject.size) start .initial with
      equal | ⟨state, matched, stops⟩
    · rw [equal]
      refine .inl ?_
      cases (program.machine subject limits.ceilings).attempt _ start .initial with
      | matched state => simp only [captures, same]
      | failed state => rfl
      | fault reason => rfl
    · rw [matched]
      refine .inr ⟨_, rfl, ?_⟩
      rw [get?_captures, stops]
  · have none : (Window.mk start start direction).starts subject = [] := by
      refine List.eq_nil_iff_forall_not_mem.mpr fun other member => ?_
      obtain ⟨after, _, before⟩ := Window.mem_starts.mp member
      exact inside (Nat.le_trans after before)
    refine .inl ?_
    simp only [search, report, none, scan]

/-- What a program that has to consume something finds is not empty. -/
theorem Implements.search_consumes {expr : Expr} (implements : program.Implements expr)
    (strict : program.flags.notEmpty = true) {direction : Direction} {captures : Captures}
    (found : program.search subject ⟨start, start, direction⟩ limits = some captures) :
    ∃ stop, start < stop ∧ captures.get? 0 = some ⟨start, stop⟩ := by
  rw [implements.search_eq, strict] at found
  split at found
  · obtain ⟨origin, member, matched⟩ := List.exists_of_findSome?_eq_some found
    obtain ⟨after, before, inside⟩ := Window.mem_starts.mp member
    obtain rfl : origin = start := Nat.le_antisymm before after
    obtain ⟨result, reached, rfl⟩ := Option.map_eq_some_iff.mp matched
    have consumes : ¬ result.1 = origin := by
      simpa using List.find?_some reached
    obtain ⟨ordered, _, _⟩ :=
      expr.results_within inside (.unset _) (List.mem_of_find?_eq_some reached)
    refine ⟨result.1, by omega, ?_⟩
    exact (Slots.get?_record result.2 0 origin result.1 0).trans (if_pos ⟨rfl, by decide⟩)
  · cases found

/-- The duty to consume is not compiled into the code. -/
theorem compile_notEmpty (pattern : List UInt8) (flags : Flags) :
    compile pattern { flags with notEmpty := true } =
      (compile pattern flags).map fun program =>
        { program with flags := { flags with notEmpty := true } } := by
  have alike : flags.Alike { flags with notEmpty := true } := ⟨rfl, rfl, rfl⟩
  simp only [compile, assemble, ← parse_of_alike alike rfl pattern]
  generalize parse pattern flags = parsed
  cases parsed with
  | error error => rfl
  | ok result =>
      dsimp only
      generalize result.1.emit CodeBuffer.empty = emitted
      cases emitted <;> rfl

/-- A pattern compiles to the same code whether or not its matches have to consume something. At
each start and under the same limits the one program finds nothing where the other finds nothing,
the same where the other finds something that is not empty, and otherwise something longer than the
empty match or nothing. -/
theorem search_notEmpty (pattern : List UInt8) (flags : Flags) :
    (∃ error, compile pattern flags = .error error ∧
      compile pattern { flags with notEmpty := true } = .error error) ∨
    ∃ program other, compile pattern flags = .ok program ∧
      compile pattern { flags with notEmpty := true } = .ok other ∧
      other.code = program.code ∧ other.groups = program.groups ∧
      ∀ (subject : Array UInt8) (start : Nat) (direction : Direction) (limits : Limits),
        (program.search subject ⟨start, start, direction⟩ limits = none →
          other.search subject ⟨start, start, direction⟩ limits = none) ∧
        (∀ captures span, program.search subject ⟨start, start, direction⟩ limits = some captures →
          captures.get? 0 = some span → span.start < span.stop →
            other.search subject ⟨start, start, direction⟩ limits = some captures) ∧
        ∀ captures, other.search subject ⟨start, start, direction⟩ limits = some captures →
          (∃ stop, start < stop ∧ captures.get? 0 = some ⟨start, stop⟩) ∧
            (program.search subject ⟨start, start, direction⟩ limits = some captures ∨
              ∃ empty, program.search subject ⟨start, start, direction⟩ limits = some empty ∧
                empty.get? 0 = some ⟨start, start⟩) := by
  have strictly := compile_notEmpty pattern flags
  cases compiled : compile pattern flags with
  | error error =>
      rw [compiled] at strictly
      exact .inl ⟨error, rfl, strictly⟩
  | ok program =>
      rw [compiled] at strictly
      obtain ⟨other, known, code, same, strict⟩ : ∃ other,
          compile pattern { flags with notEmpty := true } = .ok other ∧
            other.code = program.code ∧ other.groups = program.groups ∧
            other.flags.notEmpty = true := ⟨_, strictly, rfl, rfl, rfl⟩
      refine .inr ⟨program, other, rfl, known, code, same, fun subject start direction limits => ?_⟩
      obtain ⟨expr, _, _, implements⟩ := implements_of_compile known
      have refuses := search_refuses (wellFormed_of_compile compiled) code same strict subject start
        direction limits
      refine ⟨fun nothing => ?_, fun captures span found whole consumes => ?_,
        fun captures found => ⟨implements.search_consumes strict found, ?_⟩⟩
      · rcases refuses with equal | ⟨empty, found, _⟩
        · exact equal.trans nothing
        · cases nothing.symm.trans found
      · rcases refuses with equal | ⟨empty, matched, only⟩
        · exact equal.trans found
        · cases matched.symm.trans found
          cases only.symm.trans whole
          exact absurd consumes (Nat.lt_irrefl start)
      · rcases refuses with equal | ⟨empty, matched, only⟩
        · exact .inl (equal.symm.trans found)
        · exact .inr ⟨empty, matched, only⟩

/-- A lazy repeat stops at once, unless it has to consume something. -/
theorem search_notEmpty_lazy_repeat :
    ∃ program other empty captures, compile "(a|(?=b))*?".toUTF8.toList .default = .ok program ∧
      compile "(a|(?=b))*?".toUTF8.toList { Flags.default with notEmpty := true } = .ok other ∧
      other.code = program.code ∧
      program.search #[97, 98] ⟨0, 0, .forward⟩ .default = some empty ∧
      empty.get? 0 = some ⟨0, 0⟩ ∧
      other.search #[97, 98] ⟨0, 0, .forward⟩ .default = some captures ∧
      ∃ stop, 0 < stop ∧ captures.get? 0 = some ⟨0, stop⟩ := by
  have strictly : compile "(a|(?=b))*?".toUTF8.toList { Flags.default with notEmpty := true } =
      .ok ⟨#[26, 33, 0, 36, 0, 0, 20, 1, 0, 25, 6, 0, 3, 97, 0, 24, 7, 0, 30, 4, 0, 3, 98, 0, 1, 21,
        1, 0, 39, 0, 0, 3, 0, 24, 220, 255, 0], 1, { Flags.default with notEmpty := true }⟩ :=
    compile_of_toOption (by decide +kernel)
  have found : Program.search ⟨#[26, 33, 0, 36, 0, 0, 20, 1, 0, 25, 6, 0, 3, 97, 0, 24, 7, 0, 30, 4,
      0, 3, 98, 0, 1, 21, 1, 0, 39, 0, 0, 3, 0, 24, 220, 255, 0], 1,
      { Flags.default with notEmpty := true }⟩ #[97, 98] ⟨0, 0, .forward⟩ .default =
        some ⟨#v[some ⟨0, 1⟩, some ⟨0, 1⟩, none, none, none, none, none, none, none, none]⟩ := by
    decide +kernel
  rcases search_notEmpty "(a|(?=b))*?".toUTF8.toList .default with
    ⟨error, _, failed⟩ | ⟨program, other, first, second, same, groups, finds⟩
  · cases strictly.symm.trans failed
  · cases strictly.symm.trans second
    have ⟨_, _, longer⟩ := finds #[97, 98] 0 .forward .default
    obtain ⟨consumes, alike | ⟨empty, matched, only⟩⟩ := longer _ found
    · -- Without the duty the repeat would have to be empty.
      have compiled : (compile "(a|(?=b))*?".toUTF8.toList .default).toOption.bind
          (fun program => (program.search #[97, 98] ⟨0, 0, .forward⟩ .default).bind (·.get? 0)) =
            some ⟨0, 0⟩ := by
        decide +kernel
      rw [first] at compiled
      simp [Except.toOption, alike, Captures.get?] at compiled
    · exact ⟨program, _, empty, _, first, second, same, matched, only, found, consumes⟩

end Program

end ByteRegex
