import ByteRegex.Proofs.Assembly.Edits
import ByteRegex.Proofs.Assembly.Mirror
import ByteRegex.Proofs.Search.Correctness
import ByteRegex.Proofs.Search.Safety
import ByteRegex.Proofs.Syntax.Mirror

/-!
# Mirrored searches

A machine learns about its subject only what its instructions see of it. So two machines whose codes
mirror each other on their subjects make the same moves all the way, with the same registers and
after the same number of steps, and limits of any kind stop them at the same point.
-/

namespace ByteRegex

namespace Machine

theorem perform_congr (ceilings : Ceilings) {first second : Resume} (move : Move)
    (same : ∀ address ∈ move.addresses, ∀ position,
      first address position = second address position) (state : State) :
    move.perform ceilings first state = move.perform ceilings second state := by
  induction move generalizing state with
  | fault | fail | accept => rfl
  | go address position | assign registers address position =>
      simp only [Move.perform, same address (List.mem_singleton_self _)]
  | branch first second position =>
      simp [Move.perform, Move.addresses] at same ⊢
      simp only [same]
  | choice address position otherwise ih =>
      have later := fun state => ih (fun further member =>
        same further (List.mem_cons_of_mem _ member)) state
      simp only [Move.perform, same address (List.mem_cons_self ..), later]
  | atomic address target position =>
      simp [Move.perform, Move.addresses] at same ⊢
      simp only [same]
  | look direction width address target position =>
      simp [Move.perform, Move.addresses] at same ⊢
      simp only [funext same.1, same.2]

/-- Machines whose codes mirror each other on their subjects and that have the rest in common. -/
structure Mirrored (left right : Machine) : Prop where
  level : left.subject.size = right.subject.size
  notEmpty : left.notEmpty = right.notEmpty
  start : left.start = right.start
  ceilings : left.ceilings = right.ceilings
  orderly : left.code.Orderly
  codes : left.code.Mirrors right.code left.subject right.subject

namespace Mirrored

variable {left right : Machine} (mirrored : Mirrored left right)
include mirrored

theorem repeatTestMove_eq {test other : ByteTest}
    (mirrors : test.Mirrors left.subject right.subject other) (greed : Greed) (least : Nat)
    (most : Option Nat) (after position : Nat) :
    left.repeatTestMove greed least most test after position =
      right.repeatTestMove greed least most other after position := by
  have same : test.holdsAt left.subject = other.holdsAt right.subject := funext mirrors.holds
  simp only [repeatTestMove, mirrored.level, same]

/-- Mirrored instructions make the same move wherever they are met. -/
theorem move_eq {entry : Entry} (member : entry ∈ left.code.entries) {other : Instruction}
    (mirrors : entry.instruction.Mirrors left.code right.code left.subject right.subject other)
    {position : Nat} (inside : position ≤ left.subject.size) (registers : Registers) :
    left.move entry.instruction entry.next position registers =
      right.move other entry.next position registers := by
  obtain ⟨address, instruction, next⟩ := entry
  dsimp only at mirrors ⊢
  cases mirrors with
  | test mirrors => simp only [move, mirrors.holds]
  | text agrees => simp only [move, agrees position inside]
  | assertion mirrors => simp only [move, mirrors position]
  | backReference group folded =>
      simp only [move, repeatGroupMove, folded.agree, mirrored.level]
  | same blind =>
      cases other with
      | test | text | assertion | backReference => cases blind
      | succeed => simp only [move, mirrored.notEmpty, mirrored.start]
      | repetition greed least most =>
          obtain ⟨test, behind, single⟩ := mirrored.orderly.single_of_repeats member rfl
          obtain ⟨other, read', mirrors⟩ := mirrored.codes.reads _ single
          have read := mirrored.orderly.row.mem_read single
          dsimp only at read read' mirrors
          cases mirrors with
          | same blind => cases blind
          | test mirrors =>
              simp only [move, read, read']
              exact mirrored.repeatTestMove_eq mirrors greed least most behind position
      | _ => rfl

/-- From any instruction on, and from the end of the code on, the runs are the same. -/
theorem run_eq (fuel : Nat) {address : Nat}
    (listed : address ∈ left.code.addresses ∨ address = left.code.size) (position : Nat)
    (state : State) : left.run fuel address position state = right.run fuel address position state := by
  induction fuel generalizing address position state with
  | zero => rfl
  | succ fuel ih =>
      rw [run_succ, run_succ, ← mirrored.ceilings, ← mirrored.level]
      by_cases outside : left.subject.size < position
      · simp only [outside, if_true]
      · rcases found : left.code.instruction? address with _ | ⟨instruction, next⟩
        · have nothing : right.code.instruction? address = none := by
            rcases listed with among | ends
            · rw [mirrored.orderly.walk] at among
              obtain ⟨entry, member, same⟩ := List.mem_map.mp among
              have read := mirrored.orderly.row.mem_read member
              rw [same, found] at read
              cases read
            · rw [ends, mirrored.codes.size, Code.instruction?, Code.opcode?, Array.getElem?_size]
              rfl
          simp only [nothing]
        · have member := mirrored.orderly.entry_of_address
            (Code.Orderly.address_of_read listed found) found
          obtain ⟨other, found', mirrors⟩ := mirrored.codes.reads _ member
          have moves := mirrored.move_eq member mirrors (Nat.not_lt.mp outside) state.registers
          have leads := mirrored.orderly.leads listed found position state.registers
          dsimp only at found' moves
          have goes := perform_congr left.ceilings _
            (fun further goes position => funext (ih (leads further goes) position))
          simp only [found', ← moves, goes]

theorem attempt_eq (fuel start : Nat) (state : State) :
    left.attempt fuel start state = right.attempt fuel start state := by
  have attempted : Mirrored { left with start } { right with start } :=
    ⟨mirrored.level, mirrored.notEmpty, rfl, mirrored.ceilings, mirrored.orderly, mirrored.codes⟩
  have first : 0 ∈ left.code.addresses ∨ 0 = left.code.size := by
    rw [mirrored.orderly.walk]
    exact mirrored.orderly.row.start_mem.symm
  exact attempted.run_eq fuel first start state.rearmed

end Mirrored

end Machine

namespace Program

variable {program other : Program}

theorem scan_eq_of_mirrored {left right : Machine} (mirrored : left.Mirrored right)
    (groups : program.groups = other.groups) (fuel : Nat) (starts : List Nat)
    (state : Machine.State) :
    program.scan left fuel starts state = other.scan right fuel starts state := by
  have captures : program.captures = other.captures := by
    funext start state
    simp only [Program.captures, groups]
  induction starts generalizing state with
  | nil => rfl
  | cons start rest ih => simp only [scan, mirrored.attempt_eq, captures, ih]

/-- More fuel than a report takes makes no difference to it. -/
theorem scan_eq_report {pattern : List UInt8} {flags : Flags}
    (compiled : compile pattern flags = .ok program) (subject : Array UInt8) (window : Window)
    (ceilings : Machine.Ceilings) {fuel : Nat} (enough : program.code.fuel subject.size ≤ fuel) :
    program.scan (program.machine subject ceilings) fuel (window.starts subject) .initial =
      program.report subject window ceilings := by
  obtain ⟨found, ended⟩ := report_ends (.inr ⟨_, _, compiled⟩) subject window ceilings
  obtain ⟨extra, rfl⟩ := Nat.exists_eq_add_of_le enough
  apply scan_prolongs extra
  intro spent
  cases ended.symm.trans spent

/-- Programs whose codes mirror each other on two subjects find the same in them. -/
theorem search_eq_of_mirrors {pattern pattern' : List UInt8} {flags flags' : Flags}
    (compiled : compile pattern flags = .ok program)
    (compiled' : compile pattern' flags' = .ok other) (groups : program.groups = other.groups)
    (notEmpty : program.flags.notEmpty = other.flags.notEmpty) {left right : Array UInt8}
    (level : left.size = right.size) (codes : program.code.Mirrors other.code left right)
    (window : Window) (limits : Limits) :
    program.search left window limits = other.search right window limits := by
  have mirrored : (program.machine left limits.ceilings).Mirrored
      (other.machine right limits.ceilings) :=
    ⟨level, notEmpty, rfl, rfl, orderly_of_compile (.inr ⟨_, _, compiled⟩), codes⟩
  have starts : window.starts left = window.starts right := by simp only [Window.starts, level]
  -- The codes may be given different amounts of fuel, but together that is enough for both.
  have same : program.report left window limits.ceilings =
      other.report right window limits.ceilings :=
    calc program.report left window limits.ceilings
        = program.scan (program.machine left limits.ceilings)
            (program.code.fuel left.size + other.code.fuel right.size) (window.starts left)
            .initial := (scan_eq_report compiled left window _ (Nat.le_add_right _ _)).symm
      _ = other.scan (other.machine right limits.ceilings)
            (program.code.fuel left.size + other.code.fuel right.size) (window.starts right)
            .initial := by rw [scan_eq_of_mirrored mirrored groups, starts]
      _ = other.report right window limits.ceilings :=
          scan_eq_report compiled' right window _ (Nat.le_add_left _ _)
  simp only [search, same]

variable {left right : Array UInt8} {related : Flags → Flags → Prop} {pattern : List UInt8}
  {flags flags' : Flags}

/-- Under related flags a pattern compiles to programs with mirrored codes, or fails alike. -/
theorem compile_both (unseen : Flags.Unseen left right related)
    (keeps : flags.verbatim = false → ∀ token ∈ tokens pattern, token.Keeps related)
    (same : related flags flags') :
    Both (fun program other => program.groups = other.groups ∧
        program.code.Mirrors other.code left right)
      (compile pattern flags) (compile pattern flags') := by
  have level := (unseen.folded same).size
  have parsed := parse_both unseen keeps same
  have fate := compile_both_of_level (parsed.mono fun _ _ mirrors => mirrors.1.emit_eq)
  refine fate.attach.mono fun program other ⟨compiled, compiled', _⟩ => ?_
  obtain ⟨expr, lines, read, _, layout, whole⟩ := assembles_of_compile compiled
  obtain ⟨expr', lines', read', _, layout', whole'⟩ := assembles_of_compile compiled'
  rw [read, read'] at parsed
  cases parsed with
  | ok mirrors =>
      have ending : List.Forall₂ (Line.Mirrors left right)
          (lines ++ [.plain .succeed []]) (lines' ++ [.plain .succeed []]) :=
        List.rel_append (mirrors.1.layout layout layout') (.cons (.same rfl rfl) .nil)
      have orderly := orderly_of_compile (.inr ⟨_, _, compiled⟩)
      exact ⟨mirrors.2, .of_lines ending whole whole' level orderly.row⟩

/-- Programs of a pattern under related flags find the same in both subjects. -/
theorem search_both (unseen : Flags.Unseen left right related)
    (keeps : flags.verbatim = false → ∀ token ∈ tokens pattern, token.Keeps related)
    (same : related flags flags')
    (notEmpty : flags.notEmpty = flags'.notEmpty) :
    Both (fun program other => ∀ window limits,
        program.search left window limits = other.search right window limits)
      (compile pattern flags) (compile pattern flags') := by
  refine (compile_both unseen keeps same).attach.mono fun program other both => ?_
  obtain ⟨compiled, compiled', groups, codes⟩ := both
  obtain ⟨_, _, kept, _⟩ := implements_of_compile compiled
  obtain ⟨_, _, kept', _⟩ := implements_of_compile compiled'
  have sameEmpty : program.flags.notEmpty = other.flags.notEmpty := by rw [kept, kept', notEmpty]
  exact search_eq_of_mirrors compiled compiled' groups sameEmpty (unseen.folded same).size codes

end Program

end ByteRegex
