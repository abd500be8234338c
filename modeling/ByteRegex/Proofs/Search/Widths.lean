import ByteRegex.Proofs.Search.Safety
import ByteRegex.Proofs.Simulation.Crossing

/-!
# Widths of executions

The widths that the parser computes bound what the code consumes, for each part of a pattern and
whatever the registers hold. So a loop whose body cannot be empty need not watch its iterations, and
the body of a lookbehind, which starts as many bytes back as it is wide, ends where it looks back
from.
-/

namespace ByteRegex

namespace Expr

/-- An expression, its parts, theirs and so on. -/
def parts : Expr → List Expr
  | sequence first second => sequence first second :: (first.parts ++ second.parts)
  | alternative first second => alternative first second :: (first.parts ++ second.parts)
  | capture group body => capture group body :: body.parts
  | loop quantifier nullable counter body => loop quantifier nullable counter body :: body.parts
  | atomic body => atomic body :: body.parts
  | look direction width body => look direction width body :: body.parts
  | other => [other]

theorem mem_parts (expr : Expr) : expr ∈ expr.parts := by
  cases expr <;> exact List.mem_cons_self ..

/-- The parts of well-formed expressions are well-formed, and they are laid out somewhere. -/
theorem parts_laidOut {code : Code} (expr : Expr) (wellFormed : expr.WellFormed) {start stop : Nat}
    (laid : expr.LaidOut code start stop) :
    ∀ part ∈ expr.parts, part.WellFormed ∧ ∃ start stop, part.LaidOut code start stop := by
  induction expr generalizing start stop with
  | empty | test | literal | assertion | backReference | repetition =>
      exact List.forall_mem_singleton.mpr ⟨wellFormed, start, stop, laid⟩
  | sequence first second ihFirst ihSecond =>
      obtain ⟨middle, former, latter⟩ := laid
      refine List.forall_mem_cons.mpr ⟨⟨wellFormed, start, stop, middle, former, latter⟩, ?_⟩
      exact List.forall_mem_append.mpr
        ⟨ihFirst wellFormed.1 former, ihSecond wellFormed.2 latter⟩
  | alternative first second ihFirst ihSecond =>
      refine List.forall_mem_cons.mpr ⟨⟨wellFormed, start, stop, laid⟩, ?_⟩
      obtain ⟨_, _, _, _, former, _, latter⟩ := laid
      exact List.forall_mem_append.mpr
        ⟨ihFirst wellFormed.1 former, ihSecond wellFormed.2 latter⟩
  | capture group body ih =>
      refine List.forall_mem_cons.mpr ⟨⟨wellFormed, start, stop, laid⟩, ?_⟩
      obtain ⟨_, _, _, _, inner, _⟩ := laid
      exact ih wellFormed.2.2.2 inner
  | loop quantifier nullable counter body ih =>
      refine List.forall_mem_cons.mpr ⟨⟨wellFormed, start, stop, laid⟩, ?_⟩
      obtain ⟨_, _, _, _, _, inner⟩ := laid
      exact ih wellFormed.2.2.2 inner
  | atomic body ih =>
      refine List.forall_mem_cons.mpr ⟨⟨wellFormed, start, stop, laid⟩, ?_⟩
      obtain ⟨_, _, _, inner, _⟩ := laid
      exact ih wellFormed inner
  | look direction width body ih =>
      refine List.forall_mem_cons.mpr ⟨⟨wellFormed, start, stop, laid⟩, ?_⟩
      obtain ⟨_, _, _, inner, _⟩ := laid
      exact ih wellFormed.2 inner

/-- If an instruction is a lookaround, it is that of one of these parts. -/
def Explains (code : Code) (parts : List Expr) (entry : Entry) : Prop :=
  ∀ direction width target, entry.instruction = .look direction width target →
    ∃ size body tail, look direction size body ∈ parts ∧
      width = (if direction.isBehind then size else 0) ∧ body.LaidOut code entry.next tail ∧
      code.instruction? tail = some (.subEnd, target)

section

variable {code : Code} {parts more : List Expr} {entries : List Entry}

theorem explains_mono (explained : ∀ entry ∈ entries, Explains code parts entry)
    (wider : ∀ part ∈ parts, part ∈ more) : ∀ entry ∈ entries, Explains code more entry := by
  intro entry member direction width target looks
  obtain ⟨size, body, tail, part, rest⟩ := explained entry member direction width target looks
  exact ⟨size, body, tail, wider _ part, rest⟩

end

/-- Every lookaround in the code of an expression is that of one of its parts. -/
theorem looks_of_laidOut {code : Code} (expr : Expr) (wellFormed : expr.WellFormed)
    {start stop : Nat} (laid : expr.LaidOut code start stop) :
    ∃ entries, code.Row start entries stop ∧
      ∀ entry ∈ entries, Explains code expr.parts entry := by
  induction expr generalizing start stop with
  | empty =>
      subst laid
      exact ⟨[], .nil start, nofun⟩
  | test | assertion =>
      exact ⟨_, .single laid, List.forall_mem_singleton.mpr nofun⟩
  | backReference =>
      obtain ⟨_, read⟩ := laid
      exact ⟨_, .single read, List.forall_mem_singleton.mpr nofun⟩
  | literal caseless bytes =>
      have texts : LiteralAt code caseless bytes start stop := laid
      generalize (literal caseless bytes).parts = parts
      induction texts with
      | nil address => exact ⟨[], .nil address, nofun⟩
      | single read later ih | text _ _ read _ later ih =>
          obtain ⟨entries, row, explained⟩ := ih wellFormed later
          exact ⟨_, .cons read row, List.forall_mem_cons.mpr ⟨nofun, explained⟩⟩
  | repetition =>
      obtain ⟨next, read, tested⟩ := laid
      exact ⟨_, (Code.Row.single read).append (.single tested),
        List.forall_mem_append.mpr
          ⟨List.forall_mem_singleton.mpr nofun, List.forall_mem_singleton.mpr nofun⟩⟩
  | sequence first second ihFirst ihSecond =>
      obtain ⟨middle, former, latter⟩ := laid
      obtain ⟨entries, row, explained⟩ := ihFirst wellFormed.1 former
      obtain ⟨others, behind, further⟩ := ihSecond wellFormed.2 latter
      exact ⟨_, row.append behind, List.forall_mem_append.mpr
        ⟨explains_mono explained fun _ member =>
            List.mem_cons_of_mem _ (List.mem_append_left _ member),
          explains_mono further fun _ member =>
            List.mem_cons_of_mem _ (List.mem_append_right _ member)⟩⟩
  | alternative first second ihFirst ihSecond =>
      obtain ⟨ahead, joint, behind, enter, former, leave, latter⟩ := laid
      obtain ⟨entries, row, explained⟩ := ihFirst wellFormed.1 former
      obtain ⟨others, later, further⟩ := ihSecond wellFormed.2 latter
      refine ⟨_, (Code.Row.single enter).append (row.append ((Code.Row.single leave).append later)),
        ?_⟩
      simp only [List.forall_mem_append]
      exact ⟨List.forall_mem_singleton.mpr nofun,
        explains_mono explained fun _ member =>
          List.mem_cons_of_mem _ (List.mem_append_left _ member),
        List.forall_mem_singleton.mpr nofun,
        explains_mono further fun _ member =>
          List.mem_cons_of_mem _ (List.mem_append_right _ member)⟩
  | capture group body ih =>
      obtain ⟨_, head, tail, opened, inner, closed⟩ := laid
      obtain ⟨entries, row, explained⟩ := ih wellFormed.2.2.2 inner
      refine ⟨_, (Code.Row.single opened).append (row.append (.single closed)), ?_⟩
      simp only [List.forall_mem_append]
      exact ⟨List.forall_mem_singleton.mpr nofun,
        explains_mono explained fun _ => List.mem_cons_of_mem _, List.forall_mem_singleton.mpr nofun⟩
  | loop quantifier nullable counter body ih =>
      obtain ⟨register, head, tail, _, shape, inner⟩ := laid
      obtain ⟨before, after, exits, around⟩ :=
        shape.around (body.le_of_laidOut wellFormed.2.2.2 inner)
      obtain ⟨entries, row, explained⟩ := ih wellFormed.2.2.2 inner
      have turning : ∀ entry ∈ before ++ after,
          Explains code (loop quantifier nullable counter body).parts entry := by
        intro entry member direction width target looks
        have turns := around.turns entry member
        rw [looks] at turns
        exact turns.elim
      refine ⟨_, around.entering.append (row.append around.leaving), ?_⟩
      rw [List.forall_mem_append] at turning
      simp only [List.forall_mem_append]
      exact ⟨turning.1, explains_mono explained fun _ => List.mem_cons_of_mem _, turning.2⟩
  | atomic body ih =>
      obtain ⟨head, tail, enter, inner, finish⟩ := laid
      obtain ⟨entries, row, explained⟩ := ih wellFormed inner
      refine ⟨_, (Code.Row.single enter).append (row.append (.single finish)), ?_⟩
      simp only [List.forall_mem_append]
      exact ⟨List.forall_mem_singleton.mpr nofun,
        explains_mono explained fun _ => List.mem_cons_of_mem _, List.forall_mem_singleton.mpr nofun⟩
  | look direction width body ih =>
      obtain ⟨head, tail, enter, inner, finish⟩ := laid
      obtain ⟨entries, row, explained⟩ := ih wellFormed.2 inner
      refine ⟨_, (Code.Row.single enter).append (row.append (.single finish)), ?_⟩
      simp only [List.forall_mem_append]
      refine ⟨List.forall_mem_singleton.mpr ?_,
        explains_mono explained fun _ => List.mem_cons_of_mem _, List.forall_mem_singleton.mpr nofun⟩
      rintro _ _ _ ⟨⟩
      exact ⟨width, body, tail, mem_parts _, rfl, inner, finish⟩

end Expr

namespace Machine

/-- An execution of code that starts at one address comes to another for the first time, and to
`after` from `before`. -/
def Traverses (machine : Machine) (start stop before after : Nat) : Prop :=
  ∃ fuel here last, here.address = start ∧ here.position = before ∧ last.address = stop ∧
    last.position = after ∧ machine.Leads (· ≠ stop) fuel here last

/-- Executions, whatever the registers hold, keep to the widths of an expression. -/
structure WithinWidths (machine : Machine) (expr : Expr) : Prop where
  /-- Every part has code. -/
  placed : ∀ part ∈ expr.parts, ∃ start stop, part.LaidOut machine.code start stop
  /-- What the code of a part consumes is within its width. -/
  crossings : ∀ part ∈ expr.parts, ∀ start stop, part.LaidOut machine.code start stop →
    ∀ before after, machine.Traverses start stop before after →
      before ≤ after ∧ part.width.Allows (after - before)
  /-- Where the body of a loop has a least width, the loop does not watch its iterations, and each of
  them consumes a byte. -/
  iterations : ∀ quantifier nullable counter body,
    Expr.loop quantifier nullable counter body ∈ expr.parts → 0 < body.width.least →
      nullable = false ∧ ∀ head tail, body.LaidOut machine.code head tail →
        ∀ before after, machine.Traverses head tail before after → before < after
  /-- Whenever the body of a lookbehind matches, it ends where the lookbehind is tested. -/
  lookbehinds : ∀ fuel first, first.address = 0 → ∀ here ∈ machine.trace fuel first,
    ∀ direction width target next,
      machine.code.instruction? here.address = some (.look direction width target, next) →
      direction.isBehind = true → width ≤ here.position → ∀ less state after,
        machine.run less next (here.position - width) state = .matched after →
        after.stop = here.position

variable {machine : Machine} {groups counters : List Nat} {width : Width} {start stop : Nat}

theorem Consumes.of_crosses (consumes : machine.Consumes groups counters width start stop)
    {before after : Nat} (traverses : machine.Traverses start stop before after) :
    before ≤ after ∧ width.Allows (after - before) := by
  obtain ⟨fuel, here, last, rfl, rfl, arrived, rfl, leads⟩ := traverses
  have backward := machine.backward_leads stop fun position =>
    here.position ≤ position ∧ width.Allows (position - here.position)
  have assured : Assured _ fuel here.address here.position here.state.registers :=
    consumes backward (fun address _ before => Nat.ne_of_lt before) fun taken registers allowed _ => ?_
  · exact assured fuel (Nat.le_refl _) here rfl rfl rfl last leads arrived
  · rintro less _ mid there same _ further onwards _
    cases onwards with
    | stay =>
        rw [same, Nat.add_sub_cancel_left]
        exact ⟨Nat.le_add_right _ _, allowed⟩
    | go before => exact absurd there before

end Machine

namespace Program

open Machine (Configuration)

variable {machine : Machine}

/-- Every lookaround that a run executes is that of a part of the expression. -/
theorem Implements.explains {program : Program} {expr : Expr}
    (implements : program.Implements expr) {first here : Configuration} {fuel : Nat}
    (same : machine.code = program.code) (begins : first.address = 0)
    (visited : here ∈ machine.trace fuel first) {instruction : Instruction} {next : Nat}
    (read : program.code.instruction? here.address = some (instruction, next)) :
    Expr.Explains program.code expr.parts ⟨here.address, instruction, next⟩ := by
  obtain ⟨stop, laid, finish⟩ := implements.laidOut
  obtain ⟨entries, row, explained⟩ := expr.looks_of_laidOut implements.numbered.wellFormed laid
  have orderly : program.code.Orderly := implements.wellFormed.orderly
  have loaded : machine.code.Orderly := same ▸ orderly
  have origin : first.address ∈ machine.code.addresses ∨ first.address = machine.code.size := by
    rw [begins, loaded.walk]
    exact loaded.row.start_mem.symm
  have listed := Machine.trace_addresses
    (fun _ _ _ known found => loaded.leads known found) fuel origin here visited
  rw [same] at listed
  have member := orderly.entry_of_address (Code.Orderly.address_of_read listed read) read
  rw [(row.append (.single finish)).entries_eq] at member
  rcases List.mem_append.mp member with among | last
  · exact explained _ among
  · cases List.mem_singleton.mp last
    exact nofun

theorem Implements.withinWidths {program : Program} {expr : Expr}
    (implements : program.Implements expr) (same : machine.code = program.code) :
    machine.WithinWidths expr := by
  obtain ⟨stop, laid, _⟩ := implements.laidOut
  have parts := expr.parts_laidOut implements.numbered.wellFormed laid
  rw [← same] at parts
  refine ⟨fun part member => (parts part member).2, ?_, ?_, ?_⟩
  · intro part member start stop placed before after traverses
    exact (part.consumes (parts part member).1 placed).of_crosses traverses
  · intro quantifier nullable counter body member wide
    obtain ⟨_, flagged, _, wellBody⟩ := (parts _ member).1
    refine ⟨?_, fun head tail placed before after traverses => ?_⟩
    · rw [flagged]
      exact decide_eq_false (Nat.ne_of_gt wide)
    · have bounds := (body.consumes wellBody placed).of_crosses traverses
      have least := bounds.2.1
      omega
  · intro fuel first begins here visited direction width target next read behind near less state after
      ran
    rw [same] at read
    obtain ⟨size, body, tail, member, wide, placed, finish⟩ :=
      implements.explains same begins visited read direction width target rfl
    obtain ⟨fixed, wellBody⟩ := (parts _ member).1
    rw [if_pos behind] at wide
    subst wide
    rw [← same] at placed finish
    obtain ⟨taken, allowed, stops, _⟩ := (body.consumes wellBody placed).call finish ran
    rw [stops, Width.Allows.eq_of_fixed allowed (fixed behind).1]
    exact Nat.sub_add_cancel near

/-- The executions of compiled programs keep to the widths of the pattern. -/
theorem withinWidths_of_compile {pattern : List UInt8} {flags : Flags} {program : Program}
    (compiled : compile pattern flags = .ok program) :
    ∃ expr, parse pattern flags = .ok (expr, program.groups) ∧
      ∀ machine : Machine, machine.code = program.code → machine.WithinWidths expr := by
  obtain ⟨expr, parsed, _, implements⟩ := implements_of_compile compiled
  exact ⟨expr, parsed, fun machine => implements.withinWidths⟩

theorem withinWidths_lookbehind :
    compile "(?<=ab)(?:c|d*)+".toUTF8.toList .default = .ok
      ⟨#[32, 2, 0, 6, 0, 5, 2, 0, 97, 98, 1, 36, 0, 0, 25, 6, 0, 3, 99, 0, 24, 8, 0, 27, 0, 0, 255,
        255, 3, 100, 0, 39, 0, 0, 3, 0, 26, 228, 255, 0], 0, .default⟩ ∧
    ∃ expr, parse "(?<=ab)(?:c|d*)+".toUTF8.toList .default = .ok (expr, 0) ∧
      ∀ machine : Machine, machine.code = #[32, 2, 0, 6, 0, 5, 2, 0, 97, 98, 1, 36, 0, 0, 25, 6, 0, 3,
        99, 0, 24, 8, 0, 27, 0, 0, 255, 255, 3, 100, 0, 39, 0, 0, 3, 0, 26, 228, 255, 0] →
        machine.WithinWidths expr := by
  have compiled : compile "(?<=ab)(?:c|d*)+".toUTF8.toList .default = .ok
      ⟨#[32, 2, 0, 6, 0, 5, 2, 0, 97, 98, 1, 36, 0, 0, 25, 6, 0, 3, 99, 0, 24, 8, 0, 27, 0, 0, 255,
        255, 3, 100, 0, 39, 0, 0, 3, 0, 26, 228, 255, 0], 0, .default⟩ :=
    compile_of_toOption (by decide +kernel)
  exact ⟨compiled, withinWidths_of_compile compiled⟩

end Program

end ByteRegex
