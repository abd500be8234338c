import ByteRegex.Proofs.Bytecode.Stream

/-!
# Sealed lines

Lines that no jump leaves: every jump among them goes to one of them or to their end. Jumps are
relative, so sealed lines stay sealed wherever they stand, and between two sealed fragments there is
room for anything.
-/

namespace ByteRegex.Line

/-- The distance of a jump. -/
def distance? (line : Line) : Option Int16 :=
  if line.opcode.hasTarget then line.operands.getLast? else none

/-- The address of a line, or the end, when the first line starts at 0. -/
def Boundary (lines : List Line) (address : Int) : Prop :=
  ∃ ahead behind, lines = ahead ++ behind ∧ address = extent ahead

/-- Lines from an address on whose jumps arrive at certain addresses. -/
def Lands (arrives : Int → Prop) : Int → List Line → Prop
  | _, [] => True
  | address, line :: rest =>
      (∀ distance, line.distance? = some distance →
        arrives (address + line.encode.length + distance.toInt)) ∧
        Lands arrives (address + line.encode.length) rest

structure Sealed (lines : List Line) : Prop where
  complete : ∀ line ∈ lines, line.Complete
  lands : Lands (Boundary lines) 0 lines

section

variable {arrives further : Int → Prop} {front back lines : List Line} {line : Line}

theorem distance?_plain {opcode : Opcode} (jumps : opcode.hasTarget = true) (operands : List Int16)
    (distance : Int16) : (plain opcode (operands ++ [distance])).distance? = some distance := by
  rw [distance?, plain, if_pos jumps, List.getLast?_concat]

theorem distance?_eq_some {distance : Int16} :
    line.distance? = some distance ↔
      line.opcode.hasTarget = true ∧ line.operands.getLast? = some distance := by
  unfold distance?
  split
  · rename_i jumps
    simp only [jumps, true_and]
  · rename_i straight
    simp only [straight, false_and, reduceCtorEq]

theorem distance?_of_straight (straight : line.opcode.hasTarget = false) : line.distance? = none := by
  rw [distance?, straight]
  rfl

theorem boundary_extent (front back : List Line) : Boundary (front ++ back) (extent front) :=
  ⟨front, back, rfl, rfl⟩

theorem boundary_zero (lines : List Line) : Boundary lines 0 := ⟨[], lines, rfl, rfl⟩

theorem boundary_end (lines : List Line) : Boundary lines (extent lines) :=
  ⟨lines, [], (List.append_nil _).symm, rfl⟩

theorem Boundary.append {address : Int} (boundary : Boundary front address) (back : List Line) :
    Boundary (front ++ back) address := by
  obtain ⟨ahead, behind, rfl, rfl⟩ := boundary
  rw [List.append_assoc]
  exact boundary_extent ahead (behind ++ back)

theorem Boundary.behind {address : Int} (front : List Line) (boundary : Boundary back address) :
    Boundary (front ++ back) (extent front + address) := by
  obtain ⟨ahead, behind, rfl, rfl⟩ := boundary
  refine ⟨front ++ ahead, behind, (List.append_assoc ..).symm, ?_⟩
  rw [extent_append, Int.natCast_add]

theorem Boundary.bounds {address : Int} (boundary : Boundary lines address) :
    0 ≤ address ∧ address ≤ extent lines := by
  obtain ⟨ahead, behind, rfl, rfl⟩ := boundary
  rw [extent_append]
  omega

theorem lands_append {address : Int} :
    Lands arrives address (front ++ back) ↔
      Lands arrives address front ∧ Lands arrives (address + extent front) back := by
  induction front generalizing address with
  | nil => simp [Lands, extent, encodeAll]
  | cons line front ih =>
      simp only [List.cons_append, Lands, ih, extent_cons, Int.natCast_add, Int.add_assoc,
        and_assoc]

/-- Lines that are moved take their targets along. -/
theorem Lands.shift {address : Int} (offset : Int) (lands : Lands arrives address lines)
    (moves : ∀ target, arrives target → further (offset + target)) :
    Lands further (offset + address) lines := by
  induction lines generalizing address with
  | nil => trivial
  | cons line rest ih =>
      have later := ih lands.2
      refine ⟨fun distance jumps => ?_, by rwa [Int.add_assoc]⟩
      have arrived := moves _ (lands.1 distance jumps)
      rwa [← Int.add_assoc, ← Int.add_assoc] at arrived

theorem Lands.mono {address : Int} (lands : Lands arrives address lines)
    (wider : ∀ target, arrives target → further target) : Lands further address lines := by
  have moved := lands.shift 0 fun target arrived => by
    rw [Int.zero_add]
    exact wider target arrived
  rwa [Int.zero_add] at moved

theorem Lands.of_split {address : Int} {distance : Int16}
    (lands : Lands arrives address (front ++ line :: back))
    (jumps : line.distance? = some distance) :
    arrives (address + extent front + line.encode.length + distance.toInt) :=
  (lands_append.mp lands).2.1 distance jumps

theorem lands_singleton {address : Int} (straight : line.distance? = none) :
    Lands arrives address [line] := by
  refine ⟨fun distance jumps => ?_, trivial⟩
  rw [straight] at jumps
  cases jumps

end

namespace Sealed

variable {front back : List Line} {line : Line}

theorem nil : Sealed [] := ⟨List.forall_mem_nil _, trivial⟩

theorem append (ahead : Sealed front) (behind : Sealed back) : Sealed (front ++ back) where
  complete := List.forall_mem_append.mpr ⟨ahead.complete, behind.complete⟩
  lands := by
    refine lands_append.mpr ⟨?_, ?_⟩
    · exact ahead.lands.mono fun target arrived => arrived.append back
    · rw [Int.zero_add, ← Int.add_zero (extent front)]
      exact behind.lands.shift _ fun target arrived => arrived.behind front

theorem singleton (complete : line.Complete) (straight : line.distance? = none) :
    Sealed [line] := ⟨List.forall_mem_singleton.mpr complete, lands_singleton straight⟩

/-- Sealed lines in the middle of others. -/
theorem lands_within {inner : List Line} (within : Sealed inner) (front back : List Line) :
    Lands (Boundary (front ++ (inner ++ back))) (extent front) inner := by
  rw [← Int.add_zero (extent front)]
  exact within.lands.shift _ fun target arrived => (arrived.append back).behind front

/-- Where a jump among sealed lines arrives. -/
theorem boundary {distance : Int16} (whole : Sealed (front ++ line :: back))
    (jumps : line.distance? = some distance) :
    Boundary (front ++ line :: back)
      (extent front + line.encode.length + distance.toInt) := by
  have arrived := whole.lands.of_split jumps
  rwa [Int.zero_add] at arrived

end Sealed

namespace Complete

variable {line : Line}

theorem payload_of_jump (complete : line.Complete) (jumps : line.opcode.hasTarget = true) :
    line.payload = [] := by
  refine List.eq_nil_of_length_eq_zero ?_
  rw [complete.payload]
  cases named : line.opcode <;> simp_all [Opcode.hasTarget, Opcode.payloadSize]

theorem exists_distance (complete : line.Complete) (jumps : line.opcode.hasTarget = true) :
    ∃ distance, line.distance? = some distance := by
  have given : line.operands ≠ [] := by
    intro none
    have count := complete.operands
    rw [none] at count
    cases named : line.opcode <;> simp_all [Opcode.hasTarget, Opcode.operandCount]
  exact ⟨_, distance?_eq_some.mpr ⟨jumps, List.getLast?_eq_some_getLast given⟩⟩

end Complete

end ByteRegex.Line

namespace ByteRegex.Code

variable {code next : Code} {front back lines : List Line} {line : Line}

/-- Where a walk over the instructions stops, the end included. -/
def Stop (code : Code) (address : Nat) : Prop := address ∈ code.addresses ∨ address = code.size

theorem stop_of_boundary (same : code.toList = Line.encodeAll lines)
    (complete : ∀ line ∈ lines, line.Complete) {address : Nat}
    (boundary : Line.Boundary lines address) : code.Stop address := by
  obtain ⟨ahead, behind, rfl, place⟩ := boundary
  have here : address = Line.extent ahead := Int.ofNat_inj.mp place
  cases behind with
  | nil =>
      refine .inr ?_
      rw [here, ← Array.length_toList, same, List.append_nil]
      rfl
  | cons line behind =>
      refine .inl ?_
      rw [addresses_of_lines same complete]
      exact Line.mem_offsets.mpr ⟨ahead, line, behind, rfl, by rw [here, Nat.zero_add]⟩

/-- A line of a code is an instruction of it. -/
theorem line_at {address : Nat} (same : code.toList = Line.encodeAll lines)
    (complete : ∀ line ∈ lines, line.Complete) (split : lines = front ++ line :: back)
    (place : address = Line.extent front) :
    address ∈ code.addresses ∧ code.Has address line.encode := by
  constructor
  · rw [addresses_of_lines same complete]
    exact Line.mem_offsets.mpr ⟨front, line, back, split, by rw [place, Nat.zero_add]⟩
  · have held := code.has_toList
    rw [same, split] at held
    rw [place]
    exact has_of_append held

theorem target?_of_jump {address target : Nat} (held : code.Has address line.encode)
    (complete : line.Complete) {distance : Int16} (jumps : line.distance? = some distance)
    (reaches : address + line.encode.length + distance.toInt = (target : Int)) :
    code.target? address line.opcode = some target := by
  obtain ⟨withTarget, last⟩ := Line.distance?_eq_some.mp jumps
  refine target?_eq_some_iff.mpr ?_
  rw [jumpTarget?_of_has held complete last,
    ← complete.length_of_bare (complete.payload_of_jump withTarget)]
  exact congrArg some reaches

/-- Where an address is once some bytes have been laid in front of `start`. -/
def moved (start count address : Nat) : Nat := if address < start then address else address + count

/-- An insertion between instructions that no jump crosses. Every instruction is kept, and every jump
goes to the instruction to which it went before, or to what has been inserted if it comes from the
front and went to the place of the insertion. -/
structure Insertion (code next : Code) (start count : Nat) : Prop where
  between : code.Stop start
  begins : next.Stop start
  keeps : ∀ address ∈ code.addresses, moved start count address ∈ next.addresses ∧
    ∀ length, code.instructionLength? address = some length → ∀ index < length,
      next[moved start count address + index]? = code[address + index]?
  before : ∀ address ∈ code.addresses, address < start → ∀ opcode,
    code.opcode? address = some opcode → opcode.hasTarget = true →
      ∃ target, code.target? address opcode = some target ∧ code.Stop target ∧ target ≤ start ∧
        next.target? address opcode = some target
  behind : ∀ address ∈ code.addresses, start ≤ address → ∀ opcode,
    code.opcode? address = some opcode → opcode.hasTarget = true →
      ∃ target, code.target? address opcode = some target ∧ code.Stop target ∧ start ≤ target ∧
        next.target? (address + count) opcode = some (target + count)

/-- An instruction that stands in two codes. -/
theorem same_instruction {address place : Nat} (held : code.Has address line.encode)
    (held' : next.Has place line.encode) (complete : line.Complete) {length : Nat}
    (measured : code.instructionLength? address = some length) :
    ∀ index < length, next[place + index]? = code[address + index]? := by
  intro index inside
  rw [instructionLength?_of_has held complete] at measured
  cases measured
  rw [held index inside, held' index inside]

/-- The instructions of lines in front of a position and of those behind it. -/
theorem mem_addresses_append (same : code.toList = Line.encodeAll (front ++ back))
    (complete : ∀ line ∈ front ++ back, line.Complete) {address : Nat} (met : address ∈ code.addresses) :
    (∃ ahead line behind, front = ahead ++ line :: behind ∧ address = Line.extent ahead) ∨
      ∃ ahead line behind, back = ahead ++ line :: behind ∧
        address = Line.extent front + Line.extent ahead := by
  rw [addresses_of_lines same complete] at met
  obtain ⟨ahead, line, behind, split, place⟩ := Line.mem_offsets.mp met
  rw [Nat.zero_add] at place
  obtain ⟨middle, within, rest⟩ | ⟨middle, within, rest⟩ := List.append_eq_append_iff.mp split
  · exact .inr ⟨middle, line, behind, rest, by rw [place, within, Line.extent_append]⟩
  · cases middle with
    | nil =>
        rw [List.append_nil] at within
        exact .inr ⟨[], line, behind, rest.symm, by rw [place, within]; rfl⟩
    | cons head middle =>
        cases rest
        exact .inl ⟨ahead, line, middle, within, place⟩

/-- Where a jump among sealed lines goes, in any code that has them from `start` on. -/
theorem target?_of_sealed {opcode : Opcode} (within : Line.Sealed (front ++ line :: back))
    (read : line.opcode = opcode) (jumps : opcode.hasTarget = true) :
    ∃ target : Nat, Line.Boundary (front ++ line :: back) (target : Int) ∧
      ∀ {code : Code} {address start : Nat}, code.Has address line.encode →
        address = start + Line.extent front → code.target? address opcode = some (start + target) := by
  subst read
  have complete : line.Complete := within.complete line (by simp)
  obtain ⟨distance, far⟩ := complete.exists_distance jumps
  have arrives := within.boundary far
  obtain ⟨target, same⟩ := Int.eq_ofNat_of_zero_le arrives.bounds.1
  refine ⟨target, by rwa [← same], fun {code address start} held place => ?_⟩
  refine target?_of_jump held complete far ?_
  omega

/-- Sealed lines in one code that have more lines between them in another one. -/
structure Spliced (code next : Code) (front more back : List Line) : Prop where
  bytes : code.toList = Line.encodeAll (front ++ back)
  after : next.toList = Line.encodeAll (front ++ (more ++ back))
  ahead : Line.Sealed front
  behind : Line.Sealed back
  fresh : ∀ line ∈ more, line.Complete

namespace Spliced

variable {more first rest : List Line} {address : Nat} {opcode : Opcode}

theorem complete (spliced : Spliced code next front more back) :
    ∀ line ∈ front ++ back, line.Complete := (spliced.ahead.append spliced.behind).complete

theorem complete_after (spliced : Spliced code next front more back) :
    ∀ line ∈ front ++ (more ++ back), line.Complete :=
  List.forall_mem_append.mpr ⟨spliced.ahead.complete,
    List.forall_mem_append.mpr ⟨spliced.fresh, spliced.behind.complete⟩⟩

/-- Lines in front of the others stay where they are. -/
theorem line_ahead (spliced : Spliced code next front more back) (split : front = first ++ line :: rest) :
    Line.extent first < Line.extent front ∧ code.Has (Line.extent first) line.encode ∧
      Line.extent first ∈ next.addresses ∧ next.Has (Line.extent first) line.encode := by
  subst split
  have positive := line.length_encode_pos
  refine ⟨?_, (line_at spliced.bytes spliced.complete (List.append_assoc ..) rfl).2,
    line_at spliced.after spliced.complete_after (List.append_assoc ..) rfl⟩
  rw [Line.extent_append, Line.extent_cons]
  omega

/-- Lines behind the others move by what is between. -/
theorem line_behind (spliced : Spliced code next front more back) (split : back = first ++ line :: rest) :
    code.Has (Line.extent front + Line.extent first) line.encode ∧
      Line.extent front + Line.extent first + Line.extent more ∈ next.addresses ∧
      next.Has (Line.extent front + Line.extent first + Line.extent more) line.encode := by
  subst split
  refine ⟨(line_at spliced.bytes spliced.complete (List.append_assoc ..).symm
    (Line.extent_append ..).symm).2, ?_⟩
  have parts : front ++ (more ++ (first ++ line :: rest)) =
      (front ++ (more ++ first)) ++ line :: rest := by simp only [List.append_assoc]
  refine line_at spliced.after spliced.complete_after parts ?_
  simp only [Line.extent_append]
  omega

theorem keeps (spliced : Spliced code next front more back) (met : address ∈ code.addresses) :
    moved (Line.extent front) (Line.extent more) address ∈ next.addresses ∧
      ∀ length, code.instructionLength? address = some length → ∀ index < length,
        next[moved (Line.extent front) (Line.extent more) address + index]? =
          code[address + index]? := by
  obtain ⟨first, line, rest, split, rfl⟩ | ⟨first, line, rest, split, rfl⟩ :=
    mem_addresses_append spliced.bytes spliced.complete met
  · obtain ⟨inside, held, met', held'⟩ := spliced.line_ahead split
    have whole : line.Complete := spliced.ahead.complete line (by simp [split])
    rw [moved, if_pos inside]
    exact ⟨met', fun length => same_instruction held held' whole⟩
  · obtain ⟨held, met', held'⟩ := spliced.line_behind split
    have whole : line.Complete := spliced.behind.complete line (by simp [split])
    rw [moved, if_neg (Nat.not_lt.mpr (Nat.le_add_right _ _))]
    exact ⟨met', fun length => same_instruction held held' whole⟩

theorem jump_ahead (spliced : Spliced code next front more back) (met : address ∈ code.addresses)
    (inside : address < Line.extent front) (read : code.opcode? address = some opcode)
    (jumps : opcode.hasTarget = true) :
    ∃ target, code.target? address opcode = some target ∧ code.Stop target ∧
      target ≤ Line.extent front ∧ next.target? address opcode = some target := by
  obtain ⟨first, line, rest, split, rfl⟩ | ⟨first, line, rest, split, rfl⟩ :=
    mem_addresses_append spliced.bytes spliced.complete met
  · obtain ⟨_, held, _, held'⟩ := spliced.line_ahead split
    have named := Option.some.inj ((opcode?_of_has held).symm.trans read)
    obtain ⟨target, boundary, goes⟩ := target?_of_sealed (split ▸ spliced.ahead) named jumps
    rw [← split] at boundary
    have near := goes held (Nat.zero_add _).symm
    have near' := goes held' (Nat.zero_add _).symm
    rw [Nat.zero_add] at near near'
    exact ⟨target, near, stop_of_boundary spliced.bytes spliced.complete (boundary.append back),
      Int.ofNat_le.mp boundary.bounds.2, near'⟩
  · omega

theorem jump_behind (spliced : Spliced code next front more back) (met : address ∈ code.addresses)
    (beyond : Line.extent front ≤ address) (read : code.opcode? address = some opcode)
    (jumps : opcode.hasTarget = true) :
    ∃ target, code.target? address opcode = some target ∧ code.Stop target ∧
      Line.extent front ≤ target ∧
      next.target? (address + Line.extent more) opcode = some (target + Line.extent more) := by
  obtain ⟨first, line, rest, split, rfl⟩ | ⟨first, line, rest, split, rfl⟩ :=
    mem_addresses_append spliced.bytes spliced.complete met
  · have inside := (spliced.line_ahead split).1
    omega
  · obtain ⟨held, _, held'⟩ := spliced.line_behind split
    have named := Option.some.inj ((opcode?_of_has held).symm.trans read)
    obtain ⟨target, boundary, goes⟩ := target?_of_sealed (split ▸ spliced.behind) named jumps
    rw [← split] at boundary
    refine ⟨Line.extent front + target, goes held rfl,
      stop_of_boundary spliced.bytes spliced.complete (boundary.behind front),
      Nat.le_add_right _ _, ?_⟩
    rw [goes held' (Nat.add_right_comm ..), Nat.add_right_comm]

/-- No jump crosses a place between sealed lines. -/
theorem insertion (spliced : Spliced code next front more back) :
    Insertion code next (Line.extent front) (Line.extent more) where
  between := stop_of_boundary spliced.bytes spliced.complete (Line.boundary_extent front back)
  begins := stop_of_boundary spliced.after spliced.complete_after (Line.boundary_extent front _)
  keeps _ := spliced.keeps
  before _ met inside _ := spliced.jump_ahead met inside
  behind _ met beyond _ := spliced.jump_behind met beyond

end Spliced

end ByteRegex.Code
