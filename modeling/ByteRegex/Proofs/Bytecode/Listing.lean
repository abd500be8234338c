import ByteRegex.Bytecode.Listing
import ByteRegex.Proofs.Bytecode.Decode
import ByteRegex.Proofs.Bytecode.Row
import ByteRegex.Proofs.Bytecode.Stream
import ByteRegex.Proofs.Text.Escapes

/-!
# What a listing shows

The text of one instruction and what can be read from it. An instruction is shown by its address, its
name and fields that each start with a space: numbers, a target, or something in brackets or quotes.
No field contains what would end it, so the text determines the fields.
-/

namespace ByteRegex

/-! ## Names -/

theorem Opcode.mem_all (opcode : Opcode) : opcode ∈ all.toList := by
  cases opcode <;> decide

theorem Opcode.name_inj {opcode opcode' : Opcode} (same : opcode.name = opcode'.name) :
    opcode = opcode' := by
  have every : ∀ one ∈ all.toList, ∀ other ∈ all.toList, one.name = other.name → one = other := by
    decide +kernel
  exact every opcode opcode.mem_all opcode' opcode'.mem_all same

theorem Opcode.isAlpha_of_mem_name {opcode : Opcode} :
    ∀ char ∈ opcode.name.toList, char.isAlpha = true := by
  have every : opcode.name.toList.all Char.isAlpha = true := by cases opcode <;> rfl
  exact List.all_eq_true.mp every

/-- Whether all operands but a distance are shown as they are. -/
def Opcode.isNumeric : Opcode → Bool
  | char | charNoCase | str | strNoCase | any | anyNoNewline | set | inClass | notInClass
  | repeatGreedy | repeatLazy | repeatPossessive => false
  | _ => true

theorem ByteClass.name_inj {kind kind' : ByteClass} (same : kind.name = kind'.name) :
    kind = kind' := by
  cases kind <;> cases kind' <;> first | rfl | exact absurd same (by decide)

theorem Operand.toNat_inj {operand operand' : Int16} (same : toNat operand = toNat operand') :
    operand = operand' :=
  congrArg Int16.ofUInt16 (UInt16.toNat_inj.mp same)

/-! ## Sets -/

namespace ByteSet

theorem mem_members {set : ByteSet} {byte : UInt8} : byte ∈ set.members ↔ set.contains byte = true := by
  rw [members, List.mem_filter, List.mem_map]
  refine ⟨And.right, fun contained => ⟨⟨byte.toNat, ?_, UInt8.ofNat_toNat⟩, contained⟩⟩
  exact List.mem_range.mpr byte.toNat_lt

/-- A set is determined by its members. -/
theorem eq_of_contains {set set' : ByteSet} (same : ∀ byte, set.contains byte = set'.contains byte) :
    set = set' := by
  obtain ⟨bitmap⟩ := set
  obtain ⟨bitmap'⟩ := set'
  congr 1
  refine Vector.ext fun index inside => UInt8.toNat_inj.mp (Nat.eq_of_testBit_eq fun bit => ?_)
  by_cases small : bit < 8
  · have member := same (UInt8.ofNat (8 * index + bit))
    have value : (UInt8.ofNat (8 * index + bit)).toNat = 8 * index + bit :=
      UInt8.toNat_ofNat_of_lt' (show 8 * index + bit < 256 by omega)
    simp only [contains, value] at member
    have high : (8 * index + bit) / 8 = index := by omega
    have low : (8 * index + bit) % 8 = bit := by omega
    simpa only [high, low] using member
  · have bound (byte : UInt8) : byte.toNat < 2 ^ bit :=
      Nat.lt_of_lt_of_le byte.toNat_lt (Nat.pow_le_pow_right (by decide) (Nat.not_lt.mp small))
    rw [Nat.testBit_lt_two_pow (bound _), Nat.testBit_lt_two_pow (bound _)]

theorem members_inj {set set' : ByteSet} (same : set.members = set'.members) : set = set' := by
  refine eq_of_contains fun byte => ?_
  rw [Bool.eq_iff_iff, ← mem_members, ← mem_members, same]

end ByteSet

namespace Listing

/-! ## Fields -/

theorem toList_number (value : Nat) :
    (number value).toList = ' ' :: Nat.toDigits 10 value := by
  rw [number, String.toList_append, Text.toList_number]
  rfl

theorem toList_target (address : Nat) :
    (target address).toList = ' ' :: '-' :: '>' :: ' ' :: (Text.fourDigits address).toList := by
  rw [target, String.toList_append]
  rfl

/-- Numbers, and a target behind them if there is one. -/
def fields (numbers : List Nat) (goal : Option Nat) : List Char :=
  numbers.flatMap (fun value => (number value).toList) ++
    goal.elim [] fun address => (target address).toList

theorem fields_cons (value : Nat) (numbers : List Nat) (goal : Option Nat) :
    fields (value :: numbers) goal =
      ' ' :: (Nat.toDigits 10 value ++ fields numbers goal) := by
  rw [fields, List.flatMap_cons, toList_number, fields, List.append_assoc, List.cons_append]

/-- Each field starts with a space. -/
theorem head_fields (numbers : List Nat) (goal : Option Nat) :
    ∀ char ∈ (fields numbers goal).head?, char = ' ' := by
  cases numbers with
  | nil =>
      cases goal with
      | none => exact nofun
      | some address =>
          rw [fields, List.flatMap_nil, List.nil_append, Option.elim, toList_target]
          simp
  | cons value numbers =>
      rw [fields_cons]
      simp

theorem isDigit_of_mem_toDigits {value : Nat} :
    ∀ char ∈ Nat.toDigits 10 value, char.isDigit = true := fun _ member =>
  Nat.isDigit_of_mem_toDigits (by decide) (by decide) member

theorem fields_inj {numbers numbers' : List Nat} {goal goal' : Option Nat}
    (level : numbers.length = numbers'.length) (same : fields numbers goal = fields numbers' goal') :
    numbers = numbers' ∧ goal = goal' := by
  induction numbers generalizing numbers' with
  | nil =>
      cases List.eq_nil_of_length_eq_zero level.symm
      refine ⟨rfl, ?_⟩
      simp only [fields, List.flatMap_nil, List.nil_append] at same
      cases goal with
      | none =>
          cases goal' with
          | none => rfl
          | some address' =>
              rw [Option.elim, Option.elim, toList_target] at same
              cases same
      | some address =>
          cases goal' with
          | none =>
              rw [Option.elim, Option.elim, toList_target] at same
              cases same
          | some address' =>
              rw [Option.elim, Option.elim, toList_target, toList_target] at same
              simp only [List.cons.injEq, true_and] at same
              rw [Text.fourDigits_inj same]
  | cons value numbers ih =>
      cases numbers' with
      | nil => cases level
      | cons value' numbers' =>
          rw [fields_cons, fields_cons] at same
          injection same with _ same
          have ends : ∀ numbers goal, ∀ char ∈ (fields numbers goal).head?, ¬ char.isDigit = true := by
            intro numbers goal char first
            rw [head_fields numbers goal char first]
            decide
          obtain ⟨digits, later⟩ := Text.field_inj isDigit_of_mem_toDigits isDigit_of_mem_toDigits
            (ends _ _) (ends _ _) same
          obtain ⟨rest, goals⟩ := ih (Nat.succ.inj level) later
          exact ⟨by rw [Text.toDigits_inj digits, rest], goals⟩

/-! ## Bounds and tests -/

theorem toList_bounds (least : Nat) (most : Option Nat) :
    (bounds least most).toList = ' ' :: '\x7b' ::
      (Nat.toDigits 10 least ++ ',' :: (most.elim [] (Nat.toDigits 10) ++ ['\x7d'])) := by
  have upper : (most.elim "" toString).toList = most.elim [] (Nat.toDigits 10) := by
    cases most with
    | none => rfl
    | some most => exact Text.toList_number most
  simp only [bounds, String.toList_append, upper, Text.toList_number]
  simp

theorem bounds_inj {least least' : Nat} {most most' : Option Nat}
    (same : (bounds least most).toList = (bounds least' most').toList) :
    least = least' ∧ most = most' := by
  have upper : ∀ most : Option Nat, ∀ char ∈ most.elim [] (Nat.toDigits 10), char.isDigit = true := by
    intro most
    cases most with
    | none => exact nofun
    | some most => exact isDigit_of_mem_toDigits
  have bound : ∀ {separator : Char} {rest : List Char}, separator.isDigit = false →
      ∀ char ∈ (separator :: rest).head?, ¬ char.isDigit = true := by
    intro separator rest apart char first
    cases first
    rw [apart]
    exact Bool.false_ne_true
  simp only [toList_bounds, List.cons.injEq, true_and] at same
  obtain ⟨lower, later⟩ := Text.field_inj isDigit_of_mem_toDigits isDigit_of_mem_toDigits
    (bound rfl) (bound rfl) same
  injection later with _ later
  have digits := List.append_cancel_right later
  refine ⟨Text.toDigits_inj lower, ?_⟩
  cases most with
  | none =>
      cases most' with
      | none => rfl
      | some most' => exact absurd digits.symm Nat.toDigits_ne_nil
  | some most =>
      cases most' with
      | none => exact absurd digits Nat.toDigits_ne_nil
      | some most' => rw [Text.toDigits_inj digits]

theorem byteClass_inj {kind kind' : ByteClass}
    (same : (byteClass kind).toList = (byteClass kind').toList) : kind = kind' := by
  simp only [byteClass, String.toList_append] at same
  exact ByteClass.name_inj
    (String.ext (List.append_cancel_left (List.append_cancel_right same)))

/-- Tests that are shown alike behind the same name are the same. -/
theorem byteTest_inj {test test' : ByteTest} (named : test.line.opcode = test'.line.opcode)
    (same : (byteTest test).toList = (byteTest test').toList) : test = test' := by
  -- Only the tests that leave something to be shown are left.
  cases test <;> cases test' <;> first | rfl | cases named
  case byte.byte | byteAnyCase.byteAnyCase =>
    simp only [byteTest, String.toList_append] at same
    rw [Text.escapeByte_inj (List.append_cancel_left same)]
  case set.set =>
    simp only [byteTest, String.toList_append] at same
    rw [ByteSet.members_inj
      (Text.escapeBytes_inj (List.append_cancel_left (List.append_cancel_right same)))]
  case inClass.inClass | notInClass.notInClass => rw [byteClass_inj same]

/-! ## Lines -/

variable {code code' : Code} {address next next' : Nat} {opcode : Opcode}
  {instruction instruction' : Instruction}

/-- What follows a name starts with a space, if there is anything. -/
theorem head_operands (code : Code) (instruction : Instruction) :
    ∀ char ∈ (operands code instruction).toList.head?, char = ' ' := by
  cases instruction with
  | test test =>
      cases test <;>
        simp [operands, byteTest, byteClass]
  | look look width address =>
      cases look <;> simp [operands, Look.isBehind, toList_number, toList_target]
  | _ => simp [operands, toList_number, toList_target, toList_bounds]

theorem newline_not_mem_operands (code : Code) (instruction : Instruction) :
    '\n' ∉ (operands code instruction).toList := by
  have digits : ∀ value, '\n' ∉ Nat.toDigits 10 value := fun value member =>
    absurd (isDigit_of_mem_toDigits _ member) (by decide)
  have places : ∀ address, '\n' ∉ (Text.fourDigits address).toList := fun address member =>
    absurd (Text.isDigit_of_mem_fourDigits member) (by decide)
  have classes : ∀ kind, '\n' ∉ (byteClass kind).toList := by
    intro kind
    cases kind <;> decide
  cases instruction with
  | test test =>
      cases test with
      | inClass kind | notInClass kind => exact classes kind
      | _ => simp [operands, byteTest, Text.newline_not_mem_escapeByte, Text.newline_not_mem_escapeBytes]
  | look look width address =>
      cases look <;> simp [operands, Look.isBehind, toList_number, toList_target, digits, places]
  | repetition greed least most =>
      cases most <;> simp [operands, toList_bounds, digits]
  | _ => simp [operands, toList_number, toList_target, digits, places, Text.newline_not_mem_escapeBytes]

theorem line_eq (known : code.opcode? address = some opcode)
    (read : code.instruction? address = some (instruction, next)) :
    line code address =
      Text.fourDigits address ++ "  " ++ (opcode.name ++ operands code instruction) := by
  rw [line, known, read]

/-- A line says the address and what is there. -/
theorem line_inj {address' : Nat} {opcode' : Opcode} (known : code.opcode? address = some opcode)
    (read : code.instruction? address = some (instruction, next))
    (known' : code'.opcode? address' = some opcode')
    (read' : code'.instruction? address' = some (instruction', next'))
    (same : line code address = line code' address') :
    address = address' ∧ opcode = opcode' ∧
      (operands code instruction).toList = (operands code' instruction').toList := by
  have texts := congrArg String.toList same
  rw [line_eq known read, line_eq known' read'] at texts
  simp only [String.toList_append, List.append_assoc] at texts
  have gap : ∀ rest : List Char, ∀ char ∈ ("  ".toList ++ rest).head?, ¬ char.isDigit = true := by
    intro rest char first
    cases first
    decide
  obtain ⟨places, later⟩ := Text.field_inj (fun _ => Text.isDigit_of_mem_fourDigits)
    (fun _ => Text.isDigit_of_mem_fourDigits) (gap _) (gap _) texts
  have apart : ∀ code instruction, ∀ char ∈ (operands code instruction).toList.head?,
      ¬ char.isAlpha = true := by
    intro code instruction char first
    rw [head_operands code instruction char first]
    decide
  obtain ⟨names, shown⟩ := Text.field_inj Opcode.isAlpha_of_mem_name Opcode.isAlpha_of_mem_name
    (apart _ _) (apart _ _) (List.append_cancel_left later)
  exact ⟨Text.fourDigits_inj places, Opcode.name_inj (String.ext names), shown⟩

/-- What is shown of an instruction as numbers and as a target is all that it consists of. -/
structure Shows (code : Code) (address : Nat) (opcode : Opcode) (text : List Char)
    (numbers : List Nat) (goal : Option Nat) : Prop where
  text : text = fields numbers goal
  count : numbers.length + (if opcode.hasTarget then 1 else 0) = opcode.operandCount
  numbers : ∀ index < numbers.length, code.number? address index = numbers[index]?
  goal : opcode.hasTarget = true → goal.isSome = true ∧ code.target? address opcode = goal

theorem numbers_nil : ∀ index < ([] : List Nat).length, code.number? address index = [][index]? :=
  fun index inside => absurd inside (Nat.not_lt_zero index)

theorem numbers_one {value : Nat} (first : code.number? address 0 = some value) :
    ∀ index < [value].length, code.number? address index = [value][index]? := by
  intro index inside
  cases Nat.lt_one_iff.mp inside
  exact first

theorem numbers_two {value other : Nat} (first : code.number? address 0 = some value)
    (second : code.number? address 1 = some other) :
    ∀ index < [value, other].length, code.number? address index = [value, other][index]? := by
  intro index inside
  obtain rfl | rfl := Nat.le_one_iff_eq_zero_or_eq_one.mp (Nat.le_of_lt_succ inside)
  · exact first
  · exact second

theorem exists_shows (numeric : opcode.isNumeric = true)
    (decoded : code.decode? address opcode = some instruction) :
    ∃ numbers goal, Shows code address opcode (operands code instruction).toList numbers goal := by
  cases opcode with
  | succeed | subEnd | fail | lineBegin | lineEnd | textBegin | textEnd | wordBoundary
  | notWordBoundary | wordBegin | wordEnd =>
      cases decoded
      exact ⟨[], none, rfl, rfl, numbers_nil, fun jumps => absurd jumps Bool.false_ne_true⟩
  | openGroup | closeGroup | backRef | backRefNoCase | counterReset | counterInc =>
      obtain ⟨register, named, rfl⟩ := Option.map_eq_some_iff.mp decoded
      refine ⟨[register.val], none, ?_, rfl, numbers_one (Code.number?_of_register? named),
        fun jumps => absurd jumps Bool.false_ne_true⟩
      simp [operands, fields]
  | jump | branch | branchRev | atomic | lookAhead | negLookAhead =>
      obtain ⟨address, goes, rfl⟩ := Option.map_eq_some_iff.mp decoded
      refine ⟨[], some address, ?_, rfl, numbers_nil, fun _ => ⟨rfl, goes⟩⟩
      simp [operands, fields, Look.isBehind]
  | lookBehind | negLookBehind =>
      simp only [Code.decode?, Code.lookBehind?] at decoded
      split at decoded
      · rename_i width address named goes
        cases decoded
        refine ⟨[width], some address, ?_, rfl, numbers_one named, fun _ => ⟨rfl, goes⟩⟩
        simp [operands, fields, Look.isBehind]
      · cases decoded
  | jumpStuck =>
      simp only [Code.decode?, Code.stuckJump?] at decoded
      split at decoded
      · rename_i counter address named goes
        cases decoded
        refine ⟨[counter.val], some address, ?_, rfl,
          numbers_one (Code.number?_of_register? named), fun _ => ⟨rfl, goes⟩⟩
        simp [operands, fields]
      · cases decoded
  | jumpLess | jumpAtLeast =>
      simp only [Code.decode?, Code.countedJump?] at decoded
      split at decoded
      · rename_i counter bound address named bounded goes
        cases decoded
        refine ⟨[counter.val, bound], some address, ?_, rfl,
          numbers_two (Code.number?_of_register? named) bounded, fun _ => ⟨rfl, goes⟩⟩
        simp [operands, fields]
      · cases decoded
  | _ => cases numeric

variable {line line' : Line}

theorem payload_of_numeric (complete : line.Complete) (numeric : line.opcode.isNumeric = true) :
    line.payload = [] := by
  refine List.eq_nil_of_length_eq_zero ?_
  rw [complete.payload]
  cases named : line.opcode <;> simp_all [Opcode.isNumeric, Opcode.payloadSize]

/-- Operands are determined by what is shown of them. -/
theorem Shows.operands {text : List Char} {numbers : List Nat} {goal : Option Nat}
    (shows : Shows code address line.opcode text numbers goal) (held : code.Has address line.encode)
    (complete : line.Complete) {index : Nat} (inside : index < line.opcode.operandCount) :
    (index < numbers.length ∧ line.operands[index]?.map Operand.toNat = numbers[index]?) ∨
      (index = numbers.length ∧ ∃ place, goal = some place ∧
        line.operands[index]?.map (fun distance =>
          Int.ofNat (address + line.opcode.fixedSize) + distance.toInt) = some (Int.ofNat place)) := by
  have read : code.operand? address index = line.operands[index]? :=
    Code.operand?_of_has held (by rwa [complete.operands])
  have count := shows.count
  by_cases number : index < numbers.length
  · refine .inl ⟨number, ?_⟩
    rw [← read, ← shows.numbers index number]
    rfl
  · have jumps : line.opcode.hasTarget = true := by
      cases straight : line.opcode.hasTarget with
      | true => rfl
      | false =>
          rw [straight] at count
          simp only [Bool.false_eq_true, if_false] at count
          omega
    obtain ⟨given, goes⟩ := shows.goal jumps
    obtain ⟨place, same⟩ := Option.isSome_iff_exists.mp given
    rw [if_pos jumps] at count
    have last : index = line.opcode.operandCount - 1 := by omega
    refine .inr ⟨by omega, place, same, ?_⟩
    rw [same, Code.target?_eq_some_iff] at goes
    rw [← goes, ← read, last]
    rfl

theorem operands_eq_of_shows {text text' : List Char} {numbers : List Nat} {goal : Option Nat}
    (named : line.opcode = line'.opcode) (held : code.Has address line.encode)
    (held' : code'.Has address line'.encode) (complete : line.Complete) (complete' : line'.Complete)
    (shows : Shows code address line.opcode text numbers goal)
    (shows' : Shows code' address line'.opcode text' numbers goal) :
    line.operands = line'.operands := by
  refine List.ext_getElem? fun index => ?_
  by_cases inside : index < line.opcode.operandCount
  · have inside' : index < line'.opcode.operandCount := by rwa [← named]
    obtain ⟨early, shown⟩ | ⟨last, place, goes, shown⟩ := shows.operands held complete inside
    · obtain ⟨_, shown'⟩ | ⟨last', _⟩ := shows'.operands held' complete' inside'
      · exact (Option.map_inj_right fun _ _ => Operand.toNat_inj).mp (shown.trans shown'.symm)
      · omega
    · obtain ⟨early', _⟩ | ⟨_, place', goes', shown'⟩ := shows'.operands held' complete' inside'
      · omega
      · cases goes.symm.trans goes'
        rw [← named] at shown'
        refine (Option.map_inj_right fun _ _ same => ?_).mp (shown.trans shown'.symm)
        exact Int16.toInt_inj.mp (Int.add_left_cancel same)
  · rw [List.getElem?_eq_none (by rw [complete.operands]; omega),
      List.getElem?_eq_none (by rw [complete'.operands, ← named]; omega)]

theorem eq_of_shows {text : List Char} {numbers numbers' : List Nat} {goal goal' : Option Nat}
    (numeric : line.opcode.isNumeric = true) (named : line.opcode = line'.opcode)
    (held : code.Has address line.encode) (held' : code'.Has address line'.encode)
    (complete : line.Complete) (complete' : line'.Complete)
    (shows : Shows code address line.opcode text numbers goal)
    (shows' : Shows code' address line'.opcode text numbers' goal') : line = line' := by
  have level : numbers.length = numbers'.length := by
    have count := shows.count
    have count' := shows'.count
    rw [named] at count
    omega
  obtain ⟨rfl, rfl⟩ := fields_inj level (shows.text.symm.trans shows'.text)
  have bare := payload_of_numeric complete numeric
  have bare' := payload_of_numeric complete' (named ▸ numeric)
  have operands := operands_eq_of_shows named held held' complete complete' shows shows'
  obtain ⟨opcode, given, payload⟩ := line
  obtain ⟨opcode', given', payload'⟩ := line'
  cases named
  cases operands
  rw [show payload = [] from bare, show payload' = [] from bare']

/-! ## Bounds, strings and tests -/

theorem exists_bounds {greed : Greed} (repeats : line.opcode = greed.repeatOpcode)
    (held : code.Has address line.encode) (complete : line.Complete)
    (decoded : code.decode? address line.opcode = some instruction) :
    ∃ least most, line = .plain greed.repeatOpcode [least, most] ∧
      operands code instruction = bounds (Operand.toNat least)
        (if most = Operand.unbounded then none else some (Operand.toNat most)) := by
  have bare : line.payload.length = 0 := by
    rw [complete.payload, repeats]
    cases greed <;> rfl
  have count : line.operands.length = 2 := by
    rw [complete.operands, repeats]
    cases greed <;> rfl
  obtain ⟨least, rest, given⟩ := List.exists_cons_of_length_eq_add_one count
  obtain ⟨most, rfl⟩ := List.length_eq_one_iff.mp (Nat.succ.inj (given ▸ count : _ = 1 + 1))
  have decodes : code.repetition? address greed = some instruction := by
    rw [repeats] at decoded
    cases greed <;> exact decoded
  refine ⟨least, most, ?_, ?_⟩
  · rw [Line.plain, ← repeats, ← given, ← List.eq_nil_of_length_eq_zero bare]
  · have first := Code.number?_of_has held (by rw [given]; rfl : line.operands[0]? = some least)
    have second : code.operand? address 1 = some most := by
      rw [Code.operand?_of_has held (by omega), given]
      rfl
    rw [Code.repetition?, first, second] at decodes
    cases decodes
    rfl

theorem eq_of_bounds {greed : Greed} (repeats : line.opcode = greed.repeatOpcode)
    (repeats' : line'.opcode = greed.repeatOpcode) (held : code.Has address line.encode)
    (held' : code'.Has address line'.encode) (complete : line.Complete) (complete' : line'.Complete)
    (decoded : code.decode? address line.opcode = some instruction)
    (decoded' : code'.decode? address line'.opcode = some instruction')
    (same : (operands code instruction).toList = (operands code' instruction').toList) :
    line = line' := by
  obtain ⟨least, most, rfl, shown⟩ := exists_bounds repeats held complete decoded
  obtain ⟨least', most', rfl, shown'⟩ := exists_bounds repeats' held' complete' decoded'
  rw [shown, shown'] at same
  obtain ⟨lower, upper⟩ := bounds_inj same
  cases Operand.toNat_inj lower
  have mosts : most = most' := by
    split at upper <;> split at upper
    · rename_i unbounded unbounded'
      rw [unbounded, unbounded']
    · cases upper
    · cases upper
    · exact Operand.toNat_inj (Option.some.inj upper)
  rw [mosts]

theorem exists_length (textual : line.opcode = .str ∨ line.opcode = .strNoCase)
    (complete : line.Complete) :
    ∃ length, line.operands = [length] ∧ Operand.toNat length = line.payload.length := by
  have single : line.operands.length = 1 := by
    rw [complete.operands]
    obtain named | named := textual <;> rw [named] <;> rfl
  obtain ⟨length, given⟩ := List.length_eq_one_iff.mp single
  refine ⟨length, given, ?_⟩
  rw [complete.payload, given]
  obtain named | named := textual <;> rw [named] <;> rfl

theorem toList_operands_text (textual : line.opcode = .str ∨ line.opcode = .strNoCase)
    (held : code.Has address line.encode) (complete : line.Complete)
    (decoded : code.decode? address line.opcode = some instruction) :
    (operands code instruction).toList =
      " \"".toList ++ (Text.escapeBytes line.payload).toList ++ "\"".toList := by
  obtain ⟨length, given, counted⟩ := exists_length textual complete
  have decodes : ∃ caseless, code.text? address line.opcode caseless = some instruction := by
    obtain named | named := textual
    · rw [named] at decoded ⊢
      exact ⟨false, decoded⟩
    · rw [named] at decoded ⊢
      exact ⟨true, decoded⟩
  have first := Code.number?_of_has held (by rw [given]; rfl : line.operands[0]? = some length)
  have fixed : line.opcode.fixedSize = 1 + 2 * line.operands.length := by
    rw [given]
    obtain named | named := textual <;> rw [named] <;> rfl
  obtain ⟨caseless, decodes⟩ := decodes
  rw [Code.text?, first, counted, Option.bind_some, fixed] at decodes
  dsimp only at decodes
  split at decodes
  · rename_i bound
    cases decodes
    rw [operands, Code.extract_of_has (Code.payload_of_has held) bound]
    simp only [String.toList_append]
  · cases decodes

theorem eq_of_text (textual : line.opcode = .str ∨ line.opcode = .strNoCase)
    (named : line.opcode = line'.opcode) (held : code.Has address line.encode)
    (held' : code'.Has address line'.encode) (complete : line.Complete) (complete' : line'.Complete)
    (decoded : code.decode? address line.opcode = some instruction)
    (decoded' : code'.decode? address line'.opcode = some instruction')
    (same : (operands code instruction).toList = (operands code' instruction').toList) :
    line = line' := by
  have textual' : line'.opcode = .str ∨ line'.opcode = .strNoCase := by rwa [← named]
  rw [toList_operands_text textual held complete decoded,
    toList_operands_text textual' held' complete' decoded'] at same
  have payloads := Text.escapeBytes_inj (List.append_cancel_left (List.append_cancel_right same))
  obtain ⟨length, given, counted⟩ := exists_length textual complete
  obtain ⟨length', given', counted'⟩ := exists_length textual' complete'
  have lengths : length = length' := Operand.toNat_inj (by rw [counted, counted', payloads])
  obtain ⟨opcode, operands, payload⟩ := line
  obtain ⟨opcode', operands', payload'⟩ := line'
  cases named
  cases given
  cases given'
  cases payloads
  rw [lengths]

end Listing

/-- A line that consumes one byte is that of a test. No operand of it is larger than a byte. -/
def Line.Narrow (line : Line) : Prop :=
  line.opcode.isSingle = true → ∃ test : ByteTest, line = test.line

/-- The ways in which operands are shown. -/
theorem Opcode.kinds (opcode : Opcode) :
    opcode.isNumeric = true ∨ opcode.isSingle = true ∨ (opcode = .str ∨ opcode = .strNoCase) ∨
      ∃ greed : Greed, opcode = greed.repeatOpcode := by
  cases opcode with
  | str | strNoCase => exact .inr (.inr (.inl (by decide)))
  | repeatGreedy => exact .inr (.inr (.inr ⟨.greedy, rfl⟩))
  | repeatLazy => exact .inr (.inr (.inr ⟨.lazy, rfl⟩))
  | repeatPossessive => exact .inr (.inr (.inr ⟨.possessive, rfl⟩))
  | char | charNoCase | any | anyNoNewline | set | inClass | notInClass => exact .inr (.inl rfl)
  | _ => exact .inl rfl

/-- Lines that are shown alike at the same address of two codes are the same. -/
theorem Listing.eq_of_line {code code' : Code} {address next next' : Nat} {line line' : Line}
    {instruction instruction' : Instruction} (held : code.Has address line.encode)
    (held' : code'.Has address line'.encode) (complete : line.Complete) (complete' : line'.Complete)
    (narrow : line.Narrow) (narrow' : line'.Narrow)
    (read : code.instruction? address = some (instruction, next))
    (read' : code'.instruction? address = some (instruction', next'))
    (same : Listing.line code address = Listing.line code' address) : line = line' := by
  have known := Code.opcode?_of_has held
  have known' := Code.opcode?_of_has held'
  obtain ⟨_, named, shown⟩ := line_inj known read known' read' same
  have decoded := Code.decode?_of_instruction? read known
  have decoded' := Code.decode?_of_instruction? read' known'
  obtain numeric | single | textual | ⟨greed, repeats⟩ := line.opcode.kinds
  · obtain ⟨numbers, goal, shows⟩ := exists_shows numeric decoded
    obtain ⟨numbers', goal', shows'⟩ := exists_shows (named ▸ numeric) decoded'
    rw [← shown] at shows'
    exact eq_of_shows numeric named held held' complete complete' shows shows'
  · obtain ⟨test, rfl⟩ := narrow single
    obtain ⟨test', rfl⟩ := narrow' (named ▸ single)
    rw [Code.instruction?_test held] at read
    rw [Code.instruction?_test held'] at read'
    cases read
    cases read'
    rw [byteTest_inj named shown]
  · exact eq_of_text textual named held held' complete complete' decoded decoded' shown
  · exact eq_of_bounds repeats (named ▸ repeats) held held' complete complete' decoded decoded' shown

/-! ## Whole listings -/

namespace Listing

variable {code code' : Code} {start : Nat} {lines lines' : List Line} {line : Line}

/-- Lines of a code from an address on that a listing can show. -/
structure Shown (code : Code) (start : Nat) (lines : List Line) : Prop where
  held : code.Has start (Line.encodeAll lines)
  complete : ∀ line ∈ lines, line.Complete
  narrow : ∀ line ∈ lines, line.Narrow
  readable : ∀ address ∈ Line.offsets start lines, ∃ instruction next,
    code.instruction? address = some (instruction, next)

theorem Shown.tail {rest : List Line} (shown : Shown code start (line :: rest)) :
    Shown code (start + line.encode.length) rest where
  held := by
    have held := shown.held
    rw [Line.encodeAll_cons, Code.has_append] at held
    exact held.2
  complete := (List.forall_mem_cons.mp shown.complete).2
  narrow := (List.forall_mem_cons.mp shown.narrow).2
  readable := (List.forall_mem_cons.mp shown.readable).2

theorem Shown.head {rest : List Line} (shown : Shown code start (line :: rest)) :
    code.Has start line.encode := by
  have held := shown.held
  rw [Line.encodeAll_cons, Code.has_append] at held
  exact held.1

/-- Lines are determined by what a listing shows of them one after another. -/
theorem eq_of_lines (shown : Shown code start lines) (shown' : Shown code' start lines')
    (same : (Line.offsets start lines).map (Listing.line code) =
      (Line.offsets start lines').map (Listing.line code')) : lines = lines' := by
  induction lines generalizing start lines' with
  | nil =>
      cases lines' with
      | nil => rfl
      | cons line' rest' => cases same
  | cons line rest ih =>
      cases lines' with
      | nil => cases same
      | cons line' rest' =>
          injection same with first later
          obtain ⟨instruction, next, read⟩ := shown.readable start (List.mem_cons_self ..)
          obtain ⟨instruction', next', read'⟩ := shown'.readable start (List.mem_cons_self ..)
          have lines := eq_of_line shown.head shown'.head
            (shown.complete line (List.mem_cons_self ..)) (shown'.complete line' (List.mem_cons_self ..))
            (shown.narrow line (List.mem_cons_self ..)) (shown'.narrow line' (List.mem_cons_self ..))
            read read' first
          subst lines
          rw [ih shown.tail shown'.tail later]

theorem toList_listing (code : Code) :
    code.listing.toList =
      code.addresses.flatMap fun address => (Listing.line code address).toList ++ ['\n'] := by
  have folded : ∀ (addresses : List Nat) (text : String),
      (addresses.foldl (fun text address => text ++ Listing.line code address ++ "\n") text).toList =
        text.toList ++
          addresses.flatMap fun address => (Listing.line code address).toList ++ ['\n'] := by
    intro addresses
    induction addresses with
    | nil => simp
    | cons address addresses ih =>
        intro text
        rw [List.foldl_cons, ih, String.toList_append, String.toList_append, List.flatMap_cons]
        simp only [List.append_assoc]
        rfl
  exact folded code.addresses ""

theorem splitOn_flatMap {texts : List (List Char)} (clean : ∀ text ∈ texts, '\n' ∉ text) :
    (texts.flatMap (· ++ ['\n'])).splitOn '\n' = texts ++ [[]] := by
  induction texts with
  | nil => exact List.splitOn_nil _
  | cons text texts ih =>
      rw [List.forall_mem_cons] at clean
      rw [List.flatMap_cons, List.append_assoc, List.singleton_append,
        List.splitOn_append_cons_self_of_not_mem clean.1, ih clean.2, List.cons_append]

theorem newline_not_mem_line {address next : Nat} {instruction : Instruction}
    (read : code.instruction? address = some (instruction, next)) :
    '\n' ∉ (Listing.line code address).toList := by
  obtain ⟨opcode, known, _⟩ := Code.next_of_instruction? read
  rw [line_eq known read]
  simp only [String.toList_append, List.mem_append, not_or]
  refine ⟨⟨fun member => ?_, by decide⟩, fun member => ?_, newline_not_mem_operands code instruction⟩
  · exact absurd (Text.isDigit_of_mem_fourDigits member) (by decide)
  · exact absurd (Opcode.isAlpha_of_mem_name _ member) (by decide)

/-- Each line end in a listing ends the line of an instruction. -/
theorem splitOn_listing
    (readable : ∀ address ∈ code.addresses, ∃ instruction next,
      code.instruction? address = some (instruction, next)) :
    code.listing.toList.splitOn '\n' =
      code.addresses.map (fun address => (Listing.line code address).toList) ++ [[]] := by
  rw [toList_listing, ← splitOn_flatMap, List.flatMap_map]
  intro text listed
  obtain ⟨address, met, rfl⟩ := List.mem_map.mp listed
  obtain ⟨instruction, next, read⟩ := readable address met
  exact newline_not_mem_line read

end Listing

end ByteRegex
