import Mathlib.Data.List.Forall2
import ByteRegex.Proofs.Bytecode.WellFormed
import ByteRegex.Proofs.Semantics.Mirror

/-!
# Mirrored code

The code of mirrored expressions is laid out alike: line stands beside line, with the same
instructions between the parts that look at the subject and with instructions of the same size in
their place. So both codes are read at the same addresses, and what is read there sees the same.
-/

namespace ByteRegex

/-- Whether an instruction looks at the subject by itself. A repetition leaves that to the test
behind it. -/
def Opcode.looks : Opcode → Bool
  | char | charNoCase | str | strNoCase | any | anyNoNewline | set | inClass | notInClass
  | lineBegin | lineEnd | textBegin | textEnd | wordBoundary | notWordBoundary | wordBegin
  | wordEnd | backRef | backRefNoCase => true
  | _ => false

def Instruction.looks : Instruction → Bool
  | test _ | text _ _ _ | assertion _ | backReference _ _ => true
  | _ => false

/-- Instructions of two codes that see the same in two subjects. -/
inductive Instruction.Mirrors (code code' : Code) (left right : Array UInt8) :
    Instruction → Instruction → Prop where
  | same {instruction : Instruction} (blind : instruction.looks = false) :
      Mirrors code code' left right instruction instruction
  | test {test other : ByteTest} (mirrors : test.Mirrors left right other) :
      Mirrors code code' left right (.test test) (.test other)
  | text {caseless : Bool} {start stop : Nat}
      (agrees : ∀ position ≤ left.size,
        Machine.agree caseless left code (stop - start) position start =
          Machine.agree caseless right code' (stop - start) position start) :
      Mirrors code code' left right (.text caseless start stop) (.text caseless start stop)
  | assertion {condition other : Assertion} (mirrors : condition.Mirrors left right other) :
      Mirrors code code' left right (.assertion condition) (.assertion other)
  | backReference {caseless : Bool} (group : Fin Capacity.slots)
      (folded : Folded caseless left right) :
      Mirrors code code' left right (.backReference caseless group) (.backReference caseless group)

/-- Codes with mirrored instructions at the same addresses. -/
structure Code.Mirrors (code code' : Code) (left right : Array UInt8) : Prop where
  size : code.size = code'.size
  reads : ∀ entry ∈ code.entries, ∃ other,
    code'.instruction? entry.address = some (other, entry.next) ∧
      entry.instruction.Mirrors code code' left right other

/-- Lines of the same size that see the same in two subjects. -/
inductive Line.Mirrors (left right : Array UInt8) : Line → Line → Prop where
  | same {opcode : Opcode} {operands : List Int16} (count : operands.length = opcode.operandCount)
      (blind : opcode.looks = false) :
      Mirrors left right (.plain opcode operands) (.plain opcode operands)
  | test {test other : ByteTest} (mirrors : test.Mirrors left right other) :
      Mirrors left right test.line other.line
  | text {caseless : Bool} {bytes : List UInt8} (several : 2 ≤ bytes.length)
      (short : bytes.length ≤ Capacity.literal) (folded : Folded caseless left right) :
      Mirrors left right (literalLine caseless bytes) (literalLine caseless bytes)
  | assertion {condition other : Assertion} (mirrors : condition.Mirrors left right other) :
      Mirrors left right (.plain condition.opcode []) (.plain other.opcode [])
  | backReference {caseless : Bool} (group : Nat) (folded : Folded caseless left right) :
      Mirrors left right
        (.plain (if caseless then .backRefNoCase else .backRef) [Int16.ofNat group])
        (.plain (if caseless then .backRefNoCase else .backRef) [Int16.ofNat group])

namespace Code

variable {code code' : Code} {address next : Nat} {instruction : Instruction} {opcode : Opcode}

/-- What has no payload is decoded from its operands. -/
theorem decode?_congr (payload : opcode ≠ .set ∧ opcode ≠ .str ∧ opcode ≠ .strNoCase)
    (operands : ∀ index < opcode.operandCount,
      code.operand? address index = code'.operand? address index) :
    code.decode? address opcode = code'.decode? address opcode := by
  obtain ⟨notSet, notStr, notStrNoCase⟩ := payload
  cases opcode <;> simp_all [Opcode.operandCount, decode?, byte?, register?, number?, byteClass?,
    target?, jumpTarget?, repetition?, lookAhead?, lookBehind?, countedJump?, stuckJump?]

theorem looks_of_decode? (blind : opcode.looks = false)
    (decoded : code.decode? address opcode = some instruction) : instruction.looks = false := by
  cases opcode with
  | char | charNoCase | str | strNoCase | any | anyNoNewline | set | inClass | notInClass
  | lineBegin | lineEnd | textBegin | textEnd | wordBoundary | notWordBoundary | wordBegin
  | wordEnd | backRef | backRefNoCase => cases blind
  | succeed | subEnd | fail =>
      cases decoded
      rfl
  | _ =>
      simp only [decode?, repetition?, lookAhead?, lookBehind?, countedJump?, stuckJump?,
        Option.map_eq_some_iff] at decoded
      first
        | obtain ⟨_, _, rfl⟩ := decoded
          rfl
        | split at decoded <;> cases decoded
          rfl

/-- The same line without a payload is read the same in both codes. -/
theorem reads_plain {operands : List Int16} (count : operands.length = opcode.operandCount)
    (payload : opcode ≠ .set ∧ opcode ≠ .str ∧ opcode ≠ .strNoCase)
    (held : code.Has address (Line.plain opcode operands).encode)
    (held' : code'.Has address (Line.plain opcode operands).encode)
    (read : code.instruction? address = some (instruction, next)) :
    next = address + (Line.plain opcode operands).encode.length ∧
      code.decode? address opcode = some instruction ∧
      code'.instruction? address = some (instruction, next) := by
  have known : code.opcode? address = some opcode := opcode?_of_has held
  have decoded := decode?_of_instruction? read known
  obtain ⟨_, same, ends⟩ := next_of_instruction? read
  cases known.symm.trans same
  rw [if_neg (by simp [payload])] at ends
  have decoded' : code'.decode? address opcode = some instruction := by
    rw [← decoded]
    refine (decode?_congr payload fun index inside => ?_).symm
    have given : index < (Line.plain opcode operands).operands.length := by rwa [← count] at inside
    rw [operand?_of_has held given, operand?_of_has held' given]
  refine ⟨?_, decoded, ?_⟩
  · rw [Step.Whole.length_plain count payload.1]
    exact ends.1
  · rw [ends.1]
    exact instruction?_of_decode? (opcode?_of_has held') decoded' ends.2

end Code

namespace Line.Mirrors

variable {left right : Array UInt8} {line line' : Line} {lines lines' : List Line}

theorem length_eq (mirrors : line.Mirrors left right line') :
    line.encode.length = line'.encode.length := by
  cases mirrors with
  | same | text | backReference => rfl
  | test mirrors => rw [ByteTest.encode_line, ByteTest.encode_line, mirrors.length]
  | assertion => rw [Line.length_plain, Line.length_plain]

/-- What is read where mirrored lines stand. -/
theorem reads {code code' : Code} {address next : Nat} {instruction : Instruction}
    (mirrors : line.Mirrors left right line') (held : code.Has address line.encode)
    (held' : code'.Has address line'.encode) (level : left.size = right.size)
    (read : code.instruction? address = some (instruction, next)) :
    next = address + line.encode.length ∧ ∃ other,
      code'.instruction? address = some (other, next) ∧
        instruction.Mirrors code code' left right other := by
  cases mirrors with
  | @same opcode operands count blind =>
      have payload : opcode ≠ .set ∧ opcode ≠ .str ∧ opcode ≠ .strNoCase := by
        refine ⟨?_, ?_, ?_⟩ <;> rintro rfl <;> cases blind
      obtain ⟨ends, decoded, read'⟩ := Code.reads_plain count payload held held' read
      exact ⟨ends, instruction, read', .same (Code.looks_of_decode? blind decoded)⟩
  | @test test other mirrors =>
      cases read.symm.trans (Code.instruction?_test held)
      have level : other.line.encode.length = test.line.encode.length := by
        rw [ByteTest.encode_line, ByteTest.encode_line, mirrors.length]
      have read' := Code.instruction?_test held'
      rw [level] at read'
      exact ⟨rfl, .test other, read', .test mirrors⟩
  | @text caseless bytes several short folded =>
      obtain ⟨found, inside, size⟩ := Code.instruction?_text several short held
      obtain ⟨found', inside', _⟩ := Code.instruction?_text several short held'
      cases read.symm.trans found
      refine ⟨by rw [size, Nat.add_assoc], _, found', .text fun position bounded => ?_⟩
      have lowered : (if caseless then bytes.map Ascii.toLower else bytes).length =
          bytes.length := by
        split
        · exact List.length_map _
        · rfl
      have filled : (if caseless then bytes.map Ascii.toLower else bytes) ≠ [] := by
        intro none
        rw [none] at lowered
        have positive : 0 < bytes.length := Nat.lt_of_lt_of_le (by decide) several
        exact Nat.ne_of_lt positive lowered
      have spelled := Machine.agree_eq_spells caseless inside bounded
        (Nat.le_trans (Nat.le_add_right _ _) (Code.has_bound inside filled))
      have spelled' := Machine.agree_eq_spells caseless inside' (level ▸ bounded)
        (Nat.le_trans (Nat.le_add_right _ _) (Code.has_bound inside' filled))
      rw [lowered] at spelled spelled'
      rw [Nat.add_sub_cancel_left, spelled, spelled', folded.spells]
  | @assertion condition other mirrors =>
      cases read.symm.trans (Code.instruction?_assertion held)
      refine ⟨?_, _, Code.instruction?_assertion held', .assertion mirrors⟩
      rw [Line.length_plain]
      rfl
  | @backReference caseless group folded =>
      have count : [Int16.ofNat group].length =
          (if caseless then Opcode.backRefNoCase else .backRef).operandCount := by
        cases caseless <;> rfl
      obtain ⟨ends, decoded, read'⟩ := Code.reads_plain count (by cases caseless <;> decide) held
        held' read
      refine ⟨ends, instruction, read', ?_⟩
      cases caseless <;> obtain ⟨register, _, rfl⟩ := Option.map_eq_some_iff.mp decoded <;>
        exact .backReference register folded

theorem extent_eq (mirrors : List.Forall₂ (Line.Mirrors left right) lines lines') :
    extent lines = extent lines' := by
  induction mirrors with
  | nil => rfl
  | cons first _ ih => rw [extent_cons, extent_cons, first.length_eq, ih]

/-- Every instruction that is met in one code is met in the other, as both are read line by line. -/
theorem reads_all {code code' : Code} {start stop : Nat} {entries : List Entry}
    (mirrors : List.Forall₂ (Line.Mirrors left right) lines lines')
    (held : code.Has start (encodeAll lines)) (held' : code'.Has start (encodeAll lines'))
    (level : left.size = right.size) (row : code.Row start entries stop)
    (whole : stop = start + extent lines) :
    ∀ entry ∈ entries, ∃ other, code'.instruction? entry.address = some (other, entry.next) ∧
      entry.instruction.Mirrors code code' left right other := by
  induction mirrors generalizing start entries with
  | nil =>
      cases row with
      | nil => exact fun entry member => nomatch member
      | cons read later =>
          have ahead := Code.lt_of_instruction? read
          have reach := later.le
          have nothing : extent [] = 0 := rfl
          omega
  | @cons line line' rest rest' first _ ih =>
      rw [encodeAll_cons, Code.has_append] at held held'
      rw [extent_cons] at whole
      have positive := line.length_encode_pos
      cases row with
      | nil => omega
      | cons read later =>
          obtain ⟨ends, other, read', mirrored⟩ := first.reads held.1 held'.1 level read
          subst ends
          rw [← first.length_eq] at held'
          have others := ih held.2 held'.2 later (by omega)
          intro entry member
          rcases List.mem_cons.mp member with same | further
          · subst same
            exact ⟨other, read', mirrored⟩
          · exact others entry further

end Line.Mirrors

/-- Codes that consist of mirrored lines mirror each other. -/
theorem Code.Mirrors.of_lines {code code' : Code} {left right : Array UInt8}
    {lines lines' : List Line} (mirrors : List.Forall₂ (Line.Mirrors left right) lines lines')
    (whole : code.toList = Line.encodeAll lines) (whole' : code'.toList = Line.encodeAll lines')
    (level : left.size = right.size) (row : code.Row 0 code.entries code.size) :
    code.Mirrors code' left right where
  size := by
    rw [← Array.length_toList, ← Array.length_toList, whole, whole']
    exact Line.Mirrors.extent_eq mirrors
  reads := by
    have held := Code.has_toList code
    have held' := Code.has_toList code'
    rw [whole] at held
    rw [whole'] at held'
    refine Line.Mirrors.reads_all mirrors held held' level row ?_
    rw [← Array.length_toList, whole, Nat.zero_add]
    rfl

/-- Whether the instruction of a step looks at the subject. -/
def Step.Blind : Step → Prop
  | plain opcode _ | jump opcode _ _ => opcode.looks = false
  | loopHead | body => True

theorem Quantifier.loopSteps_blind (quantifier : Quantifier) (nullable : Bool) (counter : Nat) :
    ∀ step ∈ quantifier.loopSteps nullable counter, step.Blind := by
  unfold loopSteps
  dsimp only
  by_cases slow : quantifier.greed = .lazy
  all_goals
    simp only [slow, if_true, if_false]
    repeat' split
    all_goals simp [Step.Blind, Opcode.looks]

section Layout

variable {left right : Array UInt8} {lines lines' inner inner' : List Line}

/-- The same steps around mirrored bodies. -/
theorem Step.Assembles.mirrors {bodySize address : Nat} {target : Label → Nat} {steps : List Step}
    (bodies : List.Forall₂ (Line.Mirrors left right) inner inner')
    (wholes : ∀ step ∈ steps, step.Whole) (blinds : ∀ step ∈ steps, step.Blind)
    (assembled : Step.Assembles bodySize target inner address steps lines)
    (assembled' : Step.Assembles bodySize target inner' address steps lines') :
    List.Forall₂ (Line.Mirrors left right) lines lines' := by
  induction assembled generalizing lines' with
  | nil =>
      cases assembled'
      exact .nil
  | plain _ ih =>
      cases assembled' with
      | plain later' =>
          refine .cons (.same (wholes _ (List.mem_cons_self ..)).1 (blinds _ (List.mem_cons_self ..)))
            (ih (fun step member => wholes step (List.mem_cons_of_mem _ member))
              (fun step member => blinds step (List.mem_cons_of_mem _ member)) later')
  | jump near _ ih =>
      cases assembled' with
      | jump near' later' =>
          cases near.symm.trans near'
          have count := (wholes _ (List.mem_cons_self ..)).1
          refine .cons (.same ?_ (blinds _ (List.mem_cons_self ..)))
            (ih (fun step member => wholes step (List.mem_cons_of_mem _ member))
              (fun step member => blinds step (List.mem_cons_of_mem _ member)) later')
          rw [List.length_append, ← count]
          rfl
  | loopHead _ ih =>
      cases assembled' with
      | loopHead later' =>
          exact ih (fun step member => wholes step (List.mem_cons_of_mem _ member))
            (fun step member => blinds step (List.mem_cons_of_mem _ member)) later'
  | body _ ih =>
      cases assembled' with
      | body later' =>
          exact List.rel_append bodies
            (ih (fun step member => wholes step (List.mem_cons_of_mem _ member))
              (fun step member => blinds step (List.mem_cons_of_mem _ member)) later')

theorem Line.Mirrors.literal {caseless : Bool} (bytes : List UInt8)
    (folded : Folded caseless left right) :
    List.Forall₂ (Line.Mirrors left right) (literalLines caseless bytes)
      (literalLines caseless bytes) := by
  induction length : bytes.length using Nat.strongRecOn generalizing bytes with
  | _ total ih =>
      rw [literalLines]
      by_cases nothing : bytes = []
      · rw [dif_pos nothing]
        exact .nil
      · rw [dif_neg nothing]
        have positive := List.length_pos_iff.mpr nothing
        refine .cons ?_ (ih _ ?_ _ rfl)
        · have short : (bytes.take Capacity.literal).length ≤ Capacity.literal := by
            rw [List.length_take]
            exact Nat.min_le_left _ _
          have filled : 0 < (bytes.take Capacity.literal).length := by
            simp only [List.length_take, Capacity.literal]
            omega
          generalize bytes.take Capacity.literal = piece at short filled ⊢
          rcases piece with _ | ⟨byte, _ | ⟨second, rest⟩⟩
          · cases filled
          · exact .test (.of_literal folded byte)
          · exact .text (Nat.le_add_left 2 rest.length) short folded
        · simp only [List.length_drop, Capacity.literal]
          omega

/-- Mirrored expressions have mirrored lines. -/
theorem Expr.Mirrors.layout {expr other : Expr} (mirrors : expr.Mirrors left right other)
    (assembled : expr.Assembles lines) (assembled' : other.Assembles lines') :
    List.Forall₂ (Line.Mirrors left right) lines lines' := by
  have enclosed : ∀ {steps : List Step} {inner inner' lines lines' : List Line},
      (∀ step ∈ steps, step.Whole) → (∀ step ∈ steps, step.Blind) →
      List.Forall₂ (Line.Mirrors left right) inner inner' →
      Step.Assembles (Line.extent inner) (Step.labelAddress (Line.extent inner) 0 steps) inner 0
        steps lines →
      Step.Assembles (Line.extent inner') (Step.labelAddress (Line.extent inner') 0 steps) inner' 0
        steps lines' → List.Forall₂ (Line.Mirrors left right) lines lines' := by
    intro steps inner inner' lines lines' wholes blinds bodies around around'
    rw [← Line.Mirrors.extent_eq bodies] at around'
    exact Step.Assembles.mirrors bodies wholes blinds around around'
  induction mirrors generalizing lines lines' with
  | empty =>
      cases assembled
      cases assembled'
      exact .nil
  | test mirrors =>
      cases assembled
      cases assembled'
      exact .cons (.test mirrors) .nil
  | literal bytes folded =>
      cases assembled
      cases assembled'
      exact Line.Mirrors.literal bytes folded
  | assertion mirrors =>
      cases assembled
      cases assembled'
      exact .cons (.assertion mirrors) .nil
  | backReference group folded =>
      cases assembled
      cases assembled'
      exact .cons (.backReference group folded) .nil
  | sequence _ _ former latter =>
      cases assembled with
      | sequence first second =>
          cases assembled' with
          | sequence first' second' =>
              exact List.rel_append (former first first') (latter second second')
  | alternative _ _ former latter =>
      cases assembled with
      | alternative first second skips leaves =>
          cases assembled' with
          | alternative first' second' skips' leaves' =>
              have tried := former first first'
              have otherwise := latter second second'
              rw [← Line.Mirrors.extent_eq tried] at skips' leaves'
              rw [← Line.Mirrors.extent_eq otherwise] at leaves'
              cases skips.symm.trans skips'
              cases leaves.symm.trans leaves'
              exact .cons (.same rfl rfl) (List.rel_append tried (.cons (.same rfl rfl) otherwise))
  | capture group _ ih =>
      cases assembled with
      | capture _ within =>
          cases assembled' with
          | capture _ within' =>
              exact .cons (.same rfl rfl)
                (List.rel_append (ih within within') (.cons (.same rfl rfl) .nil))
  | repetition quantifier mirrors =>
      cases assembled
      cases assembled'
      refine .cons (.same ?_ ?_) (.cons (.test mirrors) .nil)
      · cases quantifier.greed <;> rfl
      · cases quantifier.greed <;> rfl
  | loop quantifier nullable counter _ ih =>
      cases assembled with
      | loop within around =>
          cases assembled' with
          | loop within' around' =>
              exact enclosed (quantifier.loopSteps_whole nullable counter)
                (quantifier.loopSteps_blind nullable counter) (ih within within') around around'
  | atomic _ ih =>
      cases assembled with
      | atomic within around =>
          cases assembled' with
          | atomic within' around' =>
              refine enclosed ?_ ?_ (ih within within') around around'
              · simp [atomicSteps, Step.Whole, Opcode.operandCount]
              · simp [atomicSteps, Step.Blind, Opcode.looks]
  | look direction width _ ih =>
      cases assembled with
      | look within around =>
          cases assembled' with
          | look within' around' =>
              refine enclosed ?_ ?_ (ih within within') around around' <;> cases direction
              all_goals simp [Look.steps, Look.opcode, Look.isBehind, Step.Whole, Step.Blind,
                Opcode.operandCount, Opcode.looks]

end Layout

end ByteRegex
