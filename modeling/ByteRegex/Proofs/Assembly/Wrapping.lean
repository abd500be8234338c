import ByteRegex.Proofs.Assembly.Edits
import ByteRegex.Proofs.Assembly.LaidOut
import ByteRegex.Proofs.Assembly.Refusal
import ByteRegex.Proofs.Bytecode.Stream

/-!
# Wrapping

Steps are laid around the code behind a position whatever that code is. Their addresses come from
one walk over the steps and their bytes from another; still every jump arrives at its label.
-/

namespace ByteRegex

/-- A distance that an operand can hold. -/
def Near (target origin : Nat) : Prop :=
  -32768 ≤ Int.ofNat target - Int.ofNat origin ∧ Int.ofNat target - Int.ofNat origin ≤ 32767

theorem exists_jumpDistance_iff {target origin : Nat} :
    (∃ distance, jumpDistance target origin = .ok distance) ↔ Near target origin := by
  unfold jumpDistance Near
  dsimp only
  split
  · rename_i near
    exact ⟨fun _ => near, fun _ => ⟨_, rfl⟩⟩
  · rename_i far
    exact ⟨nofun, fun near => absurd near far⟩

namespace Step

variable {bodySize address : Nat} {target : Label → Nat}

/-- The steps that are instructions, as they stand in a code from an address on: each one has the
operands of its step, and a jump has one more, which takes it to its label. -/
inductive Stand (code : Code) (target : Label → Nat) : Nat → List Step → List UInt8 → Prop where
  | nil (address : Nat) : Stand code target address [] []
  | plain {address : Nat} {opcode : Opcode} {operands : List Int16} {rest : List Step}
      {bytes : List UInt8}
      (later : Stand code target (address + (opcode.encode operands).length) rest bytes) :
      Stand code target address (.plain opcode operands :: rest) (opcode.encode operands ++ bytes)
  | jump {address : Nat} {opcode : Opcode} {operands : List Int16} {label : Label}
      {distance : Int16} {rest : List Step} {bytes : List UInt8}
      (goes : code.jumpTarget? address opcode = some (Int.ofNat (target label)))
      (later : Stand code target (address + (opcode.encode (operands ++ [distance])).length) rest
        bytes) :
      Stand code target address (.jump opcode operands label :: rest)
        (opcode.encode (operands ++ [distance]) ++ bytes)
  | loopHead {address : Nat} {rest : List Step} {bytes : List UInt8}
      (here : target .loop = address) (later : Stand code target address rest bytes) :
      Stand code target address (.loopHead :: rest) bytes

/-- The steps one after another, with all distances in reach. -/
theorem encodeAll_cons_eq_ok {step : Step} {rest : List Step} {bytes : List UInt8} :
    encodeAll bodySize target address (step :: rest) = .ok bytes ↔
      ∃ own later, step.encode target address = .ok own ∧
        encodeAll bodySize target (address + step.size bodySize) rest = .ok later ∧
        bytes = own ++ later := by
  rw [encodeAll]
  cases step.encode target address with
  | error error => simp
  | ok own =>
      cases encodeAll bodySize target (address + step.size bodySize) rest with
      | error error => simp [Except.map]
      | ok later => simp [Except.map, eq_comm]

theorem encode_jump_eq_ok {opcode : Opcode} {operands : List Int16} {label : Label}
    {bytes : List UInt8} :
    (Step.jump opcode operands label).encode target address = .ok bytes ↔
      ∃ distance, jumpDistance (target label) (address + opcode.fixedSize) = .ok distance ∧
        bytes = opcode.encode (operands ++ [distance]) := by
  rw [encode]
  cases jumpDistance (target label) (address + opcode.fixedSize) with
  | error error => simp [Except.map]
  | ok distance => simp [Except.map, eq_comm]

/-- An instruction of a whole step has the size that its opcode says. -/
theorem length_of_encode {step : Step} (whole : step.Whole) (notBody : step ≠ .body)
    {bytes : List UInt8} (encoded : step.encode target address = .ok bytes) :
    bytes.length = step.size bodySize := by
  cases step with
  | body => exact absurd rfl notBody
  | loopHead =>
      cases encoded
      rfl
  | plain opcode operands =>
      cases encoded
      have length := Whole.length_plain whole.1 whole.2
      rwa [Line.encode, Line.plain, List.append_nil] at length
  | jump opcode operands label =>
      obtain ⟨distance, _, rfl⟩ := encode_jump_eq_ok.mp encoded
      have length : (Line.plain opcode (operands ++ [distance])).encode.length = opcode.fixedSize :=
        Whole.length_plain (by rw [List.length_append, ← whole.1]; rfl) whole.2
      rwa [Line.encode, Line.plain, List.append_nil] at length

theorem length_of_encodeAll {steps : List Step} (wholes : ∀ step ∈ steps, step.Whole)
    (bodyless : .body ∉ steps) {bytes : List UInt8}
    (encoded : encodeAll bodySize target address steps = .ok bytes) :
    bytes.length = sizes bodySize steps := by
  induction steps generalizing address bytes with
  | nil =>
      cases encoded
      rfl
  | cons step rest ih =>
      obtain ⟨whole, wholes⟩ := List.forall_mem_cons.mp wholes
      rw [List.mem_cons, not_or] at bodyless
      obtain ⟨own, later, first, behind, rfl⟩ := encodeAll_cons_eq_ok.mp encoded
      rw [List.length_append, length_of_encode whole (Ne.symm bodyless.1) first,
        ih wholes bodyless.2 behind]
      rfl

/-- Encoded steps stand where their bytes are. -/
theorem stand_of_encodeAll {code : Code} {steps : List Step} (wholes : ∀ step ∈ steps, step.Whole)
    (bodyless : .body ∉ steps) {bytes : List UInt8}
    (encoded : encodeAll bodySize target address steps = .ok bytes) (held : code.Has address bytes)
    (heads : ∀ front rest, steps = front ++ .loopHead :: rest →
      target .loop = address + sizes bodySize front) :
    Stand code target address steps bytes := by
  induction steps generalizing address bytes with
  | nil =>
      cases encoded
      exact .nil address
  | cons step rest ih =>
      obtain ⟨whole, wholes⟩ := List.forall_mem_cons.mp wholes
      rw [List.mem_cons, not_or] at bodyless
      obtain ⟨own, later, first, behind, rfl⟩ := encodeAll_cons_eq_ok.mp encoded
      obtain ⟨here, after⟩ := Code.has_append.mp held
      have length : own.length = step.size bodySize :=
        length_of_encode whole (Ne.symm bodyless.1) first
      have further : Stand code target (address + own.length) rest later := by
        rw [← length] at behind
        refine ih wholes bodyless.2 behind after fun front last same => ?_
        rw [heads (step :: front) last (by rw [same]; rfl), Nat.add_assoc, length]
        rfl
      cases step with
      | body => exact absurd rfl bodyless.1
      | loopHead =>
          cases first
          exact .loopHead (heads [] rest rfl) further
      | plain opcode operands =>
          cases first
          exact .plain further
      | jump opcode operands label =>
          obtain ⟨distance, near, rfl⟩ := encode_jump_eq_ok.mp first
          refine .jump ?_ further
          -- The label fills the last of the operands.
          have line : code.Has address (Line.plain opcode (operands ++ [distance])).encode := by
            rwa [Line.encode, Line.plain, List.append_nil]
          have last : (operands ++ [distance])[opcode.operandCount - 1]? = some distance := by
            rw [← whole.1, Nat.add_sub_cancel, List.getElem?_concat_length]
          have inside : opcode.operandCount - 1 < (operands ++ [distance]).length := by
            rw [List.length_append, ← whole.1]
            exact Nat.lt_succ_self _
          have read := Code.operand?_of_has line inside
          have reaches : Code.Reaches opcode address distance (0 + target label) :=
            reaches_of_jumpDistance near (Nat.zero_add _).symm
          rw [Nat.zero_add] at reaches
          rw [Code.jumpTarget?, read, Line.plain, last]
          exact congrArg some reaches

theorem exists_encode_iff {step : Step} :
    (∃ bytes, step.encode target address = .ok bytes) ↔
      ∀ opcode operands label, step = .jump opcode operands label →
        Near (target label) (address + opcode.fixedSize) := by
  cases step with
  | plain | loopHead | body => simp [encode]
  | jump opcode operands label =>
      constructor
      · rintro ⟨bytes, encoded⟩ opcode operands label same
        cases same
        obtain ⟨distance, near, _⟩ := encode_jump_eq_ok.mp encoded
        exact exists_jumpDistance_iff.mp ⟨distance, near⟩
      · intro reaches
        obtain ⟨distance, near⟩ := exists_jumpDistance_iff.mpr (reaches _ _ _ rfl)
        exact ⟨_, encode_jump_eq_ok.mpr ⟨distance, near, rfl⟩⟩

/-- Steps can be encoded if and only if each jump among them can hold its distance. -/
theorem exists_encodeAll_iff {steps : List Step} :
    (∃ bytes, encodeAll bodySize target address steps = .ok bytes) ↔
      ∀ front opcode operands label rest, steps = front ++ .jump opcode operands label :: rest →
        Near (target label) (address + sizes bodySize front + opcode.fixedSize) := by
  induction steps generalizing address with
  | nil => simp [encodeAll]
  | cons step rest ih =>
      constructor
      · rintro ⟨bytes, encoded⟩ front opcode operands label behind same
        obtain ⟨own, later, first, further, rfl⟩ := encodeAll_cons_eq_ok.mp encoded
        cases front with
        | nil =>
            cases same
            exact exists_encode_iff.mp ⟨own, first⟩ _ _ _ rfl
        | cons head front =>
            cases same
            have reaches := ih.mp ⟨later, further⟩ front opcode operands label behind rfl
            rwa [Nat.add_assoc address] at reaches
      · intro reaches
        have here : ∃ own, step.encode target address = .ok own :=
          exists_encode_iff.mpr fun opcode operands label same =>
            reaches [] opcode operands label rest (by rw [same]; rfl)
        have behind : ∃ later,
            encodeAll bodySize target (address + step.size bodySize) rest = .ok later := by
          refine ih.mpr fun front opcode operands label last same => ?_
          rw [Nat.add_assoc address]
          exact reaches (step :: front) opcode operands label last (by rw [same]; rfl)
        obtain ⟨own, first⟩ := here
        obtain ⟨later, further⟩ := behind
        exact ⟨_, encodeAll_cons_eq_ok.mpr ⟨own, later, first, further, rfl⟩⟩

theorem sizes_append (front back : List Step) :
    sizes bodySize (front ++ back) = sizes bodySize front + sizes bodySize back := by
  induction front with
  | nil => exact (Nat.zero_add _).symm
  | cons step front ih =>
      show step.size bodySize + sizes bodySize (front ++ back) = _
      rw [ih, ← Nat.add_assoc]
      rfl

theorem exists_encodeAll_append_iff {front back : List Step} :
    (∃ bytes, encodeAll bodySize target address (front ++ back) = .ok bytes) ↔
      (∃ ahead, encodeAll bodySize target address front = .ok ahead) ∧
        ∃ behind, encodeAll bodySize target (address + sizes bodySize front) back = .ok behind := by
  induction front generalizing address with
  | nil => simp [encodeAll, sizes]
  | cons step front ih =>
      have further := @ih (address + step.size bodySize)
      rw [Nat.add_assoc] at further
      simp only [List.cons_append, encodeAll_cons_eq_ok]
      constructor
      · rintro ⟨_, own, later, first, rest, rfl⟩
        obtain ⟨⟨ahead, encoded⟩, behind⟩ := further.mp ⟨later, rest⟩
        exact ⟨⟨_, own, ahead, first, encoded, rfl⟩, behind⟩
      · rintro ⟨⟨_, own, ahead, first, encoded, rfl⟩, behind⟩
        obtain ⟨later, rest⟩ := further.mpr ⟨⟨ahead, encoded⟩, behind⟩
        exact ⟨_, own, later, first, rest, rfl⟩

/-- Some jump among steps around a body is too far from its label. -/
def Far (bodySize start : Nat) (steps : List Step) : Prop :=
  ∃ front opcode operands label rest, steps = front ++ .jump opcode operands label :: rest ∧
    ¬ Near (labelAddress bodySize start steps label)
      (start + sizes bodySize front + opcode.fixedSize)

theorem headAddress_of_split {bodySize start : Nat} {front rest : List Step}
    (first : .loopHead ∉ front) :
    headAddress bodySize start (front ++ .loopHead :: rest) = start + sizes bodySize front := by
  have differs : ∀ step ∈ front, (decide (step ≠ .loopHead)) = true := fun step member =>
    decide_eq_true fun same => first (same ▸ member)
  rw [headAddress, if_pos (by simp), List.takeWhile_append_of_pos differs]
  simp

end Step

section

variable {start : Nat} {before after : List Step} {buffer result : CodeBuffer}

theorem wrap_eq_ok (ahead : .body ∉ before) :
    wrap start (before ++ .body :: after) buffer = .ok result ↔
      ∃ leading trailing,
        Step.encodeAll (buffer.code.size - start)
            (Step.labelAddress (buffer.code.size - start) start (before ++ .body :: after)) start
            before = .ok leading ∧
          Step.encodeAll (buffer.code.size - start)
              (Step.labelAddress (buffer.code.size - start) start (before ++ .body :: after))
              (start + Step.sizes (buffer.code.size - start) before) (.body :: after) =
            .ok trailing ∧
          result = (buffer.insert start leading).append trailing := by
  obtain ⟨front, back⟩ := Step.split_at_body ahead after
  have size : CodeSink.size buffer = buffer.code.size := rfl
  simp only [wrap, front, back, size]
  cases Step.encodeAll (buffer.code.size - start)
      (Step.labelAddress (buffer.code.size - start) start (before ++ .body :: after)) start
      before with
  | error error => simp
  | ok leading =>
      cases Step.encodeAll (buffer.code.size - start)
          (Step.labelAddress (buffer.code.size - start) start (before ++ .body :: after))
          (start + Step.sizes (buffer.code.size - start) before) (.body :: after) with
      | error error => simp
      | ok trailing => simp [eq_comm]; rfl

/-- Wrapping is refused if and only if some distance is out of reach. -/
theorem exists_wrap_iff (ahead : .body ∉ before) :
    (∃ result, wrap start (before ++ .body :: after) buffer = .ok result) ↔
      ¬ Step.Far (buffer.code.size - start) start (before ++ .body :: after) := by
  have whole := @Step.exists_encodeAll_iff (buffer.code.size - start) start
    (Step.labelAddress (buffer.code.size - start) start (before ++ .body :: after))
    (before ++ .body :: after)
  rw [Step.exists_encodeAll_append_iff] at whole
  simp only [Step.Far, not_exists, not_and, Classical.not_not, ← whole, wrap_eq_ok ahead]
  constructor
  · rintro ⟨_, leading, trailing, first, second, _⟩
    exact ⟨⟨leading, first⟩, trailing, second⟩
  · rintro ⟨⟨leading, first⟩, trailing, second⟩
    exact ⟨_, leading, trailing, first, second, rfl⟩

theorem wrap_of_far (ahead : .body ∉ before)
    (far : Step.Far (buffer.code.size - start) start (before ++ .body :: after)) :
    wrap start (before ++ .body :: after) buffer = .error .tooComplex := by
  cases wrapped : wrap start (before ++ .body :: after) buffer with
  | ok result => exact absurd far ((exists_wrap_iff ahead).mp ⟨result, wrapped⟩)
  | error error => rw [wrap_limited _ _ _ _ wrapped]

end

/-- A wrapping that is refused has not begun. -/
theorem wrapScript_edits_of_error {start : Nat} {steps : List Step} {buffer : CodeBuffer}
    {error : CompileError} (refused : wrap start steps buffer = .error error) :
    (wrapScript start steps buffer.code.size).edits = [] := by
  rw [wrap_eq_run] at refused
  revert refused
  show (wrapScript start steps buffer.code.size).run buffer = _ → _
  unfold wrapScript Script.enclosing
  dsimp only
  split
  · nofun
  all_goals exact fun _ => rfl

/-- The only head among some steps has none in front of it. -/
theorem Step.loopHead_of_split {bodySize start : Nat} {before after front rest : List Step}
    (once : before.count .loopHead ≤ 1) (split : before = front ++ .loopHead :: rest) :
    headAddress bodySize start (before ++ .body :: after) = start + sizes bodySize front := by
  have first : .loopHead ∉ front := by
    intro earlier
    have positive := List.count_pos_iff.mpr earlier
    rw [split, List.count_append, List.count_cons_self] at once
    omega
  rw [split, List.append_assoc, List.cons_append]
  exact headAddress_of_split first

section

variable {start : Nat} {before after : List Step} {buffer result : CodeBuffer}

/-- The bytes that wrapping leaves behind. -/
theorem bytes_of_wrap (ahead : .body ∉ before) (wholes : ∀ step ∈ before, step.Whole)
    (wrapped : wrap start (before ++ .body :: after) buffer = .ok result) {size : Nat}
    (bodySize : buffer.code.size - start = size) :
    let target := Step.labelAddress size start (before ++ .body :: after)
    ∃ leading trailing,
      Step.encodeAll size target start before = .ok leading ∧
        Step.encodeAll size target (start + leading.length + size) after = .ok trailing ∧
        result.code.toList =
          buffer.code.toList.take start ++
            (leading ++ (buffer.code.toList.drop start ++ trailing)) := by
  intro target
  obtain ⟨leading, trailing, first, second, same⟩ := (wrap_eq_ok ahead).mp wrapped
  obtain ⟨own, later, nothing, further, rfl⟩ := Step.encodeAll_cons_eq_ok.mp second
  cases nothing
  rw [bodySize] at first further
  refine ⟨leading, later, first, ?_, ?_⟩
  · rw [Step.length_of_encodeAll wholes ahead first]
    exact further
  · rw [same, CodeBuffer.toList_append, CodeBuffer.toList_insert]
    simp only [List.nil_append, List.append_assoc]

/-- The code that wrapping leaves behind, with its steps in their places. -/
theorem stand_of_wrap (inside : start ≤ buffer.code.size) (ahead : .body ∉ before)
    (behind : .body ∉ after) (late : .loopHead ∉ after) (once : before.count .loopHead ≤ 1)
    (wholes : ∀ step ∈ before ++ after, step.Whole)
    (wrapped : wrap start (before ++ .body :: after) buffer = .ok result) :
    ∃ head leading trailing,
      let target : Label → Nat := fun
        | .loop => head
        | .exit => result.code.size
      result.code.toList =
          buffer.code.toList.take start ++
            (leading ++ (buffer.code.toList.drop start ++ trailing)) ∧
        Step.Stand result.code target start before leading ∧
        Step.Stand result.code target (start + leading.length + (buffer.code.size - start)) after
          trailing ∧
        (.loopHead ∉ before → head = start) := by
  obtain ⟨wholesBefore, wholesAfter⟩ := List.forall_mem_append.mp wholes
  generalize bodySize : buffer.code.size - start = size
  obtain ⟨leading, trailing, first, further, code⟩ := bytes_of_wrap ahead wholesBefore wrapped bodySize
  have front : (buffer.code.toList.take start).length = start :=
    List.length_take_of_le (by rwa [Array.length_toList])
  have middle : (buffer.code.toList.drop start).length = size := by
    rw [List.length_drop, Array.length_toList, bodySize]
  have held := result.code.has_toList
  rw [code, Code.has_append, front, Nat.zero_add, Code.has_append, Code.has_append, middle] at held
  have ends : result.code.size = start + Step.sizes size (before ++ .body :: after) := by
    have total : Step.sizes size (.body :: after) = size + Step.sizes size after := rfl
    rw [← Array.length_toList, code, Step.sizes_append, total]
    simp only [List.length_append, front, middle, Step.length_of_encodeAll wholesBefore ahead first,
      Step.length_of_encodeAll wholesAfter behind further]
  have target : Step.labelAddress size start (before ++ .body :: after) = fun
      | .loop => Step.headAddress size start (before ++ .body :: after)
      | .exit => result.code.size := by
    funext label
    cases label with
    | loop => rfl
    | exit => exact ends.symm
  rw [target] at first further
  refine ⟨Step.headAddress size start (before ++ .body :: after), leading, trailing, code, ?_, ?_, ?_⟩
  · exact Step.stand_of_encodeAll wholesBefore ahead first held.2.1 fun _ _ split =>
      Step.loopHead_of_split once split
  · refine Step.stand_of_encodeAll wholesAfter behind further held.2.2.2 fun front rest split => ?_
    exact absurd (by rw [split]; simp) late
  · intro none
    rw [Step.headAddress, if_neg]
    simpa using ⟨none, late⟩

end

/-- Steps around the code from `start` on are laid in front of it and behind it, and nothing of the
code changes but its place. The jumps among them go to the head of the loop, which is the start where
no other is given, and to the end of the new code. If one of them is too far from its label, nothing
is laid at all. -/
theorem wrap_lays_around (buffer : CodeBuffer) {start : Nat} (inside : start ≤ buffer.code.size)
    {before after : List Step} (ahead : .body ∉ before) (behind : .body ∉ after)
    (late : .loopHead ∉ after) (once : before.count .loopHead ≤ 1)
    (wholes : ∀ step ∈ before ++ after, step.Whole) :
    let steps := before ++ .body :: after
    let bodySize := buffer.code.size - start
    let script := wrapScript start steps buffer.code.size
    wrap start steps buffer = script.run buffer ∧
      (Step.Far bodySize start steps →
        wrap start steps buffer = .error .tooComplex ∧
          Edit.applyAll buffer script.edits = buffer) ∧
      (¬ Step.Far bodySize start steps → ∃ result head leading trailing,
        let target : Label → Nat := fun
          | .loop => head
          | .exit => result.code.size
        wrap start steps buffer = .ok result ∧
          result.code.toList =
            buffer.code.toList.take start ++
              (leading ++ (buffer.code.toList.drop start ++ trailing)) ∧
          Step.Stand result.code target start before leading ∧
          Step.Stand result.code target (start + leading.length + bodySize) after trailing ∧
          (.loopHead ∉ before → head = start)) := by
  intro steps bodySize script
  refine ⟨wrap_eq_run start steps buffer, fun far => ?_, fun near => ?_⟩
  · have refused := wrap_of_far ahead far
    refine ⟨refused, ?_⟩
    rw [wrapScript_edits_of_error refused]
    rfl
  · obtain ⟨result, wrapped⟩ := (exists_wrap_iff ahead).mpr near
    obtain ⟨head, leading, trailing, code, first, second, starts⟩ :=
      stand_of_wrap inside ahead behind late once wholes wrapped
    exact ⟨result, head, leading, trailing, wrapped, code, first, second, starts⟩

/-- A letter that is taken up to five times, behind two other instructions. -/
theorem wrap_lays_around_letter :
    (∀ step ∈ [.plain .counterReset [0], .loopHead, .jump .branch [] .exit, .plain .counterInc [0]] ++
        [.jump .jumpLess [0, 5] .loop], Step.Whole step) ∧
      wrap 2 [.plain .counterReset [0], .loopHead, .jump .branch [] .exit, .plain .counterInc [0],
          .body, .jump .jumpLess [0, 5] .loop] (⟨#[8, 8, 3, 97, 0]⟩ : CodeBuffer) =
        .ok ⟨#[8, 8, 35, 0, 0, 25, 13, 0, 36, 0, 0, 3, 97, 0, 37, 0, 0, 5, 0, 240, 255]⟩ ∧
      Code.jumpTarget? #[8, 8, 35, 0, 0, 25, 13, 0, 36, 0, 0, 3, 97, 0, 37, 0, 0, 5, 0, 240, 255] 5
        .branch = some 21 := by
  have wholes : ∀ step ∈ [.plain .counterReset [0], .loopHead, .jump .branch [] .exit,
      .plain .counterInc [0]] ++ [.jump .jumpLess [0, 5] .loop], Step.Whole step := by
    simp [Step.Whole, Opcode.operandCount]
  have wrapped : wrap 2 [.plain .counterReset [0], .loopHead, .jump .branch [] .exit,
      .plain .counterInc [0], .body, .jump .jumpLess [0, 5] .loop]
        (⟨#[8, 8, 3, 97, 0]⟩ : CodeBuffer) = .ok
      ⟨#[8, 8, 35, 0, 0, 25, 13, 0, 36, 0, 0, 3, 97, 0, 37, 0, 0, 5, 0, 240, 255]⟩ := by rfl
  have inside : 2 ≤ (#[8, 8, 3, 97, 0] : Code).size := by decide
  have laid := wrap_lays_around ⟨#[8, 8, 3, 97, 0]⟩ inside (by decide) (by decide) (by decide)
    (by decide) wholes
  obtain ⟨result, head, leading, trailing, same, _, first, _⟩ :=
    laid.2.2 ((exists_wrap_iff (by decide)).mp ⟨_, wrapped⟩)
  cases same.symm.trans wrapped
  refine ⟨wholes, wrapped, ?_⟩
  cases first with
  | plain later =>
      cases later with
      | loopHead _ later =>
          cases later with
          | jump goes _ => exact goes

end ByteRegex
