import ByteRegex.Proofs.Bytecode.Decode

/-!
# Layout

The lines of an expression, laid out from the outside in: nothing is inserted or patched, and every
address counts from the start of the fragment. What the emitter leaves behind by inserting and
patching are the bytes of these lines.
-/

namespace ByteRegex

theorem jumpDistance_shift (base target origin : Nat) :
    jumpDistance (base + target) (base + origin) = jumpDistance target origin := by
  have same : Int.ofNat (base + target) - Int.ofNat (base + origin) =
      Int.ofNat target - Int.ofNat origin := by
    simp only [Int.ofNat_eq_natCast]
    omega
  simp only [jumpDistance, same]

theorem toInt_of_jumpDistance {target origin : Nat} {distance : Int16}
    (near : jumpDistance target origin = .ok distance) :
    distance.toInt = Int.ofNat target - Int.ofNat origin := by
  unfold jumpDistance at near
  dsimp only at near
  split at near
  · rename_i bounds
    cases near
    exact Int16.toInt_ofInt_of_le bounds.1 (by omega)
  · cases near

namespace Step

/-- The lines of steps from an address on, around a body of other lines. -/
inductive Assembles (bodySize : Nat) (target : Label → Nat) (inner : List Line) :
    Nat → List Step → List Line → Prop where
  | nil (address : Nat) : Assembles bodySize target inner address [] []
  | plain {address : Nat} {opcode : Opcode} {operands : List Int16} {rest : List Step}
      {lines : List Line}
      (later : Assembles bodySize target inner (address + opcode.fixedSize) rest lines) :
      Assembles bodySize target inner address (.plain opcode operands :: rest)
        (.plain opcode operands :: lines)
  | jump {address : Nat} {opcode : Opcode} {operands : List Int16} {label : Label}
      {distance : Int16} {rest : List Step} {lines : List Line}
      (near : jumpDistance (target label) (address + opcode.fixedSize) = .ok distance)
      (later : Assembles bodySize target inner (address + opcode.fixedSize) rest lines) :
      Assembles bodySize target inner address (.jump opcode operands label :: rest)
        (.plain opcode (operands ++ [distance]) :: lines)
  | loopHead {address : Nat} {rest : List Step} {lines : List Line}
      (later : Assembles bodySize target inner address rest lines) :
      Assembles bodySize target inner address (.loopHead :: rest) lines
  | body {address : Nat} {rest : List Step} {lines : List Line}
      (later : Assembles bodySize target inner (address + bodySize) rest lines) :
      Assembles bodySize target inner address (.body :: rest) (inner ++ lines)

variable {bodySize : Nat} {target : Label → Nat} {inner : List Line}

theorem Assembles.append {address : Nat} {front back : List Step} {ahead behind : List Line}
    (first : Assembles bodySize target inner address front ahead)
    (second : Assembles bodySize target inner (address + sizes bodySize front) back behind) :
    Assembles bodySize target inner address (front ++ back) (ahead ++ behind) := by
  induction first with
  | nil address => exact second
  | plain _ ih =>
      refine .plain (ih ?_)
      rwa [Nat.add_assoc]
  | jump near _ ih =>
      refine .jump near (ih ?_)
      rwa [Nat.add_assoc]
  | loopHead _ ih =>
      refine .loopHead (ih ?_)
      simpa [sizes, Step.size] using second
  | body _ ih =>
      rw [List.append_assoc]
      refine .body (ih ?_)
      rwa [Nat.add_assoc]

theorem labelAddress_shift (bodySize start : Nat) (steps : List Step) (label : Label) :
    labelAddress bodySize start steps label = start + labelAddress bodySize 0 steps label := by
  cases label with
  | exit => simp only [labelAddress, Nat.zero_add]
  | loop =>
      simp only [labelAddress, headAddress]
      split <;> omega

/-- Steps around a body that is laid out already: they assemble to lines, and without the body the
bytes of the lines are those that are encoded. -/
theorem assembles_of_encodeAll (inner : List Line) {start : Nat} (address : Nat) {steps : List Step}
    {bytes : List UInt8} (bodyless : body ∉ steps)
    (encoded : encodeAll bodySize (fun label => start + target label) (start + address) steps =
      .ok bytes) :
    ∃ lines, Assembles bodySize target inner address steps lines ∧ Line.encodeAll lines = bytes := by
  induction steps generalizing address bytes with
  | nil =>
      cases encoded
      exact ⟨[], .nil address, rfl⟩
  | cons step rest ih =>
      simp only [List.mem_cons, not_or] at bodyless
      obtain ⟨notBody, bodyless⟩ := bodyless
      simp only [encodeAll] at encoded
      split at encoded
      · cases encoded
      · rename_i own found
        rw [Nat.add_assoc] at encoded
        rcases tail : encodeAll bodySize (fun label => start + target label)
            (start + (address + step.size bodySize)) rest with error | later
        · rw [tail] at encoded
          cases encoded
        · rw [tail] at encoded
          cases encoded
          obtain ⟨lines, assembled, same⟩ := ih _ bodyless tail
          cases step with
          | body => exact absurd rfl notBody
          | loopHead =>
              cases found
              exact ⟨lines, .loopHead assembled, same⟩
          | plain opcode operands =>
              cases found
              refine ⟨_, .plain assembled, ?_⟩
              rw [Line.encodeAll_cons, same]
              simp only [Line.encode, Line.plain, List.append_nil]
          | jump opcode operands label =>
              simp only [encode, Nat.add_assoc, jumpDistance_shift] at found
              rcases near : jumpDistance (target label) (address + opcode.fixedSize) with
                error | distance
              · rw [near] at found
                cases found
              · rw [near] at found
                cases found
                refine ⟨_, .jump near assembled, ?_⟩
                rw [Line.encodeAll_cons, same]
                simp only [Line.encode, Line.plain, List.append_nil]

/-- Where the body is among its steps. -/
theorem split_at_body {before : List Step} (ahead : .body ∉ before) (after : List Step) :
    (before ++ .body :: after).takeWhile (· ≠ .body) = before ∧
      (before ++ .body :: after).dropWhile (· ≠ .body) = .body :: after := by
  have differs : ∀ step ∈ before, (decide (step ≠ .body)) = true := fun step member =>
    decide_eq_true fun same => ahead (same ▸ member)
  rw [List.takeWhile_append_of_pos differs, List.dropWhile_append_of_pos differs]
  simp

/-- Steps that are encoded in front of a body and behind it, all of them together with the body. -/
theorem assembles_around {start : Nat} {before after : List Step} {inner : List Line}
    {leading trailing : List UInt8} (ahead : body ∉ before) (behind : body ∉ after)
    (first : encodeAll (Line.extent inner)
      (labelAddress (Line.extent inner) start (before ++ body :: after)) start before = .ok leading)
    (second : encodeAll (Line.extent inner)
      (labelAddress (Line.extent inner) start (before ++ body :: after))
      (start + sizes (Line.extent inner) before) (body :: after) = .ok trailing) :
    ∃ front back, Assembles (Line.extent inner)
        (labelAddress (Line.extent inner) 0 (before ++ body :: after)) inner 0
        (before ++ body :: after) (front ++ (inner ++ back)) ∧
      Line.encodeAll front = leading ∧ Line.encodeAll back = trailing := by
  have shifted : labelAddress (Line.extent inner) start (before ++ body :: after) =
      fun label => start + labelAddress (Line.extent inner) 0 (before ++ body :: after) label :=
    funext (labelAddress_shift _ _ _)
  generalize labelAddress (Line.extent inner) 0 (before ++ body :: after) = target at shifted ⊢
  rw [shifted] at first second
  obtain ⟨front, aheadAssembled, aheadBytes⟩ := assembles_of_encodeAll inner 0 ahead first
  rcases tail : encodeAll (Line.extent inner) (fun label => start + target label)
      (start + (sizes (Line.extent inner) before + Line.extent inner)) after with error | later
  · simp only [encodeAll, Step.encode, Step.size, Nat.add_assoc, tail] at second
    cases second
  · simp only [encodeAll, Step.encode, Step.size, Nat.add_assoc, tail] at second
    cases second
    obtain ⟨back, behindAssembled, behindBytes⟩ :=
      assembles_of_encodeAll inner (sizes (Line.extent inner) before + Line.extent inner) behind tail
    rw [← Nat.zero_add (sizes (Line.extent inner) before)] at behindAssembled
    exact ⟨front, back, aheadAssembled.append (.body behindAssembled), aheadBytes, behindBytes⟩

/-- Wrapping a finished fragment lays its lines between those of the steps. -/
theorem assembles_of_wrap {start : Nat} {before after : List Step} {inner : List Line}
    {buffer result : CodeBuffer} (ahead : body ∉ before) (behind : body ∉ after)
    (held : buffer.code.toList.drop start = Line.encodeAll inner)
    (wrapped : wrap start (before ++ body :: after) buffer = .ok result) :
    ∃ lines, Assembles (Line.extent inner)
        (labelAddress (Line.extent inner) 0 (before ++ body :: after)) inner 0
        (before ++ body :: after) lines ∧
      result.code.toList = buffer.code.toList.take start ++ Line.encodeAll lines := by
  have bodySize : CodeSink.size buffer - start = Line.extent inner := by
    rw [Line.extent, ← held, List.length_drop, Array.length_toList]
    rfl
  obtain ⟨front, back⟩ := split_at_body ahead after
  simp only [wrap, bodySize, front, back] at wrapped
  split at wrapped
  · rename_i leading trailing first second
    cases wrapped
    obtain ⟨aheadLines, behindLines, assembled, aheadBytes, behindBytes⟩ :=
      assembles_around ahead behind first second
    refine ⟨_, assembled, ?_⟩
    show ((buffer.insert start leading).append _).code.toList = _
    rw [CodeBuffer.toList_append, CodeBuffer.toList_insert, held, Line.encodeAll_append,
      Line.encodeAll_append, aheadBytes, behindBytes]
    simp only [List.append_assoc]
  · cases wrapped
  · cases wrapped

end Step

/-- The lines of a literal of any length. -/
def literalLines (caseless : Bool) (bytes : List UInt8) : List Line :=
  if _filled : bytes = [] then []
  else
    literalLine caseless (bytes.take Capacity.literal) ::
      literalLines caseless (bytes.drop Capacity.literal)
termination_by bytes.length
decreasing_by
  have positive := List.length_pos_iff.mpr _filled
  simp only [List.length_drop, Capacity.literal]
  omega

/-- The lines of an expression. -/
inductive Expr.Assembles : Expr → List Line → Prop where
  | empty : Assembles .empty []
  | test (single : ByteTest) : Assembles (.test single) [single.line]
  | literal (caseless : Bool) (bytes : List UInt8) :
      Assembles (.literal caseless bytes) (literalLines caseless bytes)
  | assertion (condition : Assertion) :
      Assembles (.assertion condition) [.plain condition.opcode []]
  | backReference (caseless : Bool) (group : Nat) :
      Assembles (.backReference caseless group)
        [.plain (if caseless then .backRefNoCase else .backRef) [Int16.ofNat group]]
  | sequence {first second : Expr} {ahead behind : List Line} (former : Assembles first ahead)
      (latter : Assembles second behind) : Assembles (.sequence first second) (ahead ++ behind)
  | alternative {first second : Expr} {ahead behind : List Line} {skip leave : Int16}
      (former : Assembles first ahead) (latter : Assembles second behind)
      (skips : jumpDistance (3 + Line.extent ahead + 3) 3 = .ok skip)
      (leaves : jumpDistance (3 + Line.extent ahead + 3 + Line.extent behind)
        (3 + Line.extent ahead + 3) = .ok leave) :
      Assembles (.alternative first second)
        (.plain .branch [skip] :: ahead ++ .plain .jump [leave] :: behind)
  | capture (group : Nat) {body : Expr} {inner : List Line} (within : Assembles body inner) :
      Assembles (.capture group body)
        (.plain .openGroup [Int16.ofNat group] :: inner ++
          [.plain .closeGroup [Int16.ofNat group]])
  | repetition (quantifier : Quantifier) (single : ByteTest) :
      Assembles (.repetition quantifier single) [repetitionLine quantifier, single.line]
  | loop {quantifier : Quantifier} {nullable : Bool} {counter : Nat} {body : Expr}
      {inner lines : List Line} (within : Assembles body inner)
      (around : Step.Assembles (Line.extent inner)
        (Step.labelAddress (Line.extent inner) 0 (quantifier.loopSteps nullable counter)) inner 0
        (quantifier.loopSteps nullable counter) lines) :
      Assembles (.loop quantifier nullable counter body) lines
  | atomic {body : Expr} {inner lines : List Line} (within : Assembles body inner)
      (around : Step.Assembles (Line.extent inner)
        (Step.labelAddress (Line.extent inner) 0 atomicSteps) inner 0 atomicSteps lines) :
      Assembles (.atomic body) lines
  | look {direction : Look} {width : Nat} {body : Expr} {inner lines : List Line}
      (within : Assembles body inner)
      (around : Step.Assembles (Line.extent inner)
        (Step.labelAddress (Line.extent inner) 0 (direction.steps width)) inner 0
        (direction.steps width) lines) :
      Assembles (.look direction width body) lines

theorem CodeBuffer.toList_patch {buffer : CodeBuffer} {front back : List UInt8} {old : Int16}
    (new : Int16) (held : buffer.code.toList = front ++ (Operand.toBytes old ++ back)) :
    (buffer.patch front.length new).code.toList = front ++ (Operand.toBytes new ++ back) := by
  simp only [patch, Operand.toBytes, Array.toList_setIfInBounds, held, List.cons_append,
    List.nil_append]
  simp

theorem CodeBuffer.size_eq (buffer : CodeBuffer) :
    CodeSink.size buffer = buffer.code.toList.length := Array.length_toList.symm

/-- The end of a branch that another one follows: a choice in front, and a jump behind it that does
not know its way yet. -/
theorem toList_endBranch {front inner : List UInt8} {buffer ended : CodeBuffer}
    (held : buffer.code.toList = front ++ inner)
    (closed : endBranch front.length buffer = .ok ended) :
    ∃ skip, jumpDistance (3 + inner.length + 3) 3 = .ok skip ∧ ended.code.toList =
      front ++ (Opcode.branch.encode [skip] ++ (inner ++ Opcode.jump.encode [0])) := by
  have relative : jumpDistance (CodeSink.size buffer + Opcode.jump.fixedSize) front.length =
      jumpDistance (3 + inner.length + 3) 3 := by
    have shifted := jumpDistance_shift front.length (inner.length + 3) 0
    rw [buffer.size_eq, held, List.length_append, show Opcode.jump.fixedSize = 3 from rfl,
      Nat.add_assoc]
    exact shifted.trans (by rw [← jumpDistance_shift 3, Nat.add_assoc])
  unfold endBranch at closed
  dsimp only at closed
  rw [relative] at closed
  rcases skips : jumpDistance (3 + inner.length + 3) 3 with error | skip
  · rw [skips] at closed
    cases closed
  · rw [skips] at closed
    cases closed
    refine ⟨skip, rfl, ?_⟩
    show ((buffer.insert _ _).append _).code.toList = _
    rw [CodeBuffer.toList_append, CodeBuffer.toList_insert, held, List.take_left, List.drop_left]
    simp only [List.append_assoc]

/-- The waiting jump is sent to the end of the code. -/
theorem toList_landJump {front behind : List UInt8} {old : Int16} {buffer result : CodeBuffer}
    (held : buffer.code.toList = front ++ (Opcode.jump.encode [old] ++ behind))
    (landed : landJump (front.length + 3) buffer = .ok result) :
    ∃ leave, jumpDistance (front.length + 3 + behind.length) (front.length + 3) = .ok leave ∧
      result.code.toList = front ++ (Opcode.jump.encode [leave] ++ behind) := by
  have total : CodeSink.size buffer = front.length + 3 + behind.length := by
    rw [buffer.size_eq, held]
    simp only [List.length_append, Opcode.length_encode, List.length_singleton]
    omega
  unfold landJump at landed
  rw [total] at landed
  rcases leaves : jumpDistance (front.length + 3 + behind.length) (front.length + 3) with
    error | leave
  · rw [leaves] at landed
    cases landed
  · rw [leaves] at landed
    cases landed
    refine ⟨leave, rfl, ?_⟩
    have split : buffer.code.toList =
        (front ++ [Opcode.jump.toByte]) ++ (Operand.toBytes old ++ behind) := by
      rw [held]
      simp [Opcode.encode]
    have patched := CodeBuffer.toList_patch leave split
    show (buffer.patch (front.length + 3 - 2) leave).code.toList = _
    rw [List.length_append] at patched
    rw [show front.length + 3 - 2 = front.length + [Opcode.jump.toByte].length from rfl, patched]
    simp [Opcode.encode]

theorem toList_appendLiteral (caseless : Bool) (bytes : List UInt8) (buffer : CodeBuffer) :
    (appendLiteral caseless bytes buffer).code.toList =
      buffer.code.toList ++ Line.encodeAll (literalLines caseless bytes) := by
  induction length : bytes.length using Nat.strongRecOn generalizing bytes buffer with
  | _ total ih =>
      rw [appendLiteral, literalLines]
      by_cases nothing : bytes = []
      · rw [if_pos (List.isEmpty_iff.mpr nothing), dif_pos nothing]
        exact (List.append_nil _).symm
      · have positive := List.length_pos_iff.mpr nothing
        have shorter : (bytes.drop Capacity.literal).length < total := by
          simp only [List.length_drop, Capacity.literal]
          omega
        have sunk : CodeSink.append buffer (literalCode caseless (bytes.take Capacity.literal)) =
          buffer.append (literalCode caseless (bytes.take Capacity.literal)) := rfl
        rw [if_neg (fun empty => nothing (List.isEmpty_iff.mp empty)), dif_neg nothing,
          Line.encodeAll_cons, literalLine_encode, sunk, ih _ shorter _ _ rfl,
          CodeBuffer.toList_append, List.append_assoc]

/-- The steps of a loop are laid around one body. -/
theorem Quantifier.loopSteps_split (quantifier : Quantifier) (nullable : Bool) (counter : Nat) :
    ∃ before after, quantifier.loopSteps nullable counter = before ++ .body :: after ∧
      Step.body ∉ before ∧ Step.body ∉ after := by
  unfold loopSteps
  dsimp only
  split
  · exact ⟨[_], [], rfl, by simp, by simp⟩
  · split
    · exact ⟨[_, _], [_, _], rfl, by simp, by simp⟩
    · exact ⟨[_], [_], rfl, by simp, by simp⟩
  · split
    · exact ⟨[_], [_, _], rfl, by simp, by simp⟩
    · exact ⟨[], [_], rfl, by simp, by simp⟩
  · exact ⟨[_, _, _, _], [_], rfl, by simp, by simp⟩
  · split
    · exact ⟨[_, _, _], [_, _, _], rfl, by simp, by simp⟩
    · exact ⟨[_, _, _], [_, _], rfl, by simp, by simp⟩
  · split
    · exact ⟨[_, _, _], [_], rfl, by simp, by simp⟩
    · exact ⟨[_, _, _], [_, _, _], rfl, by simp, by simp⟩

namespace Expr

theorem assembles_of_emit_wrap {body : Expr} {before after : List Step}
    {buffer result : CodeBuffer}
    (ih : ∀ {buffer result : CodeBuffer}, body.emit buffer = .ok result → ∃ lines,
      body.Assembles lines ∧ result.code.toList = buffer.code.toList ++ Line.encodeAll lines)
    (ahead : Step.body ∉ before) (behind : Step.body ∉ after)
    (emitted : (body.emit buffer).bind (wrap (CodeSink.size buffer) (before ++ .body :: after)) =
      .ok result) :
    ∃ inner lines, body.Assembles inner ∧ Step.Assembles (Line.extent inner)
        (Step.labelAddress (Line.extent inner) 0 (before ++ .body :: after)) inner 0
        (before ++ .body :: after) lines ∧
      result.code.toList = buffer.code.toList ++ Line.encodeAll lines := by
  rcases found : body.emit buffer with error | middle
  · rw [found] at emitted
    cases emitted
  · rw [found] at emitted
    obtain ⟨inner, within, start⟩ := ih found
    have size := buffer.size_eq
    have held : middle.code.toList.drop (CodeSink.size buffer) = Line.encodeAll inner := by
      rw [start, size, List.drop_left]
    obtain ⟨lines, around, finish⟩ := Step.assembles_of_wrap ahead behind held emitted
    refine ⟨inner, lines, within, around, ?_⟩
    rw [finish, start, size, List.take_left]

/-- The emitter appends the lines of an expression. -/
theorem assembles_of_emit (expr : Expr) {buffer result : CodeBuffer}
    (emitted : expr.emit buffer = .ok result) :
    ∃ lines, expr.Assembles lines ∧
      result.code.toList = buffer.code.toList ++ Line.encodeAll lines := by
  induction expr generalizing buffer result with
  | empty =>
      cases emitted
      exact ⟨[], .empty, (List.append_nil _).symm⟩
  | test single =>
      cases emitted
      refine ⟨_, .test single, ?_⟩
      show (buffer.append _).code.toList = _
      simp only [CodeBuffer.toList_append, Line.encodeAll, List.flatMap_singleton,
        ByteTest.encode_line]
  | literal caseless bytes =>
      cases emitted
      exact ⟨_, .literal caseless bytes, toList_appendLiteral caseless bytes buffer⟩
  | assertion condition =>
      cases emitted
      refine ⟨_, .assertion condition, ?_⟩
      show (buffer.append _).code.toList = _
      simp [CodeBuffer.toList_append, Line.encodeAll, Line.encode, Line.plain]
  | backReference caseless group =>
      cases emitted
      refine ⟨_, .backReference caseless group, ?_⟩
      show (buffer.append _).code.toList = _
      simp [CodeBuffer.toList_append, Line.encodeAll, Line.encode, Line.plain]
  | sequence first second ihFirst ihSecond =>
      simp only [emit] at emitted
      split at emitted
      · cases emitted
      · rename_i middle found
        obtain ⟨ahead, former, start⟩ := ihFirst found
        obtain ⟨behind, latter, finish⟩ := ihSecond emitted
        refine ⟨_, .sequence former latter, ?_⟩
        rw [finish, start, Line.encodeAll_append, List.append_assoc]
  | alternative first second ihFirst ihSecond =>
      simp only [emit] at emitted
      split at emitted
      · cases emitted
      · rename_i middle found
        obtain ⟨ahead, former, start⟩ := ihFirst found
        split at emitted
        · cases emitted
        · rename_i ended closed
          rw [buffer.size_eq] at closed
          obtain ⟨skip, skips, opened⟩ := toList_endBranch start closed
          split at emitted
          · cases emitted
          · rename_i last continued
            obtain ⟨behind, latter, finish⟩ := ihSecond continued
            have front : last.code.toList =
                (buffer.code.toList ++ (Opcode.branch.encode [skip] ++ Line.encodeAll ahead)) ++
                  (Opcode.jump.encode [0] ++ Line.encodeAll behind) := by
              rw [finish, opened]
              simp only [List.append_assoc]
            have origin : CodeSink.size ended = (buffer.code.toList ++
                (Opcode.branch.encode [skip] ++ Line.encodeAll ahead)).length + 3 := by
              rw [ended.size_eq, opened]
              simp only [List.length_append, Opcode.length_encode, List.length_singleton]
              omega
            rw [origin] at emitted
            obtain ⟨leave, leaves, done⟩ := toList_landJump front emitted
            have length : (buffer.code.toList ++
                (Opcode.branch.encode [skip] ++ Line.encodeAll ahead)).length =
                buffer.code.toList.length + (3 + Line.extent ahead) := by
              simp only [List.length_append, Opcode.length_encode, List.length_singleton]
              rfl
            rw [length, Nat.add_assoc buffer.code.toList.length,
              Nat.add_assoc buffer.code.toList.length, jumpDistance_shift] at leaves
            refine ⟨_, .alternative former latter skips leaves, ?_⟩
            rw [done]
            simp only [Line.encodeAll_append, Line.encodeAll_cons, Line.encode, Line.plain,
              List.append_nil, List.append_assoc]
  | capture group body ih =>
      simp only [emit] at emitted
      rcases found : body.emit (CodeSink.append buffer (Opcode.openGroup.encode [Int16.ofNat group]))
        with error | middle
      · rw [found] at emitted
        cases emitted
      · rw [found] at emitted
        cases emitted
        obtain ⟨inner, within, start⟩ := ih found
        refine ⟨_, .capture group within, ?_⟩
        show (middle.append _).code.toList = _
        rw [CodeBuffer.toList_append, start]
        show (buffer.append _).code.toList ++ _ ++ _ = _
        rw [CodeBuffer.toList_append, Line.encodeAll_append, Line.encodeAll_cons]
        simp [Line.encodeAll, Line.encode, Line.plain]
  | repetition quantifier single =>
      cases emitted
      refine ⟨_, .repetition quantifier single, ?_⟩
      show ((buffer.append _).insert buffer.code.size (repetitionCode quantifier)).code.toList = _
      rw [CodeBuffer.toList_insert, CodeBuffer.toList_append, ← Array.length_toList,
        List.take_left, List.drop_left, Line.encodeAll_cons, ← single.encode_line]
      have same : (repetitionLine quantifier).encode = repetitionCode quantifier :=
        List.append_nil _
      rw [same]
      simp only [Line.encodeAll, List.flatMap_singleton]
  | loop quantifier nullable counter body ih =>
      obtain ⟨before, after, split, ahead, behind⟩ := quantifier.loopSteps_split nullable counter
      obtain ⟨inner, lines, within, around, finish⟩ := assembles_of_emit_wrap ih ahead behind
        (by rwa [emit, split] at emitted)
      exact ⟨lines, .loop within (split ▸ around), finish⟩
  | atomic body ih =>
      obtain ⟨inner, lines, within, around, finish⟩ := assembles_of_emit_wrap ih
        (show Step.body ∉ [_] by simp) (show Step.body ∉ [_] by simp) emitted
      exact ⟨lines, .atomic within around, finish⟩
  | look direction width body ih =>
      obtain ⟨inner, lines, within, around, finish⟩ := assembles_of_emit_wrap ih
        (show Step.body ∉ [_] by simp) (show Step.body ∉ [_] by simp) emitted
      exact ⟨lines, .look within around, finish⟩

end Expr

end ByteRegex
