import ByteRegex.Proofs.Assembly.Layout
import ByteRegex.Proofs.Syntax.Parse

/-!
# Numbers that become operands

Bounds of repeats, lengths of literals, groups, counters, classes and widths stand in the code as
operands of sixteen bits. The parser keeps all of them small enough to be the same as operands, and
apart from distances the code has no others.
-/

namespace ByteRegex

/-- A number that is still the same as an operand. -/
def Castable (number : Nat) : Prop := (Int16.ofNat number).toInt = number

theorem castable_of_le {number : Nat} (small : number ≤ 32767) : Castable number :=
  Int16.toInt_ofNat_of_lt (by omega)

def ByteTest.casts : ByteTest → List Nat
  | .byte expected | .byteAnyCase expected => [expected.toNat]
  | .inClass kind | .notInClass kind => [kind.toByte.toNat]
  | .any | .anyButNewline | .set _ => []

def Quantifier.casts (quantifier : Quantifier) : List Nat :=
  quantifier.least :: quantifier.most.toList

/-- The numbers in the code of a literal that one instruction can hold. -/
def chunkCasts (caseless : Bool) : List UInt8 → List Nat
  | [byte] => (ByteTest.ofLiteral caseless byte).casts
  | bytes => [bytes.length]

def literalCasts (caseless : Bool) (bytes : List UInt8) : List Nat :=
  if _filled : bytes = [] then []
  else
    chunkCasts caseless (bytes.take Capacity.literal) ++
      literalCasts caseless (bytes.drop Capacity.literal)
termination_by bytes.length
decreasing_by
  have positive := List.length_pos_iff.mpr _filled
  simp only [List.length_drop, Capacity.literal]
  omega

/-- The numbers that become operands in the code of an expression. -/
def Expr.casts : Expr → List Nat
  | .empty | .assertion _ => []
  | .test single => single.casts
  | .literal caseless bytes => literalCasts caseless bytes
  | .backReference _ group => [group]
  | .sequence first second | .alternative first second => first.casts ++ second.casts
  | .capture group body => group :: body.casts
  | .repetition quantifier single => quantifier.casts ++ single.casts
  | .loop quantifier nullable counter body =>
      quantifier.casts ++ (if quantifier.needsCounter nullable then [counter] else []) ++ body.casts
  | .atomic body => body.casts
  | .look direction width body => (if direction.isBehind then [width] else []) ++ body.casts

/-- The numbers that become operands once what is pending is settled. -/
def Pending.casts (caseless : Bool) : Pending → List Nat
  | .nothing => []
  | .literals last earlier => literalCasts caseless (last :: earlier).reverse
  | .atom (.single test) => test.casts
  | .atom (.compound expr) | .atom (.fixed expr) => expr.casts
  | .repeatedTest test quantifier => quantifier.casts ++ test.casts
  | .repeatedExpr expr quantifier => quantifier.casts ++ expr.casts

def Frame.casts (frame : Frame) : List Nat :=
  (frame.branches ++ frame.pieces).flatMap Expr.casts ++ frame.pending.casts frame.flags.caseless

/-- The numbers that have become operands so far, or can at the next token. -/
def ParseState.casts (state : ParseState) : List Nat :=
  state.groups :: state.counters :: (state.frame :: state.outer).flatMap Frame.casts

theorem ByteTest.castable (test : ByteTest) : ∀ number ∈ test.casts, Castable number := by
  have byte (value : UInt8) : ∀ number ∈ [value.toNat], Castable number :=
    List.forall_mem_singleton.mpr (castable_of_le (by have := value.toNat_lt; omega))
  cases test with
  | byte expected | byteAnyCase expected => exact byte expected
  | inClass kind | notInClass kind => exact byte kind.toByte
  | any | anyButNewline | set members => exact nofun

theorem Quantifier.Valid.castable {quantifier : Quantifier} (valid : quantifier.Valid) :
    ∀ number ∈ quantifier.casts, Castable number := by
  refine List.forall_mem_cons.mpr ⟨castable_of_le valid.least, fun most listed => ?_⟩
  exact castable_of_le (valid.most most (Option.mem_toList.mp listed)).2.2

/-- Literals are cut into chunks that are short enough. -/
theorem literal_castable (caseless : Bool) (bytes : List UInt8) :
    ∀ number ∈ literalCasts caseless bytes, Castable number := by
  fun_induction literalCasts caseless bytes with
  | case1 => exact nofun
  | case2 bytes filled ih =>
      refine List.forall_mem_append.mpr ⟨?_, ih⟩
      have short : (bytes.take Capacity.literal).length ≤ 32767 := List.length_take_le _ _
      unfold chunkCasts
      split
      · exact ByteTest.castable _
      · exact List.forall_mem_singleton.mpr (castable_of_le short)

theorem Expr.WellFormed.castable {expr : Expr} (wellFormed : expr.WellFormed) :
    ∀ number ∈ expr.casts, Castable number := by
  induction expr with
  | empty | assertion => exact nofun
  | test single => exact single.castable
  | literal caseless bytes => exact literal_castable caseless bytes
  | backReference caseless group =>
      have few := wellFormed.2
      simp only [Capacity.slots] at few
      exact List.forall_mem_singleton.mpr (castable_of_le (by omega))
  | sequence first second former latter | alternative first second former latter =>
      exact List.forall_mem_append.mpr ⟨former wellFormed.1, latter wellFormed.2⟩
  | capture group body ih =>
      have few := wellFormed.2.1
      refine List.forall_mem_cons.mpr ⟨castable_of_le ?_, ih wellFormed.2.2.2⟩
      simp only [Capacity.slots] at few
      omega
  | repetition quantifier single =>
      exact List.forall_mem_append.mpr ⟨Quantifier.Valid.castable wellFormed, single.castable⟩
  | loop quantifier nullable counter body ih =>
      obtain ⟨valid, _, numbered, inner⟩ := wellFormed
      refine List.forall_mem_append.mpr ⟨List.forall_mem_append.mpr ⟨valid.castable, ?_⟩, ih inner⟩
      split
      · rename_i needed
        have few := (numbered needed).1
        simp only [Capacity.counters] at few
        exact List.forall_mem_singleton.mpr (castable_of_le (by omega))
      · exact nofun
  | atomic body ih => exact ih wellFormed
  | look direction width body ih =>
      refine List.forall_mem_append.mpr ⟨?_, ih wellFormed.2⟩
      split
      · rename_i behind
        exact List.forall_mem_singleton.mpr (castable_of_le (wellFormed.1 behind).2)
      · exact nofun

theorem Pending.castable {pending : Pending} (caseless : Bool) (valid : pending.Valid)
    (wellFormed : ∀ expr ∈ pending.contents, expr.WellFormed) :
    ∀ number ∈ pending.casts caseless, Castable number := by
  match pending with
  | .nothing => exact nofun
  | .literals last earlier => exact literal_castable _ _
  | .atom (.single test) => exact test.castable
  | .atom (.compound expr) | .atom (.fixed expr) =>
      exact (wellFormed expr (List.mem_singleton_self _)).castable
  | .repeatedTest test quantifier =>
      exact List.forall_mem_append.mpr ⟨Quantifier.Valid.castable valid, test.castable⟩
  | .repeatedExpr expr quantifier =>
      exact List.forall_mem_append.mpr ⟨Quantifier.Valid.castable valid,
        (wellFormed expr (List.mem_singleton_self _)).castable⟩

theorem Frame.castable {frame : Frame} (valid : frame.pending.Valid)
    (wellFormed : ∀ expr ∈ frame.contents, expr.WellFormed) :
    ∀ number ∈ frame.casts, Castable number := by
  have finished : ∀ expr ∈ frame.branches ++ frame.pieces, expr ∈ frame.contents := by
    intro expr member
    rcases List.mem_append.mp member with branch | piece
    · simp [contents, branch]
    · simp [contents, piece]
  refine List.forall_mem_append.mpr ⟨fun number cast => ?_, Pending.castable _ valid ?_⟩
  · obtain ⟨expr, member, cast⟩ := List.mem_flatMap.mp cast
    exact (wellFormed expr (finished expr member)).castable number cast
  · exact fun expr member => wellFormed expr (List.mem_append_right _ member)

theorem ParseState.Sound.castable {state : ParseState} (sound : state.Sound) :
    ∀ number ∈ state.casts, Castable number := by
  have groups := sound.groups
  have counters := sound.counters
  simp only [Capacity.slots, Capacity.counters] at groups counters
  refine List.forall_mem_cons.mpr ⟨castable_of_le (by omega), ?_⟩
  refine List.forall_mem_cons.mpr ⟨castable_of_le (by omega), fun number cast => ?_⟩
  obtain ⟨frame, member, cast⟩ := List.mem_flatMap.mp cast
  refine Frame.castable ?_ (fun expr inside => (sound.fits frame member expr inside).1) number cast
  rcases List.mem_cons.mp member with rfl | outer
  · exact sound.pending
  · rw [sound.waiting frame outer]
    trivial

/-! ## Operands of the code -/

/-- The operands of a line apart from the distance of a jump. -/
def Line.numbers (line : Line) : List Int16 :=
  if line.opcode.hasTarget then line.operands.dropLast else line.operands

/-- An operand that stands for one of some numbers, or for a bound that is missing. -/
def Counted (casts : List Nat) (operand : Int16) : Prop :=
  operand = Operand.unbounded ∨ ∃ number ∈ casts, operand = Int16.ofNat number

/-- A line whose operands are accounted for. -/
def Line.Counts (casts : List Nat) (line : Line) : Prop :=
  ∀ operand ∈ line.numbers, Counted casts operand

/-- A step whose operands are accounted for before the distance of a jump is known. -/
def Step.Counts (casts : List Nat) : Step → Prop
  | .plain opcode operands =>
      opcode.hasTarget = false ∧ ∀ operand ∈ operands, Counted casts operand
  | .jump opcode operands _ =>
      opcode.hasTarget = true ∧ ∀ operand ∈ operands, Counted casts operand
  | .loopHead | .body => True

section

variable {casts more : List Nat}

theorem Counted.of_mem {number : Nat} (listed : number ∈ casts) :
    Counted casts (Int16.ofNat number) := .inr ⟨number, listed, rfl⟩

theorem Line.Counts.mono {line : Line} (counts : line.Counts casts) (among : casts ⊆ more) :
    line.Counts more := fun operand listed =>
  (counts operand listed).imp_right fun ⟨number, member, same⟩ => ⟨number, among member, same⟩

theorem Step.Assembles.counts {bodySize address : Nat} {target : Label → Nat}
    {inner lines : List Line} {steps : List Step}
    (assembled : Step.Assembles bodySize target inner address steps lines)
    (around : ∀ step ∈ steps, step.Counts casts) (within : ∀ line ∈ inner, line.Counts casts) :
    ∀ line ∈ lines, line.Counts casts := by
  induction assembled with
  | nil => exact nofun
  | plain _ ih =>
      obtain ⟨⟨straight, counted⟩, around⟩ := List.forall_mem_cons.mp around
      refine List.forall_mem_cons.mpr ⟨?_, ih around⟩
      simpa only [Line.Counts, Line.numbers, Line.plain, straight, Bool.false_eq_true, if_false]
        using counted
  | jump _ _ ih =>
      obtain ⟨⟨jumps, counted⟩, around⟩ := List.forall_mem_cons.mp around
      refine List.forall_mem_cons.mpr ⟨?_, ih around⟩
      simpa only [Line.Counts, Line.numbers, Line.plain, jumps, if_true, List.dropLast_concat]
        using counted
  | loopHead _ ih => exact ih (List.forall_mem_cons.mp around).2
  | body _ ih =>
      exact List.forall_mem_append.mpr ⟨within, ih (List.forall_mem_cons.mp around).2⟩

theorem Quantifier.loopSteps_counts (quantifier : Quantifier) (nullable : Bool) (counter : Nat)
    (body : Expr) :
    ∀ step ∈ quantifier.loopSteps nullable counter,
      step.Counts (Expr.loop quantifier nullable counter body).casts := by
  have least : Counted (Expr.loop quantifier nullable counter body).casts
      (Int16.ofNat quantifier.least) := .of_mem (by simp [Expr.casts, Quantifier.casts])
  have most : ∀ most, quantifier.most = some most →
      Counted (Expr.loop quantifier nullable counter body).casts (Int16.ofNat most) :=
    fun most bounded => .of_mem (by simp [Expr.casts, Quantifier.casts, bounded])
  have register : quantifier.needsCounter nullable = true →
      Counted (Expr.loop quantifier nullable counter body).casts (Int16.ofNat counter) :=
    fun needed => .of_mem (by simp [Expr.casts, needed])
  generalize (Expr.loop quantifier nullable counter body).casts = casts at least most register ⊢
  have enters : (if quantifier.greed = .lazy then Opcode.branchRev else .branch).hasTarget =
      true := by split <;> rfl
  have again : (if quantifier.greed = .lazy then Opcode.branch else .branchRev).hasTarget =
      true := by split <;> rfl
  -- A shape that reads the counter needs it, and one that reads the upper bound has it.
  unfold loopSteps
  dsimp only
  split
  · simp [Step.Counts, enters]
  · split <;> simp_all [Step.Counts, needsCounter, Opcode.hasTarget]
  · split <;> simp_all [Step.Counts, needsCounter, Opcode.hasTarget]
  · simp_all [Step.Counts, needsCounter, Opcode.hasTarget]
  · split <;> simp_all [Step.Counts, needsCounter, Opcode.hasTarget]
  · split <;> simp_all [Step.Counts, needsCounter, Opcode.hasTarget]

theorem atomicSteps_counts : ∀ step ∈ atomicSteps, step.Counts casts := by
  simp [atomicSteps, Step.Counts, Opcode.hasTarget]

theorem Look.steps_counts (direction : Look) (width : Nat) (body : Expr) :
    ∀ step ∈ direction.steps width, step.Counts (Expr.look direction width body).casts := by
  have jumps : direction.opcode.hasTarget = true := by cases direction <;> rfl
  have counted : ∀ operand ∈ (if direction.isBehind then [Int16.ofNat width] else []),
      Counted (Expr.look direction width body).casts operand := by
    split
    · rename_i behind
      exact List.forall_mem_singleton.mpr (.of_mem (by simp [Expr.casts, behind]))
    · exact nofun
  exact List.forall_mem_cons.mpr ⟨⟨jumps, counted⟩,
    List.forall_mem_cons.mpr ⟨trivial, List.forall_mem_singleton.mpr ⟨rfl, nofun⟩⟩⟩

theorem ByteTest.line_counts (test : ByteTest) : test.line.Counts test.casts := by
  cases test with
  | byte | byteAnyCase | inClass | notInClass =>
      exact List.forall_mem_singleton.mpr (.of_mem (List.mem_singleton_self _))
  | any | anyButNewline | set => exact nofun

theorem repetitionLine_counts (quantifier : Quantifier) :
    (repetitionLine quantifier).Counts quantifier.casts := by
  have straight : quantifier.greed.repeatOpcode.hasTarget = false := by
    cases quantifier.greed <;> rfl
  rw [Line.Counts, Line.numbers, repetitionLine, Line.plain, straight, if_neg Bool.false_ne_true]
  refine List.forall_mem_cons.mpr ⟨.of_mem (List.mem_cons_self ..),
    List.forall_mem_singleton.mpr ?_⟩
  cases bounded : quantifier.most with
  | some most => exact .of_mem (by simp [Quantifier.casts, bounded])
  | none => exact .inl rfl

theorem literalLine_counts (caseless : Bool) (bytes : List UInt8) :
    (literalLine caseless bytes).Counts (chunkCasts caseless bytes) := by
  match bytes with
  | [byte] => exact ByteTest.line_counts _
  | [] | _ :: _ :: _ =>
      cases caseless <;> exact List.forall_mem_singleton.mpr (.of_mem (List.mem_singleton_self _))

theorem literalLines_counts (caseless : Bool) (bytes : List UInt8) :
    ∀ line ∈ literalLines caseless bytes, line.Counts (literalCasts caseless bytes) := by
  fun_induction literalCasts caseless bytes with
  | case1 =>
      rw [literalLines, dif_pos rfl]
      exact List.forall_mem_nil _
  | case2 bytes filled ih =>
      rw [literalLines, dif_neg filled]
      refine List.forall_mem_cons.mpr ⟨?_, fun line member => ?_⟩
      · exact (literalLine_counts caseless _).mono (List.subset_append_left ..)
      · exact (ih line member).mono (List.subset_append_right ..)

/-- Apart from distances the operands in the code of an expression are the numbers listed for it. -/
theorem Expr.Assembles.counts {expr : Expr} {lines : List Line} (assembled : expr.Assembles lines) :
    ∀ line ∈ lines, line.Counts expr.casts := by
  induction assembled with
  | empty => exact List.forall_mem_nil _
  | test single => exact List.forall_mem_singleton.mpr single.line_counts
  | literal caseless bytes => exact literalLines_counts caseless bytes
  | assertion condition =>
      refine List.forall_mem_singleton.mpr ?_
      cases condition <;> exact nofun
  | backReference caseless group =>
      refine List.forall_mem_singleton.mpr ?_
      cases caseless <;> exact List.forall_mem_singleton.mpr (.of_mem (List.mem_singleton_self _))
  | sequence _ _ former latter =>
      exact List.forall_mem_append.mpr
        ⟨fun line member => (former line member).mono (List.subset_append_left ..),
          fun line member => (latter line member).mono (List.subset_append_right ..)⟩
  | alternative _ _ _ _ former latter =>
      refine List.forall_mem_append.mpr ⟨List.forall_mem_cons.mpr ⟨nofun, ?_⟩,
        List.forall_mem_cons.mpr ⟨nofun, ?_⟩⟩
      · exact fun line member => (former line member).mono (List.subset_append_left ..)
      · exact fun line member => (latter line member).mono (List.subset_append_right ..)
  | @capture group body _ _ ih =>
      have own : Counted (group :: body.casts) (Int16.ofNat group) :=
        .of_mem (List.mem_cons_self ..)
      refine List.forall_mem_append.mpr ⟨List.forall_mem_cons.mpr ⟨?_, fun line member => ?_⟩,
        List.forall_mem_singleton.mpr ?_⟩
      · exact List.forall_mem_singleton.mpr own
      · exact (ih line member).mono (List.subset_cons_self ..)
      · exact List.forall_mem_singleton.mpr own
  | repetition quantifier single =>
      refine List.forall_mem_cons.mpr ⟨?_, List.forall_mem_singleton.mpr ?_⟩
      · exact (repetitionLine_counts quantifier).mono (List.subset_append_left ..)
      · exact single.line_counts.mono (List.subset_append_right ..)
  | @loop quantifier nullable counter body _ _ _ around ih =>
      refine around.counts (quantifier.loopSteps_counts nullable counter body) fun line member => ?_
      exact (ih line member).mono (List.subset_append_right ..)
  | atomic _ around ih => exact around.counts atomicSteps_counts ih
  | @look direction width body _ _ _ around ih =>
      refine around.counts (direction.steps_counts width body) fun line member => ?_
      exact (ih line member).mono (List.subset_append_right ..)

end

end ByteRegex
