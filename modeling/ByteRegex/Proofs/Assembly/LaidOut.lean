import ByteRegex.Proofs.Assembly.Layout

/-!
# Laid-out code

Where the instructions of an expression are in the code, with absolute addresses. Only this much of
the code matters to what it does.
-/

namespace ByteRegex

/-- The instruction that enters a loop or leaves it for an address. -/
def Quantifier.enterOr (quantifier : Quantifier) (exit : Nat) : Instruction :=
  if quantifier.greed = .lazy then .branchReverse exit else .branch exit

/-- The instruction that goes back to an address or leaves the loop. -/
def Quantifier.againAt (quantifier : Quantifier) (head : Nat) : Instruction :=
  if quantifier.greed = .lazy then .branch head else .branchReverse head

/-- The code of a loop from an entry to an exit, with its body from `head` to `tail`. -/
inductive LoopAt (code : Code) (quantifier : Quantifier) (nullable : Bool)
    (register : Fin Capacity.counters) : (entry head tail exit : Nat) → Prop where
  | optional {entry head exit : Nat} (least : quantifier.least = 0) (most : quantifier.most = some 1)
      (enter : code.instruction? entry = some (quantifier.enterOr exit, head)) :
      LoopAt code quantifier nullable register entry head exit exit
  | star {entry head tail exit : Nat} (least : quantifier.least = 0) (most : quantifier.most = none)
      (consumes : nullable = false)
      (enter : code.instruction? entry = some (quantifier.enterOr exit, head))
      (back : code.instruction? tail = some (.jump entry, exit)) :
      LoopAt code quantifier nullable register entry head tail exit
  | watchedStar {entry mark head tail back exit : Nat} (least : quantifier.least = 0)
      (most : quantifier.most = none) (watched : nullable = true)
      (enter : code.instruction? entry = some (quantifier.enterOr exit, mark))
      (increment : code.instruction? mark = some (.counterIncrement register, head))
      (stuck : code.instruction? tail = some (.jumpStuck register exit, back))
      (again : code.instruction? back = some (.jump entry, exit)) :
      LoopAt code quantifier nullable register entry head tail exit
  | plus {head tail exit : Nat} (least : quantifier.least = 1) (most : quantifier.most = none)
      (consumes : nullable = false)
      (again : code.instruction? tail = some (quantifier.againAt head, exit)) :
      LoopAt code quantifier nullable register head head tail exit
  | watchedPlus {entry head tail back exit : Nat} (least : quantifier.least = 1)
      (most : quantifier.most = none) (watched : nullable = true)
      (increment : code.instruction? entry = some (.counterIncrement register, head))
      (stuck : code.instruction? tail = some (.jumpStuck register exit, back))
      (again : code.instruction? back = some (quantifier.againAt entry, exit)) :
      LoopAt code quantifier nullable register entry head tail exit
  | atMost {entry start mark head tail exit most : Nat} (least : quantifier.least = 0)
      (bounded : quantifier.most = some most) (several : most ≠ 1)
      (reset : code.instruction? entry = some (.counterReset register, start))
      (enter : code.instruction? start = some (quantifier.enterOr exit, mark))
      (increment : code.instruction? mark = some (.counterIncrement register, head))
      (below : code.instruction? tail = some (.jumpLess register most start, exit)) :
      LoopAt code quantifier nullable register entry head tail exit
  | atLeast {entry start head tail decide exit : Nat} (least : 2 ≤ quantifier.least)
      (most : quantifier.most = none) (consumes : nullable = false)
      (reset : code.instruction? entry = some (.counterReset register, start))
      (increment : code.instruction? start = some (.counterIncrement register, head))
      (below : code.instruction? tail = some (.jumpLess register quantifier.least start, decide))
      (again : code.instruction? decide = some (quantifier.againAt start, exit)) :
      LoopAt code quantifier nullable register entry head tail exit
  | watchedAtLeast {entry start head tail decide back exit : Nat} (least : 2 ≤ quantifier.least)
      (most : quantifier.most = none) (watched : nullable = true)
      (reset : code.instruction? entry = some (.counterReset register, start))
      (increment : code.instruction? start = some (.counterIncrement register, head))
      (below : code.instruction? tail = some (.jumpLess register quantifier.least start, decide))
      (stuck : code.instruction? decide = some (.jumpStuck register exit, back))
      (again : code.instruction? back = some (quantifier.againAt start, exit)) :
      LoopAt code quantifier nullable register entry head tail exit
  | exactly {entry start head tail exit : Nat} (least : 1 ≤ quantifier.least)
      (most : quantifier.most = some quantifier.least)
      (reset : code.instruction? entry = some (.counterReset register, start))
      (increment : code.instruction? start = some (.counterIncrement register, head))
      (below : code.instruction? tail = some (.jumpLess register quantifier.least start, exit)) :
      LoopAt code quantifier nullable register entry head tail exit
  | between {entry start head tail decide back exit most : Nat} (least : 1 ≤ quantifier.least)
      (bounded : quantifier.most = some most) (differ : quantifier.least ≠ most)
      (reset : code.instruction? entry = some (.counterReset register, start))
      (increment : code.instruction? start = some (.counterIncrement register, head))
      (below : code.instruction? tail = some (.jumpLess register quantifier.least start, decide))
      (enough : code.instruction? decide = some (.jumpAtLeast register most exit, back))
      (again : code.instruction? back = some (quantifier.againAt start, exit)) :
      LoopAt code quantifier nullable register entry head tail exit

/-- The code of a literal, one or more instructions. -/
inductive LiteralAt (code : Code) (caseless : Bool) : List UInt8 → (start stop : Nat) → Prop where
  | nil (address : Nat) : LiteralAt code caseless [] address address
  | single {byte : UInt8} {rest : List UInt8} {start next stop : Nat}
      (read : code.instruction? start = some (.test (.ofLiteral caseless byte), next))
      (later : LiteralAt code caseless rest next stop) :
      LiteralAt code caseless (byte :: rest) start stop
  | text {bytes rest : List UInt8} {start first next stop : Nat} (several : 2 ≤ bytes.length)
      (short : bytes.length ≤ Capacity.literal)
      (read : code.instruction? start = some (.text caseless first (first + bytes.length), next))
      (held : code.Has first (if caseless then bytes.map Ascii.toLower else bytes))
      (later : LiteralAt code caseless rest next stop) :
      LiteralAt code caseless (bytes ++ rest) start stop

namespace Expr

/-- The code of an expression from one address to another. -/
def LaidOut (code : Code) : Expr → (start stop : Nat) → Prop
  | empty, start, stop => start = stop
  | test single, start, stop => code.instruction? start = some (.test single, stop)
  | literal caseless bytes, start, stop => LiteralAt code caseless bytes start stop
  | assertion condition, start, stop => code.instruction? start = some (.assertion condition, stop)
  | backReference caseless group, start, stop =>
      ∃ small : group < Capacity.slots,
        code.instruction? start = some (.backReference caseless ⟨group, small⟩, stop)
  | sequence first second, start, stop =>
      ∃ middle, first.LaidOut code start middle ∧ second.LaidOut code middle stop
  | alternative first second, start, stop =>
      ∃ ahead joint behind, code.instruction? start = some (.branch behind, ahead) ∧
        first.LaidOut code ahead joint ∧ code.instruction? joint = some (.jump stop, behind) ∧
        second.LaidOut code behind stop
  | capture group body, start, stop =>
      ∃ small : group < Capacity.slots, ∃ head tail,
        code.instruction? start = some (.openGroup ⟨group, small⟩, head) ∧
        body.LaidOut code head tail ∧
        code.instruction? tail = some (.closeGroup ⟨group, small⟩, stop)
  | repetition quantifier single, start, stop =>
      ∃ next, code.instruction? start =
          some (.repetition quantifier.greed quantifier.least quantifier.most, next) ∧
        code.instruction? next = some (.test single, stop)
  | loop quantifier nullable counter body, start, stop =>
      ∃ register : Fin Capacity.counters, ∃ head tail,
        (quantifier.needsCounter nullable = true → register.val = counter) ∧
        LoopAt code quantifier nullable register start head tail stop ∧ body.LaidOut code head tail
  | atomic body, start, stop =>
      ∃ head tail, code.instruction? start = some (.atomic stop, head) ∧
        body.LaidOut code head tail ∧ code.instruction? tail = some (.subEnd, stop)
  | look direction width body, start, stop =>
      ∃ head tail, code.instruction? start =
          some (.look direction (if direction.isBehind then width else 0) stop, head) ∧
        body.LaidOut code head tail ∧ code.instruction? tail = some (.subEnd, stop)

end Expr

theorem reaches_of_jumpDistance {target origin base address : Nat} {opcode : Opcode}
    {distance : Int16} (near : jumpDistance target origin = .ok distance)
    (ends : address + opcode.fixedSize = base + origin) :
    Code.Reaches opcode address distance (base + target) := by
  have far := toInt_of_jumpDistance near
  simp only [Code.Reaches, ends, Int.ofNat_eq_natCast] at far ⊢
  omega

namespace Step

/-- A step whose line has the operands that its opcode wants. A set has a bitmap in place of them. -/
def Whole : Step → Prop
  | plain opcode operands => operands.length = opcode.operandCount ∧ opcode ≠ .set
  | jump opcode operands _ => operands.length + 1 = opcode.operandCount ∧ opcode ≠ .set
  | loopHead | body => True

/-- The steps in the code from one address to another, around the bytes of a body. -/
def Placed (code : Code) (inner : List Line) (target : Label → Nat) :
    List Step → (start stop : Nat) → Prop
  | [], start, stop => start = stop
  | plain opcode operands :: rest, start, stop =>
      code.Has start (Line.plain opcode operands).encode ∧
        Placed code inner target rest (start + opcode.fixedSize) stop
  | jump opcode operands label :: rest, start, stop =>
      (∃ distance, code.Has start (Line.plain opcode (operands ++ [distance])).encode ∧
        Code.Reaches opcode start distance (target label)) ∧
        Placed code inner target rest (start + opcode.fixedSize) stop
  | loopHead :: rest, start, stop => Placed code inner target rest start stop
  | body :: rest, start, stop =>
      code.Has start (Line.encodeAll inner) ∧
        Placed code inner target rest (start + Line.extent inner) stop

theorem Whole.length_plain {opcode : Opcode} {operands : List Int16}
    (count : operands.length = opcode.operandCount) (simple : opcode ≠ .set) :
    (Line.plain opcode operands).encode.length = opcode.fixedSize := by
  rw [Line.length_plain, count, Opcode.fixedSize, if_neg simple, Nat.add_zero]

theorem extent_of_assembles {inner lines : List Line} {target : Label → Nat} {steps : List Step}
    {address : Nat} (assembled : Assembles (Line.extent inner) target inner address steps lines)
    (wholes : ∀ step ∈ steps, step.Whole) :
    Line.extent lines = sizes (Line.extent inner) steps := by
  induction assembled with
  | nil => rfl
  | plain later ih =>
      obtain ⟨count, simple⟩ := wholes _ (List.mem_cons_self ..)
      rw [Line.extent_cons, Whole.length_plain count simple,
        ih fun step member => wholes step (List.mem_cons_of_mem _ member)]
      rfl
  | jump near later ih =>
      obtain ⟨count, simple⟩ := wholes _ (List.mem_cons_self ..)
      rw [Line.extent_cons,
        Whole.length_plain (by rw [List.length_append, ← count]; rfl) simple,
        ih fun step member => wholes step (List.mem_cons_of_mem _ member)]
      rfl
  | loopHead later ih =>
      rw [ih fun step member => wholes step (List.mem_cons_of_mem _ member)]
      exact (Nat.zero_add _).symm
  | body later ih =>
      rw [Line.extent_append, ih fun step member => wholes step (List.mem_cons_of_mem _ member)]
      rfl

theorem placed_of_assembles {code : Code} {inner lines : List Line} {target : Label → Nat}
    {steps : List Step} {address : Nat} (base : Nat)
    (assembled : Assembles (Line.extent inner) target inner address steps lines)
    (wholes : ∀ step ∈ steps, step.Whole)
    (held : code.Has (base + address) (Line.encodeAll lines)) :
    Placed code inner (fun label => base + target label) steps (base + address)
      (base + address + sizes (Line.extent inner) steps) := by
  induction assembled with
  | nil address => rfl
  | @plain address opcode operands rest lines later ih =>
      obtain ⟨count, simple⟩ := wholes _ (List.mem_cons_self ..)
      have size := Whole.length_plain count simple
      rw [Line.encodeAll_cons, Code.has_append, size, Nat.add_assoc] at held
      have placed := ih (fun step member => wholes step (List.mem_cons_of_mem _ member)) held.2
      refine ⟨held.1, ?_⟩
      simpa only [sizes, List.foldr_cons, Step.size, Nat.add_assoc] using placed
  | @jump address opcode operands label distance rest lines near later ih =>
      obtain ⟨count, simple⟩ := wholes _ (List.mem_cons_self ..)
      have size : (Line.plain opcode (operands ++ [distance])).encode.length = opcode.fixedSize :=
        Whole.length_plain (by rw [List.length_append, ← count]; rfl) simple
      rw [Line.encodeAll_cons, Code.has_append, size, Nat.add_assoc] at held
      have placed := ih (fun step member => wholes step (List.mem_cons_of_mem _ member)) held.2
      refine ⟨⟨distance, held.1, reaches_of_jumpDistance near (Nat.add_assoc ..)⟩, ?_⟩
      simpa only [sizes, List.foldr_cons, Step.size, Nat.add_assoc] using placed
  | loopHead later ih =>
      have placed := ih (fun step member => wholes step (List.mem_cons_of_mem _ member)) held
      simpa only [Placed, sizes, List.foldr_cons, Step.size, Nat.zero_add] using placed
  | @body address rest lines later ih =>
      rw [Line.encodeAll_append, Code.has_append, Nat.add_assoc] at held
      have placed := ih (fun step member => wholes step (List.mem_cons_of_mem _ member)) held.2
      refine ⟨held.1, ?_⟩
      simpa only [sizes, List.foldr_cons, Step.size, Nat.add_assoc] using placed

end Step

theorem Quantifier.loopSteps_whole (quantifier : Quantifier) (nullable : Bool) (counter : Nat) :
    ∀ step ∈ quantifier.loopSteps nullable counter, step.Whole := by
  unfold loopSteps
  dsimp only
  by_cases slow : quantifier.greed = .lazy
  all_goals
    simp only [slow, if_true, if_false]
    repeat' split
    all_goals simp [Step.Whole, Opcode.operandCount]

theorem atomicSteps_whole : ∀ step ∈ atomicSteps, step.Whole := by
  simp [atomicSteps, Step.Whole, Opcode.operandCount]

theorem Look.steps_whole (direction : Look) (width : Nat) :
    ∀ step ∈ direction.steps width, step.Whole := by
  cases direction <;> simp [steps, opcode, isBehind, Step.Whole, Opcode.operandCount]

namespace Code

variable {code : Code} {quantifier : Quantifier} {address target : Nat} {distance : Int16}

theorem instruction?_enter
    (held : code.Has address (Line.plain (if quantifier.greed = .lazy then .branchRev else .branch)
      [distance]).encode)
    (reaches : Reaches (if quantifier.greed = .lazy then .branchRev else .branch) address distance
      target) :
    code.instruction? address = some (quantifier.enterOr target, address + 3) := by
  unfold Quantifier.enterOr
  by_cases slow : quantifier.greed = .lazy
  · rw [if_pos slow] at held reaches ⊢
    exact instruction?_branchRev held reaches
  · rw [if_neg slow] at held reaches ⊢
    exact instruction?_branch held reaches

theorem instruction?_again
    (held : code.Has address (Line.plain (if quantifier.greed = .lazy then .branch else .branchRev)
      [distance]).encode)
    (reaches : Reaches (if quantifier.greed = .lazy then .branch else .branchRev) address distance
      target) :
    code.instruction? address = some (quantifier.againAt target, address + 3) := by
  unfold Quantifier.againAt
  by_cases slow : quantifier.greed = .lazy
  · rw [if_pos slow] at held reaches ⊢
    exact instruction?_branch held reaches
  · rw [if_neg slow] at held reaches ⊢
    exact instruction?_branchRev held reaches

end Code

theorem Quantifier.loopAt_of_placed {code : Code} {quantifier : Quantifier}
    (valid : quantifier.Valid) {nullable : Bool} {counter : Nat}
    (small : quantifier.needsCounter nullable = true → counter < Capacity.counters)
    {inner : List Line} {target : Label → Nat} {steps : List Step}
    (same : quantifier.loopSteps nullable counter = steps) {start stop : Nat}
    (placed : Step.Placed code inner target steps start stop) (exits : target .exit = stop)
    (loops : target .loop = if Step.loopHead ∈ steps then start + 3 else start) :
    ∃ register : Fin Capacity.counters, ∃ head,
      (quantifier.needsCounter nullable = true → register.val = counter) ∧
      LoopAt code quantifier nullable register start head (head + Line.extent inner) stop ∧
      code.Has head (Line.encodeAll inner) := by
  have entering : (if quantifier.greed = .lazy then Opcode.branchRev else .branch).fixedSize = 3 := by
    split <;> rfl
  have repeating : (if quantifier.greed = .lazy then Opcode.branch else .branchRev).fixedSize = 3 := by
    split <;> rfl
  unfold loopSteps at same
  dsimp only at same
  split at same
  · rename_i least most
    subst same
    simp only [Step.Placed, entering] at placed
    obtain ⟨⟨_, enter, entered⟩, held, done⟩ := placed
    subst done
    rw [exits] at entered
    refine ⟨0, start + 3, ?_, .optional least most (Code.instruction?_enter enter entered), held⟩
    simp [needsCounter, least, most]
  · rename_i least most
    by_cases watched : nullable = true
    · rw [if_pos watched] at same
      subst same
      have bound := small (by simp [needsCounter, least, most, watched])
      simp only [Step.Placed, entering] at placed
      obtain ⟨⟨_, enter, entered⟩, increment, held, ⟨_, stuck, leaves⟩, ⟨_, back, returns⟩, done⟩ :=
        placed
      subst done
      rw [exits] at entered leaves
      rw [loops.trans (if_neg (by simp))] at returns
      exact ⟨⟨counter, bound⟩, _, fun _ => rfl,
        .watchedStar least most watched (Code.instruction?_enter enter entered)
          (Code.instruction?_counterInc bound increment)
          (Code.instruction?_jumpStuck bound stuck leaves) (Code.instruction?_jump back returns),
        held⟩
    · rw [if_neg watched] at same
      have consumes : nullable = false := by simpa using watched
      subst same
      simp only [Step.Placed, entering] at placed
      obtain ⟨⟨_, enter, entered⟩, held, ⟨_, back, returns⟩, done⟩ := placed
      subst done
      rw [exits] at entered
      rw [loops.trans (if_neg (by simp))] at returns
      refine ⟨0, start + 3, ?_, .star least most consumes (Code.instruction?_enter enter entered)
        (Code.instruction?_jump back returns), held⟩
      simp [needsCounter, least, most, consumes]
  · rename_i least most
    by_cases watched : nullable = true
    · rw [if_pos watched] at same
      subst same
      have bound := small (by simp [needsCounter, least, most, watched])
      simp only [Step.Placed, repeating] at placed
      obtain ⟨increment, held, ⟨_, stuck, leaves⟩, ⟨_, back, returns⟩, done⟩ := placed
      subst done
      rw [exits] at leaves
      rw [loops.trans (if_neg (by simp))] at returns
      exact ⟨⟨counter, bound⟩, _, fun _ => rfl,
        .watchedPlus least most watched (Code.instruction?_counterInc bound increment)
          (Code.instruction?_jumpStuck bound stuck leaves) (Code.instruction?_again back returns),
        held⟩
    · rw [if_neg watched] at same
      have consumes : nullable = false := by simpa using watched
      subst same
      simp only [Step.Placed, repeating] at placed
      obtain ⟨held, ⟨_, back, returns⟩, done⟩ := placed
      subst done
      rw [loops.trans (if_neg (by simp))] at returns
      refine ⟨0, start, ?_, .plus least most consumes (Code.instruction?_again back returns), held⟩
      simp [needsCounter, least, most, consumes]
  · rename_i most several least bounded
    have other : most ≠ 1 := several
    have bound := small (by simp [needsCounter, least, bounded, other])
    subst same
    simp only [Step.Placed, entering] at placed
    obtain ⟨reset, ⟨_, enter, entered⟩, increment, held, ⟨_, below, returns⟩, done⟩ := placed
    subst done
    rw [exits] at entered
    rw [loops.trans (if_pos (by simp))] at returns
    exact ⟨⟨counter, bound⟩, _, fun _ => rfl,
      .atMost least bounded other (Code.instruction?_counterReset bound reset)
        (Code.instruction?_enter enter entered) (Code.instruction?_counterInc bound increment)
        (Code.instruction?_jumpLess bound (valid.most _ bounded).2.2 below returns), held⟩
  · rename_i most notZero notOne
    have several : 2 ≤ quantifier.least := by
      have zero : ¬ quantifier.least = 0 := notZero
      have one : ¬ quantifier.least = 1 := notOne
      omega
    have bound := small (by unfold needsCounter; split <;> simp_all)
    by_cases watched : nullable = true
    · rw [if_pos watched] at same
      subst same
      simp only [Step.Placed, List.cons_append, List.nil_append, repeating] at placed
      obtain ⟨reset, increment, held, ⟨_, below, returns⟩, ⟨_, stuck, leaves⟩, ⟨_, back, again⟩,
        done⟩ := placed
      subst done
      rw [exits] at leaves
      rw [loops.trans (if_pos (by simp))] at returns again
      exact ⟨⟨counter, bound⟩, _, fun _ => rfl,
        .watchedAtLeast several most watched (Code.instruction?_counterReset bound reset)
          (Code.instruction?_counterInc bound increment)
          (Code.instruction?_jumpLess bound valid.least below returns)
          (Code.instruction?_jumpStuck bound stuck leaves) (Code.instruction?_again back again), held⟩
    · rw [if_neg watched] at same
      have consumes : nullable = false := by simpa using watched
      subst same
      simp only [Step.Placed, List.cons_append, List.nil_append, repeating] at placed
      obtain ⟨reset, increment, held, ⟨_, below, returns⟩, ⟨_, back, again⟩, done⟩ := placed
      subst done
      rw [loops.trans (if_pos (by simp))] at returns again
      exact ⟨⟨counter, bound⟩, _, fun _ => rfl,
        .atLeast several most consumes (Code.instruction?_counterReset bound reset)
          (Code.instruction?_counterInc bound increment)
          (Code.instruction?_jumpLess bound valid.least below returns)
          (Code.instruction?_again back again), held⟩
  · rename_i most bounded notOption notZero
    have iterates : 1 ≤ quantifier.least := Nat.pos_of_ne_zero notZero
    have bound := small (by unfold needsCounter; split <;> simp_all)
    by_cases equal : quantifier.least = most
    · rw [if_pos equal] at same
      subst same
      simp only [Step.Placed, List.cons_append, List.nil_append] at placed
      obtain ⟨reset, increment, held, ⟨_, below, returns⟩, done⟩ := placed
      subst done
      rw [loops.trans (if_pos (by simp))] at returns
      exact ⟨⟨counter, bound⟩, _, fun _ => rfl,
        .exactly iterates (equal ▸ bounded) (Code.instruction?_counterReset bound reset)
          (Code.instruction?_counterInc bound increment)
          (Code.instruction?_jumpLess bound valid.least below returns), held⟩
    · rw [if_neg equal] at same
      subst same
      simp only [Step.Placed, List.cons_append, List.nil_append, repeating] at placed
      obtain ⟨reset, increment, held, ⟨_, below, returns⟩, ⟨_, enough, leaves⟩, ⟨_, back, again⟩,
        done⟩ := placed
      subst done
      rw [exits] at leaves
      rw [loops.trans (if_pos (by simp))] at returns again
      exact ⟨⟨counter, bound⟩, _, fun _ => rfl,
        .between iterates bounded equal (Code.instruction?_counterReset bound reset)
          (Code.instruction?_counterInc bound increment)
          (Code.instruction?_jumpLess bound valid.least below returns)
          (Code.instruction?_jumpAtLeast bound (valid.most _ bounded).2.2 enough leaves)
          (Code.instruction?_again back again), held⟩

theorem Quantifier.loopLabel (quantifier : Quantifier) (nullable : Bool) (counter bodySize : Nat) :
    Step.labelAddress bodySize 0 (quantifier.loopSteps nullable counter) .loop =
      if Step.loopHead ∈ quantifier.loopSteps nullable counter then 3 else 0 := by
  simp only [Step.labelAddress, Step.headAddress, Nat.zero_add]
  unfold loopSteps
  dsimp only
  by_cases slow : quantifier.greed = .lazy
  all_goals
    simp only [slow, if_true, if_false]
    repeat' split
    all_goals simp_all [Step.sizes, Step.size, Opcode.fixedSize, Opcode.operandCount]

namespace Expr

theorem literalAt_of_has {code : Code} {caseless : Bool} {bytes : List UInt8} {start : Nat}
    (held : code.Has start (Line.encodeAll (literalLines caseless bytes))) :
    LiteralAt code caseless bytes start
      (start + Line.extent (literalLines caseless bytes)) := by
  induction length : bytes.length using Nat.strongRecOn generalizing bytes start with
  | _ total ih =>
      by_cases nothing : bytes = []
      · subst nothing
        rw [literalLines, dif_pos rfl]
        exact .nil start
      · have positive := List.length_pos_iff.mpr nothing
        have shorter : (bytes.drop Capacity.literal).length < total := by
          simp only [List.length_drop, Capacity.literal]
          omega
        rw [literalLines, dif_neg nothing] at held ⊢
        rw [Line.encodeAll_cons, Code.has_append] at held
        have later := ih _ shorter held.2 rfl
        rw [Line.extent_cons, ← Nat.add_assoc]
        have split := List.take_append_drop Capacity.literal bytes
        by_cases several : 2 ≤ (bytes.take Capacity.literal).length
        · have short : (bytes.take Capacity.literal).length ≤ Capacity.literal :=
            List.length_take_le _ _
          obtain ⟨read, text, size⟩ := Code.instruction?_text several short held.1
          rw [size, ← Nat.add_assoc] at later ⊢
          conv => arg 3; rw [← split]
          exact .text several short read text later
        · have one : (bytes.take Capacity.literal).length = 1 := by
            have bounded : (bytes.take Capacity.literal).length = min Capacity.literal bytes.length :=
              List.length_take
            simp only [Capacity.literal] at bounded several ⊢
            omega
          obtain ⟨byte, alone⟩ := List.length_eq_one_iff.mp one
          rw [alone] at held later split ⊢
          conv => arg 3; rw [← split]
          exact .single (Code.instruction?_test held.1) later

/-- Code that has the lines of an expression is laid out for it. -/
theorem laidOut_of_assembles {expr : Expr} {lines : List Line} {code : Code}
    (assembled : expr.Assembles lines) (wellFormed : expr.WellFormed) {start : Nat}
    (held : code.Has start (Line.encodeAll lines)) :
    expr.LaidOut code start (start + Line.extent lines) := by
  induction assembled generalizing start with
  | empty => rfl
  | test single =>
      rw [Line.encodeAll_singleton] at held
      rw [Line.extent_singleton]
      exact Code.instruction?_test held
  | literal caseless bytes => exact literalAt_of_has held
  | assertion condition =>
      rw [Line.encodeAll_singleton] at held
      rw [Line.extent_singleton, Line.length_plain]
      exact Code.instruction?_assertion held
  | backReference caseless group =>
      rw [Line.encodeAll_singleton] at held
      rw [Line.extent_singleton, Line.length_plain]
      exact ⟨wellFormed.2, Code.instruction?_backReference wellFormed.2 held⟩
  | sequence former latter ihFormer ihLatter =>
      rw [Line.encodeAll_append, Code.has_append] at held
      rw [Line.extent_append, ← Nat.add_assoc]
      exact ⟨_, ihFormer wellFormed.1 held.1, ihLatter wellFormed.2 held.2⟩
  | @alternative first second ahead behind skip leave former latter skips leaves ihFormer ihLatter =>
      rw [Line.encodeAll_append, Line.encodeAll_cons, Line.encodeAll_cons, Code.has_append,
        Code.has_append, Code.has_append, List.length_append, Line.length_plain,
        Line.length_plain] at held
      obtain ⟨⟨branch, one⟩, jump, two⟩ := held
      have total : Line.extent (.plain .branch [skip] :: ahead ++ .plain .jump [leave] :: behind) =
          3 + Line.extent ahead + 3 + Line.extent behind := by
        rw [Line.extent_append, Line.extent_cons, Line.extent_cons, Line.length_plain,
          Line.length_plain]
        simp only [List.length_singleton]
        omega
      have leftOver : start + (3 + Line.extent ahead) + 3 + Line.extent behind =
          start + (3 + Line.extent ahead + 3 + Line.extent behind) := by omega
      rw [total, ← leftOver]
      refine ⟨start + 3, start + (3 + Line.extent ahead), start + (3 + Line.extent ahead) + 3,
        Code.instruction?_branch branch ?_, ?_, Code.instruction?_jump jump ?_,
        ihLatter wellFormed.2 two⟩
      · rw [Nat.add_assoc start]
        exact reaches_of_jumpDistance skips rfl
      · have inner := ihFormer wellFormed.1 one
        rwa [Nat.add_assoc] at inner
      · rw [leftOver]
        exact reaches_of_jumpDistance leaves (Nat.add_assoc ..)
  | @capture group body inner within ih =>
      obtain ⟨_, small, _, wellBody⟩ := wellFormed
      rw [Line.encodeAll_append, Line.encodeAll_cons, Line.encodeAll_singleton, Code.has_append,
        Code.has_append, List.length_append, Line.length_plain] at held
      obtain ⟨⟨opened, inside⟩, closed⟩ := held
      rw [Line.extent_append, Line.extent_cons, Line.extent_singleton, Line.length_plain,
        Line.length_plain, ← Nat.add_assoc]
      refine ⟨small, start + 3, start + (3 + Line.extent inner),
        Code.instruction?_openGroup small opened, ?_, Code.instruction?_closeGroup small closed⟩
      have laid := ih wellBody inside
      rwa [Nat.add_assoc] at laid
  | repetition quantifier single =>
      rw [Line.encodeAll_cons, Line.encodeAll_singleton, Code.has_append] at held
      rw [Line.extent_cons, Line.extent_singleton, ← Nat.add_assoc]
      exact ⟨_, Code.instruction?_repetition wellFormed held.1, Code.instruction?_test held.2⟩
  | @loop quantifier nullable counter body inner lines within around ih =>
      obtain ⟨valid, _, numbered, wellBody⟩ := wellFormed
      have wholes := quantifier.loopSteps_whole nullable counter
      have placed := Step.placed_of_assembles start around wholes held
      rw [Nat.add_zero] at placed
      rw [Step.extent_of_assembles around wholes]
      obtain ⟨register, head, same, shape, body⟩ := Quantifier.loopAt_of_placed valid
        (fun needed => (numbered needed).1) rfl placed
        (by simp only [Step.labelAddress, Nat.zero_add])
        (by
          rw [quantifier.loopLabel]
          split <;> rfl)
      exact ⟨register, head, _, same, shape, ih wellBody body⟩
  | @atomic body inner lines within around ih =>
      have placed := Step.placed_of_assembles start around atomicSteps_whole held
      rw [Nat.add_zero] at placed
      rw [Step.extent_of_assembles around atomicSteps_whole]
      obtain ⟨⟨_, enter, leaves⟩, inside, finish, done⟩ := placed
      have exit : Step.labelAddress (Line.extent inner) 0 atomicSteps .exit =
          Step.sizes (Line.extent inner) atomicSteps := Nat.zero_add _
      dsimp only at leaves
      rw [exit, ← done] at leaves
      rw [← done]
      exact ⟨_, _, Code.instruction?_atomic enter leaves, ih wellFormed inside,
        Code.instruction?_subEnd finish⟩
  | @look direction width body inner lines within around ih =>
      obtain ⟨fixed, wellBody⟩ := wellFormed
      have wholes := direction.steps_whole width
      have placed := Step.placed_of_assembles start around wholes held
      rw [Nat.add_zero] at placed
      rw [Step.extent_of_assembles around wholes]
      obtain ⟨⟨_, enter, leaves⟩, inside, finish, done⟩ := placed
      have exit : Step.labelAddress (Line.extent inner) 0 (direction.steps width) .exit =
          Step.sizes (Line.extent inner) (direction.steps width) := Nat.zero_add _
      dsimp only at leaves
      rw [exit, ← done] at leaves
      rw [← done]
      exact ⟨_, _, Code.instruction?_look (fun behind => (fixed behind).2) enter leaves,
        ih wellBody inside, Code.instruction?_subEnd finish⟩

end Expr

end ByteRegex
