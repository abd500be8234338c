import ByteRegex.Proofs.Assembly.LaidOut
import ByteRegex.Proofs.Bytecode.Fragment
import ByteRegex.Proofs.Simulation.Cost

/-!
# Listed code

The instructions of an expression, one behind another from the start of its code to its end. They
are a fragment, and they open, close and refer to the groups of the expression.
-/

namespace ByteRegex

namespace Instruction

def opens? : Instruction → Option Nat
  | openGroup group => some group.val
  | _ => none

def closes? : Instruction → Option Nat
  | closeGroup group => some group.val
  | _ => none

def refers? : Instruction → Option Nat
  | backReference _ group => some group.val
  | _ => none

/-- What an instruction contributes to the rounds that counted loops can make. -/
def rounds : Instruction → Nat
  | jumpLess _ bound _ | jumpAtLeast _ bound _ => bound + 2
  | _ => 1

/-- An instruction of a loop, which only counts or jumps to one of its addresses. -/
def Turns (exits : List Nat) : Instruction → Prop
  | jump target | branch target | branchReverse target | jumpLess _ _ target
  | jumpAtLeast _ _ target | jumpStuck _ target => target ∈ exits
  | counterReset _ | counterIncrement _ => True
  | _ => False

theorem Turns.control {exits : List Nat} {entry : Entry} (turns : entry.instruction.Turns exits) :
    entry.Sound ∧ entry.instruction.encloses = false ∧ entry.instruction.repeats = false ∧
      ∀ target, entry.instruction.target? = some target → target ∈ exits := by
  obtain ⟨address, instruction, next⟩ := entry
  cases instruction <;> simp_all [Turns, Entry.Sound, encloses, repeats, target?]

theorem Turns.silent {exits : List Nat} {instruction : Instruction}
    (turns : instruction.Turns exits) : instruction.opens? = none ∧ instruction.closes? = none ∧
      instruction.refers? = none := by
  cases instruction <;> simp_all [Turns, opens?, closes?, refers?]

end Instruction

namespace Entry

/-- How many rounds the counted loops among some instructions can make, all taken together. -/
def rounds : List Entry → Nat
  | [] => 1
  | entry :: rest => entry.instruction.rounds * rounds rest

theorem rounds_append (first second : List Entry) :
    rounds (first ++ second) = rounds first * rounds second := by
  induction first with
  | nil => exact (Nat.one_mul _).symm
  | cons entry rest ih => rw [List.cons_append, rounds, rounds, ih, Nat.mul_assoc]

theorem rounds_pos (entries : List Entry) : 0 < rounds entries := by
  induction entries with
  | nil => exact Nat.one_pos
  | cons entry rest ih =>
      have here : 0 < entry.instruction.rounds := by
        unfold Instruction.rounds
        split <;> omega
      exact Nat.mul_pos here ih

end Entry

theorem Quantifier.rounds_le_of_uncounted (quantifier : Quantifier)
    (uncounted : quantifier.needsCounter false = false) (before after : List Entry) :
    quantifier.rounds ≤ Entry.rounds before * Entry.rounds after := by
  rw [Quantifier.rounds, uncounted]
  exact Nat.mul_pos (Entry.rounds_pos before) (Entry.rounds_pos after)

/-- What stands around the body of a loop. -/
structure LoopAt.Around (code : Code) (quantifier : Quantifier) (entry head tail exit : Nat)
    (before after : List Entry) (exits : List Nat) : Prop where
  entering : code.Row entry before head
  leaving : code.Row tail after exit
  turns : ∀ turn ∈ before ++ after, turn.instruction.Turns exits
  avoids : Fragment.Avoids exits head tail
  own : ∀ address ∈ exits, address = exit ∨ address = head ∨
    address ∈ (before ++ after).map Entry.address
  rounds : quantifier.rounds ≤ Entry.rounds before * Entry.rounds after

theorem LoopAt.around {code : Code} {quantifier : Quantifier} {nullable : Bool}
    {register : Fin Capacity.counters} {entry head tail exit : Nat}
    (shape : LoopAt code quantifier nullable register entry head tail exit) (ahead : head ≤ tail) :
    ∃ before after exits, Around code quantifier entry head tail exit before after exits := by
  cases shape with
  | optional least most enter =>
      refine ⟨[⟨entry, _, head⟩], [], [tail], .single enter, .nil _, ?_, ?_, ?_, ?_⟩
      · by_cases slow : quantifier.greed = .lazy <;>
          simp [Quantifier.enterOr, slow, Instruction.Turns]
      · simp [Fragment.Avoids]
      · simp
      · apply quantifier.rounds_le_of_uncounted
        simp [Quantifier.needsCounter, least, most]
  | star least most consumes enter back =>
      refine ⟨[⟨entry, _, head⟩], [⟨tail, _, exit⟩], [exit, entry], .single enter, .single back,
        ?_, ?_, ?_, ?_⟩
      · by_cases slow : quantifier.greed = .lazy <;>
          simp [Quantifier.enterOr, slow, Instruction.Turns]
      · simp only [Fragment.Avoids, List.forall_mem_cons]
        grind [→ Code.lt_of_instruction?]
      · simp
      · apply quantifier.rounds_le_of_uncounted
        simp [Quantifier.needsCounter, least, most]
  | @watchedStar mark head tail back exit least most watched enter increment stuck again =>
      refine ⟨[⟨entry, _, mark⟩, ⟨mark, _, head⟩], [⟨tail, _, back⟩, ⟨back, _, exit⟩], [exit, entry],
        .cons enter (.single increment), .cons stuck (.single again), ?_, ?_, ?_, ?_⟩
      · by_cases slow : quantifier.greed = .lazy <;>
          simp [Quantifier.enterOr, slow, Instruction.Turns]
      · simp only [Fragment.Avoids, List.forall_mem_cons]
        grind [→ Code.lt_of_instruction?]
      · simp
      · apply quantifier.rounds_le_of_uncounted
        simp [Quantifier.needsCounter, least, most]
  | plus least most consumes again =>
      refine ⟨[], [⟨tail, _, exit⟩], [entry], .nil _, .single again, ?_, ?_, ?_, ?_⟩
      · by_cases slow : quantifier.greed = .lazy <;>
          simp [Quantifier.againAt, slow, Instruction.Turns]
      · simp [Fragment.Avoids]
      · simp
      · apply quantifier.rounds_le_of_uncounted
        simp [Quantifier.needsCounter, least, most]
  | @watchedPlus head tail back exit least most watched increment stuck again =>
      refine ⟨[⟨entry, _, head⟩], [⟨tail, _, back⟩, ⟨back, _, exit⟩], [exit, entry],
        .single increment, .cons stuck (.single again), ?_, ?_, ?_, ?_⟩
      · by_cases slow : quantifier.greed = .lazy <;>
          simp [Quantifier.againAt, slow, Instruction.Turns]
      · simp only [Fragment.Avoids, List.forall_mem_cons]
        grind [→ Code.lt_of_instruction?]
      · simp
      · apply quantifier.rounds_le_of_uncounted
        simp [Quantifier.needsCounter, least, most]
  | @atMost start mark head tail exit most least bounded several reset enter increment below =>
      refine ⟨[⟨entry, _, start⟩, ⟨start, _, mark⟩, ⟨mark, _, head⟩], [⟨tail, _, exit⟩],
        [exit, start], .cons reset (.cons enter (.single increment)), .single below, ?_, ?_, ?_, ?_⟩
      · by_cases slow : quantifier.greed = .lazy <;>
          simp [Quantifier.enterOr, slow, Instruction.Turns]
      · simp only [Fragment.Avoids, List.forall_mem_cons]
        grind [→ Code.lt_of_instruction?]
      · simp
      · by_cases slow : quantifier.greed = .lazy <;>
          simp [Quantifier.enterOr, slow, Quantifier.rounds, Quantifier.needsCounter,
            Quantifier.roundsLeft, least, bounded, several, Entry.rounds, Instruction.rounds]
  | @atLeast start head tail decide exit least most consumes reset increment below again =>
      refine ⟨[⟨entry, _, start⟩, ⟨start, _, head⟩], [⟨tail, _, decide⟩, ⟨decide, _, exit⟩],
        [start], .cons reset (.single increment), .cons below (.single again), ?_, ?_, ?_, ?_⟩
      · by_cases slow : quantifier.greed = .lazy <;>
          simp [Quantifier.againAt, slow, Instruction.Turns]
      · simp only [Fragment.Avoids, List.forall_mem_cons]
        grind [→ Code.lt_of_instruction?]
      · simp
      · have counted := quantifier.needsCounter_of_counting false (.inl least)
        have rounds : quantifier.rounds = quantifier.least + 2 := by
          have positive : 0 < quantifier.least := by omega
          simp [Quantifier.rounds, counted, Quantifier.roundsLeft, most, positive]
        by_cases slow : quantifier.greed = .lazy <;>
          simp [Quantifier.againAt, slow, rounds, Entry.rounds, Instruction.rounds]
  | @watchedAtLeast start head tail decide back exit least most watched reset increment below stuck
      again =>
      refine ⟨[⟨entry, _, start⟩, ⟨start, _, head⟩],
        [⟨tail, _, decide⟩, ⟨decide, _, back⟩, ⟨back, _, exit⟩], [exit, start],
        .cons reset (.single increment), .cons below (.cons stuck (.single again)), ?_, ?_, ?_, ?_⟩
      · by_cases slow : quantifier.greed = .lazy <;>
          simp [Quantifier.againAt, slow, Instruction.Turns]
      · simp only [Fragment.Avoids, List.forall_mem_cons]
        grind [→ Code.lt_of_instruction?]
      · simp
      · have counted := quantifier.needsCounter_of_counting false (.inl least)
        have rounds : quantifier.rounds = quantifier.least + 2 := by
          have positive : 0 < quantifier.least := by omega
          simp [Quantifier.rounds, counted, Quantifier.roundsLeft, most, positive]
        by_cases slow : quantifier.greed = .lazy <;>
          simp [Quantifier.againAt, slow, rounds, Entry.rounds, Instruction.rounds]
  | @exactly start head tail exit least most reset increment below =>
      refine ⟨[⟨entry, _, start⟩, ⟨start, _, head⟩], [⟨tail, _, exit⟩], [start],
        .cons reset (.single increment), .single below, ?_, ?_, ?_, ?_⟩
      · simp [Instruction.Turns]
      · simp only [Fragment.Avoids, List.forall_mem_cons]
        grind [→ Code.lt_of_instruction?]
      · simp
      · have counted := quantifier.needsCounter_of_counting false (.inr ⟨least, by simp [most]⟩)
        simp [Quantifier.rounds, counted, Quantifier.roundsLeft, most, Entry.rounds,
          Instruction.rounds]
  | @between start head tail decide back exit most least bounded differ reset increment below enough
      again =>
      refine ⟨[⟨entry, _, start⟩, ⟨start, _, head⟩],
        [⟨tail, _, decide⟩, ⟨decide, _, back⟩, ⟨back, _, exit⟩], [exit, start],
        .cons reset (.single increment), .cons below (.cons enough (.single again)), ?_, ?_, ?_, ?_⟩
      · by_cases slow : quantifier.greed = .lazy <;>
          simp [Quantifier.againAt, slow, Instruction.Turns]
      · simp only [Fragment.Avoids, List.forall_mem_cons]
        grind [→ Code.lt_of_instruction?]
      · simp
      · have counted := quantifier.needsCounter_of_counting false
          (.inr ⟨least, by simp [bounded]⟩)
        have rounds : quantifier.rounds = max quantifier.least most + 2 := by
          simp [Quantifier.rounds, counted, Quantifier.roundsLeft, bounded]
        have enough : max quantifier.least most + 2 ≤ (quantifier.least + 2) * (most + 2) := by
          rw [Nat.add_mul, Nat.mul_add]
          omega
        by_cases slow : quantifier.greed = .lazy <;>
          simpa [Quantifier.againAt, slow, rounds, Entry.rounds, Instruction.rounds] using enough

namespace Expr

/-- The instructions of an expression from one address to another. -/
structure Listed (code : Code) (expr : Expr) (start : Nat) (entries : List Entry) (stop : Nat) :
    Prop where
  fragment : Fragment code [] start entries stop
  opens : entries.filterMap (·.instruction.opens?) = expr.captures
  closes : (entries.filterMap (·.instruction.closes?)).Perm expr.captures
  refers : entries.filterMap (·.instruction.refers?) = expr.references
  rounds : expr.rounds ≤ Entry.rounds entries

variable {code : Code} {start middle stop : Nat} {first second body : Expr}
  {entries others : List Entry}

theorem avoids_nil (start stop : Nat) : Fragment.Avoids [] start stop := fun _ none => nomatch none

namespace Listed

theorem empty (code : Code) (address : Nat) : Listed code empty address [] address :=
  ⟨.nil code [] address, rfl, .refl _, rfl, Nat.le_refl _⟩

/-- One instruction that matches bytes or a condition. -/
theorem single {expr : Expr} {instruction : Instruction}
    (read : code.instruction? start = some (instruction, stop))
    (sound : Entry.Sound ⟨start, instruction, stop⟩)
    (plain : instruction.encloses = false ∧ instruction.repeats = false ∧
      instruction.target? = none ∧ instruction.opens? = none ∧ instruction.closes? = none)
    (captures : expr.captures = []) (refers : instruction.refers?.toList = expr.references)
    (rounds : expr.rounds = 1) :
    Listed code expr start [⟨start, instruction, stop⟩] stop := by
  obtain ⟨flat, once, stays, opens, closes⟩ := plain
  refine ⟨.single read sound flat once ?_, ?_, ?_, ?_, ?_⟩
  · intro target goes
    rw [stays] at goes
    cases goes
  · simp [opens, captures]
  · simp [closes, captures]
  · rw [← refers]
    cases found : instruction.refers? <;> simp [found]
  · rw [rounds]
    exact Entry.rounds_pos _

theorem sequence (former : Listed code first start entries middle)
    (latter : Listed code second middle others stop) :
    Listed code (sequence first second) start (entries ++ others) stop where
  fragment := former.fragment.append latter.fragment (avoids_nil _ _) (avoids_nil _ _)
  opens := by rw [List.filterMap_append, former.opens, latter.opens, captures]
  closes := by
    rw [List.filterMap_append, captures]
    exact former.closes.append latter.closes
  refers := by rw [List.filterMap_append, former.refers, latter.refers, references]
  rounds := by
    rw [Entry.rounds_append, Expr.rounds]
    exact Nat.mul_le_mul former.rounds latter.rounds

theorem literal {caseless : Bool} {bytes : List UInt8}
    (laid : LiteralAt code caseless bytes start stop) :
    ∃ entries, Listed code (literal caseless bytes) start entries stop := by
  induction laid with
  | nil address => exact ⟨[], .nil code [] address, rfl, .refl _, rfl, Nat.le_refl _⟩
  | @single byte rest start next stop read later ih =>
      obtain ⟨entries, listed⟩ := ih
      have here : Listed code (.test (.ofLiteral caseless byte)) start _ next :=
        .single read trivial ⟨rfl, rfl, rfl, rfl, rfl⟩ rfl rfl rfl
      have whole := here.sequence listed
      exact ⟨_, whole.fragment, whole.opens, whole.closes, whole.refers, whole.rounds⟩
  | @text bytes rest start first next stop several short read held later ih =>
      obtain ⟨entries, listed⟩ := ih
      have sound : Entry.Sound ⟨start, .text caseless first (first + bytes.length), next⟩ := by
        refine ⟨?_, ?_, (Code.text_bounds read).2⟩
        · rwa [Nat.add_sub_cancel_left]
        · rwa [Nat.add_sub_cancel_left]
      have here : Listed code (.literal caseless bytes) start _ next :=
        .single read sound ⟨rfl, rfl, rfl, rfl, rfl⟩ rfl rfl rfl
      have whole := here.sequence listed
      exact ⟨_, whole.fragment, whole.opens, whole.closes, whole.refers, whole.rounds⟩

/-- Instructions around a body that have no numbers of their own. -/
theorem filterMap_around {numbers : Entry → Option Nat} {before after : List Entry}
    (silent : ∀ entry ∈ before ++ after, numbers entry = none) :
    (before ++ (entries ++ after)).filterMap numbers = entries.filterMap numbers := by
  have early : before.filterMap numbers = [] := List.filterMap_eq_nil_iff.mpr fun entry member =>
    silent entry (List.mem_append_left _ member)
  have late : after.filterMap numbers = [] := List.filterMap_eq_nil_iff.mpr fun entry member =>
    silent entry (List.mem_append_right _ member)
  rw [List.filterMap_append, List.filterMap_append, early, late, List.nil_append, List.append_nil]

theorem alternative {ahead joint behind : Nat}
    (enter : code.instruction? start = some (.branch behind, ahead))
    (former : Listed code first ahead entries joint)
    (leave : code.instruction? joint = some (.jump stop, behind))
    (latter : Listed code second behind others stop) :
    Listed code (alternative first second) start
      (([⟨start, .branch behind, ahead⟩] ++ (entries ++ [⟨joint, .jump stop, behind⟩])) ++ others)
      stop where
  fragment := by
    have enters := Code.lt_of_instruction? enter
    have leaves := Code.lt_of_instruction? leave
    have inside := former.fragment.row.le
    have beyond := latter.fragment.row.le
    have chosen : Fragment code [behind, stop] start
        ([⟨start, .branch behind, ahead⟩] ++ (entries ++ [⟨joint, .jump stop, behind⟩])) behind := by
      refine .around (.single enter) former.fragment (.single leave) ?_ ?_
      · simp only [Fragment.Avoids, List.forall_mem_cons]
        grind
      · simp [Entry.Sound, Instruction.encloses, Instruction.repeats, Instruction.target?]
    have whole := chosen.append (latter.fragment.widen _) (by
        simp only [Fragment.Avoids, List.forall_mem_cons]
        grind) (by
        simp only [Fragment.Avoids, List.forall_mem_cons]
        grind)
    refine whole.close fun exit member => ?_
    rcases List.mem_cons.mp member with same | same
    · rcases latter.fragment.row.start_mem with nothing | listed
      · exact .inl (same.trans nothing)
      · rw [List.map_append]
        exact .inr (List.mem_append_right _ (same ▸ listed))
    · exact .inl (List.mem_singleton.mp same)
  opens := by
    rw [List.filterMap_append, filterMap_around (by simp [Instruction.opens?]), former.opens,
      latter.opens, captures]
  closes := by
    rw [List.filterMap_append, filterMap_around (by simp [Instruction.closes?]), captures]
    exact former.closes.append latter.closes
  refers := by
    rw [List.filterMap_append, filterMap_around (by simp [Instruction.refers?]), former.refers,
      latter.refers, references]
  rounds := by
    have total := Nat.mul_le_mul former.rounds latter.rounds
    simpa [Entry.rounds_append, Entry.rounds, Instruction.rounds, Expr.rounds] using total

theorem capture {group : Fin Capacity.slots} {head tail : Nat}
    (opened : code.instruction? start = some (.openGroup group, head))
    (inner : Listed code body head entries tail)
    (closed : code.instruction? tail = some (.closeGroup group, stop)) :
    Listed code (capture group.val body) start
      ([⟨start, .openGroup group, head⟩] ++ (entries ++ [⟨tail, .closeGroup group, stop⟩]))
      stop where
  fragment := by
    refine .around (.single opened) inner.fragment (.single closed) (avoids_nil _ _) ?_
    simp [Entry.Sound, Instruction.encloses, Instruction.repeats, Instruction.target?]
  opens := by
    rw [List.filterMap_append, List.filterMap_append, inner.opens]
    exact congrArg (group.val :: ·) (List.append_nil _)
  closes := by
    rw [List.filterMap_append, List.filterMap_append]
    have bodyFirst : (entries.filterMap (·.instruction.closes?) ++ [group.val]).Perm
        (group.val :: body.captures) := List.perm_append_comm.trans (inner.closes.cons _)
    exact bodyFirst
  refers := by
    rw [filterMap_around (by simp [Instruction.refers?]), inner.refers, references]
  rounds := by
    simpa [Entry.rounds_append, Entry.rounds, Instruction.rounds, Expr.rounds] using inner.rounds

theorem loop {quantifier : Quantifier} {nullable : Bool} {counter head tail : Nat}
    {register : Fin Capacity.counters}
    (shape : LoopAt code quantifier nullable register start head tail stop)
    (inner : Listed code body head entries tail) :
    ∃ listing, Listed code (loop quantifier nullable counter body) start listing stop := by
  obtain ⟨before, after, exits, around⟩ := shape.around inner.fragment.row.le
  have controls : ∀ entry ∈ before ++ after, entry.Sound ∧ entry.instruction.encloses = false ∧
      entry.instruction.repeats = false ∧
      ∀ target, entry.instruction.target? = some target → target ∈ exits :=
    fun entry member => (around.turns entry member).control
  have fragment := Fragment.around around.entering inner.fragment around.leaving around.avoids
    controls
  have silent := fun entry member => (around.turns entry member).silent
  refine ⟨_, fragment.close ?_, ?_, ?_, ?_, ?_⟩
  · intro exit member
    simp only [List.map_append, List.mem_append]
    rcases around.own exit member with ends | begins | listed
    · exact .inl ends
    · rcases (inner.fragment.row.append around.leaving).start_mem with nothing | listed
      · exact .inl (begins.trans nothing)
      · rw [List.map_append, List.mem_append] at listed
        exact .inr (.inr (begins ▸ listed))
    · rw [List.map_append, List.mem_append] at listed
      rcases listed with early | late
      · exact .inr (.inl early)
      · exact .inr (.inr (.inr late))
  · rw [filterMap_around fun entry member => (silent entry member).1, inner.opens, captures]
  · rw [filterMap_around fun entry member => (silent entry member).2.1, captures]
    exact inner.closes
  · rw [filterMap_around fun entry member => (silent entry member).2.2, inner.refers, references]
  · rw [Entry.rounds_append, Entry.rounds_append, Expr.rounds, Nat.mul_comm (Entry.rounds entries),
      ← Nat.mul_assoc]
    exact Nat.mul_le_mul around.rounds inner.rounds

/-- A body that runs as a call. -/
theorem enclosed {expr : Expr} {instruction : Instruction} {head tail : Nat}
    (enter : code.instruction? start = some (instruction, head))
    (call : instruction.encloses = true ∧ instruction.repeats = false ∧
      instruction.target? = some stop ∧ instruction.opens? = none ∧ instruction.closes? = none ∧
      instruction.refers? = none)
    (sound : Entry.Sound ⟨start, instruction, head⟩)
    (inner : Listed code body head entries tail)
    (finish : code.instruction? tail = some (.subEnd, stop))
    (same : expr.captures = body.captures ∧ expr.references = body.references ∧
      expr.rounds = body.rounds) :
    Listed code expr start (⟨start, instruction, head⟩ :: (entries ++ [⟨tail, .subEnd, stop⟩]))
      stop := by
  obtain ⟨encloses, once, leaves, opens, closes, refers⟩ := call
  obtain ⟨captures, references, rounds⟩ := same
  have silent : ∀ numbers : Instruction → Option Nat, numbers instruction = none →
      numbers .subEnd = none →
      ∀ entry ∈ [⟨start, instruction, head⟩] ++ [(⟨tail, .subEnd, stop⟩ : Entry)],
        numbers entry.instruction = none := by
    intro numbers mine last
    simp [mine, last]
  refine ⟨.enclosed enter encloses once sound leaves inner.fragment finish, ?_, ?_, ?_, ?_⟩
  · rw [← List.singleton_append, filterMap_around (silent _ opens rfl),
      inner.opens, captures]
  · rw [← List.singleton_append, filterMap_around (silent _ closes rfl), captures]
    exact inner.closes
  · rw [← List.singleton_append, filterMap_around (silent _ refers rfl),
      inner.refers, references]
  · have once : 0 < Entry.rounds [⟨start, instruction, head⟩] := Entry.rounds_pos _
    have last : Entry.rounds [⟨tail, .subEnd, stop⟩] = 1 := rfl
    rw [rounds, ← List.singleton_append, Entry.rounds_append, Entry.rounds_append, last,
      Nat.mul_one]
    exact Nat.le_trans inner.rounds (Nat.le_mul_of_pos_left _ once)

end Listed

theorem listed_of_laidOut (expr : Expr) (wellFormed : expr.WellFormed) {start stop : Nat}
    (laid : expr.LaidOut code start stop) : ∃ entries, Listed code expr start entries stop := by
  induction expr generalizing start stop with
  | empty =>
      subst laid
      exact ⟨_, .empty code start⟩
  | test single => exact ⟨_, .single laid trivial ⟨rfl, rfl, rfl, rfl, rfl⟩ rfl rfl rfl⟩
  | literal caseless bytes => exact Listed.literal laid
  | assertion condition => exact ⟨_, .single laid trivial ⟨rfl, rfl, rfl, rfl, rfl⟩ rfl rfl rfl⟩
  | backReference caseless group =>
      obtain ⟨_, read⟩ := laid
      exact ⟨_, .single read trivial ⟨rfl, rfl, rfl, rfl, rfl⟩ rfl rfl rfl⟩
  | sequence first second ihFirst ihSecond =>
      obtain ⟨middle, former, latter⟩ := laid
      obtain ⟨entries, former⟩ := ihFirst wellFormed.1 former
      obtain ⟨others, latter⟩ := ihSecond wellFormed.2 latter
      exact ⟨_, former.sequence latter⟩
  | alternative first second ihFirst ihSecond =>
      obtain ⟨ahead, joint, behind, enter, former, leave, latter⟩ := laid
      obtain ⟨entries, former⟩ := ihFirst wellFormed.1 former
      obtain ⟨others, latter⟩ := ihSecond wellFormed.2 latter
      exact ⟨_, .alternative enter former leave latter⟩
  | capture group body ih =>
      obtain ⟨_, head, tail, opened, inner, closed⟩ := laid
      obtain ⟨entries, inner⟩ := ih wellFormed.2.2.2 inner
      exact ⟨_, .capture opened inner closed⟩
  | repetition quantifier single =>
      obtain ⟨next, read, tested⟩ := laid
      exact ⟨_, .repetition wellFormed read tested, rfl, .refl _, rfl, Nat.le_refl _⟩
  | loop quantifier nullable counter body ih =>
      obtain ⟨register, head, tail, _, shape, inner⟩ := laid
      obtain ⟨entries, inner⟩ := ih wellFormed.2.2.2 inner
      exact Listed.loop shape inner
  | atomic body ih =>
      obtain ⟨head, tail, enter, inner, finish⟩ := laid
      obtain ⟨entries, inner⟩ := ih wellFormed inner
      exact ⟨_, .enclosed enter ⟨rfl, rfl, rfl, rfl, rfl, rfl⟩ trivial inner finish
        ⟨rfl, rfl, rfl⟩⟩
  | look direction width body ih =>
      obtain ⟨head, tail, enter, inner, finish⟩ := laid
      obtain ⟨entries, inner⟩ := ih wellFormed.2 inner
      exact ⟨_, .enclosed enter ⟨rfl, rfl, rfl, rfl, rfl, rfl⟩ trivial inner finish
        ⟨rfl, rfl, rfl⟩⟩

end Expr

end ByteRegex
