import ByteRegex.Proofs.Grammar.Refinement
import ByteRegex.Proofs.Semantics.Equivalence

/-!
# Nesting

What the parser makes of tokens that close all the groups they open does not depend on the groups
around them, except that there may be too many of those. So an atom leaves the same pending part in
every frame that it is read in.
-/

namespace ByteRegex

namespace Grammar

/-- Tokens that close the groups they open and no others. -/
inductive Balanced : List Token → Prop where
  | nil : Balanced []
  | plain {token : Token} {later : List Token} (opens : ∀ read, token ≠ .opening read)
      (closes : token ≠ .closing) (rest : Balanced later) : Balanced (token :: later)
  | group (read : Except CompileError Opening) {body later : List Token} (inner : Balanced body)
      (rest : Balanced later) : Balanced (.opening read :: (body ++ .closing :: later))

/-- What can stand in front of a quantifier: a byte, a back-reference or a group. -/
inductive Operand : List Token → Prop where
  | byte {token : Token} (one : isSingle token = true) : Operand [token]
  | backReference (group : Nat) : Operand [.backReference group]
  | group (opening : Opening) {body : List Token} (inner : Balanced body) :
      Operand (.opening (.ok opening) :: (body ++ [.closing]))

/-- An operand with a quantifier. -/
def quantified (operand : List Token) (quantifier : Quantifier) : List Token :=
  operand ++ [.quantifier (.ok quantifier)]

end Grammar

open Grammar

namespace ParseState

variable {state settled next : ParseState}

theorem foldlM_one (state : ParseState) (token : Token) :
    [token].foldlM step state = state.step token := by
  rw [List.foldlM_cons]
  exact bind_pure _

/-! ## Settling first -/

theorem settle_of_nothing (nothing : state.frame.pending = .nothing) : state.settle = .ok state := by
  simp only [settle, nothing]

/-- Settling adds pieces to the frame and takes counters. The rest stays as it is. -/
theorem shape_of_settle (done : state.settle = .ok settled) :
    ∃ pieces counters, settled = { state with
      frame := { state.frame with pieces := pieces, pending := .nothing }
      counters := counters } := by
  unfold settle at done
  split at done
  · rename_i nothing
    cases done
    exact ⟨state.frame.pieces, state.counters, by rw [← nothing]⟩
  · rename_i last earlier _
    cases done
    match earlier with
    | [] | _ :: _ => exact ⟨_, _, rfl⟩
  · cases done
    exact ⟨_, _, rfl⟩
  · cases done
    exact ⟨_, _, rfl⟩
  · cases done
    exact ⟨_, _, rfl⟩
  · cases done
    exact ⟨_, _, rfl⟩
  · split at done
    · cases done
      exact ⟨_, _, rfl⟩
    · unfold addLoop at done
      dsimp only at done
      split at done
      · cases done
      · obtain ⟨_, _, rfl⟩ := exists_of_map done
        exact ⟨_, _, rfl⟩

theorem flags_of_settle (done : state.settle = .ok settled) :
    settled.frame.flags = state.frame.flags := by
  obtain ⟨_, _, rfl⟩ := shape_of_settle done
  rfl

theorem outer_of_settle (done : state.settle = .ok settled) : settled.outer = state.outer := by
  obtain ⟨_, _, rfl⟩ := shape_of_settle done
  rfl

/-! ## Groups around -/

/-- The parser with other frames around the innermost one. -/
def within (state : ParseState) (outer : List Frame) : ParseState := { state with outer }

theorem addLoop_within (state : ParseState) (outer : List Frame) (body : Expr)
    (quantifier : Quantifier) :
    (state.within outer).addLoop body quantifier =
      (state.addLoop body quantifier).map (·.within outer) := by
  obtain ⟨frame, around, groups, closed, counters⟩ := state
  dsimp only [addLoop, within]
  split
  · rfl
  · generalize Expr.codeSize _ = measured
    cases measured <;> rfl

theorem settle_within (state : ParseState) (outer : List Frame) :
    (state.within outer).settle = state.settle.map (·.within outer) := by
  have same : (state.within outer).frame = state.frame := rfl
  simp only [settle, same]
  cases state.frame.pending with
  | nothing | literals => rfl
  | atom atom => cases atom <;> rfl
  | repeatedTest => rfl
  | repeatedExpr expr quantifier =>
      dsimp only
      split
      · rfl
      · exact addLoop_within state outer expr quantifier

/-- What follows settling may be looked at in the settled state only. -/
theorem settle_bind_within {β γ : Type} (state : ParseState) (outer : List Frame)
    {rest : ParseState → Except CompileError β} {next : ParseState → Except CompileError γ}
    {change : γ → β} (same : ∀ settled, rest (settled.within outer) = (next settled).map change) :
    (state.within outer).settle.bind rest = (state.settle.bind next).map change := by
  rw [settle_within]
  cases state.settle with
  | error error => rfl
  | ok settled => exact same settled

theorem settle_map_within (state : ParseState) (outer : List Frame)
    {change : ParseState → ParseState}
    (same : ∀ settled, change (settled.within outer) = (change settled).within outer) :
    (state.within outer).settle.map change = (state.settle.map change).map (·.within outer) := by
  rw [settle_within]
  cases state.settle with
  | error error => rfl
  | ok settled => exact congrArg Except.ok (same settled)

/-- A token that neither opens nor closes a group does nothing to the groups around. -/
theorem step_within {token : Token} (opens : ∀ read, token ≠ .opening read)
    (closes : token ≠ .closing) (state : ParseState) (outer : List Frame) :
    (state.within outer).step token = (state.step token).map (·.within outer) := by
  have same : (state.within outer).frame = state.frame := rfl
  cases token with
  | literal byte =>
      have settled : (state.within outer).settle.map
            (fun state => state.withFrame (state.frame.await (.literals byte []))) =
          (state.settle.map fun state =>
            state.withFrame (state.frame.await (.literals byte []))).map (·.within outer) :=
        settle_map_within state outer fun _ => rfl
      simp only [step, addLiteral, same]
      cases state.frame.pending with
      | literals => rfl
      | nothing | atom | repeatedTest | repeatedExpr => exact settled
  | dot | caret | dollar | bracket | inClass | notInClass | assertion =>
      exact settle_map_within state outer fun settled => rfl
  | backReference group =>
      refine settle_bind_within state outer fun settled => ?_
      obtain ⟨frame, around, groups, closed, counters⟩ := settled
      dsimp only [within]
      by_cases known : (frame.flags.capturing && closed.contains group) = true
      · refine (if_pos known).trans ?_
        rw [if_pos known]
        rfl
      · refine (if_neg known).trans ?_
        rw [if_neg known]
        rfl
  | opening read => exact absurd rfl (opens read)
  | closing => exact absurd rfl closes
  | bar =>
      refine settle_bind_within state outer fun settled => ?_
      show settled.frame.closeBranch.map _ = (settled.frame.closeBranch.map _).map _
      cases settled.frame.closeBranch <;> rfl
  | quantifier read =>
      simp only [step, addQuantifier, same]
      cases state.frame.pending with
      | nothing | repeatedTest | repeatedExpr => rfl
      | literals => cases read <;> rfl
      | atom atom => cases atom <;> cases read <;> rfl
  | malformed error => exact settle_bind_within state outer fun settled => rfl

/-- How a group is enclosed, the flags inside it and the number of groups opened by then. -/
def enclosed (flags : Flags) (groups : Nat) : Opening → Except CompileError (Enclosure × Flags × Nat)
  | .plain =>
      if flags.capturing then
        if Capacity.slots ≤ groups + 1 then .error .tooComplex
        else .ok (.capture (groups + 1), flags, groups + 1)
      else .ok (.bare, flags, groups)
  | .enclosing => .ok (.bare, flags, groups)
  | .atomic => .ok (.atomic, flags, groups)
  | .look look => .ok (.look look, flags, groups)
  | .inline enable changed =>
      .ok (.bare, if enable then flags.union changed else flags.difference changed, groups)

/-- A group opens above all others. It takes from the frame below it only the flags. -/
theorem openGroup_of_nothing (nothing : state.frame.pending = .nothing)
    (read : Except CompileError Opening) :
    state.openGroup read =
      if Capacity.nesting ≤ state.outer.length then .error .tooComplex
      else
        (read.bind (enclosed state.frame.flags state.groups)).map fun (enclosure, flags, groups) =>
          ⟨.start enclosure flags, state.frame :: state.outer, groups, state.closed,
            state.counters⟩ := by
  simp only [openGroup, settle_of_nothing nothing, Except.bind]
  cases read with
  | error error => rfl
  | ok opening =>
      cases opening with
      | plain =>
          simp only [enclosed]
          cases state.frame.flags.capturing with
          | false => rfl
          | true =>
              by_cases many : Capacity.slots ≤ state.groups + 1
              · simp only [many, if_true]
                rfl
              · simp only [many, if_true, if_false]
                rfl
      | enclosing | atomic | look | inline => rfl

/-- The frame of a group that has been opened and the number of groups by then, which are the same
for any parser with the same flags and not more groups around. -/
theorem exists_of_openGroup {read : Except CompileError Opening}
    (nothing : state.frame.pending = .nothing) (opened : state.openGroup read = .ok next) :
    ∃ frame groups, frame.pending = .nothing ∧ ∀ other : ParseState,
      other.frame.pending = .nothing → other.frame.flags = state.frame.flags →
      other.groups = state.groups → other.outer.length ≤ state.outer.length →
        other.openGroup read =
          .ok ⟨frame, other.frame :: other.outer, groups, other.closed, other.counters⟩ := by
  rw [openGroup_of_nothing nothing] at opened
  split at opened
  · cases opened
  · rename_i room
    obtain ⟨⟨enclosure, flags, groups⟩, found, _⟩ := exists_of_map opened
    refine ⟨.start enclosure flags, groups, rfl, fun other settled same level fewer => ?_⟩
    rw [openGroup_of_nothing settled, if_neg fun full => room (Nat.le_trans full fewer), same, level,
      found]
    rfl

/-- A group closes into the frame below it. What it leaves there depends neither on that frame nor on
those around. -/
theorem exists_of_closeGroup {parent : Frame} {outer : List Frame}
    (around : state.outer = parent :: outer) (ended : state.closeGroup = .ok next) :
    ∃ atom groups closed counters, ∀ parent outer,
      (state.within (parent :: outer)).closeGroup =
        .ok ⟨parent.await (.atom atom), outer, groups, closed, counters⟩ := by
  obtain ⟨settled, found, rest⟩ := exists_of_bind ended
  obtain ⟨body, whole, rest⟩ := exists_of_bind rest
  rw [outer_of_settle found, around] at rest
  obtain ⟨⟨atom, after⟩, finished, _⟩ := exists_of_bind rest
  obtain ⟨made, built, _⟩ := exists_of_map finished
  have closes (parent : Frame) (outer : List Frame) :
      (state.within (parent :: outer)).closeGroup =
        ((settled.within (parent :: outer)).finishGroup body).map fun finished =>
          { finished.2 with frame := parent.await (.atom finished.1), outer := outer } := by
    show (state.within (parent :: outer)).settle.bind _ = _
    rw [settle_within, found]
    show settled.frame.expression.bind _ = _
    rw [whole]
    show ((settled.within (parent :: outer)).finishGroup body).bind _ = _
    cases (settled.within (parent :: outer)).finishGroup body <;> rfl
  have same (outer : List Frame) : (settled.within outer).frame = settled.frame := rfl
  cases enclosed : settled.frame.enclosure with
  | capture group =>
      have finishes (outer : List Frame) : (settled.within outer).finishGroup body =
          .ok (made, { settled.within outer with closed := group :: settled.closed }) := by
        simp only [finishGroup, same, built, enclosed, Except.map]
        rfl
      refine ⟨made, settled.groups, group :: settled.closed, settled.counters,
        fun parent outer => ?_⟩
      rw [closes, finishes]
      rfl
  | bare | atomic | look =>
      have finishes (outer : List Frame) : (settled.within outer).finishGroup body =
          .ok (made, settled.within outer) := by
        simp only [finishGroup, same, built, enclosed, Except.map]
      refine ⟨made, settled.groups, settled.closed, settled.counters, fun parent outer => ?_⟩
      rw [closes, finishes]
      rfl

/-! ## Balanced tokens -/

theorem openGroup_eq_settle (state : ParseState) (read : Except CompileError Opening) :
    state.openGroup read = state.settle.bind (·.openGroup read) := by
  cases done : state.settle with
  | error error => simp only [openGroup, done, Except.bind]
  | ok settled =>
      have again := settle_of_nothing (settle_pending done)
      simp only [openGroup, done, again, Except.bind]

theorem openGroup_of_settle (done : state.settle = .ok settled)
    (read : Except CompileError Opening) : state.openGroup read = settled.openGroup read := by
  rw [openGroup_eq_settle, done]
  rfl

/-- A token that neither opens nor closes a group keeps the groups around. -/
theorem outer_of_step {token : Token} (opens : ∀ read, token ≠ .opening read)
    (closes : token ≠ .closing) (stepped : state.step token = .ok next) :
    next.outer = state.outer := by
  have same : state.step token = (state.step token).map (·.within state.outer) :=
    step_within opens closes state state.outer
  rw [stepped] at same
  have kept : next = next.within state.outer := Except.ok.inj same
  rw [kept]
  rfl

/-- A balanced run keeps the groups around, and would be the same with fewer of them. -/
theorem foldlM_of_balanced {run : List Token} (balanced : Balanced run)
    (ran : run.foldlM step state = .ok next) :
    next.outer = state.outer ∧ ∀ fewer : List Frame, fewer.length ≤ state.outer.length →
      run.foldlM step (state.within fewer) = .ok (next.within fewer) := by
  induction balanced generalizing state next with
  | nil =>
      cases ran
      exact ⟨rfl, fun _ _ => rfl⟩
  | @plain token later opens closes _ ih =>
      rw [List.foldlM_cons] at ran
      obtain ⟨middle, stepped, ran⟩ := exists_of_bind ran
      obtain ⟨same, runs⟩ := ih ran
      have kept := outer_of_step opens closes stepped
      refine ⟨same.trans kept, fun fewer level => ?_⟩
      rw [List.foldlM_cons, step_within opens closes, stepped]
      exact runs fewer (kept ▸ level)
  | @group read body later _ _ inner rest =>
      rw [List.foldlM_cons] at ran
      obtain ⟨entered, opened, ran⟩ := exists_of_bind ran
      rw [List.foldlM_append] at ran
      obtain ⟨filled, inside, ran⟩ := exists_of_bind ran
      rw [List.foldlM_cons] at ran
      obtain ⟨left, closed, ran⟩ := exists_of_bind ran
      -- The group opens above the settled frame,
      obtain ⟨settled, found, opened⟩ := exists_of_bind ((openGroup_eq_settle _ _).symm.trans opened)
      have nothing : settled.frame.pending = .nothing := settle_pending found
      have around : settled.outer = state.outer := outer_of_settle found
      obtain ⟨frame, groups, _, opens⟩ := exists_of_openGroup nothing opened
      cases opened.symm.trans (opens settled nothing rfl rfl (Nat.le_refl _))
      -- its body runs above that frame,
      obtain ⟨same, bodies⟩ := inner inside
      have same : filled.outer = settled.frame :: settled.outer := same
      -- and it closes into it.
      obtain ⟨atom, _, _, _, closes⟩ := exists_of_closeGroup same closed
      have whole : filled.within (settled.frame :: settled.outer) = filled := by
        rw [← same]
        rfl
      cases closed.symm.trans (whole ▸ closes settled.frame settled.outer)
      obtain ⟨kept, laters⟩ := rest ran
      refine ⟨kept.trans around, fun fewer level => ?_⟩
      rw [← around] at level
      have reopened : (state.within fewer).step (.opening read) =
          .ok ⟨frame, settled.frame :: fewer, groups, settled.closed, settled.counters⟩ := by
        show (state.within fewer).openGroup read = _
        rw [openGroup_eq_settle, settle_within, found]
        exact opens (settled.within fewer) nothing rfl rfl level
      have refilled := bodies (settled.frame :: fewer) (Nat.succ_le_succ level)
      have reclosed : (filled.within (settled.frame :: fewer)).step .closing = _ :=
        closes settled.frame fewer
      rw [List.foldlM_cons, reopened]
      show List.foldlM step _ (body ++ .closing :: later) = _
      rw [List.foldlM_append]
      refine (congrArg (· >>= _) refilled).trans ?_
      show List.foldlM step _ (.closing :: later) = _
      rw [List.foldlM_cons, reclosed]
      exact laters fewer level

end ParseState

/-! ## Operands -/

/-- Something pending that stands for one byte. -/
inductive Pending.IsByte (caseless : Bool) : Pending → ByteTest → Prop where
  | literal (byte : UInt8) : IsByte caseless (.literals byte []) (.ofLiteral caseless byte)
  | single (test : ByteTest) : IsByte caseless (.atom (.single test)) test

/-- Something pending that a quantifier can follow, and what both of them are together. -/
inductive Pending.Takes (caseless : Bool) : Pending → (Quantifier → Pending) → Prop where
  | byte {pending : Pending} {test : ByteTest} (one : pending.IsByte caseless test) :
      Takes caseless pending (.repeatedTest test)
  | compound (expr : Expr) : Takes caseless (.atom (.compound expr)) (.repeatedExpr expr)

namespace ParseState

variable {state next : ParseState}

/-- A parser that would read an operand as another one does, though there may be other frames around
and fewer of them. -/
structure Resembles (state other : ParseState) : Prop where
  nothing : other.frame.pending = .nothing
  flags : other.frame.flags = state.frame.flags
  fewer : other.outer.length ≤ state.outer.length
  groups : other.groups = state.groups
  closed : other.closed = state.closed
  counters : other.counters = state.counters

/-- The parser with something pending in its innermost frame. -/
def awaiting (state : ParseState) (pending : Pending) : ParseState :=
  state.withFrame (state.frame.await pending)

theorem settle_of_isByte {pending : Pending} {test : ByteTest}
    (one : pending.IsByte state.frame.flags.caseless test) :
    (state.awaiting pending).settle = .ok (state.withFrame (state.frame.addPiece (.test test))) := by
  cases one <;> rfl

theorem addQuantifier_of_takes {pending : Pending} {caseless : Bool}
    {repeated : Quantifier → Pending} (same : state.frame.flags.caseless = caseless)
    (takes : pending.Takes caseless repeated) (quantifier : Quantifier) :
    (state.awaiting pending).addQuantifier (.ok quantifier) =
      .ok (state.awaiting (repeated quantifier)) := by
  subst same
  cases takes with
  | byte one => cases one <;> rfl
  | compound expr => rfl

/-- A token for one byte comes to wait for a quantifier. -/
theorem exists_of_single {token : Token} (one : isSingle token = true) (flags : Flags) :
    ∃ pending test, pending.IsByte flags.caseless test ∧ ∀ state : ParseState,
      state.frame.pending = .nothing → state.frame.flags = flags →
        state.step token = .ok (state.awaiting pending) := by
  have added {token : Token} (test : Flags → ByteTest)
      (steps : ∀ state : ParseState,
        state.step token = state.addAtom (.single (test state.frame.flags))) :
      ∃ pending test, pending.IsByte flags.caseless test ∧ ∀ state : ParseState,
        state.frame.pending = .nothing → state.frame.flags = flags →
          state.step token = .ok (state.awaiting pending) := by
    refine ⟨_, _, .single (test flags), fun state nothing same => ?_⟩
    simp only [steps, addAtom, settle_of_nothing nothing, same]
    rfl
  cases token with
  | literal byte =>
      refine ⟨_, _, .literal byte, fun state nothing same => ?_⟩
      simp only [step, addLiteral, nothing, settle_of_nothing nothing]
      rfl
  | dot => exact added (fun flags => if flags.newline then .anyButNewline else .any) fun _ => rfl
  | bracket bracket => exact added (fun flags => .set (bracket.toByteSet flags)) fun _ => rfl
  | inClass kind => exact added (fun _ => .inClass kind) fun _ => rfl
  | notInClass kind => exact added (fun _ => .notInClass kind) fun _ => rfl
  | caret | dollar | assertion | backReference | opening | closing | bar | quantifier | malformed =>
      cases one

/-- An operand leaves the same pending part in every frame. -/
theorem exists_of_operand {operand : List Token} (repeatable : Operand operand)
    (nothing : state.frame.pending = .nothing)
    (ran : operand.foldlM step state = .ok next) :
    ∃ pending groups closed counters,
      ((∃ test, pending.IsByte state.frame.flags.caseless test) ∨
        ∃ atom, pending = .atom atom ∧ (operand.length = 1 →
          ∀ expr, atom = .compound expr → (Expr.atomic expr).Equivalent expr)) ∧
      ∀ other, state.Resembles other → operand.foldlM step other =
        .ok ⟨other.frame.await pending, other.outer, groups, closed, counters⟩ := by
  cases repeatable with
  | @byte token one =>
      obtain ⟨pending, test, byte, steps⟩ := exists_of_single one state.frame.flags
      refine ⟨pending, state.groups, state.closed, state.counters, .inl ⟨test, byte⟩,
        fun other resembles => ?_⟩
      rw [List.foldlM_cons, steps other resembles.nothing resembles.flags, ← resembles.groups,
        ← resembles.closed, ← resembles.counters]
      rfl
  | backReference group =>
      have steps (other : ParseState) (settled : other.frame.pending = .nothing) :
          other.step (.backReference group) =
            if other.frame.flags.capturing && other.closed.contains group then
              .ok (other.awaiting
                (.atom (.compound (.backReference other.frame.flags.caseless group))))
            else .error .badBackReference := by
        simp only [step, addBackReference, settle_of_nothing settled, Except.bind]
        rfl
      rw [List.foldlM_cons, steps state nothing] at ran
      obtain ⟨_, found, _⟩ := exists_of_bind ran
      split at found
      · rename_i known
        refine ⟨_, state.groups, state.closed, state.counters,
          .inr ⟨.compound (.backReference state.frame.flags.caseless group), rfl,
            fun _ expr same => ?_⟩,
          fun other resembles => ?_⟩
        · cases same
          exact .atomic_backReference _ _
        · rw [List.foldlM_cons, steps other resembles.nothing, resembles.flags, resembles.closed,
            if_pos known, ← resembles.groups, ← resembles.closed, ← resembles.counters]
          rfl
      · cases found
  | @group opening body inner =>
      rw [List.foldlM_cons] at ran
      obtain ⟨entered, opened, ran⟩ := exists_of_bind ran
      rw [List.foldlM_append] at ran
      obtain ⟨filled, inside, ran⟩ := exists_of_bind ran
      rw [List.foldlM_cons] at ran
      obtain ⟨left, closed, ran⟩ := exists_of_bind ran
      cases ran
      obtain ⟨frame, groups, _, opens⟩ := exists_of_openGroup nothing opened
      cases opened.symm.trans (opens state nothing rfl rfl (Nat.le_refl _))
      obtain ⟨same, bodies⟩ := foldlM_of_balanced inner inside
      obtain ⟨atom, groups', closed', counters', closes⟩ := exists_of_closeGroup same closed
      refine ⟨.atom atom, groups', closed', counters', .inr ⟨atom, rfl, fun one => ?_⟩,
        fun other resembles => ?_⟩
      · simp at one
      · have reopened : other.step (.opening (.ok opening)) =
            .ok ⟨frame, other.frame :: other.outer, groups, state.closed, state.counters⟩ := by
          rw [← resembles.closed, ← resembles.counters]
          exact opens other resembles.nothing resembles.flags resembles.groups resembles.fewer
        have refilled := bodies (other.frame :: other.outer) (Nat.succ_le_succ resembles.fewer)
        have reclosed : (filled.within (other.frame :: other.outer)).step .closing = _ :=
          closes other.frame other.outer
        rw [List.foldlM_cons, reopened]
        show List.foldlM step _ (body ++ [.closing]) = _
        rw [List.foldlM_append]
        refine (congrArg (· >>= _) refilled).trans ?_
        show List.foldlM step _ [.closing] = _
        rw [List.foldlM_cons, reclosed]
        rfl

/-- An operand with its quantifier leaves the same in every frame. -/
theorem exists_of_quantified {operand : List Token} (repeatable : Operand operand)
    {quantifier : Quantifier} (nothing : state.frame.pending = .nothing)
    (ran : (quantified operand quantifier).foldlM step state = .ok next) :
    ∃ (repeated : Quantifier → Pending) (groups : Nat) (closed : List Nat) (counters : Nat),
      ((∃ test, repeated = Pending.repeatedTest test) ∨
        ∃ expr, repeated = Pending.repeatedExpr expr ∧
          (operand.length = 1 → (Expr.atomic expr).Equivalent expr)) ∧
      ∀ other, state.Resembles other → ∀ quantifier : Quantifier,
        (quantified operand quantifier).foldlM step other =
          .ok ⟨other.frame.await (repeated quantifier), other.outer, groups, closed, counters⟩ := by
  rw [quantified, List.foldlM_append] at ran
  obtain ⟨waiting, ran, followed⟩ := exists_of_bind ran
  obtain ⟨pending, groups, closed, counters, kind, runs⟩ := exists_of_operand repeatable nothing ran
  cases ran.symm.trans (runs state ⟨nothing, rfl, Nat.le_refl _, rfl, rfl, rfl⟩)
  have taken {repeated : Quantifier → Pending}
      (takes : pending.Takes state.frame.flags.caseless repeated) (other : ParseState)
      (resembles : state.Resembles other) (quantifier : Quantifier) :
      (quantified operand quantifier).foldlM step other =
        .ok ⟨other.frame.await (repeated quantifier), other.outer, groups, closed, counters⟩ := by
    let base : ParseState := ⟨other.frame, other.outer, groups, closed, counters⟩
    have same : base.frame.flags.caseless = state.frame.flags.caseless :=
      congrArg _ resembles.flags
    have followed : (base.awaiting pending).step (.quantifier (.ok quantifier)) = _ :=
      addQuantifier_of_takes same takes quantifier
    rw [quantified, List.foldlM_append, runs other resembles]
    exact (foldlM_one (base.awaiting pending) _).trans followed
  rcases kind with ⟨test, byte⟩ | ⟨atom, rfl, simple⟩
  · exact ⟨_, groups, closed, counters, .inl ⟨test, rfl⟩, taken (.byte byte)⟩
  · cases atom with
    | single test =>
        exact ⟨_, groups, closed, counters, .inl ⟨test, rfl⟩, taken (.byte (.single test))⟩
    | compound expr =>
        exact ⟨_, groups, closed, counters, .inr ⟨expr, rfl, fun one => simple one expr rfl⟩,
          taken (.compound expr)⟩
    | fixed expr =>
        rw [foldlM_one] at followed
        cases followed

/-- Where a byte does not continue a literal, a token that begins an operand settles first what is
pending. -/
theorem step_eq_settle {operand : List Token} (repeatable : Operand operand) {token : Token}
    (first : token ∈ operand.head?) (state : ParseState)
    (literal : ∀ byte, token = .literal byte → ∀ last earlier,
      state.frame.pending ≠ .literals last earlier) :
    state.step token = state.settle.bind (·.step token) := by
  have added (atom : Flags → Atom) : state.addAtom (atom state.frame.flags) =
      state.settle.bind fun settled => settled.addAtom (atom settled.frame.flags) := by
    cases done : state.settle with
    | error error => simp only [addAtom, done, Except.map, Except.bind]
    | ok settled =>
        have again := settle_of_nothing (settle_pending done)
        simp only [addAtom, done, again, Except.map, Except.bind, flags_of_settle done]
  cases repeatable with
  | byte one =>
      cases first
      cases token with
      | literal byte =>
          have alone : ∀ state : ParseState,
              (∀ last earlier, state.frame.pending ≠ .literals last earlier) →
              state.step (.literal byte) =
                state.settle.map fun settled => settled.awaiting (.literals byte []) := by
            intro state apart
            simp only [step, addLiteral]
            cases waits : state.frame.pending with
            | literals last earlier => exact absurd waits (apart last earlier)
            | nothing | atom | repeatedTest | repeatedExpr => rfl
          rw [alone state (literal byte rfl)]
          cases done : state.settle with
          | error error => rfl
          | ok settled =>
              have nothing : settled.frame.pending = .nothing := settle_pending done
              have again : settled.step (.literal byte) = _ :=
                alone settled fun _ _ same => by cases nothing.symm.trans same
              rw [settle_of_nothing nothing] at again
              exact again.symm
      | dot => exact added fun flags => .single (if flags.newline then .anyButNewline else .any)
      | bracket bracket => exact added fun flags => .single (.set (bracket.toByteSet flags))
      | inClass kind => exact added fun _ => .single (.inClass kind)
      | notInClass kind => exact added fun _ => .single (.notInClass kind)
      | caret | dollar | assertion | backReference | opening | closing | bar | quantifier
      | malformed => cases one
  | backReference group =>
      cases first
      simp only [step, addBackReference]
      cases done : state.settle with
      | error error => rfl
      | ok settled => simp only [Except.bind, settle_of_nothing (settle_pending done)]
  | group opening _ =>
      cases first
      exact openGroup_eq_settle state _

/-- A quantified operand settles first what is pending, even if its first byte would continue a
literal. -/
theorem foldlM_quantified {operand : List Token} (repeatable : Operand operand)
    (quantifier : Quantifier) :
    (quantified operand quantifier).foldlM step state =
      state.settle.bind fun settled => (quantified operand quantifier).foldlM step settled := by
  obtain ⟨token, later, shape⟩ : ∃ token later, operand = token :: later := by
    cases repeatable <;> exact ⟨_, _, rfl⟩
  by_cases continues : ∃ byte last earlier, token = .literal byte ∧
      state.frame.pending = .literals last earlier
  · obtain ⟨byte, last, earlier, rfl, waits⟩ := continues
    obtain rfl : later = [] := by
      cases repeatable with
      | byte | backReference => exact (List.cons.inj shape).2.symm
      | group => cases shape
    subst shape
    have steps : state.step (.literal byte) =
        .ok (state.awaiting (.literals byte (last :: earlier))) := by
      simp only [step, addLiteral, waits]
      rfl
    simp only [quantified, List.cons_append, List.nil_append, List.foldlM_cons, steps, settle, waits]
    cases earlier <;> rfl
  · have settles : state.step token = state.settle.bind (·.step token) := by
      refine step_eq_settle repeatable (by rw [shape]; rfl) state
        fun byte same last earlier waits => ?_
      exact continues ⟨byte, last, earlier, same, waits⟩
    simp only [quantified, shape, List.cons_append, List.foldlM_cons, settles]
    cases state.settle <;> rfl

/-! ## Groups of one piece -/

/-- A group of one branch with one piece. -/
theorem closeGroup_of_piece {enclosure : Enclosure} {flags : Flags}
    {piece : Expr} {parent : Frame} {outer : List Frame} {groups : Nat} {closed : List Nat}
    {counters : Nat}
    (done : state.settle = .ok
      ⟨(Frame.start enclosure flags).addPiece piece, parent :: outer, groups, closed, counters⟩)
    (plain : ∀ group, enclosure ≠ .capture group) :
    state.closeGroup =
      (Frame.atom (.start enclosure flags) (.sequence piece .empty)).map fun atom =>
        ⟨parent.await (.atom atom), outer, groups, closed, counters⟩ := by
  have finishes : (⟨(Frame.start enclosure flags).addPiece piece, parent :: outer, groups, closed,
        counters⟩ : ParseState).finishGroup (.sequence piece .empty) =
      (Frame.atom (.start enclosure flags) (.sequence piece .empty)).map fun atom =>
        (atom, ⟨(Frame.start enclosure flags).addPiece piece, parent :: outer, groups, closed,
          counters⟩) := by
    cases enclosure with
    | capture group => exact absurd rfl (plain group)
    | bare | atomic | look => rfl
  show state.settle.bind _ = _
  rw [done]
  show (finishGroup _ (.sequence piece .empty)).bind _ = _
  rw [finishes]
  generalize Frame.atom _ _ = made
  cases made <;> rfl

end ParseState

end ByteRegex
