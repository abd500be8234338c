import ByteRegex.Proofs.Assembly.Refusal
import ByteRegex.Proofs.Grammar.Outline
import ByteRegex.Proofs.Syntax.Erasure

/-!
# Refinement

The parser does what its outline does, step by step. Where the two differ, the parser has met a
limit.
-/

namespace ByteRegex

open Grammar

/-- A result that is the expected one in view, or a refusal. A refusal that is not expected comes
from a limit. -/
structure Follows {α β : Type} (view : α → β) (result : Except CompileError α)
    (expected : Option β) : Prop where
  accepted : ∀ value, result = .ok value → expected = some (view value)
  refused : ∀ error, result = .error error → error = .tooComplex ∨ expected = none

namespace Follows

variable {α β γ δ : Type} {view : α → β} {later : γ → δ}

theorem ok {value : α} {expected : Option β} (same : expected = some (view value)) :
    Follows view (.ok value) expected := by
  refine ⟨fun other found => ?_, nofun⟩
  cases found
  exact same

theorem error (error : CompileError) : Follows view (.error error) none :=
  ⟨nofun, fun _ _ => .inr rfl⟩

theorem tooComplex {expected : Option β} : Follows view (.error .tooComplex) expected := by
  refine ⟨fun value accepted => ?_, fun error failed => .inl (LimitedOnly.tooComplex error failed)⟩
  cases accepted

theorem limit {result : Except CompileError α} {expected : Option β} (limited : LimitedOnly result)
    (accepted : ∀ value, result = .ok value → expected = some (view value)) :
    Follows view result expected :=
  ⟨accepted, fun error failed => .inl (limited error failed)⟩

/-- What is made once the code of an expression is known not to be too long. -/
theorem sized (expr : Expr) {made : α} {expected : Option β} (same : expected = some (view made)) :
    Follows view (expr.codeSize.map fun _ => made) expected := by
  refine .limit (expr.codeSize_limited.map _) fun value measured => ?_
  obtain ⟨size, _, rfl⟩ := exists_of_map measured
  exact same

/-- What is refused in any case. -/
theorem refuse {result : Except CompileError α} {expected : Option β}
    (follows : Follows view result expected) {rest : α → Except CompileError γ}
    (next : ∀ value, Follows later (rest value) none) : Follows later (result.bind rest) none := by
  cases result with
  | ok value => exact next value
  | error error => exact .error error

theorem bind {result : Except CompileError α} {expected : Option β}
    (follows : Follows view result expected)
    {rest : α → Except CompileError γ} {continued : β → Option δ}
    (next : ∀ value, result = .ok value → Follows later (rest value) (continued (view value))) :
    Follows later (result.bind rest) (expected.bind continued) := by
  cases result with
  | ok value =>
      rw [follows.accepted value rfl]
      exact next value rfl
  | error error =>
      refine ⟨nofun, fun other failed => ?_⟩
      cases failed
      refine (follows.refused error rfl).imp_right fun none => ?_
      rw [none]
      rfl

theorem map_eq_bind (result : Except CompileError α) (change : α → γ) :
    result.map change = result.bind fun value => .ok (change value) := by
  cases result <;> rfl

theorem map {result : Except CompileError α} {expected : Option β}
    (follows : Follows view result expected) {change : α → γ} {changed : β → δ}
    (next : ∀ value, result = .ok value → later (change value) = changed (view value)) :
    Follows later (result.map change) (expected.map changed) := by
  rw [map_eq_bind, Option.map_eq_bind]
  exact follows.bind fun value found => .ok (congrArg some (next value found).symm)

theorem change {result : Except CompileError α} {expected : Option β}
    (follows : Follows view result expected) {change : α → γ} {other : γ → β}
    (same : ∀ value, other (change value) = view value) :
    Follows other (result.map change) expected := by
  have mapped : Follows other (result.map change) (expected.map id) :=
    follows.map fun value _ => same value
  rwa [Option.map_id, id] at mapped

end Follows

/-! ## Outlines of states -/

/-- The width of an atom, and whether a quantifier can follow it. -/
def Atom.outline : Atom → Width × Bool
  | .single _ => (.exactly 1, true)
  | .compound expr => (expr.width, true)
  | .fixed expr => (expr.width, false)

namespace Pending

/-- A quantifier takes the last byte of a literal only. -/
def last : Pending → Option (Width × Bool)
  | .nothing => none
  | .literals _ _ => some (.exactly 1, true)
  | .atom waiting => some waiting.outline
  | .repeatedTest _ quantifier =>
      some ((Width.exactly 1).repeated quantifier.least quantifier.most, false)
  | .repeatedExpr expr quantifier =>
      some (expr.width.repeated quantifier.least quantifier.most, false)

/-- How many bytes of a literal stand in front of its last one. -/
def ahead : Pending → Nat
  | .literals _ earlier => earlier.length
  | _ => 0

end Pending

namespace Frame

/-- The width of the finished pieces. -/
def settledWidth (frame : Frame) : Width := (Expr.sequenceOfReversed frame.pieces).width

def layer (frame : Frame) : Layer where
  capturing := frame.flags.capturing
  enclosure := frame.enclosure
  earlier := Expr.alternativesWidth frame.branches
  base := frame.settledWidth.followedBy (.exactly frame.pending.ahead)
  last := frame.pending.last
  filled := !frame.pieces.isEmpty || frame.pending.last.isSome

variable (frame : Frame)

theorem followedBy_settledWidth_empty :
    frame.settledWidth.followedBy (.exactly 0) = frame.settledWidth :=
  (Expr.width_proper _).followedBy_empty

theorem layer_start (enclosure : Enclosure) (flags : Flags) :
    (start enclosure flags).layer = .start flags.capturing enclosure none := by
  have nothing := (start enclosure flags).followedBy_settledWidth_empty
  simp only [layer, start, Pending.ahead] at nothing ⊢
  rw [nothing]
  rfl

/-- A piece settles what it is made of. -/
theorem layer_addPiece {piece : Expr} (waits : frame.pending.last.isSome = true)
    (same : frame.settledWidth.followedBy piece.width = frame.layer.width) :
    (frame.addPiece piece).layer = frame.layer.settle := by
  have base : (frame.addPiece piece).layer.base = frame.layer.width := by
    refine Eq.trans ?_ ((Expr.width_sequenceOfReversed_cons piece frame.pieces).trans same)
    exact (frame.addPiece piece).followedBy_settledWidth_empty
  refine Layer.ext rfl rfl rfl base rfl ?_
  show true = (!frame.pieces.isEmpty || frame.pending.last.isSome)
  rw [waits, Bool.or_true]

/-- What comes to wait behind a settled frame. -/
theorem layer_await {pending : Pending} {width : Width} {repeatable : Bool}
    (settled : frame.pending = .nothing) (ahead : pending.ahead = 0)
    (waits : pending.last = some (width, repeatable)) :
    (frame.await pending).layer = frame.layer.add width repeatable := by
  refine Layer.ext rfl rfl rfl ?_ waits ?_
  · show frame.settledWidth.followedBy (.exactly pending.ahead) = frame.layer.width
    rw [ahead]
    simp only [Layer.width, layer, settled, Pending.last, Pending.ahead]
  · show (!frame.pieces.isEmpty || pending.last.isSome) = true
    rw [waits]
    exact Bool.or_true _

theorem settledWidth_addLiterals (bytes : List UInt8) :
    (frame.addLiterals bytes).settledWidth =
      frame.settledWidth.followedBy (.exactly bytes.length) := by
  have proper : frame.settledWidth.Proper := Expr.width_proper _
  unfold addLiterals
  split
  · exact proper.followedBy_empty.symm
  · exact Expr.width_sequenceOfReversed_cons _ _
  · have whole : (Expr.literal frame.flags.caseless bytes.reverse).width =
        (Width.exactly 0).followedBy (.exactly bytes.length) := by
      rw [← List.length_reverse]
      rfl
    refine (Expr.width_sequenceOfReversed_cons _ _).trans ?_
    rw [whole, ← Width.followedBy_assoc]
    exact congrArg (Width.followedBy · _) proper.followedBy_empty

theorem layer_width {width : Width} {repeatable : Bool} (ahead : frame.pending.ahead = 0)
    (waits : frame.pending.last = some (width, repeatable)) :
    frame.layer.width = frame.settledWidth.followedBy width := by
  simp only [Layer.width, layer, waits, ahead, followedBy_settledWidth_empty]

theorem layer_addLiterals {last : UInt8} {earlier : List UInt8}
    (waits : frame.pending = .literals last earlier) :
    (frame.addLiterals (last :: earlier)).layer = frame.layer.settle := by
  have one : ∃ piece, frame.addLiterals (last :: earlier) = frame.addPiece piece := by
    cases earlier <;> exact ⟨_, rfl⟩
  obtain ⟨piece, added⟩ := one
  have grown := frame.settledWidth_addLiterals (last :: earlier)
  rw [added, settledWidth, addPiece, Expr.width_sequenceOfReversed_cons] at grown
  rw [added]
  refine frame.layer_addPiece (by rw [waits]; rfl) (grown.trans ?_)
  rw [List.length_cons, ← Width.followedBy_exactly_succ]
  simp only [Layer.width, layer, waits, Pending.last, Pending.ahead]

theorem addLiterals_kept (bytes : List UInt8) :
    (frame.addLiterals bytes).flags = frame.flags ∧
      (frame.addLiterals bytes).enclosure = frame.enclosure ∧
      (frame.addLiterals bytes).branches = frame.branches := by
  unfold addLiterals
  split <;> exact ⟨rfl, rfl, rfl⟩

theorem repeatLast_of_closed {pending : Pending} (waits : frame.pending = pending)
    (closed : ∀ width, pending.last ≠ some (width, true)) (quantifier : Quantifier) :
    frame.layer.repeatLast quantifier = none := by
  subst waits
  unfold Layer.repeatLast
  split
  · rename_i width last
    exact absurd last (closed width)
  · rfl

/-- A quantifier leaves all but the last byte or group as it is. -/
theorem repeatLast_of_open {next : Frame} {pending : Pending} {width : Width}
    {quantifier : Quantifier} (waits : frame.pending = pending)
    (last : pending.last = some (width, true))
    (kept : next.flags = frame.flags ∧ next.enclosure = frame.enclosure ∧
      next.branches = frame.branches)
    (base : next.layer.base = frame.layer.base)
    (repeated : next.pending.last =
      some (width.repeated quantifier.least quantifier.most, false)) :
    frame.layer.repeatLast quantifier = some next.layer := by
  subst waits
  have last : frame.layer.last = some (width, true) := last
  have repeated : next.layer.last =
      some (width.repeated quantifier.least quantifier.most, false) := repeated
  unfold Layer.repeatLast
  rw [last]
  refine congrArg some (Layer.ext ?_ kept.2.1.symm ?_ base.symm repeated.symm ?_)
  · exact congrArg Flags.capturing kept.1.symm
  · exact congrArg Expr.alternativesWidth kept.2.2.symm
  · show (!frame.pieces.isEmpty || frame.layer.last.isSome) =
      (!next.pieces.isEmpty || next.layer.last.isSome)
    rw [last, repeated, Option.isSome_some, Option.isSome_some, Bool.or_true, Bool.or_true]

end Frame

namespace ParseState

def outline (state : ParseState) : Outline where
  layer := state.frame.layer
  outer := state.outer.map fun frame => (frame.await .nothing).layer
  scope := ⟨state.groups, state.closed⟩

/-- The outline with the last piece of its branch settled. -/
def settledOutline (state : ParseState) : Outline :=
  { state.outline with layer := state.outline.layer.settle }

variable {state next : ParseState}

theorem outline_initial (flags : Flags) :
    (initial flags).outline = Outline.initial flags.capturing := by
  simp only [outline, initial, Frame.layer_start]
  rfl

theorem outline_outer (state : ParseState) {frames : List Frame} (outer : state.outer = frames) :
    state.outline.outer = frames.map fun frame => (frame.await .nothing).layer := by
  rw [← outer]
  rfl

/-- A piece of the expected width settles what was pending. -/
theorem outline_withPiece {pending : Pending} {width : Width} {repeatable : Bool} {piece : Expr}
    (waits : state.frame.pending = pending) (ahead : pending.ahead = 0)
    (last : pending.last = some (width, repeatable)) (same : piece.width = width) :
    (state.withFrame (state.frame.addPiece piece)).outline = state.settledOutline := by
  subst waits
  have settled : (state.frame.addPiece piece).layer = state.frame.layer.settle := by
    refine state.frame.layer_addPiece (by rw [last]; rfl) ?_
    rw [state.frame.layer_width ahead last, same]
  simp only [settledOutline, outline, withFrame, settled]

theorem outline_of_nothing (state : ParseState) (waits : state.frame.pending = .nothing) :
    state.outline = state.settledOutline := by
  have settled : state.frame.layer.settle = state.frame.layer := by
    simp only [Layer.settle, Layer.width, Frame.layer, waits, Pending.last]
  simp only [settledOutline, outline, settled]

theorem repeated_of_isOnce {quantifier : Quantifier} (once : quantifier.isOnce = true)
    (body : Expr) : body.width.repeated quantifier.least quantifier.most = body.width := by
  simp only [Quantifier.isOnce, Bool.and_eq_true, decide_eq_true_eq] at once
  rw [once.1, once.2, body.width_proper.repeated_once]

theorem addLoop_follows {body : Expr} {quantifier : Quantifier}
    (waits : state.frame.pending = .repeatedExpr body quantifier) :
    Follows outline (state.addLoop body quantifier) (some state.settledOutline) := by
  unfold addLoop
  dsimp only
  split
  · exact .tooComplex
  · generalize whole_eq : ite (quantifier.greed = Greed.possessive) _ _ = whole
    have width : whole.width = body.width.repeated quantifier.least quantifier.most := by
      subst whole_eq
      split
      · exact (Expr.width_atomic _).trans (Expr.width_loop ..)
      · exact Expr.width_loop ..
    have settled := outline_withPiece waits rfl rfl width
    exact .sized whole (congrArg some settled.symm)

theorem settle_follows (state : ParseState) :
    Follows outline state.settle (some state.settledOutline) := by
  unfold settle
  split
  · rename_i waits
    exact .ok (congrArg some (state.outline_of_nothing waits).symm)
  · rename_i last earlier waits
    refine .ok (congrArg some ?_)
    simp only [settledOutline, outline, withFrame, state.frame.layer_addLiterals waits]
  · rename_i test waits
    exact .ok (congrArg some (outline_withPiece waits rfl rfl (Expr.width_test test)).symm)
  · rename_i expr waits
    exact .ok (congrArg some (outline_withPiece waits rfl rfl rfl).symm)
  · rename_i expr waits
    exact .ok (congrArg some (outline_withPiece waits rfl rfl rfl).symm)
  · rename_i test quantifier waits
    refine .ok (congrArg some (outline_withPiece waits rfl rfl ?_).symm)
    split
    · rename_i once
      exact (repeated_of_isOnce once (.test test)).symm
    · exact Expr.width_repetition quantifier test
  · rename_i expr quantifier waits
    split
    · rename_i once
      have settled := outline_withPiece waits rfl rfl (repeated_of_isOnce once expr).symm
      exact .ok (congrArg some settled.symm)
    · exact addLoop_follows waits

/-- Settling leaves nothing pending. -/
theorem settle_pending (settled : state.settle = .ok next) : next.frame.pending = .nothing := by
  unfold settle at settled
  split at settled
  · rename_i waits
    cases settled
    exact waits
  · cases settled
    exact (Frame.addLiterals_settles _).2
  · cases settled
    rfl
  · cases settled
    rfl
  · cases settled
    rfl
  · cases settled
    rfl
  · split at settled
    · cases settled
      rfl
    · unfold addLoop at settled
      dsimp only at settled
      split at settled
      · cases settled
      · obtain ⟨size, measured, rfl⟩ := exists_of_map settled
        rfl

/-- The outline of a settled state behind which something comes to wait. -/
theorem outline_await (pending : Pending) {width : Width} {repeatable : Bool}
    (settled : state.frame.pending = .nothing) (ahead : pending.ahead = 0)
    (waits : pending.last = some (width, repeatable)) :
    (state.withFrame (state.frame.await pending)).outline = state.outline.add width repeatable := by
  simp only [outline, withFrame, Outline.add, state.frame.layer_await settled ahead waits]

/-- What comes after settling only has to be known of states with nothing pending. -/
theorem follows_of_settle {γ δ : Type} {view : γ → δ} {rest : ParseState → Except CompileError γ}
    {expected : Option δ}
    (later : ∀ settled : ParseState, settled.frame.pending = .nothing →
      settled.outline = state.settledOutline → Follows view (rest settled) expected) :
    Follows view (state.settle.bind rest) expected := by
  show Follows view _ ((some state.settledOutline).bind fun _ => expected)
  refine state.settle_follows.bind fun settled found => ?_
  refine later settled (settle_pending found) ?_
  exact (Option.some.inj (state.settle_follows.accepted settled found)).symm

theorem follows_of_settle_map {γ δ : Type} {view : γ → δ} {change : ParseState → γ} {expected : δ}
    (later : ∀ settled : ParseState, settled.frame.pending = .nothing →
      settled.outline = state.settledOutline → view (change settled) = expected) :
    Follows view (state.settle.map change) (some expected) := by
  rw [Follows.map_eq_bind]
  exact follows_of_settle fun settled nothing same =>
    .ok (congrArg some (later settled nothing same).symm)

theorem addAtom_follows (state : ParseState) (atom : Atom) :
    Follows outline (state.addAtom atom)
      (some (state.outline.add atom.outline.1 atom.outline.2)) := by
  refine follows_of_settle_map fun settled nothing same => ?_
  rw [outline_await (.atom atom) nothing rfl rfl, same]
  rfl

theorem addLiteral_follows (state : ParseState) (byte : UInt8) :
    Follows outline (state.addLiteral byte) (some (state.outline.add (.exactly 1) true)) := by
  unfold addLiteral
  split
  · rename_i last earlier waits
    refine .ok (congrArg some ?_)
    have base : (state.frame.await (.literals byte (last :: earlier))).layer.base =
        state.frame.layer.width := by
      simp only [Layer.width, Frame.layer, waits, Pending.last, Pending.ahead]
      exact (Width.followedBy_exactly_succ _ _).symm
    have filled : (!state.frame.pieces.isEmpty || true) = true := Bool.or_true _
    have grown : (state.frame.await (.literals byte (last :: earlier))).layer =
        state.frame.layer.add (.exactly 1) true := Layer.ext rfl rfl rfl base rfl filled
    simp only [outline, Outline.add, withFrame, grown]
  · refine follows_of_settle_map fun settled nothing same => ?_
    rw [outline_await (.literals byte []) nothing rfl rfl, same]
    rfl

theorem addQuantifier_follows (state : ParseState) (quantifier : Quantifier) :
    Follows outline (state.addQuantifier (.ok quantifier))
      ((state.outline.layer.repeatLast quantifier).map fun layer =>
        { state.outline with layer }) := by
  have refused {pending : Pending} (waits : state.frame.pending = pending)
      (closed : ∀ width, pending.last ≠ some (width, true)) (error : CompileError) :
      Follows outline (.error error) ((state.outline.layer.repeatLast quantifier).map fun layer =>
        { state.outline with layer }) := by
    have none := state.frame.repeatLast_of_closed waits closed quantifier
    simp only [outline, none]
    exact .error error
  have accepted {next : Frame}
      (repeated : state.frame.layer.repeatLast quantifier = some next.layer) :
      Follows outline (.ok (state.withFrame next))
        ((state.outline.layer.repeatLast quantifier).map fun layer =>
          { state.outline with layer }) := by
    refine .ok ?_
    simp only [outline, withFrame, repeated]
    rfl
  unfold addQuantifier
  split
  · rename_i waits
    exact refused waits (fun _ same => by cases same) _
  · rename_i waits
    exact refused waits (fun _ same => by cases same) _
  · rename_i waits
    exact refused waits (fun _ same => by cases same) _
  · rename_i last earlier waits
    refine accepted (state.frame.repeatLast_of_open waits rfl ?_ ?_ rfl)
    · exact state.frame.addLiterals_kept earlier
    · have ahead := state.frame.settledWidth_addLiterals earlier
      have nothing := (state.frame.addLiterals earlier).followedBy_settledWidth_empty
      simp only [Frame.layer, waits]
      exact nothing.trans ahead
  · rename_i test waits
    refine accepted (state.frame.repeatLast_of_open waits rfl ⟨rfl, rfl, rfl⟩ ?_ rfl)
    simp only [Frame.layer, waits]
    rfl
  · rename_i expr waits
    refine accepted (state.frame.repeatLast_of_open waits rfl ⟨rfl, rfl, rfl⟩ ?_ rfl)
    simp only [Frame.layer, waits]
    rfl
  · rename_i waits
    exact refused waits (fun _ same => by cases same) _

theorem addBackReference_follows (state : ParseState) (group : Nat) :
    Follows outline (state.addBackReference group)
      (state.outline.step (.backReference group)) := by
  refine follows_of_settle fun settled nothing same => ?_
  have captures : settled.frame.flags.capturing = state.outline.layer.capturing :=
    congrArg (fun outline : Outline => outline.layer.capturing) same
  have closed : settled.closed = state.outline.scope.closed :=
    congrArg (fun outline : Outline => outline.scope.closed) same
  simp only [captures, closed, Outline.step]
  split
  · refine .ok (congrArg some ?_)
    rw [outline_await (.atom (.compound _)) nothing rfl rfl, same]
    rfl
  · exact .error _

/-- The outline of a state in which a group has just been opened. -/
theorem outline_enter {settled : ParseState} (nothing : settled.frame.pending = .nothing)
    (same : settled.outline = state.settledOutline) (enclosure : Enclosure) {flags : Flags}
    (captures : flags.capturing = settled.frame.flags.capturing) (groups : Nat) :
    outline { settled.enter enclosure flags with groups } =
      ⟨.start state.outline.layer.capturing enclosure none,
        state.outline.layer.settle :: state.outline.outer,
        ⟨groups, state.outline.scope.closed⟩⟩ := by
  have inner : (Frame.start enclosure flags).layer =
      .start state.outline.layer.capturing enclosure none := by
    rw [Frame.layer_start, captures]
    exact congrArg
      (fun outline : Outline => Layer.start outline.layer.capturing enclosure none) same
  have parent : (settled.frame.await .nothing).layer = state.outline.layer.settle := by
    have whole : settled.frame.await .nothing = settled.frame := by
      rw [← nothing]
      rfl
    rw [whole]
    exact congrArg Outline.layer same
  have outer : settled.outer.map (fun frame => (frame.await .nothing).layer) =
      state.outline.outer :=
    congrArg Outline.outer same
  have closed : settled.closed = state.outline.scope.closed :=
    congrArg (fun outline : Outline => outline.scope.closed) same
  simp only [outline, enter, List.map_cons, inner, parent, outer, closed]

theorem openGroup_follows (state : ParseState) {read : Except CompileError Opening}
    (keeps : Opening.KeepsCapturing read) :
    Follows outline (state.openGroup read) (state.outline.step (.opening read)) := by
  refine follows_of_settle fun settled nothing same => ?_
  have captures : settled.frame.flags.capturing = state.outline.layer.capturing :=
    congrArg (fun outline : Outline => outline.layer.capturing) same
  have groups : settled.groups = state.outline.scope.groups :=
    congrArg (fun outline : Outline => outline.scope.groups) same
  dsimp only
  split
  · exact .tooComplex
  cases read with
  | error error => exact .error error
  | ok opening =>
      have entered (enclosure : Enclosure) {flags : Flags}
          (kept : flags.capturing = settled.frame.flags.capturing)
          (around : enclosureOf state.outline.layer.capturing state.outline.scope opening =
            enclosure) (groups : Nat)
          (opened : state.outline.scope.enter enclosure =
            ⟨groups, state.outline.scope.closed⟩) :
          Follows outline (.ok { settled.enter enclosure flags with groups })
            (some (state.outline.enter opening)) := by
        refine .ok (congrArg some ?_)
        rw [outline_enter nothing same enclosure kept groups, Outline.enter, around, opened]
      cases opening with
      | plain =>
          show Follows outline (if settled.frame.flags.capturing = true then _ else _) _
          split
          · rename_i on
            show Follows outline (if Capacity.slots ≤ settled.groups + 1 then _ else _) _
            split
            · exact .tooComplex
            · refine entered (.capture (settled.groups + 1)) rfl ?_ (settled.groups + 1) rfl
              rw [enclosureOf, ← captures, ← groups, if_pos on]
          · rename_i off
            refine entered .bare rfl ?_ settled.groups (by rw [groups]; rfl)
            rw [enclosureOf, ← captures, if_neg off]
      | enclosing => exact entered .bare rfl rfl settled.groups (by rw [groups]; rfl)
      | atomic => exact entered .atomic rfl rfl settled.groups (by rw [groups]; rfl)
      | look direction =>
          exact entered (.look direction) rfl rfl settled.groups (by rw [groups]; rfl)
      | inline enable changed =>
          have kept := keeps enable changed rfl
          refine entered .bare ?_ rfl settled.groups (by rw [groups]; rfl)
          cases enable with
          | true => exact (congrArg (_ || ·) kept).trans (Bool.or_false _)
          | false => exact (congrArg (_ && !·) kept).trans (Bool.and_true _)

end ParseState

/-! ## Groups and branches -/

namespace Frame

variable {frame : Frame}

theorem layer_width_of_settled (settled : frame.pending = .nothing) :
    frame.layer.width = frame.settledWidth := by
  simp only [Layer.width, layer, settled, Pending.last, Pending.ahead,
    followedBy_settledWidth_empty]

theorem layer_filled_of_settled (settled : frame.pending = .nothing) :
    frame.layer.filled = !frame.pieces.isEmpty := by
  simp only [layer, settled, Pending.last, Option.isSome_none, Bool.or_false]

theorem expression_follows (settled : frame.pending = .nothing) :
    Follows Expr.width frame.expression frame.layer.whole := by
  have earlier : frame.layer.earlier = Expr.alternativesWidth frame.branches := rfl
  unfold expression Layer.whole
  rw [layer_width_of_settled settled, layer_filled_of_settled settled, earlier]
  dsimp only
  cases branches : frame.branches with
  | nil => exact .ok rfl
  | cons branch former =>
      rw [List.isEmpty_cons, if_neg Bool.false_ne_true, Expr.alternativesWidth, Option.isSome_some]
      cases frame.pieces.isEmpty with
      | true => exact .error _
      | false =>
          refine .sized _ ?_
          rw [Expr.width_alternationOfReversed]
          rfl

theorem lookWidth_follows (direction : Look) (body : Expr) :
    Follows (fun _ => ()) (lookWidth direction body)
      (if direction.isBehind && body.width.fixed?.isNone then none else some ()) := by
  unfold lookWidth
  split
  · rename_i behind
    split
    · rename_i unfixed
      simp only [behind, unfixed]
      exact .error _
    · rename_i width fixed
      simp only [fixed, Option.isNone_some, Bool.and_false]
      split
      · exact .ok rfl
      · exact .tooComplex
  · rename_i ahead
    simp only [Bool.not_eq_true] at ahead
    simp only [ahead, Bool.false_and]
    exact .ok rfl

theorem atom_follows (frame : Frame) (body : Expr) :
    Follows Atom.outline (frame.atom body) (groupAtom? body.width frame.enclosure) := by
  unfold atom
  split
  · rename_i bare
    rw [bare]
    exact .ok rfl
  · rename_i group captures
    rw [captures]
    exact .ok rfl
  · rename_i atomic
    rw [atomic]
    exact .sized _ rfl
  · rename_i direction look
    rw [look]
    have looks := lookWidth_follows direction body
    have expected : groupAtom? body.width (.look direction) =
        if direction.isBehind && body.width.fixed?.isNone then none
        else some (.exactly 0, false) := rfl
    rw [expected]
    cases measured : lookWidth direction body with
    | error error =>
        refine ⟨fun atom made => (by cases made), fun other failed => ?_⟩
        cases failed
        refine (looks.refused error measured).imp_right fun none => ?_
        split at none
        · rename_i unfixed
          rw [if_pos unfixed]
        · cases none
    | ok width =>
        have some := looks.accepted width measured
        split at some
        · cases some
        · rename_i fixed
          rw [if_neg fixed]
          exact .sized _ rfl

theorem closeBranch_follows (settled : frame.pending = .nothing) :
    Follows layer frame.closeBranch frame.layer.bar := by
  unfold closeBranch Layer.bar
  rw [layer_filled_of_settled settled, layer_width_of_settled settled]
  cases frame.pieces.isEmpty with
  | true => exact .error _
  | false =>
      refine .limit ?_ fun next closed => ?_
      · have ended := ((Expr.sequenceOfReversed frame.pieces).emit_limited Measure.zero).bind
          fun sink => endBranch_limited 0 sink
        intro error failed
        dsimp only at failed
        rw [if_neg Bool.false_ne_true] at failed
        split at failed
        · rename_i found
          cases failed
          exact ended error found
        · cases failed
      · dsimp only at closed
        rw [if_neg Bool.false_ne_true] at closed
        split at closed
        · cases closed
        · cases closed
          refine congrArg some (Layer.ext rfl rfl rfl ?_ ?_ ?_)
          · rw [layer, settled]
            exact (Width.proper_exactly (Nat.zero_le _)).followedBy_empty.symm
          · rw [layer, settled]
            rfl
          · rw [layer, settled]
            rfl

end Frame

namespace ParseState

variable {state next : ParseState}

theorem closeBranch_follows (state : ParseState) :
    Follows outline state.closeBranch (state.outline.step .bar) := by
  refine follows_of_settle fun settled nothing same => ?_
  have layer : settled.frame.layer = state.outline.layer.settle := congrArg Outline.layer same
  have barred : state.outline.layer.settle.bar = state.outline.layer.bar := rfl
  have closed := Frame.closeBranch_follows nothing
  rw [layer, barred] at closed
  refine closed.map fun frame _ => ?_
  have outer : settled.outline.outer = state.settledOutline.outer := congrArg Outline.outer same
  have scope : settled.outline.scope = state.settledOutline.scope := congrArg Outline.scope same
  exact congr (congrArg (Outline.mk frame.layer) outer) scope

theorem finishGroup_follows (state : ParseState) (body : Expr) :
    Follows (fun made : Atom × ParseState => made.1.outline) (state.finishGroup body)
      (groupAtom? body.width state.outline.layer.enclosure) := by
  refine (state.frame.atom_follows body).change fun atom => ?_
  cases state.frame.enclosure <;> rfl

/-- Behind a group that captures, its number is closed. -/
theorem scope_of_finishGroup {body : Expr} {atom : Atom}
    (finished : state.finishGroup body = .ok (atom, next)) :
    next.outline.scope = state.outline.scope.leave state.outline.layer.enclosure := by
  obtain ⟨made, _, same⟩ := exists_of_map finished
  have around : state.outline.layer.enclosure = state.frame.enclosure := rfl
  rw [around]
  cases enclosed : state.frame.enclosure <;> rw [enclosed] at same <;> cases same <;> rfl

theorem closeGroup_follows (state : ParseState) :
    Follows outline state.closeGroup (state.outline.step .closing) := by
  refine follows_of_settle fun settled nothing same => ?_
  have leaves : state.outline.step .closing = settled.outline.leave := by
    rw [same]
    rfl
  rw [leaves]
  have read := Frame.expression_follows nothing
  unfold Outline.leave
  cases outer : settled.outer with
  | nil =>
      rw [settled.outline_outer outer, List.map_nil]
      exact read.refuse fun body => .error _
  | cons parent rest =>
      rw [settled.outline_outer outer, List.map_cons]
      refine read.bind fun body _ => ?_
      rw [Option.map_eq_bind]
      refine (settled.finishGroup_follows body).bind fun made finished => .ok ?_
      have scope := scope_of_finishGroup finished
      have layer : (parent.await (.atom made.1)).layer =
          (parent.await .nothing).layer.add made.1.outline.1 made.1.outline.2 :=
        (parent.await .nothing).layer_await rfl rfl rfl
      refine congrArg some ?_
      show Outline.mk _ _ _ = Outline.mk (parent.await (.atom made.1)).layer _ made.2.outline.scope
      rw [scope, layer]
      rfl

/-- Nothing malformed is accepted, whatever it is met with. -/
theorem addQuantifier_error (state : ParseState) (error : CompileError) :
    Follows outline (state.addQuantifier (.error error)) none := by
  unfold addQuantifier
  split <;> exact .error _

theorem step_follows (state : ParseState) {token : Token} (keeps : token.KeepsCapturing) :
    Follows outline (state.step token) (state.outline.step token) := by
  cases token with
  | literal byte => exact state.addLiteral_follows byte
  | dot | bracket | inClass | notInClass => exact state.addAtom_follows (.single _)
  | caret | dollar | assertion => exact state.addAtom_follows (.fixed (.assertion _))
  | backReference group => exact state.addBackReference_follows group
  | opening read => exact state.openGroup_follows keeps
  | closing => exact state.closeGroup_follows
  | bar => exact state.closeBranch_follows
  | quantifier read =>
      cases read with
      | ok quantifier => exact state.addQuantifier_follows quantifier
      | error error => exact state.addQuantifier_error error
  | malformed error => exact follows_of_settle fun _ _ _ => .error error

theorem foldlM_follows (state : ParseState) {remaining : List Token}
    (keeps : ∀ token ∈ remaining, token.KeepsCapturing) :
    Follows outline (remaining.foldlM step state) (state.outline.run remaining) := by
  induction remaining generalizing state with
  | nil => exact .ok rfl
  | cons token rest ih =>
      obtain ⟨first, later⟩ := List.forall_mem_cons.mp keeps
      rw [List.foldlM_cons, Outline.run_cons]
      exact (state.step_follows first).bind fun next _ => ih next later

theorem finish_follows (state : ParseState) :
    Follows Prod.snd state.finish state.outline.finish := by
  refine follows_of_settle fun settled nothing same => ?_
  have finishes : state.outline.finish = settled.outline.finish := by
    rw [same]
    rfl
  rw [finishes]
  have read := Frame.expression_follows nothing
  unfold Outline.finish
  cases outer : settled.outer with
  | nil =>
      have counted : (if ([] : List Layer).isEmpty && settled.outline.layer.whole.isSome then
            some settled.outline.scope.groups
          else none) =
          settled.outline.layer.whole.bind fun _ => some settled.outline.scope.groups := by
        cases settled.outline.layer.whole <;> rfl
      rw [settled.outline_outer outer, List.map_nil, counted]
      exact read.bind fun body _ => .ok rfl
  | cons parent rest =>
      rw [settled.outline_outer outer, List.map_cons]
      refine read.refuse fun body => ?_
      rw [List.isEmpty_cons, if_neg Bool.false_ne_true]
      exact (settled.finishGroup_follows body).refuse fun _ => .error _

end ParseState

theorem parse_follows {pattern : List UInt8} (filled : pattern ≠ []) {flags : Flags}
    (spelled : flags.verbatim = false) :
    Follows Prod.snd (parse pattern flags)
      (((Outline.initial flags.capturing).run (tokens pattern)).bind Outline.finish) := by
  have empty : pattern.isEmpty = false := by simpa using filled
  unfold parse
  rw [empty, spelled, if_neg Bool.false_ne_true, if_neg Bool.false_ne_true,
    ParseState.readAll_eq_foldlM, ← ParseState.outline_initial]
  refine (ParseState.foldlM_follows _ ?_).bind fun state _ => state.finish_follows
  exact forall_mem_tokens Token.read_keepsCapturing pattern

end ByteRegex
