import ByteRegex.Program
import ByteRegex.Proofs.Assembly.Sinks

/-!
# Assembly as a list of edits

What assembly does to a sink depends on nothing but the sink's size. So it can be written down
before: the edits one after another, and the error behind the last of them if there is one. Every
sink of that size is edited in this way, and every edit stays inside what is there by then.
-/

namespace ByteRegex

/-- One thing that assembly does to a sink. -/
inductive Edit where
  | append (bytes : List UInt8)
  | insert (position : Nat) (bytes : List UInt8)
  | patch (position : Nat) (operand : Int16)
deriving DecidableEq, Repr

namespace Edit

/-- The bytes that come in addition. -/
def growth : Edit → Nat
  | append bytes | insert _ bytes => bytes.length
  | patch _ _ => 0

/-- Whether all that is touched lies inside the first bytes, or at their end. -/
def Inside (size : Nat) : Edit → Prop
  | append _ => True
  | insert position _ => position ≤ size
  | patch position _ => position + 2 ≤ size

instance (size : Nat) (edit : Edit) : Decidable (edit.Inside size) := by
  cases edit <;> unfold Inside <;> infer_instance

/-- The bytes that come in addition by some edits. -/
def growths : List Edit → Nat
  | [] => 0
  | edit :: later => edit.growth + growths later

/-- Edits that stay inside what is there, which is `size` bytes at first. -/
def Fit (size : Nat) : List Edit → Prop
  | [] => True
  | edit :: later => edit.Inside size ∧ Fit (size + edit.growth) later

@[simp] theorem growths_nil : growths [] = 0 := rfl

@[simp] theorem growths_cons (edit : Edit) (later : List Edit) :
    growths (edit :: later) = edit.growth + growths later := rfl

theorem fit_append {size : Nat} {earlier later : List Edit} :
    Fit size (earlier ++ later) ↔ Fit size earlier ∧ Fit (size + growths earlier) later := by
  induction earlier generalizing size with
  | nil => simp [Fit]
  | cons edit earlier ih => simp [Fit, ih, and_assoc, Nat.add_assoc]

section Sink

variable {σ : Type} [CodeSink σ]

def apply (sink : σ) : Edit → σ
  | append bytes => CodeSink.append sink bytes
  | insert position bytes => CodeSink.insert sink position bytes
  | patch position operand => CodeSink.patch sink position operand

/-- A sink after some edits, the first one first. -/
def applyAll (sink : σ) (edits : List Edit) : σ := edits.foldl apply sink

theorem applyAll_append (sink : σ) (earlier later : List Edit) :
    applyAll sink (earlier ++ later) = applyAll (applyAll sink earlier) later :=
  List.foldl_append

theorem size_apply [LawfulSink σ] (sink : σ) (edit : Edit) :
    CodeSink.size (apply sink edit) = CodeSink.size sink + edit.growth := by
  cases edit with
  | append bytes => exact LawfulSink.size_append sink bytes
  | insert position bytes => exact LawfulSink.size_insert sink position bytes
  | patch position operand => exact LawfulSink.size_patch sink position operand

theorem size_applyAll [LawfulSink σ] (sink : σ) (edits : List Edit) :
    CodeSink.size (applyAll sink edits) = CodeSink.size sink + growths edits := by
  induction edits generalizing sink with
  | nil => rfl
  | cons edit later ih =>
      show CodeSink.size (applyAll (apply sink edit) later) = _
      rw [ih, size_apply, growths_cons, Nat.add_assoc]

end Sink

end Edit

/-- What assembly does to a sink, and why it stops before it is done. -/
structure Script where
  edits : List Edit
  failure : Option CompileError
deriving DecidableEq

namespace Script

/-- Edits that nothing prevents. -/
def done (edits : List Edit) : Script := ⟨edits, none⟩

/-- Edits that need a distance to be made. -/
def spanning (distance : Except CompileError Int16) (edits : Int16 → List Edit) : Script :=
  match distance with
  | .ok distance => done (edits distance)
  | .error error => ⟨[], some error⟩

/-- Edits that put bytes around what stands behind a position. -/
def enclosing (start : Nat) :
    Except CompileError (List UInt8) → Except CompileError (List UInt8) → Script
  | .ok leading, .ok trailing => done [.insert start leading, .append trailing]
  | .error error, _ | _, .error error => ⟨[], some error⟩

def growth (script : Script) : Nat := Edit.growths script.edits

/-- One script after another, if the first one is done. -/
def follow (first later : Script) : Script :=
  match first.failure with
  | none => ⟨first.edits ++ later.edits, later.failure⟩
  | some _ => first

/-- A script whose edits stay inside what is there. -/
def Fits (size : Nat) (script : Script) : Prop := Edit.Fit size script.edits

theorem Fits.follow {size : Nat} {first later : Script} (fits : first.Fits size)
    (behind : first.failure = none → later.Fits (size + first.growth)) :
    (first.follow later).Fits size := by
  unfold Script.follow
  split
  · rename_i completed
    exact Edit.fit_append.mpr ⟨fits, behind completed⟩
  · exact fits

theorem Fits.spanning {size : Nat} {distance : Except CompileError Int16}
    {edits : Int16 → List Edit} (fits : ∀ distance, Edit.Fit size (edits distance)) :
    (spanning distance edits).Fits size := by
  cases distance with
  | error error => trivial
  | ok distance => exact fits distance

theorem Fits.enclosing {start size : Nat} (inside : start ≤ size)
    (leading trailing : Except CompileError (List UInt8)) :
    (enclosing start leading trailing).Fits size := by
  cases leading with
  | error error => trivial
  | ok leading =>
      cases trailing with
      | error error => trivial
      | ok trailing => exact ⟨inside, trivial, trivial⟩

section Run

variable {σ : Type} [CodeSink σ]

def run (script : Script) (sink : σ) : Except CompileError σ :=
  match script.failure with
  | none => .ok (Edit.applyAll sink script.edits)
  | some error => .error error

theorem failure_of_run {script : Script} {sink after : σ}
    (done : script.run sink = .ok after) : script.failure = none := by
  unfold run at done
  split at done
  · assumption
  · cases done

/-- Two sinks are edited alike, or neither of them is. -/
theorem run_both {τ : Type} [CodeSink τ] (script : Script) (left : σ) (right : τ) :
    Both (fun after after' => after = Edit.applyAll left script.edits ∧
        after' = Edit.applyAll right script.edits)
      (script.run left) (script.run right) := by
  unfold run
  split
  · exact .ok ⟨rfl, rfl⟩
  · exact .error _

/-- What is done behind a script needs to know the size that the script leaves. -/
theorem bind_run [LawfulSink σ] (first later : Script) {sink : σ} {next : σ → Except CompileError σ}
    (same : ∀ left : σ, CodeSink.size left = CodeSink.size sink + first.growth →
      next left = later.run left) :
    (first.run sink).bind next = (first.follow later).run sink := by
  cases completed : first.failure with
  | none =>
      have ahead : next (Edit.applyAll sink first.edits) = _ := same _ (Edit.size_applyAll sink _)
      simp only [run, follow, completed, Except.bind, ahead, Edit.applyAll_append]
  | some error => simp only [run, follow, completed, Except.bind]

theorem run_spanning (distance : Except CompileError Int16) (edits : Int16 → List Edit) (sink : σ) :
    (spanning distance edits).run sink =
      distance.map fun distance => Edit.applyAll sink (edits distance) := by
  cases distance <;> rfl

theorem run_enclosing (start : Nat) (leading trailing : Except CompileError (List UInt8))
    (sink : σ) :
    (enclosing start leading trailing).run sink =
      match leading, trailing with
      | .ok leading, .ok trailing =>
          .ok (CodeSink.append (CodeSink.insert sink start leading) trailing)
      | .error error, _ | _, .error error => .error error := by
  cases leading <;> cases trailing <;> rfl

end Run

end Script

/-- The edits of a literal, one for each piece that fits into one instruction. -/
def literalEdits (caseless : Bool) (bytes : List UInt8) : List Edit :=
  if bytes.isEmpty then []
  else
    .append (literalCode caseless (bytes.take Capacity.literal)) ::
      literalEdits caseless (bytes.drop Capacity.literal)
termination_by bytes.length
decreasing_by
  rename_i filled
  have positive : 0 < bytes.length := by
    cases bytes with
    | nil => simp at filled
    | cons _ _ => exact Nat.succ_pos _
  simp only [List.length_drop, Capacity.literal]
  omega

def endBranchScript (start size : Nat) : Script :=
  .spanning (jumpDistance (size + Opcode.jump.fixedSize) start) fun distance =>
    [.insert start (Opcode.branch.encode [distance]), .append (Opcode.jump.encode [0])]

def landJumpScript (origin size : Nat) : Script :=
  .spanning (jumpDistance size origin) fun distance => [.patch (origin - 2) distance]

def wrapScript (start : Nat) (steps : List Step) (size : Nat) : Script :=
  let bodySize := size - start
  let target := Step.labelAddress bodySize start steps
  let before := steps.takeWhile (· ≠ .body)
  let after := steps.dropWhile (· ≠ .body)
  .enclosing start (Step.encodeAll bodySize target start before)
    (Step.encodeAll bodySize target (start + Step.sizes bodySize before) after)

/-- What a script does, with steps around it in the end. -/
def Script.wrapped (body : Script) (start : Nat) (steps : List Step) : Script :=
  body.follow (wrapScript start steps (start + body.growth))

/-- What emission does to a sink of a certain size. -/
def Expr.script : Expr → Nat → Script
  | .empty, _ => .done []
  | .test single, _ => .done [.append single.encode]
  | .literal caseless bytes, _ => .done (literalEdits caseless bytes)
  | .assertion condition, _ => .done [.append (condition.opcode.encode [])]
  | .backReference caseless group, _ =>
      let opcode : Opcode := if caseless then .backRefNoCase else .backRef
      .done [.append (opcode.encode [Int16.ofNat group])]
  | .sequence first second, start =>
      let ahead := first.script start
      ahead.follow (second.script (start + ahead.growth))
  | .alternative first second, start =>
      let tried := first.script start
      let ended := endBranchScript start (start + tried.growth)
      let origin := start + tried.growth + ended.growth
      let other := second.script origin
      tried.follow (ended.follow (other.follow (landJumpScript origin (origin + other.growth))))
  | .capture group body, start =>
      let opened : Script := .done [.append (Opcode.openGroup.encode [Int16.ofNat group])]
      let inner := body.script (start + opened.growth)
      opened.follow (inner.follow (.done [.append (Opcode.closeGroup.encode [Int16.ofNat group])]))
  | .repetition quantifier single, start =>
      .done [.append single.encode, .insert start (repetitionCode quantifier)]
  | .loop quantifier nullable counter body, start =>
      (body.script start).wrapped start (quantifier.loopSteps nullable counter)
  | .atomic body, start => (body.script start).wrapped start atomicSteps
  | .look direction width body, start => (body.script start).wrapped start (direction.steps width)

/-! ## Emission follows the script -/

section Emission

variable {σ : Type} [CodeSink σ] [LawfulSink σ]

omit [LawfulSink σ] in
theorem appendLiteral_eq_applyAll (caseless : Bool) (bytes : List UInt8) (sink : σ) :
    appendLiteral caseless bytes sink = Edit.applyAll sink (literalEdits caseless bytes) := by
  fun_induction literalEdits caseless bytes generalizing sink with
  | case1 bytes nothing =>
      rw [List.isEmpty_iff.mp nothing, appendLiteral_nil]
      rfl
  | case2 bytes filled ih =>
      rw [appendLiteral_of_filled caseless fun nothing => filled (List.isEmpty_iff.mpr nothing), ih]
      rfl

omit [LawfulSink σ] in
theorem endBranch_eq_run (start : Nat) (sink : σ) :
    endBranch start sink = (endBranchScript start (CodeSink.size sink)).run sink := by
  rw [endBranchScript, Script.run_spanning]
  rfl

omit [LawfulSink σ] in
theorem landJump_eq_run (origin : Nat) (sink : σ) :
    landJump origin sink = (landJumpScript origin (CodeSink.size sink)).run sink := by
  rw [landJumpScript, Script.run_spanning]
  rfl

omit [LawfulSink σ] in
theorem wrap_eq_run (start : Nat) (steps : List Step) (sink : σ) :
    wrap start steps sink = (wrapScript start steps (CodeSink.size sink)).run sink := by
  rw [wrapScript, Script.run_enclosing]
  rfl

theorem Expr.emit_wrap_eq_run {body : Expr} {sink : σ}
    (inner : body.emit sink = (body.script (CodeSink.size sink)).run sink) (steps : List Step) :
    (body.emit sink).bind (wrap (CodeSink.size sink) steps) =
      ((body.script (CodeSink.size sink)).wrapped (CodeSink.size sink) steps).run sink := by
  rw [inner]
  apply Script.bind_run
  intro left level
  rw [wrap_eq_run, level]

/-- Emission into any sink does what the script for the sink's size says. -/
theorem Expr.emit_eq_run (expr : Expr) (sink : σ) :
    expr.emit sink = (expr.script (CodeSink.size sink)).run sink := by
  induction expr generalizing sink with
  | empty | test | assertion | backReference | repetition => rfl
  | literal caseless bytes => exact congrArg Except.ok (appendLiteral_eq_applyAll caseless bytes sink)
  | sequence first second former latter =>
      rw [emit_sequence, former]
      apply Script.bind_run
      intro ahead level
      rw [latter, level]
  | alternative first second former latter =>
      rw [emit_alternative, former]
      apply Script.bind_run
      intro ahead level
      rw [endBranch_eq_run, level]
      apply Script.bind_run
      intro ended level'
      rw [latter, level', level]
      apply Script.bind_run
      intro other level''
      rw [landJump_eq_run, level'', level', level]
  | capture group body ih =>
      let opened : Script := .done [.append (Opcode.openGroup.encode [Int16.ofNat group])]
      have inner : ∀ left : σ, CodeSink.size left = CodeSink.size sink + opened.growth →
          ((body.emit left).bind fun inner =>
            .ok (CodeSink.append inner (Opcode.closeGroup.encode [Int16.ofNat group]))) =
            ((body.script (CodeSink.size sink + opened.growth)).follow
              (.done [.append (Opcode.closeGroup.encode [Int16.ofNat group])])).run left := by
        intro left level
        rw [ih, level]
        exact Script.bind_run _ _ fun _ _ => rfl
      rw [emit_capture]
      exact Script.bind_run opened _ inner
  | loop quantifier nullable counter body ih => exact emit_wrap_eq_run (ih sink) _
  | atomic body ih => exact emit_wrap_eq_run (ih sink) _
  | look direction width body ih => exact emit_wrap_eq_run (ih sink) _

/-- Whether an expression is refused is decided by the size of the sink. -/
theorem Expr.emit_both {τ : Type} [CodeSink τ] [LawfulSink τ] (expr : Expr) {left : σ} {right : τ}
    (level : CodeSink.size left = CodeSink.size right) :
    Both (fun _ _ => True) (expr.emit left) (expr.emit right) := by
  rw [emit_eq_run, emit_eq_run, level]
  exact (Script.run_both _ left right).mono fun _ _ _ => trivial

end Emission

/-- Expressions that are measured alike are refused together. -/
theorem Expr.emit_both_of_level {expr other : Expr}
    (level : ∀ measure : Measure, expr.emit measure = other.emit measure) (buffer : CodeBuffer) :
    Both (fun _ _ => True) (expr.emit buffer) (other.emit buffer) := by
  have size : CodeSink.size (⟨CodeSink.size buffer⟩ : Measure) = CodeSink.size buffer := rfl
  have again := other.emit_both size
  rw [← level] at again
  exact ((expr.emit_both size).join again).mono fun _ _ _ => trivial

/-- Patterns that are parsed alike, as expressions that are measured alike, are compiled alike. -/
theorem Program.compile_both_of_level {pattern pattern' : List UInt8} {flags flags' : Flags}
    (parsed : Both (fun result result' =>
        ∀ measure : Measure, result.1.emit measure = result'.1.emit measure)
      (parse pattern flags) (parse pattern' flags')) :
    Both (fun _ _ => True) (compile pattern flags) (compile pattern' flags') := by
  unfold compile assemble
  generalize parse pattern flags = read at parsed ⊢
  generalize parse pattern' flags' = read' at parsed ⊢
  cases parsed with
  | error error => exact .error error
  | ok level => exact ((Expr.emit_both_of_level level _).map_any _ _).map_any _ _

/-! ## Scripts stay inside -/

theorem fit_literalEdits (caseless : Bool) (bytes : List UInt8) (size : Nat) :
    Edit.Fit size (literalEdits caseless bytes) := by
  fun_induction literalEdits caseless bytes generalizing size with
  | case1 => trivial
  | case2 bytes filled ih => exact ⟨trivial, ih _⟩

theorem endBranchScript_fits {start size : Nat} (inside : start ≤ size) :
    (endBranchScript start size).Fits size :=
  .spanning fun _ => ⟨inside, trivial, trivial⟩

/-- A choice and a jump have been put around the branch. -/
theorem growth_endBranchScript {start size : Nat}
    (completed : (endBranchScript start size).failure = none) :
    (endBranchScript start size).growth = 6 := by
  unfold endBranchScript Script.spanning at completed ⊢
  split at completed
  · simp [Script.growth, Script.done, Edit.growth, Opcode.length_encode]
  · cases completed

theorem landJumpScript_fits {origin size : Nat} (jumps : 2 ≤ origin) (inside : origin ≤ size) :
    (landJumpScript origin size).Fits size := by
  have operand : origin - 2 + 2 ≤ size := by omega
  exact .spanning fun _ => ⟨operand, trivial⟩

theorem Script.wrapped_fits {body : Script} {start : Nat} (fits : body.Fits start)
    (steps : List Step) : (body.wrapped start steps).Fits start :=
  fits.follow fun _ => .enclosing (Nat.le_add_right _ _) _ _

/-- Whatever is inserted or patched by emission lies inside what has been emitted. -/
theorem Expr.script_fits (expr : Expr) (start : Nat) : (expr.script start).Fits start := by
  induction expr generalizing start with
  | empty => trivial
  | test | assertion | backReference => exact ⟨trivial, trivial⟩
  | literal caseless bytes => exact fit_literalEdits caseless bytes start
  | sequence first second former latter => exact (former start).follow fun _ => latter _
  | alternative first second former latter =>
      refine (former start).follow fun _ => ?_
      refine (endBranchScript_fits (Nat.le_add_right _ _)).follow fun completed => ?_
      refine (latter _).follow fun _ => landJumpScript_fits ?_ (Nat.le_add_right _ _)
      have grown := growth_endBranchScript completed
      omega
  | capture group body ih =>
      have opened : (Script.done [.append (Opcode.openGroup.encode [Int16.ofNat group])]).Fits start :=
        ⟨trivial, trivial⟩
      exact opened.follow fun _ => (ih _).follow fun _ => ⟨trivial, trivial⟩
  | repetition quantifier single => exact ⟨trivial, Nat.le_add_right _ _, trivial⟩
  | loop quantifier nullable counter body ih => exact Script.wrapped_fits (ih start) _
  | atomic body ih => exact Script.wrapped_fits (ih start) _
  | look direction width body ih => exact Script.wrapped_fits (ih start) _

end ByteRegex
