import ByteRegex.Assembly.Emit

/-!
# Sinks

What a sink has to do with the size that it reports, and emission as steps that one of which may
fail. Results that fail alike are compared here as well.
-/

namespace ByteRegex

/-- Results that are the same error, or two values that are related. -/
inductive Both {α β : Type} (related : α → β → Prop) :
    Except CompileError α → Except CompileError β → Prop where
  | error (error : CompileError) : Both related (.error error) (.error error)
  | ok {left : α} {right : β} (holds : related left right) : Both related (.ok left) (.ok right)

namespace Both

variable {α β γ δ : Type} {related : α → β → Prop} {further : γ → δ → Prop}
  {left : Except CompileError α} {right : Except CompileError β}

theorem refl {related : α → α → Prop} (same : ∀ value, related value value)
    (result : Except CompileError α) : Both related result result := by
  cases result with
  | error error => exact .error error
  | ok value => exact .ok (same value)

theorem bind {first : α → Except CompileError γ} {second : β → Except CompileError δ}
    (both : Both related left right)
    (later : ∀ value other, related value other → Both further (first value) (second other)) :
    Both further (left.bind first) (right.bind second) := by
  cases both with
  | error error => exact .error error
  | ok holds => exact later _ _ holds

theorem map {first : α → γ} {second : β → δ} (both : Both related left right)
    (later : ∀ value other, related value other → further (first value) (second other)) :
    Both further (left.map first) (right.map second) := by
  cases both with
  | error error => exact .error error
  | ok holds => exact .ok (later _ _ holds)

/-- What is made of two results fails for both or for neither. -/
theorem map_any (both : Both related left right) (first : α → γ) (second : β → δ) :
    Both (fun _ _ => True) (left.map first) (right.map second) :=
  both.map fun _ _ _ => trivial

theorem mono {weaker : α → β → Prop} (both : Both related left right)
    (weakens : ∀ value other, related value other → weaker value other) :
    Both weaker left right := by
  cases both with
  | error error => exact .error error
  | ok holds => exact .ok (weakens _ _ holds)

/-- The values that are related are the results. -/
theorem attach (both : Both related left right) :
    Both (fun value other => left = .ok value ∧ right = .ok other ∧ related value other) left
      right := by
  cases both with
  | error error => exact .error error
  | ok holds => exact .ok ⟨rfl, rfl, holds⟩

/-- Two results that are compared with a third one. -/
theorem join {third : Except CompileError γ} {other : α → γ → Prop} (both : Both related left right)
    (again : Both other left third) :
    Both (fun value value' => ∃ common, related common value ∧ other common value') right third := by
  cases both with
  | error error =>
      cases again
      exact .error error
  | ok holds =>
      cases again with
      | ok holds' => exact .ok ⟨_, holds, holds'⟩

end Both

namespace Measure

/-- A measure takes only the length of what it is given. -/
theorem append_congr (measure : Measure) {bytes bytes' : List UInt8}
    (level : bytes.length = bytes'.length) :
    CodeSink.append measure bytes = CodeSink.append measure bytes' :=
  congrArg (fun length => (⟨measure.size + length⟩ : Measure)) level

theorem insert_congr (measure : Measure) (start : Nat) {bytes bytes' : List UInt8}
    (level : bytes.length = bytes'.length) :
    CodeSink.insert measure start bytes = CodeSink.insert measure start bytes' :=
  congrArg (fun length => (⟨measure.size + length⟩ : Measure)) level

end Measure

/-- Sinks that grow by what is appended or inserted and keep their size when they are patched. -/
class LawfulSink (σ : Type) [CodeSink σ] : Prop where
  size_append : ∀ (sink : σ) (bytes : List UInt8),
    CodeSink.size (CodeSink.append sink bytes) = CodeSink.size sink + bytes.length
  size_insert : ∀ (sink : σ) (position : Nat) (bytes : List UInt8),
    CodeSink.size (CodeSink.insert sink position bytes) = CodeSink.size sink + bytes.length
  size_patch : ∀ (sink : σ) (position : Nat) (operand : Int16),
    CodeSink.size (CodeSink.patch sink position operand) = CodeSink.size sink

instance : LawfulSink Measure where
  size_append _ _ := rfl
  size_insert _ _ _ := rfl
  size_patch _ _ _ := rfl

instance : LawfulSink CodeBuffer where
  size_append buffer bytes := by
    show (buffer.append bytes).code.size = buffer.code.size + bytes.length
    rw [← Array.length_toList, CodeBuffer.toList_append, List.length_append, Array.length_toList]
  size_insert buffer position bytes := buffer.size_insert position bytes
  size_patch buffer position operand := buffer.size_patch position operand

section Emission

variable {σ : Type} [CodeSink σ]

theorem appendLiteral_nil (caseless : Bool) (sink : σ) : appendLiteral caseless [] sink = sink := by
  rw [appendLiteral]
  rfl

theorem appendLiteral_of_filled (caseless : Bool) {bytes : List UInt8} (filled : bytes ≠ [])
    (sink : σ) :
    appendLiteral caseless bytes sink = appendLiteral caseless (bytes.drop Capacity.literal)
      (CodeSink.append sink (literalCode caseless (bytes.take Capacity.literal))) := by
  rw [appendLiteral, if_neg fun empty => filled (List.isEmpty_iff.mp empty)]

theorem Expr.emit_sequence (first second : Expr) (sink : σ) :
    (Expr.sequence first second).emit sink = (first.emit sink).bind second.emit := by
  rw [Expr.emit]
  cases first.emit sink <;> rfl

theorem Expr.emit_alternative (first second : Expr) (sink : σ) :
    (Expr.alternative first second).emit sink =
      (first.emit sink).bind fun ahead => (endBranch (CodeSink.size sink) ahead).bind fun ended =>
        (second.emit ended).bind (landJump (CodeSink.size ended)) := by
  rw [Expr.emit]
  cases first.emit sink with
  | error error => rfl
  | ok ahead =>
      dsimp only [Except.bind]
      cases endBranch (CodeSink.size sink) ahead with
      | error error => rfl
      | ok ended =>
          dsimp only
          cases second.emit ended <;> rfl

theorem Expr.emit_capture (group : Nat) (body : Expr) (sink : σ) :
    (Expr.capture group body).emit sink =
      (body.emit (CodeSink.append sink (Opcode.openGroup.encode [Int16.ofNat group]))).bind
        fun inner => .ok (CodeSink.append inner (Opcode.closeGroup.encode [Int16.ofNat group])) := by
  rw [Expr.emit]
  cases body.emit (CodeSink.append sink (Opcode.openGroup.encode [Int16.ofNat group])) <;> rfl

end Emission

end ByteRegex
