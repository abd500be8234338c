import ByteRegex.Bytecode.Code

/-!
Destinations of assembled code. A measure only knows how long the code would be; a buffer holds the
bytes. Assembly is written once for both, so that what is measured is what will be stored.
-/

namespace ByteRegex

class CodeSink (σ : Type) where
  size : σ → Nat
  append : σ → List UInt8 → σ
  /-- Lays bytes in front of those that start at a position. -/
  insert : σ → Nat → List UInt8 → σ
  /-- Overwrites the operand at a position. -/
  patch : σ → Nat → Int16 → σ

structure Measure where
  size : Nat
deriving DecidableEq, Repr

structure CodeBuffer where
  code : Code
deriving DecidableEq

namespace Measure

def zero : Measure := ⟨0⟩

instance : CodeSink Measure where
  size measure := measure.size
  append measure bytes := ⟨measure.size + bytes.length⟩
  insert measure _ bytes := ⟨measure.size + bytes.length⟩
  patch measure _ _ := measure

end Measure

namespace CodeBuffer

def empty : CodeBuffer := ⟨#[]⟩

def append (buffer : CodeBuffer) (bytes : List UInt8) : CodeBuffer := ⟨buffer.code ++ bytes⟩

def insert (buffer : CodeBuffer) (position : Nat) (bytes : List UInt8) : CodeBuffer :=
  let moved := buffer.code.extract position buffer.code.size
  ⟨buffer.code.shrink position ++ bytes ++ moved⟩

def patch (buffer : CodeBuffer) (position : Nat) (operand : Int16) : CodeBuffer :=
  match Operand.toBytes operand with
  | [low, high] =>
      ⟨(buffer.code.setIfInBounds position low).setIfInBounds (position + 1) high⟩
  | _ => buffer

instance : CodeSink CodeBuffer where
  size buffer := buffer.code.size
  append := append
  insert := insert
  patch := patch

theorem toList_append (buffer : CodeBuffer) (bytes : List UInt8) :
    (buffer.append bytes).code.toList = buffer.code.toList ++ bytes := by
  simp [append]

theorem toList_insert (buffer : CodeBuffer) (position : Nat) (bytes : List UInt8) :
    (buffer.insert position bytes).code.toList
      = buffer.code.toList.take position ++ (bytes ++ buffer.code.toList.drop position) := by
  have moved : (buffer.code.toList.drop position).take (buffer.code.size - position)
      = buffer.code.toList.drop position :=
    List.take_of_length_le (by
      simp only [List.length_drop, Array.length_toList, Nat.le_refl])
  simp only [insert, Array.toList_append, Array.toList_appendList, Array.toList_shrink,
    Array.toList_extract, moved, List.append_assoc]

theorem size_insert (buffer : CodeBuffer) (position : Nat) (bytes : List UInt8) :
    (buffer.insert position bytes).code.size = buffer.code.size + bytes.length := by
  rw [← Array.length_toList, toList_insert]
  simp only [List.length_append, List.length_take, List.length_drop, Array.length_toList]
  omega

theorem size_patch (buffer : CodeBuffer) (position : Nat) (operand : Int16) :
    (buffer.patch position operand).code.size = buffer.code.size := by
  simp only [patch, Operand.toBytes, Array.size_setIfInBounds]

end CodeBuffer

end ByteRegex
