/-!
Sets of bytes, kept as a bitmap of 32 bytes: byte `b` is a member if and only if bit `b % 8` of the
bitmap's byte `b / 8` is set.
-/

namespace ByteRegex

structure ByteSet where
  bitmap : Vector UInt8 32
deriving DecidableEq

namespace ByteSet

def contains (set : ByteSet) (byte : UInt8) : Bool :=
  have inside : byte.toNat / 8 < 32 := Nat.div_lt_of_lt_mul byte.toNat_lt
  set.bitmap[byte.toNat / 8].toNat.testBit (byte.toNat % 8)

/-- Eight answers as one byte, the first in the lowest bit. -/
def packedByte (member : Nat → Bool) : UInt8 :=
  UInt8.ofNat ((member 0).toNat + 2 * (member 1).toNat + 4 * (member 2).toNat
    + 8 * (member 3).toNat + 16 * (member 4).toNat + 32 * (member 5).toNat
    + 64 * (member 6).toNat + 128 * (member 7).toNat)

def ofPredicate (member : UInt8 → Bool) : ByteSet where
  bitmap := Vector.ofFn fun index =>
    packedByte fun bit => member (UInt8.ofNat (8 * index.val + bit))

def members (set : ByteSet) : List UInt8 :=
  ((List.range 256).map UInt8.ofNat).filter set.contains

theorem testBit_of_eight : ∀ (a b c d e f g h : Bool) (bit : Fin 8),
    (UInt8.ofNat (a.toNat + 2 * b.toNat + 4 * c.toNat + 8 * d.toNat + 16 * e.toNat
      + 32 * f.toNat + 64 * g.toNat + 128 * h.toNat)).toNat.testBit bit.val
      = [a, b, c, d, e, f, g, h].get bit := by
  decide

theorem packedByte_testBit (member : Nat → Bool) (bit : Nat) (small : bit < 8) :
    (packedByte member).toNat.testBit bit = member bit := by
  unfold packedByte
  refine (testBit_of_eight _ _ _ _ _ _ _ _ ⟨bit, small⟩).trans ?_
  match bit, small with
  | 0, _ | 1, _ | 2, _ | 3, _ | 4, _ | 5, _ | 6, _ | 7, _ => rfl

@[simp] theorem contains_ofPredicate (member : UInt8 → Bool) (byte : UInt8) :
    (ofPredicate member).contains byte = member byte := by
  have same : UInt8.ofNat (8 * (byte.toNat / 8) + byte.toNat % 8) = byte := by
    rw [Nat.div_add_mod]
    exact UInt8.ofNat_toNat
  simp only [contains, ofPredicate, Vector.getElem_ofFn]
  rw [packedByte_testBit _ _ (Nat.mod_lt _ (by decide)), same]

end ByteSet

end ByteRegex
