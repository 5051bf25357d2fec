/-! The bytes of a block. Positions count from zero, and a write replaces the bytes that it covers
without changing how many there are. -/

namespace BlockPool

abbrev Payload := ByteArray

instance : DecidableEq Payload := fun a b =>
  decidable_of_iff (a.data.toList = b.data.toList) (by
    cases a
    cases b
    simp [Array.toList_inj])

namespace Payload

/-- The bytes of a block that nobody has written to. -/
def zeros (size : Nat) : Payload := ⟨Array.replicate size 0⟩

/-- The same byte everywhere. -/
def filled (size : Nat) (byte : UInt8) : Payload := ⟨Array.replicate size byte⟩

/-- The bytes with those from `offset` on replaced by `data`. -/
def overwrite (b : Payload) (offset : Nat) (data : Payload) : Payload :=
  b.extract 0 offset ++ data ++ b.extract (offset + data.size) b.size

/-- The `len` bytes from `offset` on. -/
def slice (b : Payload) (offset len : Nat) : Payload := b.extract offset (offset + len)

def sum (b : Payload) : Nat := b.foldl (fun n byte => n + byte.toNat) 0

@[simp] theorem size_zeros (size : Nat) : (zeros size).size = size := by
  simp [zeros, ByteArray.size]

@[simp] theorem size_filled (size : Nat) (byte : UInt8) : (filled size byte).size = size := by
  simp [filled, ByteArray.size]

theorem size_overwrite {b data : Payload} {offset : Nat} (h : offset + data.size ≤ b.size) :
    (overwrite b offset data).size = b.size := by
  simp only [overwrite, ByteArray.size_append, ByteArray.size_extract]
  omega

end Payload

end BlockPool
