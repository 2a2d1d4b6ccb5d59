import Wager.Wire.Bytes

/-!
# Writing

Integers are little-endian. A length or count is a *compact* integer: one byte below `0xfd`,
otherwise a marker byte and the least of two, four or eight bytes that holds it.
-/

namespace Wager.Encode

def u16 (n : UInt16) : Bytes := littleEndian 2 n.toNat

def u32 (n : UInt32) : Bytes := littleEndian 4 n.toNat

def u64 (n : UInt64) : Bytes := littleEndian 8 n.toNat

/-- A compact integer. -/
def compact (n : UInt64) : Bytes :=
  if n < 0xfd then [n.toUInt8]
  else if n ≤ 0xffff then 0xfd :: u16 n.toUInt16
  else if n ≤ 0xffffffff then 0xfe :: u32 n.toUInt32
  else 0xff :: u64 n

/-- The number of bytes of a compact integer. -/
def compactSize (n : UInt64) : Nat :=
  if n < 0xfd then 1 else if n ≤ 0xffff then 3 else if n ≤ 0xffffffff then 5 else 9

theorem length_compact (n : UInt64) : (compact n).length = compactSize n := by
  unfold compact compactSize
  split
  · rfl
  split
  · simp [u16]
  split
  · simp [u32]
  · simp [u64]

/-- A count of things. -/
def count (n : Nat) : Bytes := compact (UInt64.ofNat n)

/-- A byte string behind its length. -/
def sized (data : Bytes) : Bytes := count data.length ++ data

end Wager.Encode
