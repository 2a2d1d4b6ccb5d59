import Wager.Wire.Item

/-!
# Reading in place

A reader can also leave the data whole and move a position over it. It then looks at ranges of the
data, subtracts and adds positions, and relies on all of that being possible. A read that looks
outside of the data, or computes a position that is no 64-bit word, has no result at all (`none`),
which is something else than a fault of the data.
-/

namespace Wager

/-- A read from a position in data that stays whole. -/
abbrev InPlace := ExceptT Fault (StateT Nat Option)

namespace InPlace

variable {α : Type} (data : Bytes)

/-- What a read relies on. -/
def sure (o : Option α) : InPlace α := fun p => o.map fun a => (.ok a, p)

/-- The bytes behind the position. -/
def remaining : InPlace Nat := do
  let p ← get
  sure (if p ≤ data.length then some (data.length - p) else none)

/-- The bytes from one position to before another. -/
def slice? (first last : Nat) : Option Bytes :=
  if first ≤ last ∧ last ≤ data.length then some ((data.drop first).take (last - first)) else none

def bytes (n : Nat) : InPlace Bytes := do
  let left ← remaining data
  let first ← get
  if left < n then throw (.malformed (.unexpectedEnd n first left))
  let last ← sure (if first + n < UInt64.size then some (first + n) else none)
  let taken ← sure (slice? data first last)
  set last
  return taken

def block (n : Nat) : InPlace (Vector UInt8 n) := do Decoder.exactly n (← bytes data n)

def u8 : InPlace UInt8 := do sure (← bytes data 1)[0]?

def u16 : InPlace UInt16 := do return UInt16.ofNat (ofLittleEndian (← block data 2).toList)

def u32 : InPlace UInt32 := do return UInt32.ofNat (ofLittleEndian (← block data 4).toList)

def u64 : InPlace UInt64 := do return UInt64.ofNat (ofLittleEndian (← block data 8).toList)

def compact : InPlace UInt64 := do
  match ← u8 data with
  | 0xfd => return (← u16 data).toUInt64
  | 0xfe => return (← u32 data).toUInt64
  | 0xff => u64 data
  | small => return small.toUInt64

def length : InPlace Nat := do
  let n ← compact data
  let left ← remaining data
  if left < n.toNat then throw (.malformed (.lengthBeyond n left))
  return n.toNat

def sized : InPlace Bytes := do bytes data (← length data)

end InPlace

namespace Form

def inPlace (data : Bytes) : Form → InPlace Item
  | u8 => .u8 <$> InPlace.u8 data
  | u16 => .u16 <$> InPlace.u16 data
  | u32 => .u32 <$> InPlace.u32 data
  | u64 => .u64 <$> InPlace.u64 data
  | compact => .compact <$> InPlace.compact data
  | length => .length <$> InPlace.length data
  | bytes n => .bytes <$> InPlace.bytes data n
  | block n => (.bytes ·.toList) <$> InPlace.block data n
  | sized => .sized <$> InPlace.sized data

/-- What each read gives, and the position that it leaves. -/
def sessionInPlace (data : Bytes) : List Form → Nat → Option (List (Outcome Item × Nat))
  | [], _ => some []
  | form :: forms, p => do
    let (outcome, next) ← form.inPlace data p
    return (outcome, next) :: (← sessionInPlace data forms next)

end Form

end Wager
