import Wager.Wire.Decoder
import Wager.Wire.Encode

/-!
# Items

**An item** is one of the values that every encoding here is made of. Its form says how it is
read, so items that are written in a row can be read back in a row.

**A session** reads form after form with one cursor, and goes on after a read that failed.
-/

namespace Wager

/-- A way to read the next bytes. -/
inductive Form
  | u8
  | u16
  | u32
  | u64
  | compact
  | length
  | bytes (n : Nat)
  | block (n : Nat)
  | sized
deriving DecidableEq, Repr

inductive Item
  | u8 (n : UInt8)
  | u16 (n : UInt16)
  | u32 (n : UInt32)
  | u64 (n : UInt64)
  | compact (n : UInt64)
  /-- The number of things that follow. -/
  | length (n : Nat)
  | bytes (data : Bytes)
  | sized (data : Bytes)
deriving DecidableEq, Repr

namespace Item

def encode : Item → Bytes
  | u8 n => [n]
  | u16 n => Encode.u16 n
  | u32 n => Encode.u32 n
  | u64 n => Encode.u64 n
  | compact n => Encode.compact n
  | length n => Encode.count n
  | bytes data => data
  | sized data => Encode.sized data

/-- The form that reads the item back. -/
def form : Item → Form
  | u8 _ => .u8
  | u16 _ => .u16
  | u32 _ => .u32
  | u64 _ => .u64
  | compact _ => .compact
  | length _ => .length
  | bytes data => .bytes data.length
  | sized _ => .sized

end Item

namespace Form

def decoder : Form → Decoder Item
  | u8 => .u8 <$> Decoder.u8
  | u16 => .u16 <$> Decoder.u16
  | u32 => .u32 <$> Decoder.u32
  | u64 => .u64 <$> Decoder.u64
  | compact => .compact <$> Decoder.compact
  | length => .length <$> Decoder.length
  | bytes n => .bytes <$> Decoder.bytes n
  | block n => (.bytes ·.toList) <$> Decoder.block n
  | sized => .sized <$> Decoder.sized

/-- What each read gives, and the cursor that it leaves. -/
def session : List Form → Cursor → List (Outcome Item × Cursor)
  | [], _ => []
  | form :: forms, c =>
    let (outcome, next) := form.decoder c
    (outcome, next) :: session forms next

end Form

end Wager
