import Wager.Fault

/-!
# Reading

**The cursor** holds what is still to be read, and how much has been. A `Decoder` moves it
forward or fails. A read that asks for more bytes than there are fails without moving; a compact
integer that ends too early leaves the cursor after its marker.

Compact integers are accepted in every width that holds them.
-/

namespace Wager

structure Cursor where
  position : Nat
  rest : Bytes
deriving DecidableEq, Repr

namespace Cursor

/-- The cursor before the first byte. -/
def start (data : Bytes) : Cursor := ⟨0, data⟩

def remaining (c : Cursor) : Nat := c.rest.length

def isAtEnd (c : Cursor) : Bool := c.rest.isEmpty

def advance (c : Cursor) (n : Nat) : Cursor := ⟨c.position + n, c.rest.drop n⟩

end Cursor

/-- A read, which keeps the cursor it reached when it fails. -/
abbrev Decoder := ExceptT Fault (StateM Cursor)

namespace Decoder

variable {α : Type}

/-- The next `n` bytes. -/
def bytes (n : Nat) : Decoder Bytes := fun c =>
  if n ≤ c.remaining then (.ok (c.rest.take n), c.advance n)
  else (malformed (.unexpectedEnd n c.position c.remaining), c)

/-- The byte string as a block, or the fault of having another length. -/
def exactly (n : Nat) (data : Bytes) : Outcome (Vector UInt8 n) :=
  need (.malformed (.blockLength n data.length)) (block? n data)

def block (n : Nat) : Decoder (Vector UInt8 n) := do exactly n (← bytes n)

def u8 : Decoder UInt8 := fun c =>
  match c.rest with
  | b :: rest => (.ok b, ⟨c.position + 1, rest⟩)
  | [] => (malformed (.unexpectedEnd 1 c.position 0), c)

def u16 : Decoder UInt16 := do return UInt16.ofNat (ofLittleEndian (← bytes 2))

def u32 : Decoder UInt32 := do return UInt32.ofNat (ofLittleEndian (← bytes 4))

def u64 : Decoder UInt64 := do return UInt64.ofNat (ofLittleEndian (← bytes 8))

/-- A compact integer. -/
def compact : Decoder UInt64 := do
  match ← u8 with
  | 0xfd => return (← u16).toUInt64
  | 0xfe => return (← u32).toUInt64
  | 0xff => u64
  | small => return small.toUInt64

/-- A compact integer that counts something still to be read: it is at most the number of bytes
that remain. -/
def length : Decoder Nat := do
  let n ← compact
  let c ← get
  if c.remaining < n.toNat then throw (.malformed (.lengthBeyond n c.remaining))
  return n.toNat

/-- A byte string behind its length. -/
def sized : Decoder Bytes := do bytes (← length)

/-- `n` values in a row. -/
def repeated (read : Decoder α) : (n : Nat) → Decoder (List α)
  | 0 => pure []
  | n + 1 => do
    let a ← read
    return a :: (← repeated read n)

/-- A count, and that many values. -/
def counted (read : Decoder α) : Decoder (List α) := do repeated read (← length)

/-- Fails unless every byte has been read. -/
def finish : Decoder Unit := do
  let c ← get
  unless c.isAtEnd do throw (.malformed (.trailing c.remaining c.position))

/-- The value that the whole byte string encodes. -/
def decodeAll (read : Decoder α) (data : Bytes) : Outcome α :=
  ((do let a ← read; finish; return a : Decoder α) (Cursor.start data)).1

end Decoder

end Wager
