/-!
# Byte strings

Byte strings are lists, so that every encoding below can be reasoned about by induction.

**Words.** A number is written in a fixed number of bytes, least significant first
(`littleEndian`) or most significant first (`bigEndian`).

**Blocks.** Hashes and identifiers have a length that is part of their type.
-/

namespace Wager

abbrev Bytes := List UInt8

/-- The image of `HASH160`. -/
abbrev Hash160 := Vector UInt8 20

/-- The image of SHA-256, single or double. -/
abbrev Hash256 := Vector UInt8 32

/-! ## Words -/

/-- The low `width` bytes of `value`, least significant first. -/
def littleEndian : (width value : Nat) → Bytes
  | 0, _ => []
  | width + 1, value => UInt8.ofNat value :: littleEndian width (value / 256)

def ofLittleEndian : Bytes → Nat
  | [] => 0
  | b :: rest => b.toNat + 256 * ofLittleEndian rest

def bigEndian (width value : Nat) : Bytes := (littleEndian width value).reverse

def ofBigEndian (data : Bytes) : Nat := data.foldl (fun n b => 256 * n + b.toNat) 0

@[simp] theorem length_littleEndian (width value : Nat) :
    (littleEndian width value).length = width := by
  induction width generalizing value with
  | zero => rfl
  | succ width ih => simp [littleEndian, ih]

/-! ## Blocks -/

/-- The byte string as a block of `n` bytes, if it has that length. -/
def block? (n : Nat) (data : Bytes) : Option (Vector UInt8 n) :=
  if h : data.length = n then some ⟨data.toArray, by simpa using h⟩ else none

theorem block?_toList {n : Nat} (v : Vector UInt8 n) : block? n v.toList = some v := by
  simp [block?, Vector.toList]

theorem block?_eq_some {n : Nat} {data : Bytes} {v : Vector UInt8 n} :
    block? n data = some v ↔ data = v.toList := by
  constructor
  · intro h
    unfold block? at h
    split at h
    · obtain rfl := Option.some.inj h
      simp [Vector.toList]
    · cases h
  · intro h
    rw [h, block?_toList]

/-! ## Upper-case hexadecimal text -/

def hexDigit (n : UInt8) : Char :=
  Char.ofNat (if n < 10 then 48 + n.toNat else 55 + n.toNat)

def hexChars : Bytes → List Char
  | [] => []
  | b :: rest => hexDigit (b / 16) :: hexDigit (b % 16) :: hexChars rest

/-- Two upper-case digits a byte. -/
def hexText (data : Bytes) : String := String.ofList (hexChars data)

end Wager
