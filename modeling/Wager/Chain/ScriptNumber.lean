import Wager.Wire.Bytes

/-!
# Script numbers

A number is its magnitude, least significant byte first, with the sign in the top bit of the
last byte. A byte is added for the sign only when the magnitude already uses that bit. Zero is
the empty string.
-/

namespace Wager.ScriptNumber

/-- The bytes of a natural number up to the last that is not zero. -/
def magnitude (n : Nat) : Bytes :=
  if n = 0 then [] else UInt8.ofNat n :: magnitude (n / 256)
termination_by n
decreasing_by exact Nat.div_lt_self (by omega) (by omega)

/-- Puts the sign into the last byte, or behind it. -/
def withSign (negative : Bool) : Bytes → Bytes
  | [] => []
  | [last] =>
    let sign := if negative then 0x80 else 0
    if last < 0x80 then [last + sign] else [last, sign]
  | b :: c :: rest => b :: withSign negative (c :: rest)

def encode (value : Int) : Bytes := withSign (value < 0) (magnitude value.natAbs)

/-- The number that a byte string stands for, minimal or not. -/
def decode : Bytes → Int
  | [] => 0
  | [last] => if last < 0x80 then last.toNat else -((last.toNat : Int) - 128)
  | b :: c :: rest =>
    let high := 256 * decode (c :: rest)
    if (c :: rest).getLast (by simp) < 0x80 then high + b.toNat else high - b.toNat

end Wager.ScriptNumber
