import Wager.Wire.Decoder

/-!
# Reading hexadecimal text

Digits of either case, two a byte. The text is read as its UTF-8 bytes: a character that is no
digit is reported by the first byte that is none.
-/

namespace Wager.Hex

def digit? (b : UInt8) : Option UInt8 :=
  if 48 ≤ b && b ≤ 57 then some (b - 48)
  else if 65 ≤ b && b ≤ 70 then some (b - 55)
  else if 97 ≤ b && b ≤ 102 then some (b - 87)
  else none

/-- The value of one digit, or the fault of its not being one. -/
def digit (b : UInt8) (position : Nat) : Outcome UInt8 :=
  need (.malformed (.hexDigit b position)) (digit? b)

/-- Reads pairs of digits, the first of which stands at `position`. -/
def pairs (position : Nat) : Bytes → Outcome Bytes
  | a :: b :: rest => do
    let high ← digit a position
    let low ← digit b (position + 1)
    return (high * 16 + low) :: (← pairs (position + 2) rest)
  | _ => .ok []

def parse (text : String) : Outcome Bytes :=
  let data := Utf8.encode text
  if data.length % 2 = 1 then malformed (.hexLength data.length) else pairs 0 data

/-- A block of `n` bytes. -/
def parseBlock (n : Nat) (text : String) : Outcome (Vector UInt8 n) := do
  Decoder.exactly n (← parse text)

end Hex

def Txid.parse (text : String) : Outcome Txid := Txid.mk <$> Hex.parseBlock 32 text

end Wager
