import Wager.Crypto.Digest
import Wager.Wire.Decoder

/-!
# Base58Check

**Base 58.** A byte string is read as a number and written with 58 digits; a leading zero byte is
written as one leading `1`, so that no byte is lost.

**The check.** The payload is followed by the first four bytes of its double SHA-256, and text
whose last four bytes differ from that is refused.
-/

namespace Wager.Base58

def alphabet : List Char :=
  ['1', '2', '3', '4', '5', '6', '7', '8', '9', 'A', 'B', 'C', 'D', 'E', 'F', 'G', 'H', 'J', 'K',
   'L', 'M', 'N', 'P', 'Q', 'R', 'S', 'T', 'U', 'V', 'W', 'X', 'Y', 'Z', 'a', 'b', 'c', 'd', 'e',
   'f', 'g', 'h', 'i', 'j', 'k', 'm', 'n', 'o', 'p', 'q', 'r', 's', 't', 'u', 'v', 'w', 'x', 'y',
   'z']

def digitChar (d : Nat) : Char := alphabet.getD d '1'

def digitValue? (c : Char) : Option Nat := alphabet.findIdx? (· == c)

/-- The digits of a number in a base of at least two, most significant first; none for zero. -/
def digits (base : Nat) (n : Nat) (acc : List Nat) : List Nat :=
  if n = 0 ∨ base < 2 then acc
  else digits base (n / base) (n % base :: acc)
termination_by n
decreasing_by exact Nat.div_lt_self (by omega) (by omega)

def encode (data : Bytes) : String :=
  let zeros := data.takeWhile (· == 0)
  String.ofList
    (zeros.map (fun _ => '1') ++ (digits 58 (ofBigEndian data) []).map digitChar)

/-- The values of the characters, the first of which starts at `position`. -/
def values (position : Nat) : List Char → Outcome (List Nat)
  | [] => .ok []
  | c :: rest =>
    if 0x7f < c.toNat then malformed (.base58NonAscii position)
    else do
      let v ← need (.malformed (.base58Character c position)) (digitValue? c)
      return v :: (← values (position + 1) rest)

def decode (text : String) : Outcome Bytes := do
  let vs ← values 0 text.toList
  let zeros := vs.takeWhile (· == 0)
  return zeros.map (fun _ => 0) ++
    (digits 256 (vs.foldl (fun n v => 58 * n + v) 0) []).map UInt8.ofNat

/-! ## The check -/

def checksum (payload : Bytes) : Bytes := (doubleSha256 payload).toList.take 4

def encodeCheck (payload : Bytes) : String := encode (payload ++ checksum payload)

def decodeCheck (text : String) : Outcome Bytes := do
  let data ← decode text
  if data.length < 4 then malformed .checksumMissing
  else
    let payload := data.take (data.length - 4)
    if data.drop (data.length - 4) = checksum payload then return payload
    else malformed .checksumMismatch

end Wager.Base58
