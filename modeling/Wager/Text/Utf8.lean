import Wager.Wire.Bytes

/-!
# Checked UTF-8

A byte string is accepted when it is the encoding of some text. Otherwise the fault tells where
the first bad sequence starts and, unless the data merely ends too early, how many bytes of it
can be skipped before decoding makes sense again.
-/

namespace Wager

/-- Why a byte string is no UTF-8 text. -/
inductive Utf8Fault
  | invalid (size index : Nat)
  | incomplete (index : Nat)
deriving DecidableEq, Repr

def Utf8Fault.message : Utf8Fault → String
  | .invalid size index => s!"invalid utf-8 sequence of {size} bytes from index {index}"
  | .incomplete index => s!"incomplete utf-8 byte sequence from index {index}"

namespace Utf8

def isContinuation (b : UInt8) : Bool := 0x80 ≤ b && b ≤ 0xbf

/-- The number of bytes after a lead byte. -/
def following (lead : UInt8) : Option Nat :=
  if lead < 0x80 then some 0
  else if lead < 0xc2 then none
  else if lead < 0xe0 then some 1
  else if lead < 0xf0 then some 2
  else if lead < 0xf5 then some 3
  else none

/-- Whether a byte may come second. Overlong forms, surrogates and numbers beyond the last code
point show in the second byte. -/
def isSecond (lead b : UInt8) : Bool :=
  if lead = 0xe0 then 0xa0 ≤ b && b ≤ 0xbf
  else if lead = 0xed then 0x80 ≤ b && b ≤ 0x9f
  else if lead = 0xf0 then 0x90 ≤ b && b ≤ 0xbf
  else if lead = 0xf4 then 0x80 ≤ b && b ≤ 0x8f
  else isContinuation b

/-- The payload of a lead byte with `n` bytes after it. -/
def leadBits (lead : UInt8) (n : Nat) : Nat :=
  if n = 0 then lead.toNat else lead.toNat % (1 <<< (6 - n))

/-- Reads the `want` remaining bytes of a sequence; `seen` of its bytes are read. -/
def tail (lead : UInt8) (index : Nat) :
    (want seen value : Nat) → Bytes → Except Utf8Fault (Nat × Bytes)
  | 0, _, value, rest => .ok (value, rest)
  | _ + 1, _, _, [] => .error (.incomplete index)
  | want + 1, seen, value, b :: rest =>
    if (if seen = 1 then isSecond lead b else isContinuation b) then
      tail lead index want (seen + 1) (value * 64 + b.toNat % 64) rest
    else .error (.invalid seen index)

/-- Decodes at most `fuel` characters, the first of which starts at `index`. -/
def decodeFrom : (fuel index : Nat) → Bytes → Except Utf8Fault (List Char)
  | 0, _, _ => .ok []
  | _ + 1, _, [] => .ok []
  | fuel + 1, index, lead :: rest =>
    match following lead with
    | none => .error (.invalid 1 index)
    | some n => do
      let (value, rest) ← tail lead index n 1 (leadBits lead n) rest
      return Char.ofNat value :: (← decodeFrom fuel (index + n + 1) rest)

/-- The text a byte string encodes. -/
def decode (data : Bytes) : Except Utf8Fault String :=
  String.ofList <$> decodeFrom data.length 0 data

/-- The bytes of a text. -/
def encode (text : String) : Bytes := text.toList.flatMap String.utf8EncodeChar

end Utf8

end Wager
