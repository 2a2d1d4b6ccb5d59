import Wager.Chain.Script

/-!
# The grammar of scripts

A push may be spelled in up to four ways, by the width of the length in front of it, and an
opcode in one. A script spells a list of tokens when it is one spelling of each, in a row; the
list is then determined by the script, but not the script by the list.

A script that is assembled from pieces spells the tokens of each piece (`Piece.tokens`).
-/

namespace Wager.Script

/-- The bytes spell the token. -/
inductive Token.Spells : Token → Bytes → Prop
  /-- The length is the opcode. The empty push has another opcode and counts as one. -/
  | direct {data : Bytes} : 1 ≤ data.length → data.length ≤ 75 →
      Spells (.push data) (UInt8.ofNat data.length :: data)
  | short {data : Bytes} : data.length < UInt8.size →
      Spells (.push data) (Opcode.pushData1 :: (littleEndian 1 data.length ++ data))
  | medium {data : Bytes} : data.length < UInt16.size →
      Spells (.push data) (Opcode.pushData2 :: (littleEndian 2 data.length ++ data))
  | long {data : Bytes} : data.length < UInt32.size →
      Spells (.push data) (Opcode.pushData4 :: (littleEndian 4 data.length ++ data))
  | op {code : UInt8} : (Opcode.name? code).isSome → code ≠ Opcode.pushData1 →
      code ≠ Opcode.pushData2 → code ≠ Opcode.pushData4 → Spells (.op code) [code]

/-- The bytes spell the tokens, one after the other. -/
inductive Spells : List Token → Bytes → Prop
  | nil : Spells [] []
  | cons {token : Token} {tokens : List Token} {bytes rest : Bytes} :
      token.Spells bytes → Spells tokens rest → Spells (token :: tokens) (bytes ++ rest)

namespace Spells

theorem singleton {token : Token} {bytes : Bytes} (h : token.Spells bytes) :
    Spells [token] bytes := by
  simpa using cons h nil

theorem append {xs ys : List Token} {bytes rest : Bytes} (hx : Spells xs bytes)
    (hy : Spells ys rest) : Spells (xs ++ ys) (bytes ++ rest) := by
  induction hx with
  | nil => exact hy
  | cons head _ ih => simpa using cons head ih

end Spells

/-! ## Pieces -/

/-- The tokens that a piece adds to a script. -/
def Piece.tokens : Piece → Outcome (List Token)
  | .op code => .ok [.op code]
  | .push data => .ok [if data.isEmpty then .op Opcode.op0 else .push data]
  | .splice script => script.tokens

end Wager.Script
