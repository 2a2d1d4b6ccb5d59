import Wager.Chain.Opcode
import Wager.Chain.ScriptNumber
import Wager.Crypto.Digest
import Wager.Keys.PublicKey
import Wager.Wire.Encode

/-!
# Scripts

**A script** is a byte string. It is written from pieces (`Script.assemble`) and read as tokens
(`Script.tokens`).

**Kinds.** A script that pays the hash of a key or of a script has one exact form, and its kind
carries the hash; everything else is of no standard kind.

**Pushes.** Data is pushed in the shortest form for its length, and at most 520 bytes of it.
-/

namespace Wager

structure Script where
  bytes : Bytes
deriving DecidableEq

namespace Script

def empty : Script := ⟨[]⟩

def isEmpty (s : Script) : Bool := s.bytes.isEmpty

def size (s : Script) : Nat := s.bytes.length

/-- The hash that stands for the script in an output that pays it. -/
def hash (s : Script) : Hash160 := hash160 s.bytes

/-! ## Standard forms -/

/-- What an output with this script pays. -/
inductive Kind
  | key (hash : Hash160)
  | script (hash : Hash160)
  | other
deriving DecidableEq

/-- The block in front of exactly this ending. -/
def blockBefore? (ending data : Bytes) : Option Hash160 :=
  if data.drop 20 = ending then block? 20 (data.take 20) else none

def kind (s : Script) : Kind :=
  match s.bytes with
  | Opcode.dup :: Opcode.hash160 :: 20 :: rest =>
    ((blockBefore? [Opcode.equalVerify, Opcode.checkSig] rest).map .key).getD .other
  | Opcode.hash160 :: 20 :: rest => ((blockBefore? [Opcode.equal] rest).map .script).getD .other
  | _ => .other

def payToKey (hash : Hash160) : Script :=
  ⟨[Opcode.dup, Opcode.hash160, 20] ++ hash.toList ++ [Opcode.equalVerify, Opcode.checkSig]⟩

def payToScript (hash : Hash160) : Script :=
  ⟨[Opcode.hash160, 20] ++ hash.toList ++ [Opcode.equal]⟩

def payToAddress (a : Address) : Script :=
  match a.payee with
  | .key => payToKey a.hash
  | .script => payToScript a.hash

/-- The script of an output that this script redeems. -/
def wrapped (s : Script) : Script := payToScript s.hash

/-- The hash in an output that pays a script. -/
def committedHash (s : Script) : Outcome Hash160 :=
  match s.kind with
  | .script hash => .ok hash
  | _ => inconsistent (.notScriptHash s.bytes)

/-! ## Assembly -/

/-- The largest element that a script may push. -/
def maxPush : Nat := 520

/-- The shortest push of a byte string. -/
def encodePush (data : Bytes) : Outcome Bytes :=
  let n := data.length
  if n ≤ 75 then .ok (UInt8.ofNat n :: data)
  else if n ≤ 255 then .ok (Opcode.pushData1 :: UInt8.ofNat n :: data)
  else if n ≤ maxPush then .ok (Opcode.pushData2 :: littleEndian 2 n ++ data)
  else malformed (.oversizedPush n)

/-- A part of a script under construction. -/
inductive Piece
  | op (code : UInt8)
  | push (data : Bytes)
  | splice (script : Script)
deriving DecidableEq

namespace Piece

def bytes : Piece → Outcome Bytes
  | .op code => .ok [code]
  | .push data => encodePush data
  | .splice script => .ok script.bytes

/-- The shortest push of a number. -/
def int (value : Int) : Piece :=
  if value = 0 then .op Opcode.op0
  else if value = -1 then .op Opcode.negate1
  else if 1 ≤ value ∧ value ≤ 16 then .op (Opcode.op1 + UInt8.ofNat value.toNat - 1)
  else .push (ScriptNumber.encode value)

def key (k : PublicKey) : Piece := .push k.bytes

/-- A branch selector. -/
def flag (value : Bool) : Piece := .op (if value then Opcode.op1 else Opcode.op0)

/-- Fails the spend until the relative lock with this sequence number has passed. -/
def relativeLock (sequence : UInt32) : List Piece :=
  [int sequence.toNat, .op Opcode.checkSequenceVerify, .op Opcode.drop]

/-- Counts the preimages on the stack that open `hashes`, the one for the first hash being on
top, and fails the spend if fewer than `required` do. An empty item stands for a missing preimage
and opens nothing. -/
def threshold (hashes : List Hash160) (required : UInt64) : List Piece :=
  .op Opcode.op0 ::
    hashes.flatMap (fun hash =>
      [.op Opcode.swap, .op Opcode.hash160, .push hash.toList, .op Opcode.equal,
       .op Opcode.add]) ++
    [int required.toInt64.toInt, .op Opcode.greaterOrEqual, .op Opcode.verify]

end Piece

/-- The script of the pieces in order, or the fault of the first that has no bytes. -/
def assemble (pieces : List Piece) : Outcome Script := do
  return ⟨(← pieces.mapM Piece.bytes).flatten⟩

/-- `required` of the keys have to sign. -/
def multisig (required : Nat) (keys : List PublicKey) : Outcome Script :=
  if required = 0 ∨ keys.length < required then
    malformed (.multisigThreshold keys.length required)
  else if 16 < keys.length then malformed (.multisigKeys keys.length)
  else assemble <| Piece.int required :: keys.map .key ++
    [.int keys.length, .op Opcode.checkMultisig]

/-- An unspendable output that carries data. -/
def carrying (data : Bytes) : Outcome Script := assemble [.op Opcode.opReturn, .push data]

/-- The first key has to sign, and the second too unless a relative lock has passed. -/
def signatureOrLock (first second : PublicKey) (sequence : UInt32) : Outcome Script :=
  assemble <|
    [.op Opcode.opIf, .key second, .op Opcode.checkSigVerify, .op Opcode.opElse] ++
    Piece.relativeLock sequence ++
    [.op Opcode.endIf, .key first, .op Opcode.checkSig]

/-! ## Tokens -/

inductive Token
  | push (data : Bytes)
  | op (code : UInt8)
deriving DecidableEq

namespace Token

def name : Token → String
  | .push data => s!"OP_PUSH_{data.length}_bytes"
  | .op code => (Opcode.name? code).getD "OP_UNKNOWN"

def payload? : Token → Option Bytes
  | .push data => some data
  | .op _ => none

def text : Token → String
  | .push data => (Token.push data).name ++ " " ++ hexText data
  | .op code => (Token.op code).name

/-- Reads one token: a push with its data, or a named opcode. -/
def decoder : Decoder Token := do
  let code ← Decoder.u8
  if 0x01 ≤ code && code ≤ 0x4b then return .push (← Decoder.bytes code.toNat)
  else if code = Opcode.pushData1 then return .push (← Decoder.bytes (← Decoder.u8).toNat)
  else if code = Opcode.pushData2 then return .push (← Decoder.bytes (← Decoder.u16).toNat)
  else if code = Opcode.pushData4 then return .push (← Decoder.bytes (← Decoder.u32).toNat)
  else if (Opcode.name? code).isSome then return .op code
  else throw (.malformed (.unknownOpcode code ((← get).position - 1)))

/-- Reads tokens to the end, at most `fuel` of them. -/
def decoderAll : (fuel : Nat) → Decoder (List Token)
  | 0 => pure []
  | fuel + 1 => do
    if (← get).isAtEnd then return []
    let token ← decoder
    return token :: (← decoderAll fuel)

end Token

/-- The tokens of the script. Each takes at least a byte. -/
def tokens (s : Script) : Outcome (List Token) :=
  (Token.decoderAll s.size (Cursor.start s.bytes)).1

/-- The tokens as text. -/
def asm (s : Script) : Outcome String :=
  return " ".intercalate ((← s.tokens).map Token.text)

/-- The tokens as text, or the bytes of a script that has none. -/
def text (s : Script) : String :=
  match s.asm with
  | .ok text => text
  | .error _ => hexText s.bytes

/-- The data that an unspendable output carries. -/
def carried? (s : Script) : Option Bytes :=
  match s.tokens with
  | .ok [.op Opcode.opReturn, .push data] => some data
  | _ => none

/-! ## Encoding -/

/-- The script behind its length. -/
def encode (s : Script) : Bytes := Encode.sized s.bytes

def decoder : Decoder Script := do return ⟨← Decoder.sized⟩

def decode (data : Bytes) : Outcome Script := decoder.decodeAll data

end Script

end Wager
