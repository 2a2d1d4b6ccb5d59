import Wager.Fault

/-!
# Opcodes

Script opcodes by byte and by name. The bytes `0x01` to `0x4b` are direct pushes and have no
name; from `0xba` on no byte means anything.
-/

namespace Wager.Opcode

@[match_pattern] def op0 : UInt8 := 0x00
@[match_pattern] def pushData1 : UInt8 := 0x4c
@[match_pattern] def pushData2 : UInt8 := 0x4d
@[match_pattern] def pushData4 : UInt8 := 0x4e
@[match_pattern] def negate1 : UInt8 := 0x4f
@[match_pattern] def op1 : UInt8 := 0x51
@[match_pattern] def opIf : UInt8 := 0x63
@[match_pattern] def notIf : UInt8 := 0x64
@[match_pattern] def opElse : UInt8 := 0x67
@[match_pattern] def endIf : UInt8 := 0x68
@[match_pattern] def verify : UInt8 := 0x69
@[match_pattern] def opReturn : UInt8 := 0x6a
@[match_pattern] def drop : UInt8 := 0x75
@[match_pattern] def dup : UInt8 := 0x76
@[match_pattern] def swap : UInt8 := 0x7c
@[match_pattern] def equal : UInt8 := 0x87
@[match_pattern] def equalVerify : UInt8 := 0x88
@[match_pattern] def add : UInt8 := 0x93
@[match_pattern] def boolOr : UInt8 := 0x9b
@[match_pattern] def greaterOrEqual : UInt8 := 0xa2
@[match_pattern] def hash160 : UInt8 := 0xa9
@[match_pattern] def checkSig : UInt8 := 0xac
@[match_pattern] def checkSigVerify : UInt8 := 0xad
@[match_pattern] def checkMultisig : UInt8 := 0xae
@[match_pattern] def checkSequenceVerify : UInt8 := 0xb2

/-! ## Names -/

/-- The first named byte after `OP_0`. -/
def firstNamed : UInt8 := 0x4c

/-- The names of the bytes from `firstNamed` on. -/
def names : List String := [
  "OP_PUSHDATA1", "OP_PUSHDATA2", "OP_PUSHDATA4", "OP_1NEGATE", "OP_RESERVED",
  "OP_1", "OP_2", "OP_3", "OP_4", "OP_5", "OP_6", "OP_7", "OP_8",
  "OP_9", "OP_10", "OP_11", "OP_12", "OP_13", "OP_14", "OP_15", "OP_16",
  "OP_NOP", "OP_VER", "OP_IF", "OP_NOTIF", "OP_VERIF", "OP_VERNOTIF", "OP_ELSE", "OP_ENDIF",
  "OP_VERIFY", "OP_RETURN",
  "OP_TOALTSTACK", "OP_FROMALTSTACK", "OP_2DROP", "OP_2DUP", "OP_3DUP", "OP_2OVER", "OP_2ROT",
  "OP_2SWAP", "OP_IFDUP", "OP_DEPTH", "OP_DROP", "OP_DUP", "OP_NIP", "OP_OVER", "OP_PICK",
  "OP_ROLL", "OP_ROT", "OP_SWAP", "OP_TUCK",
  "OP_CAT", "OP_SUBSTR", "OP_LEFT", "OP_RIGHT", "OP_SIZE",
  "OP_INVERT", "OP_AND", "OP_OR", "OP_XOR", "OP_EQUAL", "OP_EQUALVERIFY", "OP_RESERVED1",
  "OP_RESERVED2",
  "OP_1ADD", "OP_1SUB", "OP_2MUL", "OP_2DIV", "OP_NEGATE", "OP_ABS", "OP_NOT", "OP_0NOTEQUAL",
  "OP_ADD", "OP_SUB", "OP_MUL", "OP_DIV", "OP_MOD", "OP_LSHIFT", "OP_RSHIFT", "OP_BOOLAND",
  "OP_BOOLOR", "OP_NUMEQUAL", "OP_NUMEQUALVERIFY", "OP_NUMNOTEQUAL", "OP_LESSTHAN",
  "OP_GREATERTHAN", "OP_LESSTHANOREQUAL", "OP_GREATERTHANOREQUAL", "OP_MIN", "OP_MAX",
  "OP_WITHIN",
  "OP_RIPEMD160", "OP_SHA1", "OP_SHA256", "OP_HASH160", "OP_HASH256", "OP_CODESEPARATOR",
  "OP_CHECKSIG", "OP_CHECKSIGVERIFY", "OP_CHECKMULTISIG", "OP_CHECKMULTISIGVERIFY",
  "OP_NOP1", "OP_CHECKLOCKTIMEVERIFY", "OP_CHECKSEQUENCEVERIFY", "OP_NOP4", "OP_NOP5", "OP_NOP6",
  "OP_NOP7", "OP_NOP8", "OP_NOP9", "OP_NOP10"]

/-- Second names, with the byte each stands for. -/
def aliases : List (String × UInt8) :=
  [("OP_FALSE", 0x00), ("OP_TRUE", 0x51), ("OP_NOP2", 0xb1), ("OP_NOP3", 0xb2)]

def name? (code : UInt8) : Option String :=
  if code = op0 then some "OP_0"
  else if code < firstNamed then none
  else names[(code - firstNamed).toNat]?

def ofName? (name : String) : Option UInt8 :=
  if name = "OP_0" then some op0
  else ((names.findIdx? (· == name)).map fun i => firstNamed + UInt8.ofNat i).or
    ((aliases.find? (·.1 == name)).map (·.2))

/-- The opcode that pushes a number from 0 to 16. -/
def ofSmall? (n : UInt8) : Option UInt8 :=
  if n = 0 then some op0 else if n ≤ 16 then some (op1 + n - 1) else none

end Wager.Opcode
