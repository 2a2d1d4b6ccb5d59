import Wager.Chain.Script
import Wager.Checked
import Wager.Text.Hex

/-!
# Transactions

A transaction spends outputs of earlier ones, each with an unlocking script, and creates outputs
of its own. On the wire it is version, counted inputs, counted outputs and lock time; its id is
the double SHA-256 of that.

**Coins.** An output together with its reference is what a later transaction can spend.
-/

namespace Wager

structure Input where
  prevout : OutPoint
  unlocking : Script
  sequence : UInt32
deriving DecidableEq

structure Output where
  value : UInt64
  locking : Script
deriving DecidableEq

/-- A spendable output. -/
structure Coin where
  outpoint : OutPoint
  output : Output
deriving DecidableEq

structure Transaction where
  version : UInt32
  inputs : List Input
  outputs : List Output
  lockTime : UInt32
deriving DecidableEq

namespace OutPoint

def encode (o : OutPoint) : Bytes := o.txid.wire.toList ++ Encode.u32 o.index

def decoder : Decoder OutPoint := do
  let digest ← Decoder.block 32
  return ⟨.ofDigest digest, ← Decoder.u32⟩

end OutPoint

namespace Input

def encode (i : Input) : Bytes :=
  i.prevout.encode ++ i.unlocking.encode ++ Encode.u32 i.sequence

def decoder : Decoder Input := do
  let prevout ← OutPoint.decoder
  let unlocking ← Script.decoder
  return ⟨prevout, unlocking, ← Decoder.u32⟩

end Input

namespace Output

def encode (o : Output) : Bytes := Encode.u64 o.value ++ o.locking.encode

def decoder : Decoder Output := do
  let value ← Decoder.u64
  return ⟨value, ← Script.decoder⟩

def decode (data : Bytes) : Outcome Output := decoder.decodeAll data

/-- The sum of the values. -/
def total (outputs : List Output) : Outcome UInt64 :=
  need (.malformed (.overflow .outputs)) (Sats.sum? (outputs.map (·.value)))

end Output

namespace Transaction

def encode (tx : Transaction) : Bytes :=
  Encode.u32 tx.version ++
    (Encode.count tx.inputs.length ++ (tx.inputs.flatMap Input.encode ++
      (Encode.count tx.outputs.length ++ (tx.outputs.flatMap Output.encode ++
        Encode.u32 tx.lockTime))))

/-- Reads a transaction. No input and then a one would be the marker of the form with witnesses,
which is refused. -/
def decoder : Decoder Transaction := do
  let version ← Decoder.u32
  let inputs ← Decoder.length
  if inputs = 0 ∧ (← get).rest.head? = some 1 then throw (.malformed .witness)
  let inputs ← Decoder.repeated Input.decoder inputs
  let outputs ← Decoder.counted Output.decoder
  return ⟨version, inputs, outputs, ← Decoder.u32⟩

def decode (data : Bytes) : Outcome Transaction := decoder.decodeAll data

def parse (text : String) : Outcome Transaction := do decode (← Hex.parse text)

def txid (tx : Transaction) : Txid := .ofDigest (doubleSha256 tx.encode)

def size (tx : Transaction) : Nat := tx.encode.length

def output (tx : Transaction) (index : Nat) : Outcome Output :=
  match tx.outputs[index]? with
  | some output => .ok output
  | none => inconsistent (.missingOutput tx.txid index)

/-- The output at `index` as something to spend. -/
def coin (tx : Transaction) (index : Nat) : Outcome Coin := do
  let output ← tx.output index
  return ⟨⟨tx.txid, UInt32.ofNat index⟩, output⟩

end Transaction

end Wager
