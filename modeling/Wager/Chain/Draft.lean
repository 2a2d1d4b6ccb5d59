import Wager.Chain.Transaction

/-!
# Drafts

A draft is a transaction under construction: its inputs may still lack their unlocking scripts,
and its values may still change. `finish` makes it a transaction once no script is missing.

**What is signed.** A signature of an input covers the draft with every unlocking script left
out, except that the script code stands in the place of the one being signed.
-/

namespace Wager

structure DraftInput where
  prevout : OutPoint
  sequence : UInt32
  unlocking : Option Script
deriving DecidableEq

structure Draft where
  version : UInt32
  inputs : List DraftInput
  outputs : List Output
  lockTime : UInt32
deriving DecidableEq

namespace Draft

/-- Relative locks need version 2. -/
def currentVersion : UInt32 := 2

def new (version : UInt32) : Draft := ⟨version, [], [], 0⟩

def addInput (d : Draft) (prevout : OutPoint) (sequence : UInt32) : Draft :=
  { d with inputs := d.inputs ++ [⟨prevout, sequence, none⟩] }

def addOutput (d : Draft) (output : Output) : Draft := { d with outputs := d.outputs ++ [output] }

/-- The transaction with the unlocking script that `script` gives each input by its place. -/
def withScripts (d : Draft) (script : Nat → DraftInput → Script) : Transaction where
  version := d.version
  inputs := d.inputs.mapIdx fun i input => ⟨input.prevout, script i input, input.sequence⟩
  outputs := d.outputs
  lockTime := d.lockTime

/-- The encoding with the scripts assigned so far; a missing one is written empty. -/
def encode (d : Draft) : Bytes :=
  (d.withScripts fun _ input => input.unlocking.getD .empty).encode

def size (d : Draft) : Nat := d.encode.length

/-- The draft of a transaction, in which an empty unlocking script is a missing one. -/
def ofTransaction (tx : Transaction) : Draft where
  version := tx.version
  inputs := tx.inputs.map fun input =>
    ⟨input.prevout, input.sequence, if input.unlocking.isEmpty then none else some input.unlocking⟩
  outputs := tx.outputs
  lockTime := tx.lockTime

def decode (data : Bytes) : Outcome Draft := ofTransaction <$> Transaction.decode data

/-- Assigns one unlocking script. -/
def setUnlocking (d : Draft) (index : Nat) (script : Script) : Outcome Draft :=
  if index < d.inputs.length then
    .ok { d with inputs := d.inputs.modify index fun input =>
            { input with unlocking := some script } }
  else malformed (.noInput index)

/-- The bytes that a signature of an input covers. -/
def signedBytes (d : Draft) (index : Nat) (code : Script) (hashType : UInt8) : Bytes :=
  (d.withScripts fun i _ => if i = index then code else .empty).encode ++
    Encode.u32 hashType.toUInt32

/-- The digest that a signature of an input signs. -/
def digest (d : Draft) (index : Nat) (code : Script) (hashType : UInt8) : Outcome Hash256 :=
  if index < d.inputs.length then .ok (doubleSha256 (d.signedBytes index code hashType))
  else malformed (.signedInput index d.inputs.length)

/-- Freezes the inputs, the first of which stands at `index`. -/
def freeze (index : Nat) : List DraftInput → Outcome (List Input)
  | [] => .ok []
  | input :: rest =>
    match input.unlocking with
    | none => inconsistent (.lockedInput index)
    | some script => return ⟨input.prevout, script, input.sequence⟩ :: (← freeze (index + 1) rest)

/-- The transaction, if every input has its unlocking script. -/
def finish (d : Draft) : Outcome Transaction := do
  return ⟨d.version, ← freeze 0 d.inputs, d.outputs, d.lockTime⟩

end Draft

end Wager
