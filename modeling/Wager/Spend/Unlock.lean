import Wager.Spend.Signer

/-!
# Unlocking inputs

**An unlock** says who signs an input and how its unlocking script is laid out: signature and
key for an output that pays a key; signatures, arguments and the redeem script for one that pays
a script.

**Signing a draft** (`Draft.signInPlace`) goes through the inputs twice: the scripts are assigned
only after every signer has signed.
-/

namespace Wager

/-- The part of a script that pushes or does what the token says. -/
def Script.Token.piece : Script.Token → Script.Piece
  | .push data => .push data
  | .op code => .op code

/-- A branch selector among the arguments of an unlocking script. -/
def Script.Token.flag (value : Bool) : Script.Token :=
  .op (if value then Opcode.op1 else Opcode.op0)

inductive Layout
  | key
  /-- The checking of several signatures takes one item too many off the stack, which `multisig`
  puts there. -/
  | script (redeem : Script) (multisig : Bool) (args : List Script.Token)
deriving DecidableEq

structure Unlock (σ : Type) where
  signers : List (Signer σ)
  layout : Layout

namespace Unlock

variable {σ : Type}

/-- Unlocks an output that pays the signer's key. -/
def byKey (signer : Signer σ) : Unlock σ := ⟨[signer], .key⟩

def byScript (signer : Signer σ) (redeem : Script) (args : List Script.Token) : Unlock σ :=
  ⟨[signer], .script redeem false args⟩

def byMultisig (signers : List (Signer σ)) (redeem : Script) (args : List Script.Token) :
    Unlock σ :=
  ⟨signers, .script redeem true args⟩

/-- The only signer of an output that pays a key. -/
def onlySigner (u : Unlock σ) : Outcome (Signer σ) :=
  match u.signers with
  | [signer] => .ok signer
  | signers => inconsistent (.signerCount signers.length)

/-- The script that the signatures cover. -/
def scriptCode (u : Unlock σ) : Outcome Script :=
  match u.layout with
  | .key => (fun signer => .payToKey signer.publicKey.hash) <$> u.onlySigner
  | .script redeem _ _ => .ok redeem

/-- The unlocking script with these signatures. -/
def script (u : Unlock σ) (signatures : List Bytes) : Outcome Script :=
  match u.layout with
  | .key => do
    let signer ← u.onlySigner
    Script.assemble (signatures.map .push ++ [.key signer.publicKey])
  | .script redeem multisig args =>
    Script.assemble <|
      (if multisig then [.op Opcode.op0] else []) ++ signatures.map .push ++
        args.map Script.Token.piece ++ [.push redeem.bytes]

end Unlock

namespace Draft

variable {σ : Type}

/-- The unlocking scripts of the inputs from `index` on. -/
def unlockingScripts (d : Draft) (index : Nat) : List (Unlock σ) → Exchange σ (List Script)
  | [] => pure []
  | u :: rest => do
    let code ← u.scriptCode
    let signatures ← u.signers.mapM (·.sign d index code)
    let script ← u.script signatures
    return script :: (← d.unlockingScripts (index + 1) rest)

/-- Assigns the scripts to the inputs from `index` on, one after the other. A script without an
input stops the assignment, and what was assigned before stays so. -/
def assignEach (d : Draft) (index : Nat) : List Script → Draft × Outcome Unit
  | [] => (d, .ok ())
  | script :: rest =>
    match d.setUnlocking index script with
    | .ok assigned => assigned.assignEach (index + 1) rest
    | .error fault => (d, .error fault)

/-- Signs every input by the unlock in its place. Gives what has become of the draft, also when
it cannot be signed. -/
def signInPlace (d : Draft) (unlocks : List (Unlock σ)) : StateM σ (Draft × Outcome Unit) := do
  if unlocks.length ≠ d.inputs.length then
    return (d, inconsistent (.unlockCount unlocks.length d.inputs.length))
  match ← (d.unlockingScripts 0 unlocks).run with
  | .ok scripts => return d.assignEach 0 scripts
  | .error fault => return (d, .error fault)

/-- The draft, signed by the unlocks. -/
def signAll (d : Draft) (unlocks : List (Unlock σ)) : Exchange σ Draft := do
  let (signed, outcome) ← d.signInPlace unlocks
  outcome
  return signed

end Draft

end Wager
