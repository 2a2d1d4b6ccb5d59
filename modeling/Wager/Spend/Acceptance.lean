import Wager.Chain.Machine
import Wager.Spend.Signer

/-!
# Accepted spends

An output that pays a script is redeemed by an input whose unlocking script only pushes, and
pushes the redeem script last. The items below it have to satisfy the redeem script
(`Transaction.redeems`), for which a signature counts when it signs this input of the
transaction, with the redeem script as its code.
-/

namespace Wager.Transaction

/-- Whether a signature signs an input under the key with these bytes, which may belong to any
network. -/
def signs (tx : Transaction) (index : Nat) (code : Script) (key signature : Bytes) : Bool :=
  match PublicKey.ofBytes .mainnet key with
  | .ok key =>
    match key.verifyInput (.ofTransaction tx) index code signature with
    | .ok valid => valid
    | .error _ => false
  | .error _ => false

/-- What a redeem script can ask about the spend by an input with this sequence number. -/
def context (tx : Transaction) (index : Nat) (sequence : UInt32) (redeem : Script) :
    Script.Context where
  version := tx.version
  sequence := sequence
  signs := tx.signs index redeem

/-- Whether an input satisfies the redeem script. -/
def redeems (tx : Transaction) (index : Nat) (redeem : Script) : Bool :=
  match tx.inputs[index]? with
  | none => false
  | some input =>
    match input.unlocking.pushed? with
    | some (last :: stack) =>
      last = redeem.bytes && redeem.accepts (tx.context index input.sequence redeem) stack
    | _ => false

end Wager.Transaction
