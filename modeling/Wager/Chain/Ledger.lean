import Wager.Chain.Transaction

/-!
# The ledger

What the protocol asks of a ledger: the coins of an address, and a transaction by its id.

**Selection** (`Coin.select`). A payment is covered with as few coins as possible by taking the
largest first; coins of equal value go by their transaction ids.
-/

namespace Wager

structure Ledger where
  unspent : Address → Outcome (List Coin)
  transaction : Txid → Outcome (Option Transaction)

namespace Coin

/-- The sum of two values, or the greatest value if it is larger. -/
def saturatingAdd (a b : UInt64) : UInt64 := (Sats.add? a b).getD 0xffffffffffffffff

/-- Whether a coin may stand before another in the order of selection. -/
def before (a b : Coin) : Bool :=
  if a.output.value = b.output.value then
    ofBigEndian a.outpoint.txid.shown.toList ≤ ofBigEndian b.outpoint.txid.shown.toList
  else b.output.value < a.output.value

/-- Takes coins until `total` reaches `amount`; gives what was taken and its total. -/
def takeUntil (amount total : UInt64) : List Coin → List Coin × UInt64
  | [] => ([], total)
  | coin :: rest =>
    if amount ≤ total then ([], total)
    else
      let (taken, total) := takeUntil amount (saturatingAdd total coin.output.value) rest
      (coin :: taken, total)

/-- The largest coins that cover `amount`. -/
def select (coins : List Coin) (amount : UInt64) : Outcome (List Coin) :=
  let (taken, total) := takeUntil amount 0 (coins.mergeSort before)
  if total < amount then .error (.insufficientFunds amount total) else .ok taken

end Coin

namespace Ledger

/-- Coins of the address worth at least `amount`. -/
def fund (ledger : Ledger) (address : Address) (amount : UInt64) : Outcome (List Coin) := do
  Coin.select (← ledger.unspent address) amount

/-- The transaction with this id; none, or another, is a failure of the ledger. -/
def fetch (ledger : Ledger) (txid : Txid) : Outcome Transaction := do
  match ← ledger.transaction txid with
  | none => throw (.collaborator (.unknownTransaction txid))
  | some tx =>
    if tx.txid = txid then return tx
    else throw (.collaborator (.otherTransaction tx.txid txid))

end Ledger

end Wager
