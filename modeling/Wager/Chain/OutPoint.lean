import Wager.Wire.Bytes

/-!
# References to outputs

A transaction is named by its digest written backwards; inside other transactions the digest
stands in its own order. An output is named by its transaction and its place there.
-/

namespace Wager

/-- A transaction id, in the order in which it is shown. -/
structure Txid where
  shown : Hash256
deriving DecidableEq

namespace Txid

/-- The id of the transaction with this digest. -/
def ofDigest (digest : Hash256) : Txid := ⟨digest.reverse⟩

/-- The bytes that stand in an input. -/
def wire (id : Txid) : Hash256 := id.shown.reverse

@[simp] theorem ofDigest_wire (id : Txid) : ofDigest id.wire = id := by
  simp [ofDigest, wire]

@[simp] theorem wire_ofDigest (digest : Hash256) : (ofDigest digest).wire = digest := by
  simp [ofDigest, wire]

def text (id : Txid) : String := hexText id.shown.toList

end Txid

structure OutPoint where
  txid : Txid
  index : UInt32
deriving DecidableEq

def OutPoint.text (o : OutPoint) : String := s!"{o.txid.text}:{o.index.toNat}"

end Wager
