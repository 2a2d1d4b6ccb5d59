import Wager.Crypto.Signature
import Wager.Keys.Address

/-!
# Public keys

A public key is a point together with the way it is written and its network. Keys are equal when
all three are: the same point written the other way pays another address.
-/

namespace Wager

structure PublicKey where
  point : Curve.Point
  /-- Whether the key is written in 33 bytes rather than 65. -/
  short : Bool
  network : Network
deriving DecidableEq

namespace PublicKey

def bytes (k : PublicKey) : Bytes := if k.short then k.point.compressed else k.point.uncompressed

/-- Reads a key in either form; its length tells which. -/
def ofBytes (network : Network) (data : Bytes) : Outcome PublicKey :=
  if data.length ≠ 33 ∧ data.length ≠ 65 then malformed (.publicKeyLength data.length)
  else do
    let point ← need (.malformed .publicKey) (Curve.Point.decode? data)
    return ⟨point, data.length = 33, network⟩

def hash (k : PublicKey) : Hash160 := hash160 k.bytes

def address (k : PublicKey) : Address := ⟨k.network, .key, k.hash⟩

/-- Checks a DER signature of a digest. -/
def verify (k : PublicKey) (digest : Hash256) (der : Bytes) : Bool :=
  match Signature.ofDer? der with
  | some sig => sig.verify k.point digest
  | none => false

/-- The key as it stands in an encoding, behind its length. -/
def decoder (network : Network) : Decoder PublicKey := do ofBytes network (← Decoder.sized)

/-- The 65 bytes of a key written in 33. -/
def expand (data : Bytes) : Outcome Bytes :=
  if data.length ≠ 33 then malformed (.compressedLength data.length)
  else Curve.Point.uncompressed <$> need (.malformed .compressedKey) (Curve.Point.decode? data)

/-- The 33 bytes of a key written in 65. -/
def shrink (data : Bytes) : Outcome Bytes :=
  if data.length ≠ 65 then malformed (.uncompressedLength data.length)
  else Curve.Point.compressed <$> need (.malformed .uncompressedKey) (Curve.Point.decode? data)

end PublicKey

end Wager
