import Wager.Keys.PublicKey

/-!
# Private keys

A private key is a scalar below the group order together with its point. Its text (WIF) is the
Base58Check of a version byte and the scalar, followed by `1` when the public key is written
short.
-/

namespace Wager

structure PrivateKey where
  secret : Nat
  publicKey : PublicKey
  secret_lt : secret < Curve.order
  generates : (Curve.Jacobian.scale secret .generator).toPoint? = some publicKey.point

namespace PrivateKey

/-- The key with this scalar. Zero has no point. -/
def ofSecret? (secret : Nat) (short : Bool) (network : Network) : Option PrivateKey :=
  if h : secret < Curve.order then
    match hp : (Curve.Jacobian.scale secret .generator).toPoint? with
    | some point => some ⟨secret, ⟨point, short, network⟩, h, hp⟩
    | none => none
  else none

def ofBytes (data : Bytes) (short : Bool) (network : Network) : Outcome PrivateKey :=
  if data.length ≠ 32 then malformed (.privateKeyLength data.length)
  else need (.malformed .privateKey) (ofSecret? (ofBigEndian data) short network)

def bytes (k : PrivateKey) : Bytes := bigEndian 32 k.secret

/-- The byte behind the scalar of a key that is written short. -/
def shortFlag : UInt8 := 1

def wif (k : PrivateKey) : String :=
  Base58.encodeCheck <| k.publicKey.network.wifVersion :: k.bytes ++
    if k.publicKey.short then [shortFlag] else []

def ofWif (text : String) : Outcome PrivateKey := do
  let payload ← Base58.decodeCheck text
  match payload with
  | [] => malformed (.wifLength 0)
  | version :: rest =>
    if rest.length = 32 then ofBytes rest false (← Network.ofWifVersion version)
    else if rest.length = 33 then
      let flag := rest.getLastD 0
      if flag = shortFlag then ofBytes rest.dropLast true (← Network.ofWifVersion version)
      else malformed (.wifFlag flag)
    else malformed (.wifLength payload.length)

/-- The DER signature of a digest. -/
def sign (k : PrivateKey) (digest : Hash256) : Bytes := (Signature.sign k.secret digest).toDer

end PrivateKey

end Wager
