import Wager.Crypto.Ripemd160
import Wager.Crypto.Sha256

/-!
# Digests of the ledger

Transactions are named by a double SHA-256, keys and scripts by `HASH160`. Keyed digests
(HMAC) are what deterministic signatures draw their nonces from.
-/

namespace Wager

/-- SHA-256 applied twice. -/
def doubleSha256 (data : Bytes) : Hash256 := sha256 (sha256 data).toList

/-- RIPEMD-160 of SHA-256. -/
def hash160 (data : Bytes) : Hash160 := ripemd160 (sha256 data).toList

/-- HMAC with SHA-256, for a key of at most one block. -/
def hmacSha256 (key message : Bytes) : Hash256 :=
  let padded := key ++ List.replicate (64 - key.length) 0
  let inner := sha256 (padded.map (· ^^^ 0x36) ++ message)
  sha256 (padded.map (· ^^^ 0x5c) ++ inner.toList)

end Wager
