import Wager.Keys.Network
import Wager.Text.Base58

/-!
# Addresses

An address is the hash of a key or of a script on a network. Its text is the Base58Check of the
version byte and the hash.
-/

namespace Wager

/-- Whether a hash is that of a key or of a script. -/
inductive Payee
  | key
  | script
deriving DecidableEq, Repr

structure Address where
  network : Network
  payee : Payee
  hash : Hash160
deriving DecidableEq

namespace Address

def versionOf (network : Network) : Payee → UInt8
  | .key => network.keyVersion
  | .script => network.scriptVersion

def text (a : Address) : String :=
  Base58.encodeCheck (versionOf a.network a.payee :: a.hash.toList)

/-- The network and payee that a version byte stands for. -/
def ofVersion? (version : UInt8) : Option (Network × Payee) :=
  [(Network.mainnet, Payee.key), (.mainnet, .script), (.testnet, .key), (.testnet, .script)].find?
    fun (network, payee) => versionOf network payee = version

def parse (text : String) : Outcome Address := do
  match ← Base58.decodeCheck text with
  | version :: rest =>
    if rest.length ≠ 20 then malformed (.addressLength (rest.length + 1))
    else
      let hash ← Decoder.exactly 20 rest
      let (network, payee) ← need (.malformed (.addressVersion version)) (ofVersion? version)
      return ⟨network, payee, hash⟩
  | [] => malformed (.addressLength 0)

end Address

end Wager
