import Wager.Fault

/-!
# Networks

A network gives the version bytes that stand in front of addresses and private keys, and has a
tag of its own in encoded bets.
-/

namespace Wager

inductive Network
  | mainnet
  | testnet
deriving DecidableEq, Repr

namespace Network

def all : List Network := [.mainnet, .testnet]

/-- The version of an address that pays a key. -/
def keyVersion : Network → UInt8
  | .mainnet => 0x00
  | .testnet => 0x6f

/-- The version of an address that pays a script. -/
def scriptVersion : Network → UInt8
  | .mainnet => 0x05
  | .testnet => 0xc4

/-- The version of a private key's text. -/
def wifVersion : Network → UInt8
  | .mainnet => 0x80
  | .testnet => 0xef

def tag : Network → UInt8
  | .mainnet => 0
  | .testnet => 1

def ofTag : UInt8 → Outcome Network
  | 0 => .ok .mainnet
  | 1 => .ok .testnet
  | other => malformed (.networkTag other)

theorem ofTag_tag (n : Network) : ofTag n.tag = .ok n := by cases n <;> rfl

def ofWifVersion (version : UInt8) : Outcome Network :=
  need (.malformed (.wifVersion version)) (all.find? (·.wifVersion = version))

end Network

end Wager
