import Wager.Chain.Transaction
import Wager.Keys.PrivateKey
import Wager.Terms.Bet

/-!
# Seats of the committee

**A seat** is an oracle together with two hash images, one for each outcome. To announce an
outcome the oracle reveals the preimage of its image.

**The holder** of a seat has the oracle's private key and the two secrets.

**An inscription** commits to the images of a seat on the ledger.
-/

namespace Wager

structure Seat where
  oracle : PublicKey
  /-- The image for each winner. -/
  images : Sides Hash160
deriving DecidableEq

/-- The first bytes of what an inscription carries. -/
def inscriptionMagic : Bytes := [0x4f, 0x42, 0x49]

namespace Seat

/-- The image whose preimage announces that `winner` won. -/
def image (s : Seat) (winner : Player) : Hash160 := s.images.get winner

/-- Whether a preimage announces that `winner` won. -/
def opens (s : Seat) (winner : Player) (preimage : Bytes) : Bool :=
  hash160 preimage = s.image winner

/-- The first outcome that a preimage announces. -/
def outcome? (s : Seat) (preimage : Bytes) : Option Player :=
  Player.all.find? (s.opens · preimage)

def encode (s : Seat) : Bytes :=
  Encode.sized s.oracle.bytes ++ (s.images.a.toList ++ s.images.b.toList)

def decoder (network : Network) : Decoder Seat := do
  let oracle ← PublicKey.decoder network
  let a ← Decoder.block 20
  return ⟨oracle, a, ← Decoder.block 20⟩

/-- What an inscription carries for the seat. -/
def inscribed (s : Seat) : Bytes :=
  inscriptionMagic ++ (s.images.a.toList ++ s.images.b.toList)

/-- The seat that an inscription of `oracle` commits to. -/
def ofInscription (oracle : PublicKey) (tx : Transaction) : Outcome Seat := do
  let output ← tx.output 0
  let payload ← need (.inconsistent .notInscribed) output.locking.carried?
  if payload.take 3 ≠ inscriptionMagic then throw (.inconsistent .inscriptionMagic)
  let images := payload.drop 3
  if images.length ≠ 40 then throw (.malformed (.inscribedHashes images.length))
  let a ← Decoder.exactly 20 (images.take 20)
  return ⟨oracle, a, ← Decoder.exactly 20 (images.drop 20)⟩

end Seat

/-- The elements in order, the one at the place `exclude` left out. -/
def others {α : Type} (exclude : Option Nat) (xs : List α) : List α :=
  (xs.zipIdx.filter fun (_, i) => some i ≠ exclude).map (·.1)

/-- Checks the oracles of a committee against the terms. -/
def Bet.checkSeats (b : Bet) (committee : List Seat) : Outcome Unit :=
  b.checkCommittee (committee.map (·.oracle))

/-- What an oracle reveals to announce an outcome. -/
structure Secret where
  bytes : Vector UInt8 32

namespace Secret

def ofBytes (data : Bytes) : Outcome Secret := Secret.mk <$> Decoder.exactly 32 data

def image (s : Secret) : Hash160 := hash160 s.bytes.toList

/-- The image, in place of the secret itself. -/
def text (s : Secret) : String := "Secret(" ++ hexText s.image.toList ++ ")"

end Secret

/-- An oracle that serves on a committee. -/
structure SeatHolder where
  key : PrivateKey
  /-- The secret for each winner. -/
  secrets : Sides Secret

def SeatHolder.seat (h : SeatHolder) : Seat := ⟨h.key.publicKey, h.secrets.map Secret.image⟩

end Wager
