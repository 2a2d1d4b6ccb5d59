import Wager.Chain.Script
import Wager.Terms.Bet

/-!
# The commitment of the promise

The promise carries the committee's keys, the hash of the description and the channel, so that
either player can show which bet it funds.
-/

namespace Wager

structure Commitment where
  committee : List PublicKey
  descriptionHash : Hash160
  channel : Channel
deriving DecidableEq

namespace Commitment

def ofBet (b : Bet) (committee : List PublicKey) : Commitment :=
  ⟨committee, b.descriptionHash, b.channel⟩

def encode (c : Commitment) : Bytes :=
  betMagic ++ ((Encode.count c.committee.length ++ c.committee.flatMap (Encode.sized ·.bytes)) ++
    (c.descriptionHash.toList ++ c.channel.encode))

def decoder (network : Network) : Decoder Commitment := do
  if (← Decoder.bytes 4) ≠ betMagic then throw (.malformed .commitmentMagic)
  let committee ← Decoder.counted (PublicKey.decoder network)
  let descriptionHash ← Decoder.block 20
  return ⟨committee, descriptionHash, ← Channel.decoder⟩

def decode (network : Network) (data : Bytes) : Outcome Commitment :=
  (decoder network).decodeAll data

/-- The output script that carries the commitment. -/
def script (c : Commitment) : Outcome Script := Script.carrying c.encode

def ofScript (network : Network) (s : Script) : Outcome Commitment := do
  decode network (← need (.malformed .noCommitment) s.carried?)

/-- Whether the commitment describes the bet. -/
def describes (c : Commitment) (b : Bet) : Bool :=
  c.descriptionHash = b.descriptionHash && c.channel = b.channel

end Commitment

end Wager
