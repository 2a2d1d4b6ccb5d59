import Wager.Checked
import Wager.Keys.PublicKey
import Wager.Peer.Channel

/-!
# The terms of a bet

Two players stake a pot each on an outcome that a committee of oracles announces. The terms name
the players, the candidate oracles, the bounds on the committee, how many oracles have to agree,
the amounts and the time after which the bet resolves.

**Checks.** `Bet.check` says whether the terms are coherent, `Bet.checkCommittee` whether a
committee may serve under them.

**Encoding.** One form, which starts with a magic word; counts of oracles are compact integers
and are read like the counts of anything else.
-/

namespace Wager

/-! ## Amounts -/

structure Amounts where
  /-- Paid to each oracle when it inscribes. -/
  firstPayment : UInt64
  /-- Paid to each oracle for answering. -/
  oraclePayment : UInt64
  /-- The stake of each player. -/
  pot : UInt64
  /-- The fee of each inscription. -/
  inscriptionFee : UInt64
  /-- What an oracle forfeits by answering both ways. -/
  penalty : UInt64
  /-- Satoshis a byte for every other transaction. -/
  feeRate : UInt64
deriving DecidableEq, Repr

namespace Amounts

/-- What the promise locks for one oracle. -/
def oracleShare (a : Amounts) : Outcome UInt64 :=
  need (.malformed (.overflow .oracleShare)) <|
    (Sats.add? a.firstPayment a.oraclePayment).bind (Sats.add? · a.inscriptionFee)

def toList (a : Amounts) : List UInt64 :=
  [a.firstPayment, a.oraclePayment, a.pot, a.inscriptionFee, a.penalty, a.feeRate]

def encode (a : Amounts) : Bytes := a.toList.flatMap Encode.u64

def decoder : Decoder Amounts := do
  let firstPayment ← Decoder.u64
  let oraclePayment ← Decoder.u64
  let pot ← Decoder.u64
  let inscriptionFee ← Decoder.u64
  let penalty ← Decoder.u64
  return ⟨firstPayment, oraclePayment, pot, inscriptionFee, penalty, ← Decoder.u64⟩

end Amounts

/-! ## The time of resolution -/

/-- The time after the promise at which the bet resolves. -/
structure Timeout where
  unit : TimeUnit
  value : UInt32
deriving DecidableEq, Repr

def TimeUnit.ofTag (tag : UInt8) : Outcome TimeUnit :=
  need (.malformed (.timeUnit tag)) (TimeUnit.ofTag? tag)

namespace Timeout

def seconds (t : Timeout) : Outcome UInt32 :=
  need (.malformed (.timeoutOverflow t.value t.unit)) (Seconds.mul? t.value t.unit.length)

def encode (t : Timeout) : Bytes := t.unit.tag :: Encode.u32 t.value

def decoder : Decoder Timeout := do
  let unit ← TimeUnit.ofTag (← Decoder.u8)
  return ⟨unit, ← Decoder.u32⟩

end Timeout

/-! ## The bet -/

structure Bet where
  network : Network
  description : String
  minOracles : UInt64
  maxOracles : UInt64
  /-- How many oracles have to announce an outcome. -/
  required : UInt64
  oracles : List PublicKey
  backups : List PublicKey
  players : Sides PublicKey
  amounts : Amounts
  timeout : Timeout
  channel : Channel
deriving DecidableEq

/-- The first bytes of an encoded bet and of the promise's commitment. -/
def betMagic : Bytes := [0x4f, 0x42, 0x45, 0x54]

namespace Bet

def descriptionHash (b : Bet) : Hash160 := hash160 (Utf8.encode b.description)

/-- The side that a key plays. -/
def playerOf (b : Bet) (key : PublicKey) : Outcome Player :=
  need (.inconsistent (.stranger key.bytes)) (Player.all.find? (b.players.get · = key))

/-- The oracles that may be chosen. -/
def candidates (b : Bet) : List PublicKey := b.oracles ++ b.backups

def check (b : Bet) : Outcome Unit := do
  if b.minOracles = 0 ∨ b.maxOracles < b.minOracles then
    throw (.inconsistent (.oracleBounds b.minOracles b.maxOracles))
  if b.required = 0 ∨ b.minOracles < b.required then
    throw (.inconsistent (.requiredHashes b.required b.minOracles))
  if b.players.a = b.players.b then throw (.inconsistent .samePlayers)
  if b.candidates.length < b.minOracles.toNat then
    throw (.inconsistent (.tooFewCandidates b.candidates.length b.minOracles))
  let _ ← b.timeout.seconds
  let _ ← b.amounts.oracleShare

/-- Checks the members that follow those already seated. -/
def checkMembers (b : Bet) (seated : List PublicKey) : List PublicKey → Outcome Unit
  | [] => .ok ()
  | oracle :: rest =>
    if oracle ∉ b.candidates then inconsistent (.notCandidate oracle.address.text)
    else if oracle ∈ seated then inconsistent (.seatedTwice oracle.address.text)
    else if oracle ∈ b.players.toList then inconsistent .playerOracle
    else b.checkMembers (oracle :: seated) rest

/-- Checks a committee against the terms. -/
def checkCommittee (b : Bet) (committee : List PublicKey) : Outcome Unit :=
  if committee.length < b.minOracles.toNat ∨ b.maxOracles.toNat < committee.length then
    inconsistent (.committeeSize committee.length b.minOracles b.maxOracles)
  else b.checkMembers [] committee

/-! ## Encoding -/

def encode (b : Bet) : Bytes :=
  betMagic ++ b.network.tag :: (Encode.sized (Utf8.encode b.description) ++
    (Encode.compact b.minOracles ++ (Encode.compact b.maxOracles ++
      (Encode.compact b.required ++
        ((Encode.count b.oracles.length ++ b.oracles.flatMap (Encode.sized ·.bytes)) ++
          ((Encode.count b.backups.length ++ b.backups.flatMap (Encode.sized ·.bytes)) ++
            (Encode.sized b.players.a.bytes ++ (Encode.sized b.players.b.bytes ++
              (b.amounts.encode ++ (b.timeout.encode ++ b.channel.encode))))))))))

def decodeDescription (data : Bytes) : Outcome String :=
  match Utf8.decode data with
  | .ok text => .ok text
  | .error cause => malformed (.descriptionText cause)

def decoder : Decoder Bet := do
  if (← Decoder.bytes 4) ≠ betMagic then throw (.malformed .betMagic)
  let network ← Network.ofTag (← Decoder.u8)
  let description ← decodeDescription (← Decoder.sized)
  let minOracles ← Decoder.length
  let maxOracles ← Decoder.length
  let required ← Decoder.length
  let oracles ← Decoder.counted (PublicKey.decoder network)
  let backups ← Decoder.counted (PublicKey.decoder network)
  let a ← PublicKey.decoder network
  let b ← PublicKey.decoder network
  let amounts ← Amounts.decoder
  let timeout ← Timeout.decoder
  return {
    network, description, oracles, backups, amounts, timeout
    minOracles := UInt64.ofNat minOracles
    maxOracles := UInt64.ofNat maxOracles
    required := UInt64.ofNat required
    players := ⟨a, b⟩
    channel := ← Channel.decoder }

def decode (data : Bytes) : Outcome Bet := decoder.decodeAll data

end Bet

end Wager
