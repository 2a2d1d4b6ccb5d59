import Wager.Contract.Inscription
import Wager.Terms.Openings

/-!
# Settling a bet

A settlement is a bet with its committee and configuration, all checked. It recovers the scripts
that the promise and the inscriptions commit to, and builds the transactions that redeem them.

**The paths.** An oracle collects its answer payment (`answer`) and takes back its deposit
(`depositRefund`). The players take a payment back when its oracle stays silent (`silence`). A
player takes the payment of an oracle that announced the loser (`refute`), the deposit of one that
announced both (`equivocation`), both prizes as the winner (`win`), or the own prize after the
resolution timeout (`prizeRefund`).

Each path checks its claim, recovers the script by search and signs twice, so that the fee fits
the final size.
-/

namespace Wager

/-- The timeouts that were recovered with a script. -/
inductive Recovered
  | single (timeout : UInt32)
  | pair (resolution reply : UInt32)
deriving DecidableEq, Repr

structure Redemption where
  /-- The redeemed scripts, in the order of the inputs. -/
  scripts : List Script
  transaction : Transaction
  recovered : Recovered
  fee : UInt64

structure Settlement where
  bet : Bet
  committee : List Seat
  config : Config

namespace Settlement

/-- The settlement of a bet, once configuration and committee are checked. -/
def new (config : Config) (bet : Bet) (committee : List Seat) : Outcome Settlement := do
  config.check
  bet.checkSeats committee
  return ⟨bet, committee, config⟩

def contract (s : Settlement) : Contract := .ofBet s.bet s.committee

def seat (s : Settlement) (position : Nat) : Outcome Seat :=
  need (.malformed (.seat position)) s.committee[position]?

/-! ## Recovering scripts -/

/-- The script of a player's prize, and its timeout. -/
def recoverPrize (s : Settlement) (promise : Transaction) (owner : Player) :
    Outcome (Script × UInt32) := do
  let output ← promise.output (Promise.prizePlace owner)
  let expected ← output.locking.committedHash
  let (resolution, _) ← s.config.nominal s.bet
  RelativeLock.search "prize" resolution s.config.search.single expected
    (s.contract.prize owner)

/-- The script of an oracle's answer payment, and both its timeouts. -/
def recoverAnswer (s : Settlement) (inscription : Transaction) (position : Nat) :
    Outcome (Script × UInt32 × UInt32) := do
  let output ← inscription.output Inscription.answerPlace
  let expected ← output.locking.committedHash
  let (resolution, reply) ← s.config.nominal s.bet
  RelativeLock.searchPair "answer" resolution reply s.config.search.pair expected
    (s.contract.answer position)

/-- The script of an oracle's deposit, and its timeout. -/
def recoverInsurance (s : Settlement) (inscription : Transaction) (position : Nat) :
    Outcome (Script × UInt32) := do
  let output ← inscription.output Inscription.insurancePlace
  let expected ← output.locking.committedHash
  let (_, reply) ← s.config.nominal s.bet
  RelativeLock.search "insurance" reply s.config.search.single expected
    (s.contract.insurance position)

/-! ## Checks -/

/-- The seat that an inscription is for, which has to commit to the agreed images. -/
def inscribedSeat (s : Settlement) (inscription : Transaction) (position : Nat) :
    Outcome Seat := do
  let seat ← s.seat position
  if (← Seat.ofInscription seat.oracle inscription) ≠ seat then
    throw (.inconsistent (.otherHashes position))
  return seat

/-- Fails unless enough preimages announce `winner`, one seat left out. -/
def checkMatches (s : Settlement) (revealed : Openings) (winner : Player)
    (exclude : Option Nat) : Outcome Unit := do
  if revealed.size ≠ s.committee.length then
    throw (.inconsistent (.slotCount revealed.size s.committee.length))
  let count := revealed.count s.committee winner exclude
  if count < s.bet.required.toNat then
    throw (.inconsistent (.tooFewMatches count winner s.bet.required))

variable {σ : Type}

def playerOf (s : Settlement) (signer : Signer σ) : Outcome Player :=
  s.bet.playerOf signer.publicKey

/-! ## Redeeming -/

/-- An output to redeem, and how. -/
structure Claim (σ : Type) where
  coin : Coin
  sequence : UInt32
  unlock : Unlock σ

/-- Pays what is claimed to the destinations, in equal shares from which the fee is taken
equally. -/
def redeem (s : Settlement) (claims : List (Claim σ)) (destinations : List Address) :
    Exchange σ (Transaction × UInt64) := do
  if destinations.isEmpty then throw (.malformed .noDestination)
  let total ← need (.malformed (.overflow .claims))
    (Sats.sum? (claims.map (·.coin.output.value)))
  let draft : Draft := {
    Draft.new Draft.currentVersion with
    inputs := claims.map fun claim => ⟨claim.coin.outpoint, claim.sequence, none⟩
    outputs := (splitEvenly total destinations.length).zipWith
      (fun share address => ⟨share, Script.payToAddress address⟩) destinations }
  draft.signWithFee (claims.map (·.unlock)) s.bet.amounts.feeRate total Output.afterFee

/-! ## The paths of an oracle's payment -/

/-- The oracle collects its payment for announcing `winner`. -/
def answer (s : Settlement) (inscription : Transaction) (position : Nat) (holder : SeatHolder)
    (winner : Player) (destination : Address) : Exchange σ Redemption := do
  let seat ← s.inscribedSeat inscription position
  if seat ≠ holder.seat then throw (.inconsistent .notSeated)
  let (script, resolution, reply) ← s.recoverAnswer inscription position
  let coin ← inscription.coin Inscription.answerPlace
  let sequence ← RelativeLock.sequence resolution
  let unlock := Unlock.byScript (.held holder.key) script
    [.push (holder.secrets.get winner).bytes.toList, .flag true, .flag true]
  let (transaction, fee) ← s.redeem [⟨coin, sequence, unlock⟩] [destination]
  return ⟨[script], transaction, .pair resolution reply, fee⟩

/-- Both players take the payment of a silent oracle back. -/
def silence (s : Settlement) (inscription : Transaction) (position : Nat)
    (signers : Sides (Signer σ)) (destinations : List Address) : Exchange σ Redemption := do
  let _ ← s.inscribedSeat inscription position
  for player in Player.all do
    if (← s.playerOf (signers.get player)) ≠ player then throw (.inconsistent .signerOrder)
  let (script, resolution, reply) ← s.recoverAnswer inscription position
  let coin ← inscription.coin Inscription.answerPlace
  let sequence ← RelativeLock.sequence reply
  let unlock := Unlock.byMultisig signers.toList script [.flag false, .flag true]
  let (transaction, fee) ← s.redeem [⟨coin, sequence, unlock⟩] destinations
  return ⟨[script], transaction, .pair resolution reply, fee⟩

/-- The claimant takes the payment of an oracle that announced the other player. -/
def refute (s : Settlement) (inscription : Transaction) (position : Nat) (claimant : Signer σ)
    (revealed : Openings) (destination : Address) : Exchange σ Redemption := do
  let seat ← s.inscribedSeat inscription position
  let winner ← s.playerOf claimant
  let wrong ← need (.inconsistent (.unanswered position)) (revealed.get? position)
  if seat.outcome? wrong ≠ some winner.other then
    throw (.inconsistent (.notAnnounced position winner.other))
  s.checkMatches revealed winner (some position)
  let (script, resolution, reply) ← s.recoverAnswer inscription position
  let coin ← inscription.coin Inscription.answerPlace
  let unlock := Unlock.byScript claimant script <|
    revealed.items (some position) ++ [.push wrong, .flag winner.selector, .flag false]
  let (transaction, fee) ← s.redeem [⟨coin, RelativeLock.final, unlock⟩] [destination]
  return ⟨[script], transaction, .pair resolution reply, fee⟩

/-! ## The paths of an oracle's deposit -/

/-- The claimant takes the deposit of an oracle that revealed both secrets. -/
def equivocation (s : Settlement) (inscription : Transaction) (position : Nat)
    (claimant : Signer σ) (preimages : Sides Bytes) (destination : Address) :
    Exchange σ Redemption := do
  let seat ← s.inscribedSeat inscription position
  let player ← s.playerOf claimant
  for outcome in Player.all do
    if seat.outcome? (preimages.get outcome) ≠ some outcome then
      throw (.inconsistent (.otherPreimage outcome position))
  let (script, reply) ← s.recoverInsurance inscription position
  let coin ← inscription.coin Inscription.insurancePlace
  let unlock := Unlock.byScript claimant script
    [.flag player.selector, .push preimages.b, .push preimages.a, .flag true]
  let (transaction, fee) ← s.redeem [⟨coin, RelativeLock.final, unlock⟩] [destination]
  return ⟨[script], transaction, .single reply, fee⟩

/-- The oracle takes its deposit back. -/
def depositRefund (s : Settlement) (inscription : Transaction) (position : Nat)
    (holder : SeatHolder) (destination : Address) : Exchange σ Redemption := do
  let seat ← s.inscribedSeat inscription position
  if seat ≠ holder.seat then throw (.inconsistent .notSeated)
  let (script, reply) ← s.recoverInsurance inscription position
  let coin ← inscription.coin Inscription.insurancePlace
  let sequence ← RelativeLock.sequence reply
  let unlock := Unlock.byScript (.held holder.key) script [.flag false]
  let (transaction, fee) ← s.redeem [⟨coin, sequence, unlock⟩] [destination]
  return ⟨[script], transaction, .single reply, fee⟩

/-! ## The paths of the prizes -/

/-- A claim to a player's own prize after its timeout. -/
def refundClaim (promise : Transaction) (player : Player) (signer : Signer σ) (script : Script)
    (resolution : UInt32) : Outcome (Claim σ) := do
  let coin ← promise.coin (Promise.prizePlace player)
  return ⟨coin, ← RelativeLock.sequence resolution,
    Unlock.byScript signer script [.flag false]⟩

/-- The winner takes both prizes. -/
def win (s : Settlement) (promise : Transaction) (winner : Signer σ) (revealed : Openings)
    (destination : Address) : Exchange σ Redemption := do
  let player ← s.playerOf winner
  s.checkMatches revealed player none
  let (lost, _) ← s.recoverPrize promise player.other
  let (own, resolution) ← s.recoverPrize promise player
  let coin ← promise.coin (Promise.prizePlace player.other)
  let unlock := Unlock.byScript winner lost (revealed.items none ++ [.flag true])
  let refund ← refundClaim promise player winner own resolution
  let (transaction, fee) ←
    s.redeem [⟨coin, RelativeLock.final, unlock⟩, refund] [destination]
  return ⟨[lost, own], transaction, .single resolution, fee⟩

/-- A player takes the own prize back. -/
def prizeRefund (s : Settlement) (promise : Transaction) (owner : Signer σ)
    (destination : Address) : Exchange σ Redemption := do
  let player ← s.playerOf owner
  let (script, resolution) ← s.recoverPrize promise player
  let claim ← refundClaim promise player owner script resolution
  let (transaction, fee) ← s.redeem [claim] [destination]
  return ⟨[script], transaction, .single resolution, fee⟩

end Settlement

end Wager
