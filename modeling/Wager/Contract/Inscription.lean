import Wager.Contract.Promise

/-!
# The inscription

With its inscription an oracle takes its seat. It spends its payment of the promise, which both
players sign, and locks its answer payment and its deposit under timeouts of its own, which are
at least the nominal ones. The outputs are the two images, the answer, the insurance, the first
payment and the change, if there is any. The fee is exactly the agreed one.
-/

namespace Wager

namespace Inscription

/-- What an oracle inscribes. -/
structure Request (σ : Type) where
  bet : Bet
  committee : List Seat
  promise : Transaction
  position : Nat
  holder : SeatHolder
  resolution : UInt32
  reply : UInt32
  /-- Coins of the oracle's key that cover the deposit. -/
  funding : List Coin
  change : Address
  players : Sides (Signer σ)

/-! ## The places of the outputs -/

def answerPlace : Nat := 1

def insurancePlace : Nat := 2

end Inscription

structure Inscription where
  transaction : Transaction
  answer : Script
  insurance : Script
  resolution : UInt32
  reply : UInt32

namespace Inscription

variable {σ : Type}

def answerCoin (i : Inscription) : Outcome Coin := i.transaction.coin answerPlace

def insuranceCoin (i : Inscription) : Outcome Coin := i.transaction.coin insurancePlace

/-- The chosen timeouts are not below the nominal ones, and the reply comes after the
resolution. -/
def checkTimeouts (config : Config) (r : Request σ) : Outcome Unit := do
  let (resolution, reply) ← config.nominal r.bet
  if r.resolution < resolution ∨ r.reply < reply then
    throw (.inconsistent (.belowNominal r.resolution r.reply resolution reply))
  if r.reply ≤ r.resolution then throw (.inconsistent .replyTooEarly)

/-- The payment of the promise that the inscription spends. -/
def promisedCoin (r : Request σ) (payment : Script) : Outcome Coin := do
  let coin ← r.promise.coin (Promise.paymentPlace r.position)
  if coin.output.locking ≠ payment.wrapped then
    throw (.inconsistent (.promiseOutput r.position))
  if coin.output.value ≠ (← r.bet.amounts.oracleShare) then
    throw (.inconsistent (.promiseOutput r.position))
  return coin

/-- Builds and signs an inscription. -/
def build (config : Config) (r : Request σ) : Exchange σ Inscription := do
  let seat ← need (.malformed (.seat r.position)) r.committee[r.position]?
  if seat ≠ r.holder.seat then
    throw (.inconsistent (.otherSeat r.holder.key.publicKey.address.text r.position))
  checkTimeouts config r
  if r.players.map Signer.publicKey ≠ r.bet.players then throw (.inconsistent .otherSigners)
  let contract := Contract.ofBet r.bet r.committee
  let payment ← contract.payment
  let promised ← promisedCoin r payment
  let own := Script.payToKey r.holder.key.publicKey.hash
  if r.funding.any (·.output.locking ≠ own) then throw (.inconsistent .oracleFunding)
  let available ← Coin.total r.funding
  let change ← need (.insufficientFunds r.bet.amounts.penalty available)
    (Sats.sub? available r.bet.amounts.penalty)
  contract.checkSpendable r.resolution r.reply
  let answer ← contract.answer r.position r.resolution r.reply
  let insurance ← contract.insurance r.position r.reply
  let images ← Script.carrying seat.inscribed
  let outputs : List Output :=
    [⟨0, images⟩, ⟨r.bet.amounts.oraclePayment, answer.wrapped⟩,
     ⟨r.bet.amounts.penalty, insurance.wrapped⟩, ⟨r.bet.amounts.firstPayment, own⟩] ++
      if change = 0 then [] else [⟨change, Script.payToAddress r.change⟩]
  let draft : Draft := {
    Draft.new Draft.currentVersion with
    inputs := (promised :: r.funding).map fun coin => ⟨coin.outpoint, RelativeLock.final, none⟩
    outputs }
  let unlocks := Unlock.byMultisig r.players.toList payment [] ::
    r.funding.map fun _ => Unlock.byKey (.held r.holder.key)
  let signed ← draft.signAll unlocks
  let transaction ← signed.finish
  let spent ← need (.malformed (.overflow .inscription))
    (Sats.add? promised.output.value available)
  let paid ← Output.total transaction.outputs
  if Sats.add? paid r.bet.amounts.inscriptionFee ≠ some spent then
    throw (.inconsistent .inexactFee)
  return ⟨transaction, answer, insurance, r.resolution, r.reply⟩

end Inscription

end Wager
