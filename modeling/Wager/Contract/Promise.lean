import Wager.Contract.Scripts
import Wager.Spend.Fee
import Wager.Terms.Commitment

/-!
# The promise

The transaction that both players fund. Its outputs are the commitment, the two prizes, a payment
for each oracle and each player's change, if there is any.

**Shares.** The payments and the fee are split between the players, the odd satoshi falling to
player A. A player's change is what the funding leaves after the stake and that share; the share
of the fee comes out of the change.
-/

namespace Wager

/-- What one player puts in. -/
structure Funding (σ : Type) where
  coins : List Coin
  change : Address
  signer : Signer σ

/-- The sum of the coins' values. -/
def Coin.total (coins : List Coin) : Outcome UInt64 :=
  need (.malformed (.overflow .funding)) (Sats.sum? (coins.map (·.output.value)))

structure Promise where
  transaction : Transaction
  /-- The script of each player's prize. -/
  prizes : Sides Script
  payment : Script
  fee : UInt64

namespace Promise

/-! ## The places of the outputs -/

def commitmentPlace : Nat := 0

def prizePlace : Player → Nat
  | .A => 1
  | .B => 2

def paymentPlace (position : Nat) : Nat := 3 + position

def prizeCoin (p : Promise) (owner : Player) : Outcome Coin :=
  p.transaction.coin (prizePlace owner)

def paymentCoin (p : Promise) (position : Nat) : Outcome Coin :=
  p.transaction.coin (paymentPlace position)

/-! ## Building -/

variable {σ : Type}

/-- The coins have to pay the declared key of the player. -/
def checkFunding (b : Bet) (player : Player) (funding : Funding σ) : Outcome Unit := do
  let key := funding.signer.publicKey
  if key ≠ b.players.get player then throw (.inconsistent (.fundingSigner player))
  if funding.coins.isEmpty then throw (.insufficientFunds b.amounts.pot 0)
  let expected := Script.payToKey key.hash
  match funding.coins.find? (·.output.locking ≠ expected) with
  | some coin => inconsistent (.fundingScript coin.outpoint player)
  | none => .ok ()

/-- What the funding leaves after the stake and the share of the payments. -/
def changeOf (b : Bet) (funding : Funding σ) (share : UInt64) : Outcome UInt64 := do
  let required ← need (.malformed (.overflow .stake)) (Sats.add? b.amounts.pot share)
  let available ← Coin.total funding.coins
  need (.insufficientFunds required available) (Sats.sub? available required)

/-- `total` in two shares, the odd one going to player A. -/
def halves (total : UInt64) : Sides UInt64 := ⟨total - total / 2, total / 2⟩

/-- Takes a share of the fee from the output at `place`, if the player has one. -/
def takeShare (place : Option Nat) (share : UInt64) (outputs : List Output) :
    Outcome (List Output) :=
  match place.bind fun i => (outputs[i]?).map (i, ·) with
  | some (i, output) => return outputs.set i (← output.charge share)
  | none => if share = 0 then .ok outputs else .error (.insufficientFunds share 0)

/-- The change outputs, and the place of each when the first of them stands at `place`. -/
def changeOutputs (place : Nat) (change : Sides UInt64) (address : Sides Address) :
    List Output × Sides (Option Nat) :=
  let output (player : Player) : List Output :=
    if change.get player = 0 then []
    else [⟨change.get player, Script.payToAddress (address.get player)⟩]
  let a := output .A
  let b := output .B
  (a ++ b, ⟨if a.isEmpty then none else some place,
    if b.isEmpty then none else some (place + a.length)⟩)

/-- Builds and signs the promise. -/
def build (b : Bet) (committee : List Seat) (funding : Sides (Funding σ)) :
    Exchange σ Promise := do
  b.check
  b.checkSeats committee
  checkFunding b .A funding.a
  checkFunding b .B funding.b
  let contract := Contract.ofBet b committee
  let resolution ← b.timeout.seconds
  contract.checkSpendable resolution resolution
  let prizeA ← contract.prize .A resolution
  let prizeB ← contract.prize .B resolution
  let payment ← contract.payment
  let share ← b.amounts.oracleShare
  let payments ← need (.malformed (.overflow .oraclePayments))
    (Sats.mul? share (UInt64.ofNat committee.length))
  let parts := halves payments
  let changeA ← changeOf b funding.a parts.a
  let changeB ← changeOf b funding.b parts.b
  let commitment ← (Commitment.ofBet b (committee.map (·.oracle))).script
  let fixed : List Output :=
    [⟨0, commitment⟩, ⟨b.amounts.pot, prizeA.wrapped⟩, ⟨b.amounts.pot, prizeB.wrapped⟩] ++
      committee.map fun _ => ⟨share, payment.wrapped⟩
  let (change, places) :=
    changeOutputs fixed.length ⟨changeA, changeB⟩ (funding.map (·.change))
  let totalA ← Coin.total funding.a.coins
  let totalB ← Coin.total funding.b.coins
  let inputs ← need (.malformed (.overflow .funding)) (Sats.add? totalA totalB)
  let draft : Draft := {
    Draft.new Draft.currentVersion with
    inputs := (funding.a.coins ++ funding.b.coins).map fun coin =>
      ⟨coin.outpoint, RelativeLock.final, none⟩
    outputs := fixed ++ change }
  let unlocks := funding.a.coins.map (fun _ => Unlock.byKey funding.a.signer) ++
    funding.b.coins.map fun _ => Unlock.byKey funding.b.signer
  let (transaction, fee) ← draft.signWithFee unlocks b.amounts.feeRate inputs
    fun outputs fee => do
      let shares := halves fee
      takeShare places.b shares.b (← takeShare places.a shares.a outputs)
  return ⟨transaction, ⟨prizeA, prizeB⟩, payment, fee⟩

/-! ## Verifying -/

/-- Fails unless the transaction is a promise for the bet and the committee. -/
def verify (b : Bet) (committee : List Seat) (tx : Transaction) : Outcome Unit := do
  let output ← tx.output commitmentPlace
  let commitment ← Commitment.ofScript b.network output.locking
  if ¬ commitment.describes b ∨ commitment.committee ≠ committee.map (·.oracle) then
    throw (.inconsistent .otherTerms)
  let contract := Contract.ofBet b committee
  let resolution ← b.timeout.seconds
  contract.checkSpendable resolution resolution
  for player in Player.all do
    let output ← tx.output (prizePlace player)
    if output.value ≠ b.amounts.pot ∨
        output.locking ≠ (← contract.prize player resolution).wrapped then
      throw (.inconsistent (.prizeMismatch player))
  let payment := (← contract.payment).wrapped
  let share ← b.amounts.oracleShare
  for position in List.range committee.length do
    let output ← tx.output (paymentPlace position)
    if output.value ≠ share ∨ output.locking ≠ payment then
      throw (.inconsistent (.paymentMismatch position))

end Promise

end Wager
