import Wager.Spend.Unlock

/-!
# Fees

**Shares.** An amount is split into shares that differ by at most one, the larger ones first.

**Two passes.** The fee depends on the size, the size on the signatures, and the signatures on
the outputs that the fee is taken from. A draft is therefore signed once to be measured, and
again after the fee has been taken.
-/

namespace Wager

/-- `total` in `parts` shares, the larger ones first. -/
def splitEvenly (total : UInt64) (parts : Nat) : List UInt64 :=
  if parts = 0 then []
  else
    let share := total.toNat / parts
    let larger := total.toNat % parts
    List.replicate larger (UInt64.ofNat (share + 1)) ++
      List.replicate (parts - larger) (UInt64.ofNat share)

namespace Output

/-- The output less its part of the fee. -/
def charge (o : Output) (fee : UInt64) : Outcome Output :=
  match Sats.sub? o.value fee with
  | some value => .ok { o with value }
  | none => .error (.insufficientFunds fee o.value)

/-- Charges each output its share. The first output that cannot pay stops the charging, and what
was charged before stays so. -/
def chargeEach : List Output → List UInt64 → List Output × Outcome Unit
  | o :: outputs, fee :: fees =>
    match o.charge fee with
    | .ok charged =>
      let (rest, outcome) := chargeEach outputs fees
      (charged :: rest, outcome)
    | .error fault => (o :: outputs, .error fault)
  | outputs, _ => (outputs, .ok ())

/-- Splits a fee among the outputs. -/
def splitFee (outputs : List Output) (fee : UInt64) : List Output × Outcome Unit :=
  if outputs.isEmpty then (outputs, inconsistent .noFeeOutput)
  else chargeEach outputs (splitEvenly fee outputs.length)

/-- The outputs after the fee was split among all of them. -/
def afterFee (outputs : List Output) (fee : UInt64) : Outcome (List Output) :=
  let (charged, outcome) := splitFee outputs fee
  outcome.map fun _ => charged

end Output

namespace Draft

variable {σ : Type}

/-- The fee of a size at a rate. -/
def feeOf (size : Nat) (rate : UInt64) : Outcome UInt64 :=
  need (.malformed (.feeOverflow rate size)) (Sats.mul? (UInt64.ofNat size) rate)

/-- Signs a draft that distributes exactly `inputs`, the value it spends, with the fee taken by
`takeFee` from its outputs. Gives the transaction and its fee. -/
def signWithFee (d : Draft) (unlocks : List (Unlock σ)) (rate inputs : UInt64)
    (takeFee : List Output → UInt64 → Outcome (List Output)) :
    Exchange σ (Transaction × UInt64) := do
  let distributed ← Output.total d.outputs
  if inputs < distributed then throw (.insufficientFunds distributed inputs)
  if distributed < inputs then throw (.inconsistent (.undistributed distributed inputs))
  let measured ← d.signAll unlocks
  let fee ← feeOf measured.size rate
  let outputs ← takeFee d.outputs fee
  let signed ← { d with outputs }.signAll unlocks
  let tx ← signed.finish
  let paid ← Output.total tx.outputs
  if Sats.add? paid fee ≠ some inputs then throw (.inconsistent (.unaccounted paid fee inputs))
  return (tx, fee)

end Draft

end Wager
