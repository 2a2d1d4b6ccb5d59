import Wager.Contract.Promise
import Wager.Proofs.Checks
import Wager.Proofs.Signing
import Wager.Proofs.Spendable

/-!
# What a promise is planned from

**The plan** (`Promise.Plan`) holds what the builder works out before anyone signs: the timeout, the
scripts, the shares and what is left for change. A promise is built exactly when its plan is valid
and the planned draft is signed with a fee (`Promise.gives_build_iff`).

**The fee.** Each player's half comes out of that player's own change and touches no other output
(`takeHalves_eq`). It is refused exactly when the change is too small for it, whether there is a
change output or not.
-/

namespace Wager.Promise

open Exchange

variable {σ : Type} {w w' : σ}

/-! ## Plans -/

/-- What is worked out before anyone signs. -/
structure Plan where
  resolution : UInt32
  prizes : Sides Script
  payment : Script
  /-- What each oracle's payment holds. -/
  share : UInt64
  /-- What all payments hold. -/
  payments : UInt64
  change : Sides UInt64
  commitment : Script
  /-- What the players put in. -/
  inputs : UInt64

namespace Plan

/-- The outputs that do not depend on the change. -/
def fixed (plan : Plan) (b : Bet) (committee : List Seat) : List Output :=
  [⟨0, plan.commitment⟩, ⟨b.amounts.pot, plan.prizes.a.wrapped⟩,
    ⟨b.amounts.pot, plan.prizes.b.wrapped⟩] ++
    committee.map fun _ => ⟨plan.share, plan.payment.wrapped⟩

/-- The change outputs and their places. -/
def changed (plan : Plan) (b : Bet) (committee : List Seat) (funding : Sides (Funding σ)) :
    List Output × Sides (Option Nat) :=
  changeOutputs (plan.fixed b committee).length plan.change (funding.map (·.change))

def draft (plan : Plan) (b : Bet) (committee : List Seat) (funding : Sides (Funding σ)) :
    Draft where
  version := Draft.currentVersion
  inputs := (funding.a.coins ++ funding.b.coins).map fun coin =>
    ⟨coin.outpoint, RelativeLock.final, none⟩
  outputs := plan.fixed b committee ++ (plan.changed b committee funding).1
  lockTime := 0

end Plan

/-- Each coin is signed for by the player who put it in. -/
def unlocks (funding : Sides (Funding σ)) : List (Unlock σ) :=
  funding.a.coins.map (fun _ => Unlock.byKey funding.a.signer) ++
    funding.b.coins.map fun _ => Unlock.byKey funding.b.signer

/-- Takes each player's half of the fee from the change in its place. -/
def takeHalves (places : Sides (Option Nat)) (outputs : List Output) (fee : UInt64) :
    Outcome (List Output) := do
  takeShare places.b (halves fee).b (← takeShare places.a (halves fee).a outputs)

/-- The plan is what the terms, the committee and the funding come to. -/
structure Plan.Valid (plan : Plan) (b : Bet) (committee : List Seat)
    (funding : Sides (Funding σ)) : Prop where
  checked : b.check = .ok ()
  seated : b.checkSeats committee = .ok ()
  funded : ∀ player, checkFunding b player (funding.get player) = .ok ()
  resolution : b.timeout.seconds = .ok plan.resolution
  spendable :
    (Contract.ofBet b committee).checkSpendable plan.resolution plan.resolution = .ok ()
  prize : ∀ owner,
    (Contract.ofBet b committee).prize owner plan.resolution = .ok (plan.prizes.get owner)
  payment : (Contract.ofBet b committee).payment = .ok plan.payment
  share : b.amounts.oracleShare = .ok plan.share
  payments : Sats.mul? plan.share (UInt64.ofNat committee.length) = some plan.payments
  change : ∀ player, changeOf b (funding.get player) ((halves plan.payments).get player) =
    .ok (plan.change.get player)
  commitment :
    (Commitment.ofBet b (committee.map (·.oracle))).script = .ok plan.commitment
  inputs : ∃ a b, Coin.total funding.a.coins = .ok a ∧ Coin.total funding.b.coins = .ok b ∧
    Sats.add? a b = some plan.inputs

variable {b : Bet} {committee : List Seat} {funding : Sides (Funding σ)} {p : Promise}

/-- The terms, the committee and the funding come to one plan. -/
theorem Plan.Valid.unique {plan plan' : Plan} (h : plan.Valid b committee funding)
    (h' : plan'.Valid b committee funding) : plan = plan' := by
  obtain ⟨resolution, ⟨prizeA, prizeB⟩, payment, share, payments, ⟨changeA, changeB⟩, commitment,
    inputs⟩ := plan
  obtain ⟨resolution', ⟨prizeA', prizeB'⟩, payment', share', payments', ⟨changeA', changeB'⟩,
    commitment', inputs'⟩ := plan'
  obtain rfl : resolution = resolution' := Except.ok.inj (h.resolution.symm.trans h'.resolution)
  obtain rfl : prizeA = prizeA' := Except.ok.inj ((h.prize .A).symm.trans (h'.prize .A))
  obtain rfl : prizeB = prizeB' := Except.ok.inj ((h.prize .B).symm.trans (h'.prize .B))
  obtain rfl : payment = payment' := Except.ok.inj (h.payment.symm.trans h'.payment)
  obtain rfl : share = share' := Except.ok.inj (h.share.symm.trans h'.share)
  obtain rfl : payments = payments' := Option.some.inj (h.payments.symm.trans h'.payments)
  obtain rfl : changeA = changeA' := Except.ok.inj ((h.change .A).symm.trans (h'.change .A))
  obtain rfl : changeB = changeB' := Except.ok.inj ((h.change .B).symm.trans (h'.change .B))
  obtain rfl : commitment = commitment' := Except.ok.inj (h.commitment.symm.trans h'.commitment)
  obtain ⟨a, b, ha, hb, hinputs⟩ := h.inputs
  obtain ⟨a', b', ha', hb', hinputs'⟩ := h'.inputs
  obtain rfl : a = a' := Except.ok.inj (ha.symm.trans ha')
  obtain rfl : b = b' := Except.ok.inj (hb.symm.trans hb')
  obtain rfl : inputs = inputs' := Option.some.inj (hinputs.symm.trans hinputs')
  rfl

/-- A valid plan leaves only the signing to do. -/
theorem resultIn_build {plan : Plan} (hplan : plan.Valid b committee funding) :
    (build b committee funding).resultIn w = Exchange.resultIn (do
      let (transaction, fee) ← (plan.draft b committee funding).signWithFee (unlocks funding)
        b.amounts.feeRate plan.inputs (takeHalves (plan.changed b committee funding).2)
      return ⟨transaction, plan.prizes, plan.payment, fee⟩) w := by
  obtain ⟨totalA, totalB, htotalA, htotalB, hinputs⟩ := hplan.inputs
  rw [build, resultIn_bind_of_ok hplan.checked, resultIn_bind_of_ok hplan.seated]
  refine (resultIn_bind_of_ok (hplan.funded .A)).trans ?_
  refine (resultIn_bind_of_ok (hplan.funded .B)).trans ?_
  refine (resultIn_bind_of_ok hplan.resolution).trans ?_
  refine (resultIn_bind_of_ok hplan.spendable).trans ?_
  refine (resultIn_bind_of_ok (hplan.prize .A)).trans ?_
  refine (resultIn_bind_of_ok (hplan.prize .B)).trans ?_
  refine (resultIn_bind_of_ok hplan.payment).trans ?_
  refine (resultIn_bind_of_ok hplan.share).trans ?_
  refine (resultIn_bind_of_ok (Outcome.need_eq_ok.2 hplan.payments)).trans ?_
  refine (resultIn_bind_of_ok (hplan.change .A)).trans ?_
  refine (resultIn_bind_of_ok (hplan.change .B)).trans ?_
  refine (resultIn_bind_of_ok hplan.commitment).trans ?_
  refine (resultIn_bind_of_ok htotalA).trans ?_
  refine (resultIn_bind_of_ok htotalB).trans ?_
  exact resultIn_bind_of_ok (Outcome.need_eq_ok.2 hinputs)

theorem gives_build_iff : (build b committee funding).Gives w p w' ↔
    ∃ plan : Plan, plan.Valid b committee funding ∧
      p.prizes = plan.prizes ∧ p.payment = plan.payment ∧
      ((plan.draft b committee funding).signWithFee (unlocks funding) b.amounts.feeRate plan.inputs
        (takeHalves (plan.changed b committee funding).2)).Gives w (p.transaction, p.fee) w' := by
  constructor
  · intro h
    rw [build] at h
    obtain ⟨_, hchecked, h⟩ := gives_lift_bind.1 h
    obtain ⟨_, hseated, h⟩ := gives_lift_bind.1 h
    obtain ⟨_, hfundedA, h⟩ := gives_lift_bind.1 h
    obtain ⟨_, hfundedB, h⟩ := gives_lift_bind.1 h
    obtain ⟨resolution, hresolution, h⟩ := gives_lift_bind.1 h
    obtain ⟨_, hspendable, h⟩ := gives_lift_bind.1 h
    obtain ⟨prizeA, hprizeA, h⟩ := gives_lift_bind.1 h
    obtain ⟨prizeB, hprizeB, h⟩ := gives_lift_bind.1 h
    obtain ⟨payment, hpayment, h⟩ := gives_lift_bind.1 h
    obtain ⟨share, hshare, h⟩ := gives_lift_bind.1 h
    obtain ⟨payments, hpayments, h⟩ := gives_lift_bind.1 h
    obtain ⟨changeA, hchangeA, h⟩ := gives_lift_bind.1 h
    obtain ⟨changeB, hchangeB, h⟩ := gives_lift_bind.1 h
    obtain ⟨commitment, hcommitment, h⟩ := gives_lift_bind.1 h
    obtain ⟨totalA, htotalA, h⟩ := gives_lift_bind.1 h
    obtain ⟨totalB, htotalB, h⟩ := gives_lift_bind.1 h
    obtain ⟨inputs, hinputs, h⟩ := gives_lift_bind.1 h
    obtain ⟨⟨transaction, fee⟩, _, hsigned, h⟩ := gives_bind.1 h
    obtain ⟨rfl, rfl⟩ := gives_pure.1 h
    refine ⟨⟨resolution, ⟨prizeA, prizeB⟩, payment, share, payments, ⟨changeA, changeB⟩,
      commitment, inputs⟩, ?_, rfl, rfl, hsigned⟩
    exact {
      checked := hchecked
      seated := hseated
      funded := fun
        | .A => hfundedA
        | .B => hfundedB
      resolution := hresolution
      spendable := hspendable
      prize := fun
        | .A => hprizeA
        | .B => hprizeB
      payment := hpayment
      share := hshare
      payments := Outcome.need_eq_ok.1 hpayments
      change := fun
        | .A => hchangeA
        | .B => hchangeB
      commitment := hcommitment
      inputs := ⟨totalA, totalB, htotalA, htotalB, Outcome.need_eq_ok.1 hinputs⟩ }
  · intro h
    obtain ⟨plan, hplan, hprizes, hpayment, hsigned⟩ := h
    rw [Gives, resultIn_build hplan]
    refine gives_bind.2 ⟨(p.transaction, p.fee), w', hsigned, gives_pure.2 ⟨?_, rfl⟩⟩
    rw [← hpayment]
    exact congrArg (fun prizes => Promise.mk p.transaction prizes p.payment p.fee) hprizes.symm

/-! ## Halves -/

/-- The player's half of an amount, of which player A's is the larger one. -/
def half (total : Nat) : Player → Nat
  | .A => (total + 1) / 2
  | .B => total / 2

theorem half_zero (player : Player) : half 0 player = 0 := by
  cases player <;> rfl

theorem half_add_half (total : Nat) : half total .A + half total .B = total := by
  rw [half, half]
  omega

theorem toNat_halves (total : UInt64) (player : Player) :
    ((halves total).get player).toNat = half total.toNat player := by
  have hb : (total / 2).toNat = total.toNat / 2 := UInt64.toNat_div total 2
  cases player with
  | B => exact hb
  | A =>
    have hle : total / 2 ≤ total := by
      rw [UInt64.le_iff_toNat_le, hb]
      exact Nat.div_le_self ..
    have ha : (total - total / 2).toNat = total.toNat - total.toNat / 2 := by
      rw [UInt64.toNat_sub_of_le _ _ hle, hb]
    rw [half]
    exact ha.trans (by omega)

/-! ## Change -/

theorem changeOf_eq {f : Funding σ} {share required available : UInt64}
    (hrequired : Sats.add? b.amounts.pot share = some required)
    (havailable : Coin.total f.coins = .ok available) :
    changeOf b f share = if required ≤ available then .ok (available - required)
      else .error (.insufficientFunds required available) := by
  rw [changeOf, hrequired, havailable]
  by_cases h : required ≤ available
  · simp [need, bind, Except.bind, Sats.sub?, h]
  · simp [need, bind, Except.bind, Sats.sub?, h]

/-- Change is what the funding leaves of the stake and the share. -/
theorem changeOf_eq_ok {f : Funding σ} {share change : UInt64}
    (h : changeOf b f share = .ok change) : ∃ available, Coin.total f.coins = .ok available ∧
      available.toNat = change.toNat + (b.amounts.pot.toNat + share.toNat) := by
  obtain ⟨required, hrequired, h⟩ := Outcome.bind_eq_ok.1 h
  obtain ⟨available, havailable, h⟩ := Outcome.bind_eq_ok.1 h
  have hadd := Sats.add?_eq_some_iff.1 (Outcome.need_eq_ok.1 hrequired)
  have hsub := Sats.sub?_eq_some_iff.1 (Outcome.need_eq_ok.1 h)
  exact ⟨available, havailable, by omega⟩

/-- The change output that pays `taken` of the fee, if there is any change. -/
def changeOutput (value : UInt64) (address : Address) (taken : UInt64) : List Output :=
  if value = 0 then [] else [⟨value - taken, Script.payToAddress address⟩]

theorem changeOutputs_eq (place : Nat) (change : Sides UInt64) (address : Sides Address) :
    changeOutputs place change address =
      (changeOutput change.a address.a 0 ++ changeOutput change.b address.b 0,
        ⟨if change.a = 0 then none else some place,
          if change.b = 0 then none
          else some (place + (changeOutput change.a address.a 0).length)⟩) := by
  by_cases ha : change.a = 0
  · by_cases hb : change.b = 0
    · simp [changeOutputs, changeOutput, Sides.get, ha, hb]
    · simp [changeOutputs, changeOutput, Sides.get, ha, hb]
  · by_cases hb : change.b = 0
    · simp [changeOutputs, changeOutput, Sides.get, ha, hb]
    · simp [changeOutputs, changeOutput, Sides.get, ha, hb]

theorem length_changeOutput (value : UInt64) (address : Address) (taken : UInt64) :
    (changeOutput value address taken).length = if value = 0 then 0 else 1 := by
  rw [changeOutput]
  split <;> rfl

theorem sum_changeOutput {value taken : UInt64} (h : taken ≤ value) (address : Address) :
    ((changeOutput value address taken).map (·.value.toNat)).sum + taken.toNat = value.toNat := by
  have hle := UInt64.le_iff_toNat_le.1 h
  rw [changeOutput]
  split
  · next hzero =>
    subst hzero
    exact (Nat.zero_add _).trans (Nat.le_zero.1 hle)
  · rw [List.map_singleton, List.sum_singleton, UInt64.toNat_sub_of_le _ _ h]
    exact Nat.sub_add_cancel hle

/-- A share is taken from the change exactly if the change is enough for it. -/
theorem takeShare_changeOutput {front : List Output} {place : Nat} (hplace : front.length = place)
    (back : List Output) (value : UInt64) (address : Address) (share : UInt64) :
    takeShare (if value = 0 then none else some place) share
        (front ++ (changeOutput value address 0 ++ back)) =
      if share ≤ value then .ok (front ++ (changeOutput value address share ++ back))
      else .error (.insufficientFunds share value) := by
  subst hplace
  by_cases hzero : value = 0
  · have hle : share ≤ 0 ↔ share = 0 := by
      rw [UInt64.le_iff_toNat_le, ← UInt64.toNat_inj]
      exact Nat.le_zero
    subst hzero
    simp [takeShare, changeOutput, hle]
  · have hchange (taken : UInt64) : front ++ (changeOutput value address taken ++ back) =
        front ++ ⟨value - taken, Script.payToAddress address⟩ :: back := by
      simp [changeOutput, hzero]
    rw [hchange, hchange, if_neg hzero]
    by_cases hle : share ≤ value
    · simp [takeShare, Output.charge, Sats.sub?, hle]
    · simp [takeShare, Output.charge, Sats.sub?, hle]

namespace Plan

/-- The outputs that pay this fee. -/
def charged (plan : Plan) (b : Bet) (committee : List Seat) (funding : Sides (Funding σ))
    (fee : UInt64) : List Output :=
  plan.fixed b committee ++
    (changeOutput plan.change.a funding.a.change (halves fee).a ++
      changeOutput plan.change.b funding.b.change (halves fee).b)

variable {plan : Plan}

theorem outputs_draft (plan : Plan) (b : Bet) (committee : List Seat)
    (funding : Sides (Funding σ)) :
    (plan.draft b committee funding).outputs = plan.charged b committee funding 0 := by
  rw [draft, changed, changeOutputs_eq]
  rfl

theorem takeHalves_eq (plan : Plan) (b : Bet) (committee : List Seat)
    (funding : Sides (Funding σ)) (fee : UInt64) :
    takeHalves (plan.changed b committee funding).2 (plan.draft b committee funding).outputs fee =
      if (halves fee).a ≤ plan.change.a then
        if (halves fee).b ≤ plan.change.b then .ok (plan.charged b committee funding fee)
        else .error (.insufficientFunds (halves fee).b plan.change.b)
      else .error (.insufficientFunds (halves fee).a plan.change.a) := by
  have hfront : (plan.fixed b committee ++
      changeOutput plan.change.a funding.a.change (halves fee).a).length =
      (plan.fixed b committee).length +
        (changeOutput plan.change.a funding.a.change 0).length := by
    rw [List.length_append, length_changeOutput, length_changeOutput]
  have hfixed : (plan.fixed b committee).length = (plan.fixed b committee).length := rfl
  have ha := takeShare_changeOutput hfixed (changeOutput plan.change.b funding.b.change 0)
    plan.change.a funding.a.change (halves fee).a
  have hb := takeShare_changeOutput hfront [] plan.change.b funding.b.change (halves fee).b
  rw [List.append_nil, List.append_nil, List.append_assoc, List.append_assoc] at hb
  rw [takeHalves, changed, changeOutputs_eq, outputs_draft]
  refine (congrArg (· >>= _) ha).trans ?_
  by_cases hle : (halves fee).a ≤ plan.change.a
  · rw [if_pos hle, if_pos hle]
    exact hb
  · rw [if_neg hle, if_neg hle]
    rfl

/-- The fee is taken exactly if each player's change is enough for a half. -/
theorem takeHalves_eq_ok_iff {fee : UInt64} {outputs : List Output} :
    takeHalves (plan.changed b committee funding).2 (plan.draft b committee funding).outputs fee =
        .ok outputs ↔
      (∀ player, (halves fee).get player ≤ plan.change.get player) ∧
        plan.charged b committee funding fee = outputs := by
  rw [takeHalves_eq]
  constructor
  · intro h
    by_cases hA : (halves fee).a ≤ plan.change.a
    · by_cases hB : (halves fee).b ≤ plan.change.b
      · rw [if_pos hA, if_pos hB] at h
        refine ⟨?_, Except.ok.inj h⟩
        intro player
        cases player with
        | A => exact hA
        | B => exact hB
      · rw [if_pos hA, if_neg hB] at h
        cases h
    · rw [if_neg hA] at h
      cases h
  · intro h
    obtain ⟨hpays, rfl⟩ := h
    have hA : (halves fee).a ≤ plan.change.a := hpays .A
    have hB : (halves fee).b ≤ plan.change.b := hpays .B
    rw [if_pos hA, if_pos hB]

theorem takeHalves_of_short {fee : UInt64}
    (hshort : ∃ player, ¬ (halves fee).get player ≤ plan.change.get player) :
    ∃ required got, takeHalves (plan.changed b committee funding).2
      (plan.draft b committee funding).outputs fee =
        .error (.insufficientFunds required got) := by
  rw [takeHalves_eq]
  by_cases hA : (halves fee).a ≤ plan.change.a
  · by_cases hB : (halves fee).b ≤ plan.change.b
    · obtain ⟨player, hplayer⟩ := hshort
      cases player with
      | A => exact absurd hA hplayer
      | B => exact absurd hB hplayer
    · rw [if_pos hA, if_neg hB]
      exact ⟨_, _, rfl⟩
  · rw [if_neg hA]
    exact ⟨_, _, rfl⟩

/-- The payments are counted in full: a committee that passed its check is not too long. -/
theorem Valid.toNat_payments (hplan : plan.Valid b committee funding) :
    plan.payments.toNat = plan.share.toNat * committee.length := by
  have hlength := Bet.length_lt_of_checkSeats hplan.seated
  rw [Sats.mul?_eq_some_iff.1 hplan.payments, UInt64.toNat_ofNat_of_lt' hlength]

/-- What each player put in is spent on the stake, the payments and the change. -/
theorem Valid.exists_available (hplan : plan.Valid b committee funding) :
    ∃ available : Sides UInt64,
      (∀ player, Coin.total (funding.get player).coins = .ok (available.get player)) ∧
      (∀ player, (available.get player).toNat = (plan.change.get player).toNat +
        (b.amounts.pot.toNat + half plan.payments.toNat player)) ∧
      plan.inputs.toNat = available.a.toNat + available.b.toNat := by
  obtain ⟨totalA, totalB, htotalA, htotalB, hinputs⟩ := hplan.inputs
  have hspent (player : Player) : ∃ available,
      Coin.total (funding.get player).coins = .ok available ∧
        available.toNat = (plan.change.get player).toNat +
          (b.amounts.pot.toNat + half plan.payments.toNat player) := by
    obtain ⟨available, havailable, hchange⟩ := changeOf_eq_ok (hplan.change player)
    rw [toNat_halves] at hchange
    exact ⟨available, havailable, hchange⟩
  obtain ⟨a, ha, hspentA⟩ := hspent .A
  obtain ⟨b, hb, hspentB⟩ := hspent .B
  obtain rfl := Except.ok.inj (ha.symm.trans htotalA)
  obtain rfl := Except.ok.inj (hb.symm.trans htotalB)
  refine ⟨⟨a, b⟩, ?_, ?_, Sats.add?_eq_some_iff.1 hinputs⟩
  · intro player
    cases player with
    | A => exact ha
    | B => exact hb
  · intro player
    cases player with
    | A => exact hspentA
    | B => exact hspentB

theorem sum_fixed (plan : Plan) (b : Bet) (committee : List Seat) :
    ((plan.fixed b committee).map (·.value.toNat)).sum =
      b.amounts.pot.toNat + b.amounts.pot.toNat + plan.share.toNat * committee.length := by
  simp only [fixed, List.cons_append, List.nil_append, List.map_cons, List.sum_cons,
    List.map_const', List.map_replicate, List.sum_replicate_nat, UInt64.toNat_zero]
  rw [Nat.mul_comm]
  omega

/-- Nothing is lost: the outputs and the fee are what the players put in. -/
theorem Valid.sum_charged (hplan : plan.Valid b committee funding) {fee : UInt64}
    (hfee : ∀ player, (halves fee).get player ≤ plan.change.get player) :
    ((plan.charged b committee funding fee).map (·.value.toNat)).sum + fee.toNat =
      plan.inputs.toNat := by
  obtain ⟨available, -, hspent, hinputs⟩ := hplan.exists_available
  have hspentA : available.a.toNat = plan.change.a.toNat + _ := hspent .A
  have hspentB : available.b.toNat = plan.change.b.toNat + _ := hspent .B
  have hchange (player : Player) (address : Address) :
      ((changeOutput (plan.change.get player) address ((halves fee).get player)).map
        (·.value.toNat)).sum + half fee.toNat player = (plan.change.get player).toNat := by
    rw [← toNat_halves]
    exact sum_changeOutput (hfee player) address
  have hchangeA : _ = plan.change.a.toNat := hchange .A funding.a.change
  have hchangeB : _ = plan.change.b.toNat := hchange .B funding.b.change
  have hpayments := half_add_half plan.payments.toNat
  have hhalves := half_add_half fee.toNat
  rw [hplan.toNat_payments] at hspentA hspentB hpayments
  rw [charged, List.map_append, List.map_append, List.sum_append, List.sum_append, sum_fixed]
  simp only [Sides.get] at hchangeA hchangeB
  omega

theorem Valid.exists_paid (hplan : plan.Valid b committee funding) {fee : UInt64}
    (hfee : ∀ player, (halves fee).get player ≤ plan.change.get player) :
    ∃ paid, Output.total (plan.charged b committee funding fee) = .ok paid ∧
      Sats.add? paid fee = some plan.inputs := by
  have hsum := hplan.sum_charged hfee
  have hle : fee ≤ plan.inputs := by
    rw [UInt64.le_iff_toNat_le]
    omega
  have hpaid : (plan.inputs - fee).toNat = plan.inputs.toNat - fee.toNat :=
    UInt64.toNat_sub_of_le _ _ hle
  refine ⟨plan.inputs - fee, Output.total_eq_ok_iff.2 ?_, Sats.add?_eq_some_iff.2 ?_⟩
  · omega
  · omega

theorem Valid.total_draft (hplan : plan.Valid b committee funding) :
    Output.total (plan.draft b committee funding).outputs = .ok plan.inputs := by
  have hnothing (player : Player) : (halves 0).get player ≤ plan.change.get player := by
    rw [UInt64.le_iff_toNat_le, toNat_halves]
    cases player <;> exact Nat.zero_le _
  have hsum := hplan.sum_charged hnothing
  rw [outputs_draft, Output.total_eq_ok_iff]
  exact hsum.symm

end Plan

/-- The outputs of a promise that was built: each player's change paid a half of the fee. -/
theorem charged_of_build (h : (build b committee funding).Gives w p w') :
    ∃ plan : Plan, plan.Valid b committee funding ∧ p.prizes = plan.prizes ∧
      p.payment = plan.payment ∧
      (∀ player, (halves p.fee).get player ≤ plan.change.get player) ∧
      p.transaction.outputs = plan.charged b committee funding p.fee := by
  obtain ⟨plan, hplan, hprizes, hpayment, hsigned⟩ := gives_build_iff.1 h
  obtain ⟨outputs, htaken, hcompletes⟩ := Draft.completes_of_signWithFee hsigned
  obtain ⟨hpays, rfl⟩ := Plan.takeHalves_eq_ok_iff.1 htaken
  exact ⟨plan, hplan, hprizes, hpayment, hpays, congrArg Draft.outputs hcompletes.bare⟩

/-! ## Building with held keys -/

/-- Both players hold their keys. -/
def Held (funding : Sides (Funding σ)) : Prop :=
  ∀ player, ∃ key, (funding.get player).signer = .held key

theorem ready_unlocks (hheld : Held funding) : ∀ u ∈ unlocks funding, u.Ready := by
  intro u hu
  obtain ⟨keyA, hA⟩ := hheld .A
  obtain ⟨keyB, hB⟩ := hheld .B
  rcases List.mem_append.1 hu with hu | hu
  · obtain ⟨coin, -, rfl⟩ := List.mem_map.1 hu
    rw [show funding.a.signer = _ from hA]
    exact .byKey keyA
  · obtain ⟨coin, -, rfl⟩ := List.mem_map.1 hu
    rw [show funding.b.signer = _ from hB]
    exact .byKey keyB

namespace Plan

variable {plan : Plan} {measured : Draft} {fee : UInt64}

theorem exists_measured (plan : Plan) (b : Bet) (committee : List Seat) (hheld : Held funding)
    (outputs : List Output) : ∃ signed tx,
      (({ plan.draft b committee funding with outputs } : Draft).signAll (unlocks funding)).Gives w
        signed w ∧ signed.finish = .ok tx ∧ tx.outputs = outputs := by
  have hlength : (unlocks funding).length =
      ({ plan.draft b committee funding with outputs } : Draft).inputs.length := by
    simp [unlocks, draft]
  exact Draft.exists_signed hlength (ready_unlocks hheld)

/-- A fee that each player's change can pay is paid. -/
theorem Valid.gives_signWithFee (hplan : plan.Valid b committee funding) (hheld : Held funding)
    (hmeasured : ((plan.draft b committee funding).signAll (unlocks funding)).Gives w measured w)
    (hfee : Draft.feeOf measured.size b.amounts.feeRate = .ok fee)
    (hpays : ∀ player, (halves fee).get player ≤ plan.change.get player) : ∃ tx,
      ((plan.draft b committee funding).signWithFee (unlocks funding) b.amounts.feeRate
        plan.inputs (takeHalves (plan.changed b committee funding).2)).Gives w (tx, fee) w := by
  obtain ⟨signed, tx, hsigned, htx, houtputs⟩ :=
    plan.exists_measured (w := w) b committee hheld (plan.charged b committee funding fee)
  obtain ⟨paid, hpaid, hbalance⟩ := hplan.exists_paid hpays
  refine ⟨tx, Draft.gives_signWithFee_iff.2 ⟨hplan.total_draft, measured, w, hmeasured, hfee, _,
    takeHalves_eq_ok_iff.2 ⟨hpays, rfl⟩, signed, hsigned, htx, paid, ?_, hbalance⟩⟩
  rw [houtputs, hpaid]

/-- A fee that some player's change cannot pay is refused. -/
theorem Valid.signWithFee_of_short (hplan : plan.Valid b committee funding)
    (hmeasured : ((plan.draft b committee funding).signAll (unlocks funding)).Gives w measured w)
    (hfee : Draft.feeOf measured.size b.amounts.feeRate = .ok fee)
    (hshort : ∃ player, ¬ (halves fee).get player ≤ plan.change.get player) : ∃ required got,
      ((plan.draft b committee funding).signWithFee (unlocks funding) b.amounts.feeRate plan.inputs
        (takeHalves (plan.changed b committee funding).2)).resultIn w =
          (.error (.insufficientFunds required got), w) := by
  obtain ⟨required, got, htake⟩ := takeHalves_of_short hshort
  refine ⟨required, got, Draft.signWithFee_of_unpaid hplan.total_draft hmeasured ?_⟩
  rw [hfee, Outcome.ok_bind, htake]

end Plan

/-! ## Priced terms -/

/-- What a promise costs a player: the stake, and the player's halves of the payments and the
fee. -/
def cost (b : Bet) (payments fee : Nat) (player : Player) : Nat :=
  b.amounts.pot.toNat + half payments player + half fee player

theorem cost_zero (b : Bet) (payments : Nat) (player : Player) :
    cost b payments 0 player = b.amounts.pot.toNat + half payments player := by
  rw [cost, half_zero, Nat.add_zero]

theorem cost_eq (b : Bet) (payments fee : Nat) (player : Player) :
    cost b payments fee player = cost b payments 0 player + half fee player := by
  rw [cost_zero, cost]

/-- The checks before the amounts are passed, the commitment fits a push, and no amount is too
large. Each player put in what is `available`. -/
structure Priced (b : Bet) (committee : List Seat) (funding : Sides (Funding σ))
    (resolution : UInt32) (share : UInt64) (available : Sides UInt64) : Prop where
  checked : b.check = .ok ()
  seated : b.checkSeats committee = .ok ()
  funded : ∀ player, checkFunding b player (funding.get player) = .ok ()
  timed : b.timeout.seconds = .ok resolution
  spendable : (Contract.ofBet b committee).checkSpendable resolution resolution = .ok ()
  fits : (Commitment.ofBet b (committee.map (·.oracle))).encode.length ≤ Script.maxPush
  shared : b.amounts.oracleShare = .ok share
  total : ∀ player, Coin.total (funding.get player).coins = .ok (available.get player)
  payments : share.toNat * committee.length < UInt64.size
  stake : ∀ player, cost b (share.toNat * committee.length) 0 player < UInt64.size
  inputs : available.a.toNat + available.b.toNat < UInt64.size

namespace Priced

variable {resolution : UInt32} {share : UInt64} {available : Sides UInt64} {fee : UInt64}

theorem exists_payments (h : Priced b committee funding resolution share available) :
    ∃ payments, Sats.mul? share (UInt64.ofNat committee.length) = some payments ∧
      payments.toNat = share.toNat * committee.length := by
  have hlength : (UInt64.ofNat committee.length).toNat = committee.length :=
    UInt64.toNat_ofNat_of_lt' (Bet.length_lt_of_checkSeats h.seated)
  have hmul : Sats.mul? share (UInt64.ofNat committee.length) =
      some (share * UInt64.ofNat committee.length) := if_pos (by rw [hlength]; exact h.payments)
  refine ⟨_, hmul, ?_⟩
  rw [Sats.mul?_eq_some_iff.1 hmul, hlength]

theorem exists_scripts (h : Priced b committee funding resolution share available) :
    ∃ (prizes : Sides Script) (payment : Script),
      (∀ owner, (Contract.ofBet b committee).prize owner resolution = .ok (prizes.get owner)) ∧
      (Contract.ofBet b committee).payment = .ok payment := by
  have hscripts := Contract.checkSpendable_eq_ok_iff.1 h.spendable
  obtain ⟨prizeA, hprizeA, -⟩ := hscripts (.prize .A) (Contract.prize_mem_locks _ .A)
  obtain ⟨prizeB, hprizeB, -⟩ := hscripts (.prize .B) (Contract.prize_mem_locks _ .B)
  obtain ⟨payment, hpayment⟩ := (Contract.ofBet b committee).exists_payment
  refine ⟨⟨prizeA, prizeB⟩, payment, ?_, hpayment⟩
  intro owner
  cases owner with
  | A => exact hprizeA
  | B => exact hprizeB

/-- Each player's change is what the stake and a half of the payments leave. -/
theorem changeOf_eq (h : Priced b committee funding resolution share available)
    {payments : UInt64} (hpayments : payments.toNat = share.toNat * committee.length)
    (player : Player) : ∃ required : UInt64,
      required.toNat = cost b (share.toNat * committee.length) 0 player ∧
      changeOf b (funding.get player) ((halves payments).get player) =
        if required ≤ available.get player then .ok (available.get player - required)
        else .error (.insufficientFunds required (available.get player)) := by
  have hcost : b.amounts.pot.toNat + ((halves payments).get player).toNat =
      cost b (share.toNat * committee.length) 0 player := by
    rw [toNat_halves, hpayments, cost_zero]
  have hrequired : Sats.add? b.amounts.pot ((halves payments).get player) =
      some (b.amounts.pot + (halves payments).get player) :=
    if_pos (by rw [hcost]; exact h.stake player)
  exact ⟨_, (Sats.add?_eq_some_iff.1 hrequired).trans hcost,
    Promise.changeOf_eq hrequired (h.total player)⟩

/-- Players who can pay the stake and the payments have a plan. -/
theorem exists_plan (h : Priced b committee funding resolution share available)
    (hstake : ∀ player, cost b (share.toNat * committee.length) 0 player ≤
      (available.get player).toNat) : ∃ plan : Plan, plan.Valid b committee funding ∧
      ∀ player, (available.get player).toNat = (plan.change.get player).toNat +
        cost b (share.toNat * committee.length) 0 player := by
  obtain ⟨prizes, payment, hprizes, hpayment⟩ := h.exists_scripts
  obtain ⟨commitment, hcommitment⟩ := Script.exists_carrying_iff.2 h.fits
  obtain ⟨payments, hmul, hpayments⟩ := h.exists_payments
  have hchange (player : Player) : ∃ change : UInt64,
      changeOf b (funding.get player) ((halves payments).get player) = .ok change ∧
      (available.get player).toNat = change.toNat +
        cost b (share.toNat * committee.length) 0 player := by
    obtain ⟨required, hrequired, hchange⟩ := h.changeOf_eq hpayments player
    have hle : required ≤ available.get player := by
      rw [UInt64.le_iff_toNat_le, hrequired]
      exact hstake player
    rw [if_pos hle] at hchange
    refine ⟨_, hchange, ?_⟩
    rw [UInt64.toNat_sub_of_le _ _ hle, hrequired]
    exact (Nat.sub_add_cancel (hstake player)).symm
  obtain ⟨changeA, hchangeA, hleftA⟩ := hchange .A
  obtain ⟨changeB, hchangeB, hleftB⟩ := hchange .B
  refine ⟨⟨resolution, prizes, payment, share, payments, ⟨changeA, changeB⟩, commitment,
    available.a + available.b⟩, ?_, ?_⟩
  · exact {
      checked := h.checked
      seated := h.seated
      funded := h.funded
      resolution := h.timed
      spendable := h.spendable
      prize := hprizes
      payment := hpayment
      share := h.shared
      payments := hmul
      change := fun
        | .A => hchangeA
        | .B => hchangeB
      commitment := hcommitment
      inputs := ⟨_, _, h.total .A, h.total .B, if_pos h.inputs⟩ }
  · intro player
    cases player with
    | A => exact hleftA
    | B => exact hleftB

/-- Behind the checks the change of each player is worked out. -/
theorem exists_rest (h : Priced b committee funding resolution share available)
    {payments : UInt64}
    (hpayments : Sats.mul? share (UInt64.ofNat committee.length) = some payments) :
    ∃ rest : UInt64 → UInt64 → Exchange σ Promise,
      (build b committee funding).resultIn w = Exchange.resultIn (do
        let changeA ← changeOf b funding.a (halves payments).a
        let changeB ← changeOf b funding.b (halves payments).b
        rest changeA changeB) w := by
  obtain ⟨prizes, payment, hprizes, hpayment⟩ := h.exists_scripts
  constructor
  rw [build, resultIn_bind_of_ok h.checked, resultIn_bind_of_ok h.seated]
  refine (resultIn_bind_of_ok (h.funded .A)).trans ?_
  refine (resultIn_bind_of_ok (h.funded .B)).trans ?_
  refine (resultIn_bind_of_ok h.timed).trans ?_
  refine (resultIn_bind_of_ok h.spendable).trans ?_
  refine (resultIn_bind_of_ok (hprizes .A)).trans ?_
  refine (resultIn_bind_of_ok (hprizes .B)).trans ?_
  refine (resultIn_bind_of_ok hpayment).trans ?_
  refine (resultIn_bind_of_ok h.shared).trans ?_
  exact resultIn_bind_of_ok (Outcome.need_eq_ok.2 hpayments)

/-- A player who cannot pay the stake and the payments stops the building. -/
theorem build_of_short (h : Priced b committee funding resolution share available)
    (hshort : ∃ player, ¬ cost b (share.toNat * committee.length) 0 player ≤
      (available.get player).toNat) : ∃ required got,
      (build b committee funding).resultIn w = (.error (.insufficientFunds required got), w) := by
  obtain ⟨payments, hmul, hpayments⟩ := h.exists_payments
  obtain ⟨rest, hrest⟩ := h.exists_rest (w := w) hmul
  rw [hrest]
  obtain ⟨requiredA, hrequiredA, hchangeA⟩ := h.changeOf_eq hpayments .A
  obtain ⟨requiredB, hrequiredB, hchangeB⟩ := h.changeOf_eq hpayments .B
  by_cases hA : requiredA ≤ available.get .A
  · rw [if_pos hA] at hchangeA
    have hB : ¬ requiredB ≤ available.get .B := by
      obtain ⟨player, hplayer⟩ := hshort
      cases player with
      | A =>
        rw [← hrequiredA, ← UInt64.le_iff_toNat_le] at hplayer
        exact absurd hA hplayer
      | B => rwa [UInt64.le_iff_toNat_le, hrequiredB]
    rw [if_neg hB] at hchangeB
    exact ⟨_, _, (resultIn_bind_of_ok hchangeA).trans (resultIn_bind_of_error hchangeB)⟩
  · rw [if_neg hA] at hchangeA
    exact ⟨_, _, resultIn_bind_of_error hchangeA⟩

/-- What the players can pay decides whether the promise is built. The fee is the one of the
planned draft, once it is signed. -/
theorem build_of_held (h : Priced b committee funding resolution share available)
    (hheld : Held funding)
    (hfee : ∀ (plan : Plan) (measured : Draft) (w' : σ), plan.Valid b committee funding →
      ((plan.draft b committee funding).signAll (unlocks funding)).Gives w measured w' →
      Draft.feeOf measured.size b.amounts.feeRate = .ok fee) :
    ((∃ player, (available.get player).toNat <
        cost b (share.toNat * committee.length) fee.toNat player) → ∃ required got,
      (build b committee funding).resultIn w = (.error (.insufficientFunds required got), w)) ∧
    ((∀ player, cost b (share.toNat * committee.length) fee.toNat player ≤
        (available.get player).toNat) →
      ∃ p, (build b committee funding).Gives w p w ∧ p.fee = fee) := by
  by_cases hstake : ∀ player, cost b (share.toNat * committee.length) 0 player ≤
      (available.get player).toNat
  · obtain ⟨plan, hplan, hleft⟩ := h.exists_plan hstake
    obtain ⟨measured, _, hmeasured, -⟩ := plan.exists_measured (w := w) b committee hheld
      (plan.draft b committee funding).outputs
    have hfee := hfee plan measured w hplan hmeasured
    have hpays (player : Player) : (halves fee).get player ≤ plan.change.get player ↔
        cost b (share.toNat * committee.length) fee.toNat player ≤
          (available.get player).toNat := by
      rw [UInt64.le_iff_toNat_le, toNat_halves, cost_eq, hleft player]
      omega
    rw [resultIn_build hplan]
    constructor
    · intro hshort
      obtain ⟨player, hplayer⟩ := hshort
      have hnot := (hpays player).not.2 (Nat.not_le.2 hplayer)
      obtain ⟨required, got, hfails⟩ := hplan.signWithFee_of_short hmeasured hfee ⟨player, hnot⟩
      refine ⟨required, got, ?_⟩
      rw [resultIn_bind, hfails]
    · intro hafford
      obtain ⟨tx, hsigned⟩ := hplan.gives_signWithFee hheld hmeasured hfee fun player =>
        (hpays player).2 (hafford player)
      refine ⟨⟨tx, plan.prizes, plan.payment, fee⟩, ?_, rfl⟩
      exact gives_build_iff.2 ⟨plan, hplan, rfl, rfl, hsigned⟩
  · have hshort : ∃ player, ¬ cost b (share.toNat * committee.length) 0 player ≤
        (available.get player).toNat := not_forall.1 hstake
    constructor
    · intro _
      exact h.build_of_short hshort
    · intro hafford
      obtain ⟨player, hplayer⟩ := hshort
      have hle := hafford player
      rw [cost_eq] at hle
      omega

end Priced

end Wager.Promise
