import Wager.Proofs.Promises

/-!
# What each player pays

**What is paid.** A promise that was built pays the commitment, the prizes and the oracles, and
gives each player back what the funding leaves of the stake and of the player's halves of the
payments and the fee, to the satoshi (`Charged`). There is a change output exactly if the funding
exceeds the stake and the half of the payments, even if the fee then takes all of it.

**Who cannot pay.** Players who hold their keys are refused for want of funds exactly if one of them
put in less than that. Nothing else is refused once the terms are `Priced`.

Main result: `charges_shares`.
-/

namespace Wager.Promise

open Exchange

variable {σ : Type} {w w' : σ} {b : Bet} {committee : List Seat} {funding : Sides (Funding σ)}
  {p : Promise}

/-- A player's change, if the funding exceeds the stake and the half of the payments. -/
def changeAfter (b : Bet) (payments fee : Nat) (available : UInt64) (address : Address)
    (player : Player) : List Output :=
  if available.toNat ≤ cost b payments 0 player then []
  else [⟨UInt64.ofNat (available.toNat - cost b payments fee player),
    Script.payToAddress address⟩]

/-- What the transaction of a promise pays and who pays for it. -/
structure Charged (b : Bet) (committee : List Seat) (funding : Sides (Funding σ)) (p : Promise)
    (resolution : UInt32) (share : UInt64) (commitment : Script) (available : Sides UInt64) :
    Prop where
  timed : b.timeout.seconds = .ok resolution
  shared : b.amounts.oracleShare = .ok share
  committed : (Commitment.ofBet b (committee.map (·.oracle))).script = .ok commitment
  prize : ∀ owner,
    (Contract.ofBet b committee).prize owner resolution = .ok (p.prizes.get owner)
  payment : (Contract.ofBet b committee).payment = .ok p.payment
  total : ∀ player, Coin.total (funding.get player).coins = .ok (available.get player)
  affords : ∀ player, cost b (share.toNat * committee.length) p.fee.toNat player ≤
    (available.get player).toNat
  outputs : p.transaction.outputs =
    [⟨0, commitment⟩, ⟨b.amounts.pot, p.prizes.a.wrapped⟩, ⟨b.amounts.pot, p.prizes.b.wrapped⟩] ++
      List.replicate committee.length ⟨share, p.payment.wrapped⟩ ++
      (changeAfter b (share.toNat * committee.length) p.fee.toNat available.a funding.a.change .A ++
        changeAfter b (share.toNat * committee.length) p.fee.toNat available.b funding.b.change .B)
  balance : (p.transaction.outputs.map (·.value.toNat)).sum + p.fee.toNat =
    available.a.toNat + available.b.toNat

theorem changeAfter_eq {payments fee change available : UInt64} {player : Player}
    (hleft : available.toNat = change.toNat + cost b payments.toNat 0 player)
    (hpays : (halves fee).get player ≤ change) (address : Address) :
    changeAfter b payments.toNat fee.toNat available address player =
      changeOutput change address ((halves fee).get player) := by
  have hzero : available.toNat ≤ cost b payments.toNat 0 player ↔ change = 0 := by
    rw [← UInt64.toNat_inj, UInt64.toNat_zero]
    omega
  have hvalue : UInt64.ofNat (available.toNat - cost b payments.toNat fee.toNat player) =
      change - (halves fee).get player := by
    rw [hleft, cost_eq b payments.toNat fee.toNat player, ← toNat_halves,
      Nat.add_comm change.toNat, Nat.add_sub_add_left, ← UInt64.toNat_sub_of_le _ _ hpays,
      UInt64.ofNat_toNat]
  rw [changeAfter, changeOutput, hvalue]
  by_cases h : change = 0
  · rw [if_pos (hzero.2 h), if_pos h]
  · rw [if_neg (hzero.not.2 h), if_neg h]

/-- The fee is the one of the draft that still has all of the change. -/
theorem fee_of_build (h : (build b committee funding).Gives w p w') :
    ∃ (plan : Plan) (measured : Draft) (w₁ : σ), plan.Valid b committee funding ∧
      ((plan.draft b committee funding).signAll (unlocks funding)).Gives w measured w₁ ∧
      Draft.feeOf measured.size b.amounts.feeRate = .ok p.fee := by
  obtain ⟨plan, hplan, -, -, hsigned⟩ := gives_build_iff.1 h
  obtain ⟨-, measured, w₁, hmeasured, hfee, -⟩ := Draft.gives_signWithFee_iff.1 hsigned
  exact ⟨plan, measured, w₁, hplan, hmeasured, hfee⟩

theorem exists_charged (h : (build b committee funding).Gives w p w') :
    ∃ resolution share commitment available,
      Charged b committee funding p resolution share commitment available := by
  obtain ⟨plan, hplan, hprizes, hpayment, hpays, houtputs⟩ := charged_of_build h
  obtain ⟨available, htotal, hspent, hinputs⟩ := hplan.exists_available
  have hleft (player : Player) : (available.get player).toNat =
      (plan.change.get player).toNat + cost b plan.payments.toNat 0 player := by
    rw [cost_zero, hspent player]
  have hchange (player : Player) (address : Address) :
      changeOutput (plan.change.get player) address ((halves p.fee).get player) =
        changeAfter b (plan.share.toNat * committee.length) p.fee.toNat (available.get player)
          address player := by
    rw [← hplan.toNat_payments, changeAfter_eq (hleft player) (hpays player)]
  refine ⟨plan.resolution, plan.share, plan.commitment, available, ?_⟩
  exact {
    timed := hplan.resolution
    shared := hplan.share
    committed := hplan.commitment
    prize := fun owner => by rw [hprizes, hplan.prize owner]
    payment := by rw [hpayment, hplan.payment]
    total := htotal
    affords := by
      intro player
      have hle := UInt64.le_iff_toNat_le.1 (hpays player)
      rw [toNat_halves] at hle
      rw [← hplan.toNat_payments, cost_eq, hleft player]
      omega
    outputs := by
      have hA := hchange .A funding.a.change
      have hB := hchange .B funding.b.change
      rw [houtputs, Plan.charged, Plan.fixed, List.map_const', hprizes, hpayment]
      exact congrArg₂ (fun a b => _ ++ (a ++ b)) hA hB
    balance := by
      rw [houtputs, hplan.sum_charged hpays, hinputs] }

/-- **Each player pays exactly their share.** A promise that was built is `Charged`, with the fee of
the draft that still has all of the change. On priced terms players who hold their keys are refused
for want of funds exactly if one of them cannot pay, and otherwise the promise is built. -/
theorem charges_shares {b : Bet} {committee : List Seat} {funding : Sides (Funding σ)} :
    (∀ p w', (build b committee funding).Gives w p w' →
      (∃ resolution share commitment available,
        Charged b committee funding p resolution share commitment available) ∧
      ∃ (plan : Plan) (measured : Draft) (w₁ : σ), plan.Valid b committee funding ∧
        ((plan.draft b committee funding).signAll (unlocks funding)).Gives w measured w₁ ∧
        Draft.feeOf measured.size b.amounts.feeRate = .ok p.fee) ∧
    (∀ resolution share available fee, Priced b committee funding resolution share available →
      Held funding →
      (∀ (plan : Plan) (measured : Draft) (w' : σ), plan.Valid b committee funding →
        ((plan.draft b committee funding).signAll (unlocks funding)).Gives w measured w' →
        Draft.feeOf measured.size b.amounts.feeRate = .ok fee) →
      ((∃ required got w', (build b committee funding).resultIn w =
          (.error (.insufficientFunds required got), w')) ↔
        ∃ player, (available.get player).toNat <
          cost b (share.toNat * committee.length) fee.toNat player) ∧
      ((∀ player, cost b (share.toNat * committee.length) fee.toNat player ≤
          (available.get player).toNat) →
        ∃ p, (build b committee funding).Gives w p w ∧ p.fee = fee)) := by
  constructor
  · intro p w' h
    exact ⟨exists_charged h, fee_of_build h⟩
  · intro resolution share available fee hpriced hheld hfee
    obtain ⟨hrefused, hbuilt⟩ := hpriced.build_of_held hheld hfee
    refine ⟨⟨?_, ?_⟩, hbuilt⟩
    · intro h
      obtain ⟨required, got, w', hfails⟩ := h
      by_contra hafford
      obtain ⟨p, hp, -⟩ := hbuilt fun player =>
        Nat.le_of_not_lt fun hlt => hafford ⟨player, hlt⟩
      rw [hp] at hfails
      cases congrArg Prod.fst hfails
    · intro hshort
      obtain ⟨required, got, hfails⟩ := hrefused hshort
      exact ⟨required, got, w, hfails⟩

/-! ## An odd payment and an odd fee

An oracle is paid three satoshis, of which player A pays two. Both players put in a thousand. That
is enough for a fee of one satoshi a byte, of which player A again pays one more than player B, but
not for a fee of four. -/

def oddBet (rate : UInt64) : Bet :=
  { Settlement.idle.bet with amounts := ⟨1, 1, 1, 1, 0, rate⟩ }

/-- A bet with a higher stake. Who can fund it can fund the other one. -/
def highBet : Bet := { Settlement.idle.bet with amounts := ⟨1, 1, 1000, 1, 0, 0⟩ }

def oddFunding : Sides (Funding Unit) := heldKeys.map (exactFunding highBet)

theorem odd_priced (rate : UInt64) :
    Priced (oddBet rate) Settlement.idle.committee oddFunding 3600 3 ⟨1000, 1000⟩ := by
  have hunrated : Priced (oddBet 0) Settlement.idle.committee oddFunding 3600 3 ⟨1000, 1000⟩ := {
    checked := by decide +kernel
    seated := by decide +kernel
    funded := checkFunding_exact publicKey_heldKeys
    timed := rfl
    spendable := by decide +kernel
    fits := by
      rw [Commitment.length_encode]
      decide +kernel
    shared := rfl
    total := total_exact highBet heldKeys
    payments := by decide
    stake := by
      intro player
      cases player <;> decide
    inputs := by decide }
  -- no condition looks at the rate
  exact { hunrated with }

def oddPrize : Script := (Settlement.idle.contract.prize .B 3600).toOption.getD .empty

def oddPayment : Script := Settlement.idle.contract.payment.toOption.getD .empty

def oddCommitment : Script := (Commitment.ofBet Settlement.idle.bet
  (Settlement.idle.committee.map (·.oracle))).script.toOption.getD .empty

theorem odd_scripts : Settlement.idle.contract.prize .B 3600 = .ok oddPrize ∧
    Settlement.idle.contract.payment = .ok oddPayment ∧
    (Commitment.ofBet Settlement.idle.bet (Settlement.idle.committee.map (·.oracle))).script =
      .ok oddCommitment :=
  ⟨Outcome.eq_ok_of_isSome (by decide +kernel), Outcome.eq_ok_of_isSome (by decide +kernel),
    Outcome.eq_ok_of_isSome (by decide +kernel)⟩

def oddPlan : Plan where
  resolution := 3600
  prizes := ⟨Settlement.idlePrize, oddPrize⟩
  payment := oddPayment
  share := 3
  payments := 3
  change := ⟨997, 998⟩
  commitment := oddCommitment
  inputs := 2000

theorem oddPlan_valid (rate : UInt64) :
    oddPlan.Valid (oddBet rate) Settlement.idle.committee oddFunding where
  checked := (odd_priced rate).checked
  seated := (odd_priced rate).seated
  funded := (odd_priced rate).funded
  resolution := (odd_priced rate).timed
  spendable := (odd_priced rate).spendable
  prize := fun
    | .A => Settlement.idle_scripts.1
    | .B => odd_scripts.1
  payment := odd_scripts.2.1
  share := (odd_priced rate).shared
  payments := rfl
  change := by
    have hchange (player : Player) : changeOf (oddBet 0) (oddFunding.get player)
        ((halves 3).get player) = .ok (oddPlan.change.get player) := by
      cases player <;> decide +kernel
    exact hchange
  commitment := odd_scripts.2.2
  inputs := ⟨1000, 1000, rfl, rfl, rfl⟩

def oddKeyHash : Player → Hash160
  | .A => Inscription.lateHash 0x751e76e8199196d454941c45d1b3a323f1433bd6
  | .B => Inscription.lateHash 0x06afd46bcdfd22ef94ac122aa11f241244a37ecc

def oddPrizeHash : Hash160 := Inscription.lateHash 0x59688d3c31ad9045a2988b8cbbb9f927d9d4a925

def oddPaymentHash : Hash160 := Inscription.lateHash 0x12fcac201d73f5b5dba0f1f22c40f02da17bb4a4

theorem odd_hashes : (∀ player, (heldKeys.get player).publicKey.hash = oddKeyHash player) ∧
    oddPrize.hash = oddPrizeHash ∧ oddPayment.hash = oddPaymentHash := by
  simp only [PublicKey.hash, Script.hash, hash160_eq]
  refine ⟨fun player => ?_, by decide +kernel⟩
  cases player <;> decide +kernel

/-- The draft on which the fee is measured, with its hashes written out. -/
def oddDraft : Draft where
  version := 2
  inputs := List.replicate 2 ⟨⟨⟨.replicate 32 0⟩, 0⟩, RelativeLock.final, none⟩
  outputs := [⟨0, oddCommitment⟩, ⟨1, Script.payToScript Settlement.idlePrizeHash⟩,
    ⟨1, Script.payToScript oddPrizeHash⟩, ⟨3, Script.payToScript oddPaymentHash⟩,
    ⟨997, Script.payToKey (oddKeyHash .A)⟩, ⟨998, Script.payToKey (oddKeyHash .B)⟩]
  lockTime := 0

theorem odd_draft (rate : UInt64) :
    oddPlan.draft (oddBet rate) Settlement.idle.committee oddFunding = oddDraft := by
  obtain ⟨hkeys, hprize, hpayment⟩ := odd_hashes
  rw [oddDraft, ← hkeys .A, ← hkeys .B, ← Settlement.hash_idlePrize, ← hprize, ← hpayment]
  rfl

def oddDigest : Player → Hash256
  | .A => ⟨(bigEndian 32
      0xbaf278ac615a4b4fd967105d834a9b97217898a79fde1548d2bdfbd7895fd629).toArray, by simp⟩
  | .B => ⟨(bigEndian 32
      0x32d5239a796d18224a2a2d0356646c41641087ab689d9e0c1c4b275d496bb69f).toArray, by simp⟩

def oddSignature : Player → Bytes
  | .A => Signature.toDer ⟨0x6d5e4e8b3e4643d111ee130cf6b72bece1ae38eae22ad896acba60c70bf7f39b,
      0x7700f8e31c1fe30edb111cecc0358b93d83afeca6c61e53715af0b2d96910393⟩
  | .B => Signature.toDer ⟨0x983d897412dd4e34dccd4620ee5460d0432c07ff16c038d61830012957613441,
      0x7ae973fba49d7a8e2cdc42d91a591a577fdb9de10a3b099e635041b119519f93⟩

/-- Each player signs the input in the player's place. -/
def oddIndex : Player → Nat
  | .A => 0
  | .B => 1

theorem odd_signed (player : Player) :
    (heldKeys.get player).signInput oddDraft (oddIndex player)
      (.payToKey (heldKeys.get player).publicKey.hash) =
        .ok (oddSignature player ++ [sighashAll]) := by
  have hdigest : oddDraft.digest (oddIndex player) (.payToKey (oddKeyHash player)) sighashAll =
      .ok (oddDigest player) := by
    rw [Draft.digest, doubleSha256_eq]
    cases player <;> decide +kernel
  have hsign : (heldKeys.get player).sign (oddDigest player) = oddSignature player := by
    cases player <;> exact congrArg Signature.toDer (Signature.sign_eq (by decide +kernel))
  rw [odd_hashes.1, Draft.signInput_of_digest _ hdigest, hsign]

def oddUnlocking (player : Player) : Script :=
  ((Unlock.byKey (oddFunding.get player).signer).script
    [oddSignature player ++ [sighashAll]]).toOption.getD .empty

theorem odd_unlocking (player : Player) : (Unlock.byKey (oddFunding.get player).signer).script
    [oddSignature player ++ [sighashAll]] = .ok (oddUnlocking player) :=
  Outcome.eq_ok_of_isSome (by cases player <;> decide +kernel)

theorem odd_measured : (oddDraft.signAll (unlocks oddFunding)).Gives ()
    (oddDraft.unlocked [oddUnlocking .A, oddUnlocking .B]) () := by
  have hsigned (player : Player) : Gives ([Signer.held (heldKeys.get player)].mapM
      (·.sign oddDraft (oddIndex player) (.payToKey (heldKeys.get player).publicKey.hash))) ()
      [oddSignature player ++ [sighashAll]] () :=
    gives_mapM_of_forall₂ (.cons (gives_lift.2 ⟨odd_signed player, rfl⟩) .nil)
  exact Draft.gives_signAll rfl <|
    Draft.gives_unlockingScripts_cons rfl (hsigned .A) (odd_unlocking .A) <|
      Draft.gives_unlockingScripts_cons rfl (hsigned .B) (odd_unlocking .B) <|
        gives_pure.2 ⟨rfl, rfl⟩

theorem odd_size : (oddDraft.unlocked [oddUnlocking .A, oddUnlocking .B]).size = 545 := by
  rw [Draft.size]
  decide +kernel

/-- The fee is the one of 545 bytes. -/
theorem odd_fee {rate fee : UInt64} (hfee : Draft.feeOf 545 rate = .ok fee) (plan : Plan)
    (measured : Draft) (w' : Unit)
    (hplan : plan.Valid (oddBet rate) Settlement.idle.committee oddFunding)
    (hmeasured : ((plan.draft (oddBet rate) Settlement.idle.committee oddFunding).signAll
      (unlocks oddFunding)).Gives () measured w') : Draft.feeOf measured.size rate = .ok fee := by
  obtain rfl := hplan.unique (oddPlan_valid rate)
  rw [odd_draft] at hmeasured
  obtain ⟨hdraft, -⟩ := Prod.mk.inj (hmeasured.symm.trans odd_measured)
  rw [Except.ok.inj hdraft, odd_size, hfee]

theorem odd_charged :
    (∃ p, (build (oddBet 1) Settlement.idle.committee oddFunding).Gives () p () ∧ p.fee = 545 ∧
      p.transaction.outputs.map (·.value) = [0, 1, 1, 3, 724, 726]) ∧
    ∃ required got, (build (oddBet 4) Settlement.idle.committee oddFunding).resultIn () =
      (.error (.insufficientFunds required got), ()) := by
  constructor
  · obtain ⟨hcharged, hpriced⟩ := @charges_shares Unit () (oddBet 1) Settlement.idle.committee
      oddFunding
    obtain ⟨-, hbuilt⟩ := hpriced 3600 3 ⟨1000, 1000⟩ 545 (odd_priced 1)
      (held_exact highBet heldKeys) (odd_fee rfl)
    obtain ⟨p, hp, hfee⟩ := hbuilt fun player => by cases player <;> decide
    obtain ⟨⟨_, share, _, available, h⟩, -⟩ := hcharged p () hp
    obtain rfl : share = 3 := Except.ok.inj (h.shared.symm.trans rfl)
    have havailable (player : Player) : available.get player = 1000 := by
      have htotal := (h.total player).symm.trans ((odd_priced 1).total player)
      cases player <;> exact Except.ok.inj htotal
    refine ⟨p, hp, hfee, ?_⟩
    rw [h.outputs, hfee, show available.a = 1000 from havailable .A,
      show available.b = 1000 from havailable .B]
    rfl
  · obtain ⟨-, hpriced⟩ := @charges_shares Unit () (oddBet 4) Settlement.idle.committee oddFunding
    obtain ⟨hrefused, -⟩ := hpriced 3600 3 ⟨1000, 1000⟩ 2180 (odd_priced 4)
      (held_exact highBet heldKeys) (odd_fee rfl)
    obtain ⟨required, got, _, hfails⟩ := hrefused.2 ⟨.A, by decide⟩
    exact ⟨required, got, hfails⟩

end Wager.Promise
