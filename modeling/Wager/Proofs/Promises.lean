import Wager.Proofs.Commitments
import Wager.Proofs.Paths
import Wager.Proofs.Plans

/-!
# What a promise commits to

**The prizes.** The fee comes out of the change only, so a promise that was built pays the pot to
both prize scripts, in their places (`Promise.commits_of_build`).

**Going on.** The builder checks the scripts with the resolution timeout in the place of the reply
timeout. So a promise for a long resolution is built although no inscription for it ever will be.

Main result: `Promise.spendable_at_nominal`.
-/

namespace Wager.Promise

open Exchange

variable {σ : Type} {w w' : σ}

variable {b : Bet} {committee : List Seat} {funding : Sides (Funding σ)} {p : Promise}

/-! ## The prizes -/

/-- The fixed outputs stand as they were planned. -/
theorem fixed_of_build (h : (build b committee funding).Gives w p w') :
    ∃ plan : Plan, plan.Valid b committee funding ∧ p.prizes = plan.prizes ∧
      Output.total (plan.draft b committee funding).outputs = .ok plan.inputs ∧
      ∀ k < (plan.fixed b committee).length,
        p.transaction.outputs[k]? = (plan.fixed b committee)[k]? := by
  obtain ⟨plan, hplan, hprizes, -, -, houtputs⟩ := charged_of_build h
  refine ⟨plan, hplan, hprizes, hplan.total_draft, ?_⟩
  intro k hk
  rw [houtputs, Plan.charged, List.getElem?_append_left hk]

/-- What a promise that was built commits the players to. -/
structure Commits (b : Bet) (committee : List Seat) (p : Promise) (resolution : UInt32) :
    Prop where
  checked : b.check = .ok ()
  seated : b.checkSeats committee = .ok ()
  timeout : b.timeout.seconds = .ok resolution
  spendable : (Contract.ofBet b committee).checkSpendable resolution resolution = .ok ()
  prize : ∀ owner,
    (Contract.ofBet b committee).prize owner resolution = .ok (p.prizes.get owner)
  output : ∀ owner, p.transaction.outputs[prizePlace owner]? =
    some ⟨b.amounts.pot, (p.prizes.get owner).wrapped⟩
  /-- Both prizes together have a value. -/
  pots : b.amounts.pot.toNat + b.amounts.pot.toNat < UInt64.size

theorem commits_of_build (h : (build b committee funding).Gives w p w') :
    ∃ resolution, p.Commits b committee resolution := by
  obtain ⟨plan, hplan, hprizes, htotal, houtputs⟩ := fixed_of_build h
  refine ⟨plan.resolution, ?_⟩
  exact {
    checked := hplan.checked
    seated := hplan.seated
    timeout := hplan.resolution
    spendable := hplan.spendable
    prize := fun owner => by rw [hprizes, hplan.prize owner]
    output := fun owner => by
      rw [houtputs, hprizes]
      · cases owner <;> rfl
      · cases owner <;> simp [prizePlace, Plan.fixed]
    pots := by
      have hsum := Output.total_eq_ok_iff.1 htotal
      have hlt := plan.inputs.toNat_lt
      simp only [Plan.draft, Plan.fixed, List.cons_append, List.map_cons, List.sum_cons] at hsum
      rw [UInt64.size]
      omega }

/-! ## Promises that cost nothing -/

/-- One coin that is worth the pot. -/
def exactFunding (b : Bet) (key : PrivateKey) : Funding σ where
  coins := [⟨⟨⟨.replicate 32 0⟩, 0⟩, ⟨b.amounts.pot, Script.payToKey key.publicKey.hash⟩⟩]
  change := key.publicKey.address
  signer := .held key

/-- The terms ask for no fee and no payment of the oracles. -/
structure Free (a : Amounts) : Prop where
  share : a.oracleShare = .ok 0
  rate : a.feeRate = 0
  pots : a.pot.toNat + a.pot.toNat < UInt64.size

section

variable {b' : Bet} {keys : Sides PrivateKey}

/-- The funding for one bet pays for any other bet of the same players. -/
theorem checkFunding_exact
    (hkeys : ∀ player, (keys.get player).publicKey = b.players.get player) (player : Player) :
    checkFunding b player ((keys.map (exactFunding (σ := σ) b')).get player) = .ok () := by
  rw [Sides.get_map]
  have hcoins : ¬ (exactFunding (σ := σ) b' (keys.get player)).coins.isEmpty = true :=
    Bool.false_ne_true
  rw [checkFunding]
  refine Outcome.unless_eq_ok.2 ⟨not_not.2 (hkeys player), Outcome.unless_eq_ok.2 ⟨hcoins, ?_⟩⟩
  dsimp only
  split
  · next coin hfound =>
    obtain rfl := List.mem_singleton.1 (List.mem_of_find?_eq_some hfound)
    have hother := List.find?_some hfound
    exact absurd rfl (of_decide_eq_true hother)
  · rfl

theorem total_exact (b' : Bet) (keys : Sides PrivateKey) (player : Player) :
    Coin.total ((keys.map (exactFunding (σ := σ) b')).get player).coins =
      .ok ((⟨b'.amounts.pot, b'.amounts.pot⟩ : Sides UInt64).get player) := by
  have htotal (key : PrivateKey) :
      Coin.total (exactFunding (σ := σ) b' key).coins = .ok b'.amounts.pot :=
    Outcome.need_eq_ok.2 (Sats.sum?_eq_some_iff.2 (by simp [exactFunding]))
  cases player <;> exact htotal _

theorem held_exact (b' : Bet) (keys : Sides PrivateKey) :
    Held (keys.map (exactFunding (σ := σ) b')) := by
  intro player
  rw [Sides.get_map]
  exact ⟨keys.get player, rfl⟩

end

/-- Exact funding by players who hold their keys is priced on free terms whenever the terms, the
committee and the scripts pass their checks. -/
theorem priced_exact {keys : Sides PrivateKey} {resolution : UInt32} (hchecked : b.check = .ok ())
    (hseated : b.checkSeats committee = .ok ())
    (hkeys : ∀ player, (keys.get player).publicKey = b.players.get player)
    (hresolution : b.timeout.seconds = .ok resolution)
    (hspendable : (Contract.ofBet b committee).checkSpendable resolution resolution = .ok ())
    (hcommitment : (Commitment.ofBet b (committee.map (·.oracle))).encode.length ≤ Script.maxPush)
    (hfree : Free b.amounts) : Priced b committee (keys.map (exactFunding (σ := σ) b)) resolution 0
      ⟨b.amounts.pot, b.amounts.pot⟩ where
  checked := hchecked
  seated := hseated
  funded := checkFunding_exact hkeys
  timed := hresolution
  spendable := hspendable
  fits := hcommitment
  shared := hfree.share
  total := total_exact b keys
  payments := by
    rw [UInt64.toNat_zero, Nat.zero_mul]
    decide
  stake := by
    intro player
    rw [UInt64.toNat_zero, Nat.zero_mul]
    have hpot := b.amounts.pot.toNat_lt
    cases player <;> exact hpot
  inputs := hfree.pots

/-- A promise on free terms is built. -/
theorem exists_build {keys : Sides PrivateKey} {resolution : UInt32} (hfree : Free b.amounts)
    (hpriced : Priced b committee (keys.map (exactFunding (σ := σ) b)) resolution 0
      ⟨b.amounts.pot, b.amounts.pot⟩) :
    ∃ p, (build b committee (keys.map (exactFunding (σ := σ) b))).Gives w p w := by
  have hfee (size : Nat) : Draft.feeOf size b.amounts.feeRate = .ok 0 := by
    rw [hfree.rate]
    exact Draft.feeOf_zero size
  obtain ⟨-, hbuild⟩ := hpriced.build_of_held (w := w) (held_exact b keys) fun _ measured _ _ _ =>
    hfee measured.size
  obtain ⟨p, hp, -⟩ := hbuild fun player => by
    rw [UInt64.toNat_zero, Nat.zero_mul]
    cases player <;> exact Nat.le_refl _
  exact ⟨p, hp⟩

/-! ## Going on -/

/-- A promise that was built can be inscribed at the nominal timeouts exactly if the resolution
timeout is below `2 ^ 24` seconds: twice that has no lock, and every inscription is refused. -/
theorem spendable_at_nominal (h : (build b committee funding).Gives w p w') {config : Config}
    (hfactor : config.replyFactor = 2) : ∃ resolution reply,
      config.nominal b = .ok (resolution, reply) ∧
      (Contract.ofBet b committee).checkSpendable resolution reply =
        if resolution < 0x1000000 then .ok () else malformed (.relativeTimeout reply) := by
  obtain ⟨resolution, hp⟩ := commits_of_build h
  obtain ⟨lock, hlock, -⟩ := Contract.prize_eq_ok_iff.1 (hp.prize .A)
  have hlocked : resolution.toNat < 2 ^ 25 := RelativeLock.lt_of_sequence hlock
  have htwice : (2 * resolution).toNat = resolution.toNat * 2 := by
    have htwo : (2 : UInt32).toNat = 2 := rfl
    rw [UInt32.toNat_mul, htwo]
    omega
  have hnominal : config.nominal b = .ok (resolution, 2 * resolution) := by
    refine Outcome.bind_eq_ok.2 ⟨resolution, hp.timeout, Outcome.bind_eq_ok.2 ⟨_, ?_, rfl⟩⟩
    rw [Outcome.need_eq_ok, Seconds.mul?_eq_some_iff, hfactor, htwice]
    rfl
  refine ⟨resolution, 2 * resolution, hnominal, ?_⟩
  split
  · next hearly =>
    have hreply : (2 * resolution).toNat < 2 ^ 25 := by
      have hlt : resolution.toNat < 2 ^ 24 := UInt32.lt_iff_toNat_lt.1 hearly
      omega
    exact Contract.checkSpendable_of_checkSpendable hlock (RelativeLock.sequence_of_lt hreply)
      hp.spendable
  · next hlate =>
    have hreply : 2 ^ 25 ≤ (2 * resolution).toNat := by
      have hle : 2 ^ 24 ≤ resolution.toNat := UInt32.le_iff_toNat_le.1 (UInt32.not_lt.1 hlate)
      omega
    exact Contract.checkSpendable_of_late (Bet.ne_nil_of_checkSeats hp.checked hp.seated)
      hp.spendable (RelativeLock.sequence_of_ge hreply)

/-- A bet that resolves after two hundred days. -/
def distantBet : Bet := { Settlement.idle.bet with timeout := ⟨.days, 200⟩ }

/-- The key of player B, whose secret is two. -/
def rivalKey : PrivateKey where
  secret := 2
  publicKey := Settlement.idle.bet.players.b
  secret_lt := by decide
  generates := by decide +kernel

def heldKeys : Sides PrivateKey := ⟨Settlement.idleKey, rivalKey⟩

theorem publicKey_heldKeys (player : Player) :
    (heldKeys.get player).publicKey = Settlement.idle.bet.players.get player := by
  cases player <;> rfl

theorem distant_spendable : (Contract.ofBet distantBet Settlement.idle.committee).checkSpendable
    17280000 17280000 = .ok () := by decide +kernel

theorem distant_refused : ∃ p, (build distantBet Settlement.idle.committee
      (heldKeys.map (exactFunding (σ := Unit) distantBet))).Gives () p () ∧
    ({} : Config).nominal distantBet = .ok (17280000, 34560000) ∧
    (Contract.ofBet distantBet Settlement.idle.committee).checkSpendable 17280000 34560000 =
      malformed (.relativeTimeout 34560000) := by
  have hfree : Free distantBet.amounts := ⟨rfl, rfl, by decide⟩
  have hcommitment : (Commitment.ofBet distantBet
      (Settlement.idle.committee.map (·.oracle))).encode.length ≤ Script.maxPush := by
    rw [Commitment.length_encode]
    decide +kernel
  obtain ⟨p, hp⟩ := exists_build (σ := Unit) (w := ()) hfree
    (priced_exact (by decide) (by decide) publicKey_heldKeys rfl distant_spendable hcommitment
      hfree)
  obtain ⟨resolution, reply, hnominal, hspendable⟩ :=
    spendable_at_nominal hp (rfl : ({} : Config).replyFactor = 2)
  have hvalues : ({} : Config).nominal distantBet = .ok (17280000, 34560000) := rfl
  obtain ⟨rfl, rfl⟩ := Prod.mk.inj (Except.ok.inj (hnominal.symm.trans hvalues))
  exact ⟨p, hp, hnominal, hspendable⟩

end Wager.Promise
