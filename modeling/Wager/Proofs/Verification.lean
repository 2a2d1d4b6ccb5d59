import Wager.Proofs.Winning

/-!
# Verifying a promise

The player who did not build a promise verifies it before signing. A verification looks for each
output that the terms ask for, at its place and with its exact value and script, and it succeeds if
and only if all of them are there (`Promise.Verified`, `Promise.verify_eq_ok_iff`).

**The loops** over the prizes and over the oracles' payments do nothing but compare, so each of them
succeeds exactly if every output is the expected one.

**Builder and verifier.** A promise that was built starts with its fixed outputs in order. These are
what a verification looks for: the commitment, once it has been read back, the prizes by way of
their scripts, and the payments. Recovering a prize from such a promise needs no search, as it was
built for the nominal timeout.

Main result: `Promise.verify_of_build`.
-/

namespace Wager

open Exchange

namespace Promise

/-- What a transaction that was verified holds. -/
structure Verified (b : Bet) (committee : List Seat) (tx : Transaction) (resolution : UInt32)
    (payment : Script) (share : UInt64) : Prop where
  committed : ∃ output, tx.outputs[commitmentPlace]? = some output ∧
    Commitment.ofScript b.network output.locking =
      .ok (.ofBet b (committee.map (·.oracle)))
  timeout : b.timeout.seconds = .ok resolution
  spendable : (Contract.ofBet b committee).checkSpendable resolution resolution = .ok ()
  prize : ∀ owner, ∃ script, (Contract.ofBet b committee).prize owner resolution = .ok script ∧
    tx.outputs[prizePlace owner]? = some ⟨b.amounts.pot, script.wrapped⟩
  multisig : (Contract.ofBet b committee).payment = .ok payment
  amount : b.amounts.oracleShare = .ok share
  paid : ∀ position < committee.length,
    tx.outputs[paymentPlace position]? = some ⟨share, payment.wrapped⟩

variable {σ : Type} {w w' : σ} {b : Bet} {committee : List Seat} {tx : Transaction}

/-- One step of a loop that compares an output with the expected one. -/
theorem compare_eq_ok {output : Output} {value : UInt64} {locking : Script} {fault : Fault}
    {step : ForInStep PUnit} :
    (if output.value ≠ value ∨ output.locking ≠ locking then do
        throw fault
        return .yield ⟨⟩
      else return .yield ⟨⟩ : Outcome (ForInStep PUnit)) = .ok step ↔
      output = ⟨value, locking⟩ ∧ step = .yield ⟨⟩ := by
  obtain ⟨value', locking'⟩ := output
  rw [Outcome.unless_eq_ok, Outcome.pure_eq_ok, not_or, not_not, not_not, Output.mk.injEq,
    eq_comm (a := step)]

theorem comparePrizes_eq_ok {resolution : UInt32} {u : PUnit} :
    (forIn Player.all PUnit.unit fun player _ => do
        let output ← tx.output (prizePlace player)
        let script ← (Contract.ofBet b committee).prize player resolution
        if output.value ≠ b.amounts.pot ∨ output.locking ≠ script.wrapped then
          throw (.inconsistent (.prizeMismatch player))
          return .yield ⟨⟩
        else return .yield ⟨⟩ : Outcome PUnit) = .ok u ↔
      ∀ owner, ∃ script, (Contract.ofBet b committee).prize owner resolution = .ok script ∧
        tx.outputs[prizePlace owner]? = some ⟨b.amounts.pot, script.wrapped⟩ := by
  rw [Outcome.forIn_eq_ok]
  · simp only [Outcome.bind_eq_ok, compare_eq_ok, Transaction.output_eq_ok, and_true]
    constructor
    · intro h owner
      obtain ⟨_, houtput, script, hscript, rfl⟩ := h owner (Settlement.mem_all owner)
      exact ⟨script, hscript, houtput⟩
    · intro h owner _
      obtain ⟨script, hscript, houtput⟩ := h owner
      exact ⟨_, houtput, script, hscript, rfl⟩
  · intro player step h
    obtain ⟨_, -, h⟩ := Outcome.bind_eq_ok.1 h
    obtain ⟨_, -, h⟩ := Outcome.bind_eq_ok.1 h
    exact (compare_eq_ok.1 h).2

theorem comparePayments_eq_ok {seats : Nat} {share : UInt64} {payment : Script} {u : PUnit} :
    (forIn (List.range seats) PUnit.unit fun position _ => do
        let output ← tx.output (paymentPlace position)
        if output.value ≠ share ∨ output.locking ≠ payment then
          throw (.inconsistent (.paymentMismatch position))
          return .yield ⟨⟩
        else return .yield ⟨⟩ : Outcome PUnit) = .ok u ↔
      ∀ position < seats, tx.outputs[paymentPlace position]? = some ⟨share, payment⟩ := by
  rw [Outcome.forIn_eq_ok]
  · simp only [Outcome.bind_eq_ok, compare_eq_ok, Transaction.output_eq_ok, and_true,
      exists_eq_right, List.mem_range]
  · intro position step h
    obtain ⟨_, -, h⟩ := Outcome.bind_eq_ok.1 h
    exact (compare_eq_ok.1 h).2

/-- A verification succeeds exactly if it finds every output that the terms ask for. -/
theorem verify_eq_ok_iff : verify b committee tx = .ok () ↔
    ∃ resolution payment share, Verified b committee tx resolution payment share := by
  rw [verify]
  constructor
  · intro h
    obtain ⟨output, houtput, h⟩ := Outcome.bind_eq_ok.1 h
    obtain ⟨commitment, hcommitment, h⟩ := Outcome.bind_eq_ok.1 h
    obtain ⟨hterms, h⟩ := Outcome.unless_eq_ok.1 h
    obtain ⟨resolution, htimeout, h⟩ := Outcome.bind_eq_ok.1 h
    obtain ⟨_, hspendable, h⟩ := Outcome.bind_eq_ok.1 h
    obtain ⟨_, hprizes, h⟩ := Outcome.bind_eq_ok.1 h
    obtain ⟨payment, hmultisig, h⟩ := Outcome.bind_eq_ok.1 h
    obtain ⟨share, hamount, h⟩ := Outcome.bind_eq_ok.1 h
    obtain ⟨_, hpayments, -⟩ := Outcome.bind_eq_ok.1 h
    simp only [Commitment.describes, Bool.and_eq_true, decide_eq_true_eq, not_or, not_not]
      at hterms
    obtain ⟨⟨hdescription, hchannel⟩, hcommittee⟩ := hterms
    have hcommitted : commitment = .ofBet b (committee.map (·.oracle)) := by
      rw [Commitment.ofBet, ← hdescription, ← hchannel, ← hcommittee]
    exact ⟨resolution, payment, share, {
      committed := ⟨output, Transaction.output_eq_ok.1 houtput, hcommitted ▸ hcommitment⟩
      timeout := htimeout
      spendable := hspendable
      prize := comparePrizes_eq_ok.1 hprizes
      multisig := hmultisig
      amount := hamount
      paid := comparePayments_eq_ok.1 hpayments }⟩
  · intro h
    obtain ⟨resolution, payment, share, hverified⟩ := h
    obtain ⟨output, houtput, hcommitment⟩ := hverified.committed
    refine Outcome.bind_eq_ok.2 ⟨output, Transaction.output_eq_ok.2 houtput, ?_⟩
    refine Outcome.bind_eq_ok.2 ⟨_, hcommitment, ?_⟩
    refine Outcome.unless_eq_ok.2 ⟨by simp [Commitment.describes, Commitment.ofBet], ?_⟩
    refine Outcome.bind_eq_ok.2 ⟨resolution, hverified.timeout, ?_⟩
    refine Outcome.bind_eq_ok.2 ⟨(), hverified.spendable, ?_⟩
    refine Outcome.bind_eq_ok.2 ⟨⟨⟩, comparePrizes_eq_ok.2 hverified.prize, ?_⟩
    refine Outcome.bind_eq_ok.2 ⟨payment, hverified.multisig, ?_⟩
    refine Outcome.bind_eq_ok.2 ⟨share, hverified.amount, ?_⟩
    exact Outcome.bind_eq_ok.2 ⟨⟨⟩, comparePayments_eq_ok.2 hverified.paid, rfl⟩

/-! ## What was built -/

theorem verified_of_build {funding : Sides (Funding σ)} {p : Promise} {parties : List String}
    (h : (build b committee funding).Gives w p w')
    (hkeys : ∀ key ∈ b.candidates, key.network = b.network)
    (hchannel : Channel.secure parties = .ok b.channel) :
    ∃ resolution payment share, Verified b committee p.transaction resolution payment share := by
  obtain ⟨plan, hplan, hprizes, -, houtputs⟩ := fixed_of_build h
  have hlen : (plan.fixed b committee).length = committee.length + 3 := by simp [Plan.fixed]
  have hcommittee : ∀ key ∈ committee.map (·.oracle), key.network = b.network :=
    List.forall_mem_map.2 fun seat hseat =>
      hkeys _ (Bet.mem_candidates_of_checkSeats hplan.seated seat hseat)
  refine ⟨plan.resolution, plan.payment, plan.share, ?_⟩
  exact {
    committed := by
      refine ⟨⟨0, plan.commitment⟩, ?_, ?_⟩
      · rw [houtputs commitmentPlace (by rw [hlen]; exact Nat.succ_pos _)]
        rfl
      · exact Commitment.ofScript_of_script hcommittee hchannel hplan.commitment
    timeout := hplan.resolution
    spendable := hplan.spendable
    prize := fun owner => by
      refine ⟨plan.prizes.get owner, hplan.prize owner, ?_⟩
      cases owner with
      | A => exact houtputs _ (by rw [hlen, prizePlace]; omega)
      | B => exact houtputs _ (by rw [hlen, prizePlace]; omega)
    multisig := hplan.payment
    amount := hplan.share
    paid := fun position hlt => by
      have hget : (plan.fixed b committee)[paymentPlace position]? =
          some ⟨plan.share, plan.payment.wrapped⟩ := by
        simp [Plan.fixed, paymentPlace, Nat.add_comm 3, hlt]
      rw [houtputs _ (by rw [hlen, paymentPlace]; omega), hget] }

/-- What one player builds the other accepts, and either of them recovers both prizes from it. -/
theorem verify_of_build {funding : Sides (Funding σ)} {p : Promise} {parties : List String}
    (h : (build b committee funding).Gives w p w')
    (hkeys : ∀ key ∈ b.candidates, key.network = b.network)
    (hchannel : Channel.secure parties = .ok b.channel) :
    verify b committee p.transaction = .ok () ∧
      ∀ (config : Config) (resolution reply : UInt32), config.check = .ok () →
        config.nominal b = .ok (resolution, reply) →
        ∃ s, Settlement.new config b committee = .ok s ∧
          ∀ owner, s.recoverPrize p.transaction owner = .ok (p.prizes.get owner, resolution) := by
  refine ⟨verify_eq_ok_iff.2 (verified_of_build h hkeys hchannel), ?_⟩
  intro config resolution reply hconfig hnominal
  obtain ⟨_, hp⟩ := commits_of_build h
  obtain rfl := Except.ok.inj (hp.timeout.symm.trans (Settlement.seconds_of_nominal hnominal))
  refine ⟨⟨b, committee, config⟩, ?_, Settlement.recoverPrize_of_commits hp hconfig hnominal⟩
  exact Outcome.bind_eq_ok.2 ⟨(), hconfig, Outcome.bind_eq_ok.2 ⟨(), hp.seated, rfl⟩⟩

theorem noisy_agreed : ∃ p s, (build Settlement.noisyBet Settlement.noisyCommittee
      (heldKeys.map (exactFunding (σ := Unit) Settlement.noisyBet))).Gives () p () ∧
    verify Settlement.noisyBet Settlement.noisyCommittee p.transaction = .ok () ∧
    Settlement.new {} Settlement.noisyBet Settlement.noisyCommittee = .ok s ∧
    ∀ owner, s.recoverPrize p.transaction owner = .ok (p.prizes.get owner, 3600) := by
  obtain ⟨p, hp⟩ := Settlement.noisy_build
  obtain ⟨hverified, hrecovers⟩ := verify_of_build hp (by decide)
    (rfl : Channel.secure ["a", "b"] = .ok Settlement.noisyBet.channel)
  obtain ⟨s, hs, hrecovered⟩ := hrecovers {} 3600 7200 rfl rfl
  exact ⟨p, s, hp, hverified, hs, hrecovered⟩

end Promise

end Wager
