import Wager.Proofs.Faults
import Wager.Proofs.Selections
import Wager.Proofs.Windows

/-!
# The agreed fee

What the promise locks for an oracle is its first payment, its payment for an answer and the fee of
its inscription. The inscription pays the first two again, and gives the deposit and the change back
out of the funding. So whatever it does not pay is the agreed fee, and the check for that, which is
made when the players have signed already, never stops an inscription (`Inscription.faults_build`).

Main result: `Inscription.pays_agreed_fee`.
-/

namespace Wager

open Exchange

theorem Coin.total_eq_ok_iff {coins : List Coin} {sum : UInt64} :
    total coins = .ok sum ↔ sum.toNat = worth coins := by
  rw [total, Outcome.need_eq_ok, Sats.sum?_eq_some_iff, List.map_map]
  rfl

theorem Amounts.toNat_oracleShare {a : Amounts} {share : UInt64} (h : a.oracleShare = .ok share) :
    share.toNat = a.firstPayment.toNat + a.oraclePayment.toNat + a.inscriptionFee.toNat := by
  obtain ⟨payments, hpayments, hshare⟩ := Option.bind_eq_some_iff.1 (Outcome.need_eq_ok.1 h)
  rw [Sats.add?_eq_some_iff.1 hshare, Sats.add?_eq_some_iff.1 hpayments]

/-- Whether the fault is the one over the agreed fee. -/
def Fault.isInexactFee : Fault → Bool
  | .inconsistent .inexactFee => true
  | _ => false

theorem Fault.isInexactFee_of_ofSigning (fault : Fault) (h : fault.ofSigning = true) :
    fault.isInexactFee = false := by
  cases fault with
  | inconsistent cause =>
    cases cause with
    | inexactFee => cases h
    | _ => rfl
  | _ => rfl

namespace Inscription

variable {σ : Type} {w w' : σ} {config : Config} {r : Request σ} {i : Inscription}

/-! ## What is paid -/

theorem promisedCoin_eq_ok {payment : Script} {coin : Coin} : promisedCoin r payment = .ok coin ↔
    r.promise.coin (Promise.paymentPlace r.position) = .ok coin ∧
      coin.output.locking = payment.wrapped ∧
      r.bet.amounts.oracleShare = .ok coin.output.value := by
  simp only [promisedCoin, Outcome.bind_eq_ok, Outcome.unless_eq_ok, Outcome.pure_eq_ok, not_not]
  constructor
  · intro h
    obtain ⟨coin', hcoin, hlocking, share, hshare, rfl, rfl⟩ := h
    exact ⟨hcoin, hlocking, hshare⟩
  · intro h
    obtain ⟨hcoin, hlocking, hshare⟩ := h
    exact ⟨coin, hcoin, hlocking, _, hshare, rfl, rfl⟩

namespace Plan

variable {plan : Plan}

theorem Valid.toNat_available (h : plan.Valid config r) :
    plan.available.toNat = Coin.worth r.funding := Coin.total_eq_ok_iff.1 h.available

theorem Valid.change_add_penalty (h : plan.Valid config r) :
    plan.change.toNat + r.bet.amounts.penalty.toNat = Coin.worth r.funding := by
  rw [← h.toNat_available, Sats.sub?_eq_some_iff.1 h.change]

theorem sum_draft (plan : Plan) (r : Request σ) :
    ((plan.draft r).outputs.map (·.value.toNat)).sum = r.bet.amounts.oraclePayment.toNat +
      r.bet.amounts.penalty.toNat + r.bet.amounts.firstPayment.toNat + plan.change.toNat := by
  by_cases hchange : plan.change = 0
  · simp [draft, hchange]
    omega
  · simp [draft, hchange]
    omega

/-- What the outputs leave of the inputs is the agreed fee. -/
theorem Valid.sum_draft_add_fee (h : plan.Valid config r) :
    ((plan.draft r).outputs.map (·.value.toNat)).sum + r.bet.amounts.inscriptionFee.toNat =
      plan.promised.output.value.toNat + plan.available.toNat := by
  obtain ⟨-, -, hshare⟩ := promisedCoin_eq_ok.1 h.promised
  rw [sum_draft, Amounts.toNat_oracleShare hshare, h.toNat_available, ← h.change_add_penalty]
  omega

end Plan

/-- What an inscription spends and what it pays. -/
structure Pays (r : Request σ) (i : Inscription) (promised : Coin) (images : Script)
    (change : UInt64) : Prop where
  spends : r.promise.coin (Promise.paymentPlace r.position) = .ok promised
  inputs : i.transaction.inputs.map (·.prevout) = promised.outpoint :: r.funding.map (·.outpoint)
  seated : r.committee[r.position]? = some r.holder.seat
  carries : Script.carrying (inscriptionMagic ++
    (r.holder.seat.images.a.toList ++ r.holder.seat.images.b.toList)) = .ok images
  answer : (Contract.ofBet r.bet r.committee).answer r.position r.resolution r.reply = .ok i.answer
  insurance : (Contract.ofBet r.bet r.committee).insurance r.position r.reply = .ok i.insurance
  returns : change.toNat + r.bet.amounts.penalty.toNat = Coin.worth r.funding
  outputs : i.transaction.outputs =
    [⟨0, images⟩, ⟨r.bet.amounts.oraclePayment, i.answer.wrapped⟩,
     ⟨r.bet.amounts.penalty, i.insurance.wrapped⟩,
     ⟨r.bet.amounts.firstPayment, Script.payToKey r.holder.key.publicKey.hash⟩] ++
      if change = 0 then [] else [⟨change, Script.payToAddress r.change⟩]
  fee : (i.transaction.outputs.map (·.value.toNat)).sum + r.bet.amounts.inscriptionFee.toNat =
    promised.output.value.toNat + Coin.worth r.funding

theorem pays_of_build (h : (build config r).Gives w i w') :
    ∃ promised images change, Pays r i promised images change := by
  obtain ⟨plan, hplan, signed, hsigned, tx, htx, _, -, _, -, -, rfl⟩ := gives_build_iff.1 h
  have hcompletes := Draft.completes_of_signAll hsigned htx
  have houtputs : tx.outputs = (plan.draft r).outputs := congrArg Draft.outputs hcompletes.bare
  have hinputs := congrArg (fun d : Draft => d.inputs.map (·.prevout)) hcompletes.bare
  simp only [Draft.bare, Draft.ofTransaction, Plan.draft, List.map_map, List.map_cons] at hinputs
  have himages := hplan.images
  rw [hplan.held] at himages
  exact ⟨plan.promised, plan.images, plan.change, {
    spends := (promisedCoin_eq_ok.1 hplan.promised).1
    inputs := hinputs
    seated := hplan.held ▸ hplan.seated
    carries := himages
    answer := hplan.answer
    insurance := hplan.insurance
    returns := hplan.change_add_penalty
    outputs := houtputs
    fee := by rw [houtputs, hplan.sum_draft_add_fee, hplan.toNat_available] }⟩

/-! ## The check of the fee -/

/-- The fault is not the one over the fee, or it is that of a link to a player. -/
def Request.Excuses (r : Request σ) (fault : Fault) : Prop :=
  fault.isInexactFee = false ∨ ∃ signer ∈ r.players.toList, signer.Raises fault

theorem excuses_of_isMalformed (fault : Fault) (h : fault.isMalformed = true) :
    r.Excuses fault := by
  cases fault with
  | malformed => exact .inl rfl
  | _ => cases h

theorem excuses_of_ofBuilding (fault : Fault) (h : fault.ofBuilding = true) : r.Excuses fault :=
  excuses_of_isMalformed fault (fault.isMalformed_of_ofBuilding h)

theorem faults_checkTimeouts (config : Config) (r : Request σ) :
    (checkTimeouts config r).Faults r.Excuses := by
  have hnominal : (config.nominal r.bet).Faults r.Excuses :=
    .bind (.need (.inl rfl)) fun _ _ => .bind (.need (.inl rfl)) fun _ _ => .ok _
  refine .bind hnominal fun nominal _ => .check (.inl rfl) ?_
  split
  · exact .error (.inl rfl)
  · exact .ok ()

theorem faults_promisedCoin (r : Request σ) (payment : Script) :
    (promisedCoin r payment).Faults r.Excuses := by
  have hcoin (index : Nat) : (r.promise.coin index).Faults r.Excuses := by
    refine .bind ?_ fun _ _ => .ok _
    unfold Transaction.output
    split
    · exact .ok _
    · exact .error (.inl rfl)
  refine .bind (hcoin _) fun _ _ => .check (.inl rfl) ?_
  exact .bind (.need (.inl rfl)) fun _ _ => .check (.inl rfl) (.ok _)

theorem faults_checkSpendable (r : Request σ) (c : Contract) (resolution reply : UInt32) :
    (c.checkSpendable resolution reply).Faults r.Excuses := by
  refine .bind (.mapM (fun lock => .bind ?_ fun _ _ => .ok _) _) fun scripts _ => ?_
  · exact (c.faults_script resolution reply lock).mono excuses_of_ofBuilding
  · split
    · exact .error (.inl rfl)
    · exact .ok ()

/-- Only the players are asked over links. -/
theorem faults_signAll (plan : Plan) (r : Request σ) :
    Exchange.Faults r.Excuses ((plan.draft r).signAll (plan.unlocks r)) := by
  intro w fault w' h
  rcases (plan.draft r).faults_signAll (plan.unlocks r) w fault w' h with hsigning | hraises
  · exact .inl (Fault.isInexactFee_of_ofSigning fault hsigning)
  · obtain ⟨u, hu, signer, hsigner, hraises⟩ := hraises
    rcases List.mem_cons.1 hu with rfl | hu
    · exact .inr ⟨signer, hsigner, hraises⟩
    · obtain ⟨_, -, rfl⟩ := List.mem_map.1 hu
      obtain rfl := List.mem_singleton.1 hsigner
      exact hraises.elim

/-- What is signed pays the agreed fee. -/
theorem Plan.Valid.exact {plan : Plan} (h : plan.Valid config r) {signed : Draft} {tx : Transaction}
    {spent paid : UInt64} (hsigned : ((plan.draft r).signAll (plan.unlocks r)).Gives w signed w')
    (htx : signed.finish = .ok tx)
    (hspent : Sats.add? plan.promised.output.value plan.available = some spent)
    (hpaid : Output.total tx.outputs = .ok paid) :
    Sats.add? paid r.bet.amounts.inscriptionFee = some spent := by
  have houtputs : tx.outputs = (plan.draft r).outputs :=
    congrArg Draft.outputs (Draft.completes_of_signAll hsigned htx).bare
  rw [Sats.add?_eq_some_iff, Sats.add?_eq_some_iff.1 hspent, Output.total_eq_ok_iff.1 hpaid,
    houtputs, h.sum_draft_add_fee]

/-- No inscription fails because it would not pay the agreed fee, unless a player is asked over a
link that fails with this itself. -/
theorem faults_build (config : Config) (r : Request σ) :
    Exchange.Faults r.Excuses (build config r) := by
  rw [build]
  refine .bindLift (.need (.inl rfl)) fun seat hseat => .check (.inl rfl) fun hheld => ?_
  refine .bindLift (faults_checkTimeouts config r) fun _ htimeouts => ?_
  refine .check (.inl rfl) fun hsigners => ?_
  refine .bindLift (Contract.faults_payment _) fun payment hpayment => ?_
  refine .bindLift (faults_promisedCoin r payment) fun promised hpromised => ?_
  refine .check (.inl rfl) fun hown => ?_
  refine .bindLift (.need (.inl rfl)) fun available havailable => ?_
  refine .bindLift (.need (.inl rfl)) fun change hchange => ?_
  refine .bindLift (faults_checkSpendable r _ _ _) fun _ hspendable => ?_
  refine .bindLift ((Contract.faults_answer _ _ _ _).mono excuses_of_ofBuilding) ?_
  intro answer hanswer
  refine .bindLift ((Contract.faults_insurance _ _ _).mono excuses_of_ofBuilding) ?_
  intro insurance hinsurance
  refine .bindLift ((Script.faults_assemble _).mono excuses_of_isMalformed) ?_
  intro images himages
  let plan : Plan := ⟨seat, payment, promised, available, change, answer, insurance, images⟩
  have hplan : plan.Valid config r := {
    seated := Outcome.need_eq_ok.1 hseat
    held := not_not.1 hheld
    timeouts := htimeouts
    signers := not_not.1 hsigners
    payment := hpayment
    promised := hpromised
    own := hown
    available := havailable
    change := Outcome.need_eq_ok.1 hchange
    spendable := hspendable
    answer := hanswer
    insurance := hinsurance
    images := himages }
  refine .bind (faults_signAll plan r) fun w signed w' hsigned => ?_
  obtain ⟨tx, htx⟩ := Draft.exists_finish_of_signAll hsigned
  refine .bindLift (.of_eq_ok htx) fun transaction htransaction => ?_
  refine .bindLift (.need (.inl rfl)) fun spent hspent => ?_
  refine .bindLift (.need (.inl rfl)) fun paid hpaid => ?_
  have hexact := hplan.exact hsigned htransaction (Outcome.need_eq_ok.1 hspent) hpaid
  rw [if_neg (not_not.2 hexact)]
  exact .pure _

/-- **An inscription pays exactly the agreed fee.** -/
theorem pays_agreed_fee (config : Config) (r : Request σ) (w : σ) :
    (∀ i w', (build config r).Gives w i w' →
      ∃ promised images change, Pays r i promised images change) ∧
    (∀ w', (build config r).resultIn w = (.error (.inconsistent .inexactFee), w') →
      ∃ signer ∈ r.players.toList, signer.Raises (.inconsistent .inexactFee)) ∧
    Fault.message (.inconsistent .inexactFee) =
      "Protocol inconsistency: inscription does not pay exactly its fee" := by
  refine ⟨fun _ _ => pays_of_build, fun w' h => ?_, rfl⟩
  exact (faults_build config r w _ w' h).resolve_left Bool.noConfusion

/-! ## A deposit of 20000

The late oracle is paid, puts in 30000 for its deposit, and gets 10000 of it back. -/

def pricedAmounts : Amounts := ⟨1000, 5000, 100000, 2000, 20000, 0⟩

def pricedPromise : Transaction :=
  ⟨2, [], [⟨0, .empty⟩, ⟨100000, .empty⟩, ⟨100000, .empty⟩, ⟨8000, latePayment.wrapped⟩], 0⟩

def pricedRequest : Request Unit :=
  { lateRequest with
    bet := { lateBet with amounts := pricedAmounts }
    promise := pricedPromise
    funding := [⟨⟨latePromise.txid, 0⟩, ⟨30000, Script.payToKey lateKey.publicKey.hash⟩⟩]
    players := Promise.heldKeys.map .held }

def pricedCoin : Coin := ⟨⟨pricedPromise.txid, 3⟩, ⟨8000, latePayment.wrapped⟩⟩

def pricedPlan : Plan where
  seat := lateSeat
  payment := latePayment
  promised := pricedCoin
  available := 30000
  change := 10000
  answer := lateAnswer
  insurance := lateInsurance
  images := lateImages

theorem pricedPlan_valid : pricedPlan.Valid lateConfig pricedRequest where
  seated := rfl
  held := late_hashes.1.symm
  timeouts := rfl
  signers := rfl
  payment := late_payment
  promised := promisedCoin_eq_ok.2 ⟨rfl, rfl, rfl⟩
  own := by simp [pricedRequest, lateRequest, lateHolder]
  available := rfl
  change := rfl
  spendable := late_scripts.1
  answer := late_answer
  insurance := late_insurance
  images := late_scripts.2.1

theorem priced_pays : ∃ i promised images change, (build lateConfig pricedRequest).Gives () i () ∧
    Pays pricedRequest i promised images change ∧ change = 10000 ∧
      (i.transaction.outputs.map (·.value.toNat)).sum = 36000 := by
  obtain ⟨i, hi⟩ := exists_build (w := ()) pricedPlan_valid rfl (by decide +kernel) rfl rfl rfl
  obtain ⟨hpays, -, -⟩ := pays_agreed_fee lateConfig pricedRequest ()
  obtain ⟨promised, images, change, hpays⟩ := hpays i () hi
  have hchange : change.toNat + 20000 = 30000 := hpays.returns
  obtain rfl : pricedCoin = promised := Except.ok.inj (rfl.symm.trans hpays.spends)
  have hfee : (i.transaction.outputs.map (·.value.toNat)).sum + 2000 = 8000 + 30000 := hpays.fee
  exact ⟨i, pricedCoin, images, change, hi, hpays,
    UInt64.toNat_inj.1 (Nat.add_right_cancel hchange), Nat.add_right_cancel hfee⟩

end Inscription

end Wager
