import Wager.Contract.Settlement
import Wager.Proofs.Drafts
import Wager.Proofs.Faults
import Wager.Proofs.Splits

/-!
# The accounts of a redemption

`Draft.signWithFee` asks before it signs whether the outputs distribute the inputs, and afterwards
whether outputs and fee add up to them. Neither question ever stops a redemption: the shares of what
is claimed add up to it, and the shares of the fee are all that is taken from them. A redemption
without the questions is therefore the same (`Settlement.redeem_eq_payOut`).

**Faults.** Before it redeems, a path makes its checks and searches for its scripts. No fault of the
kinds that `signWithFee` raises about the accounts comes of these either (`Outcome.Unaudited`), and
none over a push that is too long (`Fault.ofPreparing`).
-/

namespace Wager

open Exchange

variable {α β σ : Type}

/-! ## Signing without a look at the accounts -/

namespace Exchange

variable {x : Exchange σ α} {f g : α → Exchange σ β}

/-- What follows a step matters only where the step succeeds. -/
theorem bind_congr_of_gives (h : ∀ {w a w'}, x.Gives w a w' → f a = g a) : x >>= f = x >>= g := by
  refine funext fun w => ?_
  change resultIn (x >>= f) w = resultIn (x >>= g) w
  rw [resultIn_bind, resultIn_bind]
  rcases hx : x.resultIn w with ⟨_ | a, w'⟩
  · rfl
  · exact congrArg (resultIn · w') (h hx)

end Exchange

namespace Draft

variable {d : Draft} {unlocks : List (Unlock σ)} {rate inputs : UInt64}
  {takeFee : List Output → UInt64 → Outcome (List Output)}

/-- Signs a draft with its fee as `signWithFee` does, but does not look at the accounts. -/
def signForFee (d : Draft) (unlocks : List (Unlock σ)) (rate : UInt64)
    (takeFee : List Output → UInt64 → Outcome (List Output)) :
    Exchange σ (Transaction × UInt64) := do
  let measured ← d.signAll unlocks
  let fee ← feeOf measured.size rate
  let outputs ← takeFee d.outputs fee
  let signed ← { d with outputs }.signAll unlocks
  return (← signed.finish, fee)

/-- The accounts stop nothing when the draft distributes the inputs and the fee is what its taking
takes. -/
theorem signWithFee_eq (hdistributed : Output.total d.outputs = .ok inputs)
    (htaken : ∀ {fee outputs}, takeFee d.outputs fee = .ok outputs →
      (outputs.map (·.value.toNat)).sum + fee.toNat = inputs.toNat) :
    d.signWithFee unlocks rate inputs takeFee = d.signForFee unlocks rate takeFee := by
  rw [signWithFee, lift_ok_bind hdistributed, if_neg (UInt64.lt_irrefl inputs),
    if_neg (UInt64.lt_irrefl inputs)]
  refine bind_congr_of_gives fun _ => bind_congr_of_gives fun {_ fee _} _ => ?_
  refine bind_congr_of_gives fun {_ outputs _} houtputs => bind_congr_of_gives fun hsigned => ?_
  refine bind_congr_of_gives fun {_ tx _} htx => ?_
  -- Signing keeps the outputs, so what is paid is what the fee has left.
  have hkept : tx.outputs = outputs :=
    congrArg Draft.outputs (completes_of_signAll hsigned (gives_lift.1 htx).1).bare
  have hsum := htaken (gives_lift.1 houtputs).1
  have hpaid : (inputs - fee).toNat = (outputs.map (·.value.toNat)).sum := by
    rw [UInt64.toNat_sub_of_le _ _ (UInt64.le_iff_toNat_le.2 (by omega)), ← hsum,
      Nat.add_sub_cancel]
  rw [lift_ok_bind (Output.total_eq_ok_iff.2 (by rw [hkept, hpaid])), if_neg]
  rw [not_not, Sats.add?_eq_some_iff, hpaid, hsum]

end Draft

/-! ## Paying out -/

namespace Settlement

variable {claims : List (Claim σ)} {destinations : List Address} {total : UInt64}

/-- The draft that pays the claims to the destinations in equal shares, before any fee. -/
def payDraft (claims : List (Claim σ)) (total : UInt64) (destinations : List Address) : Draft where
  version := Draft.currentVersion
  inputs := claims.map fun claim => ⟨claim.coin.outpoint, claim.sequence, none⟩
  outputs := (splitEvenly total destinations.length).zipWith
    (fun share address => ⟨share, Script.payToAddress address⟩) destinations
  lockTime := 0

/-- Pays what is claimed to the destinations as `redeem` does, but does not look at the accounts. -/
def payOut (s : Settlement) (claims : List (Claim σ)) (destinations : List Address) :
    Exchange σ (Transaction × UInt64) := do
  if destinations.isEmpty then throw (.malformed .noDestination)
  let total ← need (.malformed (.overflow .claims))
    (Sats.sum? (claims.map (·.coin.output.value)))
  (payDraft claims total destinations).signForFee (claims.map (·.unlock)) s.bet.amounts.feeRate
    Output.afterFee

theorem values_payDraft : (payDraft claims total destinations).outputs.map (·.value) =
    splitEvenly total destinations.length := by
  rw [payDraft, ← List.map_uncurry_zip_eq_zipWith, List.map_map]
  exact List.map_fst_zip (Nat.le_of_eq (length_splitEvenly total destinations.length))

theorem sum_payDraft (claims : List (Claim σ)) (total : UInt64) (h : destinations ≠ []) :
    ((payDraft claims total destinations).outputs.map (·.value.toNat)).sum = total.toNat := by
  rw [← sum_splitEvenly (mt List.length_eq_zero_iff.1 h), ← values_payDraft, List.map_map]
  rfl

/-- The accounts of a redemption are always in order. -/
theorem redeem_eq_payOut (s : Settlement) (claims : List (Claim σ))
    (destinations : List Address) :
    s.redeem claims destinations = s.payOut claims destinations := by
  rw [redeem, payOut]
  split
  · rfl
  · next hsome =>
    refine bind_congr_of_gives fun {_ total _} _ => ?_
    have hsum := sum_payDraft claims total
      (List.isEmpty_eq_false_iff.1 (Bool.eq_false_iff.2 hsome))
    refine Draft.signWithFee_eq (Output.total_eq_ok_iff.2 hsum.symm) fun houtputs => ?_
    rw [Output.sum_of_afterFee houtputs]
    exact hsum

end Settlement

/-! ## Faults before the redemption -/

/-- Whether `Draft.signWithFee` raises a fault of this kind about the accounts. -/
def Fault.ofAccounts : Fault → Bool
  | .insufficientFunds _ _ => true
  | .inconsistent (.undistributed _ _) => true
  | .inconsistent (.unaccounted _ _ _) => true
  | _ => false

namespace Outcome

end Outcome

/-- Whether a path raises faults of this kind before it redeems: none about the accounts, and none
over a push that is too long. -/
def Fault.ofPreparing : Fault → Bool
  | .malformed (.oversizedPush _) => false
  | fault => !fault.ofAccounts

theorem Fault.ofPreparing_of_ofBuilding (fault : Fault) (h : fault.ofBuilding = true) :
    fault.ofPreparing = true := by
  unfold ofBuilding at h
  split at h
  · rfl
  · rfl
  · cases h

namespace Outcome

/-- The outcome fails only as the preparation of a path may. -/
abbrev OnlyPreparing (x : Outcome α) : Prop := x.Faults fun fault => fault.ofPreparing = true

variable {x : Outcome α}

theorem onlyPreparing_of_onlyBuilding (h : x.OnlyBuilding) : x.OnlyPreparing :=
  h.mono Fault.ofPreparing_of_ofBuilding

end Outcome

open Outcome

/-- The exchange goes on as `next` does with what an outcome gives. The outcome fails only as a
preparation may, and `P` holds of what it gives. -/
def Exchange.Prepares (next : α → Exchange σ β) (P : α → Prop) (x : Exchange σ β) : Prop :=
  ∃ prepare : Outcome α, prepare.OnlyPreparing ∧ (∀ a, prepare = .ok a → P a) ∧
    x = liftM prepare >>= next

namespace Exchange.Prepares

variable {γ : Type} {next : α → Exchange σ β} {P : α → Prop} {fault : Fault}

theorem done {a : α} (h : P a) : Prepares next P (next a) := by
  refine ⟨.ok a, .ok a, fun a' ha' => ?_, (lift_ok_bind rfl next).symm⟩
  obtain rfl := Except.ok.inj ha'
  exact h

theorem error (h : fault.ofPreparing = true) : Prepares next P (throw fault) := by
  refine ⟨.error fault, .error h, fun a ha => ?_, rfl⟩
  cases ha

theorem bind {o : Outcome γ} {f : γ → Exchange σ β} (ho : o.OnlyPreparing)
    (hf : ∀ c, o = .ok c → Prepares next P (f c)) : Prepares next P (liftM o >>= f) := by
  cases o with
  | ok c =>
    rw [lift_ok_bind rfl]
    exact hf c rfl
  | error fault => exact error (ho fault rfl)

theorem check {p : Prop} [Decidable p] {f : PUnit → Exchange σ β} (h : fault.ofPreparing = true)
    (hf : Prepares next P (f ⟨⟩)) :
    Prepares next P (if p then (throw fault : Exchange σ PUnit) >>= f else f ⟨⟩) := by
  split
  · exact error h
  · exact hf

/-- A loop that makes a check for each element. -/
theorem loop {xs : List γ} {body : γ → PUnit → Exchange σ (ForInStep PUnit)}
    {f : PUnit → Exchange σ β} (hbody : ∀ x, Prepares pure (fun _ => True) (body x ⟨⟩))
    (hf : Prepares next P (f ⟨⟩)) : Prepares next P (forIn xs ⟨⟩ body >>= f) := by
  induction xs with
  | nil => exact hf
  | cons x xs ih =>
    obtain ⟨step, hstep, -, heq⟩ := hbody x
    rw [List.forIn_cons, bind_assoc, heq, bind_pure]
    refine bind hstep fun step _ => ?_
    cases step with
    | done => exact hf
    | yield => exact ih

end Exchange.Prepares

/-! ### Scripts -/

namespace Script

theorem faults_committedHash (s : Script) : s.committedHash.OnlyPreparing := by
  unfold committedHash
  split
  · exact .ok _
  · exact .error rfl

end Script

/-! ### Searches -/

namespace RelativeLock

variable {build : UInt32 → Outcome Script} {pairs : UInt32 → UInt32 → Outcome Script}
  {label : String} {nominal first second bound offset : UInt32} {expected : Hash160} {left : Nat}

theorem faults_searchFrom (hbuild : ∀ timeout, (build timeout).OnlyPreparing) :
    (searchFrom nominal expected build left offset).OnlyPreparing := by
  induction left generalizing offset with
  | zero => exact .ok none
  | succ left ih =>
    rw [searchFrom]
    split
    · exact .ok none
    · refine .bind (hbuild _) fun script _ => ?_
      split
      · exact .ok _
      · exact ih

theorem faults_search (hbuild : ∀ timeout, (build timeout).OnlyPreparing) :
    (search label nominal bound expected build).OnlyPreparing := by
  refine .bind (faults_searchFrom hbuild) fun found _ => ?_
  cases found with
  | none => exact .error rfl
  | some found => exact .ok found

theorem faults_searchPairFrom (hpairs : ∀ timeout reply, (pairs timeout reply).OnlyPreparing) :
    (searchPairFrom first second bound expected pairs left offset).OnlyPreparing := by
  induction left generalizing offset with
  | zero => exact .ok none
  | succ left ih =>
    rw [searchPairFrom]
    split
    · exact .ok none
    · refine .bind (faults_searchFrom (hpairs _)) fun found _ => ?_
      cases found with
      | none => exact ih
      | some found => exact .ok _

theorem faults_searchPair (hpairs : ∀ timeout reply, (pairs timeout reply).OnlyPreparing) :
    (searchPair label first second bound expected pairs).OnlyPreparing := by
  refine .bind (faults_searchPairFrom hpairs) fun found _ => ?_
  cases found with
  | none => exact .error rfl
  | some found => exact .ok found

end RelativeLock

/-! ### Transactions and terms -/

theorem Transaction.faults_output (tx : Transaction) (index : Nat) :
    (tx.output index).OnlyPreparing := by
  unfold Transaction.output
  split
  · exact .ok _
  · exact .error rfl

theorem Transaction.faults_coin (tx : Transaction) (index : Nat) : (tx.coin index).OnlyPreparing :=
  .bind (tx.faults_output index) fun _ _ => .ok _

theorem Seat.faults_ofInscription (oracle : PublicKey) (tx : Transaction) :
    (Seat.ofInscription oracle tx).OnlyPreparing := by
  refine .bind (tx.faults_output 0) fun _ _ => .bind (.need rfl) fun _ _ => ?_
  refine .check rfl (.check rfl ?_)
  exact .bind (.need rfl) fun _ _ => .bind (.need rfl) fun _ _ => .ok _

theorem Config.faults_nominal (c : Config) (b : Bet) : (c.nominal b).OnlyPreparing :=
  .bind (.need rfl) fun _ _ => .bind (.need rfl) fun _ _ => .ok _

/-! ### The steps of a path -/

namespace Settlement

open RelativeLock

variable {s : Settlement}

theorem faults_inscribedSeat {inscription : Transaction} {position : Nat} :
    (s.inscribedSeat inscription position).OnlyPreparing := by
  refine .bind (.need rfl) fun seat _ => ?_
  exact .bind (Seat.faults_ofInscription seat.oracle inscription) fun _ _ => .check rfl (.ok _)

theorem faults_playerOf {signer : Signer σ} : (s.playerOf signer).OnlyPreparing := .need rfl

theorem faults_checkMatches {revealed : Openings} {winner : Player} {exclude : Option Nat} :
    (s.checkMatches revealed winner exclude).OnlyPreparing := by
  rw [checkMatches]
  refine .check rfl ?_
  dsimp only
  split
  · exact .error rfl
  · exact .ok ()

theorem faults_recoverPrize {promise : Transaction} {owner : Player} :
    (s.recoverPrize promise owner).OnlyPreparing := by
  refine .bind (promise.faults_output _) fun _ _ => ?_
  refine .bind (Script.faults_committedHash _) fun _ _ => ?_
  refine .bind (s.config.faults_nominal s.bet) fun _ _ => ?_
  exact faults_search fun _ => onlyPreparing_of_onlyBuilding (s.contract.faults_prize owner _)

theorem faults_recoverAnswer {inscription : Transaction} {position : Nat} :
    (s.recoverAnswer inscription position).OnlyPreparing := by
  refine .bind (inscription.faults_output _) fun _ _ => ?_
  refine .bind (Script.faults_committedHash _) fun _ _ => ?_
  refine .bind (s.config.faults_nominal s.bet) fun _ _ => ?_
  exact faults_searchPair fun _ _ =>
    onlyPreparing_of_onlyBuilding (s.contract.faults_answer position _ _)

theorem faults_recoverInsurance {inscription : Transaction} {position : Nat} :
    (s.recoverInsurance inscription position).OnlyPreparing := by
  refine .bind (inscription.faults_output _) fun _ _ => ?_
  refine .bind (Script.faults_committedHash _) fun _ _ => ?_
  refine .bind (s.config.faults_nominal s.bet) fun _ _ => ?_
  exact faults_search fun _ =>
    onlyPreparing_of_onlyBuilding (s.contract.faults_insurance position _)

theorem faults_refundClaim {promise : Transaction} {player : Player} {signer : Signer σ}
    {script : Script} {resolution : UInt32} :
    (refundClaim promise player signer script resolution).OnlyPreparing := by
  refine .bind (promise.faults_coin _) fun _ _ => ?_
  exact .bind (onlyPreparing_of_onlyBuilding (faults_sequence resolution)) fun _ _ => .ok _

end Settlement

end Wager
