import Wager.Proofs.Payouts
import Wager.Proofs.Spendable
import Wager.Proofs.Tolerance

/-!
# One check of spendability holds for all timeouts

A script of a contract has the same size for all timeouts that have locks, so a check that passed
for some says of all of them that they fit the push that redeems them.

**Redemptions.** An unlocking script pushes signatures, arguments and the redeem script. Signatures
are short, and the redeem script was recovered, so it is one of the contract's. What is left are the
arguments, of which only a preimage can be too long (`Settlement.faults_follow`). The links to the
signers may fail as they like.

Main result: `Contract.spendable_at_all_timeouts`.
-/

namespace Wager

open Exchange Outcome

variable {σ : Type}

namespace Settlement

/-- If the fault is over a push that is too long, then it is over a preimage that the path was
given, or it is that of a link to a signer. -/
def Path.Explains (path : Path σ) (fault : Fault) : Prop :=
  ∀ n, fault = .malformed (.oversizedPush n) →
    (∃ preimage ∈ path.preimages, preimage.length = n ∧ Script.maxPush < n) ∨
      ∃ signer ∈ path.signers, signer.Raises fault

variable {s : Settlement} {path : Path σ}

/-- Faults of a kind that no long push is of need no explanation. -/
theorem explains_of_kind {kind : Fault → Bool} {b : Bool}
    (hkind : ∀ n, kind (.malformed (.oversizedPush n)) = !b) (fault : Fault)
    (h : kind fault = b) : path.Explains fault := by
  rintro n rfl
  rw [hkind] at h
  cases b <;> cases h

theorem explains_of_ofPreparing {fault : Fault} (h : fault.ofPreparing = true) :
    path.Explains fault := explains_of_kind (fun _ => rfl) fault h

/-- Every script of the contract fits a push. -/
def Fitting (s : Settlement) : Prop :=
  ∀ resolution reply lock script, s.contract.script resolution reply lock = .ok script →
    script.size ≤ Script.maxPush

/-- The unlocking script of a claim is made unless a preimage is too long to be pushed. -/
theorem Claim.Unlocks.faults_script {claim : Claim σ} {script : Script}
    (h : claim.Unlocks s path script) (hfitting : s.Fitting) {signatures : List Bytes}
    (hshort : ∀ signature ∈ signatures, signature.length ≤ 73) :
    (claim.unlock.script signatures).Faults path.Explains := by
  obtain ⟨resolution, reply, lock, hbuilt⟩ := h.built
  obtain ⟨signers, multisig, args, -, hunlock, -, -, hargs⟩ := h.unlock
  obtain ⟨-, unlocking, hmade⟩ | ⟨data, hmem, hlong, hfails⟩ := claim.unlock.script_cases
    (congrArg Unlock.layout hunlock) (hfitting resolution reply lock script hbuilt)
    fun signature hs => Nat.le_trans (hshort signature hs) (by decide)
  · exact .of_eq_ok hmade
  · rw [hfails]
    refine .error fun n hn => .inl ?_
    obtain rfl : data.length = n := Malformed.oversizedPush.inj (Fault.malformed.inj hn)
    obtain hfits | ⟨preimage, hpreimage, heq⟩ := hargs _ hmem
    · exact absurd hfits (Nat.not_le.2 hlong)
    · obtain rfl := Script.Token.push.inj heq
      exact ⟨data, hpreimage, rfl, hlong⟩

theorem faults_signAll {claims : List (Claim σ)} {scripts : List Script} (hfitting : s.Fitting)
    (hclaims : List.Forall₂ (Claim.Unlocks s path) claims scripts) (d : Draft) :
    Exchange.Faults path.Explains (d.signAll (claims.map (·.unlock))) := by
  have hunlocks : ∀ u ∈ claims.map (·.unlock), ∃ claim script,
      Claim.Unlocks s path claim script ∧ claim.unlock = u := by
    intro u hu
    obtain ⟨claim, hclaim, rfl⟩ := List.mem_map.1 hu
    obtain ⟨script, -, hscript⟩ := exists_mem_of_forall₂ hclaims hclaim
    exact ⟨claim, script, hscript, rfl⟩
  refine Draft.faults_signAll_of (fun _ _ => explains_of_ofPreparing rfl) ?_
  refine Draft.faults_unlockingScripts 0 ?_ ?_ ?_
  · intro u hu
    obtain ⟨claim, script, hscript, rfl⟩ := hunlocks u hu
    obtain ⟨signers, multisig, args, -, hunlock, -⟩ := hscript.unlock
    rw [hunlock]
    exact .ok script
  · intro u hu signer hsigner index code w fault w' hfails
    obtain ⟨claim, script, hscript, rfl⟩ := hunlocks u hu
    obtain ⟨signers, multisig, args, -, hunlock, -, hsigners, -⟩ := hscript.unlock
    rw [hunlock] at hsigner
    rcases signer.faults_sign d index code w fault w' hfails with hown | hraises
    · exact explains_of_kind (fun _ => rfl) fault hown
    · exact fun n _ => .inr ⟨signer, hsigners hsigner, hraises⟩
  · intro u hu index code w signatures w' hsigned
    obtain ⟨claim, script, hscript, rfl⟩ := hunlocks u hu
    exact hscript.faults_script hfitting (Signer.length_le_of_gives_mapM hsigned)

/-- What was prepared is paid out unless a preimage is too long to be pushed. -/
theorem faults_settle {takings : List Taking} {p : Prepared σ} (hfitting : s.Fitting)
    (hp : p.Serves s path takings) : Exchange.Faults path.Explains (s.settle p) := by
  have hsigned (d : Draft) := faults_signAll hfitting hp.scripts d
  refine .bind ?_ fun _ _ _ _ => .pure _
  rw [payOut]
  refine .check (explains_of_ofPreparing rfl) fun _ => ?_
  refine .bindLift (.need (explains_of_ofPreparing rfl)) fun total _ => ?_
  rw [Draft.signForFee]
  refine .bind (hsigned _) fun _ measured _ _ => ?_
  refine .bindLift (.need (explains_of_ofPreparing rfl)) fun fee _ => ?_
  refine .bindLift ((Output.faults_afterFee _ fee).mono (explains_of_kind fun _ => rfl)) ?_
  intro outputs _
  refine .bind (hsigned _) fun _ signed _ hgives => ?_
  obtain ⟨tx, htx⟩ := Draft.exists_finish_of_signAll hgives
  exact .bindLift (.of_eq_ok htx) fun _ _ => .pure _

/-- A path fails over a push that is too long only if a preimage is, as long as the scripts of the
contract are not. -/
theorem faults_follow (hfitting : s.Fitting) (path : Path σ) :
    Exchange.Faults path.Explains (s.follow path) := by
  obtain ⟨prepare, hprepare, hserves, hfollow⟩ := served s path
  rw [hfollow]
  refine .bindLift (hprepare.mono fun _ => explains_of_ofPreparing) fun p hp => ?_
  obtain ⟨takings, hserves⟩ := hserves p hp
  exact faults_settle hfitting hserves

end Settlement

/-! ## All timeouts at once -/

namespace Contract

open RelativeLock Script

/-- The scripts of a contract have the same sizes for any timeouts that have locks, and the check of
spendability comes to the same. If it passes, then all scripts for the other timeouts can be pushed
as well, and no path of a settlement with this contract fails over the size of the script that it
redeems: of the pushes in an unlocking script only a preimage can be too long. -/
theorem spendable_at_all_timeouts {c : Contract} {resolution reply resolution' reply' : UInt32}
    {lock₁ lock₂ lock₃ lock₄ : UInt32} (hresolution : sequence resolution = .ok lock₁)
    (hreply : sequence reply = .ok lock₂) (hresolution' : sequence resolution' = .ok lock₃)
    (hreply' : sequence reply' = .ok lock₄) :
    (∀ lock ∈ c.locks, ∃ script script', c.script resolution reply lock = .ok script ∧
      c.script resolution' reply' lock = .ok script' ∧ script.size = script'.size) ∧
    c.checkSpendable resolution reply = c.checkSpendable resolution' reply' ∧
    (c.checkSpendable resolution reply = .ok () →
      (∀ lock ∈ c.locks, ∃ script pushed, c.script resolution' reply' lock = .ok script ∧
        encodePush script.bytes = .ok pushed) ∧
      ∀ (s : Settlement) (path : Settlement.Path σ), s.contract = c →
        Exchange.Faults path.Explains (s.follow path)) := by
  refine ⟨fun lock hlock => ?_, checkSpendable_eq hresolution hreply hresolution' hreply', ?_⟩
  · obtain ⟨script, hscript⟩ := (exists_script_iff hresolution hreply).2 hlock
    obtain ⟨script', hscript', hsize⟩ := script_of_script hresolution' hreply' hscript
    exact ⟨script, script', hscript, hscript', hsize.symm⟩
  intro hspendable
  refine ⟨fun lock hlock => ?_, fun s path hcontract => ?_⟩
  · obtain ⟨script, hscript⟩ := (exists_script_iff hresolution' hreply').2 hlock
    have hfits : (Piece.push script.bytes).Fits :=
      size_le_of_script hresolution hreply hspendable hscript
    obtain ⟨pushed, hpushed⟩ := Piece.exists_bytes hfits
    exact ⟨script, pushed, hscript, hpushed⟩
  · subst hcontract
    exact Settlement.faults_follow
      (fun _ _ _ _ hscript => size_le_of_script hresolution hreply hspendable hscript) path

end Contract

namespace Settlement

/-- From no timeout at all to the longest that has a lock. -/
theorem idle_spendable : idle.contract.checkSpendable 3600 7200 = .ok () ∧
    idle.contract.checkSpendable 0 33554431 = .ok () ∧
    Exchange.Faults idleRefund.Explains (idle.follow idleRefund) := by
  have hspendable : idle.contract.checkSpendable 3600 7200 = .ok () :=
    @Outcome.eq_ok_of_isSome _ _ () (by decide +kernel)
  obtain ⟨-, heq, hfaults⟩ := @Contract.spendable_at_all_timeouts Unit idle.contract
    3600 7200 0 33554431 _ _ _ _ rfl rfl rfl rfl
  exact ⟨hspendable, heq ▸ hspendable, (hfaults hspendable).2 idle idleRefund rfl⟩

end Settlement

end Wager
