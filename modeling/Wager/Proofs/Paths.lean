import Wager.Proofs.Claims
import Wager.Proofs.Digests

/-!
# Every path redeems what it claims

A settlement offers seven paths (`Settlement.Path`). Each checks its claim, recovers the scripts
and hands claims that redeem them to the signing (`redeemed_of_follow`). So what it returns is a
transaction that every input's script accepts.
-/

namespace Wager.Settlement

open Exchange Script

variable {σ : Type} {w w' : σ} {s : Settlement}

/-- A path with its arguments. -/
inductive Path (σ : Type)
  | answer (inscription : Transaction) (position : Nat) (holder : SeatHolder) (winner : Player)
    (destination : Address)
  | silence (inscription : Transaction) (position : Nat) (signers : Sides (Signer σ))
    (destinations : List Address)
  | refute (inscription : Transaction) (position : Nat) (claimant : Signer σ)
    (revealed : Openings) (destination : Address)
  | equivocation (inscription : Transaction) (position : Nat) (claimant : Signer σ)
    (preimages : Sides Bytes) (destination : Address)
  | depositRefund (inscription : Transaction) (position : Nat) (holder : SeatHolder)
    (destination : Address)
  | win (promise : Transaction) (winner : Signer σ) (revealed : Openings) (destination : Address)
  | prizeRefund (promise : Transaction) (owner : Signer σ) (destination : Address)

/-- What comes of a path. -/
def follow (s : Settlement) : Path σ → Exchange σ Redemption
  | .answer inscription position holder winner destination =>
    s.answer inscription position holder winner destination
  | .silence inscription position signers destinations =>
    s.silence inscription position signers destinations
  | .refute inscription position claimant revealed destination =>
    s.refute inscription position claimant revealed destination
  | .equivocation inscription position claimant preimages destination =>
    s.equivocation inscription position claimant preimages destination
  | .depositRefund inscription position holder destination =>
    s.depositRefund inscription position holder destination
  | .win promise winner revealed destination => s.win promise winner revealed destination
  | .prizeRefund promise owner destination => s.prizeRefund promise owner destination

/-- Who signs on a path. -/
def Path.signers : Path σ → List (Signer σ)
  | .answer _ _ holder _ _ => [.held holder.key]
  | .silence _ _ signers _ => signers.toList
  | .refute _ _ claimant _ _ => [claimant]
  | .equivocation _ _ claimant _ _ => [claimant]
  | .depositRefund _ _ holder _ => [.held holder.key]
  | .win _ winner _ _ => [winner]
  | .prizeRefund _ owner _ => [owner]

/-! ## From a path to its claims -/

/-- The claims redeem the scripts of the redemption, which was made by signing them. -/
def Redeemed (s : Settlement) (signers : List (Signer σ)) (r : Redemption) : Prop :=
  ∃ claims destinations w w', (s.redeem claims destinations).Gives w (r.transaction, r.fee) w' ∧
    List.Forall₂ Claim.Redeems claims r.scripts ∧
    ∀ claim ∈ claims, ∀ signer ∈ claim.unlock.signers, signer ∈ signers

theorem redeemed_answer {inscription : Transaction} {position : Nat} {holder : SeatHolder}
    {winner : Player} {destination : Address} {r : Redemption}
    (h : (s.answer inscription position holder winner destination).Gives w r w') :
    s.Redeemed [Signer.held (σ := σ) holder.key] r := by
  rw [answer] at h
  obtain ⟨seat, _, hseat, h⟩ := gives_bind.1 h
  obtain ⟨hholder, h⟩ := gives_unless.1 h
  obtain ⟨⟨script, resolution, reply⟩, _, hrecovered, h⟩ := gives_bind.1 h
  obtain ⟨coin, _, -, h⟩ := gives_bind.1 h
  obtain ⟨sequence, _, hsequence, h⟩ := gives_bind.1 h
  obtain ⟨⟨transaction, fee⟩, _, hredeem, h⟩ := gives_bind.1 h
  obtain ⟨rfl, -⟩ := gives_pure.1 h
  have hseat := seat_of_inscribedSeat (gives_lift.1 hseat).1
  obtain ⟨hscript, -⟩ := answer_of_recoverAnswer (gives_lift.1 hrecovered).1
  have hholder : seat = holder.seat := not_not.1 hholder
  subst hholder
  have himage : hash160 (holder.secrets.get winner).bytes.toList = holder.seat.image winner := by
    cases winner <;> rfl
  refine ⟨_, _, _, _, hredeem, .cons ?_ .nil, by simp [Unlock.byScript]⟩
  exact Claim.redeems_collected hseat hscript (gives_lift.1 hsequence).1 rfl himage

theorem redeemed_silence {inscription : Transaction} {position : Nat}
    {signers : Sides (Signer σ)} {destinations : List Address} {r : Redemption}
    (h : (s.silence inscription position signers destinations).Gives w r w') :
    s.Redeemed signers.toList r := by
  rw [silence] at h
  obtain ⟨seat, _, hseat, h⟩ := gives_bind.1 h
  obtain ⟨_, _, hplayers, h⟩ := gives_bind.1 h
  obtain ⟨⟨script, resolution, reply⟩, _, hrecovered, h⟩ := gives_bind.1 h
  obtain ⟨coin, _, -, h⟩ := gives_bind.1 h
  obtain ⟨sequence, _, hsequence, h⟩ := gives_bind.1 h
  obtain ⟨⟨transaction, fee⟩, _, hredeem, h⟩ := gives_bind.1 h
  obtain ⟨rfl, -⟩ := gives_pure.1 h
  have hseat := seat_of_inscribedSeat (gives_lift.1 hseat).1
  obtain ⟨hscript, -⟩ := answer_of_recoverAnswer (gives_lift.1 hrecovered).1
  have hkeys : ∀ player ∈ Player.all,
      s.contract.players.get player = (signers.get player).publicKey := by
    refine forall_of_gives_forIn (fun {player} {_} {_} {_} hstep => ?_) hplayers
    obtain ⟨found, _, hfound, hstep⟩ := gives_bind.1 hstep
    obtain ⟨hsame, hstep⟩ := gives_unless.1 hstep
    obtain ⟨rfl, -⟩ := gives_pure.1 hstep
    obtain rfl : found = player := not_not.1 hsame
    exact ⟨rfl, key_of_playerOf (gives_lift.1 hfound).1⟩
  refine ⟨_, _, _, _, hredeem, .cons ?_ .nil, by simp [Unlock.byMultisig]⟩
  exact Claim.redeems_returned hseat hscript (gives_lift.1 hsequence).1
    fun player => hkeys player (mem_all player)

theorem redeemed_refute {inscription : Transaction} {position : Nat} {claimant : Signer σ}
    {revealed : Openings} {destination : Address} {r : Redemption}
    (h : (s.refute inscription position claimant revealed destination).Gives w r w') :
    s.Redeemed [claimant] r := by
  rw [refute] at h
  obtain ⟨seat, _, hseat, h⟩ := gives_bind.1 h
  obtain ⟨winner, _, hwinner, h⟩ := gives_bind.1 h
  obtain ⟨wrong, _, -, h⟩ := gives_bind.1 h
  obtain ⟨hwrong, h⟩ := gives_unless.1 h
  obtain ⟨_, _, hmatches, h⟩ := gives_bind.1 h
  obtain ⟨⟨script, resolution, reply⟩, _, hrecovered, h⟩ := gives_bind.1 h
  obtain ⟨coin, _, -, h⟩ := gives_bind.1 h
  obtain ⟨⟨transaction, fee⟩, _, hredeem, h⟩ := gives_bind.1 h
  obtain ⟨rfl, -⟩ := gives_pure.1 h
  have hseat := seat_of_inscribedSeat (gives_lift.1 hseat).1
  obtain ⟨hscript, -⟩ := answer_of_recoverAnswer (gives_lift.1 hrecovered).1
  have hkey := key_of_playerOf (gives_lift.1 hwinner).1
  have himage := Seat.hash_of_outcome? (not_not.1 hwrong)
  refine ⟨_, _, _, _, hredeem, .cons ?_ .nil, by simp [Unlock.byScript]⟩
  exact Claim.redeems_refuted hseat hscript hkey himage (gives_lift.1 hmatches).1

theorem redeemed_equivocation {inscription : Transaction} {position : Nat}
    {claimant : Signer σ} {preimages : Sides Bytes} {destination : Address} {r : Redemption}
    (h : (s.equivocation inscription position claimant preimages destination).Gives w r w') :
    s.Redeemed [claimant] r := by
  rw [equivocation] at h
  obtain ⟨seat, _, hseat, h⟩ := gives_bind.1 h
  obtain ⟨player, _, hplayer, h⟩ := gives_bind.1 h
  obtain ⟨_, _, houtcomes, h⟩ := gives_bind.1 h
  obtain ⟨⟨script, reply⟩, _, hrecovered, h⟩ := gives_bind.1 h
  obtain ⟨coin, _, -, h⟩ := gives_bind.1 h
  obtain ⟨⟨transaction, fee⟩, _, hredeem, h⟩ := gives_bind.1 h
  obtain ⟨rfl, -⟩ := gives_pure.1 h
  have hseat := seat_of_inscribedSeat (gives_lift.1 hseat).1
  obtain ⟨hscript, -⟩ := insurance_of_recoverInsurance (gives_lift.1 hrecovered).1
  have hkey := key_of_playerOf (gives_lift.1 hplayer).1
  have himages : ∀ outcome ∈ Player.all,
      hash160 (preimages.get outcome) = seat.image outcome := by
    refine forall_of_gives_forIn (fun {outcome} {_} {_} {_} hstep => ?_) houtcomes
    obtain ⟨hopens, hstep⟩ := gives_unless.1 hstep
    obtain ⟨rfl, -⟩ := gives_pure.1 hstep
    exact ⟨rfl, Seat.hash_of_outcome? (not_not.1 hopens)⟩
  refine ⟨_, _, _, _, hredeem, .cons ?_ .nil, by simp [Unlock.byScript]⟩
  exact Claim.redeems_equivocated hseat hscript hkey
    fun outcome => himages outcome (mem_all outcome)

theorem redeemed_depositRefund {inscription : Transaction} {position : Nat}
    {holder : SeatHolder} {destination : Address} {r : Redemption}
    (h : (s.depositRefund inscription position holder destination).Gives w r w') :
    s.Redeemed [Signer.held (σ := σ) holder.key] r := by
  rw [depositRefund] at h
  obtain ⟨seat, _, hseat, h⟩ := gives_bind.1 h
  obtain ⟨hholder, h⟩ := gives_unless.1 h
  obtain ⟨⟨script, reply⟩, _, hrecovered, h⟩ := gives_bind.1 h
  obtain ⟨coin, _, -, h⟩ := gives_bind.1 h
  obtain ⟨sequence, _, hsequence, h⟩ := gives_bind.1 h
  obtain ⟨⟨transaction, fee⟩, _, hredeem, h⟩ := gives_bind.1 h
  obtain ⟨rfl, -⟩ := gives_pure.1 h
  have hseat := seat_of_inscribedSeat (gives_lift.1 hseat).1
  obtain ⟨hscript, -⟩ := insurance_of_recoverInsurance (gives_lift.1 hrecovered).1
  have hholder : seat = holder.seat := not_not.1 hholder
  subst hholder
  refine ⟨_, _, _, _, hredeem, .cons ?_ .nil, by simp [Unlock.byScript]⟩
  exact Claim.redeems_kept hseat hscript (gives_lift.1 hsequence).1 rfl

/-- A claim to a player's own prize. -/
theorem redeems_of_refundClaim {promise : Transaction} {player : Player} {signer : Signer σ}
    {script : Script} {resolution : UInt32} {claim : Claim σ}
    (hscript : s.contract.prize player resolution = .ok script)
    (hkey : s.contract.players.get player = signer.publicKey)
    (h : refundClaim promise player signer script resolution = .ok claim) :
    claim.Redeems script ∧ claim.unlock.signers = [signer] := by
  obtain ⟨coin, -, h⟩ := Outcome.bind_eq_ok.1 h
  obtain ⟨sequence, hsequence, h⟩ := Outcome.bind_eq_ok.1 h
  obtain rfl := Outcome.pure_eq_ok.1 h
  exact ⟨Claim.redeems_refunded hscript hsequence hkey, rfl⟩

theorem redeemed_win {promise : Transaction} {winner : Signer σ} {revealed : Openings}
    {destination : Address} {r : Redemption}
    (h : (s.win promise winner revealed destination).Gives w r w') : s.Redeemed [winner] r := by
  rw [win] at h
  obtain ⟨player, _, hplayer, h⟩ := gives_bind.1 h
  obtain ⟨_, _, hmatches, h⟩ := gives_bind.1 h
  obtain ⟨⟨lost, lostResolution⟩, _, hlost, h⟩ := gives_bind.1 h
  obtain ⟨⟨own, resolution⟩, _, hown, h⟩ := gives_bind.1 h
  obtain ⟨coin, _, -, h⟩ := gives_bind.1 h
  obtain ⟨refund, _, hrefund, h⟩ := gives_bind.1 h
  obtain ⟨⟨transaction, fee⟩, _, hredeem, h⟩ := gives_bind.1 h
  obtain ⟨rfl, -⟩ := gives_pure.1 h
  have hkey := key_of_playerOf (gives_lift.1 hplayer).1
  obtain ⟨hlostScript, -⟩ := prize_of_recoverPrize (gives_lift.1 hlost).1
  obtain ⟨hownScript, -⟩ := prize_of_recoverPrize (gives_lift.1 hown).1
  obtain ⟨hrefunded, hsigners⟩ :=
    redeems_of_refundClaim hownScript hkey (gives_lift.1 hrefund).1
  refine ⟨_, _, _, _, hredeem, .cons ?_ (.cons hrefunded .nil), by simp [Unlock.byScript, hsigners]⟩
  exact Claim.redeems_won hlostScript hkey (gives_lift.1 hmatches).1

theorem redeemed_prizeRefund {promise : Transaction} {owner : Signer σ} {destination : Address}
    {r : Redemption} (h : (s.prizeRefund promise owner destination).Gives w r w') :
    s.Redeemed [owner] r := by
  rw [prizeRefund] at h
  obtain ⟨player, _, hplayer, h⟩ := gives_bind.1 h
  obtain ⟨⟨script, resolution⟩, _, hrecovered, h⟩ := gives_bind.1 h
  obtain ⟨claim, _, hclaim, h⟩ := gives_bind.1 h
  obtain ⟨⟨transaction, fee⟩, _, hredeem, h⟩ := gives_bind.1 h
  obtain ⟨rfl, -⟩ := gives_pure.1 h
  have hkey := key_of_playerOf (gives_lift.1 hplayer).1
  obtain ⟨hscript, -⟩ := prize_of_recoverPrize (gives_lift.1 hrecovered).1
  obtain ⟨hrefunded, hsigners⟩ :=
    redeems_of_refundClaim hscript hkey (gives_lift.1 hclaim).1
  refine ⟨_, _, _, _, hredeem, .cons hrefunded .nil, ?_⟩
  simp [hsigners]

theorem redeemed_of_follow {path : Path σ} {r : Redemption} (h : (s.follow path).Gives w r w') :
    s.Redeemed path.signers r := by
  cases path with
  | answer => exact redeemed_answer h
  | silence => exact redeemed_silence h
  | refute => exact redeemed_refute h
  | equivocation => exact redeemed_equivocation h
  | depositRefund => exact redeemed_depositRefund h
  | win => exact redeemed_win h
  | prizeRefund => exact redeemed_prizeRefund h

/-! ## Redeemed scripts accept -/

theorem completes_of_redeem {claims : List (Claim σ)} {destinations : List Address}
    {tx : Transaction} {fee : UInt64}
    (h : (s.redeem claims destinations).Gives w (tx, fee) w') :
    ∃ outputs, tx.Completes ⟨Draft.currentVersion,
      claims.map fun claim => ⟨claim.coin.outpoint, claim.sequence, none⟩, outputs, 0⟩
      (claims.map (·.unlock)) := by
  rw [redeem] at h
  obtain ⟨-, h⟩ := gives_unless.1 h
  obtain ⟨total, _, -, h⟩ := gives_bind.1 h
  obtain ⟨outputs, -, hcompletes⟩ := Draft.completes_of_signWithFee h
  exact ⟨outputs, hcompletes⟩

/-- What a path returns is accepted by the scripts that it names, one for each input. -/
theorem follow_redeems {path : Path σ} {r : Redemption} (h : (s.follow path).Gives w r w')
    (hreliable : ∀ signer ∈ path.signers, ∀ index script, r.scripts[index]? = some script →
      signer.Reliable (.ofTransaction r.transaction) index script) :
    r.scripts.length = r.transaction.inputs.length ∧
      ∀ index script, r.scripts[index]? = some script →
        r.transaction.redeems index script = true := by
  obtain ⟨claims, destinations, _, _, hredeem, hclaims, hsigners⟩ := redeemed_of_follow h
  obtain ⟨outputs, hcompletes⟩ := completes_of_redeem hredeem
  constructor
  · have hlen := congrArg (fun d : Draft => d.inputs.length) hcompletes.bare
    simp only [Draft.length_bare, Draft.ofTransaction, List.length_map] at hlen
    rw [hlen, hclaims.length_eq]
  · intro index script hscript
    obtain ⟨claim, hclaim, signers, multisig, args, items, hunlock, hitems, haccepts⟩ :=
      exists_of_forall₂ hclaims hscript
    have hmem := List.mem_of_getElem? hclaim
    have hunlocks : (claims.map (·.unlock))[index]? =
        some ⟨signers, .script script multisig args⟩ := by simp [hclaim, hunlock]
    have hinputs : (claims.map fun claim => DraftInput.mk claim.coin.outpoint claim.sequence
        none)[index]? = some ⟨claim.coin.outpoint, claim.sequence, none⟩ := by simp [hclaim]
    refine hcompletes.redeems hunlocks hinputs hitems ?_ ?_
    · intro signer hsigner
      refine hreliable signer (hsigners claim hmem signer ?_) index script hscript
      rwa [hunlock]
    · intro signatures hfits hvalid
      exact haccepts _ signatures rfl rfl hfits hvalid

/-! ## A refund

A player takes a prize back from a bet whose only oracle stayed silent, without a fee. -/

def idle : Settlement where
  bet := {
    network := .testnet
    description := ""
    minOracles := 1
    maxOracles := 1
    required := 1
    oracles := Contract.greedy.committee.map (·.oracle)
    backups := []
    players := Contract.greedy.players
    amounts := ⟨0, 0, 1, 0, 0, 0⟩
    timeout := ⟨.hours, 1⟩
    channel := ⟨["a", "b"]⟩ }
  committee := Contract.greedy.committee.map fun seat =>
    ⟨seat.oracle, ⟨.replicate 20 0, .replicate 20 1⟩⟩
  config := {}

/-- The key of player A, whose secret is one. -/
def idleKey : PrivateKey where
  secret := 1
  publicKey := idle.bet.players.a
  secret_lt := by decide
  generates := by decide +kernel

def idlePrize : Script := (idle.contract.prize .A 3600).toOption.getD .empty

def idlePromise : Transaction := ⟨2, [], [⟨0, .empty⟩, ⟨1, idlePrize.wrapped⟩], 0⟩

def idleRefund : Path Unit :=
  .prizeRefund idlePromise (.held idleKey) ⟨.testnet, .key, .replicate 20 0⟩

def idlePrizeHash : Hash160 :=
  ⟨(bigEndian 20 0xa9597e1ebed8b5af4a2e077d62ec3d132eed100b).toArray, by simp⟩

def idleTxid : Txid :=
  ⟨⟨(bigEndian 32 0x4cc2b49bb331cccadc833cb8df1028217a0ab7e38de6f7727e1dabfc4735720b).toArray,
    by simp⟩⟩

/-- The draft of the refund, which no fee changes. -/
def idleDraft : Draft :=
  ⟨2, [⟨⟨idlePromise.txid, 1⟩, 0x400007, none⟩], [⟨1, Script.payToKey (.replicate 20 0)⟩], 0⟩

def idleDigest : Hash256 :=
  ⟨(bigEndian 32 0xb4b0575e326348e2e0a7a7122b6064ce5c5c2c6a7cb394c9d94f5efc39047311).toArray,
    by simp⟩

def idleSignature : Bytes := Signature.toDer
  ⟨0x5e1da0bada51bc4a2af66e8f45e79127967af977bf21846233fc8490a0ff1de4,
    0x3d2023506b1bd605f54f39fc9da3faf1a7a7be1f02ba3698045ade31d97d447f⟩

theorem hash_idlePrize : idlePrize.hash = idlePrizeHash := by
  rw [Script.hash, hash160_eq]
  decide +kernel

theorem idle_txid : idlePromise.txid = idleTxid := by
  rw [idlePromise, wrapped, hash_idlePrize, Transaction.txid, doubleSha256_eq]
  decide +kernel

theorem idle_digest : idleDraft.digest 0 idlePrize sighashAll = .ok idleDigest := by
  rw [idleDraft, idle_txid, Draft.digest, doubleSha256_eq]
  decide +kernel

theorem idle_signs : idleKey.sign idleDigest = idleSignature ∧
    idleKey.publicKey.verify idleDigest idleSignature = true := by
  refine ⟨congrArg Signature.toDer (Signature.sign_eq ?_), by decide +kernel⟩
  decide +kernel

def idleUnlock : Unlock Unit := .byScript (.held idleKey) idlePrize [.flag false]

def idleUnlocking : Script :=
  (idleUnlock.script [idleSignature ++ [sighashAll]]).toOption.getD .empty

theorem idle_scripts : idle.contract.prize .A 3600 = .ok idlePrize ∧
    idleUnlock.script [idleSignature ++ [sighashAll]] = .ok idleUnlocking :=
  ⟨Outcome.eq_ok_of_isSome (by decide +kernel), Outcome.eq_ok_of_isSome (by decide +kernel)⟩

def idleRedemption : Redemption where
  scripts := [idlePrize]
  transaction := ⟨2, [⟨⟨idlePromise.txid, 1⟩, idleUnlocking, 0x400007⟩], idleDraft.outputs, 0⟩
  recovered := .single 3600
  fee := 0

theorem idle_recoverPrize : idle.recoverPrize idlePromise .A = .ok (idlePrize, 3600) := by
  refine Outcome.bind_eq_ok.2 ⟨⟨1, idlePrize.wrapped⟩, rfl, ?_⟩
  refine Outcome.bind_eq_ok.2 ⟨idlePrize.hash, committedHash_wrapped _, ?_⟩
  refine Outcome.bind_eq_ok.2 ⟨(3600, 7200), rfl, RelativeLock.search_eq_ok.2 ?_⟩
  exact (RelativeLock.scans_searchFrom ..).found_at_once (by decide) ⟨rfl, idle_scripts.1, rfl⟩

theorem idle_signInput :
    idleKey.signInput idleDraft 0 idlePrize = .ok (idleSignature ++ [sighashAll]) := by
  rw [Draft.signInput_of_digest idleKey idle_digest, idle_signs.1]

theorem idle_signAll :
    (idleDraft.signAll [idleUnlock]).Gives () (idleDraft.unlocked [idleUnlocking]) () := by
  have hsign : ((Signer.held idleKey).sign idleDraft 0 idlePrize).Gives ()
      (idleSignature ++ [sighashAll]) () := gives_lift.2 ⟨idle_signInput, rfl⟩
  exact Draft.gives_signAll_byScript rfl hsign idle_scripts.2

theorem idle_signWithFee : (idleDraft.signWithFee [idleUnlock] 0 1 Output.afterFee).Gives ()
    (idleRedemption.transaction, 0) () := by
  refine gives_bind.2 ⟨1, (), gives_lift.2 ⟨rfl, rfl⟩, ?_⟩
  refine gives_unless.2 ⟨by decide, gives_unless.2 ⟨by decide, ?_⟩⟩
  refine gives_bind.2 ⟨_, (), idle_signAll, gives_bind.2 ⟨0, (), gives_lift.2 ⟨?_, rfl⟩, ?_⟩⟩
  · simp [Draft.feeOf, Sats.mul?, need]
  refine gives_bind.2 ⟨idleDraft.outputs, (), gives_lift.2 ⟨rfl, rfl⟩, ?_⟩
  refine gives_bind.2 ⟨_, (), idle_signAll, ?_⟩
  refine gives_bind.2 ⟨idleRedemption.transaction, (), gives_lift.2 ⟨rfl, rfl⟩, ?_⟩
  refine gives_bind.2 ⟨1, (), gives_lift.2 ⟨rfl, rfl⟩, ?_⟩
  exact gives_unless.2 ⟨by decide, gives_pure.2 ⟨rfl, rfl⟩⟩

theorem idle_follow : (idle.follow idleRefund).Gives () idleRedemption () := by
  refine gives_bind.2 ⟨.A, (), gives_lift.2 ⟨rfl, rfl⟩, ?_⟩
  refine gives_bind.2 ⟨(idlePrize, 3600), (), gives_lift.2 ⟨idle_recoverPrize, rfl⟩, ?_⟩
  refine gives_bind.2 ⟨⟨⟨⟨idlePromise.txid, 1⟩, 1, idlePrize.wrapped⟩, 0x400007, idleUnlock⟩, (),
    gives_lift.2 ⟨rfl, rfl⟩, ?_⟩
  refine gives_bind.2 ⟨(idleRedemption.transaction, 0), (), ?_, gives_pure.2 ⟨rfl, rfl⟩⟩
  rw [redeem, gives_unless]
  refine ⟨by decide, gives_bind.2 ⟨1, (), gives_lift.2 ⟨rfl, rfl⟩, ?_⟩⟩
  exact idle_signWithFee

/-- The key verifies what it signs here. -/
theorem idle_reliable {d : Draft} (hbare : d.bare = idleDraft.bare) :
    (Signer.held idleKey : Signer σ).Reliable d 0 idlePrize := by
  intro digest hdigest
  rw [Draft.digest_eq_of_bare hbare, idle_digest] at hdigest
  obtain rfl := Except.ok.inj hdigest
  rw [idle_signs.1]
  exact idle_signs.2

theorem idle_redeems : (idle.follow idleRefund).Gives () idleRedemption () ∧
    idleRedemption.scripts.length = idleRedemption.transaction.inputs.length ∧
      ∀ index script, idleRedemption.scripts[index]? = some script →
        idleRedemption.transaction.redeems index script = true := by
  refine ⟨idle_follow, follow_redeems idle_follow fun signer hsigner index script hscript => ?_⟩
  obtain rfl := List.mem_singleton.1 hsigner
  obtain ⟨rfl, rfl⟩ : index = 0 ∧ idlePrize = script := by
    cases index with
    | zero => exact ⟨rfl, Option.some.inj hscript⟩
    | succ index => cases hscript
  exact idle_reliable rfl

end Wager.Settlement
