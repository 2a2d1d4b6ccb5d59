import Mathlib.Data.List.ReduceOption
import Wager.Proofs.Accounts
import Wager.Proofs.Inscriptions
import Wager.Proofs.Paths
import Wager.Proofs.Promises

/-!
# Redemptions pay out what they take

A path takes outputs of its predecessor, the promise or an inscription (`Settlement.Takes`), and
pays all that they hold to its destinations (`Settlement.Payout`).

**Preparation.** A path first makes its checks and recovers its scripts. It ends by redeeming the
claims that came of that. So all that is said of a single path here is which claims it prepares
(`Settlement.Served`), and the rest is one lemma about paying them out
(`Settlement.payout_of_settle`).

Main result: `Settlement.follow_pays_out`.
-/

namespace Wager.Settlement

open Exchange Outcome RelativeLock

variable {α σ : Type} {w w' : σ} {s : Settlement}

/-! ## What a path takes -/

/-- The transaction whose outputs a path redeems. -/
def Path.predecessor : Path σ → Transaction
  | .answer inscription _ _ _ _ => inscription
  | .silence inscription _ _ _ => inscription
  | .refute inscription _ _ _ _ => inscription
  | .equivocation inscription _ _ _ _ => inscription
  | .depositRefund inscription _ _ _ => inscription
  | .win promise _ _ _ => promise
  | .prizeRefund promise _ _ => promise

/-- Who is paid on a path. -/
def Path.destinations : Path σ → List Address
  | .answer _ _ _ _ destination => [destination]
  | .silence _ _ _ destinations => destinations
  | .refute _ _ _ _ destination => [destination]
  | .equivocation _ _ _ _ destination => [destination]
  | .depositRefund _ _ _ destination => [destination]
  | .win _ _ _ destination => [destination]
  | .prizeRefund _ _ destination => [destination]

/-- The preimages that a path pushes as they were given. -/
def Path.preimages : Path σ → List Bytes
  | .refute _ _ _ revealed _ => revealed.slots.reduceOption
  | .equivocation _ _ _ preimages _ => preimages.toList
  | .win _ _ revealed _ => revealed.slots.reduceOption
  | _ => []

/-- The place of an output that is taken, and the timeout that has to pass before, if any. -/
structure Taking where
  place : Nat
  timeout : Option UInt32

/-- The sequence number of the input. -/
def Taking.sequence (t : Taking) : Outcome UInt32 :=
  match t.timeout with
  | some timeout => RelativeLock.sequence timeout
  | none => .ok RelativeLock.final

/-- What a path takes, in the order of the inputs, when it recovered these timeouts. -/
inductive Takes (s : Settlement) : Path σ → Recovered → List Taking → Prop
  | answer {inscription : Transaction} {position : Nat} {holder : SeatHolder} {winner : Player}
      {destination : Address} (resolution reply : UInt32) :
    Takes s (.answer inscription position holder winner destination) (.pair resolution reply)
      [⟨Inscription.answerPlace, some resolution⟩]
  | silence {inscription : Transaction} {position : Nat} {signers : Sides (Signer σ)}
      {destinations : List Address} (resolution reply : UInt32) :
    Takes s (.silence inscription position signers destinations) (.pair resolution reply)
      [⟨Inscription.answerPlace, some reply⟩]
  | refute {inscription : Transaction} {position : Nat} {claimant : Signer σ}
      {revealed : Openings} {destination : Address} (resolution reply : UInt32) :
    Takes s (.refute inscription position claimant revealed destination) (.pair resolution reply)
      [⟨Inscription.answerPlace, none⟩]
  | equivocation {inscription : Transaction} {position : Nat} {claimant : Signer σ}
      {preimages : Sides Bytes} {destination : Address} (reply : UInt32) :
    Takes s (.equivocation inscription position claimant preimages destination) (.single reply)
      [⟨Inscription.insurancePlace, none⟩]
  | depositRefund {inscription : Transaction} {position : Nat} {holder : SeatHolder}
      {destination : Address} (reply : UInt32) :
    Takes s (.depositRefund inscription position holder destination) (.single reply)
      [⟨Inscription.insurancePlace, some reply⟩]
  | win {promise : Transaction} {winner : Signer σ} {revealed : Openings} {destination : Address}
      {player : Player} (resolution : UInt32) : s.playerOf winner = .ok player →
    Takes s (.win promise winner revealed destination) (.single resolution)
      [⟨Promise.prizePlace player.other, none⟩, ⟨Promise.prizePlace player, some resolution⟩]
  | prizeRefund {promise : Transaction} {owner : Signer σ} {destination : Address}
      {player : Player} (resolution : UInt32) : s.playerOf owner = .ok player →
    Takes s (.prizeRefund promise owner destination) (.single resolution)
      [⟨Promise.prizePlace player, some resolution⟩]

/-- What a path has made ready before anything is signed. -/
structure Prepared (σ : Type) where
  claims : List (Claim σ)
  destinations : List Address
  /-- The scripts that the claims redeem. -/
  scripts : List Script
  recovered : Recovered

/-- Pays out what was made ready, without a look at the accounts. -/
def settle (s : Settlement) (p : Prepared σ) : Exchange σ Redemption := do
  let (transaction, fee) ← s.payOut p.claims p.destinations
  return ⟨p.scripts, transaction, p.recovered, fee⟩

/-- The claim is for the output of the predecessor that is to be taken. -/
structure Claim.Takes (predecessor : Transaction) (taking : Taking) (claim : Claim σ) : Prop where
  coin : predecessor.coin taking.place = .ok claim.coin
  sequence : taking.sequence = .ok claim.sequence

/-- The argument fits a push, or is one of the preimages that were given. -/
def Path.Pushes (path : Path σ) (t : Script.Token) : Prop :=
  t.piece.Fits ∨ ∃ preimage ∈ path.preimages, t = .push preimage

/-- The claim redeems a script of the contract, to which its output commits. -/
structure Claim.Unlocks (s : Settlement) (path : Path σ) (claim : Claim σ) (script : Script) :
    Prop where
  locking : script.wrapped = claim.coin.output.locking
  built : ∃ resolution reply lock, s.contract.script resolution reply lock = .ok script
  unlock : ∃ signers multisig args items,
    claim.unlock = ⟨signers, .script script multisig args⟩ ∧
    args.mapM Script.Token.item? = some items ∧ signers ⊆ path.signers ∧ ∀ t ∈ args, path.Pushes t

/-- What was made ready takes what the path takes. -/
structure Prepared.Serves (s : Settlement) (path : Path σ) (takings : List Taking)
    (p : Prepared σ) : Prop where
  takes : s.Takes path p.recovered takings
  destinations : p.destinations = path.destinations
  claims : List.Forall₂ (Claim.Takes path.predecessor) takings p.claims
  scripts : List.Forall₂ (Claim.Unlocks s path) p.claims p.scripts

/-! ## Paying out -/

variable {coin : Coin} {script : Script} {signer : Signer σ}

/-- A claim for a coin whose output commits to a script of the contract. -/
theorem Claim.unlocks_of_committed {path : Path σ} {tx : Transaction} {place : Nat}
    {sequence : UInt32} {signers : List (Signer σ)} {multisig : Bool} {args : List Script.Token}
    {items : List Bytes} (hcommitted : Committed tx place script)
    (hcoin : tx.coin place = .ok coin)
    (hbuilt : ∃ resolution reply lock, s.contract.script resolution reply lock = .ok script)
    (hitems : args.mapM Script.Token.item? = some items) (hsigners : signers ⊆ path.signers)
    (hargs : ∀ t ∈ args, path.Pushes t) :
    Claim.Unlocks s path ⟨coin, sequence, signers, .script script multisig args⟩ script := by
  obtain ⟨output, houtput, hhash⟩ := hcommitted
  rw [Transaction.output_eq_ok, (Transaction.coin_eq_ok.1 hcoin).2] at houtput
  obtain rfl := Option.some.inj houtput
  exact ⟨Script.payToScript_of_committedHash hhash, hbuilt, _, _, _, _, rfl, hitems, hsigners,
    hargs⟩

theorem Path.pushes_flag (path : Path σ) (value : Bool) : path.Pushes (.flag value) := .inl trivial

theorem Path.pushes_items {path : Path σ} {revealed : Openings} {exclude : Option Nat}
    (h : ∀ {preimage}, some preimage ∈ revealed.slots → preimage ∈ path.preimages) :
    ∀ t ∈ revealed.items exclude, path.Pushes t := by
  intro t ht
  obtain ⟨preimage, hslot, rfl⟩ | rfl := Openings.mem_items ht
  · exact .inr ⟨preimage, h hslot, rfl⟩
  · exact .inl trivial

/-- The path prepares claims that serve it. -/
abbrev Served (s : Settlement) (path : Path σ) : Prop :=
  Prepares s.settle (fun p => ∃ takings, p.Serves s path takings) (s.follow path)

theorem prepares_redeem {P : Prepared σ → Prop} {claims : List (Claim σ)}
    {destinations : List Address} {scripts : List Script} {recovered : Recovered}
    (h : P ⟨claims, destinations, scripts, recovered⟩) :
    Prepares s.settle P (do
      let (transaction, fee) ← s.redeem claims destinations
      return ⟨scripts, transaction, recovered, fee⟩) := by
  rw [redeem_eq_payOut]
  exact .done h

theorem served_answer (inscription : Transaction) (position : Nat) (holder : SeatHolder)
    (winner : Player) (destination : Address) :
    s.Served (σ := σ) (.answer inscription position holder winner destination) := by
  refine .bind faults_inscribedSeat fun seat _ => .check rfl ?_
  refine .bind faults_recoverAnswer fun ⟨script, resolution, reply⟩ hrecovered => ?_
  refine .bind (inscription.faults_coin _) fun coin hcoin => ?_
  refine .bind (onlyPreparing_of_onlyBuilding (faults_sequence _)) fun sequence hsequence => ?_
  refine prepares_redeem
    ⟨_, .answer resolution reply, rfl, .cons ⟨hcoin, hsequence⟩ .nil, .cons ?_ .nil⟩
  obtain ⟨hscript, hcommitted⟩ := answer_of_recoverAnswer hrecovered
  refine Claim.unlocks_of_committed hcommitted hcoin ⟨_, _, .answer position, hscript⟩ rfl
    (.refl _) ?_
  have hsecret : (Script.Piece.push (holder.secrets.get winner).bytes.toList).Fits := by
    simp [Script.Piece.Fits, Script.maxPush]
  simpa [Path.pushes_flag] using .inl hsecret

theorem served_silence (inscription : Transaction) (position : Nat) (signers : Sides (Signer σ))
    (destinations : List Address) :
    s.Served (.silence inscription position signers destinations) := by
  refine .bind faults_inscribedSeat fun seat _ => ?_
  refine .loop (fun player => ?_) ?_
  · exact .bind faults_playerOf fun _ _ => .check rfl (.done trivial)
  refine .bind faults_recoverAnswer fun ⟨script, resolution, reply⟩ hrecovered => ?_
  refine .bind (inscription.faults_coin _) fun coin hcoin => ?_
  refine .bind (onlyPreparing_of_onlyBuilding (faults_sequence _)) fun sequence hsequence => ?_
  refine prepares_redeem
    ⟨_, .silence resolution reply, rfl, .cons ⟨hcoin, hsequence⟩ .nil, .cons ?_ .nil⟩
  obtain ⟨hscript, hcommitted⟩ := answer_of_recoverAnswer hrecovered
  refine Claim.unlocks_of_committed hcommitted hcoin ⟨_, _, .answer position, hscript⟩ rfl
    (.refl _) ?_
  simp [Path.pushes_flag]

theorem served_refute (inscription : Transaction) (position : Nat) (claimant : Signer σ)
    (revealed : Openings) (destination : Address) :
    s.Served (.refute inscription position claimant revealed destination) := by
  refine .bind faults_inscribedSeat fun seat _ => ?_
  refine .bind faults_playerOf fun winner _ => .bind (.need rfl) fun wrong hwrong => .check rfl ?_
  refine .bind faults_checkMatches fun _ _ => ?_
  refine .bind faults_recoverAnswer fun ⟨script, resolution, reply⟩ hrecovered => ?_
  refine .bind (inscription.faults_coin _) fun coin hcoin => ?_
  refine prepares_redeem ⟨_, .refute resolution reply, rfl, .cons ⟨hcoin, rfl⟩ .nil, .cons ?_ .nil⟩
  obtain ⟨hscript, hcommitted⟩ := answer_of_recoverAnswer hrecovered
  refine Claim.unlocks_of_committed hcommitted hcoin ⟨_, _, .answer position, hscript⟩
    (revealed.items_append (some position)
      [wrong, Script.truth winner.selector, Script.truth false] ?_) (.refl _) ?_
  · cases winner <;> rfl
  · refine List.forall_mem_append.2 ⟨Path.pushes_items List.reduceOption_mem_iff.2, ?_⟩
    have hpushes : Path.Pushes (.refute inscription position claimant revealed destination)
        (.push wrong) :=
      .inr ⟨wrong, List.reduceOption_mem_iff.2 (Openings.mem_of_get? (need_eq_ok.1 hwrong)), rfl⟩
    simp [Path.pushes_flag, hpushes]

theorem served_equivocation (inscription : Transaction) (position : Nat) (claimant : Signer σ)
    (preimages : Sides Bytes) (destination : Address) :
    s.Served (.equivocation inscription position claimant preimages destination) := by
  refine .bind faults_inscribedSeat fun seat _ => ?_
  refine .bind faults_playerOf fun player _ => ?_
  refine .loop (fun outcome => .check rfl (.done trivial)) ?_
  refine .bind faults_recoverInsurance fun ⟨script, reply⟩ hrecovered => ?_
  refine .bind (inscription.faults_coin _) fun coin hcoin => ?_
  refine prepares_redeem ⟨_, .equivocation reply, rfl, .cons ⟨hcoin, rfl⟩ .nil, .cons ?_ .nil⟩
  obtain ⟨hscript, hcommitted⟩ := insurance_of_recoverInsurance hrecovered
  refine Claim.unlocks_of_committed hcommitted hcoin ⟨0, _, .insurance position, hscript⟩
    (?_ : _ = some [Script.truth player.selector, preimages.b, preimages.a, Script.truth true])
    (.refl _) ?_
  · cases player <;> rfl
  · have hpushes (outcome : Player) :
        Path.Pushes (.equivocation inscription position claimant preimages destination)
          (.push (preimages.get outcome)) := by
      refine .inr ⟨_, ?_, rfl⟩
      cases outcome <;> simp [Path.preimages, Sides.get, Sides.toList]
    simpa [Path.pushes_flag] using ⟨hpushes .B, hpushes .A⟩

theorem served_depositRefund (inscription : Transaction) (position : Nat) (holder : SeatHolder)
    (destination : Address) :
    s.Served (σ := σ) (.depositRefund inscription position holder destination) := by
  refine .bind faults_inscribedSeat fun seat _ => .check rfl ?_
  refine .bind faults_recoverInsurance fun ⟨script, reply⟩ hrecovered => ?_
  refine .bind (inscription.faults_coin _) fun coin hcoin => ?_
  refine .bind (onlyPreparing_of_onlyBuilding (faults_sequence _)) fun sequence hsequence => ?_
  refine prepares_redeem
    ⟨_, .depositRefund reply, rfl, .cons ⟨hcoin, hsequence⟩ .nil, .cons ?_ .nil⟩
  obtain ⟨hscript, hcommitted⟩ := insurance_of_recoverInsurance hrecovered
  refine Claim.unlocks_of_committed hcommitted hcoin ⟨0, _, .insurance position, hscript⟩ rfl
    (.refl _) ?_
  simp [Path.pushes_flag]

/-- A claim to a player's own prize takes it after the resolution. -/
theorem takes_of_refundClaim (path : Path σ) {promise : Transaction} {player : Player}
    {resolution : UInt32} {claim : Claim σ} (hsigner : [signer] ⊆ path.signers)
    (hrecovered : s.recoverPrize promise player = .ok (script, resolution))
    (h : refundClaim promise player signer script resolution = .ok claim) :
    Claim.Takes promise ⟨Promise.prizePlace player, some resolution⟩ claim ∧
      claim.Unlocks s path script := by
  obtain ⟨coin, hcoin, h⟩ := Outcome.bind_eq_ok.1 h
  obtain ⟨sequence, hsequence, h⟩ := Outcome.bind_eq_ok.1 h
  obtain rfl := Outcome.pure_eq_ok.1 h
  obtain ⟨hscript, hcommitted⟩ := prize_of_recoverPrize hrecovered
  refine ⟨⟨hcoin, hsequence⟩, Claim.unlocks_of_committed hcommitted hcoin
    ⟨_, 0, .prize player, hscript⟩ rfl hsigner ?_⟩
  simp [Path.pushes_flag]

theorem served_win (promise : Transaction) (winner : Signer σ) (revealed : Openings)
    (destination : Address) : s.Served (.win promise winner revealed destination) := by
  refine .bind faults_playerOf fun player hplayer => ?_
  refine .bind faults_checkMatches fun _ _ => ?_
  refine .bind faults_recoverPrize fun ⟨lost, _⟩ hlost => ?_
  refine .bind faults_recoverPrize fun ⟨own, resolution⟩ hown => ?_
  refine .bind (promise.faults_coin _) fun coin hcoin => ?_
  refine .bind faults_refundClaim fun refund hrefund => ?_
  obtain ⟨htakes, hunlocks⟩ := takes_of_refundClaim (.win promise winner revealed destination)
    (.refl _) hown hrefund
  refine prepares_redeem ⟨_, .win resolution hplayer, rfl, .cons ⟨hcoin, rfl⟩ (.cons htakes .nil),
    .cons ?_ (.cons hunlocks .nil)⟩
  obtain ⟨hscript, hcommitted⟩ := prize_of_recoverPrize hlost
  refine Claim.unlocks_of_committed hcommitted hcoin ⟨_, 0, .prize player.other, hscript⟩
    (revealed.items_append none [Script.truth true] rfl) (.refl _) ?_
  refine List.forall_mem_append.2 ⟨Path.pushes_items List.reduceOption_mem_iff.2, ?_⟩
  simp [Path.pushes_flag]

theorem served_prizeRefund (promise : Transaction) (owner : Signer σ) (destination : Address) :
    s.Served (.prizeRefund promise owner destination) := by
  refine .bind faults_playerOf fun player hplayer => ?_
  refine .bind faults_recoverPrize fun ⟨script, resolution⟩ hrecovered => ?_
  refine .bind faults_refundClaim fun refund hrefund => ?_
  obtain ⟨htakes, hunlocks⟩ := takes_of_refundClaim
    (.prizeRefund promise owner destination) (.refl _) hrecovered hrefund
  exact prepares_redeem
    ⟨_, .prizeRefund resolution hplayer, rfl, .cons htakes .nil, .cons hunlocks .nil⟩

/-- Every path prepares claims for the outputs that it takes. -/
theorem served (s : Settlement) (path : Path σ) : s.Served path := by
  cases path with
  | answer => exact served_answer ..
  | silence => exact served_silence ..
  | refute => exact served_refute ..
  | equivocation => exact served_equivocation ..
  | depositRefund => exact served_depositRefund ..
  | win => exact served_win ..
  | prizeRefund => exact served_prizeRefund ..

def silent : Settlement :=
  { idle with bet := { idle.bet with amounts := { idle.bet.amounts with feeRate := 1 } } }

end Wager.Settlement
