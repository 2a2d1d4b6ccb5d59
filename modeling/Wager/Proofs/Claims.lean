import Wager.Contract.Settlement
import Wager.Proofs.Recovery
import Wager.Proofs.Takings
import Wager.Proofs.Timeouts

/-!
# Claims

A claim redeems its script (`Claim.Redeems`) if the script accepts what the claim pushes with
valid signatures by its signers, whatever these are. For each way to take a payment there is a
claim, and the checks that a path makes are what the claim needs.
-/

namespace Wager.Settlement

open Exchange Script

variable {σ : Type} {w w' : σ} {s : Settlement} {script : Script}

/-! ## Passed checks -/

theorem seat_of_inscribedSeat {inscription : Transaction} {position : Nat} {seat : Seat}
    (h : s.inscribedSeat inscription position = .ok seat) : s.committee[position]? = some seat := by
  obtain ⟨seat', hseat, h⟩ := Outcome.bind_eq_ok.1 h
  obtain ⟨inscribed, -, h⟩ := Outcome.bind_eq_ok.1 h
  obtain ⟨-, h⟩ := Outcome.unless_eq_ok.1 h
  obtain rfl := Outcome.pure_eq_ok.1 h
  exact Outcome.need_eq_ok.1 hseat

theorem key_of_playerOf {signer : Signer σ} {player : Player}
    (h : s.playerOf signer = .ok player) : s.contract.players.get player = signer.publicKey :=
  of_decide_eq_true
    (List.find?_some (p := (s.bet.players.get · = signer.publicKey)) (Outcome.need_eq_ok.1 h))

theorem mem_all (player : Player) : player ∈ Player.all := by
  cases player <;> decide

theorem checkMatches_of_size {revealed : Openings} {winner : Player} {exclude : Option Nat}
    (hsize : revealed.size = s.committee.length) :
    s.checkMatches revealed winner exclude =
      if revealed.count s.committee winner exclude < s.bet.required.toNat then
        .error (.inconsistent (.tooFewMatches (revealed.count s.committee winner exclude) winner
          s.bet.required))
      else .ok () := by
  rw [checkMatches, if_neg (not_not.2 hsize)]
  rfl

theorem checkMatches_eq_ok {revealed : Openings} {winner : Player} {exclude : Option Nat} :
    s.checkMatches revealed winner exclude = .ok () ↔
      revealed.size = s.committee.length ∧
        s.bet.required.toNat ≤ revealed.count s.committee winner exclude := by
  by_cases hsize : revealed.size = s.committee.length
  · rw [checkMatches_of_size hsize, ← Nat.not_lt]
    by_cases hfew : revealed.count s.committee winner exclude < s.bet.required.toNat
    · simp [hfew]
    · simp [hsize, hfew]
  · rw [checkMatches, Outcome.unless_eq_ok]
    simp [hsize]

/-- Enough preimages open the images that a script compares them with. -/
theorem matching_of_checkMatches {revealed : Openings} {winner : Player} {exclude : Option Nat}
    (h : s.checkMatches revealed winner exclude = .ok ()) :
    revealed.size = s.committee.length ∧ s.bet.required.toNat ≤
      matching ((others exclude s.committee).map (·.image winner)) (revealed.pushed exclude) := by
  obtain ⟨hsize, hcount⟩ := checkMatches_eq_ok.1 h
  exact ⟨hsize, Nat.le_trans hcount (Openings.count_le_matching hsize winner exclude)⟩

/-- The output in this place commits to the script. -/
def Committed (tx : Transaction) (place : Nat) (script : Script) : Prop :=
  ∃ output, tx.output place = .ok output ∧ output.locking.committedHash = .ok script.hash

/-- The prize script that is recovered is one of the contract, and the promise commits to it. -/
theorem prize_of_recoverPrize {promise : Transaction} {owner : Player} {resolution : UInt32}
    (h : s.recoverPrize promise owner = .ok (script, resolution)) :
    s.contract.prize owner resolution = .ok script ∧
      Committed promise (Promise.prizePlace owner) script := by
  obtain ⟨output, houtput, h⟩ := Outcome.bind_eq_ok.1 h
  obtain ⟨expected, hexpected, h⟩ := Outcome.bind_eq_ok.1 h
  obtain ⟨nominal, -, h⟩ := Outcome.bind_eq_ok.1 h
  obtain rfl := RelativeLock.hash_of_search h
  exact ⟨RelativeLock.build_of_search h, output, houtput, hexpected⟩

theorem insurance_of_recoverInsurance {inscription : Transaction} {position : Nat} {reply : UInt32}
    (h : s.recoverInsurance inscription position = .ok (script, reply)) :
    s.contract.insurance position reply = .ok script ∧
      Committed inscription Inscription.insurancePlace script := by
  obtain ⟨output, houtput, h⟩ := Outcome.bind_eq_ok.1 h
  obtain ⟨expected, hexpected, h⟩ := Outcome.bind_eq_ok.1 h
  obtain ⟨nominal, -, h⟩ := Outcome.bind_eq_ok.1 h
  obtain rfl := RelativeLock.hash_of_search h
  exact ⟨RelativeLock.build_of_search h, output, houtput, hexpected⟩

theorem answer_of_recoverAnswer {inscription : Transaction} {position : Nat}
    {resolution reply : UInt32}
    (h : s.recoverAnswer inscription position = .ok (script, resolution, reply)) :
    s.contract.answer position resolution reply = .ok script ∧
      Committed inscription Inscription.answerPlace script := by
  obtain ⟨output, houtput, h⟩ := Outcome.bind_eq_ok.1 h
  obtain ⟨expected, hexpected, h⟩ := Outcome.bind_eq_ok.1 h
  obtain ⟨nominal, -, h⟩ := Outcome.bind_eq_ok.1 h
  obtain rfl := RelativeLock.hash_of_searchPair h
  exact ⟨RelativeLock.build_of_searchPair h, output, houtput, hexpected⟩

/-! ## Claims that redeem their script -/

/-- Whatever valid signatures the signers make, the script accepts what the claim pushes. -/
def Claim.Redeems (claim : Claim σ) (script : Script) : Prop :=
  ∃ signers multisig args items, claim.unlock = ⟨signers, .script script multisig args⟩ ∧
    args.mapM Token.item? = some items ∧
    ∀ (ctx : Context) (signatures : List Bytes), ctx.version = Draft.currentVersion →
      ctx.sequence = claim.sequence → script.size ≤ maxPush →
      List.Forall₂ (fun signer signature => ctx.signs signer.publicKey.bytes signature = true)
        signers signatures →
      script.accepts ctx
        (items.reverse ++ (signatures.reverse ++ if multisig then [[]] else [])) = true

variable {coin : Coin} {signer : Signer σ}

/-- A claim with a single signature. -/
theorem Claim.redeems_byScript {sequence : UInt32} {args : List Token} (items : List Bytes)
    (hitems : args.mapM Token.item? = some items)
    (haccepts : ∀ (ctx : Context) (signature : Bytes), ctx.version = Draft.currentVersion →
      ctx.sequence = sequence → script.size ≤ maxPush →
      ctx.signs signer.publicKey.bytes signature = true →
      script.accepts ctx (items.reverse ++ [signature]) = true) :
    Claim.Redeems ⟨coin, sequence, .byScript signer script args⟩ script := by
  refine ⟨[signer], false, args, items, rfl, hitems, ?_⟩
  intro ctx signatures hversion hsequence hfits hvalid
  cases hvalid with
  | cons hsign hnone =>
    cases hnone
    exact haccepts ctx _ hversion hsequence hfits hsign

/-- The locks that an answer script was built with. -/
theorem locks_of_answer {c : Contract} {position : Nat} {resolution reply : UInt32}
    (h : c.answer position resolution reply = .ok script) :
    ∃ resolutionLock replyLock, RelativeLock.sequence resolution = .ok resolutionLock ∧
      RelativeLock.sequence reply = .ok replyLock := by
  obtain ⟨seat, -, h⟩ := Outcome.bind_eq_ok.1 h
  obtain ⟨resolutionLock, hresolution, h⟩ := Outcome.bind_eq_ok.1 h
  obtain ⟨replyLock, hreply, h⟩ := Outcome.bind_eq_ok.1 h
  exact ⟨resolutionLock, replyLock, hresolution, hreply⟩

variable {position : Nat} {seat : Seat} {resolution reply sequence : UInt32} {winner : Player}

theorem Claim.redeems_collected {preimage : Bytes}
    (hseat : s.contract.committee[position]? = some seat)
    (hscript : s.contract.answer position resolution reply = .ok script)
    (hsequence : RelativeLock.sequence resolution = .ok sequence)
    (hkey : seat.oracle = signer.publicKey) (himage : hash160 preimage = seat.image winner) :
    Claim.Redeems ⟨coin, sequence, .byScript signer script
      [.push preimage, .flag true, .flag true]⟩ script := by
  obtain ⟨_, replyLock, hresolution, hreply⟩ := locks_of_answer hscript
  obtain rfl := Except.ok.inj (hsequence.symm.trans hresolution)
  refine redeems_byScript [preimage, truth true, truth true] rfl ?_
  intro ctx signature hversion hown hfits hsign
  subst hown
  refine (Contract.accepts_answer_iff_demanded hseat hresolution hreply hscript hfits _).2 ?_
  refine .collected (isTrue_truth true) (isTrue_truth true) ?_ ?_ ?_
  · exact Context.passes_own hsequence (by rw [hversion]; decide)
  · cases winner with
    | A => exact .inl himage
    | B => exact .inr himage
  · rwa [hkey]

theorem Claim.redeems_returned {signers : Sides (Signer σ)}
    (hseat : s.contract.committee[position]? = some seat)
    (hscript : s.contract.answer position resolution reply = .ok script)
    (hsequence : RelativeLock.sequence reply = .ok sequence)
    (hkeys : ∀ player, s.contract.players.get player = (signers.get player).publicKey) :
    Claim.Redeems ⟨coin, sequence, .byMultisig signers.toList script
      [.flag false, .flag true]⟩ script := by
  obtain ⟨resolutionLock, _, hresolution, hreply⟩ := locks_of_answer hscript
  obtain rfl := Except.ok.inj (hsequence.symm.trans hreply)
  refine ⟨_, true, _, [truth false, truth true], rfl, rfl, ?_⟩
  intro ctx signatures hversion hown hfits hvalid
  subst hown
  cases hvalid with
  | cons hsignA hvalid =>
    cases hvalid with
    | cons hsignB hnone =>
      cases hnone
      refine (Contract.accepts_answer_iff_demanded hseat hresolution hreply hscript hfits _).2 ?_
      refine .returned (isTrue_truth true) (isTrue_truth false) ?_ ?_ ?_
      · exact Context.passes_own hsequence (by rw [hversion]; decide)
      · rwa [show s.contract.players.b = signers.b.publicKey from hkeys .B]
      · rwa [show s.contract.players.a = signers.a.publicKey from hkeys .A]

theorem Claim.redeems_refuted {revealed : Openings} {wrong : Bytes}
    (hseat : s.contract.committee[position]? = some seat)
    (hscript : s.contract.answer position resolution reply = .ok script)
    (hkey : s.contract.players.get winner = signer.publicKey)
    (himage : hash160 wrong = seat.image winner.other)
    (hmatches : s.checkMatches revealed winner (some position) = .ok ()) :
    Claim.Redeems ⟨coin, RelativeLock.final, .byScript signer script
      (revealed.items (some position) ++
        [.push wrong, .flag winner.selector, .flag false])⟩ script := by
  obtain ⟨resolutionLock, replyLock, hresolution, hreply⟩ := locks_of_answer hscript
  obtain ⟨hsize, hcount⟩ := matching_of_checkMatches hmatches
  refine redeems_byScript _ (revealed.items_append (some position)
    [wrong, truth winner.selector, truth false] ?_) ?_
  · cases winner <;> rfl
  intro ctx signature _ _ hfits hsign
  have htaken : Contract.AnswerTaken s.contract ctx position seat resolutionLock replyLock
      (demanded s.contract.required) (truth false :: truth winner.selector :: wrong ::
        (revealed.pushed (some position) ++ [signature])) := by
    refine .refuted winner _ rfl (isTrue_truth _) himage ?_ ?_ (by rwa [hkey])
    · rw [Openings.pushed, List.length_map, length_others hsize, others_some]
      rfl
    · rw [others_some] at hcount
      exact Nat.le_trans (demanded_le _) hcount
  rw [← Contract.accepts_answer_iff_demanded hseat hresolution hreply hscript hfits] at htaken
  simpa using htaken

/-- The lock that a prize was built with. -/
theorem lock_of_prize {c : Contract} {owner : Player} (h : c.prize owner resolution = .ok script) :
    ∃ lock, RelativeLock.sequence resolution = .ok lock := by
  obtain ⟨lock, hlock, -⟩ := Outcome.bind_eq_ok.1 h
  exact ⟨lock, hlock⟩

theorem Claim.redeems_won {revealed : Openings}
    (hscript : s.contract.prize winner.other resolution = .ok script)
    (hkey : s.contract.players.get winner = signer.publicKey)
    (hmatches : s.checkMatches revealed winner none = .ok ()) :
    Claim.Redeems ⟨coin, RelativeLock.final, .byScript signer script
      (revealed.items none ++ [.flag true])⟩ script := by
  obtain ⟨lock, hlock⟩ := lock_of_prize hscript
  obtain ⟨hsize, hcount⟩ := matching_of_checkMatches hmatches
  refine redeems_byScript _ (revealed.items_append none [truth true] rfl) ?_
  intro ctx signature _ _ hfits hsign
  have htaken : Contract.PrizeTaken s.contract ctx winner.other lock
      (demanded s.contract.required)
      (truth true :: (revealed.pushed none ++ signature :: [])) := by
    refine .won _ rfl ?_ ?_ (by rwa [Player.other_other, hkey])
    · rw [Openings.pushed, List.length_map, length_others hsize, others_none]
      rfl
    · rw [others_none] at hcount
      rw [Player.other_other]
      exact Nat.le_trans (demanded_le _) hcount
  rw [← Contract.accepts_prize_iff_demanded hlock hscript hfits] at htaken
  simpa using htaken

theorem Claim.redeems_refunded {owner : Player}
    (hscript : s.contract.prize owner resolution = .ok script)
    (hsequence : RelativeLock.sequence resolution = .ok sequence)
    (hkey : s.contract.players.get owner = signer.publicKey) :
    Claim.Redeems ⟨coin, sequence, .byScript signer script [.flag false]⟩ script := by
  refine redeems_byScript [truth false] rfl ?_
  intro ctx signature hversion hown hfits hsign
  subst hown
  refine (Contract.accepts_prize_iff_demanded hsequence hscript hfits _).2 ?_
  refine .refunded (isTrue_truth false) ?_ (by rwa [hkey])
  exact Context.passes_own hsequence (by rw [hversion]; decide)

/-- The lock that an insurance was built with. -/
theorem lock_of_insurance {c : Contract} (h : c.insurance position reply = .ok script) :
    ∃ lock, RelativeLock.sequence reply = .ok lock := by
  obtain ⟨seat, -, h⟩ := Outcome.bind_eq_ok.1 h
  obtain ⟨lock, hlock, -⟩ := Outcome.bind_eq_ok.1 h
  exact ⟨lock, hlock⟩

theorem Claim.redeems_equivocated {preimages : Sides Bytes}
    (hseat : s.contract.committee[position]? = some seat)
    (hscript : s.contract.insurance position reply = .ok script)
    (hkey : s.contract.players.get winner = signer.publicKey)
    (himages : ∀ outcome, hash160 (preimages.get outcome) = seat.image outcome) :
    Claim.Redeems ⟨coin, RelativeLock.final, .byScript signer script
      [.flag winner.selector, .push preimages.b, .push preimages.a, .flag true]⟩ script := by
  obtain ⟨lock, hlock⟩ := lock_of_insurance hscript
  refine redeems_byScript [truth winner.selector, preimages.b, preimages.a, truth true] ?_ ?_
  · cases winner <;> rfl
  intro ctx signature _ _ hfits hsign
  refine (Contract.accepts_insurance_iff hseat hlock hscript _).2 ?_
  exact .forfeited winner preimages (isTrue_truth true) himages (isTrue_truth _) (by rwa [hkey])

theorem Claim.redeems_kept (hseat : s.contract.committee[position]? = some seat)
    (hscript : s.contract.insurance position reply = .ok script)
    (hsequence : RelativeLock.sequence reply = .ok sequence)
    (hkey : seat.oracle = signer.publicKey) :
    Claim.Redeems ⟨coin, sequence, .byScript signer script [.flag false]⟩ script := by
  refine redeems_byScript [truth false] rfl ?_
  intro ctx signature hversion hown hfits hsign
  subst hown
  refine (Contract.accepts_insurance_iff hseat hsequence hscript _).2 ?_
  refine .kept (isTrue_truth false) ?_ (by rwa [hkey])
  exact Context.passes_own hsequence (by rw [hversion]; decide)

end Wager.Settlement
