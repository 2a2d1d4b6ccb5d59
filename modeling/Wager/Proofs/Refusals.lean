import Wager.Proofs.Thresholds
import Wager.Proofs.Winning

/-!
# What is refused

Before a player's claim against an oracle is built, its preimages are checked. A claim that passes
goes on to recover its script (`forfeitDeposit`, `forfeitPayment`), one that does not is refused
with the first check that it fails.

**What the scripts ask.** An insurance asks for preimages of both images, and a refutation for a
preimage of the loser's image and enough openings of the winner's (`accepts_equivocation_iff`,
`accepts_refutation_iff`).

**What the checks ask.** A preimage is taken for the first outcome whose image it opens, so the
preimage of an ambiguous seat never announces player B. There the checks are stricter than the
script: two preimages that open both images are refused, and so is a refutation by player A.

Main result: `Settlement.refusals`.
-/

namespace Wager

open Exchange Script

theorem Player.selector_inj {player other : Player} (h : player.selector = other.selector) :
    player = other := by
  cases player <;> cases other <;> first | rfl | cases h

/-- A preimage announces the outcome whose image it opens, but player B only if it does not open the
image of player A. -/
theorem Seat.outcome?_eq_some_iff {seat : Seat} {preimage : Bytes} {outcome : Player} :
    seat.outcome? preimage = some outcome ↔
      hash160 preimage = seat.image outcome ∧ ¬ (outcome = .B ∧ seat.isAmbiguous) := by
  have hequal : seat.isAmbiguous = true ↔ seat.image .A = seat.image .B := decide_eq_true_iff
  by_cases hA : hash160 preimage = seat.image .A
  · cases outcome with
    | A => simp [outcome?, Player.all, opens, hA]
    | B => simp [outcome?, Player.all, opens, hA, hequal]
  · cases outcome with
    | A => simp [outcome?, Player.all, opens, hA]
    | B =>
      have hdistinct (hB : hash160 preimage = seat.image .B) : ¬ seat.isAmbiguous = true :=
        fun h => hA (hB.trans (hequal.1 h).symm)
      simpa [outcome?, Player.all, opens, hA] using hdistinct

namespace Settlement

variable {σ : Type} {w : σ} {s : Settlement} {inscription : Transaction} {position : Nat}
  {seat : Seat} {claimant : Signer σ} {winner : Player} {preimages : Sides Bytes} {o : Openings}

/-! ## What comes after the checks -/

/-- Takes the deposit of an oracle whose two preimages were checked. -/
def forfeitDeposit (s : Settlement) (inscription : Transaction) (position : Nat)
    (claimant : Signer σ) (player : Player) (preimages : Sides Bytes) (destination : Address) :
    Exchange σ Redemption := do
  let (script, reply) ← s.recoverInsurance inscription position
  let coin ← inscription.coin Inscription.insurancePlace
  let unlock := Unlock.byScript claimant script
    [.flag player.selector, .push preimages.b, .push preimages.a, .flag true]
  let (transaction, fee) ← s.redeem [⟨coin, RelativeLock.final, unlock⟩] [destination]
  return ⟨[script], transaction, .single reply, fee⟩

/-- Takes the payment of an oracle whose announcement `wrong` was checked. -/
def forfeitPayment (s : Settlement) (inscription : Transaction) (position : Nat)
    (claimant : Signer σ) (winner : Player) (revealed : Openings) (wrong : Bytes)
    (destination : Address) : Exchange σ Redemption := do
  let (script, resolution, reply) ← s.recoverAnswer inscription position
  let coin ← inscription.coin Inscription.answerPlace
  let unlock := Unlock.byScript claimant script <|
    revealed.items (some position) ++ [.push wrong, .flag winner.selector, .flag false]
  let (transaction, fee) ← s.redeem [⟨coin, RelativeLock.final, unlock⟩] [destination]
  return ⟨[script], transaction, .pair resolution reply, fee⟩

/-! ## Which check fails -/

/-- A check that is made for player A and then for player B stops at the first that fails. -/
theorem resultIn_forIn_all {p : Player → Prop} [DecidablePred p] {fault : Player → Fault} :
    resultIn (forIn Player.all PUnit.unit fun player (_ : PUnit) =>
      if p player then (throw (fault player) : Exchange σ PUnit) >>= fun _ =>
        pure (ForInStep.yield ⟨⟩)
      else pure (ForInStep.yield ⟨⟩)) w =
        if p .A then (.error (fault .A), w)
        else if p .B then (.error (fault .B), w) else (.ok ⟨⟩, w) := by
  rw [Player.all, List.forIn_cons, resultIn_bind, resultIn_unless]
  by_cases hA : p .A
  · simp [hA]
  · by_cases hB : p .B <;> simp [hA, hB, resultIn_pure, resultIn_throw]

theorem resultIn_equivocation (hseat : s.inscribedSeat inscription position = .ok seat)
    (hclaimant : s.playerOf claimant = .ok winner) (destination : Address) :
    (s.equivocation inscription position claimant preimages destination).resultIn w =
      if hash160 preimages.a ≠ seat.image .A then
        (.error (.inconsistent (.otherPreimage .A position)), w)
      else if hash160 preimages.b ≠ seat.image .B ∨ seat.isAmbiguous then
        (.error (.inconsistent (.otherPreimage .B position)), w)
      else (s.forfeitDeposit inscription position claimant winner preimages
        destination).resultIn w := by
  have hA : seat.outcome? (preimages.get .A) ≠ some .A ↔
      hash160 preimages.a ≠ seat.image .A := by
    simp [Seat.outcome?_eq_some_iff, Sides.get]
  have hB : seat.outcome? (preimages.get .B) ≠ some .B ↔
      hash160 preimages.b ≠ seat.image .B ∨ seat.isAmbiguous := by
    simp [Seat.outcome?_eq_some_iff, Sides.get, imp_iff_not_or]
  simp only [← hA, ← hB]
  rw [equivocation, resultIn_bind_of_ok hseat, resultIn_bind_of_ok hclaimant, resultIn_bind,
    resultIn_forIn_all]
  by_cases hfailsA : seat.outcome? (preimages.get .A) ≠ some .A
  · rw [if_pos hfailsA, if_pos hfailsA]
  · rw [if_neg hfailsA, if_neg hfailsA]
    by_cases hfailsB : seat.outcome? (preimages.get .B) ≠ some .B
    · rw [if_pos hfailsB, if_pos hfailsB]
    · rw [if_neg hfailsB, if_neg hfailsB]
      rfl

theorem resultIn_refute (hseat : s.inscribedSeat inscription position = .ok seat)
    (hclaimant : s.playerOf claimant = .ok winner) (hsize : o.size = s.committee.length)
    (destination : Address) :
    (s.refute inscription position claimant o destination).resultIn w =
      match o.get? position with
      | none => (.error (.inconsistent (.unanswered position)), w)
      | some wrong =>
        if hash160 wrong ≠ seat.image winner.other ∨ winner = .A ∧ seat.isAmbiguous then
          (.error (.inconsistent (.notAnnounced position winner.other)), w)
        else
          let count := o.count s.committee winner (some position)
          if count < s.bet.required.toNat then
            (.error (.inconsistent (.tooFewMatches count winner s.bet.required)), w)
          else (s.forfeitPayment inscription position claimant winner o wrong
            destination).resultIn w := by
  rw [refute, resultIn_bind_of_ok hseat, resultIn_bind_of_ok hclaimant]
  cases hwrong : o.get? position with
  | none => rfl
  | some wrong =>
    have hrefused : seat.outcome? wrong ≠ some winner.other ↔
        hash160 wrong ≠ seat.image winner.other ∨ winner = .A ∧ seat.isAmbiguous := by
      cases winner <;> simp [Seat.outcome?_eq_some_iff, Player.other, imp_iff_not_or]
    simp only [← hrefused]
    rw [resultIn_bind_of_ok (Outcome.need_eq_ok.2 rfl), resultIn_unless]
    split
    · rfl
    · rw [resultIn_bind, resultIn_lift, checkMatches_of_size hsize]
      by_cases hfew : o.count s.committee winner (some position) < s.bet.required.toNat
      · rw [if_pos hfew, if_pos hfew]
      · rw [if_neg hfew, if_neg hfew]
        rfl

/-! ## What the scripts ask for -/

variable {script : Script} {ctx : Context} {signature wrong : Bytes} {resolution reply : UInt32}

theorem accepts_equivocation_iff (hseat : s.contract.committee[position]? = some seat)
    (hscript : s.contract.insurance position reply = .ok script)
    (hsign : ctx.signs (s.contract.players.get winner).bytes signature = true) :
    script.accepts ctx [truth true, preimages.a, preimages.b, truth winner.selector,
      signature] = true ↔ seat.OpenedBy preimages := by
  obtain ⟨lock, hlock⟩ := lock_of_insurance hscript
  rw [Contract.accepts_insurance_iff hseat hlock hscript]
  constructor
  · intro h
    generalize hstack : [truth true, preimages.a, preimages.b, truth winner.selector,
      signature] = stack at h
    cases h with
    | forfeited _ opened _ hopened =>
      simp only [List.cons.injEq] at hstack
      obtain ⟨-, ha, hb, -⟩ := hstack
      intro outcome
      cases outcome with
      | A => exact (congrArg hash160 ha).trans (hopened .A)
      | B => exact (congrArg hash160 hb).trans (hopened .B)
    | kept houter =>
      obtain ⟨rfl, -⟩ := List.cons.inj hstack
      cases houter
  · intro h
    exact .forfeited winner preimages (isTrue_truth true) h (isTrue_truth _) hsign

/-- An empty slot pushes an empty item, which the script compares as well. -/
theorem accepts_refutation_iff (hseat : s.contract.committee[position]? = some seat)
    (hscript : s.contract.answer position resolution reply = .ok script)
    (hfits : script.size ≤ maxPush) (hsize : o.size = s.committee.length)
    (hsign : ctx.signs (s.contract.players.get winner).bytes signature = true) :
    script.accepts ctx (truth false :: truth winner.selector :: wrong ::
        (o.pushed (some position) ++ [signature])) = true ↔
      hash160 wrong = seat.image winner.other ∧ demanded s.bet.required ≤
        matching ((others (some position) s.committee).map (·.image winner))
          (o.pushed (some position)) := by
  have hlength : (o.pushed (some position)).length =
      (s.contract.committee.eraseIdx position).length := by
    rw [Openings.pushed, List.length_map, length_others hsize, others_some]
    rfl
  obtain ⟨resolutionLock, replyLock, hresolution, hreply⟩ := locks_of_answer hscript
  rw [Contract.accepts_answer_iff_demanded hseat hresolution hreply hscript hfits, others_some]
  constructor
  · intro h
    generalize hstack : truth false :: truth winner.selector :: wrong ::
      (o.pushed (some position) ++ [signature]) = stack at h
    cases h with
    | collected houter | returned houter =>
      obtain ⟨rfl, -⟩ := List.cons.inj hstack
      cases houter
    | refuted player items houter hinner himage hlen hcount =>
      simp only [List.cons.injEq] at hstack
      obtain ⟨-, rfl, rfl, hitems⟩ := hstack
      rw [isTrue_truth] at hinner
      obtain rfl := Player.selector_inj hinner
      obtain ⟨rfl, -⟩ := List.append_inj hitems (hlength.trans hlen.symm)
      exact ⟨himage, hcount⟩
  · intro h
    obtain ⟨himage, hcount⟩ := h
    exact .refuted winner _ (isTrue_truth false) (isTrue_truth _) himage hlength hcount hsign

/-- What a claim against an oracle is refused for, and what its script asks for. The two differ in
an ambiguous seat: it is opened for both outcomes by one preimage, which the script takes and the
checks do not, as they never let it announce player B. -/
theorem refusals (hseat : s.inscribedSeat inscription position = .ok seat)
    (hclaimant : s.playerOf claimant = .ok winner) (hsize : o.size = s.committee.length)
    (preimages : Sides Bytes) (destination : Address) (w : σ) :
    ((s.equivocation inscription position claimant preimages destination).resultIn w =
      if hash160 preimages.a ≠ seat.image .A then
        (.error (.inconsistent (.otherPreimage .A position)), w)
      else if hash160 preimages.b ≠ seat.image .B ∨ seat.isAmbiguous then
        (.error (.inconsistent (.otherPreimage .B position)), w)
      else (s.forfeitDeposit inscription position claimant winner preimages
        destination).resultIn w) ∧
    ((s.refute inscription position claimant o destination).resultIn w =
      match o.get? position with
      | none => (.error (.inconsistent (.unanswered position)), w)
      | some wrong =>
        if hash160 wrong ≠ seat.image winner.other ∨ winner = .A ∧ seat.isAmbiguous then
          (.error (.inconsistent (.notAnnounced position winner.other)), w)
        else
          let count := o.count s.committee winner (some position)
          if count < s.bet.required.toNat then
            (.error (.inconsistent (.tooFewMatches count winner s.bet.required)), w)
          else (s.forfeitPayment inscription position claimant winner o wrong
            destination).resultIn w) ∧
    ∀ (ctx : Context) (signature : Bytes), ctx.signs claimant.publicKey.bytes signature = true →
      (∀ reply script, s.contract.insurance position reply = .ok script →
        (script.accepts ctx [truth true, preimages.a, preimages.b, truth winner.selector,
          signature] = true ↔ seat.OpenedBy preimages)) ∧
      ∀ resolution reply script wrong, s.contract.answer position resolution reply = .ok script →
        script.size ≤ maxPush →
        (script.accepts ctx (truth false :: truth winner.selector :: wrong ::
            (o.pushed (some position) ++ [signature])) = true ↔
          hash160 wrong = seat.image winner.other ∧ demanded s.bet.required ≤
            matching ((others (some position) s.committee).map (·.image winner))
              (o.pushed (some position))) := by
  refine ⟨resultIn_equivocation hseat hclaimant destination,
    resultIn_refute hseat hclaimant hsize destination, fun ctx signature hsign => ?_⟩
  have hseated : s.contract.committee[position]? = some seat := seat_of_inscribedSeat hseat
  rw [← key_of_playerOf hclaimant] at hsign
  constructor
  · intro reply script hscript
    exact accepts_equivocation_iff hseated hscript hsign
  · intro resolution reply script wrong hscript hfits
    exact accepts_refutation_iff hseated hscript hfits hsize hsign

/-- The seat of `undecided`. -/
def undecidedSeat : Seat := ⟨idle.committee[0].oracle, ⟨hash160 [0], hash160 [0]⟩⟩

theorem undecided_refused : ∃ inscription script,
    undecided.inscribedSeat inscription 0 = .ok undecidedSeat ∧
    undecided.contract.insurance 0 512 = .ok script ∧
    script.accepts Contract.hasty [[1], [0], [0], [], [1]] = true ∧
    (undecided.equivocation inscription 0 (Signer.held idleKey) ⟨[0], [0]⟩
      ⟨.testnet, .key, .replicate 20 0⟩).resultIn () =
        (.error (.inconsistent (.otherPreimage .B 0)), ()) := by
  obtain ⟨images, himages⟩ : ∃ images, carrying undecidedSeat.inscribed = .ok images :=
    Script.exists_carrying_iff.2 (by simp [Seat.inscribed, inscriptionMagic, Script.maxPush])
  have hseat : undecided.inscribedSeat ⟨2, [], [⟨0, images⟩], 0⟩ 0 = .ok undecidedSeat :=
    inscribedSeat_of_carrying rfl himages rfl
  have hclaimant : undecided.playerOf (Signer.held (σ := Unit) idleKey) = .ok .A :=
    playerOf_of_key (by decide) rfl
  have hopened : undecidedSeat.OpenedBy ⟨[0], [0]⟩ := fun outcome => by cases outcome <;> rfl
  have hambiguous : undecidedSeat.isAmbiguous = true := decide_eq_true rfl
  obtain ⟨script, hscript, -⟩ := Contract.exists_of_any (undecided.contract.insurance 0 512)
    (by decide +kernel)
  obtain ⟨hequivocation, -, haccepts⟩ := refusals (o := Openings.new 1) hseat hclaimant rfl
    ⟨[0], [0]⟩ ⟨.testnet, .key, .replicate 20 0⟩ ()
  refine ⟨_, script, hseat, hscript, ?_, ?_⟩
  · exact ((haccepts Contract.hasty [1] rfl).1 512 script hscript).2 hopened
  · have hopenedA : hash160 [0] = undecidedSeat.image .A := hopened .A
    rw [hequivocation, if_neg (not_not.2 hopenedA), if_pos (.inr hambiguous)]

end Settlement

end Wager
