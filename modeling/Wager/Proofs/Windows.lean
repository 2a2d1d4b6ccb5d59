import Wager.Proofs.Promises

/-!
# The window in which an oracle answers

The oracle collects its payment once the resolution lock has passed, and both players take it back
once the reply lock has passed. The window of the oracle is what lies between: the spends that have
passed the first lock, but not yet the second.

**Seconds and units.** An inscription is built for a reply timeout that is later in seconds, but
its script holds both timeouts in units of 512 seconds. Two timeouts in the same unit have one lock,
and the window is empty: the players can take the payment back as soon as the oracle can collect it.

Main result: `Inscription.window_of_build`.
-/

namespace Wager

open RelativeLock

/-! ## Two locks -/

namespace RelativeLock

variable {a b lockA lockB : UInt32}

/-- Locks are in the order of the units. -/
theorem lock_lt_iff (ha : sequence a = .ok lockA) (hb : sequence b = .ok lockB) :
    lockA < lockB ↔ a.toNat / 512 < b.toNat / 512 := by
  rw [UInt32.lt_iff_toNat_lt, toNat_of_sequence ha, toNat_of_sequence hb]
  omega

theorem lock_le (ha : sequence a = .ok lockA) (hb : sequence b = .ok lockB) (h : a ≤ b) :
    lockA ≤ lockB := by
  have hunits : a.toNat / 512 ≤ b.toNat / 512 := Nat.div_le_div_right h
  rw [UInt32.le_iff_toNat_le, toNat_of_sequence ha, toNat_of_sequence hb]
  omega

/-- Some spend passes the first lock and not the second exactly if the second is for more units. -/
theorem exists_between_iff (ha : sequence a = .ok lockA) (hb : sequence b = .ok lockB) :
    (∃ c : Script.Context, c.passes lockA = true ∧ c.passes lockB = false) ↔
      a.toNat / 512 < b.toNat / 512 := by
  constructor
  · intro h
    obtain ⟨c, hpasses, hnot⟩ := h
    by_contra hle
    obtain ⟨hversion, henabled, htime, hunits⟩ := (Script.Context.passes_iff ha).1 hpasses
    have hpasses' : c.passes lockB = true :=
      (Script.Context.passes_iff hb).2 ⟨hversion, henabled, htime, by omega⟩
    rw [hnot] at hpasses'
    cases hpasses'
  · intro hlt
    let c : Script.Context := ⟨2, lockA, fun _ _ => false⟩
    have hown : c.passes lockA = true := Script.Context.passes_own (c := c) ha (UInt32.le_refl 2)
    refine ⟨c, hown, Bool.eq_false_iff.2 fun hpasses => ?_⟩
    obtain ⟨-, -, -, hunits⟩ := (Script.Context.passes_iff hb).1 hpasses
    obtain ⟨hfits, rfl⟩ := sequence_eq_ok_iff.1 ha
    rw [lock_and_mask hfits, toNat_units] at hunits
    omega

end RelativeLock

/-! ## The window of an inscription -/

namespace Inscription

open Exchange

variable {σ : Type} {w w' : σ} {config : Config} {r : Request σ} {i : Inscription}

theorem resolution_lt_of_checkTimeouts (h : checkTimeouts config r = .ok ()) :
    r.resolution < r.reply := by
  obtain ⟨_, -, h⟩ := Outcome.bind_eq_ok.1 h
  obtain ⟨-, h⟩ := Outcome.unless_eq_ok.1 h
  by_contra hle
  rw [if_pos (UInt32.not_lt.1 hle)] at h
  exact Outcome.throw_ne_ok h

/-- The answer script of an inscription that was built opens to the players no earlier than to the
oracle. It opens to the oracle alone for some spends exactly if the timeouts lie in different units:
timeouts in the same unit, though different, have one lock. -/
theorem window_of_build (h : (build config r).Gives w i w') :
    r.resolution < r.reply ∧ ∃ seat resolutionLock replyLock,
      r.committee[r.position]? = some seat ∧
      sequence r.resolution = .ok resolutionLock ∧ sequence r.reply = .ok replyLock ∧
      (∀ ctx stack, i.answer.accepts ctx stack = true ↔
        Contract.AnswerTaken (.ofBet r.bet r.committee) ctx r.position seat resolutionLock replyLock
          (Script.demanded r.bet.required) stack) ∧
      resolutionLock ≤ replyLock ∧
      (resolutionLock < replyLock ↔ r.resolution.toNat / 512 < r.reply.toNat / 512) ∧
      ((∃ ctx : Script.Context, ctx.passes resolutionLock = true ∧ ctx.passes replyLock = false) ↔
        r.resolution.toNat / 512 < r.reply.toNat / 512) := by
  obtain ⟨plan, hplan, -⟩ := gives_build_iff.1 h
  obtain ⟨seat, hi⟩ := commits_of_build h
  have hlt := resolution_lt_of_checkTimeouts hplan.timeouts
  obtain ⟨-, -, resolutionLock, hresolution, replyLock, hreply, -⟩ :=
    Contract.answer_eq_ok_iff.1 hi.answer
  refine ⟨hlt, seat, resolutionLock, replyLock, hi.seated, hresolution, hreply, ?_, ?_, ?_, ?_⟩
  · intro ctx stack
    exact Contract.accepts_answer_iff_demanded hi.seated hresolution hreply hi.answer hi.fits stack
  · exact lock_le hresolution hreply (UInt32.le_of_lt hlt)
  · exact lock_lt_iff hresolution hreply
  · exact exists_between_iff hresolution hreply

/-! ## An empty window -/

/-- Players who hold their keys sign whatever plan is valid and pays the agreed fee. -/
theorem exists_build {plan : Plan} (hplan : plan.Valid config r) {keys : Sides PrivateKey}
    (hkeys : r.players = keys.map .held) (hpayment : plan.payment.size ≤ Script.maxPush)
    {spent paid : UInt64}
    (hspent : Sats.add? plan.promised.output.value plan.available = some spent)
    (hpaid : Output.total (plan.draft r).outputs = .ok paid)
    (hexact : Sats.add? paid r.bet.amounts.inscriptionFee = some spent) :
    ∃ i, (build config r).Gives w i w := by
  have hlen : (plan.unlocks r).length = (plan.draft r).inputs.length := by
    simp [Plan.unlocks, Plan.draft]
  have hready : ∀ u ∈ plan.unlocks r, u.Ready := by
    refine List.forall_mem_cons.2 ⟨?_, List.forall_mem_map.2 fun _ _ => .byKey _⟩
    rw [hkeys]
    exact @Unlock.Ready.script σ keys.toList plan.payment true [] hpayment (by simp)
  obtain ⟨signed, tx, hsigned, htx, houtputs⟩ := Draft.exists_signed (w := w) hlen hready
  exact ⟨_, gives_build_iff.2 ⟨plan, hplan, signed, hsigned, tx, htx, spent, hspent, paid,
    houtputs ▸ hpaid, hexact, rfl⟩⟩

/-- The late oracle, with both timeouts below one unit and players who hold their keys. -/
def briefRequest : Request Unit :=
  { lateRequest with
    resolution := 300
    reply := 400
    players := Promise.heldKeys.map .held }

def briefAnswer : Script := lateContract.answerScript lateSeat 0 latePayment 0x400000 0x400000

def briefInsurance : Script := lateContract.insuranceScript lateSeat 0x400000

def briefPlan : Plan where
  seat := lateSeat
  payment := latePayment
  promised := lateCoin
  available := 0
  change := 0
  answer := briefAnswer
  insurance := briefInsurance
  images := lateImages

theorem briefPlan_valid : briefPlan.Valid lateConfig briefRequest := by
  have hlock : sequence 300 = .ok 0x400000 := rfl
  have hreply : sequence 400 = .ok 0x400000 := rfl
  exact {
    seated := rfl
    held := late_hashes.1.symm
    timeouts := rfl
    signers := rfl
    payment := late_payment
    promised := promised_late
    own := by decide
    available := rfl
    change := rfl
    spendable := by decide +kernel
    answer := (Contract.builtFrom_answer rfl late_payment hlock).2 ⟨_, hreply, rfl⟩
    insurance := (Contract.builtFrom_insurance rfl).2 ⟨_, hreply, rfl⟩
    images := late_scripts.2.1 }

/-- The oracle has a hundred seconds more to reply than until the resolution, and no window. -/
theorem brief_window : ∃ i, (build lateConfig briefRequest).Gives () i () ∧
    ∃ resolutionLock replyLock, sequence briefRequest.resolution = .ok resolutionLock ∧
      sequence briefRequest.reply = .ok replyLock ∧ ¬ resolutionLock < replyLock ∧
      ¬ ∃ ctx : Script.Context,
        ctx.passes resolutionLock = true ∧ ctx.passes replyLock = false := by
  obtain ⟨i, hi⟩ := exists_build (w := ()) briefPlan_valid rfl (by decide +kernel) rfl rfl rfl
  obtain ⟨-, -, resolutionLock, replyLock, -, hresolution, hreply, -, -, hlt, hwindow⟩ :=
    window_of_build hi
  have hunits : ¬ briefRequest.resolution.toNat / 512 < briefRequest.reply.toNat / 512 := by decide
  exact ⟨i, hi, resolutionLock, replyLock, hresolution, hreply, mt hlt.1 hunits,
    mt hwindow.1 hunits⟩

end Inscription

end Wager
