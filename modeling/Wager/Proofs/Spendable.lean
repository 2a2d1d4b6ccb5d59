import Wager.Proofs.Inscriptions

/-!
# Whether a committee's scripts can be spent

A check of spendability succeeds exactly if every script of the committee can be built and fits a
push (`Contract.checkSpendable_eq_ok_iff`).

**Sizes.** Every lock takes three bytes as a number, so the sizes of the scripts do not depend on
the timeouts, as long as these have locks. A check that passed for some timeouts passes for all
others (`Contract.checkSpendable_of_checkSpendable`), and one that fails, fails over the same script
(`Contract.checkSpendable_eq`).

**Late replies.** A reply timeout without a lock stops the check at the first answer script
(`Contract.checkSpendable_of_late`).
-/

namespace Wager

open Script

/-! ## The size of a lock -/

namespace Script.Piece

theorem size_int {v : Int} {k : Nat} (hlow : 128 * 256 ^ k ≤ v.natAbs)
    (hhigh : v.natAbs < 128 * 256 ^ (k + 1)) (hk : k ≤ 73) : (int v).size = k + 3 := by
  have hlen := ScriptNumber.length_encode_eq hlow hhigh
  have hpos : 0 < 256 ^ k := Nat.pow_pos (by omega)
  rw [int, if_neg (by omega), if_neg (by omega), if_neg (by omega), size, hlen, if_pos (by omega)]

theorem size_relativeLock {seconds lock : UInt32}
    (h : RelativeLock.sequence seconds = .ok lock) :
    ((relativeLock lock).map size).sum = 6 := by
  have hlock := RelativeLock.toNat_of_sequence h
  have hlt := RelativeLock.lt_of_sequence h
  have hint : (int lock.toNat).size = 4 :=
    size_int (k := 1) (by rw [Int.natAbs_natCast]; omega) (by rw [Int.natAbs_natCast]; omega)
      (by decide)
  simp only [relativeLock, List.map_cons, List.map_nil, List.sum_cons, List.sum_nil, hint]
  rfl

end Script.Piece

namespace Contract

variable {c : Contract} {script : Script}

/-! ## The check -/

/-- A check of scripts that can be built stops at the first that is too long. -/
theorem checkSpendable_of_built {resolution reply : UInt32} (size : Lock → Nat)
    (h : ∀ lock ∈ c.locks, ∃ script, c.script resolution reply lock = .ok script ∧
      script.size = size lock) :
    c.checkSpendable resolution reply =
      match c.locks.find? fun lock => maxPush < size lock with
      | some lock => inconsistent (.oversizedScript lock (size lock) c.committee.length)
      | none => .ok () := by
  let built (lock : Lock) : Script := (c.script resolution reply lock).toOption.getD .empty
  have hsize : ∀ lock ∈ c.locks, (built lock).size = size lock := by
    intro lock hlock
    obtain ⟨script, hscript, hsize⟩ := h lock hlock
    rw [← hsize]
    simp only [built, hscript]
    rfl
  have hbuilt : c.locks.mapM (fun lock => do return (lock, ← c.script resolution reply lock)) =
      .ok (c.locks.map fun lock => (lock, built lock)) := by
    rw [Outcome.mapM_eq_ok, List.forall₂_map_right_iff, List.forall₂_same]
    intro lock hlock
    obtain ⟨script, hscript, -⟩ := h lock hlock
    simp only [built, hscript]
    rfl
  have hfind : c.locks.find? (fun lock => maxPush < (built lock).size) =
      c.locks.find? fun lock => maxPush < size lock :=
    List.find?_congr fun lock hlock => by rw [hsize lock hlock]
  rw [checkSpendable, hbuilt, Outcome.ok_bind, List.find?_map, Function.comp_def, hfind]
  cases hfound : c.locks.find? fun lock => maxPush < size lock with
  | none => rfl
  | some lock =>
    have hlock := hsize lock (List.mem_of_find?_eq_some hfound)
    rw [Option.map_some]
    simp only [hlock]

theorem checkSpendable_eq_ok_iff {resolution reply : UInt32} :
    c.checkSpendable resolution reply = .ok () ↔ ∀ lock ∈ c.locks, ∃ script,
      c.script resolution reply lock = .ok script ∧ script.size ≤ maxPush := by
  refine ⟨fun h lock hlock => fits_of_checkSpendable h hlock, fun h => ?_⟩
  let built (lock : Lock) : Script := (c.script resolution reply lock).toOption.getD .empty
  have hbuilt : ∀ lock ∈ c.locks, c.script resolution reply lock = .ok (built lock) ∧
      (built lock).size ≤ maxPush := by
    intro lock hlock
    obtain ⟨script, hscript, hfits⟩ := h lock hlock
    simp only [built, hscript]
    exact ⟨rfl, hfits⟩
  have hnone : c.locks.find? (fun lock => maxPush < (built lock).size) = none :=
    List.find?_eq_none.2 fun lock hlock => by simpa using (hbuilt lock hlock).2
  rw [checkSpendable_of_built (fun lock => (built lock).size)
    fun lock hlock => ⟨_, (hbuilt lock hlock).1, rfl⟩, hnone]

/-- A script that was built for some timeouts is built for all others, with the same size. -/
theorem script_of_script {resolution reply resolution' reply' resolutionLock replyLock : UInt32}
    (hresolution : RelativeLock.sequence resolution' = .ok resolutionLock)
    (hreply : RelativeLock.sequence reply' = .ok replyLock) {lock : Lock}
    (h : c.script resolution reply lock = .ok script) :
    ∃ other, c.script resolution' reply' lock = .ok other ∧ other.size = script.size := by
  cases lock with
  | prize owner =>
    obtain ⟨lock, hlock, hassemble⟩ := prize_eq_ok_iff.1 h
    have hother := assemble_of_fits (c.fits_prizePieces owner resolutionLock)
    refine ⟨_, prize_eq_ok_iff.2 ⟨_, hresolution, hother⟩, ?_⟩
    rw [size_of_assemble hassemble, size_of_assemble hother]
    simp only [prizePieces, List.map_append, List.sum_append, Piece.size_relativeLock hresolution,
      Piece.size_relativeLock hlock]
  | answer position =>
    obtain ⟨seat, hseat, lock, hlock, lock', hlock', payment, hpayment, hassemble⟩ :=
      answer_eq_ok_iff.1 h
    have hfits : ∀ p ∈ c.answerPieces seat position resolutionLock replyLock payment, p.Fits :=
      fits_answerPieces resolutionLock replyLock
    have hother := assemble_of_fits hfits
    refine ⟨_, answer_eq_ok_iff.2 ⟨seat, hseat, _, hresolution, _, hreply, payment, hpayment,
      hother⟩, ?_⟩
    rw [size_of_assemble hassemble, size_of_assemble hother]
    simp only [answerPieces, List.map_append, List.sum_append, Piece.size_relativeLock hresolution,
      Piece.size_relativeLock hreply, Piece.size_relativeLock hlock,
      Piece.size_relativeLock hlock']
  | insurance position =>
    obtain ⟨seat, hseat, lock, hlock, hassemble⟩ := insurance_eq_ok_iff.1 h
    have hfits : ∀ p ∈ c.insurancePieces seat replyLock, p.Fits := fits_insurancePieces replyLock
    have hother := assemble_of_fits hfits
    refine ⟨_, insurance_eq_ok_iff.2 ⟨seat, hseat, _, hreply, hother⟩, ?_⟩
    rw [size_of_assemble hassemble, size_of_assemble hother]
    simp only [insurancePieces, List.map_append, List.sum_append, Piece.size_relativeLock hreply,
      Piece.size_relativeLock hlock]

/-- For timeouts with locks there is a script for each lock of the contract, and for no other. -/
theorem exists_script_iff {resolution reply resolutionLock replyLock : UInt32}
    (hresolution : RelativeLock.sequence resolution = .ok resolutionLock)
    (hreply : RelativeLock.sequence reply = .ok replyLock) {lock : Lock} :
    (∃ script, c.script resolution reply lock = .ok script) ↔ lock ∈ c.locks := by
  obtain ⟨payment, hpayment⟩ := c.exists_payment
  cases lock with
  | prize owner =>
    have hfits := assemble_of_fits (c.fits_prizePieces owner resolutionLock)
    exact ⟨fun _ => c.prize_mem_locks owner,
      fun _ => ⟨_, prize_eq_ok_iff.2 ⟨_, hresolution, hfits⟩⟩⟩
  | answer position =>
    constructor
    · intro h
      obtain ⟨script, hscript⟩ := h
      obtain ⟨seat, hseat, -⟩ := answer_eq_ok_iff.1 hscript
      exact answer_mem_locks hseat
    · intro h
      have hlt : position < c.committee.length := by simpa [locks, Player.all] using h
      exact ⟨_, answer_eq_ok_iff.2 ⟨_, List.getElem?_eq_getElem hlt, _, hresolution, _, hreply,
        payment, hpayment, assemble_of_fits (fits_answerPieces _ _)⟩⟩
  | insurance position =>
    have hlocks : Lock.insurance position ∈ c.locks ↔ position < c.committee.length := by
      simp [locks, Player.all]
    rw [hlocks]
    constructor
    · intro h
      obtain ⟨script, hscript⟩ := h
      obtain ⟨seat, hseat, -⟩ := insurance_eq_ok_iff.1 hscript
      exact (List.getElem?_eq_some_iff.1 hseat).1
    · intro h
      exact ⟨_, insurance_eq_ok_iff.2 ⟨_, List.getElem?_eq_getElem h, _, hreply,
        assemble_of_fits (fits_insurancePieces _)⟩⟩

section

variable {resolution reply resolution' reply' lock₁ lock₂ lock₃ lock₄ : UInt32}

/-- The check comes to the same for all timeouts that have locks. -/
theorem checkSpendable_eq (hresolution : RelativeLock.sequence resolution = .ok lock₁)
    (hreply : RelativeLock.sequence reply = .ok lock₂)
    (hresolution' : RelativeLock.sequence resolution' = .ok lock₃)
    (hreply' : RelativeLock.sequence reply' = .ok lock₄) :
    c.checkSpendable resolution reply = c.checkSpendable resolution' reply' := by
  let size (lock : Lock) : Nat := ((c.script resolution reply lock).toOption.getD .empty).size
  have hsize : ∀ lock ∈ c.locks, ∃ script, c.script resolution reply lock = .ok script ∧
      script.size = size lock := by
    intro lock hlock
    obtain ⟨script, hscript⟩ := (exists_script_iff hresolution hreply).2 hlock
    refine ⟨script, hscript, ?_⟩
    simp only [size, hscript]
    rfl
  have hsize' : ∀ lock ∈ c.locks, ∃ script, c.script resolution' reply' lock = .ok script ∧
      script.size = size lock := by
    intro lock hlock
    obtain ⟨script, hscript, hsize⟩ := hsize lock hlock
    obtain ⟨other, hother, heq⟩ := script_of_script hresolution' hreply' hscript
    exact ⟨other, hother, heq.trans hsize⟩
  rw [checkSpendable_of_built size hsize, checkSpendable_of_built size hsize']

/-- Once the check has passed, every script of the contract fits a push, whatever its timeouts. -/
theorem size_le_of_script (hresolution : RelativeLock.sequence resolution = .ok lock₁)
    (hreply : RelativeLock.sequence reply = .ok lock₂)
    (hspendable : c.checkSpendable resolution reply = .ok ()) {lock : Lock}
    (h : c.script resolution' reply' lock = .ok script) : script.size ≤ maxPush := by
  obtain ⟨other, hother, hsize⟩ := script_of_script hresolution hreply h
  have hlock := (exists_script_iff hresolution hreply).1 ⟨other, hother⟩
  exact hsize ▸ size_le_of_checkSpendable hspendable hlock hother

end

/-- A check that passed for some timeouts passes for all others that have locks. -/
theorem checkSpendable_of_checkSpendable
    {resolution reply resolution' reply' resolutionLock replyLock : UInt32}
    (hresolution : RelativeLock.sequence resolution' = .ok resolutionLock)
    (hreply : RelativeLock.sequence reply' = .ok replyLock)
    (h : c.checkSpendable resolution reply = .ok ()) :
    c.checkSpendable resolution' reply' = .ok () := by
  refine checkSpendable_eq_ok_iff.2 fun lock hlock => ?_
  obtain ⟨script, hscript, hfits⟩ := checkSpendable_eq_ok_iff.1 h lock hlock
  obtain ⟨other, hother, hsize⟩ := script_of_script hresolution hreply hscript
  exact ⟨other, hother, hsize ▸ hfits⟩

/-- The check of a committee whose scripts can be spent stops at a reply timeout without a lock,
which is first used in the answer script of the first seat. -/
theorem checkSpendable_of_late {resolution reply : UInt32} (hseats : c.committee ≠ [])
    (h : c.checkSpendable resolution resolution = .ok ())
    (hlate : RelativeLock.sequence reply = malformed (.relativeTimeout reply)) :
    c.checkSpendable resolution reply = malformed (.relativeTimeout reply) := by
  obtain ⟨rest, hlocks⟩ : ∃ rest, c.locks = .prize .A :: .prize .B :: .answer 0 :: rest := by
    obtain ⟨seat, seats, hcommittee⟩ := List.exists_cons_of_ne_nil hseats
    rw [locks, hcommittee, List.length_cons, List.range_succ_eq_map, List.flatMap_cons]
    exact ⟨_, rfl⟩
  have hbuilt := checkSpendable_eq_ok_iff.1 h
  obtain ⟨prizeA, hprizeA, -⟩ := hbuilt (.prize .A) (c.prize_mem_locks .A)
  obtain ⟨prizeB, hprizeB, -⟩ := hbuilt (.prize .B) (c.prize_mem_locks .B)
  obtain ⟨early, hearly, -⟩ := hbuilt (.answer 0) (by simp [hlocks])
  obtain ⟨seat, hseat, lock, hlock, -⟩ := answer_eq_ok_iff.1 hearly
  have hprize (owner : Player) : c.script resolution reply (.prize owner) =
      c.script resolution resolution (.prize owner) := rfl
  have hfails : c.script resolution reply (.answer 0) = malformed (.relativeTimeout reply) := by
    simp only [Contract.script, answer, Contract.seat, hseat, need, hlock, hlate, Outcome.ok_bind]
    rfl
  rw [checkSpendable, hlocks, List.mapM_cons, List.mapM_cons, List.mapM_cons, hprize, hprize,
    hprizeA, hprizeB, hfails]
  rfl

end Contract

end Wager
