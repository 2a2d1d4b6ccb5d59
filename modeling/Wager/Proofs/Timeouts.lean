import Mathlib.Algebra.Ring.Nat
import Wager.Chain.Machine
import Wager.Proofs.Success

/-!
# Timeouts and locks

A timeout is locked for its whole units, which have to fit the low bits of a sequence number. An
input with that sequence number passes its own lock.
-/

namespace Wager

/-! ## Checked arithmetic -/

namespace Seconds

variable {a b c : UInt32}

theorem add?_eq_some_iff : add? a b = some c ↔ c.toNat = a.toNat + b.toNat := by
  have hc := c.toNat_lt
  rw [add?, Option.ite_none_right_eq_some, Option.some.injEq, ← UInt32.toNat_inj, UInt32.toNat_add,
    UInt32.size]
  omega

theorem mul?_eq_some_iff : mul? a b = some c ↔ c.toNat = a.toNat * b.toNat := by
  have hc := c.toNat_lt
  rw [mul?, Option.ite_none_right_eq_some, Option.some.injEq, ← UInt32.toNat_inj, UInt32.toNat_mul]
  constructor
  · intro h
    obtain ⟨hlt, heq⟩ := h
    rw [← heq, Nat.mod_eq_of_lt hlt]
  · intro h
    rw [← h]
    exact ⟨hc, Nat.mod_eq_of_lt hc⟩

end Seconds

/-! ## Locks -/

namespace RelativeLock

theorem sequence_eq_ok_iff {seconds lock : UInt32} :
    sequence seconds = .ok lock ↔ seconds >>> 9 ≤ mask ∧ typeFlag ||| (seconds >>> 9) = lock := by
  rw [sequence]
  split
  · next h => simp [malformed, UInt32.not_le.2 h]
  · next h => simp [UInt32.not_lt.1 h]

theorem and_mask {units : UInt32} (h : units ≤ mask) : units &&& mask = units := by
  have hlt : units.toNat < 2 ^ 16 := Nat.lt_succ_of_le h
  rw [← UInt32.toNat_inj, UInt32.toNat_and]
  exact Nat.and_two_pow_sub_one_of_lt_two_pow hlt

/-- A lock never disables itself. -/
theorem lock_and_disableFlag {units : UInt32} (h : units ≤ mask) :
    (typeFlag ||| units) &&& disableFlag = 0 := by
  have htype : typeFlag.toNat &&& disableFlag.toNat = 0 := by decide
  have hmask : mask.toNat &&& disableFlag.toNat = 0 := by decide
  rw [← UInt32.toNat_inj, UInt32.toNat_and, UInt32.toNat_or, Nat.and_or_distrib_right, htype,
    ← and_mask h, UInt32.toNat_and, Nat.and_assoc, hmask, Nat.and_zero]
  rfl

theorem lock_and_typeFlag {units : UInt32} (h : units ≤ mask) :
    (typeFlag ||| units) &&& typeFlag = typeFlag := by
  have hmask : mask.toNat &&& typeFlag.toNat = 0 := by decide
  rw [← UInt32.toNat_inj, UInt32.toNat_and, UInt32.toNat_or, Nat.and_or_distrib_right,
    Nat.and_self, ← and_mask h, UInt32.toNat_and, Nat.and_assoc, hmask, Nat.and_zero, Nat.or_zero]

/-! ## Units -/

theorem toNat_units (seconds : UInt32) : (seconds >>> 9).toNat = seconds.toNat / 512 := by
  rw [UInt32.toNat_shiftRight]
  exact Nat.shiftRight_eq_div_pow ..

/-- The timeouts with a lock are those below `2 ^ 25` seconds. -/
theorem units_le_mask_iff {seconds : UInt32} :
    seconds >>> 9 ≤ mask ↔ seconds.toNat < 2 ^ 25 := by
  have hmask : mask.toNat = 65535 := rfl
  rw [UInt32.le_iff_toNat_le, toNat_units, hmask]
  omega

theorem sequence_of_lt {seconds : UInt32} (h : seconds.toNat < 2 ^ 25) :
    sequence seconds = .ok (typeFlag ||| (seconds >>> 9)) :=
  sequence_eq_ok_iff.2 ⟨units_le_mask_iff.2 h, rfl⟩

theorem sequence_of_ge {seconds : UInt32} (h : 2 ^ 25 ≤ seconds.toNat) :
    sequence seconds = malformed (.relativeTimeout seconds) :=
  if_pos (UInt32.not_le.1 (mt units_le_mask_iff.1 (Nat.not_lt.2 h)))

theorem lt_of_sequence {seconds lock : UInt32} (h : sequence seconds = .ok lock) :
    seconds.toNat < 2 ^ 25 := units_le_mask_iff.1 (sequence_eq_ok_iff.1 h).1

theorem lock_and_mask {units : UInt32} (h : units ≤ mask) :
    (typeFlag ||| units) &&& mask = units := by
  have htype : typeFlag.toNat &&& mask.toNat = 0 := by decide
  rw [← UInt32.toNat_inj, UInt32.toNat_and, UInt32.toNat_or, Nat.and_or_distrib_right, htype,
    Nat.zero_or, ← UInt32.toNat_and, and_mask h]

/-- A lock is its units behind the flag. -/
theorem toNat_of_sequence {seconds lock : UInt32} (h : sequence seconds = .ok lock) :
    lock.toNat = 2 ^ 22 + seconds.toNat / 512 := by
  obtain ⟨hfits, rfl⟩ := sequence_eq_ok_iff.1 h
  have hunits : seconds.toNat / 512 < 2 ^ 22 := by
    have hlt := units_le_mask_iff.1 hfits
    omega
  rw [UInt32.toNat_or, toNat_units]
  exact (Nat.two_pow_add_eq_or_of_lt hunits 1).symm

/-- Timeouts with the same lock have the same units. -/
theorem units_of_sequence {a b lock : UInt32} (ha : sequence a = .ok lock)
    (hb : sequence b = .ok lock) : a.toNat / 512 = b.toNat / 512 := by
  obtain ⟨hfitsA, rfl⟩ := sequence_eq_ok_iff.1 ha
  obtain ⟨hfitsB, hlock⟩ := sequence_eq_ok_iff.1 hb
  have hunits : b >>> 9 = a >>> 9 := by
    rw [← lock_and_mask hfitsB, hlock, lock_and_mask hfitsA]
  rw [← toNat_units, ← toNat_units, hunits]

theorem sequence_eq_of_units {a b lock : UInt32} (h : a.toNat / 512 = b.toNat / 512)
    (ha : sequence a = .ok lock) : sequence b = .ok lock := by
  have hunits : a >>> 9 = b >>> 9 := by rw [← UInt32.toNat_inj, toNat_units, toNat_units, h]
  rwa [sequence_eq_ok_iff, ← hunits, ← sequence_eq_ok_iff]

/-- A candidate is a whole number of units above the nominal timeout, and has a lock. -/
theorem candidate_eq_some_iff {nominal offset timeout : UInt32} :
    candidate nominal offset = some timeout ↔
      timeout.toNat = nominal.toNat + 512 * offset.toNat ∧
        ∃ lock, sequence timeout = .ok lock := by
  have hlocked (t : UInt32) : (sequence t).toBool = true ↔ ∃ lock, sequence t = .ok lock := by
    cases sequence t <;> simp [Except.toBool]
  have h512 : (512 : UInt32).toNat = 512 := rfl
  constructor
  · intro h
    obtain ⟨step, hstep, h⟩ := Option.bind_eq_some_iff.1 h
    obtain ⟨t, ht, h⟩ := Option.bind_eq_some_iff.1 h
    obtain ⟨hfits, heq⟩ := Option.ite_none_right_eq_some.1 h
    obtain rfl := Option.some.inj heq
    rw [Seconds.mul?_eq_some_iff, h512] at hstep
    rw [Seconds.add?_eq_some_iff] at ht
    exact ⟨by omega, (hlocked t).1 hfits⟩
  · intro h
    obtain ⟨heq, hfits⟩ := h
    have hword := timeout.toNat_lt
    refine Option.bind_eq_some_iff.2 ⟨offset * 512, Seconds.mul?_eq_some_iff.2 ?_,
      Option.bind_eq_some_iff.2 ⟨timeout, Seconds.add?_eq_some_iff.2 ?_, ?_⟩⟩
    · rw [UInt32.toNat_mul, h512]
      omega
    · rw [UInt32.toNat_mul, h512]
      omega
    · rw [if_pos ((hlocked timeout).2 hfits)]

/-! ## Later timeouts -/

/-- The whole units by which a timeout exceeds the nominal one. -/
def excess (nominal chosen : UInt32) : UInt32 := (chosen >>> 9) - (nominal >>> 9)

section

variable {nominal chosen lock : UInt32}

theorem toNat_excess (h : nominal ≤ chosen) :
    nominal.toNat / 512 + (excess nominal chosen).toNat = chosen.toNat / 512 := by
  have hle : nominal.toNat / 512 ≤ chosen.toNat / 512 := Nat.div_le_div_right h
  rw [excess, UInt32.toNat_sub_of_le, toNat_units, toNat_units]
  · omega
  · rwa [UInt32.le_iff_toNat_le, toNat_units, toNat_units]

/-- Among the candidates, the one with the lock of a later timeout stands at its excess. -/
theorem offset_of_candidate (h : nominal ≤ chosen) (hchosen : sequence chosen = .ok lock)
    {offset timeout : UInt32} (hcandidate : candidate nominal offset = some timeout)
    (htimeout : sequence timeout = .ok lock) : offset = excess nominal chosen := by
  obtain ⟨heq, -⟩ := candidate_eq_some_iff.1 hcandidate
  have hunits := units_of_sequence htimeout hchosen
  have hexcess := toNat_excess h
  rw [← UInt32.toNat_inj]
  omega

/-- Up to the excess of a timeout with a lock, whole units on the nominal one do not overflow. -/
theorem toNat_add_units (h : nominal ≤ chosen) (hchosen : sequence chosen = .ok lock)
    {offset : UInt32} (hle : offset ≤ excess nominal chosen) :
    (nominal + 512 * offset).toNat = nominal.toNat + 512 * offset.toNat := by
  have hexcess := toNat_excess h
  obtain ⟨hfits, -⟩ := sequence_eq_ok_iff.1 hchosen
  rw [UInt32.le_iff_toNat_le, toNat_units] at hfits
  change _ ≤ 65535 at hfits
  rw [UInt32.le_iff_toNat_le] at hle
  have h512 : (512 : UInt32).toNat = 512 := rfl
  rw [UInt32.toNat_add, UInt32.toNat_mul, h512]
  omega

/-- Every candidate up to the excess of a timeout with a lock has a lock. -/
theorem candidate_of_le_excess (h : nominal ≤ chosen) (hchosen : sequence chosen = .ok lock)
    {offset : UInt32} (hle : offset ≤ excess nominal chosen) :
    candidate nominal offset = some (nominal + 512 * offset) := by
  have hsum := toNat_add_units h hchosen hle
  have hexcess := toNat_excess h
  obtain ⟨hfits, -⟩ := sequence_eq_ok_iff.1 hchosen
  rw [UInt32.le_iff_toNat_le, toNat_units] at hfits
  rw [UInt32.le_iff_toNat_le] at hle
  refine candidate_eq_some_iff.2 ⟨hsum, _, sequence_eq_ok_iff.2 ⟨?_, rfl⟩⟩
  rw [UInt32.le_iff_toNat_le, toNat_units, hsum]
  change _ ≤ 65535
  change _ ≤ 65535 at hfits
  omega

theorem sequence_excess (h : nominal ≤ chosen) (hchosen : sequence chosen = .ok lock) :
    sequence (nominal + 512 * excess nominal chosen) = .ok lock := by
  have hexcess := toNat_excess h
  obtain ⟨heq, -⟩ := candidate_eq_some_iff.1
    (candidate_of_le_excess h hchosen (UInt32.le_refl _))
  exact sequence_eq_of_units (by omega) hchosen

end

end RelativeLock

/-- A spend passes a lock if its own is for as many units. -/
theorem Script.Context.passes_iff {c : Script.Context} {seconds lock : UInt32}
    (h : RelativeLock.sequence seconds = .ok lock) : c.passes lock = true ↔
      2 ≤ c.version ∧ c.sequence &&& RelativeLock.disableFlag = 0 ∧
        c.sequence &&& RelativeLock.typeFlag = RelativeLock.typeFlag ∧
        seconds.toNat / 512 ≤ (c.sequence &&& RelativeLock.mask).toNat := by
  obtain ⟨hfits, rfl⟩ := RelativeLock.sequence_eq_ok_iff.1 h
  have hunits : seconds >>> 9 ≤ c.sequence &&& RelativeLock.mask ↔
      seconds.toNat / 512 ≤ (c.sequence &&& RelativeLock.mask).toNat := by
    rw [UInt32.le_iff_toNat_le, RelativeLock.toNat_units]
  rw [passes, RelativeLock.lock_and_disableFlag hfits, RelativeLock.lock_and_typeFlag hfits,
    RelativeLock.lock_and_mask hfits, ← hunits, eq_comm (b := RelativeLock.typeFlag)]
  simp [and_assoc]

theorem Script.Context.passes_own {c : Script.Context} {seconds : UInt32}
    (h : RelativeLock.sequence seconds = .ok c.sequence) (hversion : 2 ≤ c.version) :
    c.passes c.sequence = true := by
  obtain ⟨hfits, hlock⟩ := RelativeLock.sequence_eq_ok_iff.1 h
  have henabled : c.sequence &&& RelativeLock.disableFlag = 0 := by
    rw [← hlock]
    exact RelativeLock.lock_and_disableFlag hfits
  simp [passes, henabled, hversion]

end Wager
