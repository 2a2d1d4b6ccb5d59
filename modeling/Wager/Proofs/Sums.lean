import Mathlib.Algebra.Ring.Nat
import Wager.Proofs.Success
import Wager.Spend.Fee

/-!
# Sums of values

A checked operation on values has a result exactly if the result of the same operation on numbers
fits, and then the two agree. Since values only add up, the sum of a list has a value exactly if the
whole sum fits.

An even split into one share is the amount itself, so a single output pays a fee as long as it holds
the fee (`Output.afterFee_singleton`).
-/

namespace Wager

/-! ## Checked arithmetic -/

namespace Sats

variable {a b c : UInt64}

theorem add?_eq_some_iff : add? a b = some c ↔ c.toNat = a.toNat + b.toNat := by
  have hc := c.toNat_lt
  rw [add?, Option.ite_none_right_eq_some, Option.some.injEq, ← UInt64.toNat_inj, UInt64.toNat_add,
    UInt64.size]
  omega

theorem sub?_eq_some_iff : sub? a b = some c ↔ a.toNat = c.toNat + b.toNat := by
  have ha := a.toNat_lt
  rw [sub?, Option.ite_none_right_eq_some, Option.some.injEq, ← UInt64.toNat_inj,
    UInt64.le_iff_toNat_le]
  constructor
  · intro h
    obtain ⟨hle, heq⟩ := h
    rw [UInt64.toNat_sub_of_le _ _ hle] at heq
    omega
  · intro h
    have hle : b.toNat ≤ a.toNat := by omega
    refine ⟨hle, ?_⟩
    rw [UInt64.toNat_sub_of_le _ _ hle]
    omega

theorem mul?_eq_some_iff : mul? a b = some c ↔ c.toNat = a.toNat * b.toNat := by
  have hc := c.toNat_lt
  rw [mul?, Option.ite_none_right_eq_some, Option.some.injEq, ← UInt64.toNat_inj, UInt64.toNat_mul]
  constructor
  · intro h
    obtain ⟨hlt, heq⟩ := h
    rw [← heq, Nat.mod_eq_of_lt hlt]
  · intro h
    rw [← h]
    exact ⟨hc, Nat.mod_eq_of_lt hc⟩

theorem foldlM_add?_eq_some_iff {values : List UInt64} : values.foldlM add? a = some c ↔
    c.toNat = a.toNat + (values.map UInt64.toNat).sum := by
  induction values generalizing a with
  | nil => simp [← UInt64.toNat_inj, eq_comm]
  | cons value values ih =>
    rw [List.foldlM_cons, List.map_cons, List.sum_cons]
    simp only [Option.bind_eq_bind, Option.bind_eq_some_iff, ih, add?_eq_some_iff]
    constructor
    · intro h
      obtain ⟨sum, hsum, hc⟩ := h
      omega
    · intro h
      have hlt := c.toNat_lt
      refine ⟨UInt64.ofNat (a.toNat + value.toNat), ?_, ?_⟩
      · rw [UInt64.toNat_ofNat_of_lt' (by rw [UInt64.size]; omega)]
      · rw [UInt64.toNat_ofNat_of_lt' (by rw [UInt64.size]; omega)]
        omega

theorem sum?_eq_some_iff {values : List UInt64} :
    sum? values = some c ↔ c.toNat = (values.map UInt64.toNat).sum := by
  rw [sum?, foldlM_add?_eq_some_iff, UInt64.toNat_zero, Nat.zero_add]

end Sats

/-! ## Outputs -/

theorem splitEvenly_one (total : UInt64) : splitEvenly total 1 = [total] := by
  simp [splitEvenly, Nat.mod_one]

namespace Output

theorem total_eq_ok_iff {outputs : List Output} {sum : UInt64} :
    total outputs = .ok sum ↔ sum.toNat = (outputs.map (·.value.toNat)).sum := by
  rw [total, Outcome.need_eq_ok, Sats.sum?_eq_some_iff, List.map_map]
  rfl

theorem afterFee_singleton (o : Output) (fee : UInt64) :
    afterFee [o] fee = if fee ≤ o.value then .ok [⟨o.value - fee, o.locking⟩]
      else .error (.insufficientFunds fee o.value) := by
  simp only [afterFee, splitFee, List.isEmpty_cons, List.length_singleton, splitEvenly_one,
    chargeEach, charge, Sats.sub?]
  by_cases h : fee ≤ o.value
  · simp [h, Except.map]
  · simp [h, Except.map]

end Output

end Wager
