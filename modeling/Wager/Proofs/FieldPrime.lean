import Mathlib.FieldTheory.Finite.Basic
import Mathlib.RingTheory.Int.Basic
import Mathlib.Tactic.NormNum.Prime
import Wager.Crypto.Curve

/-!
# The field of the curve

The modulus of the coordinates is prime, so every square has exactly two roots and the one that
`sqrt` finds is one of them.

**The certificate.** A number is prime when enough of its predecessor is known to be a product of
primes that some power's order has to contain (`prime_of_factors`). Three steps lead from primes
that are found by division up to the field prime.
-/

namespace Wager.Curve

/-! ## Powers -/

theorem powModBits_eq (m : Nat) {bits b e : Nat} (h : e < 2 ^ bits) :
    powModBits m bits b e = b ^ e % m := by
  induction bits generalizing b e with
  | zero =>
    obtain rfl : e = 0 := by omega
    rw [powModBits, Nat.pow_zero]
  | succ bits ih =>
    have hhalf : e / 2 < 2 ^ bits := by omega
    have hsplit : b ^ e = (b * b) ^ (e / 2) * b ^ (e % 2) := by
      rw [← Nat.pow_two, ← Nat.pow_mul, ← Nat.pow_add, Nat.div_add_mod]
    rw [powModBits, ih hhalf, ← Nat.pow_mod, hsplit]
    rcases Nat.mod_two_eq_zero_or_one e with h | h
    · simp [h]
    · simp [h, Nat.mul_comm]

theorem powMod_eq (m b e : Nat) : powMod m b e = b ^ e % m := by
  rw [powMod, powModBits_eq m Nat.lt_log2_self, ← Nat.pow_mod]

/-! ## Primality -/

/-- A number is prime if some power has an order that contains distinct primes whose product
reaches the number's root: a prime factor of the number would exceed that product. -/
theorem prime_of_factors {n a : Nat} (qs : Finset Nat) (hprime : ∀ q ∈ qs, q.Prime)
    (hdvd : ∀ q ∈ qs, q ∣ n - 1) (hlarge : 1 < n ∧ n ≤ (∏ q ∈ qs, q) * ∏ q ∈ qs, q)
    (hpow : powMod n a (n - 1) = 1)
    (hgcd : ∀ q ∈ qs, (powMod n a ((n - 1) / q) - 1).gcd n = 1) : n.Prime := by
  have hfactor : n.minFac.Prime := Nat.minFac_prime hlarge.1.ne'
  have hn := n.minFac_dvd
  by_contra hcomposite
  have hroot := Nat.minFac_sq_le_self (by omega) hcomposite
  generalize n.minFac = r at hfactor hn hroot
  have : Fact r.Prime := ⟨hfactor⟩
  have hmod (e : Nat) : (powMod n a e : ZMod r) = (a : ZMod r) ^ e := by
    rw [powMod_eq, ← Nat.cast_pow, ZMod.natCast_eq_natCast_iff]
    exact (Nat.mod_modEq _ _).of_dvd hn
  have hone : (a : ZMod r) ^ (n - 1) = 1 := by rw [← hmod, hpow, Nat.cast_one]
  have hnezero : (a : ZMod r) ≠ 0 := by
    intro hzero
    rw [hzero, zero_pow (Nat.sub_ne_zero_of_lt hlarge.1)] at hone
    exact zero_ne_one hone
  have horder : ∀ q ∈ qs, q ∣ r - 1 := by
    intro q hq
    by_contra hndvd
    obtain ⟨k, hk⟩ := hdvd q hq
    have hpred : (a : ZMod r) ^ k = 1 := by
      have hcoprime : (r - 1).Coprime q := ((Nat.Prime.coprime_iff_not_dvd (hprime q hq)).2
        hndvd).symm
      have hfermat := orderOf_dvd_of_pow_eq_one (ZMod.pow_card_sub_one_eq_one hnezero)
      rw [hk, ← orderOf_dvd_iff_pow_eq_one] at hone
      exact orderOf_dvd_iff_pow_eq_one.1
        ((Nat.Coprime.coprime_dvd_left hfermat hcoprime).dvd_of_dvd_mul_left hone)
    have hdiv : (n - 1) / q = k := by rw [hk, Nat.mul_div_cancel_left _ (hprime q hq).pos]
    have hcast := hmod k
    rw [hpred] at hcast
    have hdvd : r ∣ powMod n a k - 1 := by
      rcases Nat.eq_zero_or_pos (powMod n a k) with hzero | hpos
      · rw [hzero]
        exact dvd_zero r
      · rw [← ZMod.natCast_eq_zero_iff, Nat.cast_sub hpos, hcast, Nat.cast_one, sub_self]
    have hdvdOne := Nat.dvd_gcd hdvd hn
    rw [← hdiv, hgcd q hq] at hdvdOne
    exact hfactor.one_lt.ne' (Nat.dvd_one.1 hdvdOne)
  have hprod : ∏ q ∈ qs, q ∣ r - 1 :=
    Finset.prod_primes_dvd _ (fun q hq => (hprime q hq).prime) horder
  have hle := Nat.le_of_dvd (Nat.sub_pos_of_lt hfactor.one_lt) hprod
  have hlt : ∏ q ∈ qs, q < r := Nat.lt_of_le_of_lt hle (Nat.sub_one_lt hfactor.ne_zero)
  rw [Nat.pow_two] at hroot
  exact (hlarge.2.trans_lt (Nat.mul_lt_mul'' hlt hlt)).not_ge hroot

theorem prime_prime : prime.Prime := by
  have h₁ : Nat.Prime 255515944373312847190720520512484175977 := by
    refine prime_of_factors (a := 2) {107590001, 7240687, 96557, 41201} ?_ ?_ ?_ ?_ ?_
    · simp only [Finset.mem_insert, Finset.mem_singleton]
      rintro q (rfl | rfl | rfl | rfl) <;> norm_num
    · decide +kernel
    · decide +kernel
    · decide +kernel
    · decide +kernel
  have h₂ : Nat.Prime
      205115282021455665897114700593932402728804164701536103180137503955397371 := by
    refine prime_of_factors (a := 2) {255515944373312847190720520512484175977} ?_ ?_ ?_ ?_ ?_
    · simpa using h₁
    all_goals decide +kernel
  refine prime_of_factors (a := 2)
    {205115282021455665897114700593932402728804164701536103180137503955397371} ?_ ?_ ?_ ?_ ?_
  · simpa using h₂
  all_goals decide +kernel

instance : Fact prime.Prime := ⟨prime_prime⟩

/-! ## Roots -/

theorem sqrt_lt (a : Nat) : sqrt a < prime := by
  rw [sqrt, powMod_eq]
  exact Nat.mod_lt _ prime_prime.pos

/-- Of a square, `sqrt` finds one root or the other. -/
theorem sqrt_mul_self {y : Nat} (hy : y < prime) :
    sqrt (y * y % prime) = y ∨ sqrt (y * y % prime) + y = prime := by
  have hroot : (sqrt (y * y % prime) : ZMod prime) * sqrt (y * y % prime) = y * y := by
    have hexp : 2 * ((prime + 1) / 4 + (prime + 1) / 4) = prime + 1 := by decide +kernel
    rw [sqrt, powMod_eq, ZMod.natCast_mod, Nat.cast_pow, ZMod.natCast_mod, Nat.cast_mul, ← pow_add,
      ← pow_two, ← pow_mul, hexp, pow_succ, ZMod.pow_card, pow_two]
  rcases mul_self_eq_mul_self_iff.1 hroot with h | h
  · left
    rwa [ZMod.natCast_eq_natCast_iff', Nat.mod_eq_of_lt (sqrt_lt _), Nat.mod_eq_of_lt hy] at h
  · rw [eq_neg_iff_add_eq_zero, ← Nat.cast_add, ZMod.natCast_eq_zero_iff] at h
    obtain ⟨k, hk⟩ := h
    have hlt := sqrt_lt (y * y % prime)
    rcases k with _ | _ | k
    · left
      omega
    · right
      omega
    · have hle := Nat.mul_le_mul_left prime (show 2 ≤ k + 1 + 1 by omega)
      omega

end Wager.Curve
