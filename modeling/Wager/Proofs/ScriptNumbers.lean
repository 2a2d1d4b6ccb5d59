import Mathlib.Algebra.Ring.Nat
import Wager.Chain.ScriptNumber

/-!
# Numbers in scripts

A script number reads back (`decode_encode`), and its length says how large it is
(`length_encode_le_iff`): `k` bytes hold the magnitudes below `2 ^ (8 * k - 1)`. Both follow the
bytes of the magnitude from the least significant one, the last of which carries the sign.
-/

namespace Wager.ScriptNumber

/-! ## Signed magnitudes -/

/-- The bytes of a magnitude with the sign in the last. -/
def signed (negative : Bool) (n : Nat) : Bytes := withSign negative (magnitude n)

variable (negative : Bool)

theorem signed_zero : signed negative 0 = [] := by
  rw [signed, magnitude]
  rfl

theorem signed_of_lt {n : Nat} (hpos : 0 < n) (hn : n < 128) :
    signed negative n = [UInt8.ofNat n + if negative then 0x80 else 0] := by
  have hlow : UInt8.ofNat n < 0x80 := by
    rw [UInt8.lt_iff_toNat_lt, UInt8.toNat_ofNat']
    change n % 256 < 128
    omega
  rw [signed, magnitude, if_neg (by omega), magnitude, if_pos (by omega), withSign, if_pos hlow]

theorem signed_of_le {n : Nat} (hlow : 128 ≤ n) (hn : n < 256) :
    signed negative n = [UInt8.ofNat n, if negative then 0x80 else 0] := by
  have hhigh : ¬ UInt8.ofNat n < 0x80 := by
    rw [UInt8.lt_iff_toNat_lt, UInt8.toNat_ofNat']
    change ¬ n % 256 < 128
    omega
  rw [signed, magnitude, if_neg (by omega), magnitude, if_pos (by omega), withSign, if_neg hhigh]

theorem signed_of_ge {n : Nat} (hn : 256 ≤ n) :
    signed negative n = UInt8.ofNat n :: signed negative (n / 256) := by
  rw [signed, signed, magnitude, if_neg (by omega), magnitude, if_neg (by omega), withSign]

theorem signed_ne_nil {n : Nat} (hpos : 0 < n) : signed negative n ≠ [] := by
  by_cases hsmall : n < 128
  · simp [signed_of_lt negative hpos hsmall]
  by_cases hbyte : n < 256
  · simp [signed_of_le negative (by omega) hbyte]
  · simp [signed_of_ge negative (by omega : 256 ≤ n)]

/-! ## Reading back -/

theorem decode_cons {b : UInt8} {rest : Bytes} (h : rest ≠ []) :
    decode (b :: rest) =
      256 * decode rest + if rest.getLast h < 0x80 then (b.toNat : Int) else -b.toNat := by
  obtain ⟨c, rest, rfl⟩ := List.exists_cons_of_ne_nil h
  rw [decode]
  split <;> omega

/-- The last byte shows the sign, and the bytes stand for the signed magnitude. -/
theorem decode_signed {n : Nat} (hpos : 0 < n) :
    (∀ h, (signed negative n).getLast h < 0x80 ↔ negative = false) ∧
      decode (signed negative n) = if negative then -(n : Int) else n := by
  induction n using Nat.strongRecOn with
  | ind n ih =>
    by_cases hsmall : n < 128
    · rw [signed_of_lt negative hpos hsmall]
      have hlow : (UInt8.ofNat n).toNat = n := by rw [UInt8.toNat_ofNat']; omega
      cases negative
      · have hlt : UInt8.ofNat n < 0x80 := by
          rw [UInt8.lt_iff_toNat_lt, hlow]
          exact hsmall
        simp [decode, hlt, hlow]
      · have hsum : (UInt8.ofNat n + 0x80).toNat = n + 128 := by
          rw [UInt8.toNat_add, hlow]
          change (n + 128) % 256 = n + 128
          omega
        have hge : ¬ UInt8.ofNat n + 0x80 < 0x80 := by
          rw [UInt8.lt_iff_toNat_lt, hsum]
          change ¬ n + 128 < 128
          omega
        simp [decode, hge, hsum]
    by_cases hbyte : n < 256
    · rw [signed_of_le negative (by omega) hbyte]
      have hlow : (UInt8.ofNat n).toNat = n := by rw [UInt8.toNat_ofNat']; omega
      cases negative <;> simp [decode, hlow]
    · obtain ⟨hlast, hvalue⟩ := ih (n / 256) (by omega) (by omega)
      have hne := signed_ne_nil negative (n := n / 256) (by omega)
      have hmod : (UInt8.ofNat n).toNat = n % 256 := UInt8.toNat_ofNat'
      rw [signed_of_ge negative (by omega : 256 ≤ n)]
      refine ⟨fun h => by rw [List.getLast_cons hne, hlast], ?_⟩
      rw [decode_cons hne, hvalue, hmod]
      simp only [hlast]
      cases negative <;> simp <;> omega

theorem decode_encode (v : Int) : decode (encode v) = v := by
  change decode (signed (v < 0) v.natAbs) = v
  by_cases hzero : v = 0
  · subst hzero
    rw [Int.natAbs_zero, signed_zero]
    rfl
  · rw [(decode_signed _ (by omega)).2]
    by_cases hneg : v < 0
    · simp only [hneg, decide_true, if_true]
      omega
    · simp only [hneg, decide_false, Bool.false_eq_true, if_false]
      omega

theorem encode_injective {v w : Int} (h : encode v = encode w) : v = w := by
  rw [← decode_encode v, h, decode_encode]

/-! ## Length -/

theorem length_signed_le_iff {n k : Nat} :
    (signed negative n).length ≤ k + 1 ↔ n < 128 * 256 ^ k := by
  induction k generalizing n with
  | zero =>
    by_cases hpos : 0 < n
    · by_cases hsmall : n < 128
      · simp [signed_of_lt negative hpos hsmall, hsmall]
      by_cases hbyte : n < 256
      · simp [signed_of_le negative (by omega) hbyte]
        omega
      · have hne := List.length_pos_iff.2 (signed_ne_nil negative (n := n / 256) (by omega))
        rw [signed_of_ge negative (by omega : 256 ≤ n), List.length_cons]
        omega
    · obtain rfl : n = 0 := by omega
      simp [signed_zero]
  | succ k ih =>
    have hpow : 256 ≤ 256 ^ (k + 1) := Nat.le_self_pow (by omega) 256
    by_cases hbyte : n < 256
    · have hlen : (signed negative n).length ≤ 2 := by
        rcases Nat.eq_zero_or_pos n with rfl | hpos
        · simp [signed_zero]
        by_cases hsmall : n < 128
        · simp [signed_of_lt negative hpos hsmall]
        · simp [signed_of_le negative (by omega) hbyte]
      exact ⟨fun _ => by omega, fun _ => by omega⟩
    · rw [signed_of_ge negative (by omega : 256 ≤ n), List.length_cons, Nat.add_le_add_iff_right,
        ih, Nat.div_lt_iff_lt_mul (by omega), Nat.pow_succ, Nat.mul_assoc]

/-- `k + 1` bytes hold exactly the numbers whose magnitude leaves the top bit free. -/
theorem length_encode_le_iff {v : Int} {k : Nat} :
    (encode v).length ≤ k + 1 ↔ v.natAbs < 128 * 256 ^ k :=
  length_signed_le_iff _

theorem length_encode_eq {v : Int} {k : Nat} (hlow : 128 * 256 ^ k ≤ v.natAbs)
    (hhigh : v.natAbs < 128 * 256 ^ (k + 1)) : (encode v).length = k + 2 := by
  have hle := length_encode_le_iff.2 hhigh
  have hnot := mt length_encode_le_iff.1 (Nat.not_lt.2 hlow)
  omega

end Wager.ScriptNumber
