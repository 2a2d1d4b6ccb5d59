import Wager.Proofs.Reading
import Wager.Proofs.ScriptNumbers
import Wager.Proofs.Timeouts

/-!
# Shortest script numbers

**Meaning.** The top bit of the last byte is the sign of what a byte string stands for, and all
other bits are its magnitude, least significant byte first (`decode_append_singleton`).

**Minimality.** Many byte strings stand for one number, as zero bytes can be put below the sign. One
that has such a byte does not need its last byte (`IsMinimal`). A number has exactly one byte string
that needs its last byte (`encode_decode_iff`), and none is shorter (`length_encode_decode_le`): the
encoding.

Main result: `encodes_shortest`.
-/

namespace Wager.ScriptNumber

variable {data front : Bytes} {last : UInt8} {v : Int}

/-! ## What a byte string stands for -/

/-- The top bit of the last byte is the sign, and the other bits are the magnitude. -/
theorem decode_append_singleton (front : Bytes) (last : UInt8) :
    decode (front ++ [last]) = if last < 0x80 then (ofLittleEndian (front ++ [last % 0x80]) : Int)
      else -ofLittleEndian (front ++ [last % 0x80]) := by
  induction front with
  | nil =>
    have hlast := last.toNat_lt
    have hmod : (last % 0x80).toNat = last.toNat % 128 := UInt8.toNat_mod ..
    by_cases hlow : last < 0x80
    · have hlt : last.toNat < 128 := UInt8.lt_iff_toNat_lt.1 hlow
      simp [decode, ofLittleEndian, hlow, hmod, Nat.mod_eq_of_lt hlt]
    · have hge : 128 ≤ last.toNat := UInt8.le_iff_toNat_le.1 (UInt8.not_lt.1 hlow)
      simp [decode, ofLittleEndian, hlow, hmod]
      omega
  | cons b front ih =>
    rw [List.cons_append, decode_cons (List.concat_ne_nil last front), ih,
      List.getLast_append_singleton, List.cons_append, ofLittleEndian]
    split <;> push_cast <;> ring

/-- The magnitude is what the bytes hold without the sign. -/
theorem natAbs_decode (front : Bytes) (last : UInt8) :
    (decode (front ++ [last])).natAbs = ofLittleEndian (front ++ [last % 0x80]) := by
  rw [decode_append_singleton]
  split <;> simp

theorem natAbs_decode_eq (front : Bytes) (last : UInt8) : (decode (front ++ [last])).natAbs =
    ofLittleEndian front + 256 ^ front.length * (last.toNat % 128) := by
  have hmod : (last % 0x80).toNat = last.toNat % 128 := UInt8.toNat_mod ..
  rw [natAbs_decode, ofLittleEndian_append, ofLittleEndian, hmod, ofLittleEndian, Nat.mul_zero,
    Nat.add_zero]

theorem last_lt_iff (hne : decode (front ++ [last]) ≠ 0) :
    last < 0x80 ↔ 0 < decode (front ++ [last]) := by
  rw [decode_append_singleton] at hne ⊢
  split at hne <;> rename_i hlow
  · rw [if_pos hlow]
    exact iff_of_true hlow (by omega)
  · rw [if_neg hlow]
    exact iff_of_false hlow (by omega)

/-- Byte strings of one length that stand for the same number other than zero are equal. -/
theorem eq_of_decode_eq {data' : Bytes} (hlen : data.length = data'.length)
    (h : decode data = decode data') (hne : decode data ≠ 0) : data = data' := by
  rcases data.eq_nil_or_concat' with rfl | ⟨front, last, rfl⟩
  · exact absurd rfl hne
  rcases data'.eq_nil_or_concat' with rfl | ⟨front', last', rfl⟩
  · exact absurd hlen (by simp)
  have hlow : last < 0x80 ↔ last' < 0x80 := by
    rw [last_lt_iff hne, last_lt_iff (h ▸ hne), h]
  have hmagnitude : front ++ [last % 0x80] = front' ++ [last' % 0x80] := by
    have hlengths : (front ++ [last % 0x80]).length = (front' ++ [last' % 0x80]).length := by
      simpa using hlen
    rw [← littleEndian_ofLittleEndian (front ++ _), ← littleEndian_ofLittleEndian (front' ++ _),
      hlengths, ← natAbs_decode, ← natAbs_decode, h]
  obtain ⟨rfl, hlast⟩ := List.append_inj' hmagnitude rfl
  have hmod := congrArg UInt8.toNat (List.cons.inj hlast).1
  have hlt := last.toNat_lt
  have hlt' := last'.toNat_lt
  rw [UInt8.lt_iff_toNat_lt, UInt8.lt_iff_toNat_lt] at hlow
  rw [UInt8.toNat_mod, UInt8.toNat_mod] at hmod
  change last.toNat < 128 ↔ last'.toNat < 128 at hlow
  change last.toNat % 128 = last'.toNat % 128 at hmod
  rw [UInt8.toNat_inj.1 (by omega : last.toNat = last'.toNat)]

/-! ## Shortest encodings -/

theorem encode_eq_nil_iff : encode v = [] ↔ v = 0 := by
  constructor
  · intro h
    rw [← decode_encode v, h, decode]
  · rintro rfl
    exact signed_zero _

/-- The encoding of a number is as short as any byte string that stands for it. -/
theorem length_encode_decode_le (data : Bytes) : (encode (decode data)).length ≤ data.length := by
  rcases data.eq_nil_or_concat' with rfl | ⟨front, last, rfl⟩
  · exact Nat.le_of_eq (congrArg List.length (signed_zero _))
  have hfront := ofLittleEndian_lt front
  have hlast : last.toNat % 128 ≤ 127 := by omega
  have hmul := Nat.mul_le_mul_left (256 ^ front.length) hlast
  rw [List.length_append, List.length_singleton, length_encode_le_iff, natAbs_decode_eq]
  omega

/-- The last byte is needed: it holds more than the sign, or the byte before it has no room for the
sign. -/
def IsMinimal (data : Bytes) : Prop :=
  ∀ front last, data = front ++ [last] → last = 0 ∨ last = 0x80 →
    ∃ before ∈ front.getLast?, 0x80 ≤ before

theorem isMinimal_append_singleton : IsMinimal (front ++ [last]) ↔
    (last.toNat % 128 = 0 → ∃ before ∈ front.getLast?, 128 ≤ before.toNat) := by
  have hlt := last.toNat_lt
  have hbare : last = 0 ∨ last = 0x80 ↔ last.toNat % 128 = 0 := by
    rw [← UInt8.toNat_inj, ← UInt8.toNat_inj]
    change last.toNat = 0 ∨ last.toNat = 128 ↔ _
    omega
  simp only [← hbare]
  constructor
  · exact fun h => h front last rfl
  · intro h front' last' heq
    obtain ⟨rfl, hlast⟩ := List.append_inj' heq rfl
    obtain rfl : last = last' := (List.cons.inj hlast).1
    exact h

/-- A single byte is needed for every number but zero. -/
theorem isMinimal_singleton (last : UInt8) :
    IsMinimal [last] ↔ 1 ≤ (encode (decode [last])).length := by
  have hzero : decode [last] = 0 ↔ last.toNat % 128 = 0 := by
    rw [← Int.natAbs_eq_zero, ← List.nil_append [last], natAbs_decode_eq]
    simp [ofLittleEndian]
  rw [← List.nil_append [last], isMinimal_append_singleton, List.nil_append, Nat.succ_le_iff,
    List.length_pos_iff, Ne, encode_eq_nil_iff, hzero]
  simp

/-- Behind another byte the last one is needed if it has magnitude, or if the other has no room for
the sign. -/
theorem isMinimal_concat (start : Bytes) (before last : UInt8) :
    IsMinimal (start ++ [before] ++ [last]) ↔
      start.length + 2 ≤ (encode (decode (start ++ [before] ++ [last]))).length := by
  have hshort : (encode (decode (start ++ [before] ++ [last]))).length ≤ start.length + 1 ↔
      ofLittleEndian start + 256 ^ start.length * before.toNat +
        256 ^ start.length * 256 * (last.toNat % 128) < 128 * 256 ^ start.length := by
    rw [length_encode_le_iff, natAbs_decode_eq, ofLittleEndian_append, List.length_append,
      List.length_singleton, Nat.pow_succ]
    simp only [ofLittleEndian, Nat.mul_zero, Nat.add_zero]
  have hneeded : IsMinimal (start ++ [before] ++ [last]) ↔
      (last.toNat % 128 = 0 → 128 ≤ before.toNat) := by
    rw [isMinimal_append_singleton, List.getLast?_concat]
    simp
  have hstart := ofLittleEndian_lt start
  rw [hneeded]
  generalize 256 ^ start.length = unit at hshort hstart
  by_cases hbare : last.toNat % 128 = 0
  · rw [hbare, Nat.mul_zero, Nat.add_zero] at hshort
    by_cases hbefore : 128 ≤ before.toNat
    · have hmul := Nat.mul_le_mul_left unit hbefore
      exact iff_of_true (fun _ => hbefore) (by omega)
    · have hmul := Nat.mul_le_mul_left unit (by omega : before.toNat ≤ 127)
      exact iff_of_false (fun h => hbefore (h hbare)) (by omega)
  · have hmul := Nat.mul_le_mul_left (unit * 256) (Nat.pos_of_ne_zero hbare)
    exact iff_of_true (fun h => absurd h hbare) (by omega)

/-- A byte string needs its last byte exactly if its number has no shorter encoding. -/
theorem isMinimal_iff : IsMinimal data ↔ data.length ≤ (encode (decode data)).length := by
  rcases data.eq_nil_or_concat' with rfl | ⟨front, last, rfl⟩
  · simp [IsMinimal]
  rcases front.eq_nil_or_concat' with rfl | ⟨start, before, rfl⟩
  · exact isMinimal_singleton last
  · rw [isMinimal_concat, List.length_append, List.length_append]
    rfl

theorem isMinimal_encode (v : Int) : IsMinimal (encode v) := by
  rw [isMinimal_iff, decode_encode]

/-- The encoding of a number is its only byte string that needs its last byte. -/
theorem encode_decode_iff : encode (decode data) = data ↔ IsMinimal data := by
  constructor
  · intro h
    rw [← h]
    exact isMinimal_encode _
  · intro h
    by_cases hzero : decode data = 0
    · rw [isMinimal_iff, hzero, encode_eq_nil_iff.2 rfl] at h
      rw [hzero, encode_eq_nil_iff.2 rfl, List.eq_nil_of_length_eq_zero (Nat.le_zero.1 h)]
    · refine (eq_of_decode_eq ?_ (decode_encode _).symm hzero).symm
      exact Nat.le_antisymm (isMinimal_iff.1 h) (length_encode_decode_le data)

/-! ## Locks -/

theorem length_encode_lock {seconds lock : UInt32}
    (h : RelativeLock.sequence seconds = .ok lock) : (encode lock.toNat).length = 3 := by
  have hlock := RelativeLock.toNat_of_sequence h
  have hlt := RelativeLock.lt_of_sequence h
  exact length_encode_eq (k := 1) (by rw [Int.natAbs_natCast]; omega)
    (by rw [Int.natAbs_natCast]; omega)

/-- A number is decoded by its sign in the top bit of the last byte and its magnitude in the other
bits. Its encoding decodes to it, and of all byte strings that do no other needs its last byte and
none is shorter. So different numbers have different encodings, and every lock takes three bytes. -/
theorem encodes_shortest (v : Int) (data front : Bytes) (last : UInt8) (seconds lock : UInt32) :
    (decode (front ++ [last]) = if last < 0x80 then (ofLittleEndian (front ++ [last % 0x80]) : Int)
      else -ofLittleEndian (front ++ [last % 0x80])) ∧
    decode (encode v) = v ∧ IsMinimal (encode v) ∧
    (decode data = v →
      (encode v).length ≤ data.length ∧ (data = encode v ↔ IsMinimal data)) ∧
    Function.Injective encode ∧
    (RelativeLock.sequence seconds = .ok lock → (encode lock.toNat).length = 3) := by
  refine ⟨decode_append_singleton front last, decode_encode v, isMinimal_encode v, ?_,
    fun _ _ => encode_injective, length_encode_lock⟩
  rintro rfl
  exact ⟨length_encode_decode_le data, by rw [eq_comm, encode_decode_iff]⟩

/-- The least number of 64 bits, whose magnitude has a bit more than the others, and the lock of a
week. -/
theorem encodes_least : [0, 0, 0, 0, 0, 0, 0, 0x80, 0x80] = encode (-9223372036854775808) ∧
    (encode (0x40049d : UInt32).toNat).length = 3 := by
  obtain ⟨-, -, -, hshortest, -, hlock⟩ := encodes_shortest (-9223372036854775808)
    [0, 0, 0, 0, 0, 0, 0, 0x80, 0x80] [] 0 604800 0x40049d
  have hminimal : IsMinimal ([0, 0, 0, 0, 0, 0, 0, 0x80] ++ [0x80]) :=
    isMinimal_append_singleton.2 fun _ => ⟨0x80, rfl, by decide⟩
  exact ⟨(hshortest (by decide)).2.2 hminimal, hlock rfl⟩

end Wager.ScriptNumber
