import Wager.Keys.PublicKey
import Wager.Proofs.FieldPrime
import Wager.Proofs.Reading

/-!
# Written keys

A point is read back from either of its forms. The short form drops the ordinate; it is found
again as the root with the right parity.

**A third form** is read too: the long one with the parity of the ordinate in front. Nothing is
written like that, so such a key is written back in other bytes (`Curve.Point.decode?_eq_some`).
-/

namespace Wager

namespace Curve.Point

/-- The dropped ordinate is found again. -/
theorem lift?_isOdd (P : Point) : lift? P.x P.isOdd = some P := by
  have hodd : prime % 2 = 1 := by decide
  have hlt := P.y_lt
  have hy : (if (sqrt ((P.x * P.x * P.x + 7) % prime) % 2 = 1 : Bool) = P.isOdd then
      sqrt ((P.x * P.x * P.x + 7) % prime)
      else prime - sqrt ((P.x * P.x * P.x + 7) % prime)) = P.y := by
    rw [← P.on_curve]
    rcases sqrt_mul_self hlt with h | h
    · rw [h]
      exact if_pos rfl
    · by_cases hsame : sqrt (P.y * P.y % prime) = P.y
      · rw [hsame]
        exact if_pos rfl
      · have hparity : ¬ (sqrt (P.y * P.y % prime) % 2 = 1 : Bool) = P.isOdd := by
          rw [isOdd, decide_eq_decide]
          omega
        rw [if_neg hparity]
        omega
  rw [lift?]
  simp only [hy]
  exact ofCoordinates?_self P

theorem ofBigEndian_coordinate {n : Nat} (h : n < prime) : ofBigEndian (bigEndian 32 n) = n :=
  ofBigEndian_bigEndian (Nat.lt_trans h (by decide))

theorem decode?_compressed (P : Point) : decode? P.compressed = some P := by
  have htag : (if P.isOdd then (3 : UInt8) else 2) = 2 ∨
      (if P.isOdd then (3 : UInt8) else 2) = 3 := by
    cases P.isOdd <;> decide
  have hodd : decide ((if P.isOdd then (3 : UInt8) else 2) = 3) = P.isOdd := by
    cases P.isOdd <;> decide
  rw [compressed, decode?, if_pos (length_bigEndian 32 P.x), if_pos htag,
    ofBigEndian_coordinate P.x_lt, hodd, lift?_isOdd]

theorem decode?_uncompressed (P : Point) : decode? P.uncompressed = some P := by
  have hlen : (bigEndian 32 P.x ++ bigEndian 32 P.y).length = 64 := by simp
  rw [uncompressed, decode?, if_neg (by simp), if_pos hlen, if_pos (.inl rfl),
    List.take_left' (length_bigEndian 32 P.x), List.drop_left' (length_bigEndian 32 P.x),
    ofBigEndian_coordinate P.x_lt, ofBigEndian_coordinate P.y_lt, ofCoordinates?_self]
  rfl

/-- The long form that states the parity in its first byte. -/
def hybrid (P : Point) : Bytes :=
  (if P.isOdd then 7 else 6) :: (bigEndian 32 P.x ++ bigEndian 32 P.y)

@[simp] theorem length_compressed (P : Point) : P.compressed.length = 33 := by simp [compressed]

@[simp] theorem length_uncompressed (P : Point) : P.uncompressed.length = 65 := by
  simp [uncompressed]

@[simp] theorem length_hybrid (P : Point) : P.hybrid.length = 65 := by simp [hybrid]

theorem ofCoordinates?_eq_some {x y : Nat} {P : Point} :
    ofCoordinates? x y = some P ↔ P.x = x ∧ P.y = y := by
  constructor
  · intro h
    unfold ofCoordinates? at h
    split at h
    · obtain rfl := Option.some.inj h
      exact ⟨rfl, rfl⟩
    · cases h
  · rintro ⟨rfl, rfl⟩
    exact ofCoordinates?_self P

theorem lift?_eq_some {x : Nat} {odd : Bool} {P : Point} :
    lift? x odd = some P ↔ P.x = x ∧ P.isOdd = odd := by
  constructor
  · intro h
    obtain ⟨hx, hy⟩ := ofCoordinates?_eq_some.1 h
    refine ⟨hx, ?_⟩
    have hlt := sqrt_lt ((x * x * x + 7) % prime)
    have hodd : prime % 2 = 1 := by decide
    rw [isOdd, hy]
    split
    · next hsame => exact hsame
    · next hother =>
      -- The other root has the other parity, because the prime is odd.
      cases odd with
      | false =>
        simp only [Bool.not_eq_false, decide_eq_true_eq] at hother
        exact decide_eq_false (by omega)
      | true =>
        simp only [decide_eq_true_eq] at hother
        exact decide_eq_true (by omega)
  · rintro ⟨rfl, rfl⟩
    exact lift?_isOdd P

theorem decode?_hybrid (P : Point) : decode? P.hybrid = some P := by
  have hlen : (bigEndian 32 P.x ++ bigEndian 32 P.y).length = 64 := by simp
  have htag : (if P.isOdd then (7 : UInt8) else 6) = 4 ∨
      (if P.isOdd then (7 : UInt8) else 6) = 6 ∨ (if P.isOdd then (7 : UInt8) else 6) = 7 := by
    cases P.isOdd <;> decide
  rw [hybrid, decode?, if_neg (by simp), if_pos hlen, if_pos htag,
    List.take_left' (length_bigEndian 32 P.x), List.drop_left' (length_bigEndian 32 P.x),
    ofBigEndian_coordinate P.x_lt, ofBigEndian_coordinate P.y_lt, ofCoordinates?_self]
  exact Option.filter_eq_some_iff.2 ⟨rfl, by simp⟩

/-- A point is read from three byte strings. -/
theorem decode?_eq_some {data : Bytes} {P : Point} : decode? data = some P ↔
    data = P.compressed ∨ data = P.uncompressed ∨ data = P.hybrid := by
  constructor
  · intro h
    cases data with
    | nil => cases h
    | cons tag rest =>
      unfold decode? at h
      dsimp only at h
      split_ifs at h with hshort htag hlong htag
      · obtain ⟨hx, hodd⟩ := lift?_eq_some.1 h
        left
        rw [compressed, hx, bigEndian_ofBigEndian hshort, hodd]
        rcases htag with rfl | rfl <;> rfl
      · obtain ⟨hpoint, hparity⟩ := Option.filter_eq_some_iff.1 h
        obtain ⟨hx, hy⟩ := ofCoordinates?_eq_some.1 hpoint
        have hrest : bigEndian 32 P.x ++ bigEndian 32 P.y = rest := by
          rw [hx, hy, bigEndian_ofBigEndian (by simp [hlong]),
            bigEndian_ofBigEndian (by simp [hlong]), List.take_append_drop]
        right
        rw [uncompressed, hybrid, hrest]
        rcases htag with rfl | rfl | rfl
        · exact .inl rfl
        · simp at hparity
          simp [hparity]
        · simp at hparity
          simp [hparity]
  · rintro (rfl | rfl | rfl)
    · exact decode?_compressed P
    · exact decode?_uncompressed P
    · exact decode?_hybrid P

end Curve.Point

namespace PublicKey

open Exchange

variable {network : Network} {k : PublicKey} {data : Bytes}

/-- The ways to write a key. One that is written long may state the parity too. -/
def Spells (k : PublicKey) (data : Bytes) : Prop :=
  data = k.bytes ∨ k.short = false ∧ data = k.point.hybrid

theorem Spells.length_eq (h : k.Spells data) : data.length = if k.short then 33 else 65 := by
  rcases h with rfl | ⟨hshort, rfl⟩
  · rw [bytes]
    split
    · exact k.point.length_compressed
    · exact k.point.length_uncompressed
  · rw [hshort]
    exact k.point.length_hybrid

/-- A key is read, for any network, from the ways to write it. -/
theorem ofBytes_eq_ok : ofBytes network data = .ok k ↔ k.network = network ∧ k.Spells data := by
  constructor
  · intro h
    unfold ofBytes at h
    split at h
    · cases h
    · obtain ⟨P, hP, h⟩ := Outcome.bind_eq_ok.1 h
      obtain rfl := Outcome.pure_eq_ok.1 h
      refine ⟨rfl, ?_⟩
      rcases Curve.Point.decode?_eq_some.1 (Outcome.need_eq_ok.1 hP) with rfl | rfl | rfl
      · left
        simp [bytes]
      · left
        simp [bytes]
      · right
        simp
  · rintro ⟨rfl, h⟩
    have hlen := h.length_eq
    have hdecode : Curve.Point.decode? data = some k.point := by
      rw [Curve.Point.decode?_eq_some]
      rcases h with rfl | ⟨-, rfl⟩
      · rw [bytes]
        split
        · exact .inl rfl
        · exact .inr (.inl rfl)
      · exact .inr (.inr rfl)
    have hshort : decide (data.length = 33) = k.short := by
      rw [hlen]
      cases k.short <;> rfl
    have hone : ¬ (data.length ≠ 33 ∧ data.length ≠ 65) := by
      rw [hlen]
      cases k.short <;> decide
    rw [ofBytes, if_neg hone]
    exact Outcome.bind_eq_ok.2 ⟨k.point, Outcome.need_eq_ok.2 hdecode,
      congrArg (fun short => Except.ok (PublicKey.mk k.point short k.network)) hshort⟩

/-- A written key reads back, as a key of the network that it is read for. -/
theorem ofBytes_bytes (network : Network) (k : PublicKey) :
    ofBytes network k.bytes = .ok { k with network } := ofBytes_eq_ok.2 ⟨rfl, .inl rfl⟩

/-- A key behind its length, written in one of the forms. -/
def Written (form : PublicKey → Bytes → Prop) (k : PublicKey) (data : Bytes) : Prop :=
  ∃ key, form k key ∧ Encode.SpellsSized key data

theorem Written.ne_nil {form : PublicKey → Bytes → Prop} (h : k.Written form data) :
    data ≠ [] := by
  obtain ⟨key, -, hsized⟩ := h
  exact hsized.ne_nil

theorem recognizes_decoder : Decoder.Recognizes (decoder network) fun k data =>
    k.network = network ∧ k.Written Spells data := by
  intro c k c'
  constructor
  · intro h
    obtain ⟨key, c₁, hkey, h⟩ := gives_bind.1 h
    obtain ⟨hbytes, rfl⟩ := gives_lift.1 h
    obtain ⟨hnetwork, hspells⟩ := ofBytes_eq_ok.1 hbytes
    obtain ⟨data, hdata, hpass⟩ := Decoder.recognizes_sized.1 hkey
    exact ⟨data, ⟨hnetwork, key, hspells, hdata⟩, hpass⟩
  · intro h
    obtain ⟨data, ⟨hnetwork, key, hspells, hdata⟩, hpass⟩ := h
    refine gives_bind.2 ⟨key, c', Decoder.recognizes_sized.2 ⟨data, hdata, hpass⟩, ?_⟩
    exact gives_lift.2 ⟨ofBytes_eq_ok.2 ⟨hnetwork, hspells⟩, rfl⟩

end PublicKey

end Wager
