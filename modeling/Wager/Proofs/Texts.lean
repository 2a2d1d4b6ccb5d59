import Mathlib.Data.List.Basic
import Wager.Proofs.Reading

/-!
# Texts that read back

**UTF-8.** The bytes of a text decode to that text (`Utf8.decode_encode`), and no others do
(`Utf8.encode_of_decode`). A character is written in one to four bytes; for each length the lead
byte tells how many bytes follow, the second byte is one that may come second, and the payload bits
put together are the code point again (`decodeFrom_char`).

**Joined names.** Names that do not hold the separator are the pieces of their joined text
(`Channel.split_intercalate`), so a descriptor that was made by `Channel.secure` is made again from
its text (`Channel.secure_split`). The pieces of any text join to it (`Channel.intercalate_split`).
-/

namespace Wager

namespace Utf8

/-! ## Classes of bytes -/

variable {n : Nat}

theorem isContinuation_ofNat (h : n < 256) :
    isContinuation (UInt8.ofNat n) = decide (128 ≤ n ∧ n ≤ 191) := by
  simp [isContinuation, UInt8.le_iff_toNat_le, UInt8.toNat_ofNat_of_lt' h, Bool.decide_and]

theorem following_ofNat (h : n < 256) :
    following (UInt8.ofNat n) =
      if n < 128 then some 0 else if n < 194 then none else if n < 224 then some 1
      else if n < 240 then some 2 else if n < 245 then some 3 else none := by
  simp only [following, UInt8.lt_iff_toNat_lt, UInt8.toNat_ofNat_of_lt' h]
  rfl

theorem isSecond_ofNat {m : Nat} (hn : n < 256) (hm : m < 256) :
    isSecond (UInt8.ofNat n) (UInt8.ofNat m) =
      if n = 224 then decide (160 ≤ m ∧ m ≤ 191)
      else if n = 237 then decide (128 ≤ m ∧ m ≤ 159)
      else if n = 240 then decide (144 ≤ m ∧ m ≤ 191)
      else if n = 244 then decide (128 ≤ m ∧ m ≤ 143)
      else decide (128 ≤ m ∧ m ≤ 191) := by
  simp only [isSecond, isContinuation_ofNat hm, ← UInt8.toNat_inj, UInt8.le_iff_toNat_le,
    UInt8.toNat_ofNat_of_lt' hn, UInt8.toNat_ofNat_of_lt' hm, Bool.decide_and]
  rfl

theorem leadBits_ofNat {count : Nat} (h : n < 256) :
    leadBits (UInt8.ofNat n) count = if count = 0 then n else n % (1 <<< (6 - count)) := by
  rw [leadBits, UInt8.toNat_ofNat_of_lt' h]

/-! ## One character -/

variable {fuel index : Nat}

theorem decodeFrom_cons {lead : UInt8} {count value : Nat} {data rest : Bytes}
    (hlead : following lead = some count)
    (htail : tail lead index count 1 (leadBits lead count) data = .ok (value, rest)) :
    decodeFrom (fuel + 1) index (lead :: data) =
      (Char.ofNat value :: ·) <$> decodeFrom fuel (index + count + 1) rest := by
  simp only [decodeFrom, hlead, htail, bind, Except.bind, Functor.map, Except.map, pure,
    Except.pure]

theorem tail_second {lead b : UInt8} {want value : Nat} {rest : Bytes}
    (h : isSecond lead b = true) :
    tail lead index (want + 1) 1 value (b :: rest) =
      tail lead index want 2 (value * 64 + b.toNat % 64) rest := if_pos h

theorem toNat_continuation (k : Nat) : (UInt8.ofNat (k % 64 + 128)).toNat % 64 = k % 64 := by
  rw [UInt8.toNat_ofNat_of_lt' (by omega : k % 64 + 128 < 256)]
  omega

theorem tail_continuation {lead : UInt8} {want seen value k : Nat} {rest : Bytes} :
    tail lead index (want + 1) (seen + 2) value (UInt8.ofNat (k % 64 + 128) :: rest) =
      tail lead index want (seen + 3) (value * 64 + k % 64) rest := by
  rw [tail, if_neg (by omega : seen + 2 ≠ 1), isContinuation_ofNat (by omega),
    if_pos (by simpa using by omega), toNat_continuation]

theorem decodeFrom_two {v : Nat} (hlow : 127 < v) (hhigh : v ≤ 2047) (rest : Bytes) :
    decodeFrom (fuel + 1) index
        (UInt8.ofNat (v / 64 % 32 + 192) :: UInt8.ofNat (v % 64 + 128) :: rest) =
      (Char.ofNat v :: ·) <$> decodeFrom fuel (index + 2) rest := by
  have hlead : following (UInt8.ofNat (v / 64 % 32 + 192)) = some 1 := by
    rw [following_ofNat (by omega)]
    split_ifs <;> first | rfl | omega
  have hsecond : isSecond (UInt8.ofNat (v / 64 % 32 + 192)) (UInt8.ofNat (v % 64 + 128)) =
      true := by
    rw [isSecond_ofNat (by omega) (by omega)]
    split_ifs <;> simp <;> omega
  have hvalue : (v / 64 % 32 + 192) % 32 * 64 + v % 64 = v := by omega
  refine decodeFrom_cons hlead ?_
  rw [leadBits_ofNat (by omega), tail_second hsecond, toNat_continuation]
  exact congrArg (fun n => Except.ok (n, rest)) hvalue

theorem decodeFrom_three {v : Nat} (hlow : 2047 < v) (hhigh : v ≤ 65535)
    (hscalar : v < 55296 ∨ 57343 < v) (rest : Bytes) :
    decodeFrom (fuel + 1) index
        (UInt8.ofNat (v / 4096 % 16 + 224) :: UInt8.ofNat (v / 64 % 64 + 128) ::
          UInt8.ofNat (v % 64 + 128) :: rest) =
      (Char.ofNat v :: ·) <$> decodeFrom fuel (index + 3) rest := by
  have hlead : following (UInt8.ofNat (v / 4096 % 16 + 224)) = some 2 := by
    rw [following_ofNat (by omega)]
    split_ifs <;> first | rfl | omega
  have hsecond : isSecond (UInt8.ofNat (v / 4096 % 16 + 224))
      (UInt8.ofNat (v / 64 % 64 + 128)) = true := by
    rw [isSecond_ofNat (by omega) (by omega)]
    split_ifs <;> simp <;> omega
  have hvalue : ((v / 4096 % 16 + 224) % 16 * 64 + v / 64 % 64) * 64 + v % 64 = v := by omega
  refine decodeFrom_cons hlead ?_
  rw [leadBits_ofNat (by omega), tail_second hsecond, toNat_continuation, tail_continuation]
  exact congrArg (fun n => Except.ok (n, rest)) hvalue

theorem decodeFrom_four {v : Nat} (hlow : 65535 < v) (hhigh : v < 1114112) (rest : Bytes) :
    decodeFrom (fuel + 1) index
        (UInt8.ofNat (v / 262144 % 8 + 240) :: UInt8.ofNat (v / 4096 % 64 + 128) ::
          UInt8.ofNat (v / 64 % 64 + 128) :: UInt8.ofNat (v % 64 + 128) :: rest) =
      (Char.ofNat v :: ·) <$> decodeFrom fuel (index + 4) rest := by
  have hlead : following (UInt8.ofNat (v / 262144 % 8 + 240)) = some 3 := by
    rw [following_ofNat (by omega)]
    split_ifs <;> first | rfl | omega
  have hsecond : isSecond (UInt8.ofNat (v / 262144 % 8 + 240))
      (UInt8.ofNat (v / 4096 % 64 + 128)) = true := by
    rw [isSecond_ofNat (by omega) (by omega)]
    split_ifs <;> simp <;> omega
  have hvalue : (((v / 262144 % 8 + 240) % 8 * 64 + v / 4096 % 64) * 64 + v / 64 % 64) * 64 +
      v % 64 = v := by omega
  refine decodeFrom_cons hlead ?_
  rw [leadBits_ofNat (by omega), tail_second hsecond, toNat_continuation, tail_continuation,
    tail_continuation]
  exact congrArg (fun n => Except.ok (n, rest)) hvalue

/-- The bytes of a character decode to it. -/
theorem decodeFrom_char (c : Char) (rest : Bytes) :
    decodeFrom (fuel + 1) index (String.utf8EncodeChar c ++ rest) =
      (c :: ·) <$> decodeFrom fuel (index + (String.utf8EncodeChar c).length) rest := by
  -- The surrogates are no characters; their three-byte forms are refused.
  have hvalid : c.val.toNat < 55296 ∨ 57343 < c.val.toNat ∧ c.val.toNat < 1114112 := c.valid
  have hchar : Char.ofNat c.val.toNat = c := Char.ofNat_toNat c
  unfold String.utf8EncodeChar
  generalize c.val.toNat = v at hvalid hchar ⊢
  subst hchar
  dsimp only
  split
  · have hlead : following (UInt8.ofNat v) = some 0 := by
      rw [following_ofNat (by omega), if_pos (by omega)]
    refine decodeFrom_cons hlead ?_
    rw [leadBits_ofNat (by omega)]
    rfl
  split
  · exact decodeFrom_two (by omega) (by omega) rest
  split
  · exact decodeFrom_three (by omega) (by omega) (by omega) rest
  · exact decodeFrom_four (by omega) (by omega) rest

/-! ## A text -/

theorem decodeFrom_chars (chars : List Char) (h : chars.length ≤ fuel) :
    decodeFrom fuel index (chars.flatMap String.utf8EncodeChar) = .ok chars := by
  induction chars generalizing fuel index with
  | nil => cases fuel <;> rfl
  | cons c chars ih =>
    obtain ⟨fuel, rfl⟩ : ∃ n, fuel = n + 1 := ⟨fuel - 1, by simp at h; omega⟩
    rw [List.flatMap_cons, decodeFrom_char, ih (by simpa using h)]
    rfl

/-- The bytes of a text decode to it. -/
theorem decode_encode (text : String) : decode (encode text) = .ok text := by
  have hfuel : text.toList.length ≤ (encode text).length :=
    length_le_length_flatMap fun c _ => String.utf8EncodeChar_ne_nil (c := c)
  have hchars : decodeFrom (encode text).length 0 (encode text) = .ok text.toList :=
    decodeFrom_chars text.toList hfuel
  rw [decode, hchars]
  exact congrArg Except.ok String.ofList_toList

/-! ## Bytes that decode -/

theorem exists_ofNat (b : UInt8) : ∃ n < 256, b = UInt8.ofNat n :=
  ⟨b.toNat, b.toNat_lt, UInt8.ofNat_toNat.symm⟩

theorem tail_succ_eq_ok {lead : UInt8} {want seen value v : Nat} {data rest : Bytes} :
    tail lead index (want + 1) seen value data = .ok (v, rest) ↔
      ∃ b more, data = b :: more ∧
        (if seen = 1 then isSecond lead b else isContinuation b) = true ∧
        tail lead index want (seen + 1) (value * 64 + b.toNat % 64) more = .ok (v, rest) := by
  cases data with
  | nil => simp [tail]
  | cons b more =>
    rw [tail]
    by_cases hb : (if seen = 1 then isSecond lead b else isContinuation b) = true
    · rw [if_pos hb]
      constructor
      · exact fun h => ⟨b, more, rfl, hb, h⟩
      · rintro ⟨_, _, ⟨⟩, -, h⟩
        exact h
    · rw [if_neg hb]
      constructor
      · exact fun h => nomatch h
      · rintro ⟨_, _, ⟨⟩, hb', -⟩
        exact absurd hb' hb

/-- The second byte of a sequence, taken apart. -/
theorem second_of_tail {l want value v : Nat} {data rest : Bytes} (hl : l < 256)
    (h : tail (UInt8.ofNat l) index (want + 1) 1 value data = .ok (v, rest)) :
    ∃ k more, k < 64 ∧ data = UInt8.ofNat (k + 128) :: more ∧
      (l = 224 → 32 ≤ k) ∧ (l = 237 → k < 32) ∧ (l = 240 → 16 ≤ k) ∧ (l = 244 → k < 16) ∧
      tail (UInt8.ofNat l) index want 2 (value * 64 + k) more = .ok (v, rest) := by
  obtain ⟨b, more, rfl, hb, htail⟩ := tail_succ_eq_ok.1 h
  obtain ⟨m, hm, rfl⟩ := exists_ofNat b
  rw [if_pos rfl, isSecond_ofNat hl hm] at hb
  rw [UInt8.toNat_ofNat_of_lt' hm] at htail
  have hrange : 128 ≤ m ∧ m ≤ 191 ∧ (l = 224 → 160 ≤ m) ∧ (l = 237 → m ≤ 159) ∧
      (l = 240 → 144 ≤ m) ∧ (l = 244 → m ≤ 143) := by
    split_ifs at hb <;> (have hb := of_decide_eq_true hb; omega)
  have hk : m % 64 = m - 128 := by omega
  rw [hk] at htail
  refine ⟨m - 128, more, by omega, ?_, by omega, by omega, by omega, by omega, htail⟩
  rw [Nat.sub_add_cancel hrange.1]

/-- A later byte of a sequence, taken apart. -/
theorem continuation_of_tail {lead : UInt8} {want seen value v : Nat} {data rest : Bytes}
    (h : tail lead index (want + 1) (seen + 2) value data = .ok (v, rest)) :
    ∃ k more, k < 64 ∧ data = UInt8.ofNat (k + 128) :: more ∧
      tail lead index want (seen + 3) (value * 64 + k) more = .ok (v, rest) := by
  obtain ⟨b, more, rfl, hb, htail⟩ := tail_succ_eq_ok.1 h
  obtain ⟨m, hm, rfl⟩ := exists_ofNat b
  rw [if_neg (by omega), isContinuation_ofNat hm] at hb
  rw [UInt8.toNat_ofNat_of_lt' hm] at htail
  have hrange := of_decide_eq_true hb
  have hk : m % 64 = m - 128 := by omega
  rw [hk] at htail
  refine ⟨m - 128, more, by omega, ?_, htail⟩
  rw [Nat.sub_add_cancel hrange.1]

/-- A code point is written in the number of bytes that its size asks for. -/
theorem encodeChar_ofNat {v : Nat} (hvalid : v.isValidChar) :
    String.utf8EncodeChar (Char.ofNat v) =
      if v ≤ 127 then [UInt8.ofNat v]
      else if v ≤ 2047 then [UInt8.ofNat (v / 64 % 32 + 192), UInt8.ofNat (v % 64 + 128)]
      else if v ≤ 65535 then
        [UInt8.ofNat (v / 4096 % 16 + 224), UInt8.ofNat (v / 64 % 64 + 128),
          UInt8.ofNat (v % 64 + 128)]
      else
        [UInt8.ofNat (v / 262144 % 8 + 240), UInt8.ofNat (v / 4096 % 64 + 128),
          UInt8.ofNat (v / 64 % 64 + 128), UInt8.ofNat (v % 64 + 128)] := by
  have hval : (Char.ofNat v).val.toNat = v := by
    rw [Char.ofNat, dif_pos hvalid]
    rfl
  unfold String.utf8EncodeChar
  rw [hval]

theorem encodeChar_two {l k : Nat} (hlow : 194 ≤ l) (hhigh : l < 224) (hk : k < 64) :
    String.utf8EncodeChar (Char.ofNat (l % 32 * 64 + k)) =
      [UInt8.ofNat l, UInt8.ofNat (k + 128)] := by
  have h₁ : (l % 32 * 64 + k) / 64 % 32 + 192 = l := by omega
  have h₂ : (l % 32 * 64 + k) % 64 + 128 = k + 128 := by omega
  rw [encodeChar_ofNat (.inl (by omega)), if_neg (by omega), if_pos (by omega), h₁, h₂]

theorem encodeChar_three {l k m : Nat} (hlow : 224 ≤ l) (hhigh : l < 240) (hk : k < 64)
    (hm : m < 64) (hlong : l = 224 → 32 ≤ k) (hsurrogate : l = 237 → k < 32) :
    String.utf8EncodeChar (Char.ofNat ((l % 16 * 64 + k) * 64 + m)) =
      [UInt8.ofNat l, UInt8.ofNat (k + 128), UInt8.ofNat (m + 128)] := by
  have hvalid : ((l % 16 * 64 + k) * 64 + m).isValidChar := by
    rw [Nat.isValidChar]
    omega
  have h₁ : ((l % 16 * 64 + k) * 64 + m) / 4096 % 16 + 224 = l := by omega
  have h₂ : ((l % 16 * 64 + k) * 64 + m) / 64 % 64 + 128 = k + 128 := by omega
  have h₃ : ((l % 16 * 64 + k) * 64 + m) % 64 + 128 = m + 128 := by omega
  rw [encodeChar_ofNat hvalid, if_neg (by omega), if_neg (by omega), if_pos (by omega), h₁, h₂, h₃]

theorem encodeChar_four {l k m j : Nat} (hlow : 240 ≤ l) (hhigh : l < 245) (hk : k < 64)
    (hm : m < 64) (hj : j < 64) (hlong : l = 240 → 16 ≤ k) (hlast : l = 244 → k < 16) :
    String.utf8EncodeChar (Char.ofNat (((l % 8 * 64 + k) * 64 + m) * 64 + j)) =
      [UInt8.ofNat l, UInt8.ofNat (k + 128), UInt8.ofNat (m + 128), UInt8.ofNat (j + 128)] := by
  have hvalid : (((l % 8 * 64 + k) * 64 + m) * 64 + j).isValidChar := by
    rw [Nat.isValidChar]
    omega
  have h₁ : (((l % 8 * 64 + k) * 64 + m) * 64 + j) / 262144 % 8 + 240 = l := by omega
  have h₂ : (((l % 8 * 64 + k) * 64 + m) * 64 + j) / 4096 % 64 + 128 = k + 128 := by omega
  have h₃ : (((l % 8 * 64 + k) * 64 + m) * 64 + j) / 64 % 64 + 128 = m + 128 := by omega
  have h₄ : (((l % 8 * 64 + k) * 64 + m) * 64 + j) % 64 + 128 = j + 128 := by omega
  rw [encodeChar_ofNat hvalid, if_neg (by omega), if_neg (by omega), if_neg (by omega), h₁, h₂, h₃,
    h₄]

/-- A character is read from the bytes that write it. -/
theorem encodeChar_of_tail {lead : UInt8} {n v : Nat} {data rest : Bytes}
    (hlead : following lead = some n)
    (htail : tail lead index n 1 (leadBits lead n) data = .ok (v, rest)) :
    String.utf8EncodeChar (Char.ofNat v) ++ rest = lead :: data := by
  obtain ⟨l, hl, rfl⟩ := exists_ofNat lead
  rw [following_ofNat hl] at hlead
  rw [leadBits_ofNat hl] at htail
  split_ifs at hlead with hone hnone htwo hthree hfour
  · obtain rfl := Option.some.inj hlead
    obtain ⟨rfl, rfl⟩ := Prod.mk.inj (Except.ok.inj htail)
    rw [if_pos rfl, encodeChar_ofNat (.inl (by omega)), if_pos (by omega)]
    rfl
  · obtain rfl := Option.some.inj hlead
    obtain ⟨k, more, hk, rfl, -, -, -, -, hend⟩ := second_of_tail hl htail
    obtain ⟨rfl, rfl⟩ := Prod.mk.inj (Except.ok.inj hend)
    exact congrArg (· ++ more) (encodeChar_two (Nat.not_lt.1 hnone) htwo hk)
  · obtain rfl := Option.some.inj hlead
    obtain ⟨k, more, hk, rfl, hlong, hsurrogate, -, -, hmore⟩ := second_of_tail hl htail
    obtain ⟨m, more, hm, rfl, hend⟩ := continuation_of_tail hmore
    obtain ⟨rfl, rfl⟩ := Prod.mk.inj (Except.ok.inj hend)
    exact congrArg (· ++ more)
      (encodeChar_three (Nat.not_lt.1 htwo) hthree hk hm hlong hsurrogate)
  · obtain rfl := Option.some.inj hlead
    obtain ⟨k, more, hk, rfl, -, -, hlong, hlast, hmore⟩ := second_of_tail hl htail
    obtain ⟨m, more, hm, rfl, hlater⟩ := continuation_of_tail hmore
    obtain ⟨j, more, hj, rfl, hend⟩ := continuation_of_tail hlater
    obtain ⟨rfl, rfl⟩ := Prod.mk.inj (Except.ok.inj hend)
    exact congrArg (· ++ more)
      (encodeChar_four (Nat.not_lt.1 hthree) hfour hk hm hj hlong hlast)

theorem flatMap_of_decodeFrom {data : Bytes} {chars : List Char} (hfuel : data.length ≤ fuel)
    (h : decodeFrom fuel index data = .ok chars) :
    chars.flatMap String.utf8EncodeChar = data := by
  induction fuel generalizing index data chars with
  | zero =>
    obtain rfl := List.length_eq_zero_iff.1 (Nat.le_zero.1 hfuel)
    obtain rfl := Except.ok.inj h
    rfl
  | succ fuel ih =>
    cases data with
    | nil =>
      obtain rfl := Except.ok.inj h
      rfl
    | cons lead data =>
      cases hlead : following lead with
      | none =>
        rw [decodeFrom, hlead] at h
        cases h
      | some n =>
        cases htail : tail lead index n 1 (leadBits lead n) data with
        | error fault =>
          simp [decodeFrom, hlead, htail, bind, Except.bind] at h
        | ok found =>
          obtain ⟨v, rest⟩ := found
          rw [decodeFrom_cons hlead htail] at h
          have hchar := encodeChar_of_tail hlead htail
          cases hrest : decodeFrom fuel (index + n + 1) rest with
          | error fault =>
            rw [hrest] at h
            cases h
          | ok more =>
            rw [hrest] at h
            obtain rfl := Except.ok.inj h
            have hlen := congrArg List.length hchar
            have hpos := List.length_pos_of_ne_nil
              (String.utf8EncodeChar_ne_nil (c := Char.ofNat v))
            simp only [List.length_append, List.length_cons] at hlen hfuel
            rw [List.flatMap_cons, ih (by omega) hrest, hchar]

/-- Only the bytes of a text decode to it. -/
theorem encode_of_decode {data : Bytes} {text : String} (h : decode data = .ok text) :
    encode text = data := by
  cases hchars : decodeFrom data.length 0 data with
  | error fault =>
    rw [decode, hchars] at h
    cases h
  | ok chars =>
    rw [decode, hchars] at h
    obtain rfl := Except.ok.inj h
    rw [encode, String.toList_ofList]
    exact flatMap_of_decodeFrom (Nat.le_refl _) hchars

end Utf8

/-! ## Joined names -/

namespace Channel

theorem hasSeparator_cons {c : Char} {rest : List Char} (h : hasSeparator (c :: rest) = false) :
    (∀ tail, c = ',' → rest ≠ ' ' :: tail) ∧ hasSeparator rest = false := by
  unfold hasSeparator at h
  split at h
  · cases h
  · next hne heq =>
    obtain ⟨rfl, rfl⟩ := List.cons.inj heq
    exact ⟨fun tail hc hrest => hne tail hc hrest, h⟩
  · next heq => cases heq

theorem split_cons {c : Char} {rest : List Char} {piece : List Char} {pieces : List (List Char)}
    (hne : ∀ tail, c = ',' → rest ≠ ' ' :: tail) (h : split rest = piece :: pieces) :
    split (c :: rest) = (c :: piece) :: pieces := by
  rw [split, h]
  exact hne

/-- What comes before the first separator is a piece. A comma at its end does not make one with
the separator's comma. -/
theorem split_append {piece : List Char} (h : hasSeparator piece = false) (rest : List Char) :
    split (piece ++ separator ++ rest) = piece :: split rest := by
  induction piece with
  | nil => rfl
  | cons c piece ih =>
    obtain ⟨hne, hpiece⟩ := hasSeparator_cons h
    refine split_cons (fun tail hc heq => ?_) (ih hpiece)
    cases piece with
    | nil => cases heq
    | cons d piece => exact hne piece hc (by rw [(List.cons.inj heq).1])

theorem split_of_hasSeparator_eq_false {piece : List Char} (h : hasSeparator piece = false) :
    split piece = [piece] := by
  induction piece with
  | nil => rfl
  | cons c piece ih =>
    obtain ⟨hne, hpiece⟩ := hasSeparator_cons h
    exact split_cons hne (ih hpiece)

/-- The pieces of a joined text. -/
theorem split_intercalate {pieces : List (List Char)} (hne : pieces ≠ [])
    (h : ∀ piece ∈ pieces, hasSeparator piece = false) :
    split (separator.intercalate pieces) = pieces := by
  induction pieces with
  | nil => exact absurd rfl hne
  | cons piece pieces ih =>
    have hpiece := h piece List.mem_cons_self
    cases pieces with
    | nil => simpa using split_of_hasSeparator_eq_false hpiece
    | cons next pieces =>
      rw [List.intercalate_cons_cons, split_append hpiece,
        ih (by simp) fun p hp => h p (List.mem_cons_of_mem _ hp)]

theorem split_ne_nil (chars : List Char) : split chars ≠ [] := by
  unfold split
  split
  · simp
  · split <;> simp
  · simp

/-- Joining undoes splitting. -/
theorem intercalate_split (chars : List Char) : separator.intercalate (split chars) = chars := by
  induction chars using split.induct with
  | case1 rest ih =>
    obtain ⟨piece, pieces, hsplit⟩ := List.exists_cons_of_ne_nil (split_ne_nil rest)
    rw [hsplit] at ih
    rw [split, hsplit, List.intercalate_cons_cons, ih]
    rfl
  | case2 c rest hne piece pieces hsplit ih =>
    rw [hsplit] at ih
    rw [split_cons (fun tail hc hrest => hne tail hc hrest) hsplit]
    cases pieces with
    | nil =>
      rw [List.intercalate_singleton] at ih
      rw [List.intercalate_singleton, ih]
    | cons next pieces =>
      rw [List.intercalate_cons_cons] at ih
      rw [List.intercalate_cons_cons, List.cons_append, List.cons_append, ih]
  | case3 c rest hne hsplit ih => exact absurd hsplit (split_ne_nil rest)
  | case4 => rfl

theorem secure_eq_ok_iff {parties : List String} {c : Channel} :
    secure parties = .ok c ↔ parties ≠ [] ∧
      (∀ p ∈ parties, p.toList ≠ [] ∧ hasSeparator p.toList = false) ∧ c = ⟨parties⟩ := by
  unfold secure
  split
  · next hempty =>
    simp [malformed, List.isEmpty_iff.1 hempty]
  · next hne =>
    split
    · next bad hbad =>
      have hp := List.find?_some hbad
      have hmem := List.mem_of_find?_eq_some hbad
      simp only [malformed, reduceCtorEq, false_iff]
      intro h
      obtain ⟨hname, hsep⟩ := h.2.1 bad hmem
      simp [hsep, hname] at hp
    · next hall =>
      simp only [List.find?_eq_none, Bool.or_eq_true, List.isEmpty_iff, not_or,
        Bool.not_eq_true] at hall
      simp only [Except.ok.injEq, eq_comm (b := c)]
      exact ⟨fun h => ⟨by simpa using hne, hall, h⟩, fun h => h.2.2⟩

/-- A descriptor that was made from names is made again from the pieces of its text. -/
theorem secure_split {parties : List String} {c : Channel} (h : secure parties = .ok c) :
    secure ((split c.text.toList).map String.ofList) = .ok c := by
  obtain ⟨hne, hparties, rfl⟩ := secure_eq_ok_iff.1 h
  have hsplit : split (separator.intercalate (parties.map String.toList)) =
      parties.map String.toList := split_intercalate (by simpa using hne) <| by
    simpa using fun p hp => (hparties p hp).2
  have hmap : (parties.map String.toList).map String.ofList = parties := by simp
  rw [text, String.toList_ofList, hsplit, hmap, h]

/-- A descriptor that was made from the pieces of a text has that text. -/
theorem text_of_secure_split {text : String} {c : Channel}
    (h : secure ((split text.toList).map String.ofList) = .ok c) : c.text = text := by
  obtain ⟨-, -, rfl⟩ := secure_eq_ok_iff.1 h
  have hpieces : ((split text.toList).map String.ofList).map String.toList = split text.toList := by
    simp
  rw [Channel.text, hpieces, intercalate_split, String.ofList_toList]

end Channel

end Wager
