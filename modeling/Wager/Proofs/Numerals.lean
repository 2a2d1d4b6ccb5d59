import Mathlib.Data.Nat.Digits.Lemmas
import Wager.Proofs.Reading
import Wager.Text.Base58

/-!
# Numerals and leading zeros

A row of digits is a number with zeros in front of it. Writing the number in another base and
keeping the zeros loses nothing (`Base58.rebase_rebase`): a number is written without a leading
zero, and it determines its digits.

**Base 58.** A text is the numeral of its bytes in base 58, so it is read back from the bytes, and
is the only text that is read as them (`Base58.decode_eq_ok_iff`). Any other text has a character
that is no digit, and the first of them is reported (`Base58.decode_cases`).
-/

namespace Wager.Base58

variable {base target n : Nat} {ds : List Nat}

/-! ## Digits -/

theorem digits_eq (hbase : 1 < base) (n : Nat) (acc : List Nat) :
    digits base n acc = (Nat.digits base n).reverse ++ acc := by
  induction n using Nat.strong_induction_on generalizing acc with
  | _ n ih =>
    rw [digits]
    by_cases hzero : n = 0
    · simp [hzero]
    · have hpos : 0 < n := Nat.pos_of_ne_zero hzero
      rw [if_neg (by omega), ih (n / base) (Nat.div_lt_self hpos hbase),
        Nat.digits_def' hbase hpos]
      simp

/-- The number that digits stand for, the most significant first. -/
def numeral (base : Nat) (ds : List Nat) : Nat := ds.foldl (fun n d => base * n + d) 0

theorem numeral_eq (base : Nat) (ds : List Nat) :
    numeral base ds = Nat.ofDigits base ds.reverse := by
  rw [numeral, Nat.ofDigits_eq_foldr, List.foldr_reverse]
  simp only [Nat.cast_id, Nat.add_comm]

theorem numeral_digits (hbase : 1 < base) (n : Nat) : numeral base (digits base n []) = n := by
  rw [numeral_eq, digits_eq hbase, List.append_nil, List.reverse_reverse, Nat.ofDigits_digits]

theorem digits_lt (hbase : 1 < base) : ∀ d ∈ digits base n [], d < base := by
  intro d hd
  rw [digits_eq hbase, List.append_nil, List.mem_reverse] at hd
  exact Nat.digits_lt_base hbase hd

theorem head?_digits (hbase : 1 < base) : (digits base n []).head? ≠ some 0 := by
  rw [digits_eq hbase, List.append_nil, List.head?_reverse]
  intro hhead
  by_cases hzero : n = 0
  · simp [hzero] at hhead
  · obtain ⟨_, hlast⟩ := List.mem_getLast?_eq_getLast hhead
    exact Nat.getLast_digit_ne_zero base hzero hlast.symm

/-- Digits without a leading zero are those of their number. -/
theorem digits_numeral (hbase : 1 < base) (hlt : ∀ d ∈ ds, d < base) (hhead : ds.head? ≠ some 0) :
    digits base (numeral base ds) [] = ds := by
  have hdigits : Nat.digits base (Nat.ofDigits base ds.reverse) = ds.reverse := by
    apply Nat.digits_ofDigits base hbase
    · simpa using hlt
    · intro hne hlast
      rw [List.getLast_reverse] at hlast
      exact hhead (List.head?_eq_some_head (by simpa using hne) ▸ congrArg some hlast)
  rw [digits_eq hbase, numeral_eq, hdigits, List.append_nil, List.reverse_reverse]

/-! ## Leading zeros -/

/-- The digits of the same number in another base, behind as many zeros. -/
def rebase (base target : Nat) (ds : List Nat) : List Nat :=
  ds.takeWhile (· == 0) ++ digits target (numeral base ds) []

theorem exists_zeros (ds : List Nat) :
    ∃ k rest, ds = List.replicate k 0 ++ rest ∧ rest.head? ≠ some 0 := by
  induction ds with
  | nil => exact ⟨0, [], rfl, by simp⟩
  | cons d ds ih =>
    by_cases hzero : d = 0
    · obtain ⟨k, rest, rfl, hhead⟩ := ih
      exact ⟨k + 1, rest, by rw [hzero, List.replicate_succ, List.cons_append], hhead⟩
    · exact ⟨0, d :: ds, rfl, by simpa using hzero⟩

theorem numeral_zeros_append (base k : Nat) (rest : List Nat) :
    numeral base (List.replicate k 0 ++ rest) = numeral base rest := by
  induction k with
  | zero => rfl
  | succ k ih => simpa [numeral, List.replicate_succ] using ih

theorem takeWhile_zeros_append {k : Nat} {rest : List Nat} (hhead : rest.head? ≠ some 0) :
    (List.replicate k 0 ++ rest).takeWhile (· == 0) = List.replicate k 0 := by
  rw [List.takeWhile_append_of_pos (by simp)]
  cases rest with
  | nil => simp
  | cons d rest =>
    have hd : d ≠ 0 := by simpa using hhead
    simp [hd]

theorem rebase_zeros_append {k : Nat} {rest : List Nat} (hhead : rest.head? ≠ some 0) :
    rebase base target (List.replicate k 0 ++ rest) =
      List.replicate k 0 ++ digits target (numeral base rest) [] := by
  rw [rebase, takeWhile_zeros_append hhead, numeral_zeros_append]

theorem rebase_lt (htarget : 1 < target) : ∀ d ∈ rebase base target ds, d < target := by
  intro d hd
  obtain ⟨k, rest, rfl, hhead⟩ := exists_zeros ds
  rw [rebase_zeros_append hhead] at hd
  obtain hzero | hdigit := List.mem_append.1 hd
  · have : d = 0 := List.eq_of_mem_replicate hzero
    omega
  · exact digits_lt htarget d hdigit

/-- Going to another base and back changes no digit. -/
theorem rebase_rebase (hbase : 1 < base) (htarget : 1 < target) (hlt : ∀ d ∈ ds, d < base) :
    rebase target base (rebase base target ds) = ds := by
  obtain ⟨k, rest, rfl, hhead⟩ := exists_zeros ds
  have hrest : ∀ d ∈ rest, d < base := fun d hd => hlt d (List.mem_append_right _ hd)
  rw [rebase_zeros_append hhead, rebase_zeros_append (head?_digits htarget),
    numeral_digits htarget, digits_numeral hbase hrest hhead]

/-! ## The alphabet -/

theorem digitValue?_digitChar : ∀ d < 58, digitValue? (digitChar d) = some d := by decide

theorem digitValue?_eq_some {c : Char} {d : Nat} :
    digitValue? c = some d ↔ d < 58 ∧ digitChar d = c := by
  constructor
  · intro h
    obtain ⟨hd, hc, -⟩ := List.findIdx?_eq_some_iff_getElem.1 h
    refine ⟨hd, ?_⟩
    rw [digitChar, List.getD_eq_getElem?_getD, List.getElem?_eq_getElem hd]
    simpa using hc
  · rintro ⟨hd, rfl⟩
    exact digitValue?_digitChar d hd

theorem digitValue?_eq_none {c : Char} : digitValue? c = none ↔ c ∉ alphabet := by
  rw [digitValue?, List.findIdx?_eq_none_iff]
  constructor
  · intro h hc
    simpa using h c hc
  · intro h x hx
    exact beq_false_of_ne fun hxc => h (hxc ▸ hx)

theorem ascii_alphabet : ∀ c ∈ alphabet, ¬0x7f < c.toNat := by
  have hall : alphabet.all (fun c => ¬0x7f < c.toNat) = true := by decide
  simpa only [List.all_eq_true, decide_eq_true_eq] using hall

theorem digitChar_mem {d : Nat} (hd : d < 58) : digitChar d ∈ alphabet := by
  by_contra hnone
  rw [← digitValue?_eq_none, digitValue?_digitChar d hd] at hnone
  cases hnone

/-! ## Texts -/

theorem values_cons_of_digit {d : Nat} (hd : d < 58) (position : Nat) (rest : List Char) :
    values position (digitChar d :: rest) = (d :: ·) <$> values (position + 1) rest := by
  rw [values, if_neg (ascii_alphabet _ (digitChar_mem hd)), digitValue?_digitChar d hd]
  rfl

theorem values_map_digitChar {vs : List Nat} (h : ∀ v ∈ vs, v < 58) (position : Nat) :
    values position (vs.map digitChar) = .ok vs := by
  induction vs generalizing position with
  | nil => rfl
  | cons v vs ih =>
    rw [List.map_cons, values_cons_of_digit (h v List.mem_cons_self),
      ih (fun v hv => h v (List.mem_cons_of_mem _ hv))]
    rfl

/-- The fault of a character that is no digit. -/
def foreign (c : Char) (position : Nat) : Malformed :=
  if 0x7f < c.toNat then .base58NonAscii position else .base58Character c position

theorem values_foreign {front back : List Char} {c : Char} (hfront : ∀ x ∈ front, x ∈ alphabet)
    (hc : c ∉ alphabet) (position : Nat) :
    values position (front ++ c :: back) = malformed (foreign c (position + front.length)) := by
  induction front generalizing position with
  | nil =>
    rw [List.nil_append, values, foreign, digitValue?_eq_none.2 hc]
    split <;> rfl
  | cons x front ih =>
    obtain ⟨d, hd⟩ : ∃ d, digitValue? x = some d := by
      cases hx : digitValue? x with
      | some d => exact ⟨d, rfl⟩
      | none => exact absurd (hfront x List.mem_cons_self) (digitValue?_eq_none.1 hx)
    obtain ⟨hlt, rfl⟩ := digitValue?_eq_some.1 hd
    have hnext := ih (fun x hx => hfront x (List.mem_cons_of_mem _ hx)) (position + 1)
    rw [List.cons_append, values_cons_of_digit hlt, hnext, List.length_cons, Nat.add_right_comm,
      Nat.add_assoc]
    rfl

/-- A row of characters is a row of digits up to the first that is none. -/
theorem digits_or_foreign (chars : List Char) :
    (∃ vs : List Nat, chars = vs.map digitChar ∧ ∀ v ∈ vs, v < 58) ∨
      ∃ front c back, chars = front ++ c :: back ∧ (∀ x ∈ front, x ∈ alphabet) ∧ c ∉ alphabet := by
  induction chars with
  | nil => exact .inl ⟨[], rfl, by simp⟩
  | cons x chars ih =>
    cases hx : digitValue? x with
    | none => exact .inr ⟨[], x, chars, rfl, by simp, digitValue?_eq_none.1 hx⟩
    | some d =>
      obtain ⟨hd, rfl⟩ := digitValue?_eq_some.1 hx
      obtain ⟨vs, rfl, hvs⟩ | ⟨front, c, back, rfl, hfront, hc⟩ := ih
      · exact .inl ⟨d :: vs, rfl, List.forall_mem_cons.2 ⟨hd, hvs⟩⟩
      · exact .inr ⟨digitChar d :: front, c, back, rfl,
          List.forall_mem_cons.2 ⟨digitChar_mem hd, hfront⟩, hc⟩

theorem encode_eq (data : Bytes) :
    encode data = String.ofList ((rebase 256 58 (data.map UInt8.toNat)).map digitChar) := by
  have hzeros : (data.takeWhile (· == 0)).map (fun _ => '1') =
      ((data.map UInt8.toNat).takeWhile (· == 0)).map digitChar := by
    induction data with
    | nil => rfl
    | cons b data ih =>
      have hb : b = 0 ↔ b.toNat = 0 := UInt8.toNat_inj.symm
      simp only [List.map_cons, List.takeWhile_cons, beq_iff_eq, hb]
      split
      · rename_i hzero
        rw [List.map_cons, List.map_cons, ih, hzero]
        rfl
      · rfl
  have hnumber : ofBigEndian data = numeral 256 (data.map UInt8.toNat) := by
    rw [numeral, List.foldl_map, ofBigEndian]
  rw [encode, rebase, List.map_append, hzeros, hnumber]

theorem decode_eq {text : String} {vs : List Nat} (h : text.toList = vs.map digitChar)
    (hlt : ∀ v ∈ vs, v < 58) : decode text = .ok ((rebase 58 256 vs).map UInt8.ofNat) := by
  have hzeros : (vs.takeWhile (· == 0)).map (fun _ => (0 : UInt8)) =
      (vs.takeWhile (· == 0)).map UInt8.ofNat := by
    obtain ⟨k, rest, rfl, hhead⟩ := exists_zeros vs
    rw [takeWhile_zeros_append hhead, List.map_replicate, List.map_replicate]
    rfl
  rw [decode, h, values_map_digitChar hlt, rebase, List.map_append, ← hzeros]
  rfl

theorem map_toNat_map_ofNat {ds : List Nat} (h : ∀ d ∈ ds, d < 256) :
    (ds.map UInt8.ofNat).map UInt8.toNat = ds := by
  rw [List.map_map]
  exact (List.map_congr_left fun d hd => UInt8.toNat_ofNat_of_lt' (h d hd)).trans (List.map_id ds)

theorem decode_encode (data : Bytes) : decode (encode data) = .ok data := by
  have hbytes : ∀ d ∈ data.map UInt8.toNat, d < 256 := by
    simpa using fun b _ => b.toNat_lt
  rw [encode_eq, decode_eq String.toList_ofList (rebase_lt (by decide)),
    rebase_rebase (by decide) (by decide) hbytes, List.map_map]
  exact congrArg _ ((List.map_congr_left fun b _ => UInt8.ofNat_toNat).trans (List.map_id data))

/-- The only text of these bytes. -/
theorem decode_eq_ok_iff {text : String} {data : Bytes} :
    decode text = .ok data ↔ text = encode data := by
  constructor
  · intro h
    obtain ⟨vs, hchars, hlt⟩ | ⟨front, c, back, hchars, hfront, hc⟩ :=
      digits_or_foreign text.toList
    · have hdata := (decode_eq hchars hlt).symm.trans h
      obtain rfl := Except.ok.inj hdata
      rw [encode_eq, map_toNat_map_ofNat (rebase_lt (by decide)),
        rebase_rebase (by decide) (by decide) hlt, ← hchars, String.ofList_toList]
    · rw [decode, hchars, values_foreign hfront hc] at h
      cases h
  · rintro rfl
    exact decode_encode data

/-- A text that no bytes have holds a character that is no digit, and the first is reported. -/
theorem decode_cases (text : String) : (∃ data, text = encode data) ∨
    ∃ front c back, text.toList = front ++ c :: back ∧ (∀ x ∈ front, x ∈ alphabet) ∧
      c ∉ alphabet ∧ decode text = malformed (foreign c front.length) := by
  obtain ⟨vs, hchars, hlt⟩ | ⟨front, c, back, hchars, hfront, hc⟩ := digits_or_foreign text.toList
  · exact .inl ⟨_, decode_eq_ok_iff.1 (decode_eq hchars hlt)⟩
  · refine .inr ⟨front, c, back, hchars, hfront, hc, ?_⟩
    rw [decode, hchars, values_foreign hfront hc, Nat.zero_add]
    rfl

end Wager.Base58
