import Wager.Proofs.Splits

/-!
# Outputs that pay a fee

Outputs pay their shares of a fee one after the other, and the first that is short of its share
stops the charging. Those in front of it have paid by then.

**Even amounts.** When the outputs are themselves an even split, a fee up to their sum leaves no
output short: in each place the quotient and the larger shares of the amount make up for those of
the fee (`share_le_share`). So the fee fails only if it exceeds the sum (`Output.pays_even_split`).

**Failures.** Shares do not increase, so whatever an output in front of a short one has paid is not
zero. A split that failed has therefore left the outputs alone exactly if the first of them was
short (`Output.keeps_values_iff`).
-/

namespace Wager

variable {total fee : UInt64} {parts : Nat}

/-! ## Even shares -/

theorem pairwise_splitEvenly (total : UInt64) (parts : Nat) :
    (splitEvenly total parts).Pairwise (· ≥ ·) := by
  refine List.pairwise_iff_getElem.2 fun i j hi hj hij => ?_
  have hfirst := toNat_share (List.getElem?_eq_getElem hi)
  have hsecond := toNat_share (List.getElem?_eq_getElem hj)
  rw [ge_iff_le, UInt64.le_iff_toNat_le]
  split_ifs at hfirst hsecond <;> omega

theorem toNat_le_share {share share' : UInt64} (h : share ∈ splitEvenly total parts)
    (h' : share' ∈ splitEvenly total parts) : share.toNat ≤ share'.toNat + 1 := by
  obtain ⟨i, hi⟩ := List.mem_iff_getElem?.1 h
  obtain ⟨j, hj⟩ := List.mem_iff_getElem?.1 h'
  have hfirst := toNat_share hi
  have hsecond := toNat_share hj
  split_ifs at hfirst hsecond <;> omega

/-- In each place the share of a smaller amount is at most that of a larger one. -/
theorem share_le_share (hle : fee ≤ total) {i : Nat} {share amount : UInt64}
    (hshare : (splitEvenly fee parts)[i]? = some share)
    (hamount : (splitEvenly total parts)[i]? = some amount) : share ≤ amount := by
  rw [UInt64.le_iff_toNat_le] at hle ⊢
  rw [toNat_share hshare, toNat_share hamount]
  have hquotients : fee.toNat / parts ≤ total.toNat / parts := Nat.div_le_div_right hle
  rcases Nat.lt_or_eq_of_le hquotients with hlt | heq
  · split_ifs <;> omega
  · -- With equal quotients the smaller amount has the smaller remainder.
    have hfee := Nat.div_add_mod fee.toNat parts
    have htotal := Nat.div_add_mod total.toNat parts
    rw [heq] at hfee ⊢
    split_ifs <;> omega

namespace Output

/-! ## Charging one by one -/

variable {outputs : List Output} {shares : List UInt64} {fault : Fault}

theorem charge_of_le {o : Output} {share : UInt64} (h : share ≤ o.value) :
    ∃ left, o.charge share = .ok left := by
  rw [charge, Sats.sub?, if_pos h]
  exact ⟨_, rfl⟩

theorem charge_of_lt {o : Output} {share : UInt64} (h : o.value < share) :
    o.charge share = .error (.insufficientFunds share o.value) := by
  rw [charge, Sats.sub?, if_neg (UInt64.not_le.2 h)]

/-- Outputs can pay as long as each holds its share. -/
theorem chargeEach_of_le (h : List.Forall₂ (fun o share => share ≤ o.value) outputs shares) :
    (chargeEach outputs shares).2 = .ok () := by
  induction h with
  | nil => rfl
  | cons hle _ ih =>
    obtain ⟨left, hcharge⟩ := charge_of_le hle
    simp only [chargeEach, hcharge, ih]

/-- Charging that fails has charged the outputs in front of one that is short of its share, and
leaves that one and those behind it as they were. -/
theorem short_of_chargeEach (hlen : outputs.length = shares.length)
    (h : (chargeEach outputs shares).2 = .error fault) :
    ∃ paid o behind front share rest lefts, outputs = paid ++ o :: behind ∧
      shares = front ++ share :: rest ∧ ChargedEach paid front lefts ∧ o.value < share ∧
      fault = .insufficientFunds share o.value ∧
      (chargeEach outputs shares).1 = lefts ++ o :: behind := by
  induction outputs generalizing shares with
  | nil => cases h
  | cons o outputs ih =>
    cases shares with
    | nil => cases hlen
    | cons share shares =>
      by_cases hle : share ≤ o.value
      · obtain ⟨left, hcharge⟩ := charge_of_le hle
        simp only [chargeEach, hcharge] at h ⊢
        obtain ⟨paid, short, behind, front, due, rest, lefts, rfl, rfl, hpaid, hshort, hfault,
          hlefts⟩ := ih (Nat.succ.inj hlen) h
        exact ⟨o :: paid, short, behind, share :: front, due, rest, left :: lefts, rfl, rfl,
          .cons (charged_of_charge hcharge) hpaid, hshort, hfault, by rw [hlefts]; rfl⟩
      · have hshort := UInt64.not_le.1 hle
        simp only [chargeEach, charge_of_lt hshort, Except.error.injEq] at h ⊢
        exact ⟨[], o, outputs, [], share, shares, [], rfl, rfl, .nil, hshort, h.symm, rfl⟩

theorem splitFee_of_ne_nil (hne : outputs ≠ []) :
    splitFee outputs fee = chargeEach outputs (splitEvenly fee outputs.length) := by
  rw [splitFee, if_neg (by simpa using hne)]

/-! ## Even amounts -/

theorem length_of_even (h : outputs.map (·.value) = splitEvenly total parts) :
    outputs.length = parts := by
  rw [← length_splitEvenly total parts, ← h, List.length_map]

/-- Outputs that hold an even split can pay any fee up to their sum. -/
theorem splitFee_of_le (hparts : parts ≠ 0) (h : outputs.map (·.value) = splitEvenly total parts)
    (hle : fee ≤ total) : (splitFee outputs fee).2 = .ok () := by
  obtain rfl := length_of_even h
  rw [splitFee_of_ne_nil (mt List.length_eq_zero_iff.2 hparts)]
  refine chargeEach_of_le (List.forall₂_iff_get.2 ⟨?_, fun i hi hi' => ?_⟩)
  · rw [length_splitEvenly]
  · have hamount : (splitEvenly total outputs.length)[i]? = some (outputs.get ⟨i, hi⟩).value := by
      rw [← h, List.getElem?_map, List.getElem?_eq_getElem hi]
      rfl
    exact share_le_share hle (List.getElem?_eq_getElem hi') hamount

/-- An even split adds up to the amount, does not increase, and its shares differ by at most one.
Outputs that hold it can pay a fee exactly if the fee is at most the amount, and what they hold
then adds up to the rest and differs by at most one again. -/
theorem pays_even_split (fee : UInt64) (hparts : parts ≠ 0)
    (h : outputs.map (·.value) = splitEvenly total parts) :
    ((splitEvenly total parts).map UInt64.toNat).sum = total.toNat ∧
    (splitEvenly total parts).Pairwise (· ≥ ·) ∧
    (∀ share ∈ splitEvenly total parts, ∀ share' ∈ splitEvenly total parts,
      share.toNat ≤ share'.toNat + 1) ∧
    ((splitFee outputs fee).2 = .ok () ↔ fee ≤ total) ∧
    (fee ≤ total →
      ((splitFee outputs fee).1.map (·.value.toNat)).sum = total.toNat - fee.toNat ∧
      ∀ left ∈ (splitFee outputs fee).1, ∀ left' ∈ (splitFee outputs fee).1,
        left.value.toNat ≤ left'.value.toNat + 1) := by
  obtain rfl := length_of_even h
  -- What a split that succeeds leaves is `afterFee`, whose sum and evenness are known.
  have hlefts (hok : (splitFee outputs fee).2 = .ok ()) :
      afterFee outputs fee = .ok (splitFee outputs fee).1 := by
    rcases hsplit : splitFee outputs fee with ⟨lefts, outcome⟩
    rw [hsplit] at hok
    obtain rfl : outcome = .ok () := hok
    rw [afterFee, hsplit]
    rfl
  have hamount : (outputs.map (·.value.toNat)).sum = total.toNat := by
    rw [← sum_splitEvenly hparts, ← h, List.map_map]
    rfl
  have hbalance (hok : (splitFee outputs fee).2 = .ok ()) :
      ((splitFee outputs fee).1.map (·.value.toNat)).sum + fee.toNat = total.toNat :=
    (sum_of_afterFee (hlefts hok)).trans hamount
  refine ⟨sum_splitEvenly hparts, pairwise_splitEvenly total outputs.length,
    fun share hshare share' hshare' => toNat_le_share hshare hshare',
    ⟨fun hok => ?_, splitFee_of_le hparts h⟩, fun hle => ⟨?_, ?_⟩⟩
  · have hsum := hbalance hok
    rw [UInt64.le_iff_toNat_le]
    omega
  · have hsum := hbalance (splitFee_of_le hparts h hle)
    omega
  · exact (chargedEach_of_afterFee (hlefts (splitFee_of_le hparts h hle))).2.even h

/-- Three outputs that hold an even split of ten. -/
def tenths : List Output := [⟨4, .empty⟩, ⟨3, .empty⟩, ⟨3, .empty⟩]

/-- The larger shares of the fee can leave the larger rest behind. -/
theorem tenths_pay : splitEvenly 10 3 = [4, 3, 3] ∧ (splitFee tenths 5).2 = .ok () ∧
    (splitFee tenths 5).1.map (·.value) = [2, 1, 2] ∧
    ((splitFee tenths 5).1.map (·.value.toNat)).sum = 5 ∧ (splitFee tenths 11).2 ≠ .ok () := by
  have heven : tenths.map (·.value) = splitEvenly 10 3 := rfl
  obtain ⟨-, -, -, hpays, hleft⟩ := pays_even_split 5 (by decide) heven
  obtain ⟨-, -, -, hrefuses, -⟩ := pays_even_split 11 (by decide) heven
  exact ⟨rfl, hpays.2 (by decide), rfl, (hleft (by decide)).1,
    fun hok => absurd (hrefuses.1 hok) (by decide)⟩

/-! ## Failures -/

/-- No share of a fee is larger than the first one. So when an output is short of its share, the
first output can only have paid with a loss. -/
theorem lt_of_charged {o left : Output} {value first share : UInt64} {shares : List UInt64}
    (h : splitEvenly fee parts = first :: shares) (hshare : share ∈ shares) (hshort : value < share)
    (hfirst : o.Charged first left) : left.value < o.value := by
  have hpairwise := pairwise_splitEvenly fee parts
  rw [h] at hpairwise
  have hle : share ≤ first := (List.pairwise_cons.1 hpairwise).1 share hshare
  have hvalue := hfirst.value
  rw [UInt64.le_iff_toNat_le] at hle
  rw [UInt64.lt_iff_toNat_lt] at hshort ⊢
  omega

/-- A fee split that fails for want of funds stops at the first output that is short of its share:
those in front of it have paid, it and those behind it are as they were. Without outputs it fails
at once. So it leaves every value alone exactly if there is no output or the first one is short. -/
theorem keeps_values_iff (h : (splitFee outputs fee).2 = .error fault) :
    (outputs = [] ∧ fault = .inconsistent .noFeeOutput ∨
      ∃ paid o behind front share rest lefts, outputs = paid ++ o :: behind ∧
        splitEvenly fee outputs.length = front ++ share :: rest ∧ ChargedEach paid front lefts ∧
        o.value < share ∧ fault = .insufficientFunds share o.value ∧
        (splitFee outputs fee).1 = lefts ++ o :: behind) ∧
    ((splitFee outputs fee).1.map (·.value) = outputs.map (·.value) ↔
      ∀ o ∈ outputs.head?, ∀ share ∈ (splitEvenly fee outputs.length).head?, o.value < share) := by
  cases outputs with
  | nil =>
    have hfault : fault = .inconsistent .noFeeOutput := (Except.error.inj h).symm
    exact ⟨.inl ⟨rfl, hfault⟩, by simp [splitFee]⟩
  | cons o outputs =>
    rw [splitFee_of_ne_nil (List.cons_ne_nil o outputs)] at h ⊢
    obtain ⟨paid, short, behind, front, due, rest, lefts, houtputs, hshares, hpaid, hshort, hfault,
      hlefts⟩ := short_of_chargeEach (length_splitEvenly fee _).symm h
    refine ⟨.inr ⟨paid, short, behind, front, due, rest, lefts, houtputs, hshares, hpaid, hshort,
      hfault, hlefts⟩, ?_⟩
    rw [hlefts, hshares]
    cases hpaid with
    | nil =>
      obtain ⟨rfl, rfl⟩ := List.cons.inj houtputs
      simpa using hshort
    | @cons _ left first _ _ shares hfirst _ =>
      obtain ⟨rfl, -⟩ := List.cons.inj houtputs
      have hdue : due ∈ shares ++ due :: rest := List.mem_append_right _ List.mem_cons_self
      have hlost := lt_of_charged hshares hdue hshort hfirst
      constructor
      · intro hsame
        have hvalue : left.value = o.value := (List.cons.inj hsame).1
        exact absurd hvalue (UInt64.ne_of_lt hlost)
      · intro hfirstShort
        have hlt : o.value < first := hfirstShort o rfl first rfl
        have hvalue := hfirst.value
        rw [UInt64.lt_iff_toNat_lt] at hlt
        omega

/-- The second of these outputs cannot pay a third of nine. -/
def lopsided : List Output := [⟨10, .empty⟩, ⟨1, .empty⟩, ⟨10, .empty⟩]

/-- The first output has paid when the second turns out to be short. -/
theorem lopsided_charged : (splitFee lopsided 9).2 = .error (.insufficientFunds 3 1) ∧
    (splitFee lopsided 9).1.map (·.value) = [7, 1, 10] ∧
    (splitFee lopsided 9).1.map (·.value) ≠ lopsided.map (·.value) := by
  have hfails : (splitFee lopsided 9).2 = .error (.insufficientFunds 3 1) := rfl
  refine ⟨hfails, rfl, fun hsame => ?_⟩
  have hshort := (keeps_values_iff hfails).2.1 hsame
  exact absurd (hshort ⟨10, .empty⟩ rfl 3 rfl) (by decide)

end Output

end Wager
