import Wager.Proofs.Sums

/-!
# Even splits

A split gives each part the same share and the first parts one more, so the shares add up to the
amount and their places say what they are (`toNat_splitEvenly`).

**Charging.** When the shares of a fee are taken from the shares of an amount, the larger of both
stand in front. That is why what is left differs by at most one again (`Output.Charged.even`).
-/

namespace Wager

variable {total fee : UInt64} {parts : Nat}

/-! ## Shares -/

theorem length_splitEvenly (total : UInt64) (parts : Nat) :
    (splitEvenly total parts).length = parts := by
  unfold splitEvenly
  split
  · next h => exact h.symm
  · next h =>
    have hlt := Nat.mod_lt total.toNat (Nat.pos_of_ne_zero h)
    simp only [List.length_append, List.length_replicate]
    omega

theorem toNat_splitEvenly (h : parts ≠ 0) : (splitEvenly total parts).map UInt64.toNat =
    List.replicate (total.toNat % parts) (total.toNat / parts + 1) ++
      List.replicate (parts - total.toNat % parts) (total.toNat / parts) := by
  have hlt := total.toNat_lt
  have hquotient : total.toNat / parts ≤ total.toNat := Nat.div_le_self ..
  rw [splitEvenly, if_neg h, List.map_append, List.map_replicate, List.map_replicate,
    UInt64.toNat_ofNat_of_lt' (by rw [UInt64.size]; omega : total.toNat / parts < UInt64.size)]
  rcases Nat.eq_zero_or_pos (total.toNat % parts) with hnone | hsome
  · rw [hnone]
    rfl
  · -- A part gets one more only when the amount exceeds the quotient.
    have hdivision := Nat.div_add_mod total.toNat parts
    have hparts : total.toNat / parts ≤ parts * (total.toNat / parts) :=
      Nat.le_mul_of_pos_left _ (Nat.pos_of_ne_zero h)
    rw [UInt64.toNat_ofNat_of_lt' (by rw [UInt64.size]; omega)]

/-- The shares add up to the amount. -/
theorem sum_splitEvenly (h : parts ≠ 0) :
    ((splitEvenly total parts).map UInt64.toNat).sum = total.toNat := by
  have hdivision := Nat.div_add_mod total.toNat parts
  have hle := Nat.le_of_lt (Nat.mod_lt total.toNat (Nat.pos_of_ne_zero h))
  rw [toNat_splitEvenly h, List.sum_append, List.sum_replicate_nat, List.sum_replicate_nat,
    Nat.mul_add, Nat.mul_one, Nat.add_right_comm, ← Nat.add_mul, Nat.add_sub_cancel' hle, hdivision]

/-- A share is the quotient, and one more in the first places. -/
theorem toNat_share {i : Nat} {share : UInt64} (h : (splitEvenly total parts)[i]? = some share) :
    share.toNat = total.toNat / parts + if i < total.toNat % parts then 1 else 0 := by
  obtain ⟨hi, -⟩ := List.getElem?_eq_some_iff.1 h
  rw [length_splitEvenly] at hi
  have hshare : ((splitEvenly total parts).map UInt64.toNat)[i]? = some share.toNat := by
    rw [List.getElem?_map, h]
    rfl
  rw [toNat_splitEvenly (Nat.ne_zero_of_lt hi)] at hshare
  by_cases hlarge : i < total.toNat % parts
  · rw [List.getElem?_append_left (by simpa using hlarge), List.getElem?_replicate,
      if_pos hlarge] at hshare
    rw [if_pos hlarge]
    exact (Option.some.inj hshare).symm
  · rw [List.getElem?_append_right (by simpa using hlarge), List.length_replicate,
      List.getElem?_replicate, if_pos (by omega)] at hshare
    rw [if_neg hlarge]
    exact (Option.some.inj hshare).symm

/-! ## Charged outputs -/

namespace Output

/-- What is left of the output pays the same script. -/
structure Charged (o : Output) (share : UInt64) (left : Output) : Prop where
  locking : left.locking = o.locking
  value : o.value.toNat = left.value.toNat + share.toNat

theorem charged_of_charge {o left : Output} {share : UInt64} (h : o.charge share = .ok left) :
    o.Charged share left := by
  unfold charge at h
  split at h
  · next value hvalue =>
    obtain rfl := Except.ok.inj h
    exact ⟨rfl, Sats.sub?_eq_some_iff.1 hvalue⟩
  · cases h

/-- What is left of outputs that pay a share each. -/
inductive ChargedEach : List Output → List UInt64 → List Output → Prop
  | nil : ChargedEach [] [] []
  | cons {o left : Output} {share : UInt64} {outputs lefts : List Output} {shares : List UInt64} :
    o.Charged share left → ChargedEach outputs shares lefts →
    ChargedEach (o :: outputs) (share :: shares) (left :: lefts)

theorem chargedEach_of_chargeEach {outputs lefts : List Output} {shares : List UInt64}
    (hlen : outputs.length = shares.length) (h : chargeEach outputs shares = (lefts, .ok ())) :
    ChargedEach outputs shares lefts := by
  induction outputs generalizing shares lefts with
  | nil =>
    obtain rfl := List.length_eq_zero_iff.1 hlen.symm
    obtain ⟨rfl, -⟩ := Prod.mk.inj h
    exact .nil
  | cons o outputs ih =>
    cases shares with
    | nil => cases hlen
    | cons share shares =>
      cases hcharge : o.charge share with
      | error fault => simp [chargeEach, hcharge] at h
      | ok left =>
        simp only [chargeEach, hcharge, Prod.mk.injEq] at h
        obtain ⟨rfl, hrest⟩ := h
        exact .cons (charged_of_charge hcharge) (ih (Nat.succ.inj hlen) (Prod.ext rfl hrest))

variable {outputs lefts : List Output} {shares : List UInt64}

namespace ChargedEach

theorem locking (h : ChargedEach outputs shares lefts) :
    lefts.map (·.locking) = outputs.map (·.locking) := by
  induction h with
  | nil => rfl
  | cons hfirst _ ih => rw [List.map_cons, List.map_cons, hfirst.locking, ih]

theorem balance (h : ChargedEach outputs shares lefts) :
    (lefts.map (·.value.toNat)).sum + (shares.map UInt64.toNat).sum =
      (outputs.map (·.value.toNat)).sum := by
  induction h with
  | nil => rfl
  | cons hfirst _ ih =>
    have hvalue := hfirst.value
    simp only [List.map_cons, List.sum_cons]
    omega

theorem getElem? (h : ChargedEach outputs shares lefts) {i : Nat} {left : Output}
    (hleft : lefts[i]? = some left) :
    ∃ o share, outputs[i]? = some o ∧ shares[i]? = some share ∧ o.Charged share left := by
  induction h generalizing i with
  | nil => cases hleft
  | cons hfirst _ ih =>
    cases i with
    | zero =>
      obtain rfl := Option.some.inj hleft
      exact ⟨_, _, rfl, rfl, hfirst⟩
    | succ i => exact ih hleft

/-- Shares of a fee leave shares of an amount that differ by at most one. -/
theorem even (h : ChargedEach outputs (splitEvenly fee parts) lefts)
    (houtputs : outputs.map (·.value) = splitEvenly total parts) :
    ∀ left ∈ lefts, ∀ left' ∈ lefts, left.value.toNat ≤ left'.value.toNat + 1 := by
  have hvalue {i : Nat} {left : Output} (hleft : lefts[i]? = some left) :
      total.toNat / parts + (if i < total.toNat % parts then 1 else 0) =
        left.value.toNat + (fee.toNat / parts + if i < fee.toNat % parts then 1 else 0) := by
    obtain ⟨o, share, ho, hshare, hcharged⟩ := h.getElem? hleft
    have hamount : (splitEvenly total parts)[i]? = some o.value := by
      rw [← houtputs, List.getElem?_map, ho]
      rfl
    rw [← toNat_share hamount, ← toNat_share hshare, hcharged.value]
  intro left hleft left' hleft'
  obtain ⟨i, hi⟩ := List.mem_iff_getElem?.1 hleft
  obtain ⟨j, hj⟩ := List.mem_iff_getElem?.1 hleft'
  have hfirst := hvalue hi
  have hsecond := hvalue hj
  split_ifs at hfirst hsecond <;> omega

end ChargedEach

/-- A fee that was taken from outputs was taken in shares. -/
theorem chargedEach_of_afterFee (h : afterFee outputs fee = .ok lefts) :
    outputs ≠ [] ∧ ChargedEach outputs (splitEvenly fee outputs.length) lefts := by
  unfold afterFee splitFee at h
  by_cases hnone : outputs.isEmpty
  · rw [if_pos hnone] at h
    cases h
  · rw [if_neg hnone] at h
    rcases hcharge : chargeEach outputs (splitEvenly fee outputs.length) with ⟨charged, outcome⟩
    rw [hcharge] at h
    obtain ⟨⟨⟩, hok, rfl⟩ := Outcome.map_eq_ok.1 h
    obtain rfl : outcome = .ok () := hok
    exact ⟨by simpa using hnone,
      chargedEach_of_chargeEach (length_splitEvenly fee outputs.length).symm hcharge⟩

/-- Taking a fee from outputs takes that much from their sum. -/
theorem sum_of_afterFee (h : afterFee outputs fee = .ok lefts) :
    (lefts.map (·.value.toNat)).sum + fee.toNat = (outputs.map (·.value.toNat)).sum := by
  obtain ⟨hne, hcharged⟩ := chargedEach_of_afterFee h
  have hbalance := hcharged.balance
  rwa [sum_splitEvenly (mt List.length_eq_zero_iff.1 hne)] at hbalance

end Output

end Wager
