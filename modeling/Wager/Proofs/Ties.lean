import Mathlib.Data.List.Permutation
import Mathlib.Logic.Equiv.Basic
import Wager.Proofs.Reading
import Wager.Proofs.Selections

/-!
# Candidates in another order

**Rank.** Candidates are sorted by value and by transaction (`Coin.rank`), but not by their place in
the transaction. Two outputs of one transaction with equal values are *tied*: they keep the order in
which they came.

**Alike.** What is selected depends on the sorted candidates place by place (`Coin.alike_select`),
and the ranks in each place are the same for any order in which the candidates came. So the
selection fails alike or takes equally many coins of the same ranks.

**The same coins.** Where no coin that is taken is tied, its rank says which coin it is. Where one
is tied, exchanging it with its rival among the candidates exchanges the two in what is taken
(`Coin.select_map`).

Main result: `Coin.selects_in_any_order`.
-/

namespace Wager.Coin

variable {coins coins' taken : List Coin} {amount : UInt64}

/-! ## Ranks -/

/-- What the order of selection looks at. -/
def rank (coin : Coin) : UInt64 × Txid := (coin.output.value, coin.outpoint.txid)

/-- Whether coins of the first rank may stand before coins of the second. -/
def Precedes (x y : UInt64 × Txid) : Prop :=
  y.1 < x.1 ∨ x.1 = y.1 ∧ ofBigEndian x.2.shown.toList ≤ ofBigEndian y.2.shown.toList

theorem before_iff_precedes {a b : Coin} : before a b = true ↔ Precedes (rank a) (rank b) :=
  before_iff

theorem txid_eq_of_ofBigEndian {x y : Txid}
    (h : ofBigEndian x.shown.toList = ofBigEndian y.shown.toList) : x = y := by
  have hbytes : x.shown.toList = y.shown.toList := by
    rw [← bigEndian_ofBigEndian x.shown.length_toList, h,
      bigEndian_ofBigEndian y.shown.length_toList]
  cases x
  cases y
  exact congrArg Txid.mk (Vector.toList_inj.1 hbytes)

theorem precedes_antisymm {x y : UInt64 × Txid} (hxy : Precedes x y) (hyx : Precedes y x) :
    x = y := by
  rcases hxy with hlt | ⟨heq, hle⟩
  · rcases hyx with hgt | ⟨heq, -⟩
    · exact absurd hgt (UInt64.lt_asymm hlt)
    · exact absurd heq (UInt64.ne_of_lt hlt)
  · rcases hyx with hgt | ⟨-, hge⟩
    · exact absurd heq.symm (UInt64.ne_of_lt hgt).symm
    · exact Prod.ext heq (txid_eq_of_ofBigEndian (Nat.le_antisymm hle hge))

theorem pairwise_precedes (coins : List Coin) :
    ((coins.mergeSort before).map rank).Pairwise Precedes :=
  List.pairwise_map.2 ((pairwise_mergeSort coins).imp before_iff_precedes.1)

/-- In each place of the sorted candidates the rank is the same for any order of them. -/
theorem map_rank_mergeSort (h : coins.Perm coins') :
    (coins.mergeSort before).map rank = (coins'.mergeSort before).map rank := by
  have hperm := (coins.mergeSort_perm before).trans (h.trans (coins'.mergeSort_perm before).symm)
  exact (hperm.map rank).eq_of_pairwise (fun _ _ _ _ => precedes_antisymm)
    (pairwise_precedes coins) (pairwise_precedes coins')

/-! ## Selections from related candidates -/

theorem select_eq (coins : List Coin) (amount : UInt64) : select coins amount =
    if (takeUntil amount 0 (coins.mergeSort before)).2 < amount then
      .error (.insufficientFunds amount (takeUntil amount 0 (coins.mergeSort before)).2)
    else .ok (takeUntil amount 0 (coins.mergeSort before)).1 := rfl

theorem mem_of_select (h : select coins amount = .ok taken) {coin : Coin} (hcoin : coin ∈ taken) :
    coin ∈ coins := by
  have hfront := (takes_takeUntil amount 0 (coins.mergeSort before)).front
  rw [select_eq] at h
  split at h
  · cases h
  · obtain rfl := Except.ok.inj h
    exact List.mem_mergeSort.1 (hfront.subset hcoin)

/-- Both fail with the same fault, or both succeed with coins that are related place by place. -/
inductive Alike (R : Coin → Coin → Prop) : Outcome (List Coin) → Outcome (List Coin) → Prop
  | error (fault : Fault) : Alike R (.error fault) (.error fault)
  | ok {taken taken' : List Coin} : List.Forall₂ R taken taken' → Alike R (.ok taken) (.ok taken')

section

variable {R : Coin → Coin → Prop}

theorem Alike.eq_error {fault : Fault} {x : Outcome (List Coin)} (h : Alike R (.error fault) x) :
    x = .error fault := by
  cases h with
  | error => rfl

theorem Alike.exists_ok {x : Outcome (List Coin)} (h : Alike R (.ok taken) x) :
    ∃ taken', x = .ok taken' ∧ List.Forall₂ R taken taken' := by
  cases h with
  | ok htaken => exact ⟨_, rfl, htaken⟩

theorem forall₂_takeUntil (amount total : UInt64)
    (hvalue : ∀ {a b}, R a b → a.output.value = b.output.value) (h : List.Forall₂ R coins coins') :
    List.Forall₂ R (takeUntil amount total coins).1 (takeUntil amount total coins').1 ∧
      (takeUntil amount total coins).2 = (takeUntil amount total coins').2 := by
  induction h generalizing total with
  | nil => exact ⟨.nil, rfl⟩
  | @cons a b coins coins' hab _ ih =>
    rw [takeUntil, takeUntil]
    by_cases hreached : amount ≤ total
    · rw [if_pos hreached, if_pos hreached]
      exact ⟨.nil, rfl⟩
    · rw [if_neg hreached, if_neg hreached, ← hvalue hab]
      obtain ⟨htaken, htotal⟩ := ih (saturatingAdd total a.output.value)
      exact ⟨.cons hab htaken, htotal⟩

/-- Only the values of the sorted candidates decide how many of them are taken. -/
theorem alike_select (hvalue : ∀ {a b}, R a b → a.output.value = b.output.value)
    (h : List.Forall₂ R (coins.mergeSort before) (coins'.mergeSort before)) :
    Alike R (select coins amount) (select coins' amount) := by
  obtain ⟨htaken, htotal⟩ := forall₂_takeUntil amount 0 hvalue h
  rw [select_eq, select_eq, ← htotal]
  split
  · exact .error _
  · exact .ok htaken

end

theorem alike_of_perm (h : coins.Perm coins') (amount : UInt64) :
    Alike (fun a b => rank a = rank b) (select coins amount) (select coins' amount) := by
  refine alike_select (congrArg Prod.fst) ?_
  have hranks := map_rank_mergeSort h
  rwa [← List.forall₂_eq_eq_eq, List.forall₂_map_left_iff, List.forall₂_map_right_iff] at hranks

/-- Exchanging candidates for others of the same ranks does the same to what is taken. -/
theorem select_map {f : Coin → Coin} (hf : ∀ coin, rank (f coin) = rank coin)
    (h : select coins amount = .ok taken) : select (coins.map f) amount = .ok (taken.map f) := by
  have hsorted : (coins.mergeSort before).map f = (coins.map f).mergeSort before := by
    refine List.map_mergeSort fun a _ b _ => ?_
    rw [Bool.eq_iff_iff, before_iff_precedes, before_iff_precedes, hf, hf]
  have hvalue {a b : Coin} (hab : f a = b) : a.output.value = b.output.value :=
    hab ▸ (congrArg Prod.fst (hf a)).symm
  have halike : Alike (fun a b => f a = b) (select coins amount) (select (coins.map f) amount) := by
    refine alike_select hvalue ?_
    rw [← hsorted, ← List.forall₂_map_left_iff, List.forall₂_eq_eq_eq]
  rw [h] at halike
  obtain ⟨taken', htaken', hrelated⟩ := halike.exists_ok
  rw [← List.forall₂_map_left_iff, List.forall₂_eq_eq_eq] at hrelated
  rw [htaken', hrelated]

/-! ## Ties -/

/-- Another output of the same transaction, with the same value, is among the candidates. -/
def Tied (coins : List Coin) (coin : Coin) : Prop :=
  ∃ rival ∈ coins, rank rival = rank coin ∧ rival.outpoint.index ≠ coin.outpoint.index

/-- Where a coin is not tied, its rank says which of the candidates it is. -/
theorem eq_of_not_tied (hdistinct : (coins.map (·.outpoint)).Nodup) {coin other : Coin}
    (hcoin : coin ∈ coins) (hother : other ∈ coins) (hrank : rank coin = rank other)
    (hfree : ¬ Tied coins coin) : coin = other := by
  refine List.inj_on_of_nodup_map hdistinct hcoin hother ?_
  have hindex : other.outpoint.index = coin.outpoint.index := by
    by_contra hne
    exact hfree ⟨other, hother, hrank.symm, hne⟩
  have htxid : coin.outpoint.txid = other.outpoint.txid := congrArg Prod.snd hrank
  exact congrArg₂ OutPoint.mk htxid hindex.symm

/-- Two of the candidates can change places. -/
theorem map_swap_perm (hdistinct : coins.Nodup) {coin rival : Coin} (hcoin : coin ∈ coins)
    (hrival : rival ∈ coins) : (coins.map (Equiv.swap coin rival)).Perm coins := by
  have hback : Function.Involutive (Equiv.swap coin rival) :=
    Equiv.congr_fun (Equiv.swap_swap coin rival)
  refine (List.perm_ext_iff_of_nodup ?_ hdistinct).2 fun other => ?_
  · exact hdistinct.map (Equiv.swap coin rival).injective
  · rw [List.mem_map_of_involutive hback, Equiv.swap_apply_def]
    split_ifs with h h'
    · rw [h]
      exact iff_of_true hrival hcoin
    · rw [h']
      exact iff_of_true hcoin hrival
    · rfl

/-- The rival of a tied coin takes its place when the two change places among the candidates. -/
theorem select_swapped (hdistinct : (coins.map (·.outpoint)).Nodup)
    (htaken : select coins amount = .ok taken) {coin : Coin} (hcoin : coin ∈ taken)
    (htied : Tied coins coin) :
    ∃ coins', coins'.Perm coins ∧ select coins' amount ≠ select coins amount := by
  obtain ⟨rival, hrival, hrank, hindex⟩ := htied
  have hrank' (other : Coin) : rank (Equiv.swap coin rival other) = rank other := by
    rw [Equiv.swap_apply_def]
    split_ifs with h h'
    · rw [h, hrank]
    · rw [h', hrank]
    · rfl
  have hmem := mem_of_select htaken hcoin
  refine ⟨_, map_swap_perm (List.Nodup.of_map _ hdistinct) hmem hrival, fun hsame => ?_⟩
  have hswapped := (select_map hrank' htaken).symm.trans (hsame.trans htaken)
  have hfixed := List.map_eq_map_iff.1 ((Except.ok.inj hswapped).trans (List.map_id taken).symm)
  have heq : rival = coin := by simpa using hfixed coin hcoin
  exact hindex (heq ▸ rfl)

/-- Where no coin that is taken is tied, the order of the candidates has no part in the
selection. -/
theorem select_eq_of_perm (hdistinct : (coins.map (·.outpoint)).Nodup) (hperm : coins'.Perm coins)
    (hfree : ∀ taken, select coins amount = .ok taken → ∀ coin ∈ taken, ¬ Tied coins coin) :
    select coins' amount = select coins amount := by
  have halike := alike_of_perm hperm.symm amount
  rcases htaken : select coins amount with fault | taken
  · rw [htaken] at halike
    exact halike.eq_error
  · rw [htaken] at halike
    obtain ⟨taken', htaken', hrelated⟩ := halike.exists_ok
    rw [htaken']
    refine congrArg Except.ok (List.ext_getElem hrelated.length_eq.symm fun i hi' hi => ?_)
    have hcoin := mem_of_select htaken (List.getElem_mem hi)
    have hother := hperm.subset (mem_of_select htaken' (List.getElem_mem hi'))
    have hunrivalled := hfree taken htaken _ (List.getElem_mem hi)
    exact (eq_of_not_tied hdistinct hcoin hother (hrelated.get hi hi') hunrivalled).symm

/-- In whatever order the candidates come, the selection fails alike, or takes equally many coins
that agree in their values and transactions place by place. It takes the very same coins in every
order exactly if none that it takes is tied with another candidate. -/
theorem selects_in_any_order (amount : UInt64) (hdistinct : (coins.map (·.outpoint)).Nodup) :
    (∀ coins', coins'.Perm coins →
      Alike (fun a b => rank a = rank b) (select coins amount) (select coins' amount)) ∧
    ((∀ coins', coins'.Perm coins → select coins' amount = select coins amount) ↔
      ∀ taken, select coins amount = .ok taken → ∀ coin ∈ taken, ¬ Tied coins coin) := by
  refine ⟨fun coins' hperm => alike_of_perm hperm.symm amount, ?_, ?_⟩
  · intro hsame taken htaken coin hcoin htied
    obtain ⟨coins', hperm, hdiffers⟩ := select_swapped hdistinct htaken hcoin htied
    exact hdiffers (hsame coins' hperm)
  · intro hfree coins' hperm
    exact select_eq_of_perm hdistinct hperm hfree

/-- An output of ten in one of the places of a transaction. -/
def twin (index : UInt32) : Coin := ⟨⟨⟨Vector.replicate 32 9⟩, index⟩, ⟨10, ⟨[Opcode.op1]⟩⟩⟩

/-- Of two equal outputs of one transaction the one that comes first is taken. -/
theorem twins_in_turn : ([twin 0, twin 1].map (·.outpoint)).Nodup ∧
    [twin 1, twin 0].Perm [twin 0, twin 1] ∧ select [twin 0, twin 1] 10 = .ok [twin 0] ∧
    select [twin 1, twin 0] 10 = .ok [twin 1] ∧
    ¬ ∀ coins', coins'.Perm [twin 0, twin 1] →
      select coins' 10 = select [twin 0, twin 1] 10 := by
  have hdistinct : ([twin 0, twin 1].map (·.outpoint)).Nodup := by decide
  have htaken : select [twin 0, twin 1] 10 = .ok [twin 0] := by cbv
  have htied : Tied [twin 0, twin 1] (twin 0) :=
    ⟨twin 1, List.mem_cons_of_mem _ List.mem_cons_self, rfl, by decide⟩
  refine ⟨hdistinct, List.Perm.swap .., htaken, by cbv, fun hsame => ?_⟩
  exact (selects_in_any_order 10 hdistinct).2.1 hsame _ htaken (twin 0) List.mem_cons_self htied

end Wager.Coin
