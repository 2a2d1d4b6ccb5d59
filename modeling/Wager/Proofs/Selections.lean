import Mathlib.Data.List.Perm.Subperm
import Wager.Chain.Ledger
import Wager.Proofs.Sums

/-!
# The coins that are selected

**Worth.** What coins are worth together is a natural number (`Coin.worth`). The running total of a
selection is a word that stops at the greatest value instead. Since the amount is a word too, that
value is never below it, so the total decides as the sum would, and where it is reported it is the
sum.

**Fewest.** The coins are taken from the largest down. As many coins of any other choice are worth
no more than these (`Coin.worth_le_worth_take`), and all that were taken but the last are not
enough. So no choice with fewer coins covers the amount.

Main result: `Coin.selects_fewest`.
-/

namespace Wager.Coin

/-- What the coins are worth together. -/
def worth (coins : List Coin) : Nat := (coins.map (·.output.value.toNat)).sum

theorem worth_cons (coin : Coin) (coins : List Coin) :
    worth (coin :: coins) = coin.output.value.toNat + worth coins := rfl

theorem worth_perm {coins coins' : List Coin} (h : coins.Perm coins') :
    worth coins = worth coins' := (h.map _).sum_nat

theorem worth_le_of_prefix {coins coins' : List Coin} (h : coins <+: coins') :
    worth coins ≤ worth coins' := by
  obtain ⟨rest, rfl⟩ := h
  rw [worth, worth, List.map_append, List.sum_append]
  exact Nat.le_add_right _ _

/-- The larger coins stand in front. -/
def LargestFirst (coins : List Coin) : Prop :=
  coins.Pairwise fun a b => b.output.value ≤ a.output.value

/-! ## The order of selection -/

theorem before_iff {a b : Coin} : before a b = true ↔ b.output.value < a.output.value ∨
    a.output.value = b.output.value ∧
      ofBigEndian a.outpoint.txid.shown.toList ≤ ofBigEndian b.outpoint.txid.shown.toList := by
  rw [before]
  split
  · next heq => simp [heq]
  · next hne => simp [hne]

theorem before_trans {a b c : Coin} (hab : before a b = true) (hbc : before b c = true) :
    before a c = true := by
  simp only [before_iff, UInt64.lt_iff_toNat_lt, ← UInt64.toNat_inj] at hab hbc ⊢
  omega

theorem before_total (a b : Coin) : (before a b || before b a) = true := by
  simp only [Bool.or_eq_true, before_iff, UInt64.lt_iff_toNat_lt, ← UInt64.toNat_inj]
  omega

theorem pairwise_mergeSort (coins : List Coin) :
    (coins.mergeSort before).Pairwise fun a b => before a b = true := by
  have htrans : ∀ a b c : Coin, before a b = true → before b c = true → before a c = true :=
    fun _ _ _ => before_trans
  exact List.pairwise_mergeSort htrans before_total coins

theorem largestFirst_mergeSort (coins : List Coin) : LargestFirst (coins.mergeSort before) := by
  refine (pairwise_mergeSort coins).imp fun h => ?_
  rcases before_iff.1 h with hlt | ⟨heq, -⟩
  · exact UInt64.le_of_lt hlt
  · exact UInt64.le_of_eq heq.symm

/-! ## The running total -/

theorem toNat_saturatingAdd (a b : UInt64) :
    (saturatingAdd a b).toNat = min (a.toNat + b.toNat) (UInt64.size - 1) := by
  rw [saturatingAdd]
  cases hadd : Sats.add? a b with
  | some c =>
    have hsum := Sats.add?_eq_some_iff.1 hadd
    have hlt := c.toNat_lt
    rw [Option.getD_some, UInt64.size]
    omega
  | none =>
    have hlarge : ¬ a.toNat + b.toNat < UInt64.size := by simpa [Sats.add?] using hadd
    rw [Option.getD_none, min_eq_right (by omega)]
    rfl

/-- What is taken from the front of the coins when `total` was reached before, and the total that
is reached then. -/
structure Takes (amount total : UInt64) (coins taken : List Coin) (reached : UInt64) : Prop where
  front : taken <+: coins
  sum : reached.toNat = min (total.toNat + worth taken) (UInt64.size - 1)
  /-- Coins are left only when the amount is reached. -/
  stops : amount ≤ reached ∨ taken = coins
  /-- Each coin was taken because those before it are not enough. -/
  needed : ∀ earlier last, taken = earlier ++ [last] → total.toNat + worth earlier < amount.toNat

variable {amount total reached : UInt64} {coin : Coin} {coins taken : List Coin}

theorem Takes.nil (h : amount ≤ total ∨ [] = coins) : Takes amount total coins [] total where
  front := List.nil_prefix
  sum := by
    have hlt := total.toNat_lt
    rw [worth, List.map_nil, List.sum_nil, UInt64.size]
    omega
  stops := h
  needed := fun _ _ h => by simp at h

theorem Takes.cons (hshort : ¬ amount ≤ total)
    (h : Takes amount (saturatingAdd total coin.output.value) coins taken reached) :
    Takes amount total (coin :: coins) (coin :: taken) reached where
  front := List.cons_prefix_cons.2 ⟨rfl, h.front⟩
  sum := by
    rw [h.sum, toNat_saturatingAdd, worth_cons]
    omega
  stops := h.stops.imp_right fun heq => by rw [heq]
  needed := fun earlier last heq => by
    have hamount := amount.toNat_lt
    have hless : total.toNat < amount.toNat := UInt64.lt_iff_toNat_lt.1 (UInt64.not_le.1 hshort)
    cases earlier with
    | nil => simpa [worth] using hless
    | cons first earlier =>
      obtain ⟨rfl, hrest⟩ := List.cons.inj heq
      have hearlier := h.needed earlier last hrest
      rw [toNat_saturatingAdd, UInt64.size] at hearlier
      rw [worth_cons]
      omega

theorem takes_takeUntil (amount total : UInt64) (coins : List Coin) :
    Takes amount total coins (takeUntil amount total coins).1
      (takeUntil amount total coins).2 := by
  induction coins generalizing total with
  | nil => exact .nil (.inr rfl)
  | cons coin coins ih =>
    rw [takeUntil]
    by_cases hreached : amount ≤ total
    · rw [if_pos hreached]
      exact .nil (.inl hreached)
    · rw [if_neg hreached]
      exact .cons hreached (ih _)

/-! ## No choice with fewer coins -/

/-- The largest coin in front makes the first `n` coins worth more. -/
theorem worth_take_le (h : LargestFirst (coin :: coins)) (n : Nat) :
    worth (coins.take n) ≤ worth ((coin :: coins).take n) := by
  induction n generalizing coin coins with
  | zero => exact Nat.le_refl 0
  | succ n ih =>
    cases coins with
    | nil => exact Nat.zero_le _
    | cons next coins =>
      obtain ⟨hfirst, hrest⟩ := List.pairwise_cons.1 h
      have hvalue := UInt64.le_iff_toNat_le.1 (hfirst next List.mem_cons_self)
      rw [List.take_succ_cons, List.take_succ_cons, worth_cons, worth_cons]
      exact Nat.add_le_add hvalue (ih hrest)

theorem worth_le_worth_take_of_sublist {other : List Coin} (hsorted : LargestFirst coins)
    (h : other.Sublist coins) : worth other ≤ worth (coins.take other.length) := by
  induction h with
  | slnil => exact Nat.le_refl 0
  | cons coin _ ih =>
    exact Nat.le_trans (ih (List.pairwise_cons.1 hsorted).2) (worth_take_le hsorted _)
  | cons_cons coin _ ih =>
    rw [List.length_cons, List.take_succ_cons, worth_cons, worth_cons]
    exact Nat.add_le_add_left (ih (List.pairwise_cons.1 hsorted).2) _

/-- Any choice of coins is worth at most as much as equally many from the front. -/
theorem worth_le_worth_take {other : List Coin} (hsorted : LargestFirst coins)
    (h : other.Subperm coins) : worth other ≤ worth (coins.take other.length) := by
  obtain ⟨chosen, hperm, hsublist⟩ := h
  rw [← worth_perm hperm, ← hperm.length_eq]
  exact worth_le_worth_take_of_sublist hsorted hsublist

/-! ## What is selected -/

/-- The coins are a choice that covers the amount, the larger ones first and as few as possible. -/
structure Selected (coins : List Coin) (amount : UInt64) (taken : List Coin) : Prop where
  among : taken.Subperm coins
  largestFirst : LargestFirst taken
  covers : amount.toNat ≤ worth taken
  needed : ∀ earlier last, taken = earlier ++ [last] → worth earlier < amount.toNat
  fewest : ∀ other, other.Subperm coins → amount.toNat ≤ worth other →
    taken.length ≤ other.length

theorem Takes.selected {sorted : List Coin} (hperm : sorted.Perm coins)
    (hsorted : LargestFirst sorted) (h : Takes amount 0 sorted taken reached)
    (hreached : amount ≤ reached) : Selected coins amount taken where
  among := h.front.sublist.subperm.trans hperm.subperm
  largestFirst := hsorted.sublist h.front.sublist
  covers := by
    have hsum := h.sum
    have hle := UInt64.le_iff_toNat_le.1 hreached
    rw [UInt64.toNat_zero, Nat.zero_add] at hsum
    omega
  needed := fun earlier last heq => by
    have hearlier := h.needed earlier last heq
    rwa [UInt64.toNat_zero, Nat.zero_add] at hearlier
  fewest := fun other hother hcovers => by
    by_contra hfewer
    rw [Nat.not_le] at hfewer
    -- The choice is worth no more than a front of what was taken, without the last coin.
    have hne : taken ≠ [] := List.ne_nil_of_length_pos (Nat.lt_of_le_of_lt (Nat.zero_le _) hfewer)
    have hlast : taken.dropLast <+: sorted := (List.dropLast_prefix taken).trans h.front
    have hfront : sorted.take other.length <+: taken.dropLast := by
      refine List.prefix_of_prefix_length_le (List.take_prefix ..) hlast ?_
      rw [List.length_take, List.length_dropLast]
      omega
    have hworth := worth_le_worth_take hsorted (hother.trans hperm.symm.subperm)
    have hmore := worth_le_of_prefix hfront
    have hless :=
      h.needed taken.dropLast (taken.getLast hne) (List.dropLast_append_getLast hne).symm
    rw [UInt64.toNat_zero] at hless
    omega

/-- Coins are selected exactly if all of them together cover the amount. Otherwise their exact worth
is reported. -/
theorem selects_fewest (coins : List Coin) (amount : UInt64) :
    match select coins amount with
    | .ok taken => amount.toNat ≤ worth coins ∧ Selected coins amount taken
    | .error fault => worth coins < amount.toNat ∧ ∃ available : UInt64,
        available.toNat = worth coins ∧ fault = .insufficientFunds amount available := by
  have hperm := List.mergeSort_perm coins before
  have htakes := takes_takeUntil amount 0 (coins.mergeSort before)
  rw [select]
  generalize takeUntil amount 0 (coins.mergeSort before) = result at htakes
  obtain ⟨taken, reached⟩ := result
  change Takes amount 0 _ taken reached at htakes
  have hsum := htakes.sum
  have hamount := amount.toNat_lt
  rw [UInt64.toNat_zero, Nat.zero_add, UInt64.size] at hsum
  by_cases hshort : reached < amount
  · have hless := UInt64.lt_iff_toNat_lt.1 hshort
    obtain rfl := htakes.stops.resolve_left (UInt64.not_le.2 hshort)
    rw [worth_perm hperm] at hsum
    simp only [if_pos hshort]
    exact ⟨by omega, reached, by omega, rfl⟩
  · have hselected := htakes.selected hperm (largestFirst_mergeSort coins) (UInt64.not_lt.1 hshort)
    simp only [if_neg hshort]
    refine ⟨Nat.le_trans hselected.covers ?_, hselected⟩
    rw [← worth_perm hperm]
    exact worth_le_of_prefix htakes.front

end Wager.Coin
