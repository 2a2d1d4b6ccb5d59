import Wager.Proofs.Conditions
import Wager.Proofs.Spends
import Wager.Terms.Openings

/-!
# Committees and what they reveal

A script leaves a seat out in the same way as a count of the revealed preimages does. So the items
that are pushed for the preimages stand in the order of the images that the script compares them
with, and every preimage that counts opens the image in its place.
-/

namespace Wager

open Script

/-! ## Leaving a seat out -/

theorem others_none {α : Type} (xs : List α) : others none xs = xs := by
  simp [others, List.zipIdx_map_fst]

theorem others_some {α : Type} (k : Nat) (xs : List α) : others (some k) xs = xs.eraseIdx k := by
  have hgen : ∀ (xs : List α) (n k : Nat),
      ((xs.zipIdx n).filter fun p => some p.2 ≠ some (n + k)).map (·.1) = xs.eraseIdx k := by
    intro xs
    induction xs with
    | nil => simp
    | cons x xs ih =>
      intro n k
      rw [List.zipIdx_cons, List.filter_cons]
      cases k with
      | zero =>
        have hall : (xs.zipIdx (n + 1)).filter (fun p => some p.2 ≠ some (n + 0)) =
            xs.zipIdx (n + 1) := by
          refine List.filter_eq_self.2 fun p hp => ?_
          have := List.le_snd_of_mem_zipIdx hp
          simp
          omega
        simp only [List.eraseIdx_cons_zero, Nat.add_zero, ne_eq, not_true_eq_false, decide_false,
          Bool.false_eq_true, if_false] at hall ⊢
        rw [hall]
        simp [List.zipIdx_map_fst]
      | succ k =>
        have hstep := ih (n + 1) k
        rw [show n + 1 + k = n + (k + 1) by omega] at hstep
        simp only [List.eraseIdx_cons_succ, ← hstep]
        simp
  simpa [others] using hgen xs 0 k

theorem others_zip {α β : Type} {xs : List α} {ys : List β} (h : xs.length = ys.length)
    (exclude : Option Nat) : others exclude (xs.zip ys) =
      (others exclude xs).zip (others exclude ys) := by
  cases exclude with
  | none => simp only [others_none]
  | some k =>
    simp only [others_some, List.eraseIdx_eq_take_drop_succ]
    rw [List.zip_append (by simp [h])]
    simp only [List.zip_eq_zipWith, List.take_zipWith, List.drop_zipWith]

theorem length_others {α β : Type} {xs : List α} {ys : List β} (h : xs.length = ys.length)
    (exclude : Option Nat) : (others exclude xs).length = (others exclude ys).length := by
  cases exclude with
  | none => simpa only [others_none]
  | some k => simp only [others_some, List.length_eraseIdx, h]

/-! ## What is pushed for the preimages -/

namespace Openings

/-- The items that stand for the preimages, one for each seat. -/
def pushed (o : Openings) (exclude : Option Nat) : List Bytes :=
  (others exclude o.slots).map (·.getD [])

theorem items_items (o : Openings) (exclude : Option Nat) :
    (o.items exclude).mapM Token.item? = some (o.pushed exclude).reverse := by
  rw [items, pushed, ← List.map_reverse]
  induction (others exclude o.slots).reverse with
  | nil => rfl
  | cons slot slots ih =>
    rw [List.map_cons, List.mapM_cons, ih]
    cases slot <;> rfl

/-- The items of the preimages end up in order, below those of the arguments behind them. -/
theorem items_append (o : Openings) (exclude : Option Nat) {args : List Token}
    (items : List Bytes) (h : args.mapM Token.item? = some items) :
    (o.items exclude ++ args).mapM Token.item? = some ((o.pushed exclude).reverse ++ items) := by
  rw [List.mapM_append, items_items, h]
  rfl

theorem mem_of_get? {o : Openings} {position : Nat} {preimage : Bytes}
    (h : o.get? position = some preimage) : some preimage ∈ o.slots :=
  List.mem_of_getElem? (Option.join_eq_some_iff.1 h)

/-- An item is one of the preimages, or stands for one that is missing. -/
theorem mem_items {o : Openings} {exclude : Option Nat} {t : Token} (h : t ∈ o.items exclude) :
    (∃ preimage, some preimage ∈ o.slots ∧ t = .push preimage) ∨ t = .op Opcode.op0 := by
  obtain ⟨slot, hslot, rfl⟩ := List.mem_map.1 h
  have hmem : slot ∈ o.slots := by
    cases exclude with
    | none => simpa [others_none] using hslot
    | some k => exact List.mem_of_mem_eraseIdx (others_some k o.slots ▸ List.mem_reverse.1 hslot)
  cases slot with
  | none => exact .inr rfl
  | some preimage => exact .inl ⟨preimage, hmem, rfl⟩

/-- Every preimage that counts opens the image in its place. -/
theorem count_le_matching {o : Openings} {committee : List Seat}
    (h : o.size = committee.length) (winner : Player) (exclude : Option Nat) :
    o.count committee winner exclude ≤
      matching ((others exclude committee).map (·.image winner)) (o.pushed exclude) := by
  rw [count, others_zip h, matching, pushed, List.zip_map, List.countP_map, ← List.zip_swap,
    List.countP_map]
  refine List.countP_mono_left fun p _ hopens => ?_
  obtain ⟨seat, _ | preimage⟩ := p
  · cases hopens
  · simpa [Seat.opens] using hopens

end Openings

/-- A preimage that announces an outcome opens its image. -/
theorem Seat.hash_of_outcome? {seat : Seat} {preimage : Bytes} {winner : Player}
    (h : seat.outcome? preimage = some winner) : hash160 preimage = seat.image winner :=
  of_decide_eq_true (List.find?_some (p := (seat.opens · preimage)) h)

end Wager
