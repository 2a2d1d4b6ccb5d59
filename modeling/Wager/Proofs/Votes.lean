import Mathlib.Data.Finset.Card
import Wager.Proofs.Thresholds

/-!
# What becomes of a recorded vote

A slot holds one preimage, and one that is accepted takes the place of the one before it. So an
oracle that announces first one outcome and then the other moves its vote from a player to the other
(`Openings.Retracts`). It has then shown preimages of both its images.

**Voters.** The seats that count for a player are a set of places (`Openings.voters`), and the count
is the size of the set. One reveal adds its place to the set or takes it out
(`Openings.voters_of_reveal`), so a series keeps every vote that none of its preimages retracts
(`Openings.voters_subset_replay`).

Main result: `Settlement.keeps_votes`.
-/

namespace Wager

theorem countP_eq_card {α : Type} (p : α → Bool) (xs : List α) :
    xs.countP p = {i ∈ Finset.range xs.length | xs[i]?.any p}.card := by
  have hplaces : xs.countP p = (List.range xs.length).countP fun i => xs[i]?.any p := by
    induction xs with
    | nil => rfl
    | cons x xs ih =>
      rw [List.length_cons, List.range_succ_eq_map, countP_cons_toNat, countP_cons_toNat,
        List.countP_map, ih]
      rfl
  rw [hplaces, List.countP_eq_length_filter, Finset.card_def, Finset.filter_val, Finset.range_val,
    ← Multiset.coe_range, Multiset.filter_coe, Multiset.coe_card]
  simp only [Bool.decide_eq_true]

namespace Seat

variable {seat : Seat} {preimage : Bytes} {winner : Player}

theorem isSome_outcome?_iff (winner : Player) : (seat.outcome? preimage).isSome = true ↔
    hash160 preimage = seat.image winner ∨ hash160 preimage = seat.image winner.other := by
  rw [isSome_outcome?, opens, opens, decide_eq_true_iff, decide_eq_true_iff]
  cases winner with
  | A => rfl
  | B => exact or_comm

/-- A preimage that opens only one image announces that outcome. -/
theorem outcome?_eq_other (hother : hash160 preimage = seat.image winner.other)
    (hclosed : hash160 preimage ≠ seat.image winner) :
    seat.outcome? preimage = some winner.other := by
  have hsome := (isSome_outcome?_iff winner).2 (.inr hother)
  obtain ⟨outcome, houtcome⟩ := Option.isSome_iff_exists.1 hsome
  have hopens := hash_of_outcome? houtcome
  rw [houtcome]
  cases winner <;> cases outcome <;> first | rfl | exact absurd hopens hclosed

end Seat

namespace Openings

variable {o next : Openings} {committee : List Seat} {winner outcome : Player} {position : Nat}
  {preimage : Bytes}

/-! ## The seats that count for a player -/

/-- The places of the seats whose recorded preimage announces that `winner` won. -/
def voters (o : Openings) (committee : List Seat) (winner : Player) : Finset Nat :=
  {position ∈ Finset.range (o.slots.zip committee).length |
    (o.slots.zip committee)[position]?.any fun (slot, seat) => slot.any (seat.opens winner)}

theorem card_voters : (o.voters committee winner).card = o.count committee winner none := by
  rw [count, others_none, countP_eq_card]
  rfl

theorem mem_voters : position ∈ o.voters committee winner ↔
    ∃ seat recorded, committee[position]? = some seat ∧ o.get? position = some recorded ∧
      hash160 recorded = seat.image winner := by
  simp only [voters, Finset.mem_filter, Finset.mem_range, Option.any_eq_true, Prod.exists,
    List.getElem?_zip_eq_some, get?, Option.join_eq_some_iff, Seat.opens, decide_eq_true_iff]
  constructor
  · intro h
    obtain ⟨-, _, seat, ⟨hslot, hseat⟩, recorded, rfl, hopens⟩ := h
    exact ⟨seat, recorded, hseat, hslot, hopens⟩
  · intro h
    obtain ⟨seat, recorded, hseat, hslot, hopens⟩ := h
    refine ⟨?_, some recorded, seat, ⟨hslot, hseat⟩, recorded, rfl, hopens⟩
    have hentry : (o.slots.zip committee)[position]? = some (some recorded, seat) :=
      List.getElem?_zip_eq_some.2 ⟨hslot, hseat⟩
    exact (List.getElem?_eq_some_iff.1 hentry).1

/-- A reveal that is accepted adds its seat to the voters for a player or takes it out. -/
theorem voters_of_reveal {seat : Seat} (hseat : committee[position]? = some seat)
    (h : o.reveal committee position preimage = .ok (outcome, next)) :
    next.voters committee winner =
      if hash160 preimage = seat.image winner then insert position (o.voters committee winner)
      else (o.voters committee winner).erase position := by
  ext other
  rw [mem_voters, get?_of_reveal h]
  by_cases hother : position = other
  · subst hother
    rw [if_pos rfl]
    split
    · next hopens => simp [hseat, hopens]
    · next hclosed => simp [hseat, hclosed]
  · rw [if_neg hother]
    have hne := Ne.symm hother
    split
    · rw [Finset.mem_insert, or_iff_right hne, mem_voters]
    · rw [Finset.mem_erase, and_iff_right hne, mem_voters]

/-! ## Votes that are retracted -/

/-- The preimage would take back the vote that is recorded for `winner`: the seat has shown a
preimage of that player's image, and this one only opens the other. -/
def Retracts (o : Openings) (committee : List Seat) (winner : Player) (position : Nat)
    (preimage : Bytes) : Prop :=
  ∃ seat recorded, committee[position]? = some seat ∧ o.get? position = some recorded ∧
    hash160 recorded = seat.image winner ∧ hash160 preimage = seat.image winner.other ∧
    hash160 preimage ≠ seat.image winner

theorem retracts_of_voter {seat : Seat} (hseat : committee[position]? = some seat)
    (hvoter : position ∈ o.voters committee winner)
    (hother : hash160 preimage = seat.image winner.other)
    (hclosed : hash160 preimage ≠ seat.image winner) :
    o.Retracts committee winner position preimage := by
  obtain ⟨_, recorded, hseat', hslot, hvote⟩ := mem_voters.1 hvoter
  obtain rfl := Option.some.inj (hseat.symm.trans hseat')
  exact ⟨seat, recorded, hseat, hslot, hvote, hother, hclosed⟩

/-- With a slot for each seat, a preimage that takes back a vote is accepted. -/
theorem reveal_of_retracts (hsize : o.size = committee.length)
    (hretracts : o.Retracts committee winner position preimage) :
    ∃ next, o.reveal committee position preimage = .ok (winner.other, next) := by
  obtain ⟨seat, _, hseat, -, -, hother, hclosed⟩ := hretracts
  exact ⟨_, reveal_eq_ok.2 ⟨hsize.symm, seat, hseat, Seat.outcome?_eq_other hother hclosed, rfl⟩⟩

/-- A vote that is retracted goes to the other player. -/
theorem count_of_retracts (hretracts : o.Retracts committee winner position preimage)
    (h : o.reveal committee position preimage = .ok (outcome, next)) :
    next.count committee winner none + 1 = o.count committee winner none ∧
      next.count committee winner.other none = o.count committee winner.other none + 1 := by
  obtain ⟨seat, recorded, hseat, hslot, hvote, hother, hclosed⟩ := hretracts
  have hvoter : position ∈ o.voters committee winner :=
    mem_voters.2 ⟨seat, recorded, hseat, hslot, hvote⟩
  -- Otherwise the two images are equal, and the new preimage opens both.
  have hnew : position ∉ o.voters committee winner.other := by
    intro hmem
    obtain ⟨_, _, hseat', hslot', hvote'⟩ := mem_voters.1 hmem
    obtain rfl := Option.some.inj (hseat.symm.trans hseat')
    obtain rfl := Option.some.inj (hslot.symm.trans hslot')
    exact hclosed (hother.trans (hvote'.symm.trans hvote))
  simp only [← card_voters, voters_of_reveal hseat h, if_pos hother, if_neg hclosed]
  exact ⟨Finset.card_erase_add_one hvoter, Finset.card_insert_of_notMem hnew⟩

/-- Voters stay voters if their votes are not retracted. -/
theorem voters_subset_of_reveal {voters : Finset Nat} (hvoters : voters ⊆ o.voters committee winner)
    (hkept : position ∈ voters → ¬ o.Retracts committee winner position preimage)
    (h : o.reveal committee position preimage = .ok (outcome, next)) :
    voters ⊆ next.voters committee winner := by
  obtain ⟨-, seat, hseat, houtcome, -⟩ := reveal_eq_ok.1 h
  rw [voters_of_reveal hseat h]
  split
  · exact hvoters.trans (Finset.subset_insert ..)
  · next hclosed =>
    have hopens := (Seat.isSome_outcome?_iff winner).1 (Option.isSome_iff_exists.2 ⟨_, houtcome⟩)
    have hother := hopens.resolve_left hclosed
    have hout : position ∉ voters := fun hmem =>
      hkept hmem (retracts_of_voter hseat (hvoters hmem) hother hclosed)
    exact Finset.subset_erase.2 ⟨hvoters, hout⟩

theorem count_le_of_reveal (hkept : ¬ o.Retracts committee winner position preimage)
    (h : o.reveal committee position preimage = .ok (outcome, next)) :
    o.count committee winner none ≤ next.count committee winner none := by
  rw [← card_voters, ← card_voters]
  exact Finset.card_le_card (voters_subset_of_reveal Finset.Subset.rfl (fun _ => hkept) h)

/-- A reveal that is accepted takes no vote from both players together. -/
theorem count_add_le_of_reveal (h : o.reveal committee position preimage = .ok (outcome, next)) :
    o.count committee .A none + o.count committee .B none ≤
      next.count committee .A none + next.count committee .B none := by
  have hmoves (winner : Player) (hretracts : o.Retracts committee winner position preimage) :=
    count_of_retracts hretracts h
  by_cases hA : o.Retracts committee .A position preimage
  · have hmoved := hmoves .A hA
    simp only [Player.other] at hmoved
    omega
  · have hkeptA := count_le_of_reveal hA h
    by_cases hB : o.Retracts committee .B position preimage
    · have hmoved := hmoves .B hB
      simp only [Player.other] at hmoved
      omega
    · have hkeptB := count_le_of_reveal hB h
      omega

/-! ## Votes over a series -/

/-- Whoever was a voter and retracts later retracts the vote of then. -/
theorem Retracts.of_voter {later : Openings} (hvoter : position ∈ o.voters committee winner)
    (h : later.Retracts committee winner position preimage) :
    o.Retracts committee winner position preimage := by
  obtain ⟨seat, _, hseat, -, -, hother, hclosed⟩ := h
  exact retracts_of_voter hseat hvoter hother hclosed

variable {reveals : List (Nat × Bytes)}

theorem voters_subset_replay
    (hkept : ∀ entry ∈ reveals, ¬ o.Retracts committee winner entry.1 entry.2) :
    o.voters committee winner ⊆ (o.replay committee reveals).voters committee winner := by
  refine replay_induction (P := fun later => o.voters committee winner ⊆
    later.voters committee winner) (fun hmem hvoters h => ?_) Finset.Subset.rfl
  exact voters_subset_of_reveal hvoters (fun hvoter hretracts =>
    hkept _ hmem (hretracts.of_voter hvoter)) h

theorem count_add_le_replay (reveals : List (Nat × Bytes)) :
    o.count committee .A none + o.count committee .B none ≤
      (o.replay committee reveals).count committee .A none +
        (o.replay committee reveals).count committee .B none :=
  replay_induction (P := fun later => o.count committee .A none + o.count committee .B none ≤
    later.count committee .A none + later.count committee .B none)
    (fun _ hle h => hle.trans (count_add_le_of_reveal h)) (Nat.le_refl _)

end Openings

/-! ## The threshold -/

namespace Settlement

/-- A preimage that retracts a vote is accepted and moves it to the other player, and any other
preimage that is accepted leaves a player at least the count it had. So no series takes a vote from
both players together, and one that retracts no vote for a player leaves a threshold reached. -/
theorem keeps_votes (s : Settlement) (o : Openings) :
    (∀ {winner position preimage}, o.size = s.committee.length →
      o.Retracts s.committee winner position preimage →
        ∃ next, o.reveal s.committee position preimage = .ok (winner.other, next) ∧
          next.count s.committee winner none + 1 = o.count s.committee winner none ∧
          next.count s.committee winner.other none =
            o.count s.committee winner.other none + 1) ∧
    (∀ {winner position preimage outcome next},
      o.reveal s.committee position preimage = .ok (outcome, next) →
      ¬ o.Retracts s.committee winner position preimage →
        o.count s.committee winner none ≤ next.count s.committee winner none) ∧
    (∀ reveals, o.count s.committee .A none + o.count s.committee .B none ≤
      (o.replay s.committee reveals).count s.committee .A none +
        (o.replay s.committee reveals).count s.committee .B none) ∧
    ∀ {winner reveals},
      (∀ entry ∈ reveals, ¬ o.Retracts s.committee winner entry.1 entry.2) →
        o.count s.committee winner none ≤
          (o.replay s.committee reveals).count s.committee winner none ∧
        (s.checkMatches o winner none = .ok () →
          s.checkMatches (o.replay s.committee reveals) winner none = .ok ()) := by
  refine ⟨?retracted, fun h hkept => Openings.count_le_of_reveal hkept h,
    Openings.count_add_le_replay, ?series⟩
  case retracted =>
    intro winner position preimage hsize hretracts
    obtain ⟨next, hreveal⟩ := Openings.reveal_of_retracts hsize hretracts
    exact ⟨next, hreveal, Openings.count_of_retracts hretracts hreveal⟩
  case series =>
    intro winner reveals hkept
    have hle : o.count s.committee winner none ≤
        (o.replay s.committee reveals).count s.committee winner none := by
      rw [← Openings.card_voters, ← Openings.card_voters]
      exact Finset.card_le_card (Openings.voters_subset_replay hkept)
    refine ⟨hle, fun hreached => ?_⟩
    obtain ⟨hsize, hcount⟩ := checkMatches_eq_ok.1 hreached
    exact checkMatches_eq_ok.2 ⟨(Openings.size_replay reveals).trans hsize, hcount.trans hle⟩

/-! ### An oracle that announces both outcomes -/

/-- A bet that one oracle decides, with a preimage known for each outcome. -/
def wavering : Settlement := { idle with committee := Contract.greedy.committee }

theorem opens_of_wavering {seat : Seat} (hseat : seat ∈ wavering.committee) :
    seat.opens .A [0] = true ∧ seat.opens .A [1] = false ∧ seat.opens .B [1] = true := by
  have hne : hash160 [1] ≠ hash160 [0] := by
    rw [hash160_eq, hash160_eq]
    decide +kernel
  obtain rfl := List.mem_singleton.1 hseat
  exact ⟨decide_eq_true rfl, decide_eq_false hne, decide_eq_true rfl⟩

theorem reveals_wavering :
    (Openings.new 1).reveal wavering.committee 0 [0] = .ok (.A, ⟨[some [0]]⟩) ∧
      Openings.reveal ⟨[some [0]]⟩ wavering.committee 0 [1] = .ok (.B, ⟨[some [1]]⟩) := by
  have houtcomes : ∀ seat ∈ wavering.committee,
      seat.outcome? [0] = some .A ∧ seat.outcome? [1] = some .B := by
    intro seat hseat
    obtain ⟨hfirst, hclosed, hsecond⟩ := opens_of_wavering hseat
    simp [Seat.outcome?, Player.all, hfirst, hclosed, hsecond]
  exact ⟨Openings.reveal_eq_ok.2 ⟨rfl, _, rfl, (houtcomes _ List.mem_cons_self).1, rfl⟩,
    Openings.reveal_eq_ok.2 ⟨rfl, _, rfl, (houtcomes _ List.mem_cons_self).2, rfl⟩⟩

theorem replay_wavering :
    (Openings.new 1).replay wavering.committee [(0, [0])] = ⟨[some [0]]⟩ :=
  Openings.replay_cons_of_ok reveals_wavering.1 []

theorem count_wavering :
    Openings.count ⟨[some [0]]⟩ wavering.committee .A none = 1 ∧
      Openings.count ⟨[some [1]]⟩ wavering.committee .A none = 0 := by
  have hcount (preimage : Bytes) (seat : Seat) :
      Openings.count ⟨[some preimage]⟩ [seat] .A none = (seat.opens .A preimage).toNat :=
    (Openings.count_cons preimage [] seat [] .A).trans (Nat.zero_add _)
  obtain ⟨hfirst, hclosed, -⟩ := opens_of_wavering List.mem_cons_self
  exact ⟨(hcount [0] _).trans (by rw [hfirst, Bool.toNat_true]),
    (hcount [1] _).trans (by rw [hclosed, Bool.toNat_false])⟩

theorem wavering_keeps : ∃ o next, (Openings.new 1).replay wavering.committee [(0, [0])] = o ∧
    o.reveal wavering.committee 0 [1] = .ok (.B, next) ∧
    next.count wavering.committee .A none + 1 = o.count wavering.committee .A none ∧
    next.count wavering.committee .B none = o.count wavering.committee .B none + 1 ∧
    wavering.checkMatches o .A none = .ok () ∧
    wavering.checkMatches (o.replay wavering.committee [(0, [0]), (1, [1])]) .A none = .ok () := by
  obtain ⟨-, hclosed, -⟩ := opens_of_wavering List.mem_cons_self
  have hretracts : Openings.Retracts ⟨[some [0]]⟩ wavering.committee .A 0 [1] :=
    ⟨_, [0], rfl, rfl, rfl, rfl, of_decide_eq_false hclosed⟩
  have hreached : wavering.checkMatches ⟨[some [0]]⟩ .A none = .ok () :=
    checkMatches_eq_ok.2 ⟨rfl, by rw [count_wavering.1]; decide⟩
  -- The seat repeats its first preimage, and there is no other seat.
  have hkept : ∀ entry ∈ [((0 : Nat), ([0] : Bytes)), (1, [1])],
      ¬ Openings.Retracts ⟨[some [0]]⟩ wavering.committee .A entry.1 entry.2 := by
    intro entry hentry hretracts
    obtain ⟨seat, _, hseat, -, -, -, hother⟩ := hretracts
    rcases List.mem_pair.1 hentry with rfl | rfl
    · obtain rfl := Option.some.inj hseat
      exact hother rfl
    · cases hseat
  obtain ⟨hstep, -, -, hseries⟩ := keeps_votes wavering ⟨[some [0]]⟩
  obtain ⟨next, hreveal, hloses, hgains⟩ := hstep rfl hretracts
  exact ⟨_, next, replay_wavering, hreveal, hloses, hgains, hreached, (hseries hkept).2 hreached⟩

/-- The threshold that player A had reached is lost. -/
theorem wavering_loses : ∃ o next, (Openings.new 1).replay wavering.committee [(0, [0])] = o ∧
    o.reveal wavering.committee 0 [1] = .ok (.B, next) ∧
    o.count wavering.committee .A none = 1 ∧ next.count wavering.committee .A none = 0 ∧
    wavering.checkMatches o .A none = .ok () ∧ wavering.checkMatches next .A none ≠ .ok () := by
  refine ⟨_, _, replay_wavering, reveals_wavering.2, count_wavering.1, count_wavering.2, ?_, ?_⟩
  · exact checkMatches_eq_ok.2 ⟨rfl, by rw [count_wavering.1]; decide⟩
  · intro hreached
    have hfew := (checkMatches_eq_ok.1 hreached).2
    rw [count_wavering.2] at hfew
    exact absurd hfew (by decide)

end Settlement

end Wager
