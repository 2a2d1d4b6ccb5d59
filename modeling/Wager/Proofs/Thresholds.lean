import Wager.Proofs.Paths

/-!
# How far both players get with the same openings

**Recorded preimages.** A call writes one slot or, when it is refused, none
(`Openings.eq_of_refused`). Whatever is revealed, in whatever order, each slot that is filled holds
a preimage that announces an outcome for its seat (`Openings.Opens`). One reveal keeps this, so a
whole series does (`Openings.opens_replay`).

**The sum of the counts.** A recorded preimage counts for the player whose image it opens. It counts
for both when its seat is *ambiguous*: its two images are equal, which no check forbids. So the two
counts add up to the number of filled slots plus the number of ambiguous seats among them
(`Openings.count_add_count`).

Main results: a threshold of more than half leaves at most one winner when no seat is ambiguous
(`Settlement.exists_refused`); in general an ambiguous seat is one more that both can use, and the
bound that follows is sharp (`Settlement.both_reach`).
-/

namespace Wager

theorem countP_cons_toNat {α : Type} (p : α → Bool) (x : α) (xs : List α) :
    (x :: xs).countP p = xs.countP p + (p x).toNat := by
  rw [List.countP_cons]
  cases p x <;> rfl

/-- Tests that hold equally often of each element hold equally often of the list. -/
theorem countP_add_countP {α : Type} {p q r s : α → Bool} {xs : List α}
    (h : ∀ x ∈ xs, (p x).toNat + (q x).toNat = (r x).toNat + (s x).toNat) :
    xs.countP p + xs.countP q = xs.countP r + xs.countP s := by
  induction xs with
  | nil => rfl
  | cons x xs ih =>
    have hx := h x List.mem_cons_self
    have hxs := ih fun y hy => h y (List.mem_cons_of_mem x hy)
    simp only [countP_cons_toNat]
    omega

/-! ## What one reveal does -/

namespace Seat

/-- The secrets are preimages of both images. -/
def OpenedBy (s : Seat) (secrets : Sides Bytes) : Prop :=
  ∀ winner, hash160 (secrets.get winner) = s.image winner

/-- The two images are equal, so that no preimage tells the outcomes apart. -/
def isAmbiguous (s : Seat) : Bool := s.images.a = s.images.b

/-- A preimage opens one of the images exactly if it announces an outcome. -/
theorem isSome_outcome? {seat : Seat} {preimage : Bytes} :
    (seat.outcome? preimage).isSome = true ↔
      seat.opens .A preimage = true ∨ seat.opens .B preimage = true := by
  simp [outcome?, Player.all]

/-- A preimage that opens an image counts once, and twice if the images are equal. -/
theorem opens_add_opens {seat : Seat} {preimage : Bytes}
    (h : (seat.outcome? preimage).isSome = true) :
    (seat.opens .A preimage).toNat + (seat.opens .B preimage).toNat =
      1 + seat.isAmbiguous.toNat := by
  have hA : seat.opens .A preimage = decide (hash160 preimage = seat.images.a) := rfl
  have hB : seat.opens .B preimage = decide (hash160 preimage = seat.images.b) := rfl
  rcases isSome_outcome?.1 h with h | h
  · rw [hA, decide_eq_true_iff] at h
    simp [hA, hB, h, isAmbiguous]
  · rw [hB, decide_eq_true_iff] at h
    simp [hA, hB, h, isAmbiguous, eq_comm, Nat.add_comm]

end Seat

namespace Openings

variable {o next : Openings} {committee : List Seat} {position : Nat} {preimage : Bytes}

theorem reveal_eq_map : o.reveal committee position preimage =
    ((record committee position preimage).resultIn o).1.map
      (·, ((record committee position preimage).resultIn o).2) := rfl

theorem gives_record_iff {outcome : Player} :
    (record committee position preimage).Gives o outcome next ↔
      o.reveal committee position preimage = .ok (outcome, next) := by
  rw [Exchange.Gives, reveal_eq_map]
  rcases (record committee position preimage).resultIn o with ⟨fault | outcome', next'⟩
  · simp [Except.map]
  · simp [Except.map]

/-- A call that is accepted has filled the slot at its place. -/
theorem reveal_eq_ok {outcome : Player} :
    o.reveal committee position preimage = .ok (outcome, next) ↔
      committee.length = o.size ∧ ∃ seat, committee[position]? = some seat ∧
        seat.outcome? preimage = some outcome ∧
        next = ⟨o.slots.set position (some preimage)⟩ := by
  have hget : (get : Exchange Openings Openings).Gives o o o := rfl
  rw [← gives_record_iff, Exchange.Gives, record, Exchange.resultIn_bind_of_gives hget]
  constructor
  · intro h
    obtain ⟨hlen, h⟩ := Exchange.gives_unless.1 h
    obtain ⟨seat, hseat, h⟩ := Exchange.gives_lift_bind.1 h
    obtain ⟨_, houtcome, h⟩ := Exchange.gives_lift_bind.1 h
    obtain ⟨_, _, ⟨⟩, h⟩ := Exchange.gives_bind.1 h
    obtain ⟨rfl, rfl⟩ := Exchange.gives_pure.1 h
    exact ⟨not_not.1 hlen, seat, Outcome.need_eq_ok.1 hseat, Outcome.need_eq_ok.1 houtcome, rfl⟩
  · intro h
    obtain ⟨hlen, seat, hseat, houtcome, rfl⟩ := h
    refine Exchange.gives_unless.2 ⟨not_not.2 hlen, ?_⟩
    refine Exchange.gives_lift_bind.2 ⟨seat, Outcome.need_eq_ok.2 hseat, ?_⟩
    exact Exchange.gives_lift_bind.2 ⟨outcome, Outcome.need_eq_ok.2 houtcome, rfl⟩

/-- A call that is refused leaves what was recorded, as nothing is written before the last check. -/
theorem eq_of_refused {fault : Fault}
    (h : (record committee position preimage).resultIn o = (.error fault, next)) : next = o := by
  have hget : (get : Exchange Openings Openings).Gives o o o := rfl
  rw [record, Exchange.resultIn_bind_of_gives hget, Exchange.resultIn_unless] at h
  split at h
  · exact (Prod.mk.inj h).2.symm
  rcases Exchange.resultIn_lift_bind_eq_error.1 h with ⟨-, rfl⟩ | ⟨seat, -, h⟩
  · rfl
  rcases Exchange.resultIn_lift_bind_eq_error.1 h with ⟨-, rfl⟩ | ⟨outcome, -, h⟩
  · rfl
  -- What is left of the call is accepted.
  · cases h

/-- What a call comes to, and what it leaves. -/
theorem resultIn_record : (record committee position preimage).resultIn o =
    match o.reveal committee position preimage with
    | .ok (outcome, next) => (.ok outcome, next)
    | .error fault => (.error fault, o) := by
  rcases hcall : (record committee position preimage).resultIn o with ⟨fault | outcome, next⟩
  · obtain rfl := eq_of_refused hcall
    rw [reveal_eq_map, hcall]
    rfl
  · rw [gives_record_iff.1 hcall]

/-- Every recorded preimage opens an image of its seat. -/
def Opens (o : Openings) (committee : List Seat) : Prop :=
  ∀ position preimage, o.get? position = some preimage → ∃ seat, committee[position]? = some seat ∧
    (seat.outcome? preimage).isSome = true

theorem opens_new (committee : List Seat) (seats : Nat) : (new seats).Opens committee := by
  intro position preimage h
  rw [get?, new, List.getElem?_replicate] at h
  split at h <;> cases h

/-- A reveal that is accepted fills its slot and leaves the others alone. -/
theorem get?_of_reveal {outcome : Player}
    (h : o.reveal committee position preimage = .ok (outcome, next)) (other : Nat) :
    next.get? other = if position = other then some preimage else o.get? other := by
  obtain ⟨hlen, seat, hseat, -, rfl⟩ := reveal_eq_ok.1 h
  have hlt : position < o.slots.length := by
    rw [size] at hlen
    exact hlen ▸ (List.getElem?_eq_some_iff.1 hseat).1
  by_cases hother : position = other
  · subst hother
    rw [get?, List.getElem?_set_self hlt, Option.join_some, if_pos rfl]
  · rw [get?, List.getElem?_set_ne hother, if_neg hother, get?]

theorem size_of_reveal {outcome : Player}
    (h : o.reveal committee position preimage = .ok (outcome, next)) : next.size = o.size := by
  obtain ⟨-, _, -, -, rfl⟩ := reveal_eq_ok.1 h
  simp [size]

theorem opens_of_reveal {outcome : Player} (ho : o.Opens committee)
    (h : o.reveal committee position preimage = .ok (outcome, next)) : next.Opens committee := by
  intro other recorded hget
  rw [get?_of_reveal h] at hget
  split at hget
  · next hother =>
    obtain rfl := Option.some.inj hget
    obtain ⟨-, seat, hseat, houtcome, -⟩ := reveal_eq_ok.1 h
    exact ⟨seat, hother ▸ hseat, by rw [houtcome]; rfl⟩
  · exact ho other recorded hget

/-! ## Series of reveals -/

theorem replay_cons (reveals : List (Nat × Bytes)) :
    o.replay committee ((position, preimage) :: reveals) =
      ((record committee position preimage).resultIn o).2.replay committee reveals := rfl

theorem replay_cons_of_ok {outcome : Player}
    (h : o.reveal committee position preimage = .ok (outcome, next))
    (reveals : List (Nat × Bytes)) :
    o.replay committee ((position, preimage) :: reveals) = next.replay committee reveals := by
  rw [replay_cons, resultIn_record, h]

theorem replay_cons_of_error {fault : Fault}
    (h : o.reveal committee position preimage = .error fault) (reveals : List (Nat × Bytes)) :
    o.replay committee ((position, preimage) :: reveals) = o.replay committee reveals := by
  rw [replay_cons, resultIn_record, h]

/-- What every reveal that is accepted keeps, a series keeps. -/
theorem replay_induction {P : Openings → Prop} {reveals : List (Nat × Bytes)}
    (hstep : ∀ {o next : Openings} {position preimage outcome}, (position, preimage) ∈ reveals →
      P o → o.reveal committee position preimage = .ok (outcome, next) → P next) (ho : P o) :
    P (o.replay committee reveals) := by
  induction reveals generalizing o with
  | nil => exact ho
  | cons entry reveals ih =>
    obtain ⟨position, preimage⟩ := entry
    have hrest {o : Openings} (ho : P o) : P (o.replay committee reveals) :=
      ih (fun hmem => hstep (List.mem_cons_of_mem _ hmem)) ho
    cases h : o.reveal committee position preimage with
    | error fault =>
      rw [replay_cons_of_error h]
      exact hrest ho
    | ok result =>
      rw [replay_cons_of_ok h]
      exact hrest (hstep List.mem_cons_self ho h)

theorem size_replay (reveals : List (Nat × Bytes)) :
    (o.replay committee reveals).size = o.size :=
  replay_induction (fun _ hsize h => (size_of_reveal h).trans hsize) rfl

theorem opens_replay (ho : o.Opens committee) (reveals : List (Nat × Bytes)) :
    (o.replay committee reveals).Opens committee :=
  replay_induction (fun _ => opens_of_reveal) ho

/-! ## The sum of the counts -/

/-- The number of recorded preimages. -/
def filled (o : Openings) : Nat := o.slots.countP (·.isSome)

/-- The number of ambiguous seats that were opened. -/
def doubled (o : Openings) (committee : List Seat) : Nat :=
  (o.slots.zip committee).countP fun (slot, seat) => slot.isSome && seat.isAmbiguous

theorem count_add_count (ho : o.Opens committee) (hsize : o.size = committee.length) :
    o.count committee .A none + o.count committee .B none = o.filled + o.doubled committee := by
  have hfilled : o.filled = (o.slots.zip committee).countP (·.1.isSome) := by
    have hslots : (o.slots.zip committee).map Prod.fst = o.slots :=
      List.map_fst_zip (Nat.le_of_eq hsize)
    rw [filled, ← hslots, List.countP_map, hslots]
    rfl
  rw [hfilled, doubled, count, count, others_none]
  refine countP_add_countP fun entry hentry => ?_
  obtain ⟨slot, seat⟩ := entry
  cases slot with
  | none => rfl
  | some preimage =>
    obtain ⟨position, hposition⟩ := List.mem_iff_getElem?.1 hentry
    obtain ⟨hslot, hseat⟩ := List.getElem?_zip_eq_some.1 hposition
    obtain ⟨seat', hseat', hopens⟩ := ho position preimage (by rw [get?, hslot]; rfl)
    obtain rfl := Option.some.inj (hseat.symm.trans hseat')
    simpa using Seat.opens_add_opens hopens

theorem filled_le_size (o : Openings) : o.filled ≤ o.size := List.countP_le_length

theorem count_le_length (o : Openings) (committee : List Seat) (winner : Player) :
    o.count committee winner none ≤ committee.length := by
  refine Nat.le_trans List.countP_le_length ?_
  rw [others_none, List.length_zip]
  exact Nat.min_le_right ..

theorem doubled_le (hsize : o.size = committee.length) :
    o.doubled committee ≤ committee.countP Seat.isAmbiguous := by
  have hseats : (o.slots.zip committee).map Prod.snd = committee :=
    List.map_snd_zip (Nat.le_of_eq hsize.symm)
  conv => rhs; rw [← hseats, List.countP_map]
  refine List.countP_mono_left fun entry _ h => ?_
  exact (Bool.and_eq_true_iff.1 h).2

/-! ## Filling all slots -/

/-- Preimages that are revealed seat after seat fill the slots behind those already filled. -/
theorem replay_zipIdx (front : List Seat) {rest : List Seat} (filled : List Bytes)
    {preimages : List Bytes}
    (hfilled : filled.length = front.length)
    (h : List.Forall₂ (fun seat preimage => (seat.outcome? preimage).isSome = true)
      rest preimages) :
    replay (front ++ rest) ⟨filled.map some ++ List.replicate rest.length none⟩
        ((preimages.zipIdx filled.length).map Prod.swap) =
      ⟨(filled ++ preimages).map some⟩ := by
  induction h generalizing front filled with
  | nil => simp [replay]
  | @cons seat preimage rest preimages hopens hrest ih =>
    obtain ⟨outcome, houtcome⟩ := Option.isSome_iff_exists.1 hopens
    have hreveal : reveal ⟨filled.map some ++ List.replicate (rest.length + 1) none⟩
        (front ++ seat :: rest) filled.length preimage =
          .ok (outcome, ⟨(filled ++ [preimage]).map some ++ List.replicate rest.length none⟩) := by
      refine reveal_eq_ok.2 ⟨?_, seat, ?_, houtcome, ?_⟩
      · simp [size, hfilled]
      · simp [hfilled]
      · simp [List.replicate_succ]
    have hnext := ih (front ++ [seat]) (filled ++ [preimage]) (by simp [hfilled])
    simp only [List.append_assoc, List.singleton_append, List.length_append,
      List.length_singleton] at hnext
    rw [← hnext]
    exact replay_cons_of_ok hreveal _

theorem count_cons (preimage : Bytes) (preimages : List Bytes) (seat : Seat)
    (committee : List Seat) (winner : Player) :
    count ⟨(preimage :: preimages).map some⟩ (seat :: committee) winner none =
      count ⟨preimages.map some⟩ committee winner none + (seat.opens winner preimage).toNat := by
  simp only [count, others_none, List.map_cons, List.zip_cons_cons, countP_cons_toNat,
    Option.any_some]

/-- There are preimages for all seats with which the counts of the players are at least `a` and
`b`. -/
def Reachable (committee : List Seat) (a b : Nat) : Prop :=
  ∃ preimages, List.Forall₂ (fun seat preimage => (seat.outcome? preimage).isSome = true)
      committee preimages ∧
    a ≤ count ⟨preimages.map some⟩ committee .A none ∧
    b ≤ count ⟨preimages.map some⟩ committee .B none

/-- One more seat adds what its preimage opens. -/
theorem reachable_cons {seat : Seat} {a b a' b' : Nat} {preimage : Bytes}
    (hopens : seat.opens .A preimage = true ∨ seat.opens .B preimage = true)
    (ha : a ≤ a' + (seat.opens .A preimage).toNat) (hb : b ≤ b' + (seat.opens .B preimage).toNat)
    (h : Reachable committee a' b') : Reachable (seat :: committee) a b := by
  obtain ⟨preimages, hall, hcountA, hcountB⟩ := h
  refine ⟨preimage :: preimages, .cons (Seat.isSome_outcome?.2 hopens) hall, ?_, ?_⟩
  · rw [count_cons]
    omega
  · rw [count_cons]
    omega

/-- What both players can reach together if all preimages are known: a seat with equal images is one
for each of them, any other seat one for either. -/
theorem reachable_of_known {known : List (Sides Bytes)}
    (h : List.Forall₂ Seat.OpenedBy committee known) {a b : Nat} (ha : a ≤ committee.length)
    (hb : b ≤ committee.length)
    (hab : a + b ≤ committee.length + committee.countP Seat.isAmbiguous) :
    Reachable committee a b := by
  induction h generalizing a b with
  | nil => exact ⟨[], .nil, ha, hb⟩
  | @cons seat secrets committee known hseat hrest ih =>
    have hA : seat.opens .A secrets.a = true := decide_eq_true (hseat .A)
    have hB : seat.opens .B secrets.b = true := decide_eq_true (hseat .B)
    have hambiguous := List.countP_le_length (p := Seat.isAmbiguous) (l := committee)
    simp only [List.length_cons, List.countP_cons] at ha hb hab
    split at hab
    · next hequal =>
      rw [Seat.isAmbiguous, decide_eq_true_iff] at hequal
      have hboth : seat.opens .B secrets.a = true := decide_eq_true ((hseat .A).trans hequal)
      have hreach : Reachable committee (a - 1) (b - 1) := ih (by omega) (by omega) (by omega)
      refine reachable_cons (.inl hA) ?_ ?_ hreach
      · rw [hA, Bool.toNat_true]
        omega
      · rw [hboth, Bool.toNat_true]
        omega
    · next hdistinct =>
      -- The seat goes to player B when A needs nothing more, or B needs every seat that is left.
      by_cases htake : a = 0 ∨ b = committee.length + 1
      · have hreach : Reachable committee a (b - 1) := ih (by omega) (by omega) (by omega)
        refine reachable_cons (.inr hB) (Nat.le_add_right ..) ?_ hreach
        rw [hB, Bool.toNat_true]
        omega
      · have hreach : Reachable committee (a - 1) b := ih (by omega) (by omega) (by omega)
        refine reachable_cons (.inl hA) ?_ (Nat.le_add_right ..) hreach
        rw [hA, Bool.toNat_true]
        omega

end Openings

/-! ## Two winners -/

namespace Settlement

theorem bound_of_both {s : Settlement} {seats : Nat} {reveals : List (Nat × Bytes)}
    (h : ∀ winner,
      s.checkMatches ((Openings.new seats).replay s.committee reveals) winner none = .ok ()) :
    s.bet.required.toNat ≤ s.committee.length ∧
      2 * s.bet.required.toNat ≤
        s.committee.length + s.committee.countP Seat.isAmbiguous := by
  have hopens := Openings.opens_replay (Openings.opens_new s.committee seats) reveals
  obtain ⟨hsize, hA⟩ := checkMatches_eq_ok.1 (h .A)
  have hB := (checkMatches_eq_ok.1 (h .B)).2
  have hsum := Openings.count_add_count hopens hsize
  have hfilled := ((Openings.new seats).replay s.committee reveals).filled_le_size
  have hdoubled := Openings.doubled_le hsize
  exact ⟨Nat.le_trans hA (Openings.count_le_length ..), by omega⟩

/-- With two different images at each seat and a threshold of more than half, one of the players is
refused. -/
theorem exists_refused {s : Settlement} (hdistinct : ∀ seat ∈ s.committee, ¬ seat.isAmbiguous)
    (hmajority : s.committee.length < 2 * s.bet.required.toNat) (seats : Nat)
    (reveals : List (Nat × Bytes)) : ∃ winner,
      s.checkMatches ((Openings.new seats).replay s.committee reveals) winner none ≠ .ok () := by
  by_contra hboth
  have hroom := (bound_of_both fun winner => by_contra fun h => hboth ⟨winner, h⟩).2
  rw [List.countP_eq_zero.2 hdistinct] at hroom
  omega

/-- Both players can reach the threshold with the same openings only if ambiguous seats make up for
what the committee lacks of twice the threshold, and with all preimages known they can. -/
theorem both_reach (s : Settlement) :
    (∀ seats reveals, (∀ winner,
        s.checkMatches ((Openings.new seats).replay s.committee reveals) winner none = .ok ()) →
      s.bet.required.toNat ≤ s.committee.length ∧ 2 * s.bet.required.toNat ≤
        s.committee.length + s.committee.countP Seat.isAmbiguous) ∧
    (∀ known, List.Forall₂ Seat.OpenedBy s.committee known →
      s.bet.required.toNat ≤ s.committee.length → 2 * s.bet.required.toNat ≤
        s.committee.length + s.committee.countP Seat.isAmbiguous →
      ∃ reveals, ∀ winner, s.checkMatches
        ((Openings.new s.committee.length).replay s.committee reveals) winner none = .ok ()) := by
  refine ⟨fun _ _ h => bound_of_both h, fun known hknown hle hroom => ?_⟩
  obtain ⟨preimages, hall, hA, hB⟩ :=
    Openings.reachable_of_known hknown hle hle (by omega)
  have hreplay : (Openings.new s.committee.length).replay s.committee
      (preimages.zipIdx.map Prod.swap) = ⟨preimages.map some⟩ :=
    Openings.replay_zipIdx [] [] rfl hall
  refine ⟨preimages.zipIdx.map Prod.swap, fun winner => checkMatches_eq_ok.2 ?_⟩
  rw [hreplay]
  refine ⟨by simp [Openings.size, hall.length_eq], ?_⟩
  cases winner with
  | A => exact hA
  | B => exact hB

/-- A committee of one, with the same image for both outcomes. -/
def undecided : Settlement where
  bet := idle.bet
  committee := idle.committee.map fun seat => ⟨seat.oracle, ⟨hash160 [0], hash160 [0]⟩⟩
  config := idle.config

theorem undecided_reach : idle.bet.check = .ok () ∧
    new undecided.config undecided.bet undecided.committee = .ok undecided ∧
    undecided.committee.length < 2 * undecided.bet.required.toNat ∧
    ∃ reveals, ∀ winner, undecided.checkMatches
      ((Openings.new undecided.committee.length).replay undecided.committee reveals) winner none =
        .ok () := by
  have hambiguous : undecided.committee.countP Seat.isAmbiguous = 1 := by
    simp [undecided, idle, Contract.greedy, Seat.isAmbiguous]
  refine ⟨by decide, ?_, by decide, ?_⟩
  · refine Outcome.bind_eq_ok.2 ⟨(), rfl, Outcome.bind_eq_ok.2 ⟨(), ?_, rfl⟩⟩
    decide
  · refine (both_reach undecided).2 [⟨[0], [0]⟩] ?_ (by decide) ?_
    · exact .cons (fun winner => by cases winner <;> rfl) .nil
    · rw [hambiguous]
      decide

end Settlement

end Wager
