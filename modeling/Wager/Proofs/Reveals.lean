import Wager.Proofs.Votes

/-!
# What is recorded of a series of reveals

A call either records its preimage and says which outcome it announces, or it is refused and changes
nothing (`Openings.resultIn_record`). It is accepted exactly if there is a seat at its place one of
whose images the preimage opens, whatever was recorded before.

So a slot holds the preimage of the last call at its place that was accepted
(`Openings.get?_replay_iff`). The items that a script takes come from the slots, the last seat first
(`Openings.items_eq`).

Main result: `Openings.keeps_records`.
-/

namespace Wager

/-- Of a list without one place, what is made of each element is what is made of its place. -/
theorem map_others {α β : Type} {xs : List α} (exclude : Option Nat) {f : α → β} {g : Nat → β}
    (h : ∀ i x, xs[i]? = some x → f x = g i) :
    (others exclude xs).map f = ((List.range xs.length).filter (some · ≠ exclude)).map g := by
  have hplaces : xs.zipIdx.map Prod.snd = List.range xs.length := by
    rw [List.zipIdx_map_snd, List.range_eq_range']
  rw [others, ← hplaces, List.filter_map, List.map_map, List.map_map]
  refine List.map_congr_left fun entry hentry => ?_
  exact h entry.2 entry.1 (List.mem_zipIdx_iff_getElem?.1 (List.mem_of_mem_filter hentry))

namespace Openings

variable {o next start : Openings} {committee : List Seat} {position : Nat} {preimage : Bytes}
  {reveals : List (Nat × Bytes)}

/-! ## One call -/

/-- A series of reveals leaves what its calls leave one after the other. -/
theorem replay_concat : start.replay committee (reveals ++ [(position, preimage)]) =
    ((record committee position preimage).resultIn (start.replay committee reveals)).2 := by
  rw [replay_append, replay_cons]
  rfl

/-- With a slot for each seat, a call is accepted exactly if its preimage opens an image of the seat
at its place. -/
theorem exists_gives_record_iff (hsize : o.size = committee.length) :
    (∃ outcome next, (record committee position preimage).Gives o outcome next) ↔
      ∃ seat, committee[position]? = some seat ∧
        ∃ winner, hash160 preimage = seat.image winner := by
  simp only [gives_record_iff, reveal_eq_ok]
  constructor
  · intro h
    obtain ⟨outcome, _, -, seat, hseat, houtcome, -⟩ := h
    exact ⟨seat, hseat, outcome, Seat.hash_of_outcome? houtcome⟩
  · intro h
    obtain ⟨seat, hseat, winner, hopens⟩ := h
    have hsome := (Seat.isSome_outcome?_iff winner).2 (.inl hopens)
    obtain ⟨outcome, houtcome⟩ := Option.isSome_iff_exists.1 hsome
    exact ⟨outcome, _, hsize.symm, seat, hseat, houtcome, rfl⟩

/-! ## What a slot holds -/

/-- The last call at the place that was accepted in the series had this preimage. -/
inductive LastAccepted (start : Openings) (committee : List Seat) (position : Nat)
    (preimage : Bytes) : List (Nat × Bytes) → Prop
  | here {reveals : List (Nat × Bytes)} {outcome : Player} {next : Openings} :
    (record committee position preimage).Gives (start.replay committee reveals) outcome next →
    LastAccepted start committee position preimage (reveals ++ [(position, preimage)])
  | elsewhere {reveals : List (Nat × Bytes)} {place : Nat} (other : Bytes) :
    place ≠ position → LastAccepted start committee position preimage reveals →
    LastAccepted start committee position preimage (reveals ++ [(place, other)])
  | refused {reveals : List (Nat × Bytes)} {place : Nat} {other : Bytes} {fault : Fault}
    {next : Openings} :
    (record committee place other).resultIn (start.replay committee reveals) =
      (.error fault, next) →
    LastAccepted start committee position preimage reveals →
    LastAccepted start committee position preimage (reveals ++ [(place, other)])

theorem get?_replay_of_lastAccepted
    (h : LastAccepted start committee position preimage reveals) :
    (start.replay committee reveals).get? position = some preimage := by
  induction h with
  | here haccepted =>
    rw [replay_concat, haccepted, get?_of_reveal (gives_record_iff.1 haccepted), if_pos rfl]
  | @elsewhere reveals place other hne _ ih =>
    rw [replay_concat]
    rcases hcall : (record committee place other).resultIn (start.replay committee reveals) with
      ⟨fault | outcome, next⟩
    · rwa [eq_of_refused hcall]
    · rwa [get?_of_reveal (gives_record_iff.1 hcall), if_neg hne]
  | refused hrefused _ ih => rwa [replay_concat, hrefused, eq_of_refused hrefused]

/-- A slot that was empty holds the preimage of the last call at its place that was accepted, and
without such a call it is still empty. -/
theorem get?_replay_iff (hempty : start.get? position = none) :
    (start.replay committee reveals).get? position = some preimage ↔
      LastAccepted start committee position preimage reveals := by
  refine ⟨fun h => ?_, get?_replay_of_lastAccepted⟩
  -- From the end, since the last call decides unless it was refused or went elsewhere.
  induction reveals using List.reverseRecOn generalizing preimage with
  | nil =>
    rw [replay, List.foldl_nil, hempty] at h
    cases h
  | append_singleton reveals entry ih =>
    obtain ⟨place, other⟩ := entry
    rw [replay_concat] at h
    rcases hcall : (record committee place other).resultIn (start.replay committee reveals) with
      ⟨fault | outcome, next⟩
    · rw [hcall, eq_of_refused hcall] at h
      exact .refused hcall (ih h)
    · rw [hcall, get?_of_reveal (gives_record_iff.1 hcall)] at h
      split at h
      · next hplace =>
        obtain rfl := Option.some.inj h
        subst hplace
        exact .here hcall
      · next hplace => exact .elsewhere other hplace (ih h)

/-! ## What a script takes -/

/-- The items stand for the seats that are not left out, the last one first. -/
theorem items_eq (o : Openings) (exclude : Option Nat) : o.items exclude =
    ((List.range o.size).reverse.filter (some · ≠ exclude)).map fun position =>
      match o.get? position with
      | some preimage => .push preimage
      | none => .op Opcode.op0 := by
  rw [items, List.map_reverse, List.filter_reverse, List.map_reverse, size]
  refine congrArg List.reverse (map_others exclude fun position slot hslot => ?_)
  rw [get?, hslot]
  cases slot <;> rfl

/-! ## The record -/

/-- Whatever calls were made with a committee, accepted or not, there is a slot for each seat. The
next call is accepted exactly if there is a seat at its place one of whose images its preimage
opens; it then gives the first outcome that the preimage announces, and otherwise it changes
nothing. Each slot holds the preimage of the last accepted call at its place, which opens an image
of its own seat. The items for a script stand for the seats that are not left out, the last one
first: a push of what the slot holds, or an empty item. -/
theorem keeps_records (committee : List Seat) (reveals : List (Nat × Bytes)) :
    ∃ o, (new committee.length).replay committee reveals = o ∧ o.size = committee.length ∧
      (∀ {position preimage result next},
        (record committee position preimage).resultIn o = (result, next) →
        (new committee.length).replay committee (reveals ++ [(position, preimage)]) = next ∧
        ((∃ outcome, result = .ok outcome) ↔ ∃ seat, committee[position]? = some seat ∧
          ∃ winner, hash160 preimage = seat.image winner) ∧
        (∀ outcome, result = .ok outcome →
          ∃ seat, committee[position]? = some seat ∧ seat.outcome? preimage = some outcome) ∧
        ∀ fault, result = .error fault → next = o) ∧
      (∀ position preimage, o.get? position = some preimage ↔
        LastAccepted (new committee.length) committee position preimage reveals) ∧
      (∀ {position preimage}, o.get? position = some preimage →
        ∃ seat, committee[position]? = some seat ∧ ∃ winner, hash160 preimage = seat.image winner) ∧
      ∀ exclude, o.items exclude =
        ((List.range committee.length).reverse.filter (some · ≠ exclude)).map fun position =>
          match o.get? position with
          | some preimage => .push preimage
          | none => .op Opcode.op0 := by
  have hsize : ((new committee.length).replay committee reveals).size = committee.length := by
    rw [size_replay, new, size, List.length_replicate]
  refine ⟨_, rfl, hsize, ?call, fun position preimage => ?slot, ?opens, fun exclude => ?items⟩
  case call =>
    intro position preimage result next hcall
    refine ⟨by rw [replay_concat, hcall], ?_, fun outcome hresult => ?_, fun fault hresult => ?_⟩
    · rw [← exists_gives_record_iff hsize]
      simp only [Exchange.Gives, hcall, Prod.mk.injEq, exists_and_left, exists_eq', and_true]
    · subst hresult
      obtain ⟨-, seat, hseat, houtcome, -⟩ := reveal_eq_ok.1 (gives_record_iff.1 hcall)
      exact ⟨seat, hseat, houtcome⟩
    · subst hresult
      exact eq_of_refused hcall
  case slot =>
    refine get?_replay_iff ?_
    rw [get?, new, List.getElem?_replicate]
    split <;> rfl
  case opens =>
    intro position preimage hslot
    obtain ⟨seat, hseat, hsome⟩ :=
      opens_replay (opens_new committee committee.length) reveals position preimage hslot
    obtain ⟨winner, hwinner⟩ := Option.isSome_iff_exists.1 hsome
    exact ⟨seat, hseat, winner, Seat.hash_of_outcome? hwinner⟩
  case items => rw [items_eq, hsize]

/-- The seat of a bet that one oracle decides has revealed both its preimages, after a call for a
seat that does not exist. -/
def twice : List (Nat × Bytes) := [(0, [0]), (1, [0]), (0, [1])]

theorem replay_twice : (new 1).replay Settlement.wavering.committee twice = ⟨[some [1]]⟩ := by
  have hnoSeat : reveal ⟨[some [0]]⟩ Settlement.wavering.committee 1 [0] =
      .error (.malformed (.seat 1)) := rfl
  rw [twice, replay_cons_of_ok Settlement.reveals_wavering.1, replay_cons_of_error hnoSeat,
    replay_cons_of_ok Settlement.reveals_wavering.2]
  rfl

theorem stray_of_wavering {seat : Seat} (hseat : Settlement.wavering.committee[0]? = some seat)
    (winner : Player) : hash160 [2] ≠ seat.image winner := by
  have hne : hash160 [2] ≠ hash160 [0] ∧ hash160 [2] ≠ hash160 [1] := by
    simp only [hash160_eq]
    decide +kernel
  obtain rfl := Option.some.inj hseat
  cases winner with
  | A => exact hne.1
  | B => exact hne.2

theorem wavering_recorded : ∃ o, (new 1).replay Settlement.wavering.committee twice = o ∧
    LastAccepted (new 1) Settlement.wavering.committee 0 [1] twice ∧ o.items none = [.push [1]] ∧
    ∃ fault, (record Settlement.wavering.committee 0 [2]).resultIn o = (.error fault, o) := by
  obtain ⟨o, ho, -, hcall, hslot, -, hitems⟩ := keeps_records Settlement.wavering.committee twice
  obtain rfl : ⟨[some [1]]⟩ = o := replay_twice.symm.trans ho
  refine ⟨_, replay_twice, (hslot 0 [1]).1 rfl, hitems none, ?_⟩
  rcases hresult : (record Settlement.wavering.committee 0 [2]).resultIn ⟨[some [1]]⟩ with
    ⟨fault | outcome, next⟩
  · obtain ⟨-, -, -, hkept⟩ := hcall hresult
    exact ⟨fault, by rw [hkept fault rfl]⟩
  · obtain ⟨-, haccepted, -⟩ := hcall hresult
    obtain ⟨seat, hseat, winner, hopens⟩ := haccepted.1 ⟨outcome, rfl⟩
    exact absurd hopens (stray_of_wavering hseat winner)

end Openings

end Wager
