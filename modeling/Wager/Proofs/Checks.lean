import Wager.Proofs.Success
import Wager.Terms.Seat

/-!
# What the checks of a bet say

The terms pass their check exactly if each condition holds (`Bet.check_eq_ok`). The bounds that the
check compares are then at most the number of candidates.

A committee passes the check exactly if the terms admit it (`Bet.checkCommittee_eq_ok`): its size is
within the bounds, and its members are different candidates, none of them a player. If the terms are
coherent it has at least one seat.
-/

namespace Wager.Bet

variable {b : Bet}

theorem check_eq_ok : b.check = .ok () ↔
    ¬ (b.minOracles = 0 ∨ b.maxOracles < b.minOracles) ∧
      ¬ (b.required = 0 ∨ b.minOracles < b.required) ∧ b.players.a ≠ b.players.b ∧
      ¬ b.candidates.length < b.minOracles.toNat ∧
      (∃ seconds, b.timeout.seconds = .ok seconds) ∧
      ∃ share, b.amounts.oracleShare = .ok share := by
  simp only [check, Outcome.unless_eq_ok, Outcome.bind_eq_ok, Outcome.pure_eq_ok, and_true,
    exists_and_right]

/-- The smaller bounds are at most the number of candidates. -/
theorem bounds_le (h : b.check = .ok ()) :
    b.required.toNat ≤ b.candidates.length ∧ b.minOracles.toNat ≤ b.candidates.length := by
  obtain ⟨-, hrequired, -, hcandidates, -⟩ := check_eq_ok.1 h
  have hle : b.required.toNat ≤ b.minOracles.toNat :=
    UInt64.le_iff_toNat_le.1 (UInt64.not_lt.1 (not_or.1 hrequired).2)
  omega

theorem required_pos (h : b.check = .ok ()) : 0 < b.required.toNat := by
  obtain ⟨-, hrequired, -⟩ := check_eq_ok.1 h
  exact Nat.pos_of_ne_zero fun hzero => hrequired (.inl (UInt64.toNat_inj.1 hzero))

/-- The terms admit a committee. -/
structure Admits (b : Bet) (committee : List PublicKey) : Prop where
  enough : b.minOracles.toNat ≤ committee.length
  fits : committee.length ≤ b.maxOracles.toNat
  candidates : ∀ key ∈ committee, key ∈ b.candidates
  distinct : committee.Nodup
  outsiders : ∀ key ∈ committee, key ∉ b.players.toList

/-- Members may follow those already seated if each of them could follow the members before it. -/
theorem checkMembers_eq_ok {seated members : List PublicKey} :
    b.checkMembers seated members = .ok () ↔
      (∀ key ∈ members, key ∈ b.candidates) ∧ members.Nodup ∧ (∀ key ∈ members, key ∉ seated) ∧
        ∀ key ∈ members, key ∉ b.players.toList := by
  induction members generalizing seated with
  | nil => simp [checkMembers]
  | cons member members ih =>
    rw [checkMembers]
    split_ifs with hcandidate hseated hplayer
    · exact iff_of_false Outcome.inconsistent_ne_ok fun h =>
        h.2.2.1 member List.mem_cons_self hseated
    · exact iff_of_false Outcome.inconsistent_ne_ok fun h =>
        h.2.2.2 member List.mem_cons_self hplayer
    · rw [ih]
      constructor
      · intro h
        obtain ⟨hcandidates, hdistinct, hseats, hplayers⟩ := h
        have hnew : member ∉ members := fun hmem => hseats member hmem List.mem_cons_self
        have hunseated : ∀ key ∈ members, key ∉ seated := fun key hkey hmem =>
          hseats key hkey (List.mem_cons_of_mem _ hmem)
        exact ⟨List.forall_mem_cons.2 ⟨hcandidate, hcandidates⟩,
          List.nodup_cons.2 ⟨hnew, hdistinct⟩, List.forall_mem_cons.2 ⟨hseated, hunseated⟩,
          List.forall_mem_cons.2 ⟨hplayer, hplayers⟩⟩
      · intro h
        obtain ⟨hcandidates, hdistinct, hseats, hplayers⟩ := h
        obtain ⟨hnew, hdistinct⟩ := List.nodup_cons.1 hdistinct
        refine ⟨(List.forall_mem_cons.1 hcandidates).2, hdistinct, fun key hkey hmem => ?_,
          (List.forall_mem_cons.1 hplayers).2⟩
        rcases List.mem_cons.1 hmem with rfl | hmem
        · exact hnew hkey
        · exact hseats key (List.mem_cons_of_mem _ hkey) hmem
    · exact iff_of_false Outcome.inconsistent_ne_ok fun h =>
        hcandidate (h.1 member List.mem_cons_self)

theorem checkCommittee_eq_ok {committee : List PublicKey} :
    b.checkCommittee committee = .ok () ↔ b.Admits committee := by
  rw [checkCommittee]
  split
  · next hsize =>
    refine iff_of_false Outcome.inconsistent_ne_ok fun h => ?_
    rcases hsize with hfew | hmany
    · exact Nat.not_lt.2 h.enough hfew
    · exact Nat.not_lt.2 h.fits hmany
  · next hsize =>
    obtain ⟨hfew, hmany⟩ := not_or.1 hsize
    rw [checkMembers_eq_ok]
    constructor
    · intro h
      obtain ⟨hcandidates, hdistinct, -, hplayers⟩ := h
      exact ⟨Nat.not_lt.1 hfew, Nat.not_lt.1 hmany, hcandidates, hdistinct, hplayers⟩
    · intro h
      exact ⟨h.candidates, h.distinct, fun _ _ => List.not_mem_nil, h.outsiders⟩

theorem checkSeats_eq_ok {committee : List Seat} :
    b.checkSeats committee = .ok () ↔ b.Admits (committee.map (·.oracle)) := checkCommittee_eq_ok

/-- Who serves on a committee was a candidate. -/
theorem mem_candidates_of_checkSeats {committee : List Seat}
    (h : b.checkSeats committee = .ok ()) : ∀ seat ∈ committee, seat.oracle ∈ b.candidates :=
  List.forall_mem_map.1 (checkSeats_eq_ok.1 h).candidates

theorem length_lt_of_checkSeats {committee : List Seat} (h : b.checkSeats committee = .ok ()) :
    committee.length < UInt64.size := by
  have hfits := (checkSeats_eq_ok.1 h).fits
  rw [List.length_map] at hfits
  exact Nat.lt_of_le_of_lt hfits b.maxOracles.toNat_lt

theorem ne_nil_of_checkSeats {committee : List Seat} (hchecked : b.check = .ok ())
    (hseated : b.checkSeats committee = .ok ()) : committee ≠ [] := by
  rintro rfl
  obtain ⟨hbounds, -⟩ := check_eq_ok.1 hchecked
  have hmin : b.minOracles.toNat = 0 := Nat.le_zero.1 (checkSeats_eq_ok.1 hseated).enough
  exact hbounds (.inl (UInt64.toNat_inj.1 hmin))

end Wager.Bet
