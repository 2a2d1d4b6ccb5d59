import Mathlib.Data.Fintype.Card
import Wager.Proofs.Bets

/-!
# Who holds a role

Both players and every member of the committee have a role in a bet. The checks compare keys, and a
key is more than the point of its holder: it is also the way that the point is written and the
network. So a committee that is accepted under coherent terms gives no role twice to the same key
(`Bet.admits_iff`), and two roles can have one holder only if the keys differ in form.

**How often a holder can come back.** A point is written in two ways, so it has at most two roles on
one network (`PublicKey.countP_le_two`), and only one if all keys have the same form
(`PublicKey.nodup_points`). One holder can take two seats, be a player and an oracle, or be both
players (`Bet.shared_roles`).

Main result: `Bet.roles_of_check`.
-/

namespace Wager

namespace PublicKey

/-- Keys of one point that are told apart by the way they are written, or by their network. -/
def Apart (k k' : PublicKey) : Prop :=
  k.point = k'.point → k.short ≠ k'.short ∨ k.network ≠ k'.network

variable {k k' : PublicKey} {keys : List PublicKey}

theorem apart_iff_ne : k.Apart k' ↔ k ≠ k' := by
  obtain ⟨point, short, network⟩ := k
  obtain ⟨point', short', network'⟩ := k'
  simp only [Apart, ne_eq, mk.injEq, not_and, imp_iff_not_or]

theorem pairwise_apart : keys.Pairwise Apart ↔ keys.Nodup :=
  ⟨fun h => h.imp apart_iff_ne.1, fun h => h.imp apart_iff_ne.2⟩

/-- A point has one key for each way to write it. -/
theorem countP_le_two (h : keys.Pairwise Apart) (point : Curve.Point) (network : Network) :
    keys.countP (fun key => key.point = point ∧ key.network = network) ≤ 2 := by
  rw [List.countP_eq_length_filter, ← List.length_map (·.short)]
  refine List.Nodup.length_le_card (List.pairwise_map.2 ?_)
  refine (h.filter _).imp_of_mem fun hk hk' hapart => ?_
  have hholder := of_decide_eq_true (List.mem_filter.1 hk).2
  have hholder' := of_decide_eq_true (List.mem_filter.1 hk').2
  rcases hapart (hholder.1.trans hholder'.1.symm) with hshort | hnetwork
  · exact hshort
  · exact absurd (hholder.2.trans hholder'.2.symm) hnetwork

theorem nodup_points {short : Bool} {network : Network} (h : keys.Pairwise Apart)
    (hform : ∀ key ∈ keys, key.short = short ∧ key.network = network) :
    (keys.map (·.point)).Nodup := by
  refine List.pairwise_map.2 (h.imp_of_mem fun hk hk' hapart hpoint => ?_)
  obtain ⟨hshort, hnetwork⟩ := hform _ hk
  obtain ⟨hshort', hnetwork'⟩ := hform _ hk'
  rcases hapart hpoint with hdiffer | hdiffer
  · exact hdiffer (hshort.trans hshort'.symm)
  · exact hdiffer (hnetwork.trans hnetwork'.symm)

end PublicKey

namespace Bet

/-- The keys that have a role in the bet. -/
def roles (b : Bet) (committee : List PublicKey) : List PublicKey := b.players.toList ++ committee

variable {b : Bet} {committee : List PublicKey}

theorem nodup_roles : (b.roles committee).Nodup ↔ b.players.a ≠ b.players.b ∧ committee.Nodup ∧
    ∀ key ∈ committee, key ∉ b.players.toList := by
  have hplayers : b.players.toList.Nodup ↔ b.players.a ≠ b.players.b := by simp [Sides.toList]
  rw [roles, List.nodup_append', hplayers, List.disjoint_comm]
  rfl

/-- Under coherent terms a committee that is accepted leaves no key with two roles. -/
theorem admits_iff (hterms : b.check = .ok ()) : b.Admits committee ↔
    b.minOracles.toNat ≤ committee.length ∧ committee.length ≤ b.maxOracles.toNat ∧
      (∀ key ∈ committee, key ∈ b.candidates) ∧ (b.roles committee).Nodup := by
  obtain ⟨-, -, hplayers, -⟩ := check_eq_ok.1 hterms
  constructor
  · intro h
    exact ⟨h.enough, h.fits, h.candidates, nodup_roles.2 ⟨hplayers, h.distinct, h.outsiders⟩⟩
  · intro h
    obtain ⟨henough, hfits, hcandidates, hroles⟩ := h
    obtain ⟨-, hdistinct, houtsiders⟩ := nodup_roles.1 hroles
    exact ⟨henough, hfits, hcandidates, hdistinct, houtsiders⟩

/-- Under coherent terms a committee is accepted exactly if it has the right size, consists of
candidates and leaves no key with two roles. Then a point has at most two roles on one network, and
one if all keys have the same form. -/
theorem roles_of_check (hterms : b.check = .ok ()) :
    (b.checkCommittee committee = .ok () ↔
      b.minOracles.toNat ≤ committee.length ∧ committee.length ≤ b.maxOracles.toNat ∧
        (∀ key ∈ committee, key ∈ b.candidates) ∧
        (b.roles committee).Pairwise PublicKey.Apart) ∧
    (b.checkCommittee committee = .ok () →
      (∀ point network, (b.roles committee).countP
        (fun key => key.point = point ∧ key.network = network) ≤ 2) ∧
      ∀ short network, (∀ key ∈ b.roles committee, key.short = short ∧ key.network = network) →
        ((b.roles committee).map (·.point)).Nodup) := by
  have haccepted : b.checkCommittee committee = .ok () ↔ _ :=
    checkCommittee_eq_ok.trans (admits_iff hterms)
  rw [← PublicKey.pairwise_apart] at haccepted
  refine ⟨haccepted, fun h => ?_⟩
  obtain ⟨-, -, -, hroles⟩ := haccepted.1 h
  exact ⟨PublicKey.countP_le_two hroles, fun _ _ => PublicKey.nodup_points hroles⟩

/-! ## Holders with two roles -/

/-- A bet between two players that names these oracles. -/
def between (players : Sides PublicKey) (oracles : List PublicKey) : Bet :=
  { roomy with maxOracles := 3, players, oracles }

def thirdKey : PublicKey :=
  { roomy.players.a with
    point := (Contract.greedy.committee.head (List.cons_ne_nil _ _)).oracle.point }

/-- Player A with a key that is written long, and twice the same oracle. -/
def sharedOracles : List PublicKey :=
  [{ roomy.players.a with short := false }, thirdKey, { thirdKey with short := false }]

/-- One holder against itself. -/
def sharedPlayers : Sides PublicKey := ⟨roomy.players.a, { roomy.players.a with short := false }⟩

/-- One oracle on two networks. -/
def sharedNetworks : List PublicKey := [thirdKey, { thirdKey with network := .mainnet }]

theorem shared_apart : (between roomy.players sharedOracles).check = .ok () ∧
    (between roomy.players sharedOracles).checkCommittee sharedOracles = .ok () ∧
    ((between roomy.players sharedOracles).roles sharedOracles).Pairwise PublicKey.Apart ∧
    ∀ point network, ((between roomy.players sharedOracles).roles sharedOracles).countP
      (fun key => key.point = point ∧ key.network = network) ≤ 2 := by
  have hterms : (between roomy.players sharedOracles).check = .ok () := by decide
  have haccepted : (between roomy.players sharedOracles).checkCommittee sharedOracles = .ok () := by
    decide
  exact ⟨hterms, haccepted, ((roles_of_check hterms).1.1 haccepted).2.2.2,
    ((roles_of_check hterms).2 haccepted).1⟩

/-- Points can repeat among the members, between a member and a player, and between the players. -/
theorem shared_roles :
    ((between roomy.players sharedOracles).check = .ok () ∧
      (between roomy.players sharedOracles).checkCommittee sharedOracles = .ok () ∧
      ¬ (sharedOracles.map (·.point)).Nodup ∧
      ∃ key ∈ sharedOracles, key.point = (between roomy.players sharedOracles).players.a.point) ∧
    ((between sharedPlayers [thirdKey]).check = .ok () ∧
      (between sharedPlayers [thirdKey]).checkCommittee [thirdKey] = .ok () ∧
      (between sharedPlayers [thirdKey]).players.a.point =
        (between sharedPlayers [thirdKey]).players.b.point) ∧
    (between roomy.players sharedNetworks).check = .ok () ∧
      (between roomy.players sharedNetworks).checkCommittee sharedNetworks = .ok () ∧
      ¬ (sharedNetworks.map (·.point)).Nodup := by
  refine ⟨⟨by decide, by decide, by decide, ?_⟩, ⟨by decide, by decide, rfl⟩, by decide, by decide,
    by decide⟩
  exact ⟨{ roomy.players.a with short := false }, List.mem_cons_self, rfl⟩

end Bet

end Wager
