import Wager.Proofs.Promises
import Wager.Proofs.Thresholds

/-!
# When a winner can claim

A player for whom enough preimages are recorded recovers both prize scripts of a promise that was
built, at the first offset of the search. With a held key the claim then succeeds, unless the fee
overflows or is more than both prizes together (`Settlement.redeem_of_ready`).

**Long preimages.** Every recorded preimage is pushed, those that announce the loser too. A reveal
accepts a preimage of any length, but a push holds no more than 520 bytes. One longer preimage
therefore stops the claim, however many of the others are enough (`Settlement.redeem_of_long`).

Main result: `Settlement.win_of_promise`.
-/

namespace Wager

open Exchange

variable {σ : Type} {w w' : σ}

/-! ## What is pushed for the preimages -/

namespace Openings

/-- The data among the items are the recorded preimages. -/
theorem push_mem_items {o : Openings} {data : Bytes} :
    .push data ∈ o.items none ↔ some data ∈ o.slots := by
  constructor
  · intro h
    obtain ⟨preimage, hslot, heq⟩ | heq := mem_items h
    · obtain rfl := Script.Token.push.inj heq
      exact hslot
    · cases heq
  · intro h
    rw [items, others_none, List.map_reverse, List.mem_reverse]
    exact List.mem_map.2 ⟨some data, h, rfl⟩

theorem fits_items {o : Openings} (h : ∀ data, some data ∈ o.slots → data.length ≤ Script.maxPush) :
    ∀ t ∈ o.items none, t.piece.Fits := by
  intro t ht
  cases t with
  | op code => trivial
  | push data => exact h data (push_mem_items.1 ht)

/-! ## Openings of another size -/

section

variable {committee : List Seat} {winner : Player}

theorem replay_of_length_ne {o : Openings} (h : committee.length ≠ o.size)
    (reveals : List (Nat × Bytes)) : o.replay committee reveals = o := by
  refine replay_induction (P := (· = o)) (fun _ hsame hreveal => ?_) rfl
  subst hsame
  exact absurd (reveal_eq_ok.1 hreveal).1 h

theorem count_new (seats : Nat) : (new seats).count committee winner none = 0 := by
  rw [count, others_none, List.countP_eq_zero]
  intro entry hentry
  obtain ⟨slot, seat⟩ := entry
  obtain rfl := (List.mem_replicate.1 (List.of_mem_zip hentry).1).2
  exact Bool.false_ne_true

/-- Whatever counts was recorded with a slot for each seat. -/
theorem size_of_count_pos {seats : Nat} {reveals : List (Nat × Bytes)}
    (h : 0 < ((new seats).replay committee reveals).count committee winner none) :
    ((new seats).replay committee reveals).size = committee.length := by
  rw [size_replay]
  by_contra hsize
  rw [replay_of_length_ne (Ne.symm hsize), count_new] at h
  exact absurd h (Nat.lt_irrefl 0)

end

end Openings

/-! ## Redeeming with held keys -/

namespace Settlement

variable {s : Settlement} {claims : List (Claim σ)} {destination : Address} {total : UInt64}

/-- The draft that redeems the claims for one destination, before the fee is taken. -/
def redeemDraft (claims : List (Claim σ)) (total : UInt64) (destination : Address) : Draft where
  version := Draft.currentVersion
  inputs := claims.map fun claim => ⟨claim.coin.outpoint, claim.sequence, none⟩
  outputs := [⟨total, Script.payToAddress destination⟩]
  lockTime := 0

theorem redeem_eq (htotal : Sats.sum? (claims.map (·.coin.output.value)) = some total) :
    (s.redeem claims [destination]).resultIn w =
      ((redeemDraft claims total destination).signWithFee (claims.map (·.unlock))
        s.bet.amounts.feeRate total Output.afterFee).resultIn w := by
  have hneed : (liftM (need (.malformed (.overflow .claims))
      (Sats.sum? (claims.map (·.coin.output.value)))) : Exchange σ UInt64).Gives w total w :=
    gives_lift.2 ⟨Outcome.need_eq_ok.2 htotal, rfl⟩
  have hsome : ¬ [destination].isEmpty = true := Bool.false_ne_true
  rw [redeem, if_neg hsome]
  simp only [List.length_singleton, splitEvenly_one]
  exact resultIn_bind_of_gives hneed

theorem total_redeemDraft : Output.total (redeemDraft claims total destination).outputs =
    .ok total := by
  simp [Output.total_eq_ok_iff, redeemDraft]

/-- Claims that are ready are redeemed, unless the fee overflows or is more than they are worth. -/
theorem redeem_of_ready (s : Settlement) (destination : Address)
    (hready : ∀ claim ∈ claims, claim.unlock.Ready)
    (htotal : Sats.sum? (claims.map (·.coin.output.value)) = some total) :
    ∃ measured,
      ((redeemDraft claims total destination).signAll (claims.map (·.unlock))).Gives w measured w ∧
      match Draft.feeOf measured.size s.bet.amounts.feeRate with
      | .error fault => (s.redeem claims [destination]).resultIn w = (.error fault, w)
      | .ok fee =>
        if fee ≤ total then ∃ tx, (s.redeem claims [destination]).Gives w (tx, fee) w
        else (s.redeem claims [destination]).resultIn w =
          (.error (.insufficientFunds fee total), w) := by
  have hunlocks : ∀ u ∈ claims.map (·.unlock), u.Ready := List.forall_mem_map.2 hready
  obtain ⟨measured, -, hmeasured, -⟩ := Draft.exists_signed (w := w)
    (d := redeemDraft claims total destination) (by simp [redeemDraft]) hunlocks
  refine ⟨measured, hmeasured, ?_⟩
  split
  · next fault hfee =>
    rw [redeem_eq htotal]
    exact Draft.signWithFee_of_unpaid total_redeemDraft hmeasured (by rw [hfee]; rfl)
  · next fee hfee =>
    have htake := Output.afterFee_singleton ⟨total, Script.payToAddress destination⟩ fee
    split
    · next hle =>
      rw [if_pos hle] at htake
      obtain ⟨signed, tx, hsigned, htx, houtputs⟩ := Draft.exists_signed (w := w)
        (d := { redeemDraft claims total destination with
          outputs := [⟨total - fee, Script.payToAddress destination⟩] })
        (by simp [redeemDraft]) hunlocks
      have hpaid : Output.total tx.outputs = .ok (total - fee) := by
        simp [Output.total_eq_ok_iff, houtputs]
      have hbalance : Sats.add? (total - fee) fee = some total := by
        have hle' := UInt64.le_iff_toNat_le.1 hle
        rw [Sats.add?_eq_some_iff, UInt64.toNat_sub_of_le _ _ hle]
        omega
      refine ⟨tx, (redeem_eq htotal).trans (Draft.gives_signWithFee_iff.2 ?_)⟩
      exact ⟨total_redeemDraft, measured, w, hmeasured, hfee, _, htake, signed, hsigned, htx, _,
        hpaid, hbalance⟩
    · next hmore =>
      rw [if_neg hmore] at htake
      rw [redeem_eq htotal]
      exact Draft.signWithFee_of_unpaid total_redeemDraft hmeasured
        (by rw [hfee, Outcome.ok_bind]; exact htake)

/-- An argument that is too long stops the first of the claims. -/
theorem redeem_of_long {coin : Coin} {sequence : UInt32} {key : PrivateKey} {script : Script}
    {args : List Script.Token} (hscript : script.size ≤ Script.maxPush)
    (hlong : ∃ data, .push data ∈ args ∧ Script.maxPush < data.length)
    (htotal : Sats.sum? (coin.output.value :: claims.map (·.coin.output.value)) = some total) :
    ∃ data, .push data ∈ args ∧ Script.maxPush < data.length ∧
      (s.redeem (⟨coin, sequence, .byScript (.held key) script args⟩ :: claims)
        [destination]).resultIn w = (malformed (.oversizedPush data.length), w) := by
  let claim : Claim σ := ⟨coin, sequence, .byScript (.held key) script args⟩
  have hsum : Sats.sum? ((claim :: claims).map (·.coin.output.value)) = some total := htotal
  have hinputs : 0 < (redeemDraft (claim :: claims) total destination).inputs.length := by
    simp [redeemDraft]
  obtain ⟨signatures, hsigned, -, hshort⟩ := Draft.gives_mapM_sign (σ := σ) (w := w)
    [key] script hinputs
  obtain ⟨hfits, -⟩ | ⟨data, hmem, hlen, hfails⟩ := claim.unlock.script_cases rfl hscript
    fun signature hmem => Nat.le_trans (hshort signature hmem) (by decide)
  · obtain ⟨data, hmem, hlen⟩ := hlong
    exact absurd (hfits _ hmem) (Nat.not_le.2 hlen)
  refine ⟨data, hmem, hlen, ?_⟩
  refine (redeem_eq hsum).trans (Draft.signWithFee_of_unsigned total_redeemDraft ?_)
  exact Draft.signAll_of_first (by simp [redeemDraft]) rfl hsigned hfails

/-! ## The prizes of a promise -/

variable {b : Bet} {committee : List Seat} {funding : Sides (Funding σ)} {p : Promise}
  {config : Config} {resolution reply lock : UInt32} {key : PrivateKey} {player : Player}

/-- The hash of a prize that a promise pays is met at the first offset. -/
theorem recoverPrize_of_commits (hp : p.Commits b committee resolution)
    (hchecked : config.check = .ok ()) (hnominal : config.nominal b = .ok (resolution, reply))
    (owner : Player) : recoverPrize ⟨b, committee, config⟩ p.transaction owner =
      .ok (p.prizes.get owner, resolution) := by
  rw [Config.check, Outcome.unless_eq_ok] at hchecked
  have hsingle : 0 < config.search.single.toNat :=
    Nat.pos_of_ne_zero fun h => hchecked.1 (.inl (UInt32.toNat_inj.1 h))
  obtain ⟨lock, hlock, -⟩ := Contract.prize_eq_ok_iff.1 (hp.prize owner)
  have houtput : p.transaction.output (Promise.prizePlace owner) =
      .ok ⟨b.amounts.pot, (p.prizes.get owner).wrapped⟩ :=
    Transaction.output_eq_ok.2 (hp.output owner)
  refine Outcome.bind_eq_ok.2 ⟨_, houtput, ?_⟩
  refine Outcome.bind_eq_ok.2 ⟨_, Script.committedHash_wrapped _, ?_⟩
  refine Outcome.bind_eq_ok.2 ⟨(resolution, reply), hnominal, RelativeLock.search_eq_ok.2 ?_⟩
  refine (RelativeLock.scans_searchFrom ..).found_at_once hsingle ⟨?_, hp.prize owner, rfl⟩
  exact RelativeLock.candidate_eq_some_iff.2 ⟨rfl, lock, hlock⟩

theorem playerOf_of_key {s : Settlement} (hchecked : s.bet.check = .ok ())
    (hkey : key.publicKey = s.bet.players.get player) :
    s.playerOf (Signer.held (σ := σ) key) = .ok player := by
  obtain ⟨-, -, hplayers, -⟩ := Bet.check_eq_ok.1 hchecked
  refine Outcome.need_eq_ok.2 ?_
  cases player with
  | A => simp [Player.all, Signer.publicKey, hkey]
  | B =>
    have hother : s.bet.players.get .A ≠ s.bet.players.get .B := hplayers
    simp [Player.all, Signer.publicKey, hkey, hother]

/-- What the winner claims: first the prize of the loser, then the own one. -/
def prizeClaims (p : Promise) (pot : UInt64) (lock : UInt32) (player : Player)
    (signer : Signer σ) (o : Openings) : List (Claim σ) :=
  let coin owner : Coin := ⟨⟨p.transaction.txid, UInt32.ofNat (Promise.prizePlace owner)⟩,
    ⟨pot, (p.prizes.get owner).wrapped⟩⟩
  [⟨coin player.other, RelativeLock.final,
      .byScript signer (p.prizes.get player.other) (o.items none ++ [.flag true])⟩,
    ⟨coin player, lock, .byScript signer (p.prizes.get player) [.flag false]⟩]

/-- A winner whose checks pass redeems the claims to both prizes. -/
theorem win_eq_redeem (hp : p.Commits b committee resolution) (hchecked : config.check = .ok ())
    (hnominal : config.nominal b = .ok (resolution, reply))
    (hlock : RelativeLock.sequence resolution = .ok lock)
    (hkey : key.publicKey = b.players.get player) {o : Openings}
    (hmatches : checkMatches ⟨b, committee, config⟩ o player none = .ok ())
    (destination : Address) :
    (win ⟨b, committee, config⟩ p.transaction (.held key) o destination).resultIn w =
      resultIn (do
        let (transaction, fee) ← redeem ⟨b, committee, config⟩
          (prizeClaims p b.amounts.pot lock player (.held key) o) [destination]
        return (⟨[p.prizes.get player.other, p.prizes.get player], transaction,
          .single resolution, fee⟩ : Redemption)) w := by
  have hplayer : playerOf ⟨b, committee, config⟩ (Signer.held (σ := σ) key) = .ok player :=
    playerOf_of_key hp.checked hkey
  have hrecovered := recoverPrize_of_commits hp hchecked hnominal
  have hcoin (owner : Player) : p.transaction.coin (Promise.prizePlace owner) =
      .ok ⟨⟨p.transaction.txid, UInt32.ofNat (Promise.prizePlace owner)⟩,
        ⟨b.amounts.pot, (p.prizes.get owner).wrapped⟩⟩ :=
    Transaction.coin_eq_ok.2 ⟨rfl, hp.output owner⟩
  have hrefund : refundClaim p.transaction player (Signer.held (σ := σ) key)
      (p.prizes.get player) resolution = .ok _ :=
    Outcome.bind_eq_ok.2 ⟨_, hcoin player, Outcome.bind_eq_ok.2 ⟨lock, hlock, rfl⟩⟩
  rw [win, resultIn_bind_of_ok hplayer, resultIn_bind_of_ok hmatches,
    resultIn_bind_of_ok (hrecovered player.other), resultIn_bind_of_ok (hrecovered player),
    resultIn_bind_of_ok (hcoin player.other), resultIn_bind_of_ok hrefund]
  rfl

theorem fits_prize (hp : p.Commits b committee resolution) (owner : Player) :
    (p.prizes.get owner).size ≤ Script.maxPush :=
  Contract.size_le_of_checkSpendable hp.spendable (Contract.prize_mem_locks _ owner)
    (hp.prize owner)

theorem sum_prizeClaims (hp : p.Commits b committee resolution) (lock : UInt32) (player : Player)
    (signer : Signer σ) (o : Openings) :
    Sats.sum? ((prizeClaims p b.amounts.pot lock player signer o).map (·.coin.output.value)) =
      some (b.amounts.pot + b.amounts.pot) := by
  have hpots : (b.amounts.pot + b.amounts.pot).toNat = b.amounts.pot.toNat + b.amounts.pot.toNat :=
    Sats.add?_eq_some_iff.1 (if_pos hp.pots)
  simp [Sats.sum?_eq_some_iff, prizeClaims, hpots]

theorem ready_prizeClaims (hp : p.Commits b committee resolution) (lock : UInt32) (player : Player)
    (key : PrivateKey) {o : Openings}
    (hshort : ∀ data, some data ∈ o.slots → data.length ≤ Script.maxPush) :
    ∀ claim ∈ prizeClaims p b.amounts.pot lock player (Signer.held (σ := σ) key) o,
      claim.unlock.Ready := by
  have hflag (value : Bool) : (Script.Token.flag value).piece.Fits := trivial
  have hwon : ∀ t ∈ o.items none ++ [Script.Token.flag true], t.piece.Fits :=
    List.forall_mem_append.2 ⟨Openings.fits_items hshort, List.forall_mem_singleton.2 (hflag true)⟩
  refine List.forall_mem_cons.2 ⟨?_, List.forall_mem_singleton.2 ?_⟩
  · exact .byScript (fits_prize hp _) hwon
  · exact .byScript (fits_prize hp _) (List.forall_mem_singleton.2 (hflag false))

theorem redeem_prizeClaims_of_long (hp : p.Commits b committee resolution) {o : Openings}
    (hlong : ∃ data, some data ∈ o.slots ∧ Script.maxPush < data.length) (s : Settlement)
    (destination : Address) : ∃ data, some data ∈ o.slots ∧ Script.maxPush < data.length ∧
      (s.redeem (prizeClaims p b.amounts.pot lock player (.held key) o) [destination]).resultIn w =
        (malformed (.oversizedPush data.length), w) := by
  have hargs : ∃ data, .push data ∈ o.items none ++ [Script.Token.flag true] ∧
      Script.maxPush < data.length := by
    obtain ⟨data, hslot, hlen⟩ := hlong
    exact ⟨data, List.mem_append_left _ (Openings.push_mem_items.2 hslot), hlen⟩
  have hsum := sum_prizeClaims hp lock player (Signer.held (σ := σ) key) o
  obtain ⟨data, hmem, hlen, hredeem⟩ := redeem_of_long (w := w) (s := s)
    (fits_prize hp player.other) hargs hsum
  refine ⟨data, ?_, hlen, hredeem⟩
  rcases List.mem_append.1 hmem with hmem | hmem
  · exact Openings.push_mem_items.1 hmem
  · cases List.mem_singleton.1 hmem

theorem checked_of_new {s : Settlement} (h : new config b committee = .ok s) :
    config.check = .ok () := by
  obtain ⟨_, hchecked, -⟩ := Outcome.bind_eq_ok.1 h
  exact hchecked

theorem seconds_of_nominal (h : config.nominal b = .ok (resolution, reply)) :
    b.timeout.seconds = .ok resolution := by
  obtain ⟨seconds, hseconds, h⟩ := Outcome.bind_eq_ok.1 h
  obtain ⟨_, -, h⟩ := Outcome.bind_eq_ok.1 h
  obtain ⟨rfl, -⟩ := Prod.mk.inj (Outcome.pure_eq_ok.1 h)
  exact hseconds

/-- With enough recorded preimages and a held key, a winner can claim both prizes of a promise that
was built, unless the fee overflows or is more than both prizes, as long as no recorded preimage is
too long for a push. One longer preimage, though it was accepted, stops the claim. -/
theorem win_of_promise {τ : Type} {u : τ} {w w' : σ} {s : Settlement} {seats : Nat}
    {reveals : List (Nat × Bytes)} {o : Openings}
    (h : (Promise.build b committee funding).Gives w p w') (hs : new config b committee = .ok s)
    (hnominal : config.nominal b = .ok (resolution, reply))
    (hkey : key.publicKey = b.players.get player)
    (ho : (Openings.new seats).replay committee reveals = o)
    (hcount : b.required.toNat ≤ o.count committee player none) (destination : Address) :
    ((∀ data, some data ∈ o.slots → data.length ≤ Script.maxPush) →
      ∃ lock measured, RelativeLock.sequence resolution = .ok lock ∧
        let claims := prizeClaims p b.amounts.pot lock player (.held key) o
        let total := b.amounts.pot + b.amounts.pot
        let draft := redeemDraft claims total destination
        (draft.signAll (claims.map (·.unlock))).Gives u measured u ∧
        match Draft.feeOf measured.size b.amounts.feeRate with
        | .error fault =>
          (s.win p.transaction (.held key) o destination).resultIn u = (.error fault, u)
        | .ok fee =>
          if fee ≤ total then
            ∃ tx, (s.win p.transaction (.held key) o destination).Gives u
              ⟨[p.prizes.get player.other, p.prizes.get player], tx, .single resolution, fee⟩ u
          else (s.win p.transaction (.held key) o destination).resultIn u =
            (.error (.insufficientFunds fee total), u)) ∧
    ((∃ data, some data ∈ o.slots ∧ Script.maxPush < data.length) →
      ∃ data, some data ∈ o.slots ∧ Script.maxPush < data.length ∧
        (s.win p.transaction (.held key) o destination).resultIn u =
          (malformed (.oversizedPush data.length), u)) := by
  have hchecked := checked_of_new hs
  obtain rfl := eq_of_new hs
  obtain ⟨_, hp⟩ := Promise.commits_of_build h
  obtain rfl := Except.ok.inj (hp.timeout.symm.trans (seconds_of_nominal hnominal))
  obtain ⟨lock, hlock, -⟩ := Contract.prize_eq_ok_iff.1 (hp.prize player)
  have hsize : o.size = committee.length := by
    subst ho
    exact Openings.size_of_count_pos (Nat.lt_of_lt_of_le (Bet.required_pos hp.checked) hcount)
  have hwin := win_eq_redeem (w := u) hp hchecked hnominal hlock hkey
    (checkMatches_eq_ok.2 ⟨hsize, hcount⟩) destination
  constructor
  · intro hshort
    have hready := ready_prizeClaims (σ := τ) hp lock player key hshort
    obtain ⟨measured, hmeasured, hredeem⟩ := redeem_of_ready (w := u) ⟨b, committee, config⟩
      destination hready (sum_prizeClaims hp ..)
    refine ⟨lock, measured, hlock, hmeasured, ?_⟩
    split at hredeem
    · next fault hfee =>
      rw [hfee, hwin, resultIn_bind, hredeem]
    · next fee hfee =>
      rw [hfee]
      split at hredeem
      · next hle =>
        obtain ⟨tx, htx⟩ := hredeem
        refine (if_pos hle).mpr ⟨tx, ?_⟩
        exact hwin.trans (resultIn_bind_of_gives htx)
      · next hmore =>
        refine (if_neg hmore).mpr ?_
        rw [hwin, resultIn_bind, hredeem]
  · intro hlong
    obtain ⟨data, hslot, hlen, hredeem⟩ := redeem_prizeClaims_of_long hp hlong
      ⟨b, committee, config⟩ destination
    refine ⟨data, hslot, hlen, ?_⟩
    rw [hwin, resultIn_bind, hredeem]
    rfl

/-! ## A long preimage

One of two oracles announces player A, which is enough. The preimage of the other announces player
B and is one byte longer than a push may be. -/

def quietSeat : Seat where
  oracle := Inscription.lateKey.publicKey
  images := ⟨Inscription.lateHash 0x9f7fd096d37ed2c0e3f7f0cfc924beef4ffceb68, .replicate 20 0⟩

def noisySeat : Seat where
  oracle := ⟨⟨0xe493dbf1c10d80f3581e4904930b1404cc6c13900ee0758474fa94abe8c4cd13,
    0x51ed993ea0d455b75642e2098ea51448d967ae33bfbdfe40cfe97bdc47739922,
    by decide, by decide, by decide⟩, true, .testnet⟩
  images := ⟨.replicate 20 0, Inscription.lateHash 0x657962de8f26f473e9043bc1f5e12c6ddf90d4e5⟩

def noisyCommittee : List Seat := [quietSeat, noisySeat]

def noisyBet : Bet :=
  { idle.bet with maxOracles := 2, oracles := noisyCommittee.map (·.oracle) }

def noisyPreimage : Bytes := .replicate 521 0

theorem noisy_opens : quietSeat.opens .A [0] = true ∧ noisySeat.opens .B noisyPreimage = true := by
  simp only [noisyPreimage, Seat.opens, hash160_eq]
  decide +kernel

theorem noisy_replay : (Openings.new 2).replay noisyCommittee [(0, [0]), (1, noisyPreimage)] =
    ⟨[[0], noisyPreimage].map some⟩ := by
  have hopens : List.Forall₂ (fun seat preimage => (seat.outcome? preimage).isSome = true)
      noisyCommittee [[0], noisyPreimage] :=
    .cons (Seat.isSome_outcome?.2 (.inl noisy_opens.1))
      (.cons (Seat.isSome_outcome?.2 (.inr noisy_opens.2)) .nil)
  have hreplay := Openings.replay_zipIdx [] [] rfl hopens
  have hreveals : ([[0], noisyPreimage].zipIdx ([] : List Bytes).length).map Prod.swap =
      [(0, [0]), (1, noisyPreimage)] := rfl
  rw [hreveals] at hreplay
  exact hreplay

theorem noisy_count :
    1 ≤ Openings.count ⟨[[0], noisyPreimage].map some⟩ noisyCommittee .A none := by
  rw [noisyCommittee, Openings.count_cons, noisy_opens.1, Bool.toNat_true]
  exact Nat.le_add_left 1 _

theorem noisy_build : ∃ p, (Promise.build noisyBet noisyCommittee
    (Promise.heldKeys.map (Promise.exactFunding (σ := Unit) noisyBet))).Gives () p () := by
  have hspendable : (Contract.ofBet noisyBet noisyCommittee).checkSpendable 3600 3600 = .ok () := by
    decide +kernel
  have hcommitment : (Commitment.ofBet noisyBet
      (noisyCommittee.map (·.oracle))).encode.length ≤ Script.maxPush := by
    rw [Commitment.length_encode]
    decide +kernel
  have hfree : Promise.Free noisyBet.amounts := ⟨rfl, rfl, by decide⟩
  exact Promise.exists_build hfree
    (Promise.priced_exact (by decide) (by decide) Promise.publicKey_heldKeys rfl hspendable
      hcommitment hfree)

theorem noisy_stopped : ∃ p s, (Promise.build noisyBet noisyCommittee
      (Promise.heldKeys.map (Promise.exactFunding (σ := Unit) noisyBet))).Gives () p () ∧
    new {} noisyBet noisyCommittee = .ok s ∧ ∃ o,
    (Openings.new 2).replay noisyCommittee [(0, [0]), (1, noisyPreimage)] = o ∧
    noisyBet.required.toNat ≤ o.count noisyCommittee .A none ∧
    (s.win p.transaction (Signer.held idleKey) o ⟨.testnet, .key, .replicate 20 0⟩).resultIn () =
      (malformed (.oversizedPush 521), ()) := by
  obtain ⟨p, hp⟩ := noisy_build
  have hs : new {} noisyBet noisyCommittee = .ok ⟨noisyBet, noisyCommittee, {}⟩ :=
    Outcome.bind_eq_ok.2 ⟨(), rfl, Outcome.bind_eq_ok.2 ⟨(), by decide, rfl⟩⟩
  have hnominal : ({} : Config).nominal noisyBet = .ok (3600, 7200) := rfl
  have hkey : idleKey.publicKey = noisyBet.players.get .A := rfl
  have hlength : noisyPreimage.length = 521 := List.length_replicate
  have hlong : ∃ data, some data ∈ [[0], noisyPreimage].map some ∧
      Script.maxPush < data.length := by
    refine ⟨noisyPreimage, List.mem_cons_of_mem _ List.mem_cons_self, ?_⟩
    rw [hlength]
    decide
  obtain ⟨data, hslot, hlen, hwin⟩ := (win_of_promise (u := ()) hp hs hnominal hkey
    noisy_replay noisy_count ⟨.testnet, .key, .replicate 20 0⟩).2 hlong
  have hdata : data.length = 521 := by
    simp only [List.map_cons, List.map_nil, List.mem_cons, Option.some.injEq, List.not_mem_nil,
      or_false] at hslot
    rcases hslot with rfl | rfl
    · exact absurd hlen (by decide)
    · exact hlength
  rw [hdata] at hwin
  exact ⟨p, _, hp, hs, _, noisy_replay, noisy_count, hwin⟩

end Settlement

end Wager
