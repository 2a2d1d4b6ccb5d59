import Wager.Proofs.Verification

/-!
# What a promise binds

A transaction may be verified for different terms. It is a promise for all of them, and what it
holds binds what they can differ in (`Promise.Agrees`).

**The commitment** names the committee's keys, the description by its hash and the channel.

**The prizes** are paid to the hashes of two scripts. A prize script tells what it was built from
(`Contract.eq_of_prize`): the images that announce the rival, the required number, both keys and
the lock. Each of the two scripts has the images of one outcome, so together they fix both images
of every seat.

**Hashes** bind as far as they do not collide, which is assumed of the descriptions and the prize
scripts alone (`Promise.Collisionless`).

**What is left open.** The bounds on the committee, the candidates, the penalty, the fees and the
seconds within a unit of the timeout may differ.

Main result: `Promise.agrees_of_verify`.
-/

namespace Wager

open Script

/-! ## Reading templates -/

/-- Blocks of one length can be told apart in a row of them. -/
theorem flatMap_injective {α β : Type} {f : α → List β} {n : Nat} (hlen : ∀ x, (f x).length = n)
    (hinj : Function.Injective f) {xs ys : List α} (hcount : xs.length = ys.length)
    (h : xs.flatMap f = ys.flatMap f) : xs = ys := by
  induction xs generalizing ys with
  | nil => exact (List.eq_nil_of_length_eq_zero hcount.symm).symm
  | cons x xs ih =>
    cases ys with
    | nil => cases hcount
    | cons y ys =>
      obtain ⟨hfirst, hrest⟩ := List.append_inj h (by rw [hlen, hlen])
      rw [hinj hfirst, ih (Nat.succ.inj hcount) hrest]

namespace Script.Piece

theorem reading_push_injective {data data' : Bytes}
    (h : (push data).reading = (push data').reading) : data = data' := by
  cases data <;> cases data' <;> simp_all

theorem reading_tally_injective :
    Function.Injective fun image => (tally image).flatMap reading := by
  intro image image' h
  have hpush : (push image.toList).reading = (push image'.toList).reading := by
    simp only [tally, List.flatMap_cons, reading_op, List.singleton_append, List.cons.injEq,
      true_and] at h
    exact (List.append_inj' h rfl).1
  exact Vector.toList_inj.1 (reading_push_injective hpush)

theorem length_reading_tally (image : Hash160) : ((tally image).flatMap reading).length = 5 := by
  simp [tally]

/-- A threshold tells its images, if their number is known, and the required number. -/
theorem reading_threshold_injective {images images' : List Hash160} {required required' : UInt64}
    (hcount : images.length = images'.length)
    (h : (threshold images required).flatMap reading =
      (threshold images' required').flatMap reading) :
    images = images' ∧ required = required' := by
  simp only [threshold_eq, List.flatMap_append, List.append_right_inj, List.flatMap_assoc] at h
  obtain ⟨htallies, hrest⟩ := List.append_inj' h (by simp [length_reading_int])
  have hrequired : required.toInt64.toInt = required'.toInt64.toInt := by
    refine reading_int_injective ?_
    simpa using (List.append_inj hrest (by simp [length_reading_int])).1
  refine ⟨flatMap_injective length_reading_tally reading_tally_injective hcount htallies, ?_⟩
  exact congrArg Int64.toUInt64 (Int64.toInt_inj.1 hrequired)

end Script.Piece

namespace Contract

variable {c c' : Contract} {owner : Player} {resolution resolution' : UInt32} {script : Script}

/-- The tokens of a prize script that fits a push. -/
theorem tokens_of_prize (h : c.prize owner resolution = .ok script)
    (hfits : script.size ≤ maxPush) : ∃ lock, RelativeLock.sequence resolution = .ok lock ∧
      script.tokens = .ok ((c.prizePieces owner lock).flatMap Piece.reading) := by
  obtain ⟨lock, hlock, hassemble⟩ := prize_eq_ok_iff.1 h
  have hsize := length_images_lt_of_prize hassemble hfits
  have hperforms : Piece.Performs ⟨0, 0, fun _ _ => false⟩ (c.prizePieces owner lock) _ :=
    performs_prize lock hsize
  exact ⟨lock, hlock, tokens_of_assemble hassemble hperforms.readable⟩

/-- A prize script tells what it was built from, if the number of seats is known. -/
theorem eq_of_prize (h : c.prize owner resolution = .ok script)
    (h' : c'.prize owner resolution' = .ok script) (hfits : script.size ≤ maxPush)
    (hcount : c.committee.length = c'.committee.length) :
    c.images owner.other none = c'.images owner.other none ∧ c.required = c'.required ∧
      (c.players.get owner.other).bytes = (c'.players.get owner.other).bytes ∧
      (c.players.get owner).bytes = (c'.players.get owner).bytes ∧
      resolution.toNat / 512 = resolution'.toNat / 512 := by
  obtain ⟨lock, hlock, htokens⟩ := tokens_of_prize h hfits
  obtain ⟨lock', hlock', htokens'⟩ := tokens_of_prize h' hfits
  have hreading := Except.ok.inj (htokens.symm.trans htokens')
  have himages : (c.images owner.other none).length = (c'.images owner.other none).length := by
    rw [length_images, length_images, others_none, others_none, hcount]
  simp only [prizePieces, List.flatMap_append] at hreading
  -- The template is taken apart from its end: own key, lock, rival's key, threshold.
  obtain ⟨hreading, hown⟩ := List.append_inj' hreading (by simp [Piece.key])
  obtain ⟨hreading, hlocks⟩ := List.append_inj' hreading
    (by rw [Piece.length_reading_relativeLock, Piece.length_reading_relativeLock])
  obtain ⟨hreading, hrival⟩ := List.append_inj' hreading (by simp [Piece.key])
  obtain ⟨himages, hrequired⟩ :=
    Piece.reading_threshold_injective himages (List.append_cancel_left hreading)
  obtain rfl := Piece.reading_relativeLock_injective hlocks
  refine ⟨himages, hrequired, ?_, ?_, RelativeLock.units_of_sequence hlock hlock'⟩
  · exact Piece.reading_push_injective (List.append_inj hrival rfl).1
  · exact Piece.reading_push_injective (List.append_inj hown rfl).1

theorem images_ofBet (b : Bet) (committee : List Seat) (winner : Player) :
    (ofBet b committee).images winner none = committee.map (·.image winner) := by
  rw [images, others_none, ofBet]

end Contract

/-- The images for both outcomes are all the images. -/
theorem Seat.images_eq {seats seats' : List Seat}
    (hA : seats.map (·.image .A) = seats'.map (·.image .A))
    (hB : seats.map (·.image .B) = seats'.map (·.image .B)) :
    seats.map (·.images) = seats'.map (·.images) := by
  have hzip (seats : List Seat) : seats.map (·.images) =
      List.zipWith Sides.mk (seats.map (·.image .A)) (seats.map (·.image .B)) := by
    rw [List.zipWith_map, List.zipWith_self]
    rfl
  rw [hzip, hzip, hA, hB]

/-! ## Terms of one promise -/

namespace Promise

/-- What two sets of terms agree on when one transaction is a promise for both. -/
structure Agrees (b b' : Bet) (committee committee' : List Seat) : Prop where
  description : b.description = b'.description
  parties : b.channel.parties = b'.channel.parties
  keys : committee.map (·.oracle.bytes) = committee'.map (·.oracle.bytes)
  images : committee.map (·.images) = committee'.map (·.images)
  players : ∀ player, (b.players.get player).bytes = (b'.players.get player).bytes
  required : b.required = b'.required
  /-- The timeouts lie in the same unit of 512 seconds. -/
  units : ∃ resolution resolution', b.timeout.seconds = .ok resolution ∧
    b'.timeout.seconds = .ok resolution' ∧ resolution.toNat / 512 = resolution'.toNat / 512
  pot : b.amounts.pot = b'.amounts.pot
  share : ∃ share, b.amounts.oracleShare = .ok share ∧ b'.amounts.oracleShare = .ok share

/-- The descriptions and the prize scripts of the two sets of terms do not collide. -/
structure Collisionless (b b' : Bet) (committee committee' : List Seat) : Prop where
  description : b.descriptionHash = b'.descriptionHash →
    Utf8.encode b.description = Utf8.encode b'.description
  prize : ∀ {owner resolution resolution' script script'}, b.timeout.seconds = .ok resolution →
    b'.timeout.seconds = .ok resolution' →
    (Contract.ofBet b committee).prize owner resolution = .ok script →
    (Contract.ofBet b' committee').prize owner resolution' = .ok script' →
    script.hash = script'.hash → script = script'

variable {b b' : Bet} {committee committee' : List Seat} {tx : Transaction}
  {resolution resolution' : UInt32} {payment payment' : Script} {share share' : UInt64}

/-- Commitments that are read from one output differ in the network of the keys alone. -/
theorem commitment_of_verified (h : Verified b committee tx resolution payment share)
    (h' : Verified b' committee' tx resolution' payment' share') :
    b.descriptionHash = b'.descriptionHash ∧ b.channel = b'.channel ∧
      committee.map (·.oracle.bytes) = committee'.map (·.oracle.bytes) := by
  obtain ⟨output, houtput, hcommitment⟩ := h.committed
  obtain ⟨output', houtput', hcommitment'⟩ := h'.committed
  obtain rfl := Option.some.inj (houtput.symm.trans houtput')
  rw [Commitment.ofScript_on b.network, hcommitment] at hcommitment'
  obtain ⟨hkeys, hdescription, hchannel⟩ := Commitment.mk.inj (Except.ok.inj hcommitment')
  refine ⟨hdescription, hchannel, ?_⟩
  have hbytes := congrArg (List.map PublicKey.bytes) hkeys
  simpa [Commitment.ofBet, Function.comp_def] using hbytes

theorem text_of_encode {s s' : String} (h : Utf8.encode s = Utf8.encode s') : s = s' := by
  have hdecode := Utf8.decode_encode s
  rw [h, Utf8.decode_encode] at hdecode
  exact (Except.ok.inj hdecode).symm

theorem agrees_of_verified (h : Verified b committee tx resolution payment share)
    (h' : Verified b' committee' tx resolution' payment' share') (hseats : committee ≠ [])
    (hno : Collisionless b b' committee committee') : Agrees b b' committee committee' := by
  obtain ⟨hdescription, hchannel, hkeys⟩ := commitment_of_verified h h'
  have hcount : committee.length = committee'.length := by
    simpa using congrArg List.length hkeys
  have hprize (owner : Player) : b.amounts.pot = b'.amounts.pot ∧
      committee.map (·.image owner.other) = committee'.map (·.image owner.other) ∧
      b.required = b'.required ∧
      (b.players.get owner.other).bytes = (b'.players.get owner.other).bytes ∧
      (b.players.get owner).bytes = (b'.players.get owner).bytes ∧
      resolution.toNat / 512 = resolution'.toNat / 512 := by
    obtain ⟨script, hscript, houtput⟩ := h.prize owner
    obtain ⟨script', hscript', houtput'⟩ := h'.prize owner
    obtain ⟨hpot, hwrapped⟩ := Output.mk.inj (Option.some.inj (houtput.symm.trans houtput'))
    obtain rfl := hno.prize h.timeout h'.timeout hscript hscript' (hash_eq_of_wrapped hwrapped)
    have hfits := Contract.size_le_of_checkSpendable h.spendable
      (Contract.prize_mem_locks _ owner) hscript
    have hsame := Contract.eq_of_prize hscript hscript' hfits hcount
    rw [Contract.images_ofBet, Contract.images_ofBet] at hsame
    exact ⟨hpot, hsame⟩
  obtain ⟨hpot, himagesB, hrequired, hkeyB, hkeyA, hunits⟩ := hprize .A
  obtain ⟨-, himagesA, -⟩ := hprize .B
  have hpos : 0 < committee.length := List.length_pos_of_ne_nil hseats
  have hpaid := (h.paid 0 hpos).symm.trans (h'.paid 0 (hcount ▸ hpos))
  obtain ⟨rfl, -⟩ := Output.mk.inj (Option.some.inj hpaid)
  exact {
    description := text_of_encode (hno.description hdescription)
    parties := congrArg Channel.parties hchannel
    keys := hkeys
    images := Seat.images_eq himagesA himagesB
    players := fun player => by
      cases player with
      | A => exact hkeyA
      | B => exact hkeyB
    required := hrequired
    units := ⟨resolution, resolution', h.timeout, h'.timeout, hunits⟩
    pot := hpot
    share := ⟨share, h.amount, h'.amount⟩ }

/-- A promise binds its terms: two verifications of one transaction, for whatever terms and
committees, are for terms that agree. -/
theorem agrees_of_verify (h : verify b committee tx = .ok ())
    (h' : verify b' committee' tx = .ok ()) (hseats : committee ≠ [])
    (hno : Collisionless b b' committee committee') : Agrees b b' committee committee' := by
  obtain ⟨_, _, _, hverified⟩ := verify_eq_ok_iff.1 h
  obtain ⟨_, _, _, hverified'⟩ := verify_eq_ok_iff.1 h'
  exact agrees_of_verified hverified hverified' hseats hno

/-! ## Terms that differ

A bet with more room for oracles, another penalty, and a timeout that is one second longer but in
the same unit. -/

def vagueBet : Bet :=
  { Settlement.noisyBet with
    maxOracles := 5
    amounts := { Settlement.noisyBet.amounts with penalty := 7 }
    timeout := ⟨.seconds, 3601⟩ }

theorem prize_vague (owner : Player) :
    (Contract.ofBet vagueBet Settlement.noisyCommittee).prize owner 3601 =
      (Contract.ofBet Settlement.noisyBet Settlement.noisyCommittee).prize owner 3600 := rfl

/-- Whatever is verified for the one bet is verified for the other. -/
theorem vague_verified {tx : Transaction}
    (h : verify Settlement.noisyBet Settlement.noisyCommittee tx = .ok ()) :
    verify vagueBet Settlement.noisyCommittee tx = .ok () := by
  obtain ⟨resolution, payment, share, hverified⟩ := verify_eq_ok_iff.1 h
  have hseconds : Settlement.noisyBet.timeout.seconds = .ok 3600 := rfl
  obtain rfl := Except.ok.inj (hseconds.symm.trans hverified.timeout)
  have hlock : RelativeLock.sequence 3601 = .ok 0x400007 := rfl
  refine verify_eq_ok_iff.2 ⟨3601, payment, share, ?_⟩
  exact {
    committed := hverified.committed
    timeout := rfl
    spendable := Contract.checkSpendable_of_checkSpendable hlock hlock hverified.spendable
    prize := fun owner => by
      rw [prize_vague]
      exact hverified.prize owner
    multisig := hverified.multisig
    amount := hverified.amount
    paid := hverified.paid }

theorem collisionless_vague : Collisionless Settlement.noisyBet vagueBet Settlement.noisyCommittee
    Settlement.noisyCommittee where
  description := fun _ => rfl
  prize := by
    intro owner resolution resolution' script script' hseconds hseconds' hscript hscript' _
    obtain rfl : 3600 = resolution := Except.ok.inj hseconds
    obtain rfl : 3601 = resolution' := Except.ok.inj hseconds'
    rw [prize_vague] at hscript'
    exact Except.ok.inj (hscript.symm.trans hscript')

theorem vague_agrees : ∃ tx, verify Settlement.noisyBet Settlement.noisyCommittee tx = .ok () ∧
    verify vagueBet Settlement.noisyCommittee tx = .ok () ∧ Settlement.noisyBet ≠ vagueBet ∧
    Agrees Settlement.noisyBet vagueBet Settlement.noisyCommittee Settlement.noisyCommittee := by
  obtain ⟨p, hp⟩ := Settlement.noisy_build
  obtain ⟨resolution, payment, share, hverified⟩ := verified_of_build hp (by decide)
    (rfl : Channel.secure ["a", "b"] = .ok Settlement.noisyBet.channel)
  have hverify := verify_eq_ok_iff.2 ⟨resolution, payment, share, hverified⟩
  have hvague := vague_verified hverify
  exact ⟨p.transaction, hverify, hvague, by decide,
    agrees_of_verify hverify hvague (List.cons_ne_nil _ _) collisionless_vague⟩

end Promise

end Wager
