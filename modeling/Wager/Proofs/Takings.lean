import Wager.Proofs.Templates

/-!
# The ways to take a payment

A prize can be taken in two ways (`PrizeTaken`), an answer payment in four (`AnswerTaken`, where the
two refutations are one way with a winner) and a deposit in two (`DepositTaken`). The scripts accept
the stacks of these ways and no others, whatever stands below the items that a way is about. For a
deposit this holds of every seat and lock without further conditions (`insurance_taken_iff`).

**Thresholds.** The ways are stated for any least count of openings. A script built for a required
number demands that many, unless the number is so large that it is negative as a signed number of
four bytes: then the script demands none.
-/

namespace Wager.Contract

open Script

variable {c : Contract} {ctx : Context} {script : Script}

/-! ## Prizes -/

/-- The stacks with which the prize of `owner` is taken, where the rival shows at least `least`
openings. -/
inductive PrizeTaken (c : Contract) (ctx : Context) (owner : Player) (lock : UInt32)
    (least : Nat) : List Bytes → Prop
  /-- The rival won, as enough of the committee announced. -/
  | won {selector signature : Bytes} (items : List Bytes) {rest : List Bytes} :
    isTrue selector = true →
    items.length = c.committee.length →
    least ≤ matching (c.committee.map (·.image owner.other)) items →
    ctx.signs (c.players.get owner.other).bytes signature = true →
    PrizeTaken c ctx owner lock least (selector :: (items ++ signature :: rest))
  /-- The lock has passed. -/
  | refunded {selector signature : Bytes} {rest : List Bytes} :
    isTrue selector = false →
    ctx.passes lock = true →
    ctx.signs (c.players.get owner).bytes signature = true →
    PrizeTaken c ctx owner lock least (selector :: signature :: rest)

theorem accepts_prize_iff_demanded {owner : Player} {resolution lock : UInt32}
    (hlock : RelativeLock.sequence resolution = .ok lock)
    (hscript : c.prize owner resolution = .ok script) (hfits : script.size ≤ maxPush)
    (stack : List Bytes) :
    script.accepts ctx stack = true ↔
      PrizeTaken c ctx owner lock (demanded c.required) stack := by
  rw [accepts_prize hlock hscript hfits, takePrize, endsTrue_choose]
  simp only [endsTrue_bind, counting_eq_some_iff, awaits_eq_some_iff, endsTrue_checkKey,
    length_images]
  rw [images, others_none]
  constructor
  · intro h
    rcases h with ⟨selector, rest, rfl,
      ⟨hselector, _, ⟨items, rfl, hlen, hcount⟩, signature, _, rfl, hsign⟩ |
      ⟨hselector, _, ⟨hpasses, rfl⟩, signature, _, rfl, hsign⟩⟩
    · exact .won items hselector hlen hcount hsign
    · exact .refunded hselector hpasses hsign
  · intro h
    cases h with
    | won items hselector hlen hcount hsign =>
      exact ⟨_, _, rfl, .inl ⟨hselector, _, ⟨items, rfl, hlen, hcount⟩, _, _, rfl, hsign⟩⟩
    | refunded hselector hpasses hsign =>
      exact ⟨_, _, rfl, .inr ⟨hselector, _, ⟨hpasses, rfl⟩, _, _, rfl, hsign⟩⟩

theorem PrizeTaken.least_le {owner : Player} {lock : UInt32} {least : Nat} {selector : Bytes}
    {rest : List Bytes} (h : PrizeTaken c ctx owner lock least (selector :: rest))
    (hselector : isTrue selector = true) : least ≤ c.committee.length := by
  cases h with
  | won _ _ hlen hcount =>
    have hle := Nat.le_trans hcount (matching_le_length ..)
    rwa [List.length_map] at hle
  | refunded hfalse =>
    rw [hselector] at hfalse
    cases hfalse

theorem accepts_prize_iff {owner : Player} {resolution lock : UInt32}
    (hlock : RelativeLock.sequence resolution = .ok lock)
    (hscript : c.prize owner resolution = .ok script) (hfits : script.size ≤ maxPush)
    (stack : List Bytes) :
    (c.required.toNat ≤ 2 ^ 64 - 2 ^ 31 → (script.accepts ctx stack = true ↔
      PrizeTaken c ctx owner lock c.required.toNat stack)) ∧
    (2 ^ 64 - 2 ^ 31 < c.required.toNat → (script.accepts ctx stack = true ↔
      PrizeTaken c ctx owner lock 0 stack)) := by
  have hdemanded : script.accepts ctx stack = true ↔ _ :=
    accepts_prize_iff_demanded hlock hscript hfits stack
  constructor <;> intro hrequired
  · rwa [demanded_of_le hrequired] at hdemanded
  · rwa [demanded_of_lt hrequired] at hdemanded

/-- A contract that asks for more openings than there are numbers for. -/
def greedy : Contract where
  players := ⟨⟨⟨0x79be667ef9dcbbac55a06295ce870b07029bfcdb2dce28d959f2815b16f81798,
      0x483ada7726a3c4655da4fbfc0e1108a8fd17b448a68554199c47d08ffb10d4b8,
      by decide, by decide, by decide⟩, true, .testnet⟩,
    ⟨⟨0xc6047f9441ed7d6d3045406e95c07cd85c778e4b8cef3ca7abac09b95c709ee5,
      0x1ae168fea63dc339a3c58419466ceaeef7f632653266d0e1236431a950cfe52a,
      by decide, by decide, by decide⟩, true, .testnet⟩⟩
  committee := [⟨⟨⟨0xf9308a019258c31049344f85f89d5229b531c845836f99b08601f113bce036f9,
      0x388f7b0f632de8140fe337e62a37f3566500a99934c2231b6cb9fd7584b8e672,
      by decide, by decide, by decide⟩, true, .testnet⟩, ⟨hash160 [0], hash160 [1]⟩⟩]
  required := 0xffffffffffffffff

/-- A spend that is signed by everyone and waits for nothing. -/
def hasty : Context := ⟨2, RelativeLock.final, fun _ signature => signature = [1]⟩

/-- A script that was built and fits, of a contract whose evaluation said so. -/
theorem exists_of_any (result : Outcome Script)
    (h : (result.toOption.any fun script => script.size ≤ maxPush) = true) :
    ∃ script, result = .ok script ∧ script.size ≤ maxPush := by
  cases result with
  | error fault => cases h
  | ok script => exact ⟨script, rfl, of_decide_eq_true h⟩

theorem greedy_prize_taken : ∃ script, greedy.prize .A 512 = .ok script ∧
    script.accepts hasty [[1], [], [1]] = true ∧
    ¬ PrizeTaken greedy hasty .A 0x400001 greedy.required.toNat [[1], [], [1]] := by
  obtain ⟨script, hscript, hfits⟩ :=
    exists_of_any (greedy.prize .A 512) (by decide +kernel)
  have htaken : PrizeTaken greedy hasty .A 0x400001 0 [[1], [], [1]] :=
    .won [[]] rfl rfl (Nat.zero_le _) rfl
  have hlock : RelativeLock.sequence 512 = .ok 0x400001 := rfl
  have haccepts := ((accepts_prize_iff hlock hscript hfits _).2 (by decide)).2 htaken
  refine ⟨script, hscript, haccepts, fun h => ?_⟩
  exact absurd (h.least_le rfl) (by decide)

/-! ## Answer payments -/

/-- The stacks with which the payment of the oracle at `position` is taken, where a player who
refutes the oracle shows at least `least` openings of the others. -/
inductive AnswerTaken (c : Contract) (ctx : Context) (position : Nat) (seat : Seat)
    (resolutionLock replyLock : UInt32) (least : Nat) : List Bytes → Prop
  /-- The oracle answered, and the resolution lock has passed. -/
  | collected {outer inner preimage signature : Bytes} {rest : List Bytes} :
    isTrue outer = true →
    isTrue inner = true →
    ctx.passes resolutionLock = true →
    hash160 preimage = seat.image .A ∨ hash160 preimage = seat.image .B →
    ctx.signs seat.oracle.bytes signature = true →
    AnswerTaken c ctx position seat resolutionLock replyLock least
      (outer :: inner :: preimage :: signature :: rest)
  /-- Both players take it back, and the reply lock has passed. -/
  | returned {outer inner signatureB signatureA extra : Bytes} {rest : List Bytes} :
    isTrue outer = true →
    isTrue inner = false →
    ctx.passes replyLock = true →
    ctx.signs c.players.b.bytes signatureB = true →
    ctx.signs c.players.a.bytes signatureA = true →
    AnswerTaken c ctx position seat resolutionLock replyLock least
      (outer :: inner :: signatureB :: signatureA :: extra :: rest)
  /-- The oracle announced the player who lost by the others' announcements. -/
  | refuted {outer inner preimage signature : Bytes} {rest : List Bytes} (winner : Player)
    (items : List Bytes) :
    isTrue outer = false →
    isTrue inner = winner.selector →
    hash160 preimage = seat.image winner.other →
    items.length = (c.committee.eraseIdx position).length →
    least ≤ matching ((c.committee.eraseIdx position).map (·.image winner)) items →
    ctx.signs (c.players.get winner).bytes signature = true →
    AnswerTaken c ctx position seat resolutionLock replyLock least
      (outer :: inner :: preimage :: (items ++ signature :: rest))

theorem AnswerTaken.least_le {position : Nat} {seat : Seat} {resolutionLock replyLock : UInt32}
    {least : Nat} {outer : Bytes} {rest : List Bytes}
    (h : AnswerTaken c ctx position seat resolutionLock replyLock least (outer :: rest))
    (houter : isTrue outer = false) : least ≤ (c.committee.eraseIdx position).length := by
  cases h with
  | refuted winner _ _ _ _ hlen hcount =>
    have hle := Nat.le_trans hcount (matching_le_length ..)
    rwa [List.length_map] at hle
  | collected htrue | returned htrue =>
    rw [houter] at htrue
    cases htrue

theorem accepts_answer_iff_demanded {seat : Seat} {position : Nat} {resolution reply : UInt32}
    {resolutionLock replyLock : UInt32} (hseat : c.committee[position]? = some seat)
    (hresolution : RelativeLock.sequence resolution = .ok resolutionLock)
    (hreply : RelativeLock.sequence reply = .ok replyLock)
    (hscript : c.answer position resolution reply = .ok script)
    (hfits : script.size ≤ maxPush) (stack : List Bytes) :
    script.accepts ctx stack = true ↔
      AnswerTaken c ctx position seat resolutionLock replyLock (demanded c.required) stack := by
  rw [accepts_answer hseat hresolution hreply hscript hfits, takeAnswer, endsTrue_choose]
  simp only [endsTrue_bind, endsTrue_choose, Option.bind_eq_some_iff, counting_eq_some_iff,
    awaits_eq_some_iff, opening_eq_some_iff, endsTrue_checkKey, endsTrue_checkBoth,
    length_images, List.mem_cons, List.not_mem_nil, or_false]
  rw [images, images, others_some]
  constructor
  · intro h
    rcases h with ⟨outer, _, rfl, ⟨houter, inner, _, rfl, h⟩ | ⟨houter, inner, _, rfl, h⟩⟩
    · rcases h with
        ⟨hinner, _, ⟨hpasses, rfl⟩, _, ⟨preimage, rfl, himage⟩, signature, _, rfl, hsign⟩ |
        ⟨hinner, _, ⟨hpasses, rfl⟩, y, x, extra, _, rfl, hy, hx⟩
      · exact .collected houter hinner hpasses himage hsign
      · exact .returned houter hinner hpasses hy hx
    · rcases h with
        ⟨hinner, _, ⟨_, ⟨preimage, rfl, himage⟩, items, rfl, hlen, hcount⟩, signature, _, rfl,
          hsign⟩ |
        ⟨hinner, _, ⟨_, ⟨preimage, rfl, himage⟩, items, rfl, hlen, hcount⟩, signature, _, rfl,
          hsign⟩
      · exact .refuted .B items houter hinner himage hlen hcount hsign
      · exact .refuted .A items houter hinner himage hlen hcount hsign
  · intro h
    cases h with
    | collected houter hinner hpasses himage hsign =>
      exact ⟨_, _, rfl, .inl ⟨houter, _, _, rfl,
        .inl ⟨hinner, _, ⟨hpasses, rfl⟩, _, ⟨_, rfl, himage⟩, _, _, rfl, hsign⟩⟩⟩
    | returned houter hinner hpasses hy hx =>
      exact ⟨_, _, rfl, .inl ⟨houter, _, _, rfl,
        .inr ⟨hinner, _, ⟨hpasses, rfl⟩, _, _, _, _, rfl, hy, hx⟩⟩⟩
    | refuted winner items houter hinner himage hlen hcount hsign =>
      cases winner with
      | A => exact ⟨_, _, rfl, .inr ⟨houter, _, _, rfl,
          .inr ⟨hinner, _, ⟨_, ⟨_, rfl, himage⟩, items, rfl, hlen, hcount⟩, _, _, rfl, hsign⟩⟩⟩
      | B => exact ⟨_, _, rfl, .inr ⟨houter, _, _, rfl,
          .inl ⟨hinner, _, ⟨_, ⟨_, rfl, himage⟩, items, rfl, hlen, hcount⟩, _, _, rfl, hsign⟩⟩⟩

theorem accepts_answer_iff {seat : Seat} {position : Nat} {resolution reply : UInt32}
    {resolutionLock replyLock : UInt32} (hseat : c.committee[position]? = some seat)
    (hresolution : RelativeLock.sequence resolution = .ok resolutionLock)
    (hreply : RelativeLock.sequence reply = .ok replyLock)
    (hscript : c.answer position resolution reply = .ok script)
    (hfits : script.size ≤ maxPush) (stack : List Bytes) :
    (c.required.toNat ≤ 2 ^ 64 - 2 ^ 31 → (script.accepts ctx stack = true ↔
      AnswerTaken c ctx position seat resolutionLock replyLock c.required.toNat stack)) ∧
    (2 ^ 64 - 2 ^ 31 < c.required.toNat → (script.accepts ctx stack = true ↔
      AnswerTaken c ctx position seat resolutionLock replyLock 0 stack)) := by
  have hdemanded : script.accepts ctx stack = true ↔ _ :=
    accepts_answer_iff_demanded hseat hresolution hreply hscript hfits stack
  constructor <;> intro hrequired
  · rwa [demanded_of_le hrequired] at hdemanded
  · rwa [demanded_of_lt hrequired] at hdemanded

/-- The greedy contract with two more seats, for any number of openings. -/
def crowded (required : UInt64) : Contract where
  players := greedy.players
  committee := greedy.committee ++
    [⟨⟨⟨0x2f8bde4d1a07209355b4a7250a5c5128e88b84bddc619ab7cba8d569b240efe4,
        0xd8ac222636e5e3d6d4dba9dda6c9c426f788271bab0d6840dca87d3aa6ac62d6,
        by decide, by decide, by decide⟩, true, .testnet⟩, ⟨hash160 [2], hash160 [3]⟩⟩,
      ⟨⟨⟨0xfff97bd5755eeea420453a14355235d382f6472f8568a18b2f057a1460297556,
        0xae12777aacfbb620f3be96017f45c560de80f0f6518fe4a03c870c36b075f297,
        by decide, by decide, by decide⟩, true, .testnet⟩, ⟨hash160 [4], hash160 [5]⟩⟩]
  required

/-- Player B refutes the last of three oracles. Where the openings of both others are demanded, they
are enough; where more are demanded than there are numbers for, none is needed. -/
theorem greedy_answer_taken :
    (∃ script, (crowded 2).answer 2 604800 1209600 = .ok script ∧
      script.accepts hasty [[], [1], [4], [1], [3], [1]] = true) ∧
    ∃ script, (crowded greedy.required).answer 2 604800 1209600 = .ok script ∧
      script.accepts hasty [[], [1], [4], [], [], [1]] = true ∧
      ∀ seat, ¬ AnswerTaken (crowded greedy.required) hasty 2 seat 0x40049d 0x40093a
        greedy.required.toNat [[], [1], [4], [], [], [1]] := by
  have hresolution : RelativeLock.sequence 604800 = .ok 0x40049d := rfl
  have hreply : RelativeLock.sequence 1209600 = .ok 0x40093a := rfl
  constructor
  · obtain ⟨script, hscript, hfits⟩ :=
      exists_of_any ((crowded 2).answer 2 604800 1209600) (by decide +kernel)
    have hcount : 2 ≤ matching [hash160 [1], hash160 [3]] [[1], [3]] := by simp [matching]
    have htaken : AnswerTaken (crowded 2) hasty 2 (crowded 2).committee[2] 0x40049d 0x40093a 2
        [[], [1], [4], [1], [3], [1]] :=
      .refuted .B [[1], [3]] rfl rfl rfl rfl hcount rfl
    exact ⟨script, hscript,
      ((accepts_answer_iff rfl hresolution hreply hscript hfits _).1 (by decide)).2 htaken⟩
  · obtain ⟨script, hscript, hfits⟩ :=
      exists_of_any ((crowded greedy.required).answer 2 604800 1209600) (by decide +kernel)
    have htaken : AnswerTaken (crowded greedy.required) hasty 2
        (crowded greedy.required).committee[2] 0x40049d 0x40093a 0
        [[], [1], [4], [], [], [1]] :=
      .refuted .B [[], []] rfl rfl rfl rfl (Nat.zero_le _) rfl
    have haccepts :=
      ((accepts_answer_iff rfl hresolution hreply hscript hfits _).2 (by decide)).2 htaken
    refine ⟨script, hscript, haccepts, fun seat h => ?_⟩
    exact absurd (h.least_le rfl) (by decide)

/-! ## Deposits -/

/-- The stacks with which the deposit of an oracle is taken. -/
inductive DepositTaken (c : Contract) (ctx : Context) (seat : Seat) (lock : UInt32) :
    List Bytes → Prop
  /-- The oracle announced both outcomes to a player. -/
  | forfeited {outer inner signature : Bytes} {rest : List Bytes} (player : Player)
    (preimages : Sides Bytes) :
    isTrue outer = true →
    (∀ outcome, hash160 (preimages.get outcome) = seat.image outcome) →
    isTrue inner = player.selector →
    ctx.signs (c.players.get player).bytes signature = true →
    DepositTaken c ctx seat lock
      (outer :: preimages.a :: preimages.b :: inner :: signature :: rest)
  /-- The oracle takes it back, and the lock has passed. -/
  | kept {outer signature : Bytes} {rest : List Bytes} :
    isTrue outer = false →
    ctx.passes lock = true →
    ctx.signs seat.oracle.bytes signature = true →
    DepositTaken c ctx seat lock (outer :: signature :: rest)

/-- An oracle takes the deposit back only after the lock has passed. -/
theorem DepositTaken.passes {seat : Seat} {lock : UInt32} {outer : Bytes} {rest : List Bytes}
    (h : DepositTaken c ctx seat lock (outer :: rest)) (houter : isTrue outer = false) :
    ctx.passes lock = true := by
  cases h with
  | forfeited _ _ htrue =>
    rw [houter] at htrue
    cases htrue
  | kept _ hpasses => exact hpasses

theorem accepts_insurance_iff {seat : Seat} {position : Nat} {reply lock : UInt32}
    (hseat : c.committee[position]? = some seat) (hlock : RelativeLock.sequence reply = .ok lock)
    (hscript : c.insurance position reply = .ok script) (stack : List Bytes) :
    script.accepts ctx stack = true ↔ DepositTaken c ctx seat lock stack := by
  have hboth {a b : Bytes} (ha : hash160 a = seat.image .A) (hb : hash160 b = seat.image .B)
      (outcome : Player) : hash160 ((⟨a, b⟩ : Sides Bytes).get outcome) = seat.image outcome := by
    cases outcome with
    | A => exact ha
    | B => exact hb
  rw [accepts_insurance hseat hlock hscript, takeInsurance, endsTrue_choose]
  simp only [endsTrue_bind, endsTrue_choose, Option.bind_eq_some_iff, awaits_eq_some_iff,
    opening_eq_some_iff, endsTrue_checkKey, List.mem_singleton]
  constructor
  · intro h
    rcases h with ⟨outer, _, rfl, ⟨houter, _, ⟨_, ⟨a, rfl, ha⟩, b, rfl, hb⟩, inner, _, rfl, h⟩ |
      ⟨houter, _, ⟨hpasses, rfl⟩, signature, _, rfl, hsign⟩⟩
    · rcases h with ⟨hinner, signature, _, rfl, hsign⟩ | ⟨hinner, signature, _, rfl, hsign⟩
      · exact .forfeited .B ⟨a, b⟩ houter (hboth ha hb) hinner hsign
      · exact .forfeited .A ⟨a, b⟩ houter (hboth ha hb) hinner hsign
    · exact .kept houter hpasses hsign
  · intro h
    cases h with
    | forfeited player preimages houter hopened hinner hsign =>
      refine ⟨_, _, rfl, .inl ⟨houter, _, ⟨_, ⟨_, rfl, hopened .A⟩, _, rfl, hopened .B⟩, _, _, rfl,
        ?_⟩⟩
      cases player with
      | A => exact .inr ⟨hinner, _, _, rfl, hsign⟩
      | B => exact .inl ⟨hinner, _, _, rfl, hsign⟩
    | kept houter hpasses hsign =>
      exact ⟨_, _, rfl, .inr ⟨houter, _, ⟨hpasses, rfl⟩, _, _, rfl, hsign⟩⟩

/-- Every seat has an insurance script for every lock, and a deposit that pays it is taken in the
two ways and in no other. -/
theorem insurance_taken_iff {seat : Seat} {position : Nat} {reply lock : UInt32}
    (hseat : c.committee[position]? = some seat)
    (hlock : RelativeLock.sequence reply = .ok lock) :
    ∃ script, c.insurance position reply = .ok script ∧ ∀ (ctx : Context) (stack : List Bytes),
      script.accepts ctx stack = true ↔ DepositTaken c ctx seat lock stack := by
  have hscript : c.insurance position reply = .ok (c.insuranceScript seat lock) :=
    (builtFrom_insurance hseat).2 ⟨lock, hlock, rfl⟩
  refine ⟨_, hscript, ?_⟩
  intro ctx stack
  exact accepts_insurance_iff hseat hlock hscript stack

/-- Player A takes the deposit of an oracle who opened both images, and the oracle does not get it
back in a hurry. -/
theorem greedy_deposit_taken : ∃ script, greedy.insurance 0 512 = .ok script ∧
    script.accepts hasty [[1], [0], [1], [], [1]] = true ∧
    script.accepts hasty [[], [1]] = false := by
  have hseat : greedy.committee[0]? = some greedy.committee[0] := rfl
  have hlock : RelativeLock.sequence 512 = .ok 0x400001 := rfl
  obtain ⟨script, hscript, htaken⟩ := insurance_taken_iff hseat hlock
  refine ⟨script, hscript, ?_, ?_⟩
  · have hopened : ∀ outcome, hash160 ((⟨[0], [1]⟩ : Sides Bytes).get outcome) =
        greedy.committee[0].image outcome := by
      intro outcome
      cases outcome <;> rfl
    exact (htaken hasty _).2 (.forfeited .A ⟨[0], [1]⟩ rfl hopened rfl rfl)
  · rw [Bool.eq_false_iff]
    intro haccepts
    have hpasses := ((htaken hasty _).1 haccepts).passes rfl
    exact absurd hpasses (by decide)

end Wager.Contract
