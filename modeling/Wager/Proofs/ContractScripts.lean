import Wager.Contract.Scripts
import Wager.Proofs.Committees

/-!
# The scripts of a bet, run

Each script of a bet is one conditional whose branches are made of conditions, so what it does to a
stack is a function built from theirs. From these functions follow the ways to take a prize, an
answer payment and a deposit, for every stack that a spend can leave to the script.

**Thresholds.** A script demands the required number of openings (`Script.demanded`), save that the
largest numbers demand none: a bet that passes its checks is far from them, but the scripts can be
built for any number.
-/

namespace Wager.Contract

open Script Script.Piece

variable {c : Contract} {ctx : Context} {script : Script}

theorem length_images (winner : Player) (exclude : Option Nat) :
    (c.images winner exclude).length = (others exclude c.committee).length := by
  rw [images, List.length_map]

/-- A threshold takes more bytes than it has images. -/
theorem length_le_size_threshold (images : List Hash160) (required : UInt64) :
    images.length ≤ ((threshold images required).map Piece.size).sum := by
  have htally : images.length ≤ ((images.flatMap tally).map Piece.size).sum := by
    induction images with
    | nil => simp
    | cons image images ih =>
      rw [List.flatMap_cons, List.map_append, List.sum_append, List.length_cons]
      have hone : 1 ≤ ((tally image).map Piece.size).sum := by simp [tally, Piece.size]
      omega
  simp only [threshold_eq, List.map_append, List.sum_append]
  omega

/-! ## Prizes -/

def prizePieces (c : Contract) (owner : Player) (lock : UInt32) : List Piece :=
  let rival := owner.other
  [.op Opcode.opIf] ++ Piece.threshold (c.images rival none) c.required ++
    [.key (c.players.get rival), .op Opcode.checkSig, .op Opcode.opElse] ++
    Piece.relativeLock lock ++
    [.key (c.players.get owner), .op Opcode.checkSig, .op Opcode.endIf]

theorem prize_eq_ok_iff {owner : Player} {resolution : UInt32} :
    c.prize owner resolution = .ok script ↔ ∃ lock, RelativeLock.sequence resolution = .ok lock ∧
      assemble (c.prizePieces owner lock) = .ok script :=
  Outcome.bind_eq_ok

/-- What a prize does with a stack. -/
def takePrize (c : Contract) (ctx : Context) (owner : Player) (lock : UInt32) :
    List Bytes → Option (List Bytes) :=
  choose
    (fun stack => (counting (c.images owner.other none) c.required stack).bind
      (ctx.checkKey (c.players.get owner.other).bytes))
    (fun stack => (ctx.awaits lock stack).bind (ctx.checkKey (c.players.get owner).bytes))

theorem performs_prize {owner : Player} (lock : UInt32)
    (hsize : (c.images owner.other none).length < 2 ^ 31) :
    Performs ctx (c.prizePieces owner lock) (c.takePrize ctx owner lock) := by
  have hwon := (performs_threshold (c := ctx) _ c.required hsize).append
    (performs_checkKey (c.players.get owner.other))
  have hback := (performs_relativeLock (c := ctx) lock).append
    (performs_checkKey (c.players.get owner))
  convert hwon.conditional hback using 1
  · simp [prizePieces]
  · rfl

/-- A prize script that fits a push has no more images than a count can hold. -/
theorem length_images_lt_of_prize {owner : Player} {lock : UInt32}
    (hassemble : assemble (c.prizePieces owner lock) = .ok script) (hfits : script.size ≤ maxPush) :
    (c.images owner.other none).length < 2 ^ 31 := by
  have hsum := size_of_assemble hassemble
  have hthreshold := length_le_size_threshold (c.images owner.other none) c.required
  simp only [prizePieces, List.map_append, List.sum_append] at hsum
  change script.size ≤ 520 at hfits
  omega

theorem accepts_prize {owner : Player} {resolution lock : UInt32}
    (hlock : RelativeLock.sequence resolution = .ok lock)
    (hscript : c.prize owner resolution = .ok script) (hfits : script.size ≤ maxPush)
    (stack : List Bytes) :
    script.accepts ctx stack = endsTrue (c.takePrize ctx owner lock stack) := by
  obtain ⟨_, hlock', hassemble⟩ := prize_eq_ok_iff.1 hscript
  obtain rfl := Except.ok.inj (hlock.symm.trans hlock')
  exact (performs_prize lock (length_images_lt_of_prize hassemble hfits)).accepts hassemble stack

/-! ## Answer payments -/

/-- The signature of the key that the taken branch has left on top. -/
theorem choose_bind_checkSig {first second : Bytes} (f g : List Bytes → Option (List Bytes))
    (stack : List Bytes) :
    (choose (fun stack => (f stack).map (first :: ·)) (fun stack => (g stack).map (second :: ·))
      stack).bind (ctx.operate Opcode.checkSig) =
    choose (fun stack => (f stack).bind (ctx.checkKey first))
      (fun stack => (g stack).bind (ctx.checkKey second)) stack := by
  have hkey (key : Bytes) (result : Option (List Bytes)) :
      (result.map (key :: ·)).bind (ctx.operate Opcode.checkSig) =
        result.bind (ctx.checkKey key) := by
    rcases result with _ | ⟨_ | ⟨signature, stack⟩⟩ <;> rfl
  cases stack with
  | nil => rfl
  | cons x stack => cases hx : isTrue x <;> simp [choose, hx, hkey]

/-- What a player's part of a refutation does, up to the signature. -/
theorem performs_refutation (seat : Seat) (position : Nat) (winner : Player)
    (hsize : (c.images winner (some position)).length < 2 ^ 31) :
    Performs ctx (c.refutation seat position winner) fun stack =>
      ((opening [seat.image winner.other] stack).bind
        (counting (c.images winner (some position)) c.required)).map
          ((c.players.get winner).bytes :: ·) := by
  refine (((performs_opening _).append (performs_threshold _ _ hsize)).append
    (performs_push _)).congr fun stack => ?_
  cases (opening [seat.image winner.other] stack).bind _ <;> rfl

def answerPieces (c : Contract) (seat : Seat) (position : Nat) (resolutionLock replyLock : UInt32)
    (payment : Script) : List Piece :=
  [.op Opcode.opIf, .op Opcode.opIf] ++ Piece.relativeLock resolutionLock ++
    [.op Opcode.hash160, .op Opcode.dup, .push (seat.image .A).toList, .op Opcode.equal,
     .op Opcode.swap, .push (seat.image .B).toList, .op Opcode.equal, .op Opcode.boolOr,
     .op Opcode.verify, .key seat.oracle, .op Opcode.checkSig, .op Opcode.opElse] ++
    Piece.relativeLock replyLock ++
    [.splice payment, .op Opcode.endIf, .op Opcode.opElse, .op Opcode.opIf] ++
    c.refutation seat position .B ++ [.op Opcode.opElse] ++ c.refutation seat position .A ++
    [.op Opcode.endIf, .op Opcode.checkSig, .op Opcode.endIf]

theorem answer_eq_ok_iff {position : Nat} {resolution reply : UInt32} :
    c.answer position resolution reply = .ok script ↔
      ∃ seat, c.committee[position]? = some seat ∧
      ∃ resolutionLock, RelativeLock.sequence resolution = .ok resolutionLock ∧
      ∃ replyLock, RelativeLock.sequence reply = .ok replyLock ∧
      ∃ payment, c.payment = .ok payment ∧
        assemble (c.answerPieces seat position resolutionLock replyLock payment) = .ok script := by
  rw [answer]
  simp only [Outcome.bind_eq_ok, Contract.seat, Outcome.need_eq_ok]
  rfl

/-- An answer script that fits a push has no more images than a count can hold. -/
theorem length_images_lt_of_answer {seat : Seat} {position : Nat}
    {resolutionLock replyLock : UInt32} {payment : Script}
    (hassemble : assemble (c.answerPieces seat position resolutionLock replyLock payment) =
      .ok script) (hfits : script.size ≤ maxPush) (winner : Player) :
    (c.images winner (some position)).length < 2 ^ 31 := by
  have hsum := size_of_assemble hassemble
  have hthreshold := length_le_size_threshold (c.images winner (some position)) c.required
  simp only [answerPieces, refutation, List.map_append, List.sum_append] at hsum
  change script.size ≤ 520 at hfits
  cases winner <;> omega

/-- What an answer payment does with a stack. -/
def takeAnswer (c : Contract) (ctx : Context) (seat : Seat) (position : Nat)
    (resolutionLock replyLock : UInt32) : List Bytes → Option (List Bytes) :=
  choose
    (choose
      (fun stack => (ctx.awaits resolutionLock stack).bind fun stack =>
        (opening [seat.image .A, seat.image .B] stack).bind (ctx.checkKey seat.oracle.bytes))
      (fun stack => (ctx.awaits replyLock stack).bind
        (ctx.checkBoth c.players.a.bytes c.players.b.bytes)))
    (choose
      (fun stack => ((opening [seat.image .A] stack).bind
        (counting (c.images .B (some position)) c.required)).bind
          (ctx.checkKey c.players.b.bytes))
      (fun stack => ((opening [seat.image .B] stack).bind
        (counting (c.images .A (some position)) c.required)).bind
          (ctx.checkKey c.players.a.bytes)))

theorem performs_answer {seat : Seat} {position : Nat} (resolutionLock replyLock : UInt32)
    {payment : Script} (hpayment : c.payment = .ok payment)
    (hsize : ∀ winner, (c.images winner (some position)).length < 2 ^ 31) :
    Performs ctx (c.answerPieces seat position resolutionLock replyLock payment)
      (c.takeAnswer ctx seat position resolutionLock replyLock) := by
  have hcollect := (performs_relativeLock (c := ctx) resolutionLock).append
    ((performs_openingEither (seat.image .A) (seat.image .B)).append
      (performs_checkKey seat.oracle))
  have hreturn := (performs_relativeLock (c := ctx) replyLock).append (performs_multisig hpayment)
  have hrefute := (((performs_refutation seat position .B (hsize .B)).conditional
    (performs_refutation seat position .A (hsize .A))).append
      (performs_op (c := ctx) Opcode.checkSig (by decide) (by decide))).congr
        (choose_bind_checkSig _ _)
  convert (hcollect.conditional hreturn).conditional hrefute using 1
  · simp [answerPieces]
  · rfl

theorem accepts_answer {seat : Seat} {position : Nat} {resolution reply : UInt32}
    {resolutionLock replyLock : UInt32} (hseat : c.committee[position]? = some seat)
    (hresolution : RelativeLock.sequence resolution = .ok resolutionLock)
    (hreply : RelativeLock.sequence reply = .ok replyLock)
    (hscript : c.answer position resolution reply = .ok script)
    (hfits : script.size ≤ maxPush) (stack : List Bytes) :
    script.accepts ctx stack =
      endsTrue (c.takeAnswer ctx seat position resolutionLock replyLock stack) := by
  obtain ⟨_, hseat', _, hresolution', _, hreply', payment, hpayment, hassemble⟩ :=
    answer_eq_ok_iff.1 hscript
  obtain rfl := Option.some.inj (hseat.symm.trans hseat')
  obtain rfl := Except.ok.inj (hresolution.symm.trans hresolution')
  obtain rfl := Except.ok.inj (hreply.symm.trans hreply')
  exact (performs_answer _ _ hpayment (length_images_lt_of_answer hassemble hfits)).accepts
    hassemble stack

/-! ## Deposits -/

def insurancePieces (c : Contract) (seat : Seat) (lock : UInt32) : List Piece :=
  [.op Opcode.opIf,
   .op Opcode.hash160, .push (seat.image .A).toList, .op Opcode.equalVerify,
   .op Opcode.hash160, .push (seat.image .B).toList, .op Opcode.equalVerify,
   .op Opcode.opIf, .key c.players.b, .op Opcode.opElse, .key c.players.a, .op Opcode.endIf,
   .op Opcode.checkSig, .op Opcode.opElse] ++
    Piece.relativeLock lock ++
    [.key seat.oracle, .op Opcode.checkSig, .op Opcode.endIf]

theorem insurance_eq_ok_iff {position : Nat} {reply : UInt32} :
    c.insurance position reply = .ok script ↔
      ∃ seat, c.committee[position]? = some seat ∧
      ∃ lock, RelativeLock.sequence reply = .ok lock ∧
        assemble (c.insurancePieces seat lock) = .ok script := by
  rw [insurance]
  simp only [Outcome.bind_eq_ok, Contract.seat, Outcome.need_eq_ok]
  rfl

/-- What a deposit does with a stack. -/
def takeInsurance (c : Contract) (ctx : Context) (seat : Seat) (lock : UInt32) :
    List Bytes → Option (List Bytes) :=
  choose
    (fun stack => ((opening [seat.image .A] stack).bind (opening [seat.image .B])).bind
      (choose (ctx.checkKey c.players.b.bytes) (ctx.checkKey c.players.a.bytes)))
    (fun stack => (ctx.awaits lock stack).bind (ctx.checkKey seat.oracle.bytes))

theorem performs_insurance (seat : Seat) (lock : UInt32) :
    Performs ctx (c.insurancePieces seat lock) (c.takeInsurance ctx seat lock) := by
  have hkey (key : PublicKey) : Performs ctx [.key key] fun stack => some (key.bytes :: stack) :=
    performs_push key.bytes
  have hsign := (((hkey c.players.b).conditional (hkey c.players.a)).append
    (performs_op Opcode.checkSig (by decide) (by decide))).congr
      (choose_bind_checkSig some some)
  have htake := (((performs_opening (seat.image .A)).append
    (performs_opening (seat.image .B))).append hsign)
  have hkeep := (performs_relativeLock lock).append (performs_checkKey (c := ctx) seat.oracle)
  convert htake.conditional hkeep using 1
  · simp [insurancePieces]
  · rfl

theorem accepts_insurance {seat : Seat} {position : Nat} {reply lock : UInt32}
    (hseat : c.committee[position]? = some seat)
    (hlock : RelativeLock.sequence reply = .ok lock)
    (hscript : c.insurance position reply = .ok script) (stack : List Bytes) :
    script.accepts ctx stack = endsTrue (c.takeInsurance ctx seat lock stack) := by
  obtain ⟨_, hseat', _, hlock', hassemble⟩ := insurance_eq_ok_iff.1 hscript
  obtain rfl := Option.some.inj (hseat.symm.trans hseat')
  obtain rfl := Except.ok.inj (hlock.symm.trans hlock')
  exact (performs_insurance seat lock).accepts hassemble stack

end Wager.Contract
