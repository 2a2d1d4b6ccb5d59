import Wager.Chain.RelativeLock
import Wager.Terms.Config
import Wager.Terms.Seat

/-!
# The scripts of a bet

**Payment.** Each oracle's share of the promise is locked until both players sign.

**Prize.** A player's stake goes to the rival once enough oracles announce them, or back to the
player after the resolution timeout.

**Answer.** An oracle's payment goes to the oracle for either preimage after the resolution
timeout, back to both players after the reply timeout, or to a player against whom this oracle
announced while enough of the others announced them.

**Insurance.** An oracle's deposit goes to either player for both preimages, or back to the
oracle after the reply timeout.

A script has to fit the one push that redeems it, which `Contract.checkSpendable` checks for all
scripts of a committee.
-/

namespace Wager

/-- What the scripts of a bet depend on. -/
structure Contract where
  players : Sides PublicKey
  committee : List Seat
  required : UInt64

namespace Contract

open Script (Piece)

def ofBet (b : Bet) (committee : List Seat) : Contract := ⟨b.players, committee, b.required⟩

def seat (c : Contract) (position : Nat) : Outcome Seat :=
  need (.malformed (.seatOf position c.committee.length)) c.committee[position]?

/-- The images that announce `winner`, in committee order, one seat left out. -/
def images (c : Contract) (winner : Player) (exclude : Option Nat) : List Hash160 :=
  (others exclude c.committee).map (·.image winner)

def payment (c : Contract) : Outcome Script :=
  Script.multisig 2 c.players.toList

def prize (c : Contract) (owner : Player) (resolution : UInt32) : Outcome Script := do
  let rival := owner.other
  let lock ← RelativeLock.sequence resolution
  Script.assemble <|
    [.op Opcode.opIf] ++ Piece.threshold (c.images rival none) c.required ++
    [.key (c.players.get rival), .op Opcode.checkSig, .op Opcode.opElse] ++
    Piece.relativeLock lock ++
    [.key (c.players.get owner), .op Opcode.checkSig, .op Opcode.endIf]

/-- The pieces of a claim by `winner` to a payment: this oracle announced the other player while
enough of the rest announced `winner`. -/
def refutation (c : Contract) (seat : Seat) (position : Nat) (winner : Player) : List Piece :=
  [.op Opcode.hash160, .push (seat.image winner.other).toList, .op Opcode.equalVerify] ++
  Piece.threshold (c.images winner (some position)) c.required ++
  [.key (c.players.get winner)]

def answer (c : Contract) (position : Nat) (resolution reply : UInt32) : Outcome Script := do
  let seat ← c.seat position
  let resolutionLock ← RelativeLock.sequence resolution
  let replyLock ← RelativeLock.sequence reply
  let payment ← c.payment
  Script.assemble <|
    [.op Opcode.opIf, .op Opcode.opIf] ++ Piece.relativeLock resolutionLock ++
    [.op Opcode.hash160, .op Opcode.dup, .push (seat.image .A).toList, .op Opcode.equal,
     .op Opcode.swap, .push (seat.image .B).toList, .op Opcode.equal, .op Opcode.boolOr,
     .op Opcode.verify, .key seat.oracle, .op Opcode.checkSig, .op Opcode.opElse] ++
    Piece.relativeLock replyLock ++
    [.splice payment, .op Opcode.endIf, .op Opcode.opElse, .op Opcode.opIf] ++
    c.refutation seat position .B ++ [.op Opcode.opElse] ++ c.refutation seat position .A ++
    [.op Opcode.endIf, .op Opcode.checkSig, .op Opcode.endIf]

def insurance (c : Contract) (position : Nat) (reply : UInt32) : Outcome Script := do
  let seat ← c.seat position
  let lock ← RelativeLock.sequence reply
  Script.assemble <|
    [.op Opcode.opIf,
     .op Opcode.hash160, .push (seat.image .A).toList, .op Opcode.equalVerify,
     .op Opcode.hash160, .push (seat.image .B).toList, .op Opcode.equalVerify,
     .op Opcode.opIf, .key c.players.b, .op Opcode.opElse, .key c.players.a, .op Opcode.endIf,
     .op Opcode.checkSig, .op Opcode.opElse] ++
    Piece.relativeLock lock ++
    [.key seat.oracle, .op Opcode.checkSig, .op Opcode.endIf]

/-- The locks of a bet, in the order in which they are checked. -/
def locks (c : Contract) : List Lock :=
  Player.all.map .prize ++
    (List.range c.committee.length).flatMap fun i => [.answer i, .insurance i]

/-- The script of a lock. -/
def script (c : Contract) (resolution reply : UInt32) : Lock → Outcome Script
  | .prize owner => c.prize owner resolution
  | .answer position => c.answer position resolution reply
  | .insurance position => c.insurance position reply

/-- Fails unless every script of the committee can be redeemed. -/
def checkSpendable (c : Contract) (resolution reply : UInt32) : Outcome Unit := do
  let scripts ← c.locks.mapM fun lock => do return (lock, ← c.script resolution reply lock)
  match scripts.find? fun (_, script) => Script.maxPush < script.size with
  | some (lock, script) =>
    inconsistent (.oversizedScript lock script.size c.committee.length)
  | none => .ok ()

end Contract

end Wager
