import Wager.Chain.Script
import Wager.Peer.Channel
import Wager.Terms.Seat

/-!
# Revealed preimages

A slot for each seat of the committee holds the preimage that was revealed for it, if any. A
preimage is recorded (`Openings.record`) only if it opens one of the seat's images; a later one
takes the place of an earlier one.
-/

namespace Wager

structure Openings where
  slots : List (Option Bytes)
deriving DecidableEq

namespace Openings

/-- Nothing revealed yet. -/
def new (seats : Nat) : Openings := ⟨List.replicate seats none⟩

def size (o : Openings) : Nat := o.slots.length

/-- The preimage revealed for a seat. -/
def get? (o : Openings) (position : Nat) : Option Bytes := (o.slots[position]?).join

/-- Records a preimage in its slot; gives the outcome that it announces. -/
def record (committee : List Seat) (position : Nat) (preimage : Bytes) :
    Exchange Openings Player := do
  let o ← get
  if committee.length ≠ o.size then
    throw (.inconsistent (.commitmentCount committee.length o.size))
  let seat ← need (.malformed (.seat position)) committee[position]?
  let outcome ← need (.inconsistent (.strayPreimage seat.oracle.address.text))
    (seat.outcome? preimage)
  set (⟨o.slots.set position (some preimage)⟩ : Openings)
  return outcome

/-- The outcome that a preimage announces, and what is recorded then. -/
def reveal (o : Openings) (committee : List Seat) (position : Nat) (preimage : Bytes) :
    Outcome (Player × Openings) :=
  let (outcome, next) := (record committee position preimage).run o
  outcome.map (·, next)

/-- What is recorded after a series of calls, each given with its place and its preimage. A call
leaves what it leaves, accepted or not. -/
def replay (committee : List Seat) (o : Openings) (reveals : List (Nat × Bytes)) : Openings :=
  reveals.foldl (fun o (position, preimage) => ((record committee position preimage).run o).2) o

theorem replay_append (committee : List Seat) (o : Openings) (xs ys : List (Nat × Bytes)) :
    o.replay committee (xs ++ ys) = (o.replay committee xs).replay committee ys :=
  List.foldl_append

/-- How many preimages announce `winner`, the seat `exclude` left out. -/
def count (o : Openings) (committee : List Seat) (winner : Player) (exclude : Option Nat) : Nat :=
  (others exclude (o.slots.zip committee)).countP fun (slot, seat) =>
    slot.any (seat.opens winner)

/-- The arguments for a script that counts preimages. They are pushed in reverse order, so that
the one for the first seat ends on top; an empty slot pushes an empty item. -/
def items (o : Openings) (exclude : Option Nat) : List Script.Token :=
  (others exclude o.slots).reverse.map fun
    | some preimage => .push preimage
    | none => .op Opcode.op0

end Openings

end Wager
