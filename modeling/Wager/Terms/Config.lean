import Wager.Terms.Bet

/-!
# Configuration

The network, how far the search for a committed script goes, and how many resolution times an
oracle has to reply. From the terms of a bet the configuration derives the nominal timeouts,
which the timeouts in its scripts are at least.
-/

namespace Wager

/-- How many timeouts are tried. -/
structure SearchBounds where
  /-- For a script with one timeout. -/
  single : UInt32 := 2000
  /-- For each timeout of a script with two. -/
  pair : UInt32 := 2000
deriving DecidableEq, Repr

structure Config where
  network : Network := .mainnet
  search : SearchBounds := {}
  /-- The reply time in resolution times. -/
  replyFactor : UInt32 := 2
deriving DecidableEq, Repr

namespace Config

def check (c : Config) : Outcome Unit := do
  if c.search.single = 0 ∨ c.search.pair = 0 then throw (.configuration .searchBounds)
  if c.replyFactor < 2 then throw (.configuration (.replyFactor c.replyFactor))

/-- The nominal resolution and reply timeouts, in seconds. -/
def nominal (c : Config) (b : Bet) : Outcome (UInt32 × UInt32) := do
  let resolution ← b.timeout.seconds
  let reply ← need (.malformed (.replyOverflow resolution))
    (Seconds.mul? resolution c.replyFactor)
  return (resolution, reply)

end Config

end Wager
