import Wager.Chain.Script
import Wager.Checked

/-!
# Relative locks

**Units.** A relative time lock is kept in the sequence number of an input in units of 512
seconds, so the seconds a script was built with cannot be read back from the ledger.

**Recovery.** To spend an output that commits to a script's hash, the script is rebuilt for the
timeouts `nominal`, `nominal + 512`, `nominal + 1024`, … until its hash is the committed one. The
first match wins. A script with two timeouts is searched in lexicographic order.
-/

namespace Wager.RelativeLock

/-- The sequence number of an input without a relative lock. -/
def final : UInt32 := 0xffffffff

/-- Set in a sequence number whose lock is a time. -/
def typeFlag : UInt32 := 0x00400000

/-- Set in a sequence number that carries no lock. -/
def disableFlag : UInt32 := 0x80000000

/-- The bits of a sequence number that hold the units. -/
def mask : UInt32 := 0xffff

/-- The sequence number that locks for the whole units in `seconds`. -/
def sequence (seconds : UInt32) : Outcome UInt32 :=
  let units := seconds >>> 9
  if mask < units then malformed (.relativeTimeout seconds) else .ok (typeFlag ||| units)

/-- The seconds of a time lock. -/
def seconds? (sequence : UInt32) : Option UInt32 :=
  if sequence &&& disableFlag ≠ 0 ∨ sequence &&& typeFlag = 0 then none
  else some ((sequence &&& mask) <<< 9)

/-- The seconds that the ledger keeps. -/
def quantize (seconds : UInt32) : UInt32 := (seconds >>> 9) <<< 9

/-! ## Recovery -/

/-- The timeout `offset` units after the nominal one, if a sequence number can hold it. -/
def candidate (nominal offset : UInt32) : Option UInt32 := do
  let step ← Seconds.mul? offset 512
  let timeout ← Seconds.add? nominal step
  if (sequence timeout).toBool then some timeout else none

/-- Tries `left` offsets from `offset` on. -/
def searchFrom (nominal : UInt32) (expected : Hash160) (build : UInt32 → Outcome Script) :
    (left : Nat) → (offset : UInt32) → Outcome (Option (Script × UInt32))
  | 0, _ => .ok none
  | left + 1, offset =>
    match candidate nominal offset with
    | none => .ok none
    | some timeout => do
      let script ← build timeout
      if script.hash = expected then return some (script, timeout)
      else searchFrom nominal expected build left (offset + 1)

/-- The first of `bound` timeouts whose script has the expected hash. -/
def search (label : String) (nominal bound : UInt32) (expected : Hash160)
    (build : UInt32 → Outcome Script) : Outcome (Script × UInt32) := do
  match ← searchFrom nominal expected build bound.toNat 0 with
  | some found => return found
  | none => throw (.unrecovered (.single label bound nominal))

/-- Tries `left` offsets of the first timeout from `offset` on, with every second timeout. -/
def searchPairFrom (first second bound : UInt32) (expected : Hash160)
    (build : UInt32 → UInt32 → Outcome Script) :
    (left : Nat) → (offset : UInt32) → Outcome (Option (Script × UInt32 × UInt32))
  | 0, _ => .ok none
  | left + 1, offset =>
    match candidate first offset with
    | none => .ok none
    | some timeout => do
      match ← searchFrom second expected (build timeout) bound.toNat 0 with
      | some (script, reply) => return some (script, timeout, reply)
      | none => searchPairFrom first second bound expected build left (offset + 1)

/-- The first of `bound * bound` pairs of timeouts whose script has the expected hash. -/
def searchPair (label : String) (first second bound : UInt32) (expected : Hash160)
    (build : UInt32 → UInt32 → Outcome Script) : Outcome (Script × UInt32 × UInt32) := do
  match ← searchPairFrom first second bound expected build bound.toNat 0 with
  | some found => return found
  | none => throw (.unrecovered (.pair label bound first second))

end Wager.RelativeLock
