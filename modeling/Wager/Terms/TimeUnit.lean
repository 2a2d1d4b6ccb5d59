/-! # Units of the resolution time -/

namespace Wager

inductive TimeUnit
  | seconds
  | minutes
  | hours
  | days
deriving DecidableEq, Repr

namespace TimeUnit

/-- The length of the unit in seconds. -/
def length : TimeUnit → UInt32
  | .seconds => 1
  | .minutes => 60
  | .hours => 3600
  | .days => 86400

/-- The byte that stands for the unit in an encoded bet. -/
def tag : TimeUnit → UInt8
  | .seconds => 0
  | .minutes => 1
  | .hours => 2
  | .days => 3

def ofTag? : UInt8 → Option TimeUnit
  | 0 => some .seconds
  | 1 => some .minutes
  | 2 => some .hours
  | 3 => some .days
  | _ => none

theorem ofTag?_tag (u : TimeUnit) : ofTag? u.tag = some u := by cases u <;> rfl

def name : TimeUnit → String
  | .seconds => "Seconds"
  | .minutes => "Minutes"
  | .hours => "Hours"
  | .days => "Days"

end TimeUnit

end Wager
