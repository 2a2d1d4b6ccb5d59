/-!
# The two sides

Player A wins on outcome 0 and player B on outcome 1, so an outcome is named by its winner.
-/

namespace Wager

inductive Player
  | A
  | B
deriving DecidableEq, Repr

namespace Player

def all : List Player := [.A, .B]

def other : Player → Player
  | .A => .B
  | .B => .A

@[simp] theorem other_other (p : Player) : p.other.other = p := by cases p <;> rfl

/-- What is pushed to select this player's branch of a script. -/
def selector : Player → Bool
  | .A => false
  | .B => true

def text : Player → String
  | .A => "A"
  | .B => "B"

end Player

/-- Something that each player has one of. -/
structure Sides (α : Type) where
  a : α
  b : α
deriving DecidableEq

namespace Sides

variable {α β : Type}

def get (s : Sides α) : Player → α
  | .A => s.a
  | .B => s.b

def map (f : α → β) (s : Sides α) : Sides β := ⟨f s.a, f s.b⟩

theorem get_map (f : α → β) (s : Sides α) (p : Player) : (s.map f).get p = f (s.get p) := by
  cases p <;> rfl

def toList (s : Sides α) : List α := [s.a, s.b]

end Sides

end Wager
