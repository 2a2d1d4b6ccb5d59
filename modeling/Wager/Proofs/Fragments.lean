import Mathlib.Tactic.IntervalCases
import Wager.Chain.Machine
import Wager.Proofs.ScriptNumbers
import Wager.Proofs.Tokens

/-!
# What a part of a script does

A run of pieces that closes the conditionals it opens is a function of the stack
(`Piece.Performs`): it applies the function in a branch that is taken and does nothing in one that
is not. Such parts can be put one after the other and into the branches of a conditional, and a
script that is one such part accepts the stacks that its function leaves with a true item on top
(`Performs.accepts`).

The functions of the parts that occur here are named after what they ask for: a signature, the
passing of a lock, a preimage, or enough preimages.
-/

namespace Wager.Script

open Machine

/-! ## Running parts -/

namespace Machine

variable {c : Context} {m : Machine}

theorem run_cons (c : Context) (m : Machine) (t : Token) (ts : List Token) :
    m.run c (t :: ts) = (m.step c t).bind (·.run c ts) := List.foldlM_cons

theorem run_singleton (c : Context) (m : Machine) (t : Token) : m.run c [t] = m.step c t := by
  rw [run_cons]
  cases m.step c t <;> rfl

/-- The opcodes that open, switch or close a conditional. -/
def conditionals : List UInt8 := [Opcode.opIf, Opcode.notIf, Opcode.opElse, Opcode.endIf]

theorem step_op {code : UInt8} (h : code ∉ conditionals) :
    m.step c (.op code) =
      if m.isActive then (c.operate code m.stack).map (⟨·, m.branches⟩) else some m := by
  simp only [conditionals, List.mem_cons, List.not_mem_nil, or_false, not_or] at h
  obtain ⟨hIf, hNotIf, hElse, hEndIf⟩ := h
  unfold step
  split
  · next heq => cases heq
  · next heq => exact absurd (Token.op.inj heq) hIf
  · next heq => exact absurd (Token.op.inj heq) hNotIf
  · next heq => exact absurd (Token.op.inj heq) hElse
  · next heq => exact absurd (Token.op.inj heq) hEndIf
  · next heq =>
    cases heq
    rfl

theorem step_if : m.step c (.op Opcode.opIf) = m.branch true := rfl

theorem step_else {stack : List Bytes} {taken : Bool} {outer : List Bool} :
    step c ⟨stack, taken :: outer⟩ (.op Opcode.opElse) = some ⟨stack, (!taken) :: outer⟩ := rfl

theorem step_endIf {stack : List Bytes} {taken : Bool} {outer : List Bool} :
    step c ⟨stack, taken :: outer⟩ (.op Opcode.endIf) = some ⟨stack, outer⟩ := rfl

theorem isActive_cons {stack : List Bytes} {taken : Bool} {outer : List Bool} :
    (Machine.mk stack (taken :: outer)).isActive = (taken && (Machine.mk stack outer).isActive) :=
  rfl

end Machine

/-- What a conditional does whose branches do `f` and `g`. -/
def choose (f g : List Bytes → Option (List Bytes)) : List Bytes → Option (List Bytes)
  | [] => none
  | x :: stack => if isTrue x then f stack else g stack

/-- Whether a run has left a true item on top. -/
def endsTrue (result : Option (List Bytes)) : Bool :=
  result.any fun stack => stack.head?.any isTrue

namespace Piece

/-- The pieces can be read back; they change the stack by `f` where all branches are taken, and do
nothing elsewhere. -/
structure Performs (c : Context) (pieces : List Piece) (f : List Bytes → Option (List Bytes)) :
    Prop where
  readable : ∀ p ∈ pieces, p.Readable
  active : ∀ {stack : List Bytes} {branches : List Bool}, (Machine.mk stack branches).isActive →
    Machine.run c ⟨stack, branches⟩ (pieces.flatMap reading) = (f stack).map (⟨·, branches⟩)
  idle : ∀ {m : Machine}, m.isActive = false → m.run c (pieces.flatMap reading) = some m

namespace Performs

variable {c : Context} {xs ys : List Piece} {f g : List Bytes → Option (List Bytes)}

theorem congr (h : Performs c xs f) (hfg : ∀ stack, f stack = g stack) : Performs c xs g := by
  rwa [← funext hfg]

theorem append (hx : Performs c xs f) (hy : Performs c ys g) :
    Performs c (xs ++ ys) fun stack => (f stack).bind g where
  readable p hp := (List.mem_append.1 hp).elim (hx.readable p) (hy.readable p)
  active {stack branches} h := by
    rw [List.flatMap_append, run_append, hx.active h]
    cases f stack with
    | none => rfl
    | some stack => exact hy.active h
  idle {m} h := by
    rw [List.flatMap_append, run_append, hx.idle h]
    exact hy.idle h

theorem conditional (hx : Performs c xs f) (hy : Performs c ys g) :
    Performs c ([.op Opcode.opIf] ++ xs ++ [.op Opcode.opElse] ++ ys ++ [.op Opcode.endIf])
      (choose f g) where
  readable p hp := by
    simp only [List.mem_append, List.mem_singleton] at hp
    rcases hp with (((rfl | hp) | rfl) | hp) | rfl
    · decide
    · exact hx.readable p hp
    · decide
    · exact hy.readable p hp
    · decide
  active {stack branches} h := by
    simp only [List.flatMap_append, List.flatMap_singleton, reading_op, run_append, run_singleton,
      step_if, branch, h, if_true]
    cases stack with
    | nil => rfl
    | cons x stack =>
      change Machine.isActive ⟨stack, branches⟩ = true at h
      cases hx' : isTrue x with
      | true =>
        have hthen : (Machine.mk stack (true :: branches)).isActive := by rw [isActive_cons, h]; rfl
        have helse (stack : List Bytes) : (Machine.mk stack (false :: branches)).isActive = false :=
          rfl
        simp only [choose, hx', decide_true, if_true, Option.bind_some, hx.active hthen]
        cases f stack with
        | none => rfl
        | some stack =>
          simp only [Option.map_some, Option.bind_some, step_else, Bool.not_true,
            hy.idle (helse stack), step_endIf]
      | false =>
        have hthen : (Machine.mk stack (false :: branches)).isActive = false := rfl
        have helse : (Machine.mk stack (true :: branches)).isActive := by rw [isActive_cons, h]; rfl
        simp only [choose, hx', Bool.false_eq_true, decide_false, if_false, Option.bind_some,
          hx.idle hthen, step_else, Bool.not_false, hy.active helse]
        cases g stack with
        | none => rfl
        | some stack => simp only [Option.map_some, Option.bind_some, step_endIf]
  idle {m} h := by
    obtain ⟨stack, branches⟩ := m
    have hthen : (Machine.mk stack (false :: branches)).isActive = false := rfl
    have helse : (Machine.mk stack (true :: branches)).isActive = false := by
      rw [isActive_cons, h]
      rfl
    simp only [List.flatMap_append, List.flatMap_singleton, reading_op, run_append, run_singleton,
      step_if, branch, h, Bool.false_eq_true, if_false, Option.bind_some, hx.idle hthen, step_else,
      Bool.not_false, hy.idle helse, step_endIf]

/-- A script made of such pieces accepts what they leave with a true item on top. -/
theorem accepts {s : Script} (h : Performs c xs f) (hs : assemble xs = .ok s)
    (stack : List Bytes) :
    s.accepts c stack = endsTrue (f stack) := by
  unfold Script.accepts
  rw [tokens_of_assemble hs h.readable]
  change ((Machine.start stack).run c _).any succeeds = _
  rw [start, h.active rfl]
  cases f stack <;> rfl

/-- The splice of a script made of such pieces. -/
theorem splice {s : Script} (h : Performs c xs f) (hs : assemble xs = .ok s) :
    Performs c [.splice s] f := by
  have htokens := tokens_of_assemble hs h.readable
  have hreading : [Piece.splice s].flatMap reading = xs.flatMap reading := by
    rw [List.flatMap_singleton, reading_splice htokens]
  refine ⟨fun p hp => ?_, fun hactive => ?_, fun hidle => ?_⟩
  · obtain rfl := List.mem_singleton.1 hp
    exact ⟨_, htokens⟩
  · rw [hreading, h.active hactive]
  · rw [hreading, h.idle hidle]

end Performs

/-! ## Single pieces -/

variable {c : Context}

theorem performs_nil : Performs c [] some where
  readable _ h := absurd h List.not_mem_nil
  active _ := rfl
  idle _ := rfl

theorem performs_op (code : UInt8) (hreadable : (op code).Readable)
    (hplain : code ∉ conditionals) : Performs c [.op code] (c.operate code) where
  readable p hp := by
    obtain rfl := List.mem_singleton.1 hp
    exact hreadable
  active h := by
    rw [List.flatMap_singleton, reading_op, run_singleton, step_op hplain, if_pos h]
  idle h := by
    rw [List.flatMap_singleton, reading_op, run_singleton, step_op hplain, h]
    rfl

theorem performs_push (data : Bytes) :
    Performs c [.push data] fun stack => some (data :: stack) := by
  have hreadable : ∀ p ∈ [push data], p.Readable := by simp [Readable]
  by_cases hempty : data = []
  · subst hempty
    have hop := performs_op (c := c) Opcode.op0 (by decide) (by decide)
    exact ⟨hreadable, hop.active, hop.idle⟩
  · have hreading : [Piece.push data].flatMap reading = [.push data] := by simp [hempty]
    refine ⟨hreadable, fun h => ?_, fun h => ?_⟩
    · rw [hreading, run_singleton, step, if_pos h]
      rfl
    · rw [hreading, run_singleton, step, if_neg (by simp [h])]

/-- The numbers from 1 to 16 are pushed by opcodes of their own. -/
theorem performs_small {n : Nat} (hpos : 1 ≤ n) (hn : n ≤ 16) :
    Performs c [.op (Opcode.op1 + UInt8.ofNat n - 1)] fun stack =>
      some (ScriptNumber.encode n :: stack) := by
  have hencode : ScriptNumber.encode n = [UInt8.ofNat n] := by
    change ScriptNumber.signed (decide ((n : Int) < 0)) (n : Int).natAbs = _
    rw [Int.natAbs_natCast, ScriptNumber.signed_of_lt _ (by omega) (by omega)]
    simp
  rw [hencode]
  refine (performs_op _ ?_ ?_).congr fun stack => ?_
  · interval_cases n <;> decide
  · interval_cases n <;> decide
  · interval_cases n <;> rfl

theorem performs_int (v : Int) :
    Performs c [int v] fun stack => some (ScriptNumber.encode v :: stack) := by
  unfold int
  split
  · next hzero =>
    subst hzero
    rw [show ScriptNumber.encode 0 = [] from ScriptNumber.signed_zero _]
    exact performs_op _ (by decide) (by decide)
  split
  · next hneg =>
    subst hneg
    rw [show ScriptNumber.encode (-1) = [0x81] from
      ScriptNumber.signed_of_lt true (by decide) (by decide)]
    exact performs_op _ (by decide) (by decide)
  split
  · next hsmall =>
    obtain ⟨n, rfl⟩ := Int.eq_ofNat_of_zero_le (by omega : 0 ≤ v)
    rw [Int.toNat_natCast]
    exact performs_small (by omega) (by omega)
  · exact performs_push _

end Piece

end Wager.Script
