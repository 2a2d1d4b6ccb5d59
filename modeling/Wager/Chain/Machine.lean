import Wager.Chain.RelativeLock

/-!
# Running scripts

**A machine** is a run in progress: a stack of byte strings and, for every open conditional,
whether its current branch is taken. A run goes through the tokens one by one, so a script can be
run part by part (`Machine.run_append`).

**The context** is what a script can ask about the spend it guards: whether a signature is valid,
and whether a relative lock has passed.

**The outcome.** A spend is accepted when the run fails nowhere, closes every conditional and
leaves a true item on top (`Script.accepts`). The opcodes that no script here contains fail when
they are run. Limits on the size of the stack, its items and the script play no part.
-/

namespace Wager

namespace Script

/-! ## Items -/

/-- Whether an item is true: it has a byte that is neither zero nor the bare sign of the last. -/
def isTrue : Bytes → Bool
  | [] => false
  | [last] => last ≠ 0x00 && last ≠ 0x80
  | b :: rest => b ≠ 0 || isTrue rest

/-- The item that stands for a truth value. -/
def truth (value : Bool) : Bytes := if value then [1] else []

/-- An item as a number of at most `width` bytes. -/
def number? (width : Nat) (item : Bytes) : Option Int :=
  if item.length ≤ width then some (ScriptNumber.decode item) else none

/-- An item as a count of at most `most` things. -/
def count? (most : Nat) (item : Bytes) : Option Nat := do
  let n ← number? 4 item
  if 0 ≤ n ∧ n ≤ most then some n.toNat else none

/-- The item that an opcode pushes by itself. -/
def constant? (code : UInt8) : Option Bytes :=
  if code = Opcode.op0 then some []
  else if code = Opcode.negate1 then some [0x81]
  else if Opcode.op1 ≤ code ∧ code < Opcode.op1 + 16 then some [code - Opcode.op1 + 1]
  else none

/-- The item that a token pushes. -/
def Token.item? : Token → Option Bytes
  | .push data => some data
  | .op code => constant? code

/-- The items that a script made of pushes leaves, the top one first. -/
def pushed? (s : Script) : Option (List Bytes) :=
  match s.tokens with
  | .ok tokens => (tokens.mapM Token.item?).map List.reverse
  | .error _ => none

/-! ## Stacks

A stack is a list of items, the top one first. -/

/-- Puts what `f` gives in the place of the top item. -/
def onTop (f : Bytes → Option (List Bytes)) : List Bytes → Option (List Bytes)
  | x :: rest => (f x).map (· ++ rest)
  | [] => none

/-- Puts what `f` gives in the place of the two top items, the lower of which `f` takes first. -/
def onTopTwo (f : Bytes → Bytes → Option (List Bytes)) : List Bytes → Option (List Bytes)
  | y :: x :: rest => (f x y).map (· ++ rest)
  | _ => none

/-! ## The context of a spend -/

/-- What a script can ask about the spend it guards. -/
structure Context where
  /-- The version of the spending transaction. -/
  version : UInt32
  /-- The sequence number of the spending input. -/
  sequence : UInt32
  /-- Whether a signature of the spend is valid under a key. -/
  signs : (key signature : Bytes) → Bool

namespace Context

/-- Whether the relative lock with this sequence number has passed. -/
def passes (c : Context) (lock : UInt32) : Bool :=
  lock &&& RelativeLock.disableFlag ≠ 0 ||
    (2 ≤ c.version && c.sequence &&& RelativeLock.disableFlag = 0 &&
      lock &&& RelativeLock.typeFlag = c.sequence &&& RelativeLock.typeFlag &&
      lock &&& RelativeLock.mask ≤ c.sequence &&& RelativeLock.mask)

/-- Whether every signature is valid under a key of its own, in the order of the keys. -/
def signsEach (c : Context) : (keys signatures : List Bytes) → Bool
  | _, [] => true
  | [], _ :: _ => false
  | key :: keys, signature :: signatures =>
    if c.signs key signature then c.signsEach keys signatures
    else c.signsEach keys (signature :: signatures)

/-- Takes keys behind their number, signatures behind theirs and one item more off the stack. -/
def checkMultisig (c : Context) : List Bytes → Option (List Bytes)
  | [] => none
  | total :: stack => do
    let n ← count? 20 total
    if stack.length < n then none
    else
      match stack.drop n with
      | [] => none
      | required :: rest => do
        let m ← count? n required
        if rest.length ≤ m then none
        else some (truth (c.signsEach (stack.take n) (rest.take m)) :: rest.drop (m + 1))

/-- What an opcode that opens and closes no branch does to the stack. -/
def operate (c : Context) (code : UInt8) : List Bytes → Option (List Bytes) :=
  match code with
  | Opcode.verify => onTop fun x => if isTrue x then some [] else none
  | Opcode.drop => onTop fun _ => some []
  | Opcode.dup => onTop fun x => some [x, x]
  | Opcode.swap => onTopTwo fun x y => some [x, y]
  | Opcode.equal => onTopTwo fun x y => some [truth (x = y)]
  | Opcode.equalVerify => onTopTwo fun x y => if x = y then some [] else none
  | Opcode.add => onTopTwo fun x y => do
    return [ScriptNumber.encode ((← number? 4 x) + (← number? 4 y))]
  | Opcode.boolOr => onTopTwo fun x y => do
    return [truth ((← number? 4 x) ≠ 0 || (← number? 4 y) ≠ 0)]
  | Opcode.greaterOrEqual => onTopTwo fun x y => do
    return [truth ((← number? 4 y) ≤ (← number? 4 x))]
  | Opcode.hash160 => onTop fun x => some [(Wager.hash160 x).toList]
  | Opcode.checkSig => onTopTwo fun signature key => some [truth (c.signs key signature)]
  | Opcode.checkSigVerify => onTopTwo fun signature key =>
    if c.signs key signature then some [] else none
  | Opcode.checkMultisig => c.checkMultisig
  | Opcode.checkSequenceVerify => onTop fun x => do
    let lock ← number? 5 x
    if 0 ≤ lock ∧ c.passes (UInt32.ofInt lock) then some [x] else none
  | code => fun stack => (constant? code).map (· :: stack)

end Context

/-! ## The machine -/

/-- A run in progress. -/
structure Machine where
  /-- The items, the top one first. -/
  stack : List Bytes
  /-- Whether the current branch of each open conditional is taken, the innermost first. -/
  branches : List Bool
deriving DecidableEq, Repr

namespace Machine

/-- The machine before a run on these items. -/
def start (stack : List Bytes) : Machine := ⟨stack, []⟩

/-- Whether all the branches that the run stands in are taken. -/
def isActive (m : Machine) : Bool := m.branches.all id

/-- Opens a conditional, whose first branch is taken when the top item is of the given truth. -/
def branch (m : Machine) (taken : Bool) : Option Machine :=
  if m.isActive then
    match m.stack with
    | [] => none
    | x :: rest => some ⟨rest, (isTrue x = taken) :: m.branches⟩
  else some ⟨m.stack, false :: m.branches⟩

/-- Runs one token. In a branch that is not taken only the conditionals count. -/
def step (c : Context) (m : Machine) : Token → Option Machine
  | .push data => some (if m.isActive then ⟨data :: m.stack, m.branches⟩ else m)
  | .op Opcode.opIf => m.branch true
  | .op Opcode.notIf => m.branch false
  | .op Opcode.opElse =>
    match m.branches with
    | [] => none
    | taken :: outer => some ⟨m.stack, (!taken) :: outer⟩
  | .op Opcode.endIf =>
    match m.branches with
    | [] => none
    | _ :: outer => some ⟨m.stack, outer⟩
  | .op code =>
    if m.isActive then (c.operate code m.stack).map (⟨·, m.branches⟩) else some m

def run (c : Context) (m : Machine) (tokens : List Token) : Option Machine :=
  tokens.foldlM (step c) m

theorem run_append (c : Context) (m : Machine) (xs ys : List Token) :
    m.run c (xs ++ ys) = (m.run c xs).bind (·.run c ys) :=
  List.foldlM_append

/-- Whether a run may end here. -/
def succeeds (m : Machine) : Bool := m.branches.isEmpty && m.stack.head?.any isTrue

end Machine

/-- Whether the script accepts a spend that leaves these items to it. -/
def accepts (c : Context) (s : Script) (stack : List Bytes) : Bool :=
  match s.tokens with
  | .ok tokens => ((Machine.start stack).run c tokens).any Machine.succeeds
  | .error _ => false

end Script

end Wager
