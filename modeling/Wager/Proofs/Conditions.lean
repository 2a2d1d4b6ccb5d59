import Wager.Proofs.Fragments

/-!
# What the parts of a script ask for

Each condition that a script of a bet can set is a function of the stack that takes the items it
is about and fails unless they meet it. Here the pieces that set a condition are shown to perform
its function.

**Thresholds.** The count is kept on top of the preimages that are still to be read, so the loop
is followed for any count to start from (`performs_tallies`). The comparison is made on signed
numbers of at most four bytes, and the required number is read as signed: the largest ones are
negative, and any count passes them (`demanded`).
-/

namespace Wager.Script

/-! ## Numbers on the stack -/

theorem number?_encode {v : Int} {width : Nat} :
    number? (width + 1) (ScriptNumber.encode v) =
      if v.natAbs < 128 * 256 ^ width then some v else none := by
  simp only [number?, ScriptNumber.length_encode_le_iff, ScriptNumber.decode_encode]

theorem number?_truth (b : Bool) : number? 4 (truth b) = some (if b then 1 else 0) := by
  cases b <;> rfl

@[simp] theorem isTrue_truth (b : Bool) : isTrue (truth b) = b := by cases b <;> rfl

/-! ## The conditions -/

namespace Context

/-- Takes a signature and says whether the key made it. -/
def checkKey (c : Context) (key : Bytes) : List Bytes → Option (List Bytes) :=
  onTop fun signature => some [truth (c.signs key signature)]

/-- Takes nothing, and fails until the lock has passed. -/
def awaits (c : Context) (lock : UInt32) (stack : List Bytes) : Option (List Bytes) :=
  if c.passes lock then some stack else none

end Context

/-- Takes a preimage of one of the images. -/
def opening (images : List Hash160) : List Bytes → Option (List Bytes) :=
  onTop fun x => if hash160 x ∈ images then some [] else none

/-- How many items are preimages of the image in their place. -/
def matching (images : List Hash160) (items : List Bytes) : Nat :=
  (images.zip items).countP fun (image, x) => hash160 x = image

/-- How many openings a script demands that was built for the required number. The largest numbers
are negative as signed ones, and demand nothing. -/
def demanded (required : UInt64) : Nat :=
  if 2 ^ 64 - 2 ^ 31 < required.toNat then 0 else required.toNat

theorem demanded_of_le {required : UInt64} (h : required.toNat ≤ 2 ^ 64 - 2 ^ 31) :
    demanded required = required.toNat := if_neg (by omega)

theorem demanded_of_lt {required : UInt64} (h : 2 ^ 64 - 2 ^ 31 < required.toNat) :
    demanded required = 0 := if_pos h

theorem demanded_le (required : UInt64) : demanded required ≤ required.toNat := by
  rw [demanded]
  split <;> omega

/-- Takes an item for every image, and fails unless enough of them open theirs. -/
def counting (images : List Hash160) (required : UInt64) (stack : List Bytes) :
    Option (List Bytes) :=
  if images.length ≤ stack.length ∧ demanded required ≤ matching images stack then
    some (stack.drop images.length)
  else none

/-- Takes the signatures of two keys, that of the second on top, and one item more, and says
whether both keys signed. -/
def Context.checkBoth (c : Context) (first second : Bytes) : List Bytes → Option (List Bytes)
  | y :: x :: _ :: stack => some (truth (c.signs second y && c.signs first x) :: stack)
  | _ => none

/-! ## What meets them -/

section

variable {c : Context} {stack rest : List Bytes} {f g : List Bytes → Option (List Bytes)}

theorem endsTrue_bind {result : Option (List Bytes)} :
    endsTrue (result.bind f) = true ↔ ∃ stack, result = some stack ∧ endsTrue (f stack) = true := by
  cases result <;> simp [endsTrue]

theorem endsTrue_choose :
    endsTrue (choose f g stack) = true ↔ ∃ x rest, stack = x :: rest ∧
      (isTrue x = true ∧ endsTrue (f rest) = true ∨
        isTrue x = false ∧ endsTrue (g rest) = true) := by
  cases stack with
  | nil => simp [choose, endsTrue]
  | cons x stack => cases hx : isTrue x <;> simp [choose, hx]

theorem endsTrue_checkKey {key : Bytes} :
    endsTrue (c.checkKey key stack) = true ↔
      ∃ signature rest, stack = signature :: rest ∧ c.signs key signature = true := by
  cases stack <;> simp [Context.checkKey, onTop, endsTrue]

theorem endsTrue_checkBoth {first second : Bytes} :
    endsTrue (c.checkBoth first second stack) = true ↔ ∃ y x extra rest,
      stack = y :: x :: extra :: rest ∧ c.signs second y = true ∧ c.signs first x = true := by
  rcases stack with _ | ⟨y, _ | ⟨x, _ | ⟨extra, stack⟩⟩⟩ <;> simp [Context.checkBoth, endsTrue]

theorem awaits_eq_some_iff {lock : UInt32} :
    c.awaits lock stack = some rest ↔ c.passes lock = true ∧ stack = rest := by
  simp [Context.awaits]

theorem opening_eq_some_iff {images : List Hash160} :
    opening images stack = some rest ↔ ∃ x, stack = x :: rest ∧ hash160 x ∈ images := by
  cases stack <;> simp [opening, onTop, and_comm]

theorem matching_le_length (images : List Hash160) (items : List Bytes) :
    matching images items ≤ images.length := by
  refine Nat.le_trans List.countP_le_length ?_
  rw [List.length_zip]
  exact Nat.min_le_left ..

theorem matching_append {images : List Hash160} {items : List Bytes}
    (h : items.length = images.length) (rest : List Bytes) :
    matching images (items ++ rest) = matching images items := by
  have hzip : images.zip (items ++ rest) = images.zip items := by
    rw [← List.append_nil images, List.zip_append h.symm, List.append_nil]
    simp
  rw [matching, matching, hzip]

theorem counting_eq_some_iff {images : List Hash160} {required : UInt64} :
    counting images required stack = some rest ↔ ∃ items, stack = items ++ rest ∧
      items.length = images.length ∧ demanded required ≤ matching images items := by
  simp only [counting, Option.ite_none_right_eq_some, Option.some.injEq]
  constructor
  · intro h
    obtain ⟨⟨hlen, hcount⟩, rfl⟩ := h
    have htake : (stack.take images.length).length = images.length := by
      rw [List.length_take]
      omega
    refine ⟨_, (List.take_append_drop ..).symm, htake, ?_⟩
    rwa [← matching_append htake (stack.drop images.length), List.take_append_drop]
  · intro h
    obtain ⟨items, rfl, hlen, hcount⟩ := h
    rw [matching_append hlen, ← hlen]
    exact ⟨⟨by simp, hcount⟩, by simp⟩

end

/-! ## The pieces that set them -/

namespace Piece

variable {c : Context}

theorem performs_checkKey (key : PublicKey) :
    Performs c [.key key, .op Opcode.checkSig] (c.checkKey key.bytes) :=
  ((performs_push key.bytes).append (performs_op Opcode.checkSig (by decide)
    (by decide))).congr fun stack => by cases stack <;> rfl

theorem performs_relativeLock (lock : UInt32) :
    Performs c (relativeLock lock) (c.awaits lock) := by
  refine ((performs_int _).append ((performs_op Opcode.checkSequenceVerify (by decide)
    (by decide)).append (performs_op Opcode.drop (by decide) (by decide)))).congr
      fun stack => ?_
  have hlock := lock.toNat_lt
  have hfits : ((lock.toNat : Int)).natAbs < 128 * 256 ^ 4 := by
    rw [Int.natAbs_natCast]
    omega
  have hnumber : number? 5 (ScriptNumber.encode lock.toNat) = some (lock.toNat : Int) := by
    rw [number?_encode, if_pos hfits]
  have hword : UInt32.ofInt lock.toNat = lock := by
    have hmod : ((lock.toNat : Int) % 2 ^ 32).toNat = lock.toNat := by omega
    rw [UInt32.ofInt, hmod, UInt32.ofNat_toNat]
  have hcsv : c.operate Opcode.checkSequenceVerify (ScriptNumber.encode lock.toNat :: stack) =
      if c.passes lock then some (ScriptNumber.encode lock.toNat :: stack) else none := by
    change ((number? 5 (ScriptNumber.encode lock.toNat)).bind fun n =>
      if 0 ≤ n ∧ c.passes (UInt32.ofInt n) then some [ScriptNumber.encode lock.toNat]
      else none).map (· ++ stack) = _
    rw [hnumber, Option.bind_some, hword]
    by_cases hpass : c.passes lock <;> simp [hpass]
  simp only [Option.bind_some, hcsv, Context.awaits]
  by_cases hpass : c.passes lock
  · simp only [hpass, if_true, Option.bind_some]
    rfl
  · simp only [hpass, Bool.false_eq_true, if_false, Option.bind_none]

theorem performs_opening (image : Hash160) :
    Performs c [.op Opcode.hash160, .push image.toList, .op Opcode.equalVerify]
      (opening [image]) := by
  refine ((performs_op Opcode.hash160 (by decide) (by decide)).append
    ((performs_push _).append (performs_op Opcode.equalVerify (by decide)
      (by decide)))).congr fun stack => ?_
  cases stack with
  | nil => rfl
  | cons x stack =>
    change ((if (hash160 x).toList = image.toList then some [] else none).map (· ++ stack)) =
      ((if hash160 x ∈ [image] then some [] else none).map (· ++ stack))
    simp only [Vector.toList_inj, List.mem_singleton]

theorem performs_openingEither (a b : Hash160) :
    Performs c [.op Opcode.hash160, .op Opcode.dup, .push a.toList, .op Opcode.equal,
      .op Opcode.swap, .push b.toList, .op Opcode.equal, .op Opcode.boolOr, .op Opcode.verify]
      (opening [a, b]) := by
  refine ((performs_op Opcode.hash160 (by decide) (by decide)).append
    ((performs_op Opcode.dup (by decide) (by decide)).append
    ((performs_push _).append
    ((performs_op Opcode.equal (by decide) (by decide)).append
    ((performs_op Opcode.swap (by decide) (by decide)).append
    ((performs_push _).append
    ((performs_op Opcode.equal (by decide) (by decide)).append
    ((performs_op Opcode.boolOr (by decide) (by decide)).append
      (performs_op Opcode.verify (by decide) (by decide)))))))))).congr fun stack => ?_
  cases stack with
  | nil => rfl
  | cons x stack =>
    have hmem : hash160 x ∈ [a, b] ↔ (decide ((hash160 x).toList = a.toList) ||
        decide ((hash160 x).toList = b.toList)) = true := by
      simp [Vector.toList_inj]
    change (((number? 4 (truth ((hash160 x).toList = a.toList))).bind fun m =>
      (number? 4 (truth ((hash160 x).toList = b.toList))).bind fun n =>
        some [truth (m ≠ 0 || n ≠ 0)]).map (· ++ stack)).bind (c.operate Opcode.verify) =
      (if hash160 x ∈ [a, b] then some [] else none).map (· ++ stack)
    simp only [hmem]
    generalize decide ((hash160 x).toList = a.toList) = p
    generalize decide ((hash160 x).toList = b.toList) = q
    rw [number?_truth, number?_truth]
    cases p <;> cases q <;> rfl

/-- The script that two keys have to sign. -/
theorem performs_multisig {first second : PublicKey} {s : Script}
    (h : multisig 2 [first, second] = .ok s) :
    Performs c [.splice s] (c.checkBoth first.bytes second.bytes) := by
  change assemble ([int 2] ++ ([.key first] ++ ([.key second] ++
    ([int 2] ++ [.op Opcode.checkMultisig])))) = .ok s at h
  refine (Performs.splice ((performs_int _).append ((performs_push _).append
    ((performs_push _).append ((performs_int _).append (performs_op Opcode.checkMultisig
      (by decide) (by decide)))))) h).congr fun stack => ?_
  have htwo : count? 20 (ScriptNumber.encode 2) = some 2 := by
    rw [count?, number?_encode]
    rfl
  have htwo' : count? 2 (ScriptNumber.encode 2) = some 2 := by
    rw [count?, number?_encode]
    rfl
  have hop : c.operate Opcode.checkMultisig = c.checkMultisig := rfl
  simp only [Option.bind_some, hop]
  rcases stack with _ | ⟨y, _ | ⟨x, _ | ⟨extra, stack⟩⟩⟩ <;>
    simp [Context.checkMultisig, htwo, htwo', Context.checkBoth, Context.signsEach]
/-! ## Thresholds -/

/-- Compares an item with an image and adds the outcome to the count on top. -/
def tally (image : Hash160) : List Piece :=
  [.op Opcode.swap, .op Opcode.hash160, .push image.toList, .op Opcode.equal, .op Opcode.add]

theorem threshold_eq (images : List Hash160) (required : UInt64) :
    threshold images required = [.op Opcode.op0] ++ (images.flatMap tally ++
      ([int required.toInt64.toInt] ++ ([.op Opcode.greaterOrEqual] ++ [.op Opcode.verify]))) := by
  rw [threshold, List.singleton_append]
  rfl

theorem performs_tally (image : Hash160) : ∃ f, Performs c (tally image) f ∧
    ∀ (k : Nat), k + 1 < 2 ^ 31 → (f [ScriptNumber.encode k] = none ∧
      ∀ x stack, f (ScriptNumber.encode k :: x :: stack) =
        some (ScriptNumber.encode (k + if hash160 x = image then 1 else 0 : Nat) :: stack)) := by
  refine ⟨_, (performs_op Opcode.swap (by decide) (by decide)).append
    ((performs_op Opcode.hash160 (by decide) (by decide)).append
    ((performs_push _).append
    ((performs_op Opcode.equal (by decide) (by decide)).append
      (performs_op Opcode.add (by decide) (by decide))))), fun k hk => ⟨rfl, ?_⟩⟩
  intro x stack
  have hcount : number? 4 (ScriptNumber.encode k) = some (k : Int) := by
    rw [number?_encode, if_pos (by rw [Int.natAbs_natCast]; omega)]
  change (((number? 4 (ScriptNumber.encode k)).bind fun m =>
    (number? 4 (truth ((hash160 x).toList = image.toList))).bind fun n =>
      some [ScriptNumber.encode (m + n)]).map (· ++ stack)) = _
  rw [hcount, number?_truth]
  by_cases h : hash160 x = image <;> simp [h, Vector.toList_inj]

theorem matching_cons (image : Hash160) (images : List Hash160) (x : Bytes) (stack : List Bytes) :
    matching (image :: images) (x :: stack) =
      (if hash160 x = image then 1 else 0) + matching images stack := by
  rw [matching, List.zip_cons_cons, List.countP_cons, Nat.add_comm]
  simp only [decide_eq_true_eq]
  rfl

theorem performs_tallies (images : List Hash160) : ∃ f, Performs c (images.flatMap tally) f ∧
    ∀ (k : Nat) (stack : List Bytes), k + images.length < 2 ^ 31 →
      f (ScriptNumber.encode k :: stack) =
        if images.length ≤ stack.length then
          some (ScriptNumber.encode (k + matching images stack : Nat) :: stack.drop images.length)
        else none := by
  induction images with
  | nil => exact ⟨some, performs_nil, fun k stack _ => by simp [matching]⟩
  | cons image images ih =>
    obtain ⟨f, hf, hstep⟩ := performs_tally (c := c) image
    obtain ⟨g, hg, hloop⟩ := ih
    refine ⟨_, hf.append hg, fun k stack hk => ?_⟩
    rw [List.length_cons] at hk
    obtain ⟨hnone, hsome⟩ := hstep k (by omega)
    cases stack with
    | nil => simp [hnone]
    | cons x stack =>
      have hbit : (if hash160 x = image then 1 else 0) ≤ 1 := by split <;> omega
      rw [hsome, Option.bind_some, hloop _ _ (by omega), matching_cons, Nat.add_assoc]
      simp only [List.length_cons, Nat.add_le_add_iff_right, List.drop_succ_cons]

/-- The comparison of a script, for a count that its opcodes can hold. -/
theorem number?_required (required : UInt64) {count : Nat} (hcount : count < 2 ^ 31) :
    (∃ r, number? 4 (ScriptNumber.encode required.toInt64.toInt) = some r ∧ r ≤ count) ↔
      demanded required ≤ count := by
  have hlt := required.toNat_lt
  have hvalue : required.toInt64.toInt =
      if 2 * required.toNat < 2 ^ 64 then (required.toNat : Int) else required.toNat - 2 ^ 64 := by
    change required.toBitVec.toInt = _
    rw [BitVec.toInt_eq_toNat_cond]
    rfl
  rw [number?_encode, hvalue]
  unfold demanded
  constructor
  · intro h
    obtain ⟨r, hr, hle⟩ := h
    obtain ⟨hfits, hr⟩ := Option.ite_none_right_eq_some.1 hr
    rw [Option.some.injEq] at hr
    split at hr <;> split at hfits <;> split <;> omega
  · intro h
    split at h <;> refine ⟨_, if_pos ?_, ?_⟩ <;> split <;> omega

/-- The pieces of a threshold set it, for as many images as a count can hold. -/
theorem performs_threshold (images : List Hash160) (required : UInt64)
    (hsize : images.length < 2 ^ 31) :
    Performs c (threshold images required) (counting images required) := by
  obtain ⟨f, hf, hloop⟩ := performs_tallies (c := c) images
  rw [threshold_eq]
  refine ((performs_op Opcode.op0 (by decide) (by decide)).append (hf.append
    ((performs_int _).append ((performs_op Opcode.greaterOrEqual (by decide)
      (by decide)).append (performs_op Opcode.verify (by decide)
        (by decide)))))).congr fun stack => ?_
  have hzero : c.operate Opcode.op0 stack = some (ScriptNumber.encode (0 : Nat) :: stack) := by
    rw [show ScriptNumber.encode ((0 : Nat) : Int) = [] from ScriptNumber.signed_zero _]
    rfl
  rw [hzero, Option.bind_some, hloop 0 stack (by omega), Nat.zero_add, counting]
  by_cases hitems : images.length ≤ stack.length
  · have hcount : matching images stack < 2 ^ 31 :=
      Nat.lt_of_le_of_lt (matching_le_length ..) hsize
    have hnumber : number? 4 (ScriptNumber.encode (matching images stack : Nat)) =
        some (matching images stack : Int) := by
      rw [number?_encode, if_pos (by rw [Int.natAbs_natCast]; omega)]
    simp only [hitems, if_true, true_and, Option.bind_some]
    change (((number? 4 (ScriptNumber.encode required.toInt64.toInt)).bind fun r =>
      (number? 4 (ScriptNumber.encode (matching images stack : Nat))).bind fun m =>
        some [truth (r ≤ m)]).map (· ++ stack.drop images.length)).bind
          (c.operate Opcode.verify) = _
    rw [hnumber]
    simp only [← number?_required required hcount]
    cases number? 4 (ScriptNumber.encode required.toInt64.toInt) with
    | none => simp
    | some r =>
      by_cases hr : r ≤ (matching images stack : Int) <;> simp [hr] <;> rfl
  · simp [hitems]

end Piece

end Wager.Script
