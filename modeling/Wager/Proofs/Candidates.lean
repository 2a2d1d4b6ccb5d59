import Wager.Proofs.Timeouts

/-!
# Candidate timeouts

**Units.** A candidate is so many units above the nominal timeout, counted without overflow, and
there is one exactly below `2 ^ 25` seconds (`candidate_eq_some_iff_lt`, `candidate_eq_none_iff`).
Each step moves its lock by one (`sequence_of_candidate`), whether or not the nominal timeout is a
whole number of units.

**Searches.** The offsets that have a candidate are an initial segment (`candidate_eq_none_of_le`).
So a search that ends at the first offset without one tries all candidates within its bound, as if
it only passed over the other offsets (`search_eq`, `searchPair_eq`).

Main result: `candidates_step_units`.
-/

namespace Wager.RelativeLock

variable {nominal offset timeout first second bound : UInt32} {expected : Hash160}

/-! ## Candidates -/

theorem candidate_eq_some_iff_lt : candidate nominal offset = some timeout ↔
    nominal.toNat + 512 * offset.toNat < 2 ^ 25 ∧
      timeout.toNat = nominal.toNat + 512 * offset.toNat := by
  rw [candidate_eq_some_iff]
  constructor
  · rintro ⟨hvalue, lock, hlock⟩
    exact ⟨hvalue ▸ lt_of_sequence hlock, hvalue⟩
  · rintro ⟨hlt, hvalue⟩
    exact ⟨hvalue, _, sequence_of_lt (hvalue ▸ hlt)⟩

theorem candidate_eq_none_iff :
    candidate nominal offset = none ↔ 2 ^ 25 ≤ nominal.toNat + 512 * offset.toNat := by
  constructor
  · intro hnone
    by_contra hlt
    have hword : (UInt32.ofNat (nominal.toNat + 512 * offset.toNat)).toNat =
        nominal.toNat + 512 * offset.toNat :=
      UInt32.toNat_ofNat_of_lt' (by rw [UInt32.size]; omega)
    have hsome := candidate_eq_some_iff_lt.2 ⟨by omega, hword⟩
    exact Option.some_ne_none _ (hsome.symm.trans hnone)
  · intro hge
    by_contra hsome
    obtain ⟨timeout, htimeout⟩ := Option.ne_none_iff_exists'.1 hsome
    have hlt := (candidate_eq_some_iff_lt.1 htimeout).1
    omega

/-- What has no candidate has none further on. -/
theorem candidate_eq_none_of_le {later : UInt32} (hle : offset ≤ later)
    (h : candidate nominal offset = none) : candidate nominal later = none := by
  rw [candidate_eq_none_iff] at h ⊢
  rw [UInt32.le_iff_toNat_le] at hle
  omega

/-! ## Locks of candidates -/

theorem units_of_candidate (h : candidate nominal offset = some timeout) :
    timeout >>> 9 = (nominal >>> 9) + offset := by
  obtain ⟨hlt, hvalue⟩ := candidate_eq_some_iff_lt.1 h
  rw [← UInt32.toNat_inj, UInt32.toNat_add, toNat_units, toNat_units, hvalue]
  omega

theorem sequence_of_candidate (h : candidate nominal offset = some timeout) :
    sequence timeout = .ok (typeFlag ||| ((nominal >>> 9) + offset)) := by
  obtain ⟨hlt, hvalue⟩ := candidate_eq_some_iff_lt.1 h
  rw [sequence_of_lt (hvalue ▸ hlt), units_of_candidate h]

theorem toNat_lock_of_candidate (h : candidate nominal offset = some timeout) :
    (typeFlag ||| ((nominal >>> 9) + offset)).toNat =
      2 ^ 22 + (nominal.toNat / 512 + offset.toNat) := by
  obtain ⟨-, hvalue⟩ := candidate_eq_some_iff_lt.1 h
  rw [toNat_of_sequence (sequence_of_candidate h), hvalue]
  omega

/-- The lock of a timeout is for its whole units. -/
theorem seconds?_of_sequence {lock : UInt32} (h : sequence timeout = .ok lock) :
    seconds? lock = some (quantize timeout) := by
  obtain ⟨hfits, rfl⟩ := sequence_eq_ok_iff.1 h
  have hflag : ¬ ((typeFlag ||| (timeout >>> 9)) &&& disableFlag ≠ 0 ∨
      (typeFlag ||| (timeout >>> 9)) &&& typeFlag = 0) := by
    rw [lock_and_disableFlag hfits, lock_and_typeFlag hfits]
    decide
  rw [seconds?, if_neg hflag, lock_and_mask hfits, quantize]

/-! ## Trying every candidate -/

/-- The candidates at `left` offsets from `k` on. Offsets without one are left out. -/
def candidatesFrom (nominal : UInt32) (left k : Nat) : List UInt32 :=
  (List.range' k left).filterMap fun offset => candidate nominal (UInt32.ofNat offset)

/-- The candidates at the offsets below a bound. -/
def candidates (nominal bound : UInt32) : List UInt32 := candidatesFrom nominal bound.toNat 0

/-- The pairs of candidates, in lexicographic order. -/
def candidatePairs (first second bound : UInt32) : List (UInt32 × UInt32) :=
  (candidates first bound).flatMap fun timeout => (candidates second bound).map (timeout, ·)

section

variable {α τ : Type}

/-- The first choice whose script has the expected hash, with the script. -/
def firstMatch (expected : Hash160) (build : τ → Outcome Script) :
    List τ → Outcome (Option (Script × τ))
  | [] => .ok none
  | choice :: choices => do
    let script ← build choice
    if script.hash = expected then return some (script, choice)
    else firstMatch expected build choices

theorem firstMatch_append (build : τ → Outcome Script) (choices more : List τ) :
    firstMatch expected build (choices ++ more) = (do
      match ← firstMatch expected build choices with
      | some found => return some found
      | none => firstMatch expected build more) := by
  induction choices with
  | nil => rfl
  | cons choice choices ih =>
    rw [List.cons_append, firstMatch, firstMatch, ih]
    cases build choice with
    | error fault => rfl
    | ok script =>
      simp only [Outcome.ok_bind]
      by_cases hmatch : script.hash = expected
      · rw [if_pos hmatch, if_pos hmatch]
        rfl
      · rw [if_neg hmatch, if_neg hmatch]

theorem firstMatch_map (build : τ → Outcome Script) (f : α → τ) (choices : List α) :
    firstMatch expected build (choices.map f) = (do
      let found ← firstMatch expected (fun choice => build (f choice)) choices
      return found.map fun (script, choice) => (script, f choice)) := by
  induction choices with
  | nil => rfl
  | cons choice choices ih =>
    rw [List.map_cons, firstMatch, firstMatch, ih]
    cases build (f choice) with
    | error fault => rfl
    | ok script =>
      simp only [Outcome.ok_bind]
      by_cases hmatch : script.hash = expected
      · rw [if_pos hmatch, if_pos hmatch]
        rfl
      · rw [if_neg hmatch, if_neg hmatch]

end

section

variable {left k : Nat}

/-- The bound of a search is a word, so its offsets do not overflow. -/
theorem bound_le (bound : UInt32) : 0 + bound.toNat ≤ UInt32.size := by
  rw [Nat.zero_add]
  exact Nat.le_of_lt bound.toNat_lt

theorem candidatesFrom_of_some (h : candidate nominal (UInt32.ofNat k) = some timeout) :
    candidatesFrom nominal (left + 1) k = timeout :: candidatesFrom nominal left (k + 1) := by
  rw [candidatesFrom, List.range'_succ]
  exact List.filterMap_cons_some h

/-- Behind an offset without a candidate there is nothing left to try. -/
theorem candidatesFrom_of_none (hword : k + left ≤ UInt32.size)
    (h : candidate nominal (UInt32.ofNat k) = none) : candidatesFrom nominal left k = [] := by
  rw [candidatesFrom, List.filterMap_eq_nil_iff]
  intro later hlater
  obtain ⟨hle, hlt⟩ := List.mem_range'_1.1 hlater
  refine candidate_eq_none_of_le ?_ h
  rw [UInt32.le_iff_toNat_le, UInt32.toNat_ofNat_of_lt' (by omega),
    UInt32.toNat_ofNat_of_lt' (by omega)]
  exact hle

theorem ofNat_add_one (k : Nat) : UInt32.ofNat k + 1 = UInt32.ofNat (k + 1) :=
  (UInt32.ofNat_add k 1).symm

theorem searchFrom_eq (build : UInt32 → Outcome Script) (hword : k + left ≤ UInt32.size) :
    searchFrom nominal expected build left (UInt32.ofNat k) =
      firstMatch expected build (candidatesFrom nominal left k) := by
  induction left generalizing k with
  | zero => rfl
  | succ left ih =>
    rw [searchFrom]
    cases hcandidate : candidate nominal (UInt32.ofNat k) with
    | none => rw [candidatesFrom_of_none hword hcandidate, firstMatch]
    | some timeout =>
      rw [candidatesFrom_of_some hcandidate, firstMatch, ofNat_add_one]
      simp only [ih (by omega : k + 1 + left ≤ UInt32.size)]

theorem searchPairFrom_eq (build : UInt32 → UInt32 → Outcome Script)
    (hword : k + left ≤ UInt32.size) :
    searchPairFrom first second bound expected build left (UInt32.ofNat k) =
      firstMatch expected (fun timeouts => build timeouts.1 timeouts.2)
        ((candidatesFrom first left k).flatMap fun timeout =>
          (candidates second bound).map (timeout, ·)) := by
  induction left generalizing k with
  | zero => rfl
  | succ left ih =>
    rw [searchPairFrom]
    cases hcandidate : candidate first (UInt32.ofNat k) with
    | none => rw [candidatesFrom_of_none hword hcandidate, List.flatMap_nil, firstMatch]
    | some timeout =>
      have hreply : searchFrom second expected (build timeout) bound.toNat 0 =
          firstMatch expected (build timeout) (candidates second bound) :=
        searchFrom_eq (k := 0) (build timeout) (bound_le bound)
      rw [candidatesFrom_of_some hcandidate, List.flatMap_cons, firstMatch_append, firstMatch_map,
        ofNat_add_one]
      simp only [hreply, ih (by omega : k + 1 + left ≤ UInt32.size)]
      rcases firstMatch expected (build timeout) (candidates second bound) with
        fault | _ | ⟨script, reply⟩
      · rfl
      · rfl
      · rfl

end

theorem search_eq (label : String) (build : UInt32 → Outcome Script) :
    search label nominal bound expected build =
      (firstMatch expected build (candidates nominal bound) >>=
        need (.unrecovered (.single label bound nominal))) := by
  have hloop : searchFrom nominal expected build bound.toNat 0 =
      firstMatch expected build (candidates nominal bound) :=
    searchFrom_eq (k := 0) build (bound_le bound)
  rw [search, hloop]
  rcases firstMatch expected build (candidates nominal bound) with fault | _ | found
  · rfl
  · rfl
  · rfl

theorem searchPair_eq (label : String) (build : UInt32 → UInt32 → Outcome Script) :
    searchPair label first second bound expected build =
      (firstMatch expected (fun timeouts => build timeouts.1 timeouts.2)
          (candidatePairs first second bound) >>=
        need (.unrecovered (.pair label bound first second))) := by
  have hloop : searchPairFrom first second bound expected build bound.toNat 0 =
      firstMatch expected (fun timeouts => build timeouts.1 timeouts.2)
        (candidatePairs first second bound) :=
    searchPairFrom_eq (k := 0) build (bound_le bound)
  rw [searchPair, hloop]
  rcases firstMatch expected _ (candidatePairs first second bound) with fault | _ | found
  · rfl
  · rfl
  · rfl

/-! ## Steps of one unit -/

/-- A candidate is so many units above the nominal timeout, and there is one exactly if that is
below `2 ^ 25` seconds. Its lock is for as many units more than those of the nominal timeout, and
stands for its seconds without those of a unit that has only begun. The offsets with a candidate are
an initial segment, and so both searches, which end at the first offset without one, come to what
they come to when they try every candidate within the bound. -/
theorem candidates_step_units (label : String)
    (nominal offset timeout earlier first second bound : UInt32) (expected : Hash160)
    (build : UInt32 → Outcome Script) (buildPair : UInt32 → UInt32 → Outcome Script) :
    (candidate nominal offset = some timeout ↔
      nominal.toNat + 512 * offset.toNat < 2 ^ 25 ∧
        timeout.toNat = nominal.toNat + 512 * offset.toNat) ∧
    (candidate nominal offset = none ↔ 2 ^ 25 ≤ nominal.toNat + 512 * offset.toNat) ∧
    (candidate nominal offset = some timeout →
      sequence timeout = .ok (typeFlag ||| ((nominal >>> 9) + offset)) ∧
      (typeFlag ||| ((nominal >>> 9) + offset)).toNat =
        2 ^ 22 + (nominal.toNat / 512 + offset.toNat) ∧
      seconds? (typeFlag ||| ((nominal >>> 9) + offset)) = some (quantize timeout)) ∧
    (earlier ≤ offset → (candidate nominal offset).isSome → (candidate nominal earlier).isSome) ∧
    search label nominal bound expected build =
      (firstMatch expected build (candidates nominal bound) >>=
        need (.unrecovered (.single label bound nominal))) ∧
    searchPair label first second bound expected buildPair =
      (firstMatch expected (fun timeouts => buildPair timeouts.1 timeouts.2)
          (candidatePairs first second bound) >>=
        need (.unrecovered (.pair label bound first second))) := by
  refine ⟨candidate_eq_some_iff_lt, candidate_eq_none_iff, fun h => ?_, fun hle hsome => ?_,
    search_eq label build, searchPair_eq label buildPair⟩
  · exact ⟨sequence_of_candidate h, toNat_lock_of_candidate h,
      seconds?_of_sequence (sequence_of_candidate h)⟩
  · rw [Option.isSome_iff_ne_none] at hsome ⊢
    exact mt (candidate_eq_none_of_le hle) hsome

/-- The last unit that a sequence number holds, reached from a nominal timeout that is not a whole
number of units. -/
theorem candidates_step_to_last : sequence 33554431 = .ok 0x40ffff ∧
    seconds? 0x40ffff = some 33553920 ∧ (candidate 33553919 0).isSome := by
  obtain ⟨hvalue, -, hlock, hsegment, -⟩ := candidates_step_units "lock" 33553919 1 33554431 0 0 0 0
    (Vector.replicate 20 0) (fun _ => .ok .empty) (fun _ _ => .ok .empty)
  have hcandidate := hvalue.2 ⟨by decide, rfl⟩
  obtain ⟨hsequence, -, hseconds⟩ := hlock hcandidate
  exact ⟨hsequence, hseconds, hsegment (by decide) (Option.isSome_iff_exists.2 ⟨_, hcandidate⟩)⟩

end Wager.RelativeLock
