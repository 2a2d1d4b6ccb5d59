import Wager.Proofs.Timeouts

/-!
# What a search finds

A search goes through the candidates in order. It succeeds with the first whose script has the
expected hash, provided that the scripts of all candidates before it can be built, and it gives up
when the candidates or the bound are exhausted. A search for two timeouts goes through the
candidates for the first in the same way, where a candidate is a search for the second.
-/

namespace Wager

theorem Script.blockBefore?_append (hash : Hash160) (ending : Bytes) :
    blockBefore? ending (hash.toList ++ ending) = some hash := by
  have hlen : hash.toList.length = 20 := hash.length_toList
  rw [blockBefore?, List.drop_left' hlen, if_pos rfl, List.take_left' hlen, block?_toList]

theorem Script.kind_payToKey (hash : Hash160) : (payToKey hash).kind = .key hash := by
  have hkind : (payToKey hash).kind = ((blockBefore? [Opcode.equalVerify, Opcode.checkSig]
      (hash.toList ++ [Opcode.equalVerify, Opcode.checkSig])).map Kind.key).getD .other := rfl
  rw [hkind, blockBefore?_append]
  rfl

theorem Script.kind_payToScript (hash : Hash160) : (payToScript hash).kind = .script hash := by
  have hkind : (payToScript hash).kind = ((blockBefore? [Opcode.equal]
      (hash.toList ++ [Opcode.equal])).map Kind.script).getD .other := rfl
  rw [hkind, blockBefore?_append]
  rfl

/-- An output that pays a script commits to its hash. -/
theorem Script.committedHash_wrapped (s : Script) : s.wrapped.committedHash = .ok s.hash := by
  rw [committedHash, wrapped, kind_payToScript]

theorem Script.eq_of_blockBefore? {ending data : Bytes} {hash : Hash160}
    (h : blockBefore? ending data = some hash) : data = hash.toList ++ ending := by
  unfold blockBefore? at h
  split at h
  · next hdrop => rw [← hdrop, ← block?_eq_some.1 h, List.take_append_drop]
  · cases h

theorem Script.eq_of_kind {s : Script} {hash : Hash160} (h : s.kind = .script hash) :
    s = payToScript hash := by
  unfold kind at h
  split at h
  · next rest _ =>
    cases hblock : blockBefore? [Opcode.equalVerify, Opcode.checkSig] rest <;> simp [hblock] at h
  · next rest hbytes =>
    cases hblock : blockBefore? [Opcode.equal] rest with
    | none => simp [hblock] at h
    | some block =>
      rw [hblock] at h
      obtain rfl : block = hash := Kind.script.inj h
      rw [eq_of_blockBefore? hblock] at hbytes
      exact congrArg Script.mk hbytes
  · cases h

/-- Only an output that pays a script commits to a hash. -/
theorem Script.payToScript_of_committedHash {s : Script} {hash : Hash160}
    (h : s.committedHash = .ok hash) : payToScript hash = s := by
  unfold committedHash at h
  split at h
  · next hkind => rw [← Except.ok.inj h, ← eq_of_kind hkind]
  · exact absurd h Outcome.inconsistent_ne_ok

theorem Script.hash_eq_of_wrapped {s s' : Script} (h : s.wrapped = s'.wrapped) :
    s.hash = s'.hash := by
  have hcommitted := committedHash_wrapped s
  rw [h, committedHash_wrapped] at hcommitted
  exact (Except.ok.inj hcommitted).symm

namespace RelativeLock

/-! ## Scans -/

/-- A loop over offsets that ends at the first hit, goes on after a miss, gives up at a stop and
passes on a fault. -/
structure Scans {γ : Type} (loop : Nat → UInt32 → Outcome (Option γ)) (hit : UInt32 → γ → Prop)
    (fail : UInt32 → Fault → Prop) (miss stop : UInt32 → Prop) : Prop where
  zero : ∀ offset, loop 0 offset = .ok none
  found : ∀ {left offset r}, loop (left + 1) offset = .ok (some r) ↔
    hit offset r ∨ miss offset ∧ loop left (offset + 1) = .ok (some r)
  failed : ∀ {left offset fault}, loop (left + 1) offset = .error fault ↔
    fail offset fault ∨ miss offset ∧ loop left (offset + 1) = .error fault
  missed : ∀ {left offset}, loop (left + 1) offset = .ok none ↔
    stop offset ∨ miss offset ∧ loop left (offset + 1) = .ok none

namespace Scans

variable {γ : Type} {loop : Nat → UInt32 → Outcome (Option γ)} {hit : UInt32 → γ → Prop}
  {fail : UInt32 → Fault → Prop} {miss stop : UInt32 → Prop}

/-- The offset `j` places after the next one. -/
theorem next_add (offset : UInt32) (j : Nat) :
    offset + 1 + UInt32.ofNat j = offset + UInt32.ofNat (j + 1) := by
  rw [UInt32.ofNat_add, UInt32.add_assoc, UInt32.add_comm 1]
  rfl

/-- What a loop comes to when it ends somewhere or goes on after a miss: it ends behind misses
alone, or meets misses alone and comes to what it comes to when no offset is left. -/
theorem comes_to_iff {Q : Nat → UInt32 → Prop} {E : UInt32 → Prop} {Z : Prop}
    (hzero : ∀ offset, Q 0 offset ↔ Z) (hstep : ∀ {left offset},
      Q (left + 1) offset ↔ E offset ∨ miss offset ∧ Q left (offset + 1))
    {left : Nat} {offset : UInt32} : Q left offset ↔
      (∃ i < left, (∀ j < i, miss (offset + UInt32.ofNat j)) ∧ E (offset + UInt32.ofNat i)) ∨
        (∀ j < left, miss (offset + UInt32.ofNat j)) ∧ Z := by
  induction left generalizing offset with
  | zero => simp [hzero]
  | succ left ih =>
    have hfirst : offset + UInt32.ofNat 0 = offset := UInt32.add_zero offset
    -- The first offset is told apart on the right, too.
    simp only [hstep, ih, Nat.exists_lt_succ_left, Nat.forall_lt_succ_left, hfirst, next_add]
    simp only [Nat.not_lt_zero, false_imp_iff, implies_true, true_and, and_assoc, and_left_comm,
      exists_and_left, and_or_left, or_assoc]

/-- A hit at the first offset ends the loop. -/
theorem found_at_once (h : Scans loop hit fail miss stop) {left : Nat} {offset : UInt32} {r : γ}
    (hleft : 0 < left) (hhit : hit offset r) : loop left offset = .ok (some r) := by
  obtain ⟨left, rfl⟩ := Nat.exists_eq_add_one.2 hleft
  exact h.found.2 (.inl hhit)

theorem eq_found (h : Scans loop hit fail miss stop) {left : Nat} {offset : UInt32} {r : γ} :
    loop left offset = .ok (some r) ↔
      ∃ i < left, (∀ j < i, miss (offset + UInt32.ofNat j)) ∧
        hit (offset + UInt32.ofNat i) r := by
  have hnone offset : loop 0 offset = .ok (some r) ↔ False := by simp [h.zero]
  rw [comes_to_iff (Q := fun left offset => loop left offset = .ok (some r)) hnone h.found,
    and_false, or_false]

theorem eq_failed (h : Scans loop hit fail miss stop) {left : Nat} {offset : UInt32}
    {fault : Fault} : loop left offset = .error fault ↔
      ∃ i < left, (∀ j < i, miss (offset + UInt32.ofNat j)) ∧
        fail (offset + UInt32.ofNat i) fault := by
  have hnone offset : loop 0 offset = .error fault ↔ False := by simp [h.zero]
  rw [comes_to_iff (Q := fun left offset => loop left offset = .error fault) hnone h.failed,
    and_false, or_false]

theorem eq_missed (h : Scans loop hit fail miss stop) {left : Nat} {offset : UInt32} :
    loop left offset = .ok none ↔
      (∃ i < left, (∀ j < i, miss (offset + UInt32.ofNat j)) ∧ stop (offset + UInt32.ofNat i)) ∨
        ∀ j < left, miss (offset + UInt32.ofNat j) := by
  have hend offset : loop 0 offset = .ok none ↔ True := by simp [h.zero]
  rw [comes_to_iff (Q := fun left offset => loop left offset = .ok none) hend h.missed, and_true]

/-- A scan that meets nothing but misses and stops ends without a find. -/
theorem eq_missed_of_forall (h : Scans loop hit fail miss stop) {left : Nat} {offset : UInt32}
    (hall : ∀ k < left, stop (offset + UInt32.ofNat k) ∨ miss (offset + UInt32.ofNat k)) :
    loop left offset = .ok none := by
  induction left generalizing offset with
  | zero => exact h.zero offset
  | succ left ih =>
    have hfirst : stop offset ∨ miss offset := by simpa using hall 0 (Nat.succ_pos left)
    refine h.missed.2 (hfirst.imp_right fun hmiss => ⟨hmiss, ih fun k hk => ?_⟩)
    rw [next_add]
    exact hall (k + 1) (Nat.succ_lt_succ hk)

end Scans

variable {nominal first second bound : UInt32} {expected : Hash160} {label : String}
  {script : Script}

/-! ## One timeout -/

section

variable {build : UInt32 → Outcome Script} {timeout : UInt32}

/-- The candidate at an offset has a script with the expected hash. -/
def Hits (nominal : UInt32) (expected : Hash160) (build : UInt32 → Outcome Script)
    (offset : UInt32) (found : Script × UInt32) : Prop :=
  candidate nominal offset = some found.2 ∧ build found.2 = .ok found.1 ∧
    found.1.hash = expected

/-- The candidate at an offset has a script, but not with the expected hash. -/
def Misses (nominal : UInt32) (expected : Hash160) (build : UInt32 → Outcome Script)
    (offset : UInt32) : Prop :=
  ∃ timeout script, candidate nominal offset = some timeout ∧ build timeout = .ok script ∧
    script.hash ≠ expected

/-- The candidate at an offset has no script. -/
def Fails (nominal : UInt32) (build : UInt32 → Outcome Script) (offset : UInt32)
    (fault : Fault) : Prop :=
  ∃ timeout, candidate nominal offset = some timeout ∧ build timeout = .error fault

theorem scans_searchFrom (nominal : UInt32) (expected : Hash160)
    (build : UInt32 → Outcome Script) :
    Scans (searchFrom nominal expected build) (Hits nominal expected build) (Fails nominal build)
      (Misses nominal expected build) (candidate nominal · = none) where
  zero _ := rfl
  found {left offset found} := by
    rw [searchFrom]
    unfold Hits Misses
    cases candidate nominal offset with
    | none => simp
    | some t =>
      simp only [Outcome.bind_eq_ok, Option.some.injEq]
      constructor
      · intro h
        obtain ⟨s, hs, h⟩ := h
        split at h
        · next hhash =>
          obtain rfl := Option.some.inj (Outcome.pure_eq_ok.1 h)
          exact .inl ⟨rfl, hs, hhash⟩
        · next hhash => exact .inr ⟨⟨t, s, rfl, hs, hhash⟩, h⟩
      · obtain ⟨s', t'⟩ := found
        intro h
        rcases h with ⟨rfl, hs, hhash⟩ | ⟨⟨_, s, rfl, hs, hhash⟩, h⟩
        · exact ⟨s', hs, by rw [if_pos hhash, Outcome.pure_eq_ok]⟩
        · exact ⟨s, hs, by rwa [if_neg hhash]⟩
  failed {left offset fault} := by
    rw [searchFrom]
    unfold Fails Misses
    cases candidate nominal offset with
    | none => simp
    | some t =>
      simp only [Outcome.bind_eq_error, Option.some.injEq]
      constructor
      · intro h
        rcases h with hs | ⟨s, hs, h⟩
        · exact .inl ⟨t, rfl, hs⟩
        · split at h
          · cases h
          · next hhash => exact .inr ⟨⟨t, s, rfl, hs, hhash⟩, h⟩
      · intro h
        rcases h with ⟨_, rfl, hs⟩ | ⟨⟨_, s, rfl, hs, hhash⟩, h⟩
        · exact .inl hs
        · exact .inr ⟨s, hs, by rwa [if_neg hhash]⟩
  missed {left offset} := by
    rw [searchFrom]
    unfold Misses
    cases candidate nominal offset with
    | none => simp
    | some t =>
      simp only [Outcome.bind_eq_ok, Option.some.injEq, reduceCtorEq, false_or]
      constructor
      · intro h
        obtain ⟨s, hs, h⟩ := h
        split at h
        · cases Outcome.pure_eq_ok.1 h
        · next hhash => exact ⟨⟨t, s, rfl, hs, hhash⟩, h⟩
      · intro h
        obtain ⟨⟨_, s, rfl, hs, hhash⟩, h⟩ := h
        exact ⟨s, hs, by rwa [if_neg hhash]⟩

theorem search_eq_ok :
    search label nominal bound expected build = .ok (script, timeout) ↔
      searchFrom nominal expected build bound.toNat 0 = .ok (some (script, timeout)) := by
  rw [search, Outcome.bind_eq_ok]
  constructor
  · intro h
    rcases h with ⟨_ | found, hfound, h⟩
    · exact absurd h Outcome.throw_ne_ok
    · rwa [← Outcome.pure_eq_ok.1 h]
  · exact fun h => ⟨_, h, rfl⟩

/-- What a search finds was built for the timeout that it finds. -/
theorem build_of_search (h : search label nominal bound expected build = .ok (script, timeout)) :
    build timeout = .ok script := by
  obtain ⟨i, -, -, -, hbuild, -⟩ := (scans_searchFrom ..).eq_found.1 (search_eq_ok.1 h)
  exact hbuild

theorem hash_of_search (h : search label nominal bound expected build = .ok (script, timeout)) :
    script.hash = expected := by
  obtain ⟨i, -, -, -, -, hhash⟩ := (scans_searchFrom ..).eq_found.1 (search_eq_ok.1 h)
  exact hhash

end

/-! ## Two timeouts -/

section

variable {build : UInt32 → UInt32 → Outcome Script} {timeout reply : UInt32}

/-- A candidate for the first timeout with which the search for the second succeeds. -/
def PairHits (first second bound : UInt32) (expected : Hash160)
    (build : UInt32 → UInt32 → Outcome Script) (offset : UInt32)
    (found : Script × UInt32 × UInt32) : Prop :=
  candidate first offset = some found.2.1 ∧
    searchFrom second expected (build found.2.1) bound.toNat 0 = .ok (some (found.1, found.2.2))

/-- A candidate for the first timeout with which the search for the second finds nothing. -/
def PairMisses (first second bound : UInt32) (expected : Hash160)
    (build : UInt32 → UInt32 → Outcome Script) (offset : UInt32) : Prop :=
  ∃ timeout, candidate first offset = some timeout ∧
    searchFrom second expected (build timeout) bound.toNat 0 = .ok none

/-- A candidate for the first timeout with which the search for the second fails. -/
def PairFails (first second bound : UInt32) (expected : Hash160)
    (build : UInt32 → UInt32 → Outcome Script) (offset : UInt32) (fault : Fault) : Prop :=
  ∃ timeout, candidate first offset = some timeout ∧
    searchFrom second expected (build timeout) bound.toNat 0 = .error fault

theorem scans_searchPairFrom (first second bound : UInt32) (expected : Hash160)
    (build : UInt32 → UInt32 → Outcome Script) :
    Scans (searchPairFrom first second bound expected build)
      (PairHits first second bound expected build) (PairFails first second bound expected build)
      (PairMisses first second bound expected build) (candidate first · = none) where
  zero _ := rfl
  found {left offset found} := by
    rw [searchPairFrom]
    unfold PairHits PairMisses
    cases candidate first offset with
    | none => simp
    | some t =>
      simp only [Outcome.bind_eq_ok, Option.some.injEq]
      constructor
      · intro h
        rcases h with ⟨_ | ⟨s, r⟩, hs, h⟩
        · exact .inr ⟨⟨t, rfl, hs⟩, h⟩
        · obtain rfl := Option.some.inj (Outcome.pure_eq_ok.1 h)
          exact .inl ⟨rfl, hs⟩
      · intro h
        rcases h with ⟨rfl, hs⟩ | ⟨⟨_, rfl, hs⟩, h⟩
        · exact ⟨_, hs, rfl⟩
        · exact ⟨_, hs, h⟩
  failed {left offset fault} := by
    rw [searchPairFrom]
    unfold PairFails PairMisses
    cases candidate first offset with
    | none => simp
    | some t =>
      simp only [Outcome.bind_eq_error, Option.some.injEq]
      constructor
      · intro h
        rcases h with hs | ⟨_ | ⟨s, r⟩, hs, h⟩
        · exact .inl ⟨t, rfl, hs⟩
        · exact .inr ⟨⟨t, rfl, hs⟩, h⟩
        · cases h
      · intro h
        rcases h with ⟨_, rfl, hs⟩ | ⟨⟨_, rfl, hs⟩, h⟩
        · exact .inl hs
        · exact .inr ⟨_, hs, h⟩
  missed {left offset} := by
    rw [searchPairFrom]
    unfold PairMisses
    cases candidate first offset with
    | none => simp
    | some t =>
      simp only [Outcome.bind_eq_ok, Option.some.injEq, reduceCtorEq, false_or]
      constructor
      · intro h
        rcases h with ⟨_ | ⟨s, r⟩, hs, h⟩
        · exact ⟨⟨t, rfl, hs⟩, h⟩
        · cases Outcome.pure_eq_ok.1 h
      · intro h
        obtain ⟨⟨_, rfl, hs⟩, h⟩ := h
        exact ⟨_, hs, h⟩

theorem searchPair_eq_ok :
    searchPair label first second bound expected build = .ok (script, timeout, reply) ↔
      searchPairFrom first second bound expected build bound.toNat 0 =
        .ok (some (script, timeout, reply)) := by
  rw [searchPair, Outcome.bind_eq_ok]
  constructor
  · intro h
    rcases h with ⟨_ | found, hfound, h⟩
    · exact absurd h Outcome.throw_ne_ok
    · rwa [← Outcome.pure_eq_ok.1 h]
  · exact fun h => ⟨_, h, rfl⟩

theorem build_of_searchPair (h : searchPair label first second bound expected build =
    .ok (script, timeout, reply)) : build timeout reply = .ok script := by
  obtain ⟨i, -, -, -, hsearch⟩ := (scans_searchPairFrom ..).eq_found.1 (searchPair_eq_ok.1 h)
  obtain ⟨j, -, -, -, hbuild, -⟩ := (scans_searchFrom ..).eq_found.1 hsearch
  exact hbuild

theorem hash_of_searchPair (h : searchPair label first second bound expected build =
    .ok (script, timeout, reply)) : script.hash = expected := by
  obtain ⟨i, -, -, -, hsearch⟩ := (scans_searchPairFrom ..).eq_found.1 (searchPair_eq_ok.1 h)
  obtain ⟨j, -, -, -, -, hhash⟩ := (scans_searchFrom ..).eq_found.1 hsearch
  exact hhash

end

/-! ## Scripts that their locks determine

The script for a timeout is built from the lock of the timeout, so the scripts of two timeouts are
equal exactly when the locks are. A script that was built for a timeout after the nominal one is
then found at the excess of that timeout, unless an earlier candidate collides with it. -/

/-- The candidates within the bound have other hashes than the script, as far as they differ. -/
def NoCollision (nominal bound : UInt32) (build : UInt32 → Outcome Script) (script : Script) :
    Prop :=
  ∀ offset < bound, ∀ timeout other, candidate nominal offset = some timeout →
    build timeout = .ok other → other.hash = script.hash → other = script

/-- The script of a timeout is made from its lock. -/
def BuiltFrom (build : UInt32 → Outcome Script) (f : UInt32 → Script) : Prop :=
  ∀ {timeout script}, build timeout = .ok script ↔
    ∃ lock, sequence timeout = .ok lock ∧ f lock = script

section

variable {build : UInt32 → Outcome Script} {f : UInt32 → Script} {chosen lock : UInt32}

theorem ofNat_lt {k : Nat} (hk : k < bound.toNat) : UInt32.ofNat k < bound := by
  rw [UInt32.lt_iff_toNat_lt, UInt32.toNat_ofNat_of_lt' (Nat.lt_trans hk bound.toNat_lt)]
  exact hk

theorem searchFrom_eq_none (hbuild : BuiltFrom build f)
    (hne : ∀ offset < bound, ∀ timeout l, candidate nominal offset = some timeout →
      sequence timeout = .ok l → (f l).hash ≠ expected) :
    searchFrom nominal expected build bound.toNat 0 = .ok none := by
  refine (scans_searchFrom ..).eq_missed_of_forall fun k hk => ?_
  rw [UInt32.zero_add]
  cases hcandidate : candidate nominal (UInt32.ofNat k) with
  | none => exact .inl rfl
  | some timeout =>
    obtain ⟨l, hl⟩ := (candidate_eq_some_iff.1 hcandidate).2
    exact .inr ⟨timeout, f l, hcandidate, hbuild.2 ⟨l, hl, rfl⟩,
      hne _ (ofNat_lt hk) timeout l hcandidate hl⟩

theorem searchFrom_of_built (hbuild : BuiltFrom build f) (hinjective : f.Injective)
    (hle : nominal ≤ chosen) (hchosen : sequence chosen = .ok lock) (hscript : f lock = script)
    (hno : NoCollision nominal bound build script) :
    searchFrom nominal script.hash build bound.toNat 0 =
      .ok (if excess nominal chosen < bound then
        some (script, nominal + 512 * excess nominal chosen) else none) := by
  subst hscript
  have hne : ∀ offset < bound, ∀ timeout l, candidate nominal offset = some timeout →
      sequence timeout = .ok l → offset ≠ excess nominal chosen → (f l).hash ≠ (f lock).hash := by
    intro offset hoffset timeout l hcandidate hl hother hhash
    obtain rfl := hinjective (hno offset hoffset timeout (f l) hcandidate
      (hbuild.2 ⟨l, hl, rfl⟩) hhash)
    exact hother (offset_of_candidate hle hchosen hcandidate hl)
  by_cases hin : excess nominal chosen < bound
  · rw [if_pos hin]
    refine (scans_searchFrom ..).eq_found.2 ⟨(excess nominal chosen).toNat, hin, fun k hk => ?_, ?_⟩
    · rw [UInt32.zero_add]
      have hbefore : UInt32.ofNat k < excess nominal chosen := ofNat_lt hk
      have hcandidate := candidate_of_le_excess hle hchosen (UInt32.le_of_lt hbefore)
      obtain ⟨l, hl⟩ := (candidate_eq_some_iff.1 hcandidate).2
      exact ⟨_, f l, hcandidate, hbuild.2 ⟨l, hl, rfl⟩,
        hne _ (UInt32.lt_trans hbefore hin) _ l hcandidate hl (UInt32.ne_of_lt hbefore)⟩
    · rw [UInt32.zero_add, UInt32.ofNat_toNat]
      exact ⟨candidate_of_le_excess hle hchosen (UInt32.le_refl _),
        hbuild.2 ⟨lock, sequence_excess hle hchosen, rfl⟩, rfl⟩
  · rw [if_neg hin]
    refine searchFrom_eq_none hbuild fun offset hoffset timeout l hcandidate hl => ?_
    refine hne offset hoffset timeout l hcandidate hl ?_
    intro h
    subst h
    exact hin hoffset

/-- A script is found again exactly when the excess of its timeout is below the bound. -/
theorem search_of_built (hbuild : BuiltFrom build f) (hinjective : f.Injective)
    (hle : nominal ≤ chosen) (hchosen : sequence chosen = .ok lock) (hscript : f lock = script)
    (hno : NoCollision nominal bound build script) :
    search label nominal bound script.hash build =
      if excess nominal chosen < bound then .ok (script, nominal + 512 * excess nominal chosen)
      else .error (.unrecovered (.single label bound nominal)) := by
  rw [search, searchFrom_of_built hbuild hinjective hle hchosen hscript hno]
  split <;> rfl

end

/-- The pairs of candidates within the bound have other hashes than the script, as far as they
differ. -/
def NoPairCollision (first second bound : UInt32) (build : UInt32 → UInt32 → Outcome Script)
    (script : Script) : Prop :=
  ∀ offset < bound, ∀ timeout, candidate first offset = some timeout →
    NoCollision second bound (build timeout) script

section

variable {build : UInt32 → UInt32 → Outcome Script} {f : UInt32 → UInt32 → Script}
  {chosen reply lock replyLock : UInt32}

theorem searchPairFrom_of_built
    (hbuild : ∀ {timeout l}, sequence timeout = .ok l → BuiltFrom (build timeout) (f l))
    (hinjective : Function.Injective2 f) (hle : first ≤ chosen) (hleReply : second ≤ reply)
    (hchosen : sequence chosen = .ok lock) (hreply : sequence reply = .ok replyLock)
    (hscript : f lock replyLock = script)
    (hno : NoPairCollision first second bound build script) :
    searchPairFrom first second bound script.hash build bound.toNat 0 =
      .ok (if excess first chosen < bound ∧ excess second reply < bound then
        some (script, first + 512 * excess first chosen, second + 512 * excess second reply)
        else none) := by
  subst hscript
  -- Next to the right first timeout no second one gives a script with the hash.
  have hother : ∀ offset < bound, ∀ timeout l, candidate first offset = some timeout →
      sequence timeout = .ok l → offset ≠ excess first chosen →
      searchFrom second (f lock replyLock).hash (build timeout) bound.toNat 0 = .ok none := by
    intro offset hoffset timeout l hcandidate hl hne
    refine searchFrom_eq_none (hbuild hl) ?_
    intro offset' hoffset' timeout' l' hcandidate' hl' hhash
    have heq := hno offset hoffset timeout hcandidate offset' hoffset' timeout' (f l l') hcandidate'
      ((hbuild hl).2 ⟨l', hl', rfl⟩) hhash
    obtain ⟨rfl, -⟩ := hinjective heq
    exact hne (offset_of_candidate hle hchosen hcandidate hl)
  have hright := candidate_of_le_excess hle hchosen (UInt32.le_refl _)
  have hsearch : excess first chosen < bound → searchFrom second (f lock replyLock).hash
      (build (first + 512 * excess first chosen)) bound.toNat 0 =
        .ok (if excess second reply < bound then
          some (f lock replyLock, second + 512 * excess second reply) else none) := by
    intro hin
    exact searchFrom_of_built (hbuild (sequence_excess hle hchosen)) (hinjective.right lock)
      hleReply hreply rfl (hno _ hin _ hright)
  by_cases hin : excess first chosen < bound ∧ excess second reply < bound
  · rw [if_pos hin]
    refine (scans_searchPairFrom ..).eq_found.2
      ⟨(excess first chosen).toNat, hin.1, fun k hk => ?_, ?_⟩
    · rw [UInt32.zero_add]
      have hbefore : UInt32.ofNat k < excess first chosen := ofNat_lt hk
      have hcandidate := candidate_of_le_excess hle hchosen (UInt32.le_of_lt hbefore)
      obtain ⟨l, hl⟩ := (candidate_eq_some_iff.1 hcandidate).2
      exact ⟨_, hcandidate, hother _ (UInt32.lt_trans hbefore hin.1) _ l hcandidate hl
        (UInt32.ne_of_lt hbefore)⟩
    · rw [UInt32.zero_add, UInt32.ofNat_toNat]
      refine ⟨hright, ?_⟩
      rw [hsearch hin.1, if_pos hin.2]
  · rw [if_neg hin]
    refine (scans_searchPairFrom ..).eq_missed_of_forall fun k hk => ?_
    rw [UInt32.zero_add]
    cases hcandidate : candidate first (UInt32.ofNat k) with
    | none => exact .inl rfl
    | some timeout =>
      right
      obtain ⟨l, hl⟩ := (candidate_eq_some_iff.1 hcandidate).2
      have hoffset : UInt32.ofNat k < bound := ofNat_lt hk
      by_cases heq : UInt32.ofNat k = excess first chosen
      · rw [heq] at hoffset
        have htimeout : first + 512 * excess first chosen = timeout := by
          rw [heq, hright] at hcandidate
          exact Option.some.inj hcandidate
        have hmissed := hsearch hoffset
        rw [if_neg fun hreplies => hin ⟨hoffset, hreplies⟩, htimeout] at hmissed
        exact ⟨timeout, hcandidate, hmissed⟩
      · exact ⟨timeout, hcandidate, hother _ hoffset timeout l hcandidate hl heq⟩

/-- A script is found again exactly when the excesses of both its timeouts are below the bound. -/
theorem searchPair_of_built
    (hbuild : ∀ {timeout l}, sequence timeout = .ok l → BuiltFrom (build timeout) (f l))
    (hinjective : Function.Injective2 f) (hle : first ≤ chosen) (hleReply : second ≤ reply)
    (hchosen : sequence chosen = .ok lock) (hreply : sequence reply = .ok replyLock)
    (hscript : f lock replyLock = script)
    (hno : NoPairCollision first second bound build script) :
    searchPair label first second bound script.hash build =
      if excess first chosen < bound ∧ excess second reply < bound then
        .ok (script, first + 512 * excess first chosen, second + 512 * excess second reply)
      else .error (.unrecovered (.pair label bound first second)) := by
  rw [searchPair, searchPairFrom_of_built hbuild hinjective hle hleReply hchosen hreply hscript
    hno]
  split <;> rfl

end

end RelativeLock

end Wager
