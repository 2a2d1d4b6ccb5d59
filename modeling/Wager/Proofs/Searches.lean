import Wager.Proofs.Digests
import Wager.Proofs.Recovery

/-!
# What a search comes to

A search goes through places in an order. A place may offer a timeout, or a pair of them, for which
a script is built. The search comes to one of three ends (`FindsFirst`): the first script with the
expected hash, the fault of a script that cannot be built, if no such script comes before it, or
else a fault of its own.

**Places.** For one timeout a place is an offset, the number of units above the nominal timeout. For
two it is a pair of offsets, in lexicographic order. The offsets that offer a timeout are an initial
segment (`Offers.earlier`), so nothing is lost when a loop ends at the first that does not: the loop
over the second timeout goes on with the next offset of the first.

**Recovery.** When scripts with different locks differ, all scripts before the committed one have
other hashes, so the committed timeout is what is found (`FindsFirst.recovers`).

Main result: `searches_find_first`.
-/

namespace Wager.RelativeLock

variable {nominal first second bound timeout : UInt32} {expected : Hash160} {label : String}
  {script : Script} {fault : Fault}

/-! ## Places -/

/-- The offset is within the bound, and the timeout so many units above the nominal one has a
lock. -/
def Offers (nominal bound : UInt32) (offset : Nat) (timeout : UInt32) : Prop :=
  offset < bound.toNat ∧ timeout.toNat = nominal.toNat + 512 * offset ∧
    ∃ lock, sequence timeout = .ok lock

/-- Both offsets offer their timeout. -/
def OffersPair (first second bound : UInt32) (offsets : Nat × Nat) (timeouts : UInt32 × UInt32) :
    Prop :=
  Offers first bound offsets.1 timeouts.1 ∧ Offers second bound offsets.2 timeouts.2

theorem offers_iff {offset : Nat} : Offers nominal bound offset timeout ↔
    offset < bound.toNat ∧ candidate nominal (0 + UInt32.ofNat offset) = some timeout := by
  rw [Offers, UInt32.zero_add]
  refine and_congr_right fun hlt => ?_
  have hword : (UInt32.ofNat offset).toNat = offset :=
    UInt32.toNat_ofNat_of_lt' (Nat.lt_trans hlt bound.toNat_lt)
  rw [candidate_eq_some_iff, hword]

namespace Offers

variable {offset : Nat}

theorem unique {other : UInt32} (h : Offers nominal bound offset timeout)
    (h' : Offers nominal bound offset other) : timeout = other :=
  UInt32.toNat_inj.1 (h.2.1.trans h'.2.1.symm)

/-- What is offered at an offset is offered at every earlier one. -/
theorem earlier (h : Offers nominal bound offset timeout) {before : Nat} (hle : before ≤ offset) :
    ∃ timeout, Offers nominal bound before timeout := by
  obtain ⟨hbound, hvalue, lock, hlock⟩ := h
  have hlt := lt_of_sequence hlock
  have hword : (UInt32.ofNat (nominal.toNat + 512 * before)).toNat =
      nominal.toNat + 512 * before :=
    UInt32.toNat_ofNat_of_lt' (by rw [UInt32.size]; omega)
  exact ⟨_, Nat.lt_of_le_of_lt hle hbound, hword, _, sequence_of_lt (by rw [hword]; omega)⟩

/-- A timeout with the lock of another one on offer stands at the same offset. -/
theorem offset_eq {offset' : Nat} {other : UInt32} (h : Offers nominal bound offset timeout)
    (h' : Offers nominal bound offset' other) (hlocks : sequence timeout = sequence other) :
    offset = offset' := by
  obtain ⟨-, hvalue, lock, hlock⟩ := h
  obtain ⟨-, hvalue', -⟩ := h'
  have hunits := units_of_sequence hlock (hlocks ▸ hlock)
  omega

end Offers

/-- A loop that needs a property of each timeout to go on has it of all that are offered before an
offer. -/
theorem exists_offer_iff {P ends : UInt32 → Prop} :
    (∃ i < bound.toNat,
      (∀ j < i, ∃ t, candidate nominal (0 + UInt32.ofNat j) = some t ∧ P t) ∧
        ∃ t, candidate nominal (0 + UInt32.ofNat i) = some t ∧ ends t) ↔
      ∃ i t, Offers nominal bound i t ∧ ends t ∧
        ∀ j < i, ∀ t', Offers nominal bound j t' → P t' := by
  constructor
  · intro h
    obtain ⟨i, hi, hbefore, t, ht, hends⟩ := h
    refine ⟨i, t, offers_iff.2 ⟨hi, ht⟩, hends, fun j hj t' ht' => ?_⟩
    obtain ⟨_, hcandidate, hP⟩ := hbefore j hj
    obtain rfl := Option.some.inj (hcandidate.symm.trans (offers_iff.1 ht').2)
    exact hP
  · intro h
    obtain ⟨i, t, hoffer, hends, hbefore⟩ := h
    obtain ⟨hi, ht⟩ := offers_iff.1 hoffer
    -- Every offset before an offer has one, too, so the loop does not stop short of it.
    refine ⟨i, hi, fun j hj => ?_, t, ht, hends⟩
    obtain ⟨t', ht'⟩ := hoffer.earlier (Nat.le_of_lt hj)
    exact ⟨t', (offers_iff.1 ht').2, hbefore j hj t' ht'⟩

/-- A scan ends without a find exactly if every timeout on offer is a miss. -/
theorem Scans.eq_missed_iff {γ : Type} {loop : Nat → UInt32 → Outcome (Option γ)}
    {hit : UInt32 → γ → Prop} {fail : UInt32 → Fault → Prop} {P : UInt32 → Prop}
    (h : Scans loop hit fail (fun offset => ∃ t, candidate nominal offset = some t ∧ P t)
      (candidate nominal · = none)) :
    loop bound.toNat 0 = .ok none ↔ ∀ i t, Offers nominal bound i t → P t := by
  constructor
  · intro hloop i t hoffer
    obtain ⟨hi, ht⟩ := offers_iff.1 hoffer
    -- The scan does not stop before an offer, so it has met a miss there.
    have hmet : ∃ t', candidate nominal (0 + UInt32.ofNat i) = some t' ∧ P t' := by
      rcases h.eq_missed.1 hloop with ⟨k, hk, hbefore, hnone⟩ | hall
      · refine hbefore i (Nat.lt_of_not_le fun hki => ?_)
        obtain ⟨t', ht'⟩ := hoffer.earlier hki
        exact absurd ((offers_iff.1 ht').2.symm.trans hnone) (Option.some_ne_none t')
      · exact hall i hi
    obtain ⟨_, hcandidate, hP⟩ := hmet
    obtain rfl := Option.some.inj (hcandidate.symm.trans ht)
    exact hP
  · intro hall
    refine h.eq_missed_of_forall fun k hk => ?_
    cases hcandidate : candidate nominal (0 + UInt32.ofNat k) with
    | none => exact .inl rfl
    | some t => exact .inr ⟨t, rfl, hall k t (offers_iff.2 ⟨hk, hcandidate⟩)⟩

/-! ## The first match -/

/-- A script was built, and it is not the one that is looked for. -/
def Differs (expected : Hash160) (built : Outcome Script) : Prop :=
  ∃ other, built = .ok other ∧ other.hash ≠ expected

section

variable {ι τ κ : Type} {before : ι → ι → Prop} {offered : ι → τ → Prop}
  {build : τ → Outcome Script} {place : ι} {choice : τ}

/-- Whatever is offered before the place has another script than the one that is looked for. -/
def DiffersBefore (before : ι → ι → Prop) (offered : ι → τ → Prop) (build : τ → Outcome Script)
    (expected : Hash160) (place : ι) : Prop :=
  ∀ earlier, before earlier place → ∀ choice, offered earlier choice →
    Differs expected (build choice)

/-- The loop of a search comes to the first match, to the fault of a script before it, or, when all
scripts on offer differ, to nothing. -/
structure Explores (before : ι → ι → Prop) (offered : ι → τ → Prop) (build : τ → Outcome Script)
    (expected : Hash160) (result : Outcome (Option (Script × τ))) : Prop where
  found : ∀ script choice, result = .ok (some (script, choice)) ↔ ∃ place, offered place choice ∧
    build choice = .ok script ∧ script.hash = expected ∧
    DiffersBefore before offered build expected place
  failed : ∀ fault, result = .error fault ↔ ∃ place choice, offered place choice ∧
    build choice = .error fault ∧ DiffersBefore before offered build expected place
  exhausted : result = .ok none ↔
    ∀ place choice, offered place choice → Differs expected (build choice)

/-- A search succeeds with the first match and with nothing else. It passes on the fault of a script
that it meets before a match, and has a fault of its own when all scripts on offer differ. -/
structure FindsFirst (before : ι → ι → Prop) (offered : ι → τ → Prop) (build : τ → Outcome Script)
    (expected : Hash160) (exhausted : Fault) (result : Outcome (Script × τ)) : Prop where
  found : ∀ script choice, result = .ok (script, choice) ↔ ∃ place, offered place choice ∧
    build choice = .ok script ∧ script.hash = expected ∧
    DiffersBefore before offered build expected place
  failed : ∀ fault, result = .error fault ↔
    (∃ place choice, offered place choice ∧ build choice = .error fault ∧
      DiffersBefore before offered build expected place) ∨
    fault = exhausted ∧ ∀ place choice, offered place choice → Differs expected (build choice)

/-- A search returns what its loop comes to, and fails on its own when that is nothing. -/
theorem Explores.findsFirst {explored : Outcome (Option (Script × τ))} {exhausted : Fault}
    {finish : Option (Script × τ) → Outcome (Script × τ)}
    (h : Explores before offered build expected explored)
    (hsome : ∀ found, finish (some found) = .ok found) (hnone : finish none = .error exhausted) :
    FindsFirst before offered build expected exhausted (explored >>= finish) where
  found script choice := by
    rw [← h.found, Outcome.bind_eq_ok]
    constructor
    · intro hresult
      rcases hresult with ⟨_ | found, hfound, hfinish⟩
      · simp [hnone] at hfinish
      · rwa [← Except.ok.inj ((hsome found).symm.trans hfinish)]
    · exact fun hfound => ⟨_, hfound, hsome _⟩
  failed fault := by
    rw [← h.failed, ← h.exhausted, Outcome.bind_eq_error]
    refine or_congr_right ?_
    constructor
    · intro hresult
      rcases hresult with ⟨_ | found, hexplored, hfinish⟩
      · exact ⟨Except.error.inj (hfinish.symm.trans hnone), hexplored⟩
      · simp [hsome] at hfinish
    · intro hresult
      obtain ⟨rfl, hexplored⟩ := hresult
      exact ⟨none, hexplored, hnone⟩

/-- Before its place every script on offer can be built, none of them for other locks is `script`,
and none but `script` has its hash. So it is when a script tells its locks and no hashes collide. -/
structure Identifies (before : ι → ι → Prop) (offered : ι → τ → Prop) (locks : τ → κ)
    (build : τ → Outcome Script) (place : ι) (choice : τ) (script : Script) : Prop where
  builds : ∀ {earlier other}, before earlier place → offered earlier other →
    ∃ built, build other = .ok built
  injective : ∀ {earlier other}, before earlier place → offered earlier other →
    build other = .ok script → locks other = locks choice
  noCollision : ∀ {earlier other built}, before earlier place → offered earlier other →
    build other = .ok built → built.hash = script.hash → built = script

/-- A search finds what the hash was made of. -/
theorem FindsFirst.recovers {exhausted : Fault} {result : Outcome (Script × τ)} {locks : τ → κ}
    (h : FindsFirst before offered build script.hash exhausted result)
    (hbefore : ∀ place, ¬ before place place)
    (hplaces : ∀ {place place' choice choice'}, offered place choice → offered place' choice' →
      locks choice = locks choice' → place = place')
    (hidentifies : Identifies before offered locks build place choice script)
    (hoffer : offered place choice) (hbuild : build choice = .ok script) :
    result = .ok (script, choice) := by
  refine (h.found script choice).2 ⟨place, hoffer, hbuild, rfl, fun earlier hearlier other ho => ?_⟩
  obtain ⟨built, hbuilt⟩ := hidentifies.builds hearlier ho
  refine ⟨built, hbuilt, fun hhash => ?_⟩
  obtain rfl := hidentifies.noCollision hearlier ho hbuilt hhash
  obtain rfl := hplaces ho hoffer (hidentifies.injective hearlier ho hbuilt)
  exact hbefore _ hearlier

end

/-! ## One timeout -/

section

variable {build : UInt32 → Outcome Script}

theorem misses_eq : Misses nominal expected build =
    fun offset => ∃ t, candidate nominal offset = some t ∧ Differs expected (build t) := by
  funext offset
  simp only [Misses, Differs, exists_and_left]

theorem explores_searchFrom (nominal bound : UInt32) (expected : Hash160)
    (build : UInt32 → Outcome Script) :
    Explores (· < ·) (Offers nominal bound) build expected
      (searchFrom nominal expected build bound.toNat 0) := by
  have hscans := scans_searchFrom nominal expected build
  rw [misses_eq] at hscans
  exact {
    found script timeout := by
      have hhits (offset : UInt32) : Hits nominal expected build offset (script, timeout) ↔
          ∃ t, candidate nominal offset = some t ∧
            t = timeout ∧ build timeout = .ok script ∧ script.hash = expected := by
        simp [Hits]
      simp only [hscans.eq_found, hhits, exists_offer_iff]
      constructor
      · intro h
        obtain ⟨i, _, hoffer, ⟨rfl, hbuild, hhash⟩, hbefore⟩ := h
        exact ⟨i, hoffer, hbuild, hhash, hbefore⟩
      · intro h
        obtain ⟨i, hoffer, hbuild, hhash, hbefore⟩ := h
        exact ⟨i, timeout, hoffer, ⟨rfl, hbuild, hhash⟩, hbefore⟩
    failed fault := by
      simp only [hscans.eq_failed, Fails, exists_offer_iff]
      rfl
    exhausted := hscans.eq_missed_iff }

end

/-! ## Two timeouts -/

section

variable {build : UInt32 → UInt32 → Outcome Script}

/-- The lexicographic order of pairs of offsets. -/
def Earlier : Nat × Nat → Nat × Nat → Prop := Prod.Lex (· < ·) (· < ·)

theorem not_earlier_self (offsets : Nat × Nat) : ¬ Earlier offsets offsets := by
  intro h
  cases h with
  | left _ _ h => exact Nat.lt_irrefl _ h
  | right _ h => exact Nat.lt_irrefl _ h

/-- Before a pair of offsets come those with a smaller first one, and those with a smaller second
one next to the same first one. -/
theorem differsBefore_pair_iff {i j : Nat} (hoffer : Offers first bound i timeout) :
    DiffersBefore Earlier (OffersPair first second bound)
        (fun timeouts => build timeouts.1 timeouts.2) expected (i, j) ↔
      (∀ i' < i, ∀ t, Offers first bound i' t → ∀ j' r, Offers second bound j' r →
        Differs expected (build t r)) ∧
      DiffersBefore (· < ·) (Offers second bound) (build timeout) expected j := by
  constructor
  · intro h
    refine ⟨fun i' hi' t ht j' r hr => ?_, fun j' hj' r hr => ?_⟩
    · exact h (i', j') (.left _ _ hi') (t, r) ⟨ht, hr⟩
    · exact h (i, j') (.right _ hj') (timeout, r) ⟨hoffer, hr⟩
  · intro h place hplace choice hchoice
    obtain ⟨hfirst, hsecond⟩ := h
    obtain ⟨t, r⟩ := choice
    obtain ⟨ht, hr⟩ := hchoice
    cases hplace with
    | left _ _ hi' => exact hfirst _ hi' t ht _ r hr
    | right _ hj' =>
      obtain rfl := hoffer.unique ht
      exact hsecond _ hj' r hr

theorem explores_searchPairFrom (first second bound : UInt32) (expected : Hash160)
    (build : UInt32 → UInt32 → Outcome Script) :
    Explores Earlier (OffersPair first second bound) (fun timeouts => build timeouts.1 timeouts.2)
      expected (searchPairFrom first second bound expected build bound.toNat 0) := by
  have hscans := scans_searchPairFrom first second bound expected build
  -- The loop over the second timeout, next to one first timeout.
  have hinner (t : UInt32) := explores_searchFrom second bound expected (build t)
  exact {
    found script choice := by
      obtain ⟨timeout, reply⟩ := choice
      have hhits (offset : UInt32) :
          PairHits first second bound expected build offset (script, timeout, reply) ↔
            ∃ t, candidate first offset = some t ∧ t = timeout ∧
              searchFrom second expected (build timeout) bound.toNat 0 =
                .ok (some (script, reply)) := by
        simp [PairHits]
      simp only [hscans.eq_found, hhits, PairMisses, exists_offer_iff, (hinner _).found,
        (hinner _).exhausted]
      constructor
      · intro h
        obtain ⟨i, _, hoffer, ⟨rfl, j, hreply, hbuild, hhash, hsecond⟩, hfirst⟩ := h
        exact ⟨(i, j), ⟨hoffer, hreply⟩, hbuild, hhash,
          (differsBefore_pair_iff hoffer).2 ⟨hfirst, hsecond⟩⟩
      · intro h
        obtain ⟨⟨i, j⟩, ⟨hoffer, hreply⟩, hbuild, hhash, hbefore⟩ := h
        obtain ⟨hfirst, hsecond⟩ := (differsBefore_pair_iff hoffer).1 hbefore
        exact ⟨i, timeout, hoffer, ⟨rfl, j, hreply, hbuild, hhash, hsecond⟩, hfirst⟩
    failed fault := by
      simp only [hscans.eq_failed, PairFails, PairMisses, exists_offer_iff, (hinner _).failed,
        (hinner _).exhausted]
      constructor
      · intro h
        obtain ⟨i, t, hoffer, ⟨j, r, hreply, hbuild, hsecond⟩, hfirst⟩ := h
        exact ⟨(i, j), (t, r), ⟨hoffer, hreply⟩, hbuild,
          (differsBefore_pair_iff hoffer).2 ⟨hfirst, hsecond⟩⟩
      · intro h
        obtain ⟨⟨i, j⟩, ⟨t, r⟩, ⟨hoffer, hreply⟩, hbuild, hbefore⟩ := h
        obtain ⟨hfirst, hsecond⟩ := (differsBefore_pair_iff hoffer).1 hbefore
        exact ⟨i, t, hoffer, ⟨j, r, hreply, hbuild, hsecond⟩, hfirst⟩
    exhausted := by
      have hmissed : searchPairFrom first second bound expected build bound.toNat 0 = .ok none ↔
          ∀ i t, Offers first bound i t →
            searchFrom second expected (build t) bound.toNat 0 = .ok none :=
        hscans.eq_missed_iff
      simp only [hmissed, (hinner _).exhausted]
      constructor
      · intro h place choice hchoice
        exact h _ _ hchoice.1 _ _ hchoice.2
      · intro h i t ht j r hr
        exact h (i, j) (t, r) ⟨ht, hr⟩ }

end

/-! ## The searches -/

/-- Both searches find the first match and nothing else: for one timeout the offsets are tried in
order, which offer timeouts up to some offset and none behind it, and for two the pairs of offsets
in lexicographic order. So a script that tells its locks, and whose hash no other script on offer
has, is found at the timeouts that it was built for. -/
theorem searches_find_first (label : String) (nominal first second bound : UInt32)
    (expected : Hash160) (build : UInt32 → Outcome Script)
    (buildPair : UInt32 → UInt32 → Outcome Script) :
    FindsFirst (· < ·) (Offers nominal bound) build expected
      (.unrecovered (.single label bound nominal)) (search label nominal bound expected build) ∧
    (∀ {offset timeout}, Offers nominal bound offset timeout →
      ∀ before < offset, ∃ earlier, Offers nominal bound before earlier) ∧
    FindsFirst Earlier (OffersPair first second bound)
      (fun timeouts => buildPair timeouts.1 timeouts.2) expected
      (.unrecovered (.pair label bound first second))
      (searchPair label first second bound expected buildPair) ∧
    (∀ {offset timeout script}, Offers nominal bound offset timeout →
      build timeout = .ok script → script.hash = expected →
      Identifies (· < ·) (Offers nominal bound) sequence build offset timeout script →
      search label nominal bound expected build = .ok (script, timeout)) ∧
    ∀ {offsets timeouts script}, OffersPair first second bound offsets timeouts →
      buildPair timeouts.1 timeouts.2 = .ok script → script.hash = expected →
      Identifies Earlier (OffersPair first second bound)
        (fun timeouts => (sequence timeouts.1, sequence timeouts.2))
        (fun timeouts => buildPair timeouts.1 timeouts.2) offsets timeouts script →
      searchPair label first second bound expected buildPair = .ok (script, timeouts) := by
  have hsingle : FindsFirst (· < ·) (Offers nominal bound) build expected
      (.unrecovered (.single label bound nominal)) (search label nominal bound expected build) :=
    (explores_searchFrom nominal bound expected build).findsFirst (fun _ => rfl) rfl
  have hpair : FindsFirst Earlier (OffersPair first second bound)
      (fun timeouts => buildPair timeouts.1 timeouts.2) expected
      (.unrecovered (.pair label bound first second))
      (searchPair label first second bound expected buildPair) :=
    (explores_searchPairFrom first second bound expected buildPair).findsFirst (fun _ => rfl) rfl
  refine ⟨hsingle, fun hoffer before hlt => hoffer.earlier (Nat.le_of_lt hlt), hpair, ?_, ?_⟩
  · intro offset timeout script hoffer hbuild hhash hidentifies
    subst hhash
    exact hsingle.recovers Nat.lt_irrefl Offers.offset_eq hidentifies hoffer hbuild
  · intro offsets timeouts script hoffer hbuild hhash hidentifies
    subst hhash
    refine hpair.recovers not_earlier_self ?_ hidentifies hoffer hbuild
    intro place place' choice choice' h h' hlocks
    obtain ⟨hfirst, hsecond⟩ := Prod.mk.inj hlocks
    exact Prod.ext (h.1.offset_eq h'.1 hfirst) (h.2.offset_eq h'.2 hsecond)

/-! ### Near the last lock -/

/-- A script that is nothing but the lock of its timeout. -/
def bareLock (timeout : UInt32) : Outcome Script :=
  return ⟨littleEndian 4 (← sequence timeout).toNat⟩

/-- A script that is nothing but its two locks. -/
def bareLocks (resolution reply : UInt32) : Outcome Script :=
  return ⟨littleEndian 4 (← sequence resolution).toNat ++ littleEndian 4 (← sequence reply).toNat⟩

theorem offers_first {offset : Nat} (h : Offers 1000 2 offset timeout) (hlt : offset < 1) :
    timeout = 1000 := by
  obtain ⟨-, hvalue, -⟩ := h
  rw [← UInt32.toNat_inj, hvalue, Nat.lt_one_iff.1 hlt]
  rfl

/-- No sequence number holds a later timeout. -/
theorem offers_last {offset : Nat} (h : Offers 33553920 2 offset timeout) :
    offset = 0 ∧ timeout = 33553920 := by
  obtain ⟨-, hvalue, lock, hlock⟩ := h
  have hlt := lt_of_sequence hlock
  rw [← UInt32.toNat_inj]
  change _ = 33553920 + 512 * offset at hvalue
  change offset = 0 ∧ timeout.toNat = 33553920
  omega

/-- The only pair on offer before the second first timeout. -/
theorem offersPair_first {offsets : Nat × Nat} {timeouts : UInt32 × UInt32}
    (h : OffersPair 1000 33553920 2 offsets timeouts) (hearlier : Earlier offsets (1, 0)) :
    timeouts = (1000, 33553920) := by
  have hreply := (offers_last h.2).2
  cases hearlier with
  | left _ _ hlt => exact Prod.ext (offers_first h.1 hlt) hreply
  | right _ hlt => exact absurd hlt (Nat.not_lt_zero _)

def earlyScript : Script := ⟨[2, 0, 0x40, 0]⟩

def lastScript : Script := ⟨[2, 0, 0x40, 0, 0xff, 0xff, 0x40, 0]⟩

theorem bare_hashes : Script.hash ⟨[1, 0, 0x40, 0]⟩ ≠ earlyScript.hash ∧
    Script.hash ⟨[1, 0, 0x40, 0, 0xff, 0xff, 0x40, 0]⟩ ≠ lastScript.hash := by
  simp only [Script.hash, hash160_eq]
  decide +kernel

theorem identifies_early :
    Identifies (· < ·) (Offers 1000 2) sequence bareLock 1 1512 earlyScript where
  builds hlt h := by
    obtain rfl := offers_first h hlt
    exact ⟨_, rfl⟩
  injective hlt h hbuild := by
    obtain rfl := offers_first h hlt
    exact absurd hbuild (by decide)
  noCollision hlt h hbuild hhash := by
    obtain rfl := offers_first h hlt
    obtain rfl := Except.ok.inj hbuild
    exact absurd hhash bare_hashes.1

theorem identifies_last : Identifies Earlier (OffersPair 1000 33553920 2)
    (fun timeouts => (sequence timeouts.1, sequence timeouts.2))
    (fun timeouts => bareLocks timeouts.1 timeouts.2) (1, 0) (1512, 33553920) lastScript where
  builds hearlier h := by
    obtain rfl := offersPair_first h hearlier
    exact ⟨_, rfl⟩
  injective hearlier h hbuild := by
    obtain rfl := offersPair_first h hearlier
    exact absurd hbuild (by decide)
  noCollision hearlier h hbuild hhash := by
    obtain rfl := offersPair_first h hearlier
    obtain rfl := Except.ok.inj hbuild
    exact absurd hhash bare_hashes.2

/-- The second timeout has no later candidate, so the search for two goes on with the next first
one. -/
theorem finds_bare_locks : (∃ earlier, Offers 1000 2 0 earlier) ∧
    search "lock" 1000 2 earlyScript.hash bareLock = .ok (earlyScript, 1512) ∧
    searchPair "locks" 1000 33553920 2 lastScript.hash bareLocks =
      .ok (lastScript, 1512, 33553920) := by
  have hearly : Offers 1000 2 1 1512 := ⟨by decide, rfl, _, rfl⟩
  have hlast : OffersPair 1000 33553920 2 (1, 0) (1512, 33553920) :=
    ⟨hearly, by decide, rfl, _, rfl⟩
  obtain ⟨-, hsegment, -, hsingle, -⟩ :=
    searches_find_first "lock" 1000 1000 33553920 2 earlyScript.hash bareLock bareLocks
  obtain ⟨-, -, -, -, hpair⟩ :=
    searches_find_first "locks" 1000 1000 33553920 2 lastScript.hash bareLock bareLocks
  exact ⟨hsegment hearly 0 Nat.one_pos, hsingle hearly rfl rfl identifies_early,
    hpair hlast rfl rfl identifies_last⟩

end Wager.RelativeLock
