import Wager.Proofs.Success
import Wager.Spend.Fee

/-!
# Drafts and their signatures

**What is signed** depends on a draft only up to its unlocking scripts (`Draft.bare`), so a
signature of a draft is one of the transaction that is made from it.

**Signing in place** fails before it assigns the first script, or assigns all of them
(`Draft.run_signInPlace`). So a draft that cannot be signed stays as it was, and one that can be
differs in its unlocking scripts only (`Draft.signs_all_or_nothing`).

**A signed draft** has in each input the script of the unlock in its place, made of signatures by
the unlock's signers (`Unlock.Signed`). What `signWithFee` gives is the transaction of such a draft,
which differs from the one it was given in nothing but the outputs (`Transaction.Completes`).
-/

namespace Wager

open Exchange

variable {σ : Type} {w w' : σ}

/-! ## Up to the unlocking scripts -/

namespace Draft

/-- The draft without its unlocking scripts. -/
def bare (d : Draft) : Draft :=
  { d with inputs := d.inputs.map fun input => { input with unlocking := none } }

theorem length_bare (d : Draft) : d.bare.inputs.length = d.inputs.length := List.length_map ..

theorem withScripts_bare (d : Draft) (script : Nat → Script) :
    d.bare.withScripts (fun i _ => script i) = d.withScripts fun i _ => script i := by
  have hinputs : (d.bare.withScripts fun i _ => script i).inputs =
      (d.withScripts fun i _ => script i).inputs := by
    refine List.ext_getElem? fun i => ?_
    simp only [withScripts, bare, List.getElem?_mapIdx, List.getElem?_map, Option.map_map]
    rfl
  exact congrArg (Transaction.mk d.version · d.outputs d.lockTime) hinputs

theorem signedBytes_bare (d : Draft) (index : Nat) (code : Script) (hashType : UInt8) :
    d.bare.signedBytes index code hashType = d.signedBytes index code hashType := by
  rw [signedBytes, withScripts_bare, signedBytes]

theorem digest_bare (d : Draft) (index : Nat) (code : Script) (hashType : UInt8) :
    d.bare.digest index code hashType = d.digest index code hashType := by
  rw [digest, digest, length_bare, signedBytes_bare]

theorem digest_eq_of_bare {d e : Draft} (h : d.bare = e.bare) (index : Nat) (code : Script)
    (hashType : UInt8) : d.digest index code hashType = e.digest index code hashType := by
  rw [← digest_bare d, h, digest_bare]

/-- A key signs the digest of its input. -/
theorem signInput_of_digest {d : Draft} {index : Nat} {code : Script} {digest : Hash256}
    (key : PrivateKey) (h : d.digest index code sighashAll = .ok digest) :
    key.signInput d index code = .ok (key.sign digest ++ [sighashAll]) :=
  Outcome.bind_eq_ok.2 ⟨digest, h, rfl⟩

/-- The draft with these unlocking scripts, one for each input. -/
def unlocked (d : Draft) (scripts : List Script) : Draft :=
  { d with inputs := d.inputs.zipWith (fun input script =>
      { input with unlocking := some script }) scripts }

/-- Scripts for all inputs change nothing else. -/
theorem bare_unlocked {d : Draft} {scripts : List Script}
    (h : d.inputs.length = scripts.length) : (d.unlocked scripts).bare = d.bare := by
  have hinputs : (d.unlocked scripts).bare.inputs = d.bare.inputs := by
    refine List.ext_getElem ?_ fun i _ _ => ?_
    · simp [bare, unlocked, h]
    · simp [bare, unlocked]
  exact congrArg (Draft.mk d.version · d.outputs d.lockTime) hinputs

theorem freeze_eq_ok {index : Nat} {inputs : List DraftInput} {frozen : List Input} :
    freeze index inputs = .ok frozen ↔ inputs = frozen.map fun input =>
      ⟨input.prevout, input.sequence, some input.unlocking⟩ := by
  induction inputs generalizing index frozen with
  | nil => cases frozen <;> simp [freeze]
  | cons input inputs ih =>
    rw [freeze]
    split
    · next hnone =>
      constructor
      · exact fun h => absurd h Outcome.inconsistent_ne_ok
      · intro h
        cases frozen with
        | nil => cases h
        | cons => simp [(List.cons.inj h).1] at hnone
    · next script hscript =>
      rw [Outcome.bind_eq_ok]
      simp only [ih, Outcome.pure_eq_ok]
      constructor
      · intro h
        obtain ⟨rest, rfl, rfl⟩ := h
        obtain ⟨prevout, sequence, unlocking⟩ := input
        obtain rfl : unlocking = some script := hscript
        rfl
      · intro h
        cases frozen with
        | nil => cases h
        | cons first frozen =>
          obtain ⟨rfl, rfl⟩ := List.cons.inj h
          obtain rfl := Option.some.inj hscript
          exact ⟨frozen, rfl, rfl⟩

theorem finish_eq_ok {d : Draft} {tx : Transaction} :
    d.finish = .ok tx ↔ d = ⟨tx.version, tx.inputs.map fun input =>
      ⟨input.prevout, input.sequence, some input.unlocking⟩, tx.outputs, tx.lockTime⟩ := by
  obtain ⟨version, inputs, outputs, lockTime⟩ := d
  obtain ⟨version', inputs', outputs', lockTime'⟩ := tx
  simp only [finish, Outcome.bind_eq_ok, freeze_eq_ok, Outcome.pure_eq_ok, Draft.mk.injEq,
    Transaction.mk.injEq]
  constructor
  · intro h
    obtain ⟨frozen, rfl, rfl, rfl, rfl, rfl⟩ := h
    exact ⟨rfl, rfl, rfl, rfl⟩
  · intro h
    obtain ⟨rfl, rfl, rfl, rfl⟩ := h
    exact ⟨_, rfl, rfl, rfl, rfl, rfl⟩

/-- Scripts for all inputs make a transaction of the draft. -/
theorem finish_unlocked (d : Draft) (scripts : List Script) : (d.unlocked scripts).finish =
    .ok ⟨d.version, d.inputs.zipWith (fun input script =>
      ⟨input.prevout, script, input.sequence⟩) scripts, d.outputs, d.lockTime⟩ := by
  rw [finish_eq_ok, List.map_zipWith]
  rfl

theorem bare_ofTransaction {d : Draft} {tx : Transaction} (h : d.finish = .ok tx) :
    (ofTransaction tx).bare = d.bare := by
  rw [finish_eq_ok.1 h]
  simp [bare, ofTransaction]

end Draft

/-! ## Signed drafts -/

/-- The script is made of signatures of the input at `index` by the unlock's signers. -/
def Unlock.Signed (u : Unlock σ) (d : Draft) (index : Nat) (script : Script) : Prop :=
  ∃ code signatures, u.scriptCode = .ok code ∧
    List.Forall₂ (fun signer signature => ∃ w w', (signer.sign d index code).Gives w signature w')
      u.signers signatures ∧
    u.script signatures = .ok script

/-- The transaction is the draft, signed by the unlocks. -/
structure Transaction.Completes (tx : Transaction) (d : Draft) (unlocks : List (Unlock σ)) :
    Prop where
  bare : (Draft.ofTransaction tx).bare = d.bare
  length : unlocks.length = d.inputs.length
  signed : ∀ {index : Nat} {u : Unlock σ} {input : Input}, unlocks[index]? = some u →
    tx.inputs[index]? = some input → u.Signed d index input.unlocking

namespace Draft

variable {d : Draft} {unlocks : List (Unlock σ)}

theorem signed_of_unlockingScripts {index : Nat} {scripts : List Script}
    (h : (d.unlockingScripts index unlocks).Gives w scripts w') :
    scripts.length = unlocks.length ∧ ∀ {k : Nat} {u : Unlock σ} {script : Script},
      unlocks[k]? = some u → scripts[k]? = some script → u.Signed d (index + k) script := by
  induction unlocks generalizing index scripts w with
  | nil =>
    obtain ⟨rfl, rfl⟩ := gives_pure.1 h
    exact ⟨rfl, fun hu => by cases hu⟩
  | cons u unlocks ih =>
    obtain ⟨code, w₁, hcode, h⟩ := gives_bind.1 h
    obtain ⟨signatures, w₂, hsigned, h⟩ := gives_bind.1 h
    obtain ⟨script, w₃, hscript, h⟩ := gives_bind.1 h
    obtain ⟨rest, w₄, hrest, h⟩ := gives_bind.1 h
    obtain ⟨rfl, rfl⟩ := gives_pure.1 h
    obtain ⟨hlen, htail⟩ := ih hrest
    refine ⟨by rw [List.length_cons, List.length_cons, hlen], ?_⟩
    intro k u' script' hu hs
    cases k with
    | zero =>
      obtain rfl := Option.some.inj hu
      obtain rfl := Option.some.inj hs
      exact ⟨code, signatures, (gives_lift.1 hcode).1, forall₂_of_gives_mapM hsigned,
        (gives_lift.1 hscript).1⟩
    | succ k =>
      have hsigned := htail hu hs
      rwa [Nat.add_right_comm] at hsigned

/-! ## Signing in place -/

section

variable {version lockTime : UInt32} {outputs : List Output}

theorem setUnlocking_append (front : List DraftInput) (input : DraftInput)
    (rest : List DraftInput) (script : Script) :
    (⟨version, front ++ input :: rest, outputs, lockTime⟩ : Draft).setUnlocking front.length
      script = .ok ⟨version, front ++ { input with unlocking := some script } :: rest, outputs,
        lockTime⟩ := by
  have hindex : front.length < (front ++ input :: rest).length := by simp
  rw [setUnlocking, if_pos hindex, List.modify_eq_take_cons_drop hindex]
  simp

/-- What is assigned from an input on changes the inputs behind it, and nothing else. -/
theorem assignEach_append {rest : List DraftInput} {scripts : List Script}
    (h : scripts.length = rest.length) (front : List DraftInput) :
    (⟨version, front ++ rest, outputs, lockTime⟩ : Draft).assignEach front.length scripts =
      (⟨version, front ++ rest.zipWith (fun input script =>
        { input with unlocking := some script }) scripts, outputs, lockTime⟩, .ok ()) := by
  induction scripts generalizing front rest with
  | nil =>
    obtain rfl := List.length_eq_zero_iff.1 h.symm
    rfl
  | cons script scripts ih =>
    obtain ⟨input, rest, rfl⟩ := List.exists_cons_of_length_eq_add_one h.symm
    have hrest := ih (Nat.succ.inj h) (front ++ [{ input with unlocking := some script }])
    rw [assignEach, setUnlocking_append]
    simpa using hrest

end

/-- As many scripts as there are inputs can all be assigned. -/
theorem assignEach_of_length {scripts : List Script} (h : scripts.length = d.inputs.length) :
    d.assignEach 0 scripts = (d.unlocked scripts, .ok ()) :=
  assignEach_append h []

theorem run_signInPlace_of_ne (h : unlocks.length ≠ d.inputs.length) :
    (d.signInPlace unlocks).run w =
      ((d, inconsistent (.unlockCount unlocks.length d.inputs.length)), w) := by
  rw [signInPlace, if_pos h]
  rfl

/-- Once every signer has signed, the assignment cannot fail. -/
theorem run_signInPlace (h : unlocks.length = d.inputs.length) :
    (d.signInPlace unlocks).run w = match (d.unlockingScripts 0 unlocks).resultIn w with
      | (.ok scripts, w') => ((d.unlocked scripts, .ok ()), w')
      | (.error fault, w') => ((d, .error fault), w') := by
  have hrun : (d.unlockingScripts 0 unlocks).run.run w =
      (d.unlockingScripts 0 unlocks).resultIn w := rfl
  rw [signInPlace, if_neg (not_not.2 h), StateT.run_bind, hrun]
  rcases hscripts : (d.unlockingScripts 0 unlocks).resultIn w with ⟨fault | scripts, w'⟩
  · rfl
  · have hcount := (signed_of_unlockingScripts hscripts).1
    exact congrArg (·, w') (assignEach_of_length (hcount.trans h))

theorem resultIn_signAll (d : Draft) (unlocks : List (Unlock σ)) (w : σ) :
    (d.signAll unlocks).resultIn w = match (d.signInPlace unlocks).run w with
      | ((signed, .ok ()), w') => (.ok signed, w')
      | ((_, .error fault), w') => (.error fault, w') := by
  have hrun : resultIn (liftM (d.signInPlace unlocks) : Exchange σ _) w =
      (.ok ((d.signInPlace unlocks).run w).1, ((d.signInPlace unlocks).run w).2) := rfl
  rw [signAll, resultIn_bind, hrun]
  rcases (d.signInPlace unlocks).run w with ⟨⟨signed, fault | ⟨⟩⟩, w'⟩ <;> rfl

/-- The scripts are all made first, and then all assigned. -/
theorem signAll_eq (d : Draft) (unlocks : List (Unlock σ)) : d.signAll unlocks = (do
    if unlocks.length ≠ d.inputs.length then
      throw (.inconsistent (.unlockCount unlocks.length d.inputs.length))
    return d.unlocked (← d.unlockingScripts 0 unlocks)) := by
  refine eq_of_resultIn fun w => ?_
  rw [resultIn_signAll, resultIn_unless]
  by_cases h : unlocks.length = d.inputs.length
  · rw [run_signInPlace h, if_neg (not_not.2 h), resultIn_bind]
    rcases (d.unlockingScripts 0 unlocks).resultIn w with ⟨fault | scripts, w'⟩ <;> rfl
  · rw [run_signInPlace_of_ne h, if_pos h]
    rfl

/-! ## What is signed -/

theorem completes_of_signAll {signed : Draft} {tx : Transaction}
    (h : (d.signAll unlocks).Gives w signed w') (htx : signed.finish = .ok tx) :
    tx.Completes d unlocks := by
  rw [signAll_eq] at h
  obtain ⟨hlen, h⟩ := gives_unless.1 h
  obtain ⟨scripts, w₁, hscripts, h⟩ := gives_bind.1 h
  obtain ⟨rfl, rfl⟩ := gives_pure.1 h
  have hlen : unlocks.length = d.inputs.length := not_not.1 hlen
  obtain ⟨hcount, hsigned⟩ := signed_of_unlockingScripts hscripts
  refine ⟨(bare_ofTransaction htx).trans (bare_unlocked (hlen.symm.trans hcount.symm)), hlen, ?_⟩
  intro index u input hu hinput
  have hinputs : (d.unlocked scripts).inputs[index]? =
      some ⟨input.prevout, input.sequence, some input.unlocking⟩ := by
    rw [finish_eq_ok.1 htx, List.getElem?_map, hinput]
    rfl
  obtain ⟨input', script, hinput', hscript, heq⟩ := List.getElem?_zipWith_eq_some.1 hinputs
  rw [DraftInput.mk.injEq, Option.some.injEq] at heq
  obtain ⟨-, -, rfl⟩ := heq
  have hindex := hsigned hu hscript
  rwa [Nat.zero_add] at hindex

theorem exists_finish_of_signAll {signed : Draft} (h : (d.signAll unlocks).Gives w signed w') :
    ∃ tx, signed.finish = .ok tx := by
  rw [signAll_eq] at h
  obtain ⟨-, h⟩ := gives_unless.1 h
  obtain ⟨scripts, _, -, h⟩ := gives_bind.1 h
  obtain ⟨rfl, rfl⟩ := gives_pure.1 h
  exact ⟨_, finish_unlocked d scripts⟩

theorem gives_unlockingScripts_cons {u : Unlock σ} {index : Nat} {code script : Script}
    {signatures : List Bytes} {scripts : List Script} {w₁ : σ} (hcode : u.scriptCode = .ok code)
    (hsigned : Gives (u.signers.mapM (Signer.sign d index code)) w signatures w₁)
    (hscript : u.script signatures = .ok script)
    (hrest : (d.unlockingScripts (index + 1) unlocks).Gives w₁ scripts w') :
    (d.unlockingScripts index (u :: unlocks)).Gives w (script :: scripts) w' := by
  refine gives_lift_bind.2 ⟨code, hcode, gives_bind.2 ⟨signatures, w₁, hsigned, ?_⟩⟩
  refine gives_lift_bind.2 ⟨script, hscript, gives_bind.2 ⟨scripts, w', hrest, ?_⟩⟩
  exact gives_pure.2 ⟨rfl, rfl⟩

/-- A draft is signed when there is a script for each of its inputs. -/
theorem gives_signAll {scripts : List Script} (hlen : unlocks.length = d.inputs.length)
    (hscripts : (d.unlockingScripts 0 unlocks).Gives w scripts w') :
    (d.signAll unlocks).Gives w (d.unlocked scripts) w' := by
  rw [signAll_eq, gives_unless]
  exact ⟨not_not.2 hlen, gives_bind.2 ⟨scripts, w', hscripts, gives_pure.2 ⟨rfl, rfl⟩⟩⟩

/-- A draft with a single input is signed by a single signer. -/
theorem gives_signAll_byScript {signer : Signer σ} {redeem script : Script}
    {args : List Script.Token} {signature : Bytes} (hlen : d.inputs.length = 1)
    (hsign : (signer.sign d 0 redeem).Gives w signature w')
    (hscript : (Unlock.byScript signer redeem args).script [signature] = .ok script) :
    (d.signAll [.byScript signer redeem args]).Gives w (d.unlocked [script]) w' := by
  have hsigned : Gives ([signer].mapM (Signer.sign d 0 redeem)) w [signature] w' := by
    refine gives_bind.2 ⟨signature, w', hsign, gives_pure.2 ⟨rfl, rfl⟩⟩
  exact gives_signAll hlen.symm
    (gives_unlockingScripts_cons rfl hsigned hscript (gives_pure.2 ⟨rfl, rfl⟩))

theorem completes_of_signWithFee {rate inputs fee : UInt64}
    {takeFee : List Output → UInt64 → Outcome (List Output)} {tx : Transaction}
    (h : (d.signWithFee unlocks rate inputs takeFee).Gives w (tx, fee) w') :
    ∃ outputs, takeFee d.outputs fee = .ok outputs ∧
      tx.Completes { d with outputs } unlocks := by
  obtain ⟨distributed, _, -, h⟩ := gives_bind.1 h
  obtain ⟨-, h⟩ := gives_unless.1 h
  obtain ⟨-, h⟩ := gives_unless.1 h
  obtain ⟨measured, _, -, h⟩ := gives_bind.1 h
  obtain ⟨fee', _, -, h⟩ := gives_bind.1 h
  obtain ⟨outputs, _, houtputs, h⟩ := gives_bind.1 h
  obtain ⟨signed, _, hsigned, h⟩ := gives_bind.1 h
  obtain ⟨tx', _, htx, h⟩ := gives_bind.1 h
  obtain ⟨paid, _, -, h⟩ := gives_bind.1 h
  obtain ⟨-, h⟩ := gives_unless.1 h
  obtain ⟨heq, -⟩ := gives_pure.1 h
  obtain ⟨rfl, rfl⟩ := Prod.mk.inj heq
  exact ⟨outputs, (gives_lift.1 houtputs).1, completes_of_signAll hsigned (gives_lift.1 htx).1⟩

/-! ## All or nothing -/

/-- The draft is `d` but for its unlocking scripts, of which none is missing, and finishing it gives
the transaction. -/
structure Finishes (signed d : Draft) (tx : Transaction) : Prop where
  bare : signed.bare = d.bare
  unlocked : ∀ input ∈ signed.inputs, input.unlocking.isSome
  finish : signed.finish = .ok tx
  version : tx.version = d.version
  spends : tx.inputs.map (fun input => (input.prevout, input.sequence)) =
    d.inputs.map fun input => (input.prevout, input.sequence)
  outputs : tx.outputs = d.outputs
  lockTime : tx.lockTime = d.lockTime

theorem finishes_of_bare {signed : Draft} {tx : Transaction} (hbare : signed.bare = d.bare)
    (htx : signed.finish = .ok tx) : signed.Finishes d tx := by
  have hsigned := finish_eq_ok.1 htx
  rw [hsigned] at hbare
  refine ⟨hsigned ▸ hbare, fun input hinput => ?_, htx, congrArg version hbare, ?_,
    congrArg outputs hbare, congrArg lockTime hbare⟩
  · rw [hsigned] at hinput
    obtain ⟨_, -, rfl⟩ := List.mem_map.1 hinput
    rfl
  · have hspends := congrArg (fun e : Draft => e.inputs.map fun i => (i.prevout, i.sequence)) hbare
    simpa [bare, Function.comp_def] using hspends

/-- Signing in place either leaves the draft exactly as it was, whatever signer or script it fails
over, or gives every input an unlocking script by its unlock and changes nothing else, so that the
draft can be finished. -/
theorem signs_all_or_nothing (d : Draft) (unlocks : List (Unlock σ)) (w : σ) :
    match (d.signInPlace unlocks).run w with
    | ((after, .error fault), w') =>
      after = d ∧ (d.signAll unlocks).resultIn w = (.error fault, w')
    | ((after, .ok ()), w') =>
      (d.signAll unlocks).Gives w after w' ∧
        ∃ tx, after.Finishes d tx ∧ tx.Completes d unlocks := by
  have hall := resultIn_signAll d unlocks w
  by_cases hlen : unlocks.length = d.inputs.length
  · rw [run_signInPlace hlen] at hall ⊢
    rcases hscripts : (d.unlockingScripts 0 unlocks).resultIn w with ⟨fault | scripts, w'⟩
    · rw [hscripts] at hall
      exact ⟨rfl, hall⟩
    · rw [hscripts] at hall
      have hcount := (signed_of_unlockingScripts hscripts).1
      obtain ⟨tx, htx⟩ := exists_finish_of_signAll hall
      have hbare := bare_unlocked (hlen.symm.trans hcount.symm)
      exact ⟨hall, tx, finishes_of_bare hbare htx, completes_of_signAll hall htx⟩
  · rw [run_signInPlace_of_ne hlen] at hall ⊢
    exact ⟨rfl, hall⟩

end Draft

end Wager
