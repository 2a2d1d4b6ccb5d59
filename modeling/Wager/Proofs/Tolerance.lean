import Mathlib.Algebra.Order.Ring.Nat
import Wager.Proofs.RemoteSigning
import Wager.Proofs.Signing
import Wager.Proofs.Splits

/-!
# The fee and the size

The fee of a draft is measured on one set of signatures and paid by a transaction with another. The
two transactions differ in nothing but their values and their signatures, so their sizes are as far
apart as those of the signatures, and of the lengths that stand in front of the unlocking scripts.

**Signatures** take at most 73 bytes, whoever makes them: a held key writes two integers of at most
33 bytes each, and a signature of a peer is verified, which it is only in strict DER
(`Signer.length_le_of_gives`). So each is pushed behind a single byte, and the unlocking script of
an input changes by as many bytes as its signatures do (`Unlock.size_add_total`).

**Lengths.** That is too few bytes to pass two widths of a length at once, so the length of a script
takes at most two bytes more or less (`Script.length_encode_near`).

Main result: `Draft.fee_matches_size`.
-/

namespace Wager

open Exchange

variable {σ : Type} {w w' : σ}

/-! ## How long a signature is -/

namespace Signature

/-- The first byte of a minimal integer is zero only where the second has its high bit. -/
theorem le_ofBigEndian_of_isMinimal {a b : UInt8} {rest : Bytes}
    (h : isMinimal (a :: b :: rest) = true) :
    128 * 256 ^ rest.length ≤ ofBigEndian (a :: b :: rest) := by
  simp only [isMinimal, Bool.and_eq_true, Bool.or_eq_true, decide_eq_true_eq] at h
  rw [ofBigEndian_cons, ofBigEndian_cons, List.length_cons, Nat.pow_succ]
  obtain ⟨-, hfirst | hsecond⟩ := h
  · have ha : 1 ≤ a.toNat := by
      rw [Nat.one_le_iff_ne_zero]
      exact fun hzero => hfirst (UInt8.toNat_inj.1 hzero)
    have hlarge : 1 * (256 ^ rest.length * 256) ≤ a.toNat * (256 ^ rest.length * 256) :=
      Nat.mul_le_mul_right _ ha
    omega
  · have hb : 128 ≤ b.toNat := UInt8.le_iff_toNat_le.1 hsecond
    have hlarge : 128 * 256 ^ rest.length ≤ b.toNat * 256 ^ rest.length :=
      Nat.mul_le_mul_right _ hb
    omega

theorem length_le_of_isMinimal {data : Bytes} (h : isMinimal data = true)
    (hlt : ofBigEndian data < Curve.order) : data.length ≤ 33 := by
  match data, h with
  | [a], _ => exact Nat.le_add_left 1 32
  | a :: b :: rest, h =>
    have hlarge := le_ofBigEndian_of_isMinimal h
    have hpower : 256 ^ rest.length < 256 ^ 32 := by
      have horder : Curve.order < 128 * 256 ^ 32 := by decide
      omega
    have hrest := (Nat.pow_lt_pow_iff_right (by decide : 1 < 256)).1 hpower
    rw [List.length_cons, List.length_cons]
    omega

theorem length_le_of_readInteger? {data rest : Bytes} {n : Nat}
    (h : readInteger? data = some (n, rest)) : data.length ≤ rest.length + 35 := by
  unfold readInteger? at h
  split at h
  · next size more =>
    obtain ⟨⟨-, -, hminimal, hlt⟩, heq⟩ := Option.ite_none_right_eq_some.1 h
    obtain ⟨-, rfl⟩ := Prod.mk.inj (Option.some.inj heq)
    have hbody := length_le_of_isMinimal hminimal hlt
    rw [List.length_take] at hbody
    rw [List.length_cons, List.length_cons, List.length_drop]
    omega
  · cases h

theorem length_le_of_ofDer? {data : Bytes} {sig : Signature} (h : ofDer? data = some sig) :
    data.length ≤ 72 := by
  unfold ofDer? at h
  split at h
  · next size rest =>
    obtain ⟨-, h⟩ := Option.ite_none_right_eq_some.1 h
    simp only [Option.bind_eq_bind, Option.bind_eq_some_iff, Option.ite_none_right_eq_some] at h
    obtain ⟨⟨r, back⟩, hr, ⟨s, final⟩, hs, rfl, -⟩ := h
    have hfirst : rest.length ≤ back.length + 35 := length_le_of_readInteger? hr
    have hsecond : back.length ≤ 0 + 35 := length_le_of_readInteger? hs
    rw [List.length_cons, List.length_cons]
    omega
  · cases h

end Signature

theorem PublicKey.length_le_of_verifyInput {key : PublicKey} {d : Draft} {index : Nat}
    {code : Script} {signature : Bytes} (h : key.verifyInput d index code signature = .ok true) :
    signature.length ≤ 73 := by
  unfold verifyInput at h
  split at h
  · obtain ⟨digest, -, hverify⟩ := Outcome.map_eq_ok.1 h
    unfold verify at hverify
    split at hverify
    · next sig hread =>
      have hlen := Signature.length_le_of_ofDer? hread
      rw [List.length_dropLast] at hlen
      omega
    · cases hverify
  · cases h

/-- A signature takes at most 73 bytes with its hash type, from a held key as from a peer. -/
theorem Signer.length_le_of_gives {signer : Signer σ} {d : Draft} {index : Nat} {code : Script}
    {signature : Bytes} (h : (signer.sign d index code).Gives w signature w') :
    signature.length ≤ 73 := by
  cases signer with
  | held key =>
    obtain ⟨digest, -, hsignature⟩ := Outcome.bind_eq_ok.1 (gives_lift.1 h).1
    rw [← Outcome.pure_eq_ok.1 hsignature, List.length_append]
    exact Nat.succ_le_succ (Signature.length_toDer_le _)
  | remote peer link =>
    obtain ⟨_, _, -, h⟩ := gives_bind.1 h
    obtain ⟨reply, _, -, h⟩ := gives_bind.1 h
    obtain ⟨-, h⟩ := gives_unless.1 h
    obtain ⟨valid, hvalid, h⟩ := gives_lift_bind.1 h
    cases valid with
    | false => exact absurd (gives_bind.1 h) fun ⟨_, _, hthrow, _⟩ => not_gives_throw hthrow
    | true =>
      obtain ⟨rfl, -⟩ := gives_pure.1 h
      exact PublicKey.length_le_of_verifyInput hvalid

theorem Signer.length_le_of_gives_mapM {signers : List (Signer σ)} {d : Draft} {index : Nat}
    {code : Script} {signatures : List Bytes}
    (h : (signers.mapM (sign d index code)).Gives w signatures w') :
    ∀ signature ∈ signatures, signature.length ≤ 73 := by
  intro signature hmem
  obtain ⟨_, _, _, _, hsign⟩ := exists_mem_of_forall₂ (forall₂_of_gives_mapM h).flip hmem
  exact length_le_of_gives hsign

/-! ## How long an unlocking script is -/

/-- The bytes of the signatures together. -/
def Unlock.total (signatures : List Bytes) : Nat := (signatures.map List.length).sum

namespace Unlock

variable {u : Unlock σ} {first second : List Bytes} {s t : Script}

theorem sum_size_pushes {signatures : List Bytes}
    (h : ∀ signature ∈ signatures, signature.length ≤ 73) :
    ((signatures.map Script.Piece.push).map Script.Piece.size).sum =
      total signatures + signatures.length := by
  induction signatures with
  | nil => rfl
  | cons signature signatures ih =>
    obtain ⟨hshort, hrest⟩ := List.forall_mem_cons.1 h
    have hdirect : signature.length ≤ 75 := Nat.le_trans hshort (by decide)
    have htotal := ih hrest
    simp only [total, List.map_cons, List.sum_cons, List.length_cons, Script.Piece.size,
      if_pos hdirect] at htotal ⊢
    omega

theorem total_le {signatures : List Bytes} (h : ∀ signature ∈ signatures, signature.length ≤ 73) :
    total signatures ≤ signatures.length * 73 := by
  have hsum := List.sum_le_card_nsmul (signatures.map List.length) 73 (by simpa using h)
  rwa [List.length_map, smul_eq_mul] at hsum

/-- Two unlocking scripts for an output differ in size as their signatures do. -/
theorem size_add_total (hs : u.script first = .ok s) (ht : u.script second = .ok t)
    (hfirst : ∀ signature ∈ first, signature.length ≤ 73)
    (hsecond : ∀ signature ∈ second, signature.length ≤ 73)
    (hcount : first.length = second.length) : s.size + total second = t.size + total first := by
  obtain ⟨signers, layout⟩ := u
  cases layout with
  | key =>
    obtain ⟨signer, hsigner, hs⟩ := Outcome.bind_eq_ok.1 hs
    obtain ⟨signer', hsigner', ht⟩ := Outcome.bind_eq_ok.1 ht
    obtain rfl := Except.ok.inj (hsigner.symm.trans hsigner')
    rw [Script.size_of_assemble hs, Script.size_of_assemble ht]
    simp only [List.map_append, List.sum_append, sum_size_pushes hfirst, sum_size_pushes hsecond]
    omega
  | script redeem multisig args =>
    rw [Script.size_of_assemble hs, Script.size_of_assemble ht]
    simp only [List.map_append, List.sum_append, sum_size_pushes hfirst, sum_size_pushes hsecond]
    omega

end Unlock

namespace Script

theorem length_encode (s : Script) :
    s.encode.length = Encode.compactSize (UInt64.ofNat s.size) + s.size := by
  rw [encode, Encode.sized, List.length_append, Encode.count, Encode.length_compact, size]

theorem compactSize_ofNat {n : Nat} (h : n < UInt32.size) :
    Encode.compactSize (UInt64.ofNat n) = if n < 253 then 1 else if n < 65536 then 3 else 5 := by
  have hword : (UInt64.ofNat n).toNat = n :=
    UInt64.toNat_ofNat_of_lt' (Nat.lt_trans h (by decide))
  rw [UInt32.size] at h
  simp only [Encode.compactSize, UInt64.lt_iff_toNat_lt, UInt64.le_iff_toNat_le, hword,
    UInt64.toNat_ofNat]
  split_ifs <;> omega

/-- Scripts of nearly the same size take nearly the same number of bytes behind their lengths. -/
theorem length_encode_near {s t : Script} (hs : s.size < UInt32.size) (ht : t.size < UInt32.size)
    (hnear : ((s.size : Int) - t.size).natAbs ≤ 65000) :
    ((s.encode.length : Int) - t.encode.length).natAbs ≤
      ((s.size : Int) - t.size).natAbs + 2 := by
  rw [length_encode, length_encode, compactSize_ofNat hs, compactSize_ofNat ht]
  split_ifs <;> omega

end Script

/-! ## One pass over the inputs -/

/-- The unlocking scripts of some unlocks, made of these signatures. -/
inductive Scripted : List (Unlock σ) → List (List Bytes) → List Script → Prop
  | nil : Scripted [] [] []
  | cons {u : Unlock σ} {unlocks : List (Unlock σ)} {signatures : List Bytes}
      {made : List (List Bytes)} {script : Script} {scripts : List Script} :
      signatures.length = u.signers.length →
      (∀ signature ∈ signatures, signature.length ≤ 73) →
      u.script signatures = .ok script →
      Scripted unlocks made scripts →
      Scripted (u :: unlocks) (signatures :: made) (script :: scripts)

namespace Draft

/-- The signatures of the inputs from `index` on. -/
def signatures (d : Draft) (index : Nat) : List (Unlock σ) → Exchange σ (List (List Bytes))
  | [] => pure []
  | u :: rest => do
    let code ← u.scriptCode
    let made ← u.signers.mapM (·.sign d index code)
    return made :: (← d.signatures (index + 1) rest)

/-- A pass over the inputs, with the signatures that are made in it and the transaction that has
them. -/
structure Pass (d : Draft) (unlocks : List (Unlock σ)) (w : σ) (made : List (List Bytes))
    (tx : Transaction) (w' : σ) : Prop where
  signs : (d.signatures 0 unlocks).Gives w made w'
  signed : ∃ signed, (d.signAll unlocks).Gives w signed w' ∧ signed.finish = .ok tx
  scripted : Scripted unlocks made (tx.inputs.map (·.unlocking))

variable {d : Draft} {unlocks : List (Unlock σ)}

theorem scripted_of_unlockingScripts {index : Nat} {scripts : List Script}
    (h : (d.unlockingScripts index unlocks).Gives w scripts w') : ∃ made,
      (d.signatures index unlocks).Gives w made w' ∧ Scripted unlocks made scripts := by
  induction unlocks generalizing index w scripts with
  | nil =>
    obtain ⟨rfl, rfl⟩ := gives_pure.1 h
    exact ⟨[], gives_pure.2 ⟨rfl, rfl⟩, .nil⟩
  | cons u unlocks ih =>
    obtain ⟨code, hcode, h⟩ := gives_lift_bind.1 h
    obtain ⟨signatures, w₁, hsigned, h⟩ := gives_bind.1 h
    obtain ⟨script, hscript, h⟩ := gives_lift_bind.1 h
    obtain ⟨rest, w₂, hrest, h⟩ := gives_bind.1 h
    obtain ⟨rfl, rfl⟩ := gives_pure.1 h
    obtain ⟨made, hmade, hscripted⟩ := ih hrest
    refine ⟨signatures :: made, ?_, .cons (forall₂_of_gives_mapM hsigned).length_eq.symm
      (Signer.length_le_of_gives_mapM hsigned) hscript hscripted⟩
    refine gives_lift_bind.2 ⟨code, hcode, gives_bind.2 ⟨signatures, w₁, hsigned, ?_⟩⟩
    exact gives_bind.2 ⟨made, w₂, hmade, gives_pure.2 ⟨rfl, rfl⟩⟩

/-- Signing a draft is a pass over its inputs. -/
theorem exists_pass {signed : Draft} (h : (d.signAll unlocks).Gives w signed w') :
    ∃ made tx, signed.finish = .ok tx ∧ d.Pass unlocks w made tx w' ∧
      tx.inputs.length = d.inputs.length ∧ tx.outputs = d.outputs := by
  obtain ⟨tx, htx⟩ := exists_finish_of_signAll h
  have hsigned := h
  rw [signAll_eq] at h
  obtain ⟨hlen, h⟩ := gives_unless.1 h
  obtain ⟨scripts, _, hscripts, h⟩ := gives_bind.1 h
  obtain ⟨rfl, rfl⟩ := gives_pure.1 h
  obtain ⟨made, hmade, hscripted⟩ := scripted_of_unlockingScripts hscripts
  have hcount : d.inputs.length = scripts.length :=
    (not_not.1 hlen).symm.trans (signed_of_unlockingScripts hscripts).1.symm
  obtain rfl := Except.ok.inj ((finish_unlocked d scripts).symm.trans htx)
  refine ⟨made, _, htx, ⟨hmade, ⟨_, hsigned, htx⟩, ?_⟩, ?_, rfl⟩
  · have hunlocking : (d.inputs.zipWith (fun input script =>
        Input.mk input.prevout script input.sequence) scripts).map (·.unlocking) = scripts := by
      rw [List.map_zipWith]
      exact List.ext_getElem (by simp [hcount]) (by simp)
    rwa [hunlocking]
  · simp [hcount]

/-- A draft with all its scripts has the size of its transaction. -/
theorem size_of_finish {tx : Transaction} (h : d.finish = .ok tx) : d.size = tx.size := by
  have hinputs : (d.withScripts fun _ input => input.unlocking.getD .empty).inputs = tx.inputs := by
    rw [finish_eq_ok.1 h]
    exact List.ext_getElem (by simp [withScripts]) (by simp [withScripts])
  have houtputs : d.outputs = tx.outputs := congrArg Draft.outputs (finish_eq_ok.1 h)
  rw [size, encode, Transaction.size, Transaction.length_encode, Transaction.length_encode, hinputs]
  exact congrArg (fun outputs : List Output => _ + _ + (Encode.count outputs.length).length +
    (outputs.flatMap Output.encode).length + 8) houtputs

end Draft

/-! ## How far two sizes are apart -/

/-- How far the sizes of two signed transactions can be apart: for each input, by the bytes of its
signatures and two more for the length of its script. -/
def slack (first second : List (List Bytes)) : Nat :=
  (List.zipWith (fun made made' =>
    ((Unlock.total made : Int) - Unlock.total made').natAbs + 2) first second).sum

/-- The bytes of the scripts behind their lengths. -/
def Script.written (scripts : List Script) : Nat := (scripts.map (·.encode.length)).sum

namespace Scripted

variable {unlocks : List (Unlock σ)} {first second : List (List Bytes)}
  {scripts scripts' : List Script}

theorem written_near (h : Scripted unlocks first scripts) (h' : Scripted unlocks second scripts')
    (hsigners : ∀ u ∈ unlocks, u.signers.length ≤ 2)
    (hsmall : ∀ script ∈ scripts, script.size < UInt32.size)
    (hsmall' : ∀ script ∈ scripts', script.size < UInt32.size) :
    ((Script.written scripts : Int) - Script.written scripts').natAbs ≤ slack first second := by
  induction h generalizing second scripts' with
  | nil =>
    cases h'
    exact Nat.le_refl 0
  | @cons u unlocks signatures made script scripts hcount hshort hscript _ ih =>
    cases h' with
    | @cons _ _ signatures' made' script' scripts' hcount' hshort' hscript' htail' =>
      obtain ⟨htwo, hsigners⟩ := List.forall_mem_cons.1 hsigners
      obtain ⟨hfits, hsmall⟩ := List.forall_mem_cons.1 hsmall
      obtain ⟨hfits', hsmall'⟩ := List.forall_mem_cons.1 hsmall'
      have hsize :=
        Unlock.size_add_total hscript hscript' hshort hshort' (hcount.trans hcount'.symm)
      have hfew := Unlock.total_le hshort
      have hfew' := Unlock.total_le hshort'
      have hnear := Script.length_encode_near hfits hfits' (by omega)
      have hrest := ih htail' hsigners hsmall hsmall'
      simp only [Script.written, slack, List.map_cons, List.zipWith_cons_cons, List.sum_cons]
        at hrest ⊢
      omega

/-- Signatures of the same lengths make scripts of the same lengths. -/
theorem written_eq (h : Scripted unlocks first scripts) (h' : Scripted unlocks second scripts')
    (hsame : first.map (List.map List.length) = second.map (List.map List.length)) :
    Script.written scripts = Script.written scripts' := by
  induction h generalizing second scripts' with
  | nil =>
    cases h'
    rfl
  | cons hcount hshort hscript _ ih =>
    cases h' with
    | cons hcount' hshort' hscript' htail' =>
      obtain ⟨hlengths, hsame⟩ := List.cons.inj hsame
      have hsize :=
        Unlock.size_add_total hscript hscript' hshort hshort' (hcount.trans hcount'.symm)
      rw [Unlock.total, Unlock.total, hlengths] at hsize
      simp only [Script.written, List.map_cons, List.sum_cons, Script.length_encode,
        Nat.add_right_cancel hsize] at ih ⊢
      rw [ih htail' hsame]

end Scripted

namespace Transaction

/-- The bytes of a transaction with this many inputs and these locking scripts, without its
unlocking scripts. -/
def frame (inputs : Nat) (lockings : List Script) : Nat :=
  (Encode.count inputs).length + 40 * inputs + (Encode.count lockings.length).length +
    (8 * lockings.length + Script.written lockings) + 8

theorem length_inputs (inputs : List Input) : (inputs.flatMap Input.encode).length =
    40 * inputs.length + Script.written (inputs.map (·.unlocking)) := by
  induction inputs with
  | nil => rfl
  | cons input inputs ih =>
    simp only [Script.written, List.map_cons, List.sum_cons, List.flatMap_cons, List.length_append,
      List.length_cons, Input.encode, OutPoint.encode, Encode.u32, length_littleEndian,
      Vector.length_toList] at ih ⊢
    omega

theorem length_outputs (outputs : List Output) : (outputs.flatMap Output.encode).length =
    8 * outputs.length + Script.written (outputs.map (·.locking)) := by
  induction outputs with
  | nil => rfl
  | cons output outputs ih =>
    simp only [Script.written, List.map_cons, List.sum_cons, List.flatMap_cons, List.length_append,
      List.length_cons, Output.encode, Encode.u64, length_littleEndian] at ih ⊢
    omega

theorem size_eq (tx : Transaction) : tx.size =
    frame tx.inputs.length (tx.outputs.map (·.locking)) +
      Script.written (tx.inputs.map (·.unlocking)) := by
  rw [size, length_encode, length_inputs, length_outputs, frame, List.length_map]
  omega

end Transaction

namespace Draft

variable {d : Draft} {unlocks : List (Unlock σ)} {rate inputs fee : UInt64}
  {takeFee : List Output → UInt64 → Outcome (List Output)} {tx : Transaction}

theorem toNat_feeOf {size : Nat} (h : feeOf size rate = .ok fee) (hsize : size < UInt64.size) :
    fee.toNat = rate.toNat * size := by
  have hproduct := Sats.mul?_eq_some_iff.1 (Outcome.need_eq_ok.1 h)
  rwa [UInt64.toNat_ofNat_of_lt' hsize, Nat.mul_comm] at hproduct

/-- **The fee matches the size.** What `takeFee` leaves and the fee are the value of the inputs. The
fee is that of the transaction that is signed first, whose size is counted in a word, and the one
that is paid for has another size only as far as the signatures of its inputs have. A signer makes
signatures of at most 73 bytes (`Scripted`), and a `takeFee` that keeps the locking scripts changes
nothing but values. -/
theorem fee_matches_size (hsigners : ∀ u ∈ unlocks, u.signers.length ≤ 2)
    (hvalues : ∀ outputs fee charged, takeFee outputs fee = .ok charged →
      charged.map (·.locking) = outputs.map (·.locking))
    (h : (d.signWithFee unlocks rate inputs takeFee).Gives w (tx, fee) w') :
    fee.toNat + (tx.outputs.map (·.value.toNat)).sum = inputs.toNat ∧
    ∃ trial charged first second between, d.Pass unlocks w first trial between ∧
      takeFee d.outputs fee = .ok charged ∧
      { d with outputs := charged }.Pass unlocks between second tx w' ∧
      (trial.size < UInt64.size →
        ((∀ input ∈ trial.inputs ++ tx.inputs, input.unlocking.size < UInt32.size) →
          ((fee.toNat : Int) - rate.toNat * tx.size).natAbs ≤ rate.toNat * slack first second) ∧
        (first.map (List.map List.length) = second.map (List.map List.length) →
          fee.toNat = rate.toNat * tx.size)) := by
  obtain ⟨-, measured, between, hmeasured, hfee, charged, hcharged, signed, hsigned, htx, paid,
    hpaid, hbalance⟩ := gives_signWithFee_iff.1 h
  obtain ⟨first, trial, htrial, hfirst, hcount, houtputs⟩ := exists_pass hmeasured
  obtain ⟨second, tx', htx', hsecond, hcount', houtputs'⟩ := exists_pass hsigned
  obtain rfl := Except.ok.inj (htx.symm.trans htx')
  have hbalance := Sats.add?_eq_some_iff.1 hbalance
  have hpaid := Output.total_eq_ok_iff.1 hpaid
  refine ⟨by omega, trial, charged, first, second, between, hfirst, hcharged, hsecond, ?_⟩
  intro haddressable
  have hfee : fee.toNat = rate.toNat * trial.size := by
    rw [size_of_finish htrial] at hfee
    exact toNat_feeOf hfee haddressable
  -- The frames of both transactions are the same, since only values and signatures change.
  have hframe : Transaction.frame trial.inputs.length (trial.outputs.map (·.locking)) =
      Transaction.frame tx.inputs.length (tx.outputs.map (·.locking)) := by
    rw [hcount, hcount', houtputs, houtputs', hvalues _ _ _ hcharged]
  have htrialSize := trial.size_eq
  have hsize := tx.size_eq
  constructor
  · intro hsmall
    rw [List.forall_mem_append] at hsmall
    have hnear := hfirst.scripted.written_near hsecond.scripted hsigners
      (List.forall_mem_map.2 hsmall.1) (List.forall_mem_map.2 hsmall.2)
    have happart : ((trial.size : Int) - tx.size).natAbs ≤ slack first second := by omega
    rw [hfee, Nat.cast_mul, ← Int.mul_sub, Int.natAbs_mul, Int.natAbs_natCast]
    exact Nat.mul_le_mul_left _ happart
  · intro hsame
    have hwritten := hfirst.scripted.written_eq hsecond.scripted hsame
    rw [hfee, htrialSize, hsize, hframe, hwritten]

/-! ## A fee of one byte too many

A peer signs the refund of a prize of 1001 at a rate of one. The signature over the whole prize is a
byte longer than the one over what the fee leaves. -/

open Settlement

def refund (value : UInt64) : Draft :=
  { idleDraft with outputs := [⟨value, Script.payToKey (.replicate 20 0)⟩] }

def refundUnlock : Unlock Mailbox :=
  .byScript (.remote idleKey.publicKey Mailbox.link) idlePrize [.flag false]

def refundUnlocking (signature : Bytes) : Script :=
  (refundUnlock.script [signature]).toOption.getD .empty

def refundTransaction (value : UInt64) (signature : Bytes) : Transaction :=
  ⟨2, [⟨⟨idlePromise.txid, 1⟩, refundUnlocking signature, 0x400007⟩],
    [⟨value, Script.payToKey (.replicate 20 0)⟩], 0⟩

/-- The signature over the whole prize. -/
def refundSignature : Bytes := Signature.toDer
  ⟨0xdddaa75dcdf6429c7eb10e4c19359a77ce43ae58caf7fca16c47d479f38f4a3e,
    0x7dca9dd197269d8732f97927260336319b9e9a0a5836e9f328c8cf59d0b30ba6⟩ ++ [sighashAll]

/-- The signature over what the fee leaves. -/
def chargedSignature : Bytes := Signature.toDer
  ⟨0x66123e039366387173fdc6eb29079462f73ef2c14e100bc678c21d489af3af26,
    0x10ed459a6af669ad026027e47fbd3a1725064f2b3764f6daff6dfe92dfb96a56⟩ ++ [sighashAll]

theorem refund_valid :
    idleKey.publicKey.verifyInput (refund 1001) 0 idlePrize refundSignature = .ok true ∧
      idleKey.publicKey.verifyInput (refund 732) 0 idlePrize chargedSignature = .ok true := by
  simp only [PublicKey.verifyInput, refund, idleDraft, idle_txid, digest, doubleSha256_eq]
  decide +kernel

/-- The peer has signed both, and is asked for both. -/
def refundMailbox : Mailbox :=
  ⟨[(.signature, refundSignature), (.signature, chargedSignature)], []⟩

def answeredMailbox : Mailbox :=
  ⟨[], [(.signRequest, SignRequest.encode ⟨refund 1001, 0, idlePrize⟩),
    (.signRequest, SignRequest.encode ⟨refund 732, 0, idlePrize⟩)]⟩

theorem refund_sizes : (refundTransaction 1001 refundSignature).size = 269 ∧
    (refundTransaction 732 chargedSignature).size = 268 := by
  rw [Transaction.size_eq, Transaction.size_eq]
  decide +kernel

theorem size_measured : ((refund 1001).unlocked [refundUnlocking refundSignature]).size = 269 :=
  (size_of_finish rfl).trans refund_sizes.1

theorem signAll_refund {value : UInt64} {signature : Bytes} {waiting sent : List (Topic × Bytes)}
    (hvalid : idleKey.publicKey.verifyInput (refund value) 0 idlePrize signature = .ok true)
    (hscript : (refundUnlock.script [signature]).toOption.isSome = true) :
    ((refund value).signAll [refundUnlock]).Gives ⟨(.signature, signature) :: waiting, sent⟩
      ((refund value).unlocked [refundUnlocking signature])
      ⟨waiting, sent ++ [(.signRequest, SignRequest.encode ⟨refund value, 0, idlePrize⟩)]⟩ :=
  gives_signAll_byScript rfl (Mailbox.gives_sign hvalid) (Outcome.eq_ok_of_isSome hscript)

theorem refund_measured : ((refund 1001).signAll [refundUnlock]).Gives refundMailbox
    ((refund 1001).unlocked [refundUnlocking refundSignature])
    ⟨[(.signature, chargedSignature)],
      [(.signRequest, SignRequest.encode ⟨refund 1001, 0, idlePrize⟩)]⟩ :=
  signAll_refund refund_valid.1 (by decide +kernel)

theorem refund_signWithFee : ((refund 1001).signWithFee [refundUnlock] 1 1001 Output.afterFee).Gives
    refundMailbox (refundTransaction 732 chargedSignature, 269) answeredMailbox := by
  refine gives_signWithFee_iff.2 ⟨rfl, _, _, refund_measured, ?_, (refund 732).outputs, rfl, _,
    signAll_refund refund_valid.2 (by decide +kernel), rfl, 732, rfl, rfl⟩
  rw [size_measured]
  rfl

/-- The transaction has 268 bytes and pays for 269. -/
theorem refund_near : ((refund 1001).signWithFee [refundUnlock] 1 1001 Output.afterFee).Gives
      refundMailbox (refundTransaction 732 chargedSignature, 269) answeredMailbox ∧
    (refundTransaction 732 chargedSignature).size = 268 ∧
    ∃ first second between, ((refund 1001).signatures 0 [refundUnlock]).Gives refundMailbox first
        between ∧
      ((refund 732).signatures 0 [refundUnlock]).Gives between second answeredMailbox ∧
      ((269 : Int) - 268).natAbs ≤ slack first second := by
  have hsigners : ∀ u ∈ [refundUnlock], u.signers.length ≤ 2 := by
    simp [refundUnlock, Unlock.byScript]
  have hvalues : ∀ outputs fee charged, Output.afterFee outputs fee = .ok charged →
      charged.map (·.locking) = outputs.map (·.locking) :=
    fun _ _ _ h => (Output.chargedEach_of_afterFee h).2.locking
  obtain ⟨-, trial, charged, first, second, between, hfirst, hcharged, hsecond, hnear⟩ :=
    fee_matches_size hsigners hvalues refund_signWithFee
  obtain rfl : (refund 732).outputs = charged := Except.ok.inj hcharged
  obtain ⟨signed, hsigned, htrial⟩ := hfirst.signed
  obtain ⟨hmeasured, -⟩ := Prod.mk.inj (refund_measured.symm.trans hsigned)
  obtain rfl := Except.ok.inj hmeasured
  obtain rfl : refundTransaction 1001 refundSignature = trial := Except.ok.inj htrial
  obtain ⟨hnear, -⟩ := hnear (by rw [refund_sizes.1]; decide)
  refine ⟨refund_signWithFee, refund_sizes.2, first, second, between, hfirst.signs, hsecond.signs,
    ?_⟩
  have hslack := hnear (by decide +kernel)
  rwa [refund_sizes.2, UInt64.toNat_one, Nat.one_mul] at hslack

end Draft

end Wager
