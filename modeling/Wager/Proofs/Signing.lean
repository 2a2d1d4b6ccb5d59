import Wager.Proofs.Drafts
import Wager.Proofs.Sums
import Wager.Proofs.Templates

/-!
# Signing with held keys

**Two passes.** What `signWithFee` does when it succeeds is said once, for all signers
(`Draft.gives_signWithFee_iff`).

**Held keys.** A signature by a held key is short and always made. So a draft whose signers are all
held keys (`Unlock.Ready`) is signed, unless an argument of an unlocking script does not fit a push
(`Unlock.script_cases`).
-/

namespace Wager

open Exchange

variable {σ : Type} {w w' : σ}

/-! ## The size of a signature -/

namespace Signature

theorem length_trimSign_le (data : Bytes) : (trimSign data).length ≤ data.length := by
  fun_induction trimSign data with
  | case1 b rest hsmall ih => exact Nat.le_succ_of_le ih
  | case2 => exact Nat.le_refl _
  | case3 => exact Nat.le_refl _

theorem length_toDer_le (sig : Signature) : sig.toDer.length ≤ 72 := by
  have hinteger (n : Nat) : (derInteger n).length ≤ 35 := by
    have hbody := length_trimSign_le (bigEndian 33 n)
    rw [length_bigEndian] at hbody
    simp only [derInteger, List.length_cons]
    omega
  have hr := hinteger sig.r
  have hs := hinteger sig.s
  simp only [toDer, List.length_cons, List.length_append]
  omega

end Signature

theorem Signer.gives_sign_held (key : PrivateKey) {d : Draft} {index : Nat} (code : Script)
    (h : index < d.inputs.length) : ∃ signature : Bytes,
      ((Signer.held key : Signer σ).sign d index code).Gives w signature w ∧
        signature.length ≤ 73 := by
  have hdigest : d.digest index code sighashAll =
      .ok (doubleSha256 (d.signedBytes index code sighashAll)) := if_pos h
  refine ⟨_, gives_lift.2 ⟨Draft.signInput_of_digest key hdigest, rfl⟩, ?_⟩
  rw [List.length_append]
  exact Nat.succ_le_succ (Signature.length_toDer_le _)

/-! ## Scripts that cannot be assembled -/

theorem Script.Piece.exists_push_of_not_fits {p : Piece} (h : ¬ p.Fits) :
    ∃ data, p = .push data ∧ maxPush < data.length := by
  cases p with
  | op code => exact absurd trivial h
  | splice script => exact absurd trivial h
  | push data => exact ⟨data, rfl, Nat.not_le.1 h⟩

theorem Script.encodePush_of_lt {data : Bytes} (h : maxPush < data.length) :
    encodePush data = malformed (.oversizedPush data.length) := by
  rw [maxPush] at h
  rw [encodePush, maxPush, if_neg (by omega), if_neg (by omega), if_neg (by omega)]

theorem Script.exists_first_of_not_fits {pieces : List Piece} (h : ∃ p ∈ pieces, ¬ p.Fits) :
    ∃ front data back, pieces = front ++ .push data :: back ∧ (∀ p ∈ front, p.Fits) ∧
      maxPush < data.length := by
  induction pieces with
  | nil =>
    obtain ⟨_, hp, -⟩ := h
    exact absurd hp List.not_mem_nil
  | cons piece pieces ih =>
    by_cases hfirst : piece.Fits
    · have hrest : ∃ p ∈ pieces, ¬ p.Fits := by simpa [hfirst] using h
      obtain ⟨front, data, back, rfl, hfront, hlong⟩ := ih hrest
      exact ⟨piece :: front, data, back, rfl, List.forall_mem_cons.2 ⟨hfirst, hfront⟩, hlong⟩
    · obtain ⟨data, rfl, hlong⟩ := Piece.exists_push_of_not_fits hfirst
      exact ⟨[], data, pieces, rfl, fun _ hp => absurd hp List.not_mem_nil, hlong⟩

/-- The first push that does not fit stops an assembly. -/
theorem Script.assemble_of_first {front back : List Piece} {data : Bytes}
    (hfront : ∀ p ∈ front, p.Fits) (hlong : maxPush < data.length) :
    assemble (front ++ .push data :: back) = malformed (.oversizedPush data.length) := by
  obtain ⟨parts, hparts, -⟩ := Outcome.bind_eq_ok.1 (assemble_of_fits hfront)
  rw [assemble, List.mapM_append, hparts, List.mapM_cons, Piece.bytes, encodePush_of_lt hlong]
  rfl

theorem Script.assemble_of_not_fits {pieces : List Piece} (h : ∃ p ∈ pieces, ¬ p.Fits) :
    ∃ data, .push data ∈ pieces ∧ maxPush < data.length ∧
      assemble pieces = malformed (.oversizedPush data.length) := by
  obtain ⟨front, data, back, rfl, hfront, hlong⟩ := exists_first_of_not_fits h
  have hmem := List.mem_append_right front (List.mem_cons_self (a := Piece.push data) (l := back))
  exact ⟨data, hmem, hlong, assemble_of_first hfront hlong⟩

namespace Unlock

/-- When the redeem script and the signatures fit a push, only an argument that does not can stop
the making of an unlocking script. -/
theorem script_cases {u : Unlock σ} {redeem : Script} {multisig : Bool} {args : List Script.Token}
    {signatures : List Bytes} (hlayout : u.layout = .script redeem multisig args)
    (hredeem : redeem.size ≤ Script.maxPush)
    (hshort : ∀ signature ∈ signatures, signature.length ≤ Script.maxPush) :
    ((∀ t ∈ args, t.piece.Fits) ∧ ∃ unlocking, u.script signatures = .ok unlocking) ∨
      ∃ data, .push data ∈ args ∧ Script.maxPush < data.length ∧
        u.script signatures = malformed (.oversizedPush data.length) := by
  let pieces : List Script.Piece := (if multisig then [.op Opcode.op0] else []) ++
    signatures.map .push ++ args.map Script.Token.piece ++ [.push redeem.bytes]
  have hscript : u.script signatures = Script.assemble pieces := by rw [script, hlayout]
  have hflag : ∀ p ∈ if multisig then [Script.Piece.op Opcode.op0] else [], p.Fits := by
    cases multisig <;> simp
  have hpieces : (∀ p ∈ pieces, p.Fits) ↔ ∀ t ∈ args, t.piece.Fits := by
    simp only [pieces, List.forall_mem_append, List.forall_mem_map, List.forall_mem_singleton]
    exact ⟨fun h => h.1.2, fun h => ⟨⟨⟨hflag, hshort⟩, h⟩, hredeem⟩⟩
  by_cases hfits : ∀ t ∈ args, t.piece.Fits
  · exact .inl ⟨hfits, _, hscript.trans (Script.assemble_of_fits (hpieces.2 hfits))⟩
  · have hnotfits : ∃ p ∈ pieces, ¬ p.Fits := by simpa using mt hpieces.1 hfits
    obtain ⟨data, hmem, hlong, hfails⟩ := Script.assemble_of_not_fits hnotfits
    refine .inr ⟨data, ?_, hlong, hscript.trans hfails⟩
    simp only [pieces, List.mem_append, List.mem_map, List.mem_singleton] at hmem
    rcases hmem with ((hmem | ⟨signature, hmem, heq⟩) | ⟨t, hmem, heq⟩) | heq
    · exact absurd (hflag _ hmem) (Nat.not_le.2 hlong)
    · obtain rfl := Script.Piece.push.inj heq
      exact absurd (hshort _ hmem) (Nat.not_le.2 hlong)
    · cases t with
      | op code => cases heq
      | push _ =>
        obtain rfl := Script.Piece.push.inj heq
        exact hmem
    · obtain rfl := Script.Piece.push.inj heq
      exact absurd hredeem (Nat.not_le.2 hlong)

end Unlock

/-! ## Unlocks that are ready -/

namespace Unlock

/-- The signers hold their keys, and what is pushed besides the signatures fits. -/
inductive Ready : Unlock σ → Prop
  | byKey (key : PrivateKey) : Ready (.byKey (.held key))
  | script {keys : List PrivateKey} {redeem : Script} {multisig : Bool} {args : List Script.Token} :
    redeem.size ≤ Script.maxPush → (∀ t ∈ args, t.piece.Fits) →
    Ready ⟨keys.map .held, .script redeem multisig args⟩

theorem Ready.byScript {key : PrivateKey} {redeem : Script} {args : List Script.Token}
    (hredeem : redeem.size ≤ Script.maxPush) (hargs : ∀ t ∈ args, t.piece.Fits) :
    (Unlock.byScript (Signer.held (σ := σ) key) redeem args).Ready :=
  @Ready.script σ [key] redeem false args hredeem hargs

theorem Ready.byMultisig {keys : Sides PrivateKey} {redeem : Script} {args : List Script.Token}
    (hredeem : redeem.size ≤ Script.maxPush) (hargs : ∀ t ∈ args, t.piece.Fits) :
    (Unlock.byMultisig (keys.map (Signer.held (σ := σ))).toList redeem args).Ready :=
  @Ready.script σ keys.toList redeem true args hredeem hargs

end Unlock

namespace Draft

variable {d : Draft} {unlocks : List (Unlock σ)}

theorem gives_mapM_sign (keys : List PrivateKey) {index : Nat} (code : Script)
    (h : index < d.inputs.length) : ∃ signatures : List Bytes,
      Gives ((keys.map (Signer.held (σ := σ))).mapM (Signer.sign d index code)) w signatures w ∧
        signatures.length = keys.length ∧
        ∀ signature ∈ signatures, signature.length ≤ 73 := by
  induction keys with
  | nil => exact ⟨[], gives_pure.2 ⟨rfl, rfl⟩, rfl, fun _ hs => absurd hs List.not_mem_nil⟩
  | cons key keys ih =>
    obtain ⟨signature, hsign, hlen⟩ := Signer.gives_sign_held (w := w) key code h
    obtain ⟨signatures, hsigned, hcount, hshort⟩ := ih
    refine ⟨signature :: signatures, ?_, by simp [hcount], ?_⟩
    · rw [List.map_cons, List.mapM_cons]
      refine gives_bind.2 ⟨signature, w, hsign, gives_bind.2 ⟨signatures, w, hsigned, ?_⟩⟩
      exact gives_pure.2 ⟨rfl, rfl⟩
    · exact List.forall_mem_cons.2 ⟨hlen, hshort⟩

/-- An unlock that is ready makes its script. -/
theorem gives_script {u : Unlock σ} {index : Nat} (hu : u.Ready) (h : index < d.inputs.length) :
    ∃ code signatures script, u.scriptCode = .ok code ∧
      Gives (u.signers.mapM (Signer.sign d index code)) w signatures w ∧
      u.script signatures = .ok script := by
  cases hu with
  | byKey key =>
    obtain ⟨signatures, hsigned, hcount, hshort⟩ := gives_mapM_sign (σ := σ) (w := w)
      [key] (.payToKey key.publicKey.hash) h
    obtain ⟨signature, rfl⟩ := List.length_eq_one_iff.1 hcount
    refine ⟨_, [signature], _, rfl, hsigned, Script.assemble_of_fits ?_⟩
    have hfits : (Script.Piece.push signature).Fits :=
      Nat.le_trans (hshort signature List.mem_cons_self) (by decide)
    simp [hfits]
  | @script keys redeem multisig args hredeem hargs =>
    obtain ⟨signatures, hsigned, -, hshort⟩ := gives_mapM_sign (σ := σ) (w := w) keys redeem h
    obtain ⟨-, unlocking, hscript⟩ | ⟨data, hmem, hlong, -⟩ :=
      Unlock.script_cases (u := ⟨keys.map Signer.held, .script redeem multisig args⟩) rfl hredeem
        fun signature hs => Nat.le_trans (hshort signature hs) (by decide)
    · exact ⟨redeem, signatures, unlocking, rfl, hsigned, hscript⟩
    · exact absurd (hargs _ hmem) (Nat.not_le.2 hlong)

theorem gives_unlockingScripts {index : Nat} (hready : ∀ u ∈ unlocks, u.Ready)
    (h : index + unlocks.length ≤ d.inputs.length) : ∃ scripts,
      (d.unlockingScripts index unlocks).Gives w scripts w := by
  induction unlocks generalizing index with
  | nil => exact ⟨[], gives_pure.2 ⟨rfl, rfl⟩⟩
  | cons u unlocks ih =>
    rw [List.length_cons] at h
    obtain ⟨hu, hrest⟩ := List.forall_mem_cons.1 hready
    obtain ⟨code, signatures, script, hcode, hsigned, hscript⟩ :=
      gives_script (w := w) (d := d) hu (by omega : index < d.inputs.length)
    obtain ⟨scripts, hscripts⟩ := ih hrest (by omega : index + 1 + unlocks.length ≤ d.inputs.length)
    exact ⟨script :: scripts, gives_unlockingScripts_cons hcode hsigned hscript hscripts⟩

/-- A draft whose unlocks are ready is signed and finished, and only its inputs change. -/
theorem exists_signed (hlen : unlocks.length = d.inputs.length) (hready : ∀ u ∈ unlocks, u.Ready) :
    ∃ signed tx, (d.signAll unlocks).Gives w signed w ∧ signed.finish = .ok tx ∧
      tx.outputs = d.outputs := by
  have hall : 0 + unlocks.length ≤ d.inputs.length := by rw [hlen, Nat.zero_add]
  obtain ⟨scripts, hscripts⟩ := gives_unlockingScripts (w := w) hready hall
  exact ⟨d.unlocked scripts, _, gives_signAll hlen hscripts, finish_unlocked d scripts, rfl⟩

/-- When the first input gets no script, no input is signed. -/
theorem signAll_of_first {u : Unlock σ} {code : Script} {signatures : List Bytes} {fault : Fault}
    (hlen : (u :: unlocks).length = d.inputs.length) (hcode : u.scriptCode = .ok code)
    (hsigned : Gives (u.signers.mapM (Signer.sign d 0 code)) w signatures w')
    (hfails : u.script signatures = .error fault) :
    (d.signAll (u :: unlocks)).resultIn w = (.error fault, w') := by
  have hscripts : (d.unlockingScripts 0 (u :: unlocks)).resultIn w = (.error fault, w') := by
    rw [unlockingScripts, resultIn_bind_of_ok hcode, resultIn_bind_of_gives hsigned, hfails]
    rfl
  rw [signAll_eq, if_neg (not_not.2 hlen), resultIn_bind, hscripts]

/-! ## Two passes -/

section

variable {rate inputs : UInt64} {takeFee : List Output → UInt64 → Outcome (List Output)}
  {fault : Fault}

/-- A draft that cannot be signed stops before its fee is known. -/
theorem signWithFee_of_unsigned (htotal : Output.total d.outputs = .ok inputs)
    (hfails : (d.signAll unlocks).resultIn w = (.error fault, w')) :
    (d.signWithFee unlocks rate inputs takeFee).resultIn w = (.error fault, w') := by
  have hirrefl : ¬ inputs < inputs := UInt64.lt_irrefl inputs
  rw [signWithFee, resultIn_bind_of_ok htotal, if_neg hirrefl, if_neg hirrefl, resultIn_bind,
    hfails]

/-- A draft that was measured stops when its fee has no value or cannot be taken. -/
theorem signWithFee_of_unpaid {measured : Draft} (htotal : Output.total d.outputs = .ok inputs)
    (hmeasured : (d.signAll unlocks).Gives w measured w')
    (hfails : feeOf measured.size rate >>= takeFee d.outputs = .error fault) :
    (d.signWithFee unlocks rate inputs takeFee).resultIn w = (.error fault, w') := by
  have hirrefl : ¬ inputs < inputs := UInt64.lt_irrefl inputs
  rw [signWithFee, resultIn_bind_of_ok htotal, if_neg hirrefl, if_neg hirrefl,
    resultIn_bind_of_gives hmeasured]
  cases hfee : feeOf measured.size rate with
  | error fault' =>
    rw [hfee] at hfails
    obtain rfl := Except.error.inj hfails
    rfl
  | ok fee =>
    rw [hfee, Outcome.ok_bind] at hfails
    rw [resultIn_bind_of_ok rfl, hfails]
    rfl

end

theorem feeOf_zero (size : Nat) : feeOf size 0 = .ok 0 :=
  Outcome.need_eq_ok.2 (Sats.mul?_eq_some_iff.2 rfl)

theorem gives_signWithFee_iff {rate inputs fee : UInt64}
    {takeFee : List Output → UInt64 → Outcome (List Output)} {tx : Transaction} :
    (d.signWithFee unlocks rate inputs takeFee).Gives w (tx, fee) w' ↔
      Output.total d.outputs = .ok inputs ∧
      ∃ measured w₁, (d.signAll unlocks).Gives w measured w₁ ∧
        feeOf measured.size rate = .ok fee ∧
      ∃ outputs, takeFee d.outputs fee = .ok outputs ∧
      ∃ signed, ({ d with outputs }.signAll unlocks).Gives w₁ signed w' ∧
        signed.finish = .ok tx ∧
      ∃ paid, Output.total tx.outputs = .ok paid ∧ Sats.add? paid fee = some inputs := by
  rw [signWithFee]
  constructor
  · intro h
    obtain ⟨distributed, htotal, h⟩ := gives_lift_bind.1 h
    obtain ⟨hmost, h⟩ := gives_unless.1 h
    obtain ⟨hleast, h⟩ := gives_unless.1 h
    obtain ⟨measured, w₁, hmeasured, h⟩ := gives_bind.1 h
    obtain ⟨fee', hfee, h⟩ := gives_lift_bind.1 h
    obtain ⟨outputs, houtputs, h⟩ := gives_lift_bind.1 h
    obtain ⟨signed, _, hsigned, h⟩ := gives_bind.1 h
    obtain ⟨tx', htx, h⟩ := gives_lift_bind.1 h
    obtain ⟨paid, hpaid, h⟩ := gives_lift_bind.1 h
    obtain ⟨hbalance, h⟩ := gives_unless.1 h
    obtain ⟨heq, rfl⟩ := gives_pure.1 h
    obtain ⟨rfl, rfl⟩ := Prod.mk.inj heq
    obtain rfl := UInt64.le_antisymm (UInt64.not_lt.1 hmost) (UInt64.not_lt.1 hleast)
    exact ⟨htotal, measured, w₁, hmeasured, hfee, outputs, houtputs, signed, hsigned, htx, paid,
      hpaid, not_not.1 hbalance⟩
  · intro h
    obtain ⟨htotal, measured, w₁, hmeasured, hfee, outputs, houtputs, signed, hsigned, htx, paid,
      hpaid, hbalance⟩ := h
    have hirrefl : ¬ inputs < inputs := UInt64.lt_irrefl inputs
    refine gives_lift_bind.2 ⟨inputs, htotal, ?_⟩
    refine gives_unless.2 ⟨hirrefl, gives_unless.2 ⟨hirrefl, ?_⟩⟩
    refine gives_bind.2 ⟨measured, w₁, hmeasured, gives_lift_bind.2 ⟨fee, hfee, ?_⟩⟩
    refine gives_lift_bind.2 ⟨outputs, houtputs, gives_bind.2 ⟨signed, w', hsigned, ?_⟩⟩
    refine gives_lift_bind.2 ⟨tx, htx, gives_lift_bind.2 ⟨paid, hpaid, ?_⟩⟩
    exact gives_unless.2 ⟨not_not.2 hbalance, gives_pure.2 ⟨rfl, rfl⟩⟩

end Draft

end Wager
