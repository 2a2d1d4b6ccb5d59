import Wager.Proofs.Drafts
import Wager.Proofs.PublicKeys
import Wager.Proofs.Tokens
import Wager.Spend.Acceptance

/-!
# Spends of a script

An input that was signed to redeem a script pushes its signatures, the arguments and the script
(`pushed?_of_script`), and its signatures are valid ones of the transaction. It remains for the
script to accept what is pushed below it (`Transaction.Completes.redeems`).

**Held keys.** A signature that comes over a link was verified when it came. One by a held key was
not, so the key has to be `Reliable` for what it signs.
-/

namespace Wager

open Exchange

variable {σ : Type} {w w' : σ}

/-! ## Signatures -/

/-- A held key verifies its own signature of the input. -/
def Signer.Reliable (d : Draft) (index : Nat) (code : Script) : Signer σ → Prop
  | .held key => ∀ digest, d.digest index code sighashAll = .ok digest →
      key.publicKey.verify digest (key.sign digest) = true
  | .remote _ _ => True

theorem Signer.verifyInput_of_sign {signer : Signer σ} {d : Draft} {index : Nat} {code : Script}
    {signature : Bytes} (h : (signer.sign d index code).Gives w signature w')
    (hreliable : signer.Reliable d index code) :
    signer.publicKey.verifyInput d index code signature = .ok true := by
  cases signer with
  | held key =>
    obtain ⟨digest, hdigest, hsignature⟩ := Outcome.bind_eq_ok.1 (gives_lift.1 h).1
    obtain rfl := Outcome.pure_eq_ok.1 hsignature
    rw [PublicKey.verifyInput, if_pos List.getLast?_concat, List.dropLast_concat,
      Outcome.map_eq_ok]
    exact ⟨digest, hdigest, hreliable digest hdigest⟩
  | remote peer link =>
    rw [sign] at h
    obtain ⟨_, w₁, -, h⟩ := gives_bind.1 h
    obtain ⟨received, w₂, -, h⟩ := gives_bind.1 h
    obtain ⟨-, h⟩ := gives_unless.1 h
    obtain ⟨valid, w₃, hvalid, h⟩ := gives_bind.1 h
    cases valid with
    | false =>
      obtain ⟨_, _, hthrow, -⟩ := gives_bind.1 h
      exact absurd hthrow not_gives_throw
    | true =>
      obtain ⟨rfl, -⟩ := gives_pure.1 h
      exact (gives_lift.1 hvalid).1

theorem PublicKey.verifyInput_eq_of_bare {d e : Draft} (h : d.bare = e.bare) (key : PublicKey)
    (index : Nat) (code : Script) (signature : Bytes) :
    key.verifyInput d index code signature = key.verifyInput e index code signature := by
  rw [verifyInput, verifyInput, Draft.digest_eq_of_bare h]

theorem PrivateKey.signInput_eq_of_bare {d e : Draft} (h : d.bare = e.bare) (key : PrivateKey)
    (index : Nat) (code : Script) : key.signInput d index code = key.signInput e index code := by
  rw [signInput, signInput, Draft.digest_eq_of_bare h]

theorem Signer.Reliable.of_bare {d e : Draft} (h : d.bare = e.bare) {index : Nat} {code : Script}
    {signer : Signer σ} (hreliable : signer.Reliable d index code) :
    signer.Reliable e index code := by
  cases signer with
  | held key =>
    intro digest hdigest
    rw [← Draft.digest_eq_of_bare h] at hdigest
    exact hreliable digest hdigest
  | remote peer link => trivial

/-- A script that checks a signature under the bytes of a key finds the same as the key itself. -/
theorem Transaction.signs_bytes {tx : Transaction} {index : Nat} {code : Script} {key : PublicKey}
    {signature : Bytes}
    (h : key.verifyInput (.ofTransaction tx) index code signature = .ok true) :
    tx.signs index code key.bytes signature = true := by
  have hsame : ({ key with network := .mainnet } : PublicKey).verifyInput (.ofTransaction tx) index
      code signature = .ok true := h
  simp only [signs, PublicKey.ofBytes_bytes, hsame]

/-! ## What is pushed -/

namespace Script

/-- The pieces push these items, the last one ending on top. -/
structure Piece.Pushes (pieces : List Piece) (items : List Bytes) : Prop where
  readable : ∀ p ∈ pieces, p.Readable
  items : (pieces.flatMap Piece.reading).mapM Token.item? = some items

namespace Piece

theorem pushes_nil : Pushes [] [] := ⟨fun _ h => absurd h List.not_mem_nil, rfl⟩

theorem Pushes.append {xs ys : List Piece} {items more : List Bytes} (hx : Pushes xs items)
    (hy : Pushes ys more) : Pushes (xs ++ ys) (items ++ more) where
  readable p hp := (List.mem_append.1 hp).elim (hx.readable p) (hy.readable p)
  items := by
    rw [List.flatMap_append, List.mapM_append, hx.items, hy.items]
    rfl

theorem pushes_push (data : Bytes) : Pushes [.push data] [data] where
  readable p hp := by
    obtain rfl := List.mem_singleton.1 hp
    trivial
  items := by cases data <;> rfl

theorem pushes_signatures (signatures : List Bytes) : Pushes (signatures.map .push) signatures := by
  induction signatures with
  | nil => exact pushes_nil
  | cons signature signatures ih => exact (pushes_push signature).append ih

theorem readable_of_constant (code : UInt8) (h : (constant? code).isSome = true) :
    (op code).Readable := by
  have hall : ∀ n : Fin 256, (constant? (.ofFin n)).isSome = true → (op (.ofFin n)).Readable := by
    decide +kernel
  exact hall code.toFin h

theorem pushes_token {t : Token} {item : Bytes} (h : t.item? = some item) :
    Pushes [t.piece] [item] := by
  cases t with
  | push data =>
    obtain rfl := Option.some.inj h
    exact pushes_push data
  | op code =>
    change constant? code = some item at h
    refine ⟨fun p hp => ?_, ?_⟩
    · obtain rfl := List.mem_singleton.1 hp
      exact readable_of_constant code (by rw [h]; rfl)
    · change (constant? code >>= fun x => some [x]) = _
      rw [h]
      rfl

theorem pushes_tokens {tokens : List Token} {items : List Bytes}
    (h : tokens.mapM Token.item? = some items) : Pushes (tokens.map Token.piece) items := by
  induction tokens generalizing items with
  | nil =>
    obtain rfl := Option.some.inj h
    exact pushes_nil
  | cons token tokens ih =>
    rw [List.mapM_cons] at h
    obtain ⟨item, hitem, h⟩ := Option.bind_eq_some_iff.1 h
    obtain ⟨rest, hrest, h⟩ := Option.bind_eq_some_iff.1 h
    obtain rfl := Option.some.inj h
    exact (pushes_token hitem).append (ih hrest)

end Piece

theorem pushed?_of_assemble {pieces : List Piece} {s : Script} {items : List Bytes}
    (h : assemble pieces = .ok s) (hp : Piece.Pushes pieces items) :
    s.pushed? = some items.reverse := by
  simp only [pushed?, tokens_of_assemble h hp.readable, hp.items]
  rfl

end Script

/-- The items that an unlock leaves to the script it redeems, the top one first. -/
theorem Unlock.pushed?_of_script {signers : List (Signer σ)} {redeem unlocking : Script}
    {multisig : Bool} {args : List Script.Token} {items signatures : List Bytes}
    (hitems : args.mapM Script.Token.item? = some items)
    (h : Unlock.script ⟨signers, .script redeem multisig args⟩ signatures = .ok unlocking) :
    unlocking.pushed? = some (redeem.bytes :: (items.reverse ++ (signatures.reverse ++
      if multisig then [[]] else []))) := by
  have hextra : Script.Piece.Pushes (if multisig then [.op Opcode.op0] else [])
      (if multisig then [[]] else []) := by
    cases multisig with
    | false => exact Script.Piece.pushes_nil
    | true => exact Script.Piece.pushes_token (t := .op Opcode.op0) rfl
  have hsigned := hextra.append (Script.Piece.pushes_signatures signatures)
  rw [Script.pushed?_of_assemble h ((hsigned.append (Script.Piece.pushes_tokens hitems)).append
    (Script.Piece.pushes_push redeem.bytes))]
  cases multisig <;> simp

/-! ## Redeeming -/

namespace Transaction.Completes

variable {tx : Transaction} {d : Draft} {unlocks : List (Unlock σ)} {index : Nat}

theorem version (h : tx.Completes d unlocks) : tx.version = d.version :=
  congrArg Draft.version h.bare

theorem input (h : tx.Completes d unlocks) {input : DraftInput}
    (hinput : d.inputs[index]? = some input) :
    ∃ unlocking, tx.inputs[index]? = some ⟨input.prevout, unlocking, input.sequence⟩ := by
  have hbare := congrArg (fun d : Draft => d.inputs[index]?) h.bare
  simp only [Draft.bare, Draft.ofTransaction, List.getElem?_map, hinput, Option.map_some,
    Option.map_eq_some_iff] at hbare
  obtain ⟨_, ⟨⟨prevout, unlocking, sequence⟩, hget, rfl⟩, heq⟩ := hbare
  obtain ⟨rfl, rfl, -⟩ := DraftInput.mk.inj heq
  exact ⟨unlocking, hget⟩

theorem exists_input (h : tx.Completes d unlocks) {u : Unlock σ}
    (hunlock : unlocks[index]? = some u) : ∃ input, tx.inputs[index]? = some input := by
  obtain ⟨hindex, -⟩ := List.getElem?_eq_some_iff.1 hunlock
  rw [h.length] at hindex
  obtain ⟨unlocking, hinput⟩ := h.input (List.getElem?_eq_getElem hindex)
  exact ⟨_, hinput⟩

/-- The signatures in an unlocking script are valid ones of the transaction. -/
theorem valid (h : tx.Completes d unlocks) {u : Unlock σ} {input : Input}
    (hunlock : unlocks[index]? = some u) (hinput : tx.inputs[index]? = some input)
    (hreliable : ∀ code, u.scriptCode = .ok code →
      ∀ signer ∈ u.signers, signer.Reliable (.ofTransaction tx) index code) :
    ∃ code signatures, u.scriptCode = .ok code ∧ u.script signatures = .ok input.unlocking ∧
      List.Forall₂ (fun signer signature =>
        signer.publicKey.verifyInput (.ofTransaction tx) index code signature = .ok true)
        u.signers signatures := by
  obtain ⟨code, signatures, hcode, hsigned, hscript⟩ := h.signed hunlock hinput
  refine ⟨code, signatures, hcode, hscript, ?_⟩
  refine ((List.forall₂_and_left _ _).2 ⟨hreliable code hcode, hsigned⟩).imp ?_
  intro signer signature h'
  obtain ⟨hself, w, w', hsign⟩ := h'
  rw [PublicKey.verifyInput_eq_of_bare h.bare]
  exact Signer.verifyInput_of_sign hsign (hself.of_bare h.bare)

/-- An input redeems its script if the script accepts valid signatures by the signers below the
arguments. -/
theorem redeems (h : tx.Completes d unlocks) {signers : List (Signer σ)} {redeem : Script}
    {multisig : Bool} {args : List Script.Token} {items : List Bytes} {input : DraftInput}
    (hunlock : unlocks[index]? = some ⟨signers, .script redeem multisig args⟩)
    (hinput : d.inputs[index]? = some input)
    (hitems : args.mapM Script.Token.item? = some items)
    (hreliable : ∀ signer ∈ signers, signer.Reliable (.ofTransaction tx) index redeem)
    (haccepts : ∀ signatures : List Bytes, redeem.size ≤ Script.maxPush →
      List.Forall₂ (fun signer signature =>
        tx.signs index redeem signer.publicKey.bytes signature = true) signers signatures →
      redeem.accepts ⟨d.version, input.sequence, tx.signs index redeem⟩
        (items.reverse ++ (signatures.reverse ++ if multisig then [[]] else [])) = true) :
    tx.redeems index redeem = true := by
  obtain ⟨unlocking, htx⟩ := h.input hinput
  obtain ⟨code, signatures, hcode, hscript, hverified⟩ := h.valid hunlock htx fun code hcode => by
    obtain rfl := Except.ok.inj hcode
    exact hreliable
  obtain rfl := Except.ok.inj hcode
  have hfits : redeem.bytes.length ≤ Script.maxPush :=
    Script.length_le_of_assemble hscript (by simp)
  have hvalid : List.Forall₂ (fun signer signature =>
      tx.signs index redeem signer.publicKey.bytes signature = true) signers signatures :=
    hverified.imp fun _ _ => signs_bytes
  rw [Transaction.redeems, htx]
  simp only [Unlock.pushed?_of_script hitems hscript, context, h.version,
    haccepts signatures hfits hvalid, decide_true, Bool.and_self]

end Transaction.Completes

end Wager
