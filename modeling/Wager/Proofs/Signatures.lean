import Wager.Proofs.Inscriptions
import Wager.Proofs.Paths
import Wager.Proofs.Transactions

/-!
# Signatures in place

**Where they stand.** An unlocking script starts with its signatures. Only the item that the
checking of several takes too many stands before them. So they are read off the front of the script
(`Script.leading`), whatever the arguments behind them are.

**What they sign.** No unlocking script was there when the signatures were made, and the outputs
were already those that the fee leaves. A signature covers no unlocking script, so each is valid for
the finished transaction (`Transaction.Validates`). That holds of a peer's signatures without any
assumption: whatever came over the link, it was verified.

Main result: `Draft.signatures_valid`.
-/

namespace Wager

open Exchange Decoder Cursor

variable {σ : Type} {w w' : σ}

/-! ## The front of a script -/

namespace Script

/-- The first `n` tokens, whatever follows them. -/
def leading (s : Script) (n : Nat) : Outcome (List Token) :=
  (Decoder.repeated Token.decoder n (Cursor.start s.bytes)).1

theorem gives_of_spells {tokens : List Token} {bytes : Bytes} (h : Spells tokens bytes)
    {c c' : Cursor} (hpass : c.Passes bytes c') :
    Gives (repeated Token.decoder tokens.length) c tokens c' := by
  induction h generalizing c with
  | nil => exact gives_pure.2 ⟨rfl, passes_nil.1 hpass⟩
  | @cons token tokens bytes more hhead _ ih =>
    obtain ⟨c₁, hfirst, hmore⟩ := passes_append.1 hpass
    refine gives_bind.2 ⟨token, c₁, Token.gives_decoder.2 ⟨bytes, hfirst, hhead⟩, ?_⟩
    exact gives_bind.2 ⟨tokens, c', ih hmore, gives_pure.2 ⟨rfl, rfl⟩⟩

/-- The front of an assembly spells its tokens. -/
theorem exists_spells_front {front back : List Piece} {parts : List Bytes}
    (h : List.Forall₂ (fun p bytes => Piece.bytes p = .ok bytes) (front ++ back) parts)
    (hfront : ∀ p ∈ front, p.Readable) :
    ∃ bytes rest, parts.flatten = bytes ++ rest ∧ Spells (front.flatMap Piece.reading) bytes := by
  induction front generalizing parts with
  | nil => exact ⟨[], parts.flatten, rfl, .nil⟩
  | cons p front ih =>
    cases h with
    | @cons _ part _ parts hpart hparts =>
      obtain ⟨hp, hfront⟩ := List.forall_mem_cons.1 hfront
      obtain ⟨bytes, rest, hflat, hspells⟩ := ih hparts hfront
      refine ⟨part ++ bytes, rest, ?_, ?_⟩
      · rw [List.flatten_cons, hflat, List.append_assoc]
      · rw [List.flatMap_cons]
        exact (Piece.spells_reading hp hpart).append hspells

theorem leading_of_assemble {front back : List Piece} {s : Script}
    (h : assemble (front ++ back) = .ok s) (hfront : ∀ p ∈ front, p.Readable) :
    s.leading (front.flatMap Piece.reading).length = .ok (front.flatMap Piece.reading) := by
  obtain ⟨parts, hparts, hbytes⟩ := assemble_eq_ok_iff.1 h
  obtain ⟨bytes, rest, hflat, hspells⟩ := exists_spells_front hparts hfront
  have hpass : (start s.bytes).Passes bytes ⟨bytes.length, rest⟩ :=
    ⟨hbytes.trans hflat, (Nat.zero_add _).symm⟩
  exact congrArg Prod.fst (gives_of_spells hspells hpass)

theorem Piece.flatMap_reading_pushes {items : List Bytes} (hne : ∀ item ∈ items, item ≠ []) :
    (items.map push).flatMap reading = items.map .push := by
  induction items with
  | nil => rfl
  | cons item items ih =>
    obtain ⟨hitem, hne⟩ := List.forall_mem_cons.1 hne
    rw [List.map_cons, List.flatMap_cons, ih hne, List.map_cons, reading_push]
    simp [hitem]

end Script

/-! ## The signatures of an unlock -/

namespace Unlock

variable {u : Unlock σ} {signatures : List Bytes} {unlocking : Script}

/-- What stands before the signatures. -/
def lead (u : Unlock σ) : List Script.Token :=
  match u.layout with
  | .script _ true _ => [.op Opcode.op0]
  | .script _ false _ | .key => []

/-- The unlocking script starts with these signatures, one for each signer. -/
def Holds (u : Unlock σ) (unlocking : Script) (signatures : List Bytes) : Prop :=
  unlocking.leading (u.lead.length + u.signers.length) = .ok (u.lead ++ signatures.map .push)

/-- The pieces of an unlocking script, cut behind the signatures. -/
theorem exists_back_of_script (h : u.script signatures = .ok unlocking) :
    ∃ back data, Script.assemble
      ((u.lead.map Script.Token.piece ++ signatures.map .push) ++ (back ++ [.push data])) =
        .ok unlocking := by
  obtain ⟨signers, layout⟩ := u
  cases layout with
  | key =>
    obtain ⟨signer, -, hassemble⟩ := Outcome.bind_eq_ok.1 h
    exact ⟨[], signer.publicKey.bytes, hassemble⟩
  | script redeem multisig args =>
    refine ⟨args.map Script.Token.piece, redeem.bytes, ?_⟩
    rw [← h, script]
    cases multisig <;> simp [lead, Script.Token.piece]

theorem holds_of_script (h : u.script signatures = .ok unlocking)
    (hlen : signatures.length = u.signers.length)
    (hne : ∀ signature ∈ signatures, signature ≠ []) : u.Holds unlocking signatures := by
  obtain ⟨back, data, hassemble⟩ := exists_back_of_script h
  have hlead : (u.lead.map Script.Token.piece).flatMap Script.Piece.reading = u.lead := by
    rw [lead]
    split <;> rfl
  have hreadable : ∀ p ∈ u.lead.map Script.Token.piece ++ signatures.map .push, p.Readable := by
    rw [List.forall_mem_append]
    refine ⟨?_, (Script.Piece.pushes_signatures signatures).readable⟩
    rw [lead]
    split <;> simp [Script.Token.piece, Script.Piece.Readable]
    decide
  have hleading := Script.leading_of_assemble hassemble hreadable
  rw [List.flatMap_append, hlead, Script.Piece.flatMap_reading_pushes hne, List.length_append,
    List.length_map, hlen] at hleading
  exact hleading

/-- An unlocking script ends with a push, so it is never the empty one that counts as missing. -/
theorem isEmpty_of_script (h : u.script signatures = .ok unlocking) :
    unlocking.isEmpty = false := by
  obtain ⟨back, data, hassemble⟩ := exists_back_of_script h
  have hpush : 1 ≤ (Script.Piece.push data).size := by
    simp only [Script.Piece.size]
    split_ifs <;> omega
  have hsize : 1 ≤ unlocking.size := by
    rw [Script.size_of_assemble hassemble]
    simp only [List.map_append, List.sum_append, List.map_cons, List.map_nil, List.sum_cons,
      List.sum_nil]
    omega
  rw [Script.isEmpty, List.isEmpty_eq_false_iff]
  exact List.ne_nil_of_length_pos hsize

end Unlock

/-! ## Valid signatures -/

theorem PublicKey.ne_nil_of_verifyInput {key : PublicKey} {d : Draft} {index : Nat} {code : Script}
    {signature : Bytes} (h : key.verifyInput d index code signature = .ok true) :
    signature ≠ [] := by
  intro hnil
  subst hnil
  simp [verifyInput] at h

/-- A valid reply to a request is the signature. -/
theorem Signer.gives_sign_remote {peer : PublicKey} {link : Link σ} {d : Draft} {index : Nat}
    {code : Script} {signature : Bytes} {w₁ : σ}
    (hsend : (link.send .signRequest (SignRequest.encode ⟨d, index, code⟩)).Gives w () w₁)
    (hreply : (link.expect .signature).Gives w₁ signature w')
    (hvalid : peer.verifyInput d index code signature = .ok true) :
    ((remote peer link).sign d index code).Gives w signature w' := by
  have hne : ¬ signature.isEmpty := by
    rw [List.isEmpty_iff]
    exact PublicKey.ne_nil_of_verifyInput hvalid
  refine gives_bind.2 ⟨(), w₁, hsend, gives_bind.2 ⟨signature, w', hreply, ?_⟩⟩
  refine gives_unless.2 ⟨hne, gives_bind.2 ⟨true, w', gives_lift.2 ⟨hvalid, rfl⟩, ?_⟩⟩
  exact gives_pure.2 ⟨rfl, rfl⟩

/-- The held keys verify their own signatures of the draft. -/
def Draft.Reliable (d : Draft) (unlocks : List (Unlock σ)) : Prop :=
  ∀ (index : Nat) (u : Unlock σ) (code : Script), unlocks[index]? = some u →
    u.scriptCode = .ok code → ∀ signer ∈ u.signers, signer.Reliable d index code

namespace Transaction

/-- Each unlock has its input, whose unlocking script starts with a signature by each signer. Every
one of them is a valid signature of the transaction, for this input and its script code. -/
structure Validates (tx : Transaction) (unlocks : List (Unlock σ)) : Prop where
  length : unlocks.length = tx.inputs.length
  valid : ∀ (index : Nat) (u : Unlock σ), unlocks[index]? = some u → ∃ code input signatures,
    u.scriptCode = .ok code ∧ tx.inputs[index]? = some input ∧
    u.Holds input.unlocking signatures ∧
    List.Forall₂ (fun signer signature =>
      signer.publicKey.verifyInput (.ofTransaction tx) index code signature = .ok true)
      u.signers signatures

namespace Completes

variable {tx : Transaction} {d : Draft} {unlocks : List (Unlock σ)}

theorem length_inputs (h : tx.Completes d unlocks) : unlocks.length = tx.inputs.length := by
  have hbare := congrArg (fun d : Draft => d.inputs.length) h.bare
  simp only [Draft.length_bare, Draft.ofTransaction, List.length_map] at hbare
  rw [h.length, hbare]

theorem validates (h : tx.Completes d unlocks) (hreliable : d.Reliable unlocks) :
    tx.Validates unlocks where
  length := h.length_inputs
  valid := by
    intro index u hunlock
    obtain ⟨input, hinput⟩ := h.exists_input hunlock
    obtain ⟨code, signatures, hcode, hscript, hvalid⟩ := h.valid hunlock hinput
      fun code hcode signer hsigner =>
        (hreliable index u code hunlock hcode signer hsigner).of_bare h.bare.symm
    refine ⟨code, input, signatures, hcode, hinput, ?_, hvalid⟩
    apply Unlock.holds_of_script hscript hvalid.length_eq.symm
    intro signature hmem
    obtain ⟨signer, -, hverified⟩ := exists_mem_of_forall₂ hvalid.flip hmem
    exact PublicKey.ne_nil_of_verifyInput hverified

/-- No unlocking script of a completed draft counts as missing. -/
theorem isEmpty_unlocking (h : tx.Completes d unlocks) :
    ∀ input ∈ tx.inputs, input.unlocking.isEmpty = false := by
  intro input hmem
  obtain ⟨index, hinput⟩ := List.mem_iff_getElem?.1 hmem
  obtain ⟨hindex, -⟩ := List.getElem?_eq_some_iff.1 hinput
  rw [← h.length_inputs] at hindex
  obtain ⟨_, _, _, _, hscript⟩ := h.signed (List.getElem?_eq_getElem hindex) hinput
  exact Unlock.isEmpty_of_script hscript

end Completes

end Transaction

namespace Draft

variable {d : Draft} {tx : Transaction}

theorem eq_ofTransaction (h : d.finish = .ok tx)
    (hscripts : ∀ input ∈ tx.inputs, input.unlocking.isEmpty = false) : d = ofTransaction tx := by
  have hinputs : ∀ input ∈ tx.inputs, DraftInput.mk input.prevout input.sequence
      (if input.unlocking.isEmpty then none else some input.unlocking) =
        ⟨input.prevout, input.sequence, some input.unlocking⟩ := by
    intro input hmem
    rw [hscripts input hmem]
    rfl
  rw [finish_eq_ok.1 h, ofTransaction, List.map_congr_left hinputs]

/-- **Every signature in a finished transaction is valid for it.** Signed as it is or with a fee, a
draft becomes a transaction that has the outputs after the fee and valid signatures of exactly
this transaction, which is also what it reads back as. -/
theorem signatures_valid {d : Draft} {unlocks : List (Unlock σ)} :
    (∀ signed w', (d.signAll unlocks).Gives w signed w' → d.Reliable unlocks →
      ∃ tx, signed.finish = .ok tx ∧ signed = ofTransaction tx ∧ signed.bare = d.bare ∧
        tx.Validates unlocks ∧
        (tx.encode.length < UInt64.size → (tx.inputs = [] → tx.outputs.length ≠ 1) →
          decode signed.encode = .ok signed)) ∧
    (∀ rate inputs takeFee tx fee w',
      (d.signWithFee unlocks rate inputs takeFee).Gives w (tx, fee) w' →
      { d with outputs := tx.outputs }.Reliable unlocks →
      takeFee d.outputs fee = .ok tx.outputs ∧
        (ofTransaction tx).bare = { d with outputs := tx.outputs }.bare ∧
        tx.Validates unlocks ∧
        (tx.encode.length < UInt64.size → (tx.inputs = [] → tx.outputs.length ≠ 1) →
          Transaction.decode tx.encode = .ok tx)) := by
  constructor
  · intro signed w' h hreliable
    obtain ⟨tx, htx⟩ := exists_finish_of_signAll h
    have hcompletes := completes_of_signAll h htx
    have hsigned := eq_ofTransaction htx hcompletes.isEmpty_unlocking
    refine ⟨tx, htx, hsigned, ?_, hcompletes.validates hreliable, ?_⟩
    · rw [hsigned, hcompletes.bare]
    · intro haddressable hmarker
      rw [hsigned, encode_ofTransaction, decode,
        Transaction.decode_encode haddressable hmarker]
      rfl
  · intro rate inputs takeFee tx fee w' h hreliable
    obtain ⟨outputs, hfee, hcompletes⟩ := completes_of_signWithFee h
    obtain rfl : tx.outputs = outputs := congrArg Draft.outputs hcompletes.bare
    exact ⟨hfee, hcompletes.bare, hcompletes.validates hreliable, Transaction.decode_encode⟩

/-- Two players sign over a link and one with a held key. -/
theorem valid_late_idle :
    (∃ tx, (Inscription.lateDraft.unlocked [Inscription.lateUnlocking]).finish = .ok tx ∧
      tx.Validates [Inscription.lateUnlock]) ∧
    Settlement.idleRedemption.transaction.Validates [Settlement.idleUnlock] ∧
    Transaction.decode Settlement.idleRedemption.transaction.encode =
      .ok Settlement.idleRedemption.transaction := by
  constructor
  · have hreliable : Inscription.lateDraft.Reliable [Inscription.lateUnlock] := by
      intro index u code hunlock hcode signer hsigner
      obtain rfl := List.mem_singleton.1 (List.mem_of_getElem? hunlock)
      obtain ⟨player, -, rfl⟩ : ∃ player ∈ [Player.A, Player.B],
        Inscription.latePlayer player = signer := List.mem_map.1 hsigner
      trivial
    obtain ⟨tx, htx, -, -, hvalid, -⟩ :=
      signatures_valid.1 _ _ Inscription.late_signAll hreliable
    exact ⟨tx, htx, hvalid⟩
  · have hreliable : Settlement.idleDraft.Reliable [Settlement.idleUnlock] := by
      intro index u code hunlock hcode signer hsigner
      cases index with
      | succ index => cases hunlock
      | zero =>
        obtain rfl := Option.some.inj hunlock
        obtain rfl := Except.ok.inj hcode
        obtain rfl := List.mem_singleton.1 hsigner
        exact Settlement.idle_reliable rfl
    obtain ⟨-, -, hvalid, hread⟩ :=
      signatures_valid.2 _ _ _ _ _ _ Settlement.idle_signWithFee hreliable
    refine ⟨hvalid, hread ?_ ?_⟩
    · rw [Transaction.length_encode]
      decide +kernel
    · intro hnone
      cases hnone

end Draft

end Wager
