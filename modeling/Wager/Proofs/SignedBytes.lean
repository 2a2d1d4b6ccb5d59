import Wager.Proofs.Transactions

/-!
# What a signature commits to

The bytes that are signed are those of one transaction (`Draft.signing`), whose only unlocking
script is the script code in the place of the input that is signed, and the type of the hash behind
them.

**Commitment.** A transaction with inputs reads back, so equal bytes come from equal transactions.
The place that is signed shows in them because the script code is not empty and every other script
is. So equal bytes leave room for nothing but other unlocking scripts (`Draft.Alike`), which are not
signed at all.

Main result: `Draft.signedBytes_commit`.
-/

namespace Wager.Draft

variable {d e : Draft} {index index' : Nat} {code code' : Script} {hashType hashType' : UInt8}

/-! ## Up to the unlocking scripts -/

/-- The drafts spend the same outputs in the same order and under the same locks, and pay the same.
Their unlocking scripts may differ. -/
structure Alike (d e : Draft) : Prop where
  version : d.version = e.version
  inputs : d.inputs.map (fun input => (input.prevout, input.sequence)) =
    e.inputs.map fun input => (input.prevout, input.sequence)
  outputs : d.outputs = e.outputs
  lockTime : d.lockTime = e.lockTime

theorem Alike.bare_eq (h : Alike d e) : d.bare = e.bare := by
  have hbare (d : Draft) : d.bare.inputs = (d.inputs.map fun input =>
      (input.prevout, input.sequence)).map fun spent => ⟨spent.1, spent.2, none⟩ := by
    simp [bare]
  have hinputs : d.bare.inputs = e.bare.inputs := by rw [hbare, hbare, h.inputs]
  exact Draft.mk.injEq .. ▸ ⟨h.version, hinputs, h.outputs, h.lockTime⟩

theorem Alike.signedBytes_eq (h : Alike d e) (index : Nat) (code : Script) (hashType : UInt8) :
    d.signedBytes index code hashType = e.signedBytes index code hashType := by
  rw [← signedBytes_bare d, h.bare_eq, signedBytes_bare]

/-! ## The signed transaction -/

/-- The transaction whose bytes are signed. -/
def signing (d : Draft) (index : Nat) (code : Script) : Transaction :=
  d.withScripts fun i _ => if i = index then code else .empty

theorem u32_hashType (hashType : UInt8) : Encode.u32 hashType.toUInt32 = [hashType, 0, 0, 0] :=
  littleEndian_ofLittleEndian [hashType, 0, 0, 0]

theorem signedBytes_eq (d : Draft) (index : Nat) (code : Script) (hashType : UInt8) :
    d.signedBytes index code hashType = (d.signing index code).encode ++ [hashType, 0, 0, 0] := by
  rw [signedBytes, u32_hashType]
  rfl

theorem getElem?_signing (d : Draft) (index : Nat) (code : Script) (i : Nat) :
    (d.signing index code).inputs[i]? = d.inputs[i]?.map fun input =>
      ⟨input.prevout, if i = index then code else .empty, input.sequence⟩ :=
  List.getElem?_mapIdx ..

theorem spent_signing (d : Draft) (index : Nat) (code : Script) :
    (d.signing index code).inputs.map (fun input => (input.prevout, input.sequence)) =
      d.inputs.map fun input => (input.prevout, input.sequence) := by
  refine List.ext_getElem? fun i => ?_
  rw [List.getElem?_map, getElem?_signing, List.getElem?_map, Option.map_map]
  rfl

/-- The place that is signed shows in the transaction. -/
theorem signing_inj (hindex : index < d.inputs.length) (hcode : code ≠ .empty)
    (h : d.signing index code = e.signing index' code') :
    index = index' ∧ code = code' ∧ Alike d e := by
  have hsigned : (d.signing index code).inputs[index]? =
      some ⟨d.inputs[index].prevout, code, d.inputs[index].sequence⟩ := by
    rw [getElem?_signing, List.getElem?_eq_getElem hindex, Option.map_some, if_pos rfl]
  rw [h, getElem?_signing, Option.map_eq_some_iff] at hsigned
  obtain ⟨input, -, hinput⟩ := hsigned
  have hscript : (if index = index' then code' else .empty) = code :=
    congrArg Input.unlocking hinput
  have hinputs := congrArg (fun tx : Transaction => tx.inputs.map fun input =>
    (input.prevout, input.sequence)) h
  simp only [spent_signing] at hinputs
  have halike : Alike d e :=
    ⟨congrArg Transaction.version h, hinputs, congrArg Transaction.outputs h,
      congrArg Transaction.lockTime h⟩
  by_cases hsame : index = index'
  · rw [if_pos hsame] at hscript
    exact ⟨hsame, hscript.symm, halike⟩
  · rw [if_neg hsame] at hscript
    exact absurd hscript.symm hcode

/-- Equal bytes are those of equal transactions. -/
theorem signing_eq_of_signedBytes (hindex : index < d.inputs.length)
    (hindex' : index' < e.inputs.length)
    (haddressable : (d.signedBytes index code hashType).length < UInt64.size)
    (h : d.signedBytes index code hashType = e.signedBytes index' code' hashType') :
    d.signing index code = e.signing index' code' ∧ hashType = hashType' := by
  have hread {d : Draft} {index : Nat} {code : Script} (hindex : index < d.inputs.length)
      (haddressable : (d.signing index code).encode.length < UInt64.size) :
      Transaction.decode (d.signing index code).encode = .ok (d.signing index code) := by
    refine Transaction.decode_encode haddressable fun hnone => ?_
    rw [List.mapIdx_eq_nil_iff.1 hnone] at hindex
    exact absurd hindex (Nat.not_lt_zero index)
  rw [signedBytes_eq, signedBytes_eq] at h
  obtain ⟨hencode, htype⟩ := List.append_inj' h rfl
  rw [signedBytes_eq, List.length_append] at haddressable
  have hfirst := hread hindex (Nat.lt_of_le_of_lt (Nat.le_add_right ..) haddressable)
  rw [hencode] at hfirst haddressable
  have hsecond := hread hindex' (Nat.lt_of_le_of_lt (Nat.le_add_right ..) haddressable)
  exact ⟨Except.ok.inj (hfirst.symm.trans hsecond), (List.cons.inj htype).1⟩

/-- The script code alone, in the place that is signed. -/
theorem signedBytes_of_setUnlocking (hindex : index < d.inputs.length) (code : Script)
    (hashType : UInt8) : ∃ signed, d.bare.setUnlocking index code = .ok signed ∧
      d.signedBytes index code hashType = signed.encode ++ [hashType, 0, 0, 0] := by
  have hset : d.bare.setUnlocking index code = .ok { d.bare with
      inputs := d.bare.inputs.modify index fun input => { input with unlocking := some code } } :=
    if_pos (by rwa [length_bare])
  refine ⟨_, hset, ?_⟩
  rw [signedBytes_eq, encode]
  refine congrArg (fun inputs => Transaction.encode ⟨d.version, inputs, d.outputs, d.lockTime⟩ ++ _)
    (List.ext_getElem? fun i => ?_)
  simp only [bare, List.getElem?_mapIdx, List.getElem?_modify, List.getElem?_map,
    Option.map_eq_map, Option.map_map]
  refine Option.map_congr fun input _ => ?_
  by_cases hsame : index = i
  · simp [hsame]
  · simp [hsame, Ne.symm hsame]

/-! ## Commitment -/

/-- Equal bytes are signed for the same input with the same script code and the same type of hash,
in drafts that differ in nothing but unlocking scripts. Those are not signed: the bytes are the
encoding of the draft with the script code as its only one, and the type of the hash. -/
theorem signedBytes_commit :
    (∀ {d e : Draft} {index index' : Nat} {code code' : Script} {hashType hashType' : UInt8},
      index < d.inputs.length → index' < e.inputs.length → code ≠ .empty → code' ≠ .empty →
      (d.signedBytes index code hashType).length < UInt64.size →
      d.signedBytes index code hashType = e.signedBytes index' code' hashType' →
      index = index' ∧ code = code' ∧ hashType = hashType' ∧ Alike d e) ∧
    (∀ {d e : Draft}, Alike d e → ∀ index code hashType,
      d.signedBytes index code hashType = e.signedBytes index code hashType) ∧
    ∀ {d : Draft} {index : Nat}, index < d.inputs.length → ∀ code hashType,
      d.digest index code hashType = .ok (doubleSha256 (d.signedBytes index code hashType)) ∧
      ∃ signed, d.bare.setUnlocking index code = .ok signed ∧
        d.signedBytes index code hashType = signed.encode ++ [hashType, 0, 0, 0] := by
  refine ⟨fun hindex hindex' hcode _ haddressable h => ?_, fun h => h.signedBytes_eq,
    fun hindex code hashType => ⟨if_pos hindex, signedBytes_of_setUnlocking hindex code hashType⟩⟩
  obtain ⟨hsigning, htype⟩ := signing_eq_of_signedBytes hindex hindex' haddressable h
  obtain ⟨hsame, hscript, halike⟩ := signing_inj hindex hcode hsigning
  exact ⟨hsame, hscript, htype, halike⟩

/-- A draft of two inputs, the first of which has its unlocking script. -/
def halfway : Draft where
  version := 2
  inputs := [⟨⟨⟨.replicate 32 0⟩, 0⟩, 0xffffffff, some ⟨[Opcode.op1]⟩⟩,
    ⟨⟨⟨.replicate 32 0⟩, 1⟩, 0xffffffff, none⟩]
  outputs := [⟨1, ⟨[Opcode.op1]⟩⟩]
  lockTime := 0

/-- That script is not signed, the place is. -/
theorem halfway_commits :
    0 < halfway.inputs.length ∧ 1 < halfway.inputs.length ∧ (⟨[Opcode.op1]⟩ : Script) ≠ .empty ∧
    (halfway.signedBytes 0 ⟨[Opcode.op1]⟩ 1).length < UInt64.size ∧
    Alike halfway halfway.bare ∧
    halfway.signedBytes 0 ⟨[Opcode.op1]⟩ 1 = halfway.bare.signedBytes 0 ⟨[Opcode.op1]⟩ 1 ∧
    halfway.signedBytes 0 ⟨[Opcode.op1]⟩ 1 ≠ halfway.signedBytes 1 ⟨[Opcode.op1]⟩ 1 ∧
    ∃ signed, halfway.bare.setUnlocking 0 ⟨[Opcode.op1]⟩ = .ok signed ∧
      halfway.signedBytes 0 ⟨[Opcode.op1]⟩ 1 = signed.encode ++ [1, 0, 0, 0] := by
  have hfirst : 0 < halfway.inputs.length := by decide
  have hsecond : 1 < halfway.inputs.length := by decide
  have hcode : (⟨[Opcode.op1]⟩ : Script) ≠ .empty := by decide
  have haddressable : (halfway.signedBytes 0 ⟨[Opcode.op1]⟩ 1).length < UInt64.size := by
    decide +kernel
  have halike : Alike halfway halfway.bare := ⟨rfl, rfl, rfl, rfl⟩
  refine ⟨hfirst, hsecond, hcode, haddressable, halike,
    signedBytes_commit.2.1 halike 0 ⟨[Opcode.op1]⟩ 1, fun h => ?_,
    (signedBytes_commit.2.2 hfirst ⟨[Opcode.op1]⟩ 1).2⟩
  exact absurd (signedBytes_commit.1 hfirst hsecond hcode hcode haddressable h).1 (by decide)

end Wager.Draft
