import Wager.Proofs.Drafts
import Wager.Proofs.Reading

/-!
# Transactions read back

A transaction that was written is read as itself (`Transaction.decode_encode`). The one exception
has no inputs and a single output: it starts like the form with witnesses, which is refused.

**Spellings.** Counts and lengths may take any width, so a transaction can be written in several
ways, and the reader recognizes all of them (`Transaction.decode_eq_ok_iff`). No spelling is the
front of another: what was written is read from all of its bytes and from nothing else that starts
with them or that they start with (`Transaction.decode_exactly`).

**Drafts.** A missing unlocking script is written empty, and an empty one is read as missing. So a
draft comes back without its empty scripts (`Draft.settled`), and that changes nothing that is
signed.
-/

namespace Wager

open Exchange Cursor Decoder

variable {c c' : Cursor}

/-! ## Parts -/

theorem OutPoint.gives_decoder {o : OutPoint} : Gives decoder c o c' ↔ c.Passes o.encode c' := by
  rw [encode, passes_append]
  constructor
  · intro h
    obtain ⟨digest, c₁, hdigest, h⟩ := gives_bind.1 h
    obtain ⟨index, c₂, hindex, h⟩ := gives_bind.1 h
    obtain ⟨rfl, rfl⟩ := gives_pure.1 h
    rw [Txid.wire_ofDigest]
    exact ⟨c₁, gives_block.1 hdigest, gives_u32.1 hindex⟩
  · intro h
    obtain ⟨c₁, htxid, hindex⟩ := h
    refine gives_bind.2 ⟨o.txid.wire, c₁, gives_block.2 htxid, ?_⟩
    refine gives_bind.2 ⟨o.index, c', gives_u32.2 hindex, gives_pure.2 ⟨?_, rfl⟩⟩
    rw [Txid.ofDigest_wire]

namespace Script

theorem size_le_length_encode (s : Script) : s.size ≤ s.encode.length := by
  rw [encode, Encode.sized, List.length_append]
  exact Nat.le_add_left ..

theorem recognizes_decoder :
    Recognizes decoder fun s data => Encode.SpellsSized s.bytes data := by
  intro c s c'
  rw [← recognizes_sized]
  constructor
  · intro h
    obtain ⟨payload, c₁, hpayload, h⟩ := gives_bind.1 h
    obtain ⟨rfl, rfl⟩ := gives_pure.1 h
    exact hpayload
  · exact fun h => gives_bind.2 ⟨s.bytes, c', h, gives_pure.2 ⟨rfl, rfl⟩⟩

theorem gives_decoder {s : Script} (hsize : s.size < UInt64.size)
    (h : c.Passes s.encode c') : Gives decoder c s c' :=
  recognizes_decoder.2 ⟨_, Encode.spellsSized hsize, h⟩

end Script

namespace Input

theorem encode_ne_nil (i : Input) : i.encode ≠ [] := by
  rw [encode, List.append_assoc]
  exact List.append_ne_nil_of_right_ne_nil _
    (List.append_ne_nil_of_left_ne_nil (Encode.sized_ne_nil _) _)

/-- The ways to write an input: the length of its script may take any width. -/
def Spells (i : Input) (data : Bytes) : Prop :=
  ∃ script, Encode.SpellsSized i.unlocking.bytes script ∧
    data = i.prevout.encode ++ (script ++ Encode.u32 i.sequence)

variable {i : Input}

theorem Spells.ne_nil {data : Bytes} (h : i.Spells data) : data ≠ [] := by
  obtain ⟨script, hscript, rfl⟩ := h
  exact List.append_ne_nil_of_right_ne_nil _
    (List.append_ne_nil_of_left_ne_nil hscript.ne_nil _)

theorem spells_encode (hlen : i.encode.length < UInt64.size) : i.Spells i.encode := by
  have hsize : i.unlocking.bytes.length < UInt64.size := by
    have hle : i.unlocking.bytes.length ≤ _ := i.unlocking.size_le_length_encode
    simp only [encode, List.length_append] at hlen
    omega
  exact ⟨_, Encode.spellsSized hsize, List.append_assoc ..⟩

theorem recognizes_decoder : Recognizes decoder Spells := by
  intro c i c'
  constructor
  · intro h
    obtain ⟨prevout, c₁, hprevout, h⟩ := gives_bind.1 h
    obtain ⟨unlocking, c₂, hunlocking, h⟩ := gives_bind.1 h
    obtain ⟨sequence, c₃, hsequence, h⟩ := gives_bind.1 h
    obtain ⟨rfl, rfl⟩ := gives_pure.1 h
    obtain ⟨script, hscript, hpass⟩ := Script.recognizes_decoder.1 hunlocking
    exact ⟨_, ⟨script, hscript, rfl⟩, passes_append.2 ⟨c₁, OutPoint.gives_decoder.1 hprevout,
      passes_append.2 ⟨c₂, hpass, gives_u32.1 hsequence⟩⟩⟩
  · intro h
    obtain ⟨_, ⟨script, hscript, rfl⟩, hpass⟩ := h
    obtain ⟨c₁, hprevout, hpass⟩ := passes_append.1 hpass
    obtain ⟨c₂, hunlocking, hsequence⟩ := passes_append.1 hpass
    refine gives_bind.2 ⟨i.prevout, c₁, OutPoint.gives_decoder.2 hprevout, ?_⟩
    refine gives_bind.2 ⟨i.unlocking, c₂, ?_, ?_⟩
    · exact Script.recognizes_decoder.2 ⟨script, hscript, hunlocking⟩
    · exact gives_bind.2 ⟨i.sequence, c', gives_u32.2 hsequence, gives_pure.2 ⟨rfl, rfl⟩⟩

end Input

namespace Output

theorem encode_ne_nil (o : Output) : o.encode ≠ [] :=
  List.append_ne_nil_of_right_ne_nil _ (Encode.sized_ne_nil _)

/-- The ways to write an output: the length of its script may take any width. -/
def Spells (o : Output) (data : Bytes) : Prop :=
  ∃ script, Encode.SpellsSized o.locking.bytes script ∧ data = Encode.u64 o.value ++ script

variable {o : Output}

theorem Spells.ne_nil {data : Bytes} (h : o.Spells data) : data ≠ [] := by
  obtain ⟨script, hscript, rfl⟩ := h
  exact List.append_ne_nil_of_right_ne_nil _ hscript.ne_nil

theorem spells_encode (hlen : o.encode.length < UInt64.size) : o.Spells o.encode := by
  have hsize : o.locking.bytes.length < UInt64.size := by
    have hle : o.locking.bytes.length ≤ _ := o.locking.size_le_length_encode
    simp only [encode, List.length_append] at hlen
    omega
  exact ⟨_, Encode.spellsSized hsize, rfl⟩

theorem recognizes_decoder : Recognizes decoder Spells := by
  intro c o c'
  constructor
  · intro h
    obtain ⟨value, c₁, hvalue, h⟩ := gives_bind.1 h
    obtain ⟨locking, c₂, hlocking, h⟩ := gives_bind.1 h
    obtain ⟨rfl, rfl⟩ := gives_pure.1 h
    obtain ⟨script, hscript, hpass⟩ := Script.recognizes_decoder.1 hlocking
    exact ⟨_, ⟨script, hscript, rfl⟩, passes_append.2 ⟨c₁, gives_u64.1 hvalue, hpass⟩⟩
  · intro h
    obtain ⟨_, ⟨script, hscript, rfl⟩, hpass⟩ := h
    obtain ⟨c₁, hvalue, hlocking⟩ := passes_append.1 hpass
    refine gives_bind.2 ⟨o.value, c₁, gives_u64.2 hvalue, gives_bind.2 ⟨o.locking, c', ?_, ?_⟩⟩
    · exact Script.recognizes_decoder.2 ⟨script, hscript, hlocking⟩
    · exact gives_pure.2 ⟨rfl, rfl⟩

end Output

/-- The only count that is written with a one in front is one. -/
theorem Encode.Spells.eq_one_of_head? {n : Nat} {data : Bytes} (h : Spells n data)
    (hhead : data.head? = some 1) : n = 1 := by
  cases h with
  | byte n =>
    obtain rfl := Option.some.inj hhead
    rfl
  | short n => cases Option.some.inj hhead
  | word n => cases Option.some.inj hhead
  | long n => cases Option.some.inj hhead

/-! ## Transactions -/

namespace Transaction

/-- The ways to write a transaction: every count and length may take any width. No input and then
a one is not among them. -/
def Spells (tx : Transaction) (data : Bytes) : Prop :=
  ∃ inputs outputs, Encode.SpellsCounted Input.Spells tx.inputs inputs ∧
    Encode.SpellsCounted Output.Spells tx.outputs outputs ∧
    ¬ (tx.inputs = [] ∧ outputs.head? = some 1) ∧
    data = Encode.u32 tx.version ++ (inputs ++ (outputs ++ Encode.u32 tx.lockTime))

/-- The marker is looked for where the outputs start. -/
theorem marked_iff {inputs : List Input} {row outputs : Bytes} {c₁ c₂ c₃ : Cursor}
    (hrow : Encode.Row Input.Spells inputs row) (hinputs : c₁.Passes row c₂)
    (houtputs : c₂.Passes outputs c₃) (hne : outputs ≠ []) :
    (inputs.length = 0 ∧ c₁.rest.head? = some 1) ↔ (inputs = [] ∧ outputs.head? = some 1) := by
  cases hrow with
  | nil =>
    obtain rfl := passes_nil.1 hinputs
    rw [houtputs.1, List.head?_append_of_ne_nil _ hne, List.length_eq_zero_iff]
  | cons hfirst hrest => simp

theorem recognizes_decoder : Recognizes decoder Spells := by
  intro c tx c'
  constructor
  · intro h
    obtain ⟨version, c₁, hversion, h⟩ := gives_bind.1 h
    obtain ⟨n, c₂, hlength, h⟩ := gives_bind.1 h
    obtain ⟨_, _, hget, hbody⟩ := gives_bind.1 h
    obtain ⟨rfl, rfl⟩ := gives_get.1 hget
    obtain ⟨hmarker, hbody⟩ := gives_unless.1 hbody
    obtain ⟨inputs, c₃, hinputs, hbody⟩ := gives_bind.1 hbody
    obtain ⟨outputs, c₄, houtputs, hbody⟩ := gives_bind.1 hbody
    obtain ⟨lockTime, c₅, hlockTime, hbody⟩ := gives_bind.1 hbody
    obtain ⟨rfl, rfl⟩ := gives_pure.1 hbody
    obtain ⟨⟨size, hsize, hcount⟩, -⟩ := gives_length_iff.1 hlength
    obtain ⟨row, ⟨rfl, hrow⟩, hread⟩ := (recognizes_repeated Input.recognizes_decoder _).1 hinputs
    obtain ⟨more, hmore, hpass⟩ :=
      (recognizes_counted Output.recognizes_decoder Output.Spells.ne_nil).1 houtputs
    rw [marked_iff hrow hread hpass hmore.ne_nil] at hmarker
    exact ⟨_, ⟨_, more, ⟨size, row, hsize, hrow, rfl⟩, hmore, hmarker, rfl⟩,
      passes_append.2 ⟨c₁, gives_u32.1 hversion, passes_append.2 ⟨c₃,
        passes_append.2 ⟨_, hcount, hread⟩, passes_append.2 ⟨c₄, hpass, gives_u32.1 hlockTime⟩⟩⟩⟩
  · intro h
    obtain ⟨_, ⟨_, more, ⟨size, row, hsize, hrow, rfl⟩, hmore, hmarker, rfl⟩, hpass⟩ := h
    obtain ⟨c₁, hversion, hpass⟩ := passes_append.1 hpass
    obtain ⟨c₃, hinputs, hpass⟩ := passes_append.1 hpass
    obtain ⟨c₂, hcount, hread⟩ := passes_append.1 hinputs
    obtain ⟨c₄, houtputs, hlockTime⟩ := passes_append.1 hpass
    have hle : tx.inputs.length ≤ c₂.remaining := by
      rw [remaining, hread.1, List.length_append]
      exact Nat.le_add_right_of_le (hrow.length_le Input.Spells.ne_nil)
    rw [← marked_iff hrow hread houtputs hmore.ne_nil] at hmarker
    refine gives_bind.2 ⟨tx.version, c₁, gives_u32.2 hversion, ?_⟩
    refine gives_bind.2 ⟨_, c₂, gives_length_iff.2 ⟨⟨size, hsize, hcount⟩, hle⟩, ?_⟩
    refine gives_bind.2 ⟨c₂, c₂, gives_get.2 ⟨rfl, rfl⟩, gives_unless.2 ⟨hmarker, ?_⟩⟩
    refine gives_bind.2 ⟨tx.inputs, c₃, ?_, gives_bind.2 ⟨tx.outputs, c₄, ?_, ?_⟩⟩
    · exact (recognizes_repeated Input.recognizes_decoder _).2 ⟨row, ⟨rfl, hrow⟩, hread⟩
    · exact (recognizes_counted Output.recognizes_decoder Output.Spells.ne_nil).2
        ⟨more, hmore, houtputs⟩
    · exact gives_bind.2 ⟨tx.lockTime, c', gives_u32.2 hlockTime, gives_pure.2 ⟨rfl, rfl⟩⟩

/-- A byte string is read as a transaction exactly if it is a way to write it. -/
theorem decode_eq_ok_iff {tx : Transaction} {data : Bytes} :
    decode data = .ok tx ↔ tx.Spells data := recognizes_decoder.decodeAll_eq_ok

variable {tx : Transaction}

theorem length_encode (tx : Transaction) : tx.encode.length =
    (Encode.count tx.inputs.length).length + (tx.inputs.flatMap Input.encode).length +
      (Encode.count tx.outputs.length).length + (tx.outputs.flatMap Output.encode).length + 8 := by
  simp only [encode, List.length_append, Encode.u32, length_littleEndian]
  omega

theorem length_outputs_lt (haddressable : tx.encode.length < UInt64.size) :
    tx.outputs.length < UInt64.size := by
  have hle : tx.outputs.length ≤ (tx.outputs.flatMap Output.encode).length :=
    length_le_length_flatMap fun o _ => o.encode_ne_nil
  rw [length_encode] at haddressable
  omega

theorem spells_encode (haddressable : tx.encode.length < UInt64.size)
    (hmarker : tx.inputs = [] → tx.outputs.length ≠ 1) : tx.Spells tx.encode := by
  have houtputs := length_outputs_lt haddressable
  have hinputs : tx.inputs.length ≤ (tx.inputs.flatMap Input.encode).length :=
    length_le_length_flatMap fun i _ => i.encode_ne_nil
  rw [length_encode] at haddressable
  have hinput : ∀ i ∈ tx.inputs, i.Spells i.encode := fun i hi => by
    have hle := length_le_of_mem Input.encode hi
    exact Input.spells_encode (by omega)
  have houtput : ∀ o ∈ tx.outputs, o.Spells o.encode := fun o ho => by
    have hle := length_le_of_mem Output.encode ho
    exact Output.spells_encode (by omega)
  refine ⟨_, _, Encode.spellsCounted (by omega) hinput, Encode.spellsCounted houtputs houtput,
    ?_, ?_⟩
  · intro hmarked
    rw [List.head?_append_of_ne_nil _ (Encode.count_ne_nil _)] at hmarked
    exact hmarker hmarked.1 ((Encode.spells_count houtputs).eq_one_of_head? hmarked.2)
  · simp only [encode, List.append_assoc]

/-- A transaction reads back, unless it starts like one with witnesses. -/
theorem decode_encode (haddressable : tx.encode.length < UInt64.size)
    (hmarker : tx.inputs = [] → tx.outputs.length ≠ 1) : decode tx.encode = .ok tx :=
  decode_eq_ok_iff.2 (spells_encode haddressable hmarker)

/-- Neither a part of the front nor an extension of a spelling is one. -/
theorem Spells.front_unique {tx' : Transaction} {data data' more more' : Bytes} (h : tx.Spells data)
    (h' : tx'.Spells data') (heq : data ++ more = data' ++ more') : more = more' :=
  (recognizes_decoder.front_unique h h' heq).2.2

/-- No input and a single output is refused wherever it stands. -/
theorem resultIn_of_marked (hinputs : tx.inputs = []) (houtputs : tx.outputs.length = 1)
    (h : c.Passes tx.encode c') : ∃ c₁, resultIn decoder c = (malformed .witness, c₁) := by
  rw [encode, hinputs, houtputs] at h
  obtain ⟨c₁, hversion, h⟩ := passes_append.1 h
  obtain ⟨c₂, hcount, h⟩ := passes_append.1 h
  have hnone : Gives length c₁ 0 c₂ :=
    gives_length_iff.2 ⟨⟨_, Encode.spells_count (by decide), hcount⟩, Nat.zero_le _⟩
  have hone : c₂.rest.head? = some 1 := by
    rw [h.1]
    rfl
  refine ⟨c₂, ?_⟩
  rw [decoder, resultIn_bind_of_gives (gives_u32.2 hversion), resultIn_bind_of_gives hnone,
    resultIn_bind_of_gives (gives_get.2 ⟨rfl, rfl⟩), resultIn_unless, if_pos ⟨rfl, hone⟩]
  rfl

/-- A written transaction is read as itself, except that one with no input and a single output is
refused. Nothing is read from less than all of its bytes, or with more behind them. -/
theorem decode_exactly (tx : Transaction) (haddressable : tx.encode.length < UInt64.size) :
    decode tx.encode =
        (if tx.inputs = [] ∧ tx.outputs.length = 1 then malformed .witness else .ok tx) ∧
      (∀ front rest : Bytes, tx.encode = front ++ rest → rest ≠ [] →
        ∀ tx', decode front ≠ .ok tx') ∧
      ∀ more : Bytes, more ≠ [] → ∀ tx', decode (tx.encode ++ more) ≠ .ok tx' := by
  by_cases hmarked : tx.inputs = [] ∧ tx.outputs.length = 1
  · rw [if_pos hmarked]
    have hfails (more : Bytes) : ∃ c₁,
        resultIn decoder (start (tx.encode ++ more)) = (malformed .witness, c₁) := by
      have hpasses : (start (tx.encode ++ more)).Passes tx.encode ⟨0 + tx.encode.length, more⟩ :=
        ⟨rfl, rfl⟩
      exact resultIn_of_marked hmarked.1 hmarked.2 hpasses
    refine ⟨?_, ?_, ?_⟩
    · obtain ⟨c₁, hfails⟩ := hfails []
      rw [List.append_nil] at hfails
      exact decodeAll_eq_error hfails
    · intro front rest heq _ tx' hread
      obtain ⟨c₁, hfails⟩ := hfails []
      rw [List.append_nil, heq] at hfails
      have hgives : Gives decoder (start (front ++ rest)) tx' ⟨0 + front.length, rest⟩ :=
        recognizes_decoder.2 ⟨front, decode_eq_ok_iff.1 hread, rfl, rfl⟩
      cases hfails.symm.trans hgives
    · intro more _ tx' hread
      obtain ⟨c₁, hfails⟩ := hfails more
      cases (decodeAll_eq_error hfails).symm.trans hread
  · rw [if_neg hmarked]
    have hspells := spells_encode haddressable fun hnil hone => hmarked ⟨hnil, hone⟩
    refine ⟨decode_eq_ok_iff.2 hspells, ?_, ?_⟩
    · intro front rest heq hne tx' hread
      have hwhole : front ++ rest = tx.encode ++ [] := by rw [← heq, List.append_nil]
      exact hne ((decode_eq_ok_iff.1 hread).front_unique hspells hwhole)
    · intro more hne tx' hread
      have hwhole : tx.encode ++ more ++ [] = tx.encode ++ more := List.append_nil _
      exact hne ((decode_eq_ok_iff.1 hread).front_unique hspells hwhole).symm

/-- An output alone, which starts like the form with witnesses. -/
def lone : Transaction := ⟨1, [], [⟨0, .empty⟩], 0⟩

/-- Two outputs alone. -/
def pair : Transaction := ⟨1, [], [⟨0, .empty⟩, ⟨0, .empty⟩], 0⟩

theorem decode_lone : lone.encode.length < UInt64.size ∧ pair.encode.length < UInt64.size ∧
    decode lone.encode = malformed .witness ∧ decode pair.encode = .ok pair ∧
    (∀ tx', decode (pair.encode.take 24) ≠ .ok tx') ∧
    ∀ tx', decode (lone.encode ++ [0]) ≠ .ok tx' := by
  have hlone : lone.encode.length < UInt64.size := by decide
  have hpair : pair.encode.length < UInt64.size := by decide
  refine ⟨hlone, hpair, (decode_exactly lone hlone).1, (decode_exactly pair hpair).1, ?_, ?_⟩
  · exact (decode_exactly pair hpair).2.1 _ (pair.encode.drop 24)
      (List.take_append_drop ..).symm (by decide)
  · exact (decode_exactly lone hlone).2.2 [0] (by decide)

end Transaction

/-! ## Drafts -/

namespace Draft

variable {d : Draft}

/-- The draft without its empty unlocking scripts. -/
def settled (d : Draft) : Draft :=
  { d with inputs := d.inputs.map fun input =>
      { input with unlocking := input.unlocking.filter fun script => !script.isEmpty } }

theorem bare_settled (d : Draft) : d.settled.bare = d.bare := by
  simp [settled, bare]

theorem length_settled (d : Draft) : d.settled.inputs.length = d.inputs.length :=
  List.length_map ..

theorem ofTransaction_withScripts (d : Draft) :
    ofTransaction (d.withScripts fun _ input => input.unlocking.getD .empty) = d.settled := by
  have hscript (unlocking : Option Script) :
      (if (unlocking.getD .empty).isEmpty then none else some (unlocking.getD .empty)) =
        unlocking.filter fun script => !script.isEmpty := by
    cases unlocking with
    | none => rfl
    | some script => by_cases hempty : script.isEmpty <;> simp [hempty, Option.filter]
  have hinputs : (ofTransaction (d.withScripts fun _ input =>
      input.unlocking.getD .empty)).inputs = d.settled.inputs := by
    refine List.ext_getElem? fun i => ?_
    simp only [ofTransaction, withScripts, settled, List.getElem?_map, List.getElem?_mapIdx,
      Option.map_map, Function.comp_def, hscript]
  exact congrArg (Draft.mk d.version · d.outputs d.lockTime) hinputs

theorem encode_ofTransaction (tx : Transaction) : (ofTransaction tx).encode = tx.encode := by
  have hscript (script : Script) :
      (if script.isEmpty then none else some script).getD .empty = script := by
    by_cases hempty : script.isEmpty
    · rw [if_pos hempty]
      exact congrArg Script.mk (List.isEmpty_iff.1 hempty).symm
    · rw [if_neg hempty]
      rfl
  have hinputs : ((ofTransaction tx).withScripts fun _ input =>
      input.unlocking.getD .empty).inputs = tx.inputs := by
    refine List.ext_getElem? fun i => ?_
    simp only [ofTransaction, withScripts, List.getElem?_map, List.getElem?_mapIdx,
      Option.map_map, Function.comp_def, hscript, Option.map_id']
  exact congrArg (fun inputs => Transaction.encode ⟨tx.version, inputs, tx.outputs, tx.lockTime⟩)
    hinputs

/-- A draft with inputs reads back without its empty scripts. -/
theorem decode_encode (haddressable : d.encode.length < UInt64.size) (hinputs : d.inputs ≠ []) :
    decode d.encode = .ok d.settled := by
  have hread : Transaction.decode d.encode = .ok (d.withScripts fun _ input =>
      input.unlocking.getD .empty) := by
    refine Transaction.decode_encode haddressable ?_
    intro hnone
    exact absurd (List.mapIdx_eq_nil_iff.1 hnone) hinputs
  rw [decode, hread, ← ofTransaction_withScripts]
  rfl

end Draft

end Wager
