import Wager.Proofs.Bets
import Wager.Proofs.Inscriptions
import Wager.Terms.Commitment

/-!
# Commitments on the ledger

The promise carries a commitment in its first output, and either player reads it from there. A
commitment whose keys are all of one network reads back for that network, whatever the number and
the form of its keys (`Commitment.ofScript_of_script`). It gets there if and only if it fits a push
(`Commitment.exists_script_iff`).

**Networks.** A commitment does not say which network its keys are of. Readers for two networks
read the same bytes and differ in nothing but the network of the keys (`Commitment.ofScript_on`).

Main result: `Commitment.reads_back`.
-/

namespace Wager

open Exchange Cursor Decoder

variable {network : Network}

/-! ## Mapped reads -/

namespace Decoder

variable {α β : Type}

theorem repeated_map (f : α → β) (read : Decoder α) (n : Nat) :
    repeated (f <$> read) n = List.map f <$> repeated read n := by
  induction n with
  | zero => simp [repeated]
  | succ n ih => simp [repeated, ih]

theorem counted_map (f : α → β) (read : Decoder α) :
    counted (f <$> read) = List.map f <$> counted read := by
  simp [counted, repeated_map]

theorem decodeAll_map (f : α → β) (read : Decoder α) (data : Bytes) :
    decodeAll (f <$> read) data = f <$> decodeAll read data := by
  have hread : (do let b ← f <$> read; finish; return b : Decoder β) =
      f <$> (do let a ← read; finish; return a : Decoder α) := by simp
  rw [decodeAll, hread]
  exact congrArg Prod.fst (resultIn_map f _ _)

end Decoder

/-! ## Keys of another network -/

/-- The same key on another network. -/
def PublicKey.on (network : Network) (k : PublicKey) : PublicKey := { k with network }

@[simp] theorem PublicKey.bytes_on (k : PublicKey) : (k.on network).bytes = k.bytes := rfl

theorem PublicKey.ofBytes_on (network network' : Network) (data : Bytes) :
    ofBytes network' data = on network' <$> ofBytes network data := by
  rw [ofBytes, ofBytes]
  split
  · rfl
  · cases Curve.Point.decode? data <;> rfl

theorem PublicKey.decoder_on (network network' : Network) :
    decoder network' = on network' <$> decoder network := by
  simp [decoder, ofBytes_on network network']

namespace Commitment

/-- The commitment with its keys on another network. -/
def on (network : Network) (c : Commitment) : Commitment :=
  { c with committee := c.committee.map (PublicKey.on network) }

theorem decoder_on (network network' : Network) :
    decoder network' = on network' <$> decoder network := by
  simp only [decoder, PublicKey.decoder_on network network', counted_map, map_bind]
  refine bind_congr fun magic => ?_
  split
  · simp
  · simp [on]

/-- Readers for two networks read the same commitment, each with keys of its own network. -/
theorem ofScript_on (network network' : Network) (s : Script) :
    ofScript network' s = on network' <$> ofScript network s := by
  simp [ofScript, decode, decoder_on network network', decodeAll_map]

/-! ## Reading back -/

variable {c : Commitment} {parties : List String}

theorem length_encode (c : Commitment) : c.encode.length =
    (Encode.count c.committee.length ++ c.committee.flatMap (Encode.sized ·.bytes)).length +
      c.channel.encode.length + 24 := by
  simp only [encode, betMagic, List.length_append, List.length_cons, List.length_nil,
    Vector.length_toList]
  omega

theorem gives_decoder (hkeys : ∀ key ∈ c.committee, key.network = network)
    (hchannel : Channel.secure parties = .ok c.channel)
    (haddressable : c.encode.length < UInt64.size) {cur cur' : Cursor}
    (h : cur.Passes c.encode cur') : Gives (decoder network) cur c cur' := by
  rw [length_encode] at haddressable
  have hcommittee : c.committee.length ≤ (c.committee.flatMap (Encode.sized ·.bytes)).length :=
    length_le_length_flatMap fun key _ => Encode.sized_ne_nil key.bytes
  have htext : (Utf8.encode c.channel.text).length ≤ c.channel.encode.length := by
    simp only [Channel.encode, Encode.sized, List.length_cons, List.length_append]
    omega
  rw [List.length_append] at haddressable
  obtain ⟨c₁, hmagic, h⟩ := passes_append.1 h
  obtain ⟨c₂, hkeysRead, h⟩ := passes_append.1 h
  obtain ⟨c₃, hhash, hrest⟩ := passes_append.1 h
  refine gives_bind.2 ⟨betMagic, c₁, gives_bytes.2 ⟨rfl, hmagic⟩, ?_⟩
  refine gives_unless.2 ⟨not_not.2 rfl, ?_⟩
  refine gives_bind.2 ⟨c.committee, c₂, PublicKey.gives_keys hkeys (by omega) hkeysRead, ?_⟩
  refine gives_bind.2 ⟨c.descriptionHash, c₃, gives_block.2 hhash, ?_⟩
  refine gives_bind.2 ⟨c.channel, cur', ?_, gives_pure.2 ⟨rfl, rfl⟩⟩
  exact Channel.gives_decoder hchannel (by omega) hrest

theorem decode_encode (hkeys : ∀ key ∈ c.committee, key.network = network)
    (hchannel : Channel.secure parties = .ok c.channel)
    (haddressable : c.encode.length < UInt64.size) : decode network c.encode = .ok c :=
  decodeAll_of_passes fun _ _ => gives_decoder hkeys hchannel haddressable

theorem exists_script_iff : (∃ s, c.script = .ok s) ↔ c.encode.length ≤ Script.maxPush :=
  Script.exists_carrying_iff

/-- A commitment is read from the output that carries it. -/
theorem ofScript_of_script (hkeys : ∀ key ∈ c.committee, key.network = network)
    (hchannel : Channel.secure parties = .ok c.channel) {s : Script} (h : c.script = .ok s) :
    ofScript network s = .ok c := by
  have hfits : c.encode.length ≤ Script.maxPush :=
    Script.length_le_of_assemble h (by simp)
  have hcarried : s.carried? = some c.encode :=
    Script.carried?_of_carrying h (by simp [encode, betMagic])
  refine Outcome.bind_eq_ok.2 ⟨c.encode, Outcome.need_eq_ok.2 hcarried, ?_⟩
  exact decode_encode hkeys hchannel (Nat.lt_of_le_of_lt hfits (by decide))

/-- A commitment is read from its encoding, as far as that has an addressable length. It has a
script exactly if the encoding fits a push, and is read from that script too, whichever push the
length of the encoding takes. -/
theorem reads_back (hkeys : ∀ key ∈ c.committee, key.network = network)
    (hchannel : Channel.secure parties = .ok c.channel) :
    (c.encode.length < UInt64.size → decode network c.encode = .ok c) ∧
    ((∃ s, c.script = .ok s) ↔ c.encode.length ≤ Script.maxPush) ∧
    ∀ s, c.script = .ok s → ofScript network s = .ok c ∧
      s.size = c.encode.length +
        if c.encode.length ≤ 75 then 2 else if c.encode.length ≤ 255 then 3 else 4 := by
  refine ⟨decode_encode hkeys hchannel, exists_script_iff, fun s hs => ?_⟩
  refine ⟨ofScript_of_script hkeys hchannel hs, ?_⟩
  have hsize := Script.size_of_assemble hs
  simp only [List.map_cons, List.map_nil, List.sum_cons, List.sum_nil, Script.Piece.size] at hsize
  rw [hsize]
  split_ifs <;> omega

/-- Three oracles, two of them with a key in each form, over a channel whose names end and start
like the separator. -/
def mixed : Commitment :=
  let keys := [Contract.greedy.players.a, Contract.greedy.players.b]
  ⟨keys ++ keys.map ({ · with short := false }) ++ Contract.greedy.committee.map (·.oracle),
    .replicate 20 0, ⟨["ä,", " b"]⟩⟩

theorem mixed_reads_back : decode .testnet mixed.encode = .ok mixed ∧
    ∃ s, mixed.script = .ok s ∧ s.size = 272 ∧ ofScript .testnet s = .ok mixed := by
  have hlen : mixed.encode.length = 268 := by
    rw [length_encode]
    decide +kernel
  have hkeys : ∀ key ∈ mixed.committee, key.network = .testnet := by decide
  have hchannel : Channel.secure ["ä,", " b"] = .ok mixed.channel := rfl
  obtain ⟨hdecode, hscript, hback⟩ := reads_back hkeys hchannel
  obtain ⟨s, hs⟩ := hscript.2 (by rw [hlen]; decide)
  obtain ⟨hread, hsize⟩ := hback s hs
  rw [hlen] at hsize hdecode
  exact ⟨hdecode (by decide), s, hs, hsize, hread⟩

end Commitment

end Wager
