import Wager.Peer.Mailbox
import Wager.Peer.Negotiation
import Wager.Proofs.Checks
import Wager.Proofs.PublicKeys
import Wager.Proofs.Takings
import Wager.Proofs.Texts

/-!
# What a sent bet is read as

A bet that may be sent (`Bet.Sendable`) passes the check, names keys of its own network and has a
channel that was made from names. Its parts read back one after the other, each from the bytes that
write it.

**The bounds** on the committee are read as counts, although nothing that follows them is counted by
them. So a bet is read as itself exactly when the bytes behind its largest bound are no fewer than
that bound (`Bet.readBack`). The other two bounds always pass: they are at most the number of
candidates, and each candidate takes bytes.

**Descriptors** of channels are read as they were made (`Channel.reads_as_made`), and so only from
names that can be joined and split again.

Main results: `Link.exchanges_bet`, `Channel.reads_as_made`.
-/

namespace Wager

open Exchange Cursor Decoder

variable {c c' : Cursor}

/-! ## The parts of a bet -/

theorem PublicKey.length_bytes_lt (k : PublicKey) : k.bytes.length < UInt64.size := by
  have hlen : k.bytes.length = if k.short then 33 else 65 := Spells.length_eq (.inl rfl)
  rw [hlen]
  cases k.short <;> decide

theorem PublicKey.written_bytes (k : PublicKey) : k.Written Spells (Encode.sized k.bytes) :=
  ⟨k.bytes, .inl rfl, Encode.spellsSized k.length_bytes_lt⟩

theorem PublicKey.gives_decoder {network : Network} {k : PublicKey} (hk : k.network = network)
    (h : c.Passes (Encode.sized k.bytes) c') : Gives (decoder network) c k c' :=
  recognizes_decoder.2 ⟨_, ⟨hk, k.written_bytes⟩, h⟩

theorem PublicKey.recognizes_keys {network : Network} :
    Recognizes (counted (decoder network)) (Encode.SpellsCounted fun k data =>
      k.network = network ∧ k.Written Spells data) :=
  recognizes_counted recognizes_decoder fun hkey => hkey.2.ne_nil

theorem PublicKey.gives_keys {network : Network} {keys : List PublicKey}
    (hkeys : ∀ key ∈ keys, key.network = network) (hlen : keys.length < UInt64.size)
    (h : c.Passes (Encode.count keys.length ++ keys.flatMap (Encode.sized ·.bytes)) c') :
    Gives (counted (decoder network)) c keys c' :=
  recognizes_keys.2
    ⟨_, Encode.spellsCounted hlen fun key hkey => ⟨hkeys key hkey, key.written_bytes⟩, h⟩

theorem Amounts.gives_decoder {a : Amounts} : Gives decoder c a c' ↔ c.Passes a.encode c' := by
  simp only [encode, toList, List.flatMap_cons, List.flatMap_nil, List.append_nil, passes_append]
  constructor
  · intro h
    obtain ⟨_, c₁, h₁, h⟩ := gives_bind.1 h
    obtain ⟨_, c₂, h₂, h⟩ := gives_bind.1 h
    obtain ⟨_, c₃, h₃, h⟩ := gives_bind.1 h
    obtain ⟨_, c₄, h₄, h⟩ := gives_bind.1 h
    obtain ⟨_, c₅, h₅, h⟩ := gives_bind.1 h
    obtain ⟨_, c₆, h₆, h⟩ := gives_bind.1 h
    obtain ⟨rfl, rfl⟩ := gives_pure.1 h
    exact ⟨c₁, gives_u64.1 h₁, c₂, gives_u64.1 h₂, c₃, gives_u64.1 h₃, c₄, gives_u64.1 h₄,
      c₅, gives_u64.1 h₅, gives_u64.1 h₆⟩
  · intro h
    obtain ⟨c₁, h₁, c₂, h₂, c₃, h₃, c₄, h₄, c₅, h₅, h₆⟩ := h
    refine gives_bind.2 ⟨_, c₁, gives_u64.2 h₁, gives_bind.2 ⟨_, c₂, gives_u64.2 h₂, ?_⟩⟩
    refine gives_bind.2 ⟨_, c₃, gives_u64.2 h₃, gives_bind.2 ⟨_, c₄, gives_u64.2 h₄, ?_⟩⟩
    refine gives_bind.2 ⟨_, c₅, gives_u64.2 h₅, gives_bind.2 ⟨_, c', gives_u64.2 h₆, ?_⟩⟩
    exact gives_pure.2 ⟨rfl, rfl⟩

theorem TimeUnit.ofTag_eq_ok {tag : UInt8} {u : TimeUnit} : ofTag tag = .ok u ↔ tag = u.tag := by
  rw [ofTag, Outcome.need_eq_ok]
  constructor
  · intro h
    unfold ofTag? at h
    split at h <;> cases h <;> rfl
  · rintro rfl
    exact ofTag?_tag u

theorem Timeout.gives_decoder {t : Timeout} : Gives decoder c t c' ↔ c.Passes t.encode c' := by
  rw [encode, passes_cons]
  constructor
  · intro h
    obtain ⟨tag, c₁, htag, h⟩ := gives_bind.1 h
    obtain ⟨unit, hunit, h⟩ := gives_lift_bind.1 h
    obtain ⟨value, c₂, hvalue, h⟩ := gives_bind.1 h
    obtain ⟨rfl, rfl⟩ := gives_pure.1 h
    obtain rfl := TimeUnit.ofTag_eq_ok.1 hunit
    exact ⟨c₁, gives_u8.1 htag, gives_u32.1 hvalue⟩
  · intro h
    obtain ⟨c₁, htag, hvalue⟩ := h
    refine gives_bind.2 ⟨t.unit.tag, c₁, gives_u8.2 htag, ?_⟩
    refine gives_lift_bind.2 ⟨t.unit, TimeUnit.ofTag_eq_ok.2 rfl, ?_⟩
    exact gives_bind.2 ⟨t.value, c', gives_u32.2 hvalue, gives_pure.2 ⟨rfl, rfl⟩⟩

namespace Channel

/-- The ways to write a descriptor: the length of its text may take any width. -/
def Spells (channel : Channel) (data : Bytes) : Prop :=
  ∃ text, Encode.SpellsSized (Utf8.encode channel.text) text ∧ data = tag :: text

theorem recognizes_decoder : Recognizes decoder fun channel data =>
    secure channel.parties = .ok channel ∧ channel.Spells data := by
  intro c channel c'
  constructor
  · intro h
    obtain ⟨kind, c₁, hkind, h⟩ := gives_bind.1 h
    obtain ⟨payload, c₂, hpayload, h⟩ := gives_bind.1 h
    by_cases htag : kind = tag
    · rw [if_pos htag] at h
      split at h
      · next text htext =>
        obtain ⟨hsecure, rfl⟩ := gives_lift.1 h
        obtain ⟨data, hdata, hpass⟩ := recognizes_sized.1 hpayload
        have hparties : channel = ⟨(split text.toList).map String.ofList⟩ :=
          (secure_eq_ok_iff.1 hsecure).2.2
        rw [← Utf8.encode_of_decode htext, ← text_of_secure_split hsecure] at hdata
        refine ⟨tag :: data, ⟨?_, data, hdata, rfl⟩, ?_⟩
        · rwa [hparties] at hsecure ⊢
        · exact passes_cons.2 ⟨c₁, gives_u8.1 (htag ▸ hkind), hpass⟩
      · exact absurd h not_gives_throw
    · rw [if_neg htag] at h
      exact absurd h not_gives_throw
  · intro h
    obtain ⟨_, ⟨hsecure, text, htext, rfl⟩, hpass⟩ := h
    obtain ⟨c₁, htag, hpass⟩ := passes_cons.1 hpass
    refine gives_bind.2 ⟨tag, c₁, gives_u8.2 htag, ?_⟩
    refine gives_bind.2 ⟨_, c', recognizes_sized.2 ⟨text, htext, hpass⟩, ?_⟩
    rw [if_pos rfl, Utf8.decode_encode]
    exact gives_lift.2 ⟨secure_split hsecure, rfl⟩

theorem gives_decoder {parties : List String} {channel : Channel}
    (hsecure : secure parties = .ok channel)
    (hlen : (Utf8.encode channel.text).length < UInt64.size) (h : c.Passes channel.encode c') :
    Gives decoder c channel c' := by
  obtain rfl := (secure_eq_ok_iff.1 hsecure).2.2
  exact recognizes_decoder.2 ⟨_, ⟨hsecure, _, Encode.spellsSized hlen, rfl⟩, h⟩

theorem decode_eq_ok_iff {data : Bytes} {channel : Channel} :
    decode data = .ok channel ↔ secure channel.parties = .ok channel ∧ channel.Spells data :=
  recognizes_decoder.decodeAll_eq_ok

/-- The written form spells the descriptor unless its text has no length. -/
theorem spells_encode_iff (channel : Channel) :
    channel.Spells channel.encode ↔ (Utf8.encode channel.text).length < UInt64.size := by
  constructor
  · intro h
    obtain ⟨_, ⟨size, hsize, -⟩, -⟩ := h
    exact hsize.lt
  · intro hlen
    exact ⟨_, Encode.spellsSized hlen, rfl⟩

/-- Names that make a descriptor are read back from it in their order, whatever commas and spaces
they begin and end with, as long as the length of their text is a word. And whatever is read is what
its own names make: the byte string is the written one but for the width of that length. -/
theorem reads_as_made :
    (∀ parties channel, secure parties = .ok channel → channel.parties = parties ∧
      (decode channel.encode = .ok channel ↔
        (Utf8.encode channel.text).length < UInt64.size)) ∧
    ∀ data channel, decode data = .ok channel ↔
      secure channel.parties = .ok channel ∧ channel.Spells data := by
  refine ⟨fun parties channel hsecure => ?_, fun data channel => decode_eq_ok_iff⟩
  obtain rfl := (secure_eq_ok_iff.1 hsecure).2.2
  refine ⟨rfl, ?_⟩
  rw [decode_eq_ok_iff, and_iff_right hsecure, spells_encode_iff]

example : decode (encode ⟨["a,", " b", ",", " "]⟩) = .ok ⟨["a,", " b", ",", " "]⟩ := by
  cbv

end Channel

namespace Bet

/-- A bet that its owner may send, over a channel between these parties. -/
structure Sendable (b : Bet) (parties : List String) : Prop where
  checked : b.check = .ok ()
  candidates : ∀ key ∈ b.candidates, key.network = b.network
  players : ∀ key ∈ b.players.toList, key.network = b.network
  channel : Channel.secure parties = .ok b.channel
  /-- The encoding has an addressable length. -/
  addressable : b.encode.length < UInt64.size

/-- The bytes behind the largest bound on the committee. -/
def behindMost (b : Bet) : Bytes :=
  Encode.compact b.required ++
    ((Encode.count b.oracles.length ++ b.oracles.flatMap (Encode.sized ·.bytes)) ++
      ((Encode.count b.backups.length ++ b.backups.flatMap (Encode.sized ·.bytes)) ++
        (Encode.sized b.players.a.bytes ++ (Encode.sized b.players.b.bytes ++
          (b.amounts.encode ++ (b.timeout.encode ++ b.channel.encode))))))

/-- What the peer reads. -/
def readBack (b : Bet) : Outcome Bet :=
  if b.maxOracles.toNat ≤ b.behindMost.length then .ok b
  else malformed (.lengthBeyond b.maxOracles b.behindMost.length)

variable {b : Bet} {parties : List String}

theorem encode_eq (b : Bet) : b.encode = betMagic ++ b.network.tag ::
    (Encode.sized (Utf8.encode b.description) ++
      (Encode.compact b.minOracles ++ (Encode.compact b.maxOracles ++ b.behindMost))) := rfl

/-- Each candidate takes bytes behind the bounds. -/
theorem length_candidates_le (b : Bet) :
    (Encode.compact b.required).length + b.candidates.length ≤ b.behindMost.length := by
  have hkeys (keys : List PublicKey) : keys.length ≤
      (keys.flatMap (Encode.sized ·.bytes)).length :=
    length_le_length_flatMap fun key _ => Encode.sized_ne_nil key.bytes
  have horacles := hkeys b.oracles
  have hbackups := hkeys b.backups
  simp only [behindMost, candidates, List.length_append]
  omega

/-- The reads up to the largest bound. -/
theorem reads_front (h : b.Sendable parties) : ∃ c₁ c₂ c₃ c₄ c₅ : Cursor,
    Gives (bytes 4) (start b.encode) betMagic c₁ ∧ Gives u8 c₁ b.network.tag c₂ ∧
    Gives sized c₂ (Utf8.encode b.description) c₃ ∧ Gives length c₃ b.minOracles.toNat c₄ ∧
    resultIn length c₄ = (if b.maxOracles.toNat ≤ b.behindMost.length then .ok b.maxOracles.toNat
      else malformed (.lengthBeyond b.maxOracles b.behindMost.length), c₅) ∧
    c₅.Passes b.behindMost ⟨0 + b.encode.length, []⟩ := by
  have haddressable := h.addressable
  have hencode : (start b.encode).Passes b.encode ⟨0 + b.encode.length, []⟩ :=
    ⟨by simp [start], by simp [start]⟩
  have hdescription : (Utf8.encode b.description).length < UInt64.size := by
    simp only [encode_eq, Encode.sized, List.length_append, List.length_cons] at haddressable
    omega
  rw [encode_eq b, passes_append] at hencode
  obtain ⟨c₁, h₁, hencode⟩ := hencode
  obtain ⟨c₂, h₂, hencode⟩ := passes_cons.1 hencode
  obtain ⟨c₃, h₃, hencode⟩ := passes_append.1 hencode
  obtain ⟨c₄, h₄, hencode⟩ := passes_append.1 hencode
  obtain ⟨c₅, h₅, hrest⟩ := passes_append.1 hencode
  have hminimum := resultIn_length h₄
  have hmost := resultIn_length h₅
  have hle : b.minOracles.toNat ≤ c₄.remaining := by
    have hbounds := (bounds_le h.checked).2
    have hcandidates := b.length_candidates_le
    simp only [remaining, hencode.1, List.length_append]
    omega
  have hremaining : c₅.remaining = b.behindMost.length := by simp [remaining, hrest.1]
  rw [if_pos hle] at hminimum
  rw [hremaining] at hmost
  exact ⟨c₁, c₂, c₃, c₄, c₅, gives_bytes.2 ⟨rfl, h₁⟩, gives_u8.2 h₂, gives_sized hdescription h₃,
    hminimum, hmost, by rwa [← encode_eq] at hrest⟩

/-- The reads behind the largest bound. -/
theorem reads_behindMost (h : b.Sendable parties) {c₀ : Cursor} {p : Nat}
    (hrest : c₀.Passes b.behindMost ⟨p, []⟩) : ∃ c₁ c₂ c₃ c₄ c₅ c₆ c₇ : Cursor,
    Gives length c₀ b.required.toNat c₁ ∧
    Gives (counted (PublicKey.decoder b.network)) c₁ b.oracles c₂ ∧
    Gives (counted (PublicKey.decoder b.network)) c₂ b.backups c₃ ∧
    Gives (PublicKey.decoder b.network) c₃ b.players.a c₄ ∧
    Gives (PublicKey.decoder b.network) c₄ b.players.b c₅ ∧
    Gives Amounts.decoder c₅ b.amounts c₆ ∧ Gives Timeout.decoder c₆ b.timeout c₇ ∧
    Gives Channel.decoder c₇ b.channel ⟨p, []⟩ := by
  have haddressable := h.addressable
  have hchannel : (Utf8.encode b.channel.text).length < UInt64.size := by
    simp only [encode_eq, behindMost, Channel.encode, Encode.sized, List.length_append,
      List.length_cons] at haddressable
    omega
  have hcandidates := b.length_candidates_le
  rw [encode_eq] at haddressable
  simp only [candidates, List.length_append, List.length_cons] at hcandidates haddressable
  have hall := hrest.1
  obtain ⟨c₁, h₁, hrest⟩ := passes_append.1 hrest
  have hle : b.required.toNat ≤ c₁.remaining := by
    have hbounds := (bounds_le h.checked).1
    have hsplit := congrArg List.length (hall.symm.trans h₁.1)
    simp only [candidates, List.length_append, List.length_nil] at hbounds hsplit
    rw [remaining]
    omega
  obtain ⟨c₂, h₂, hrest⟩ := passes_append.1 hrest
  obtain ⟨c₃, h₃, hrest⟩ := passes_append.1 hrest
  obtain ⟨c₄, h₄, hrest⟩ := passes_append.1 hrest
  obtain ⟨c₅, h₅, hrest⟩ := passes_append.1 hrest
  obtain ⟨c₆, h₆, hrest⟩ := passes_append.1 hrest
  obtain ⟨c₇, h₇, h₈⟩ := passes_append.1 hrest
  have hrequired := resultIn_length h₁
  rw [if_pos hle] at hrequired
  exact ⟨c₁, c₂, c₃, c₄, c₅, c₆, c₇, hrequired,
    PublicKey.gives_keys (fun key hkey => h.candidates key (List.mem_append_left _ hkey))
      (by omega) h₂,
    PublicKey.gives_keys (fun key hkey => h.candidates key (List.mem_append_right _ hkey))
      (by omega) h₃,
    PublicKey.gives_decoder (h.players _ (by simp [Sides.toList])) h₄,
    PublicKey.gives_decoder (h.players _ (by simp [Sides.toList])) h₅, Amounts.gives_decoder.2 h₆,
    Timeout.gives_decoder.2 h₇, Channel.gives_decoder h.channel hchannel h₈⟩

theorem decode_encode (h : b.Sendable parties) : decode b.encode = b.readBack := by
  obtain ⟨c₁, c₂, c₃, c₄, c₅, hmagic, htag, hdescription, hmin, hmost, hrest⟩ := reads_front h
  have htext : decodeDescription (Utf8.encode b.description) = .ok b.description := by
    rw [decodeDescription, Utf8.decode_encode]
  unfold readBack
  split
  · next hfits =>
    rw [if_pos hfits] at hmost
    obtain ⟨d₁, d₂, d₃, d₄, d₅, d₆, d₇, hrequired, horacles, hbackups, ha, hb, hamounts, htimeout,
      hchannel⟩ := reads_behindMost h hrest
    refine decodeAll_eq_ok (p := 0 + b.encode.length) (gives_bind.2 ⟨_, c₁, hmagic, ?_⟩)
    refine gives_unless.2 ⟨not_not.2 rfl, gives_bind.2 ⟨_, c₂, htag, ?_⟩⟩
    refine gives_bind.2 ⟨b.network, c₂, gives_lift.2 ⟨Network.ofTag_tag b.network, rfl⟩, ?_⟩
    refine gives_bind.2 ⟨_, c₃, hdescription, gives_bind.2 ⟨_, c₃, gives_lift.2 ⟨htext, rfl⟩, ?_⟩⟩
    refine gives_bind.2 ⟨_, c₄, hmin, gives_bind.2 ⟨_, c₅, hmost, ?_⟩⟩
    refine gives_bind.2 ⟨_, d₁, hrequired, gives_bind.2 ⟨_, d₂, horacles, ?_⟩⟩
    refine gives_bind.2 ⟨_, d₃, hbackups, gives_bind.2 ⟨_, d₄, ha, gives_bind.2 ⟨_, d₅, hb, ?_⟩⟩⟩
    refine gives_bind.2 ⟨_, d₆, hamounts, gives_bind.2 ⟨_, d₇, htimeout, ?_⟩⟩
    refine gives_bind.2 ⟨_, _, hchannel, gives_pure.2 ⟨?_, rfl⟩⟩
    simp only [UInt64.ofNat_toNat]
  · next hfits =>
    rw [if_neg hfits] at hmost
    have hfails : resultIn decoder (start b.encode) =
        (malformed (.lengthBeyond b.maxOracles b.behindMost.length), c₅) := by
      unfold decoder
      rw [resultIn_bind_of_gives hmagic, if_neg (not_not.2 rfl), resultIn_bind_of_gives htag,
        Network.ofTag_tag, resultIn_bind_of_ok rfl, resultIn_bind_of_gives hdescription, htext,
        resultIn_bind_of_ok rfl, resultIn_bind_of_gives hmin, resultIn_bind, hmost]
      rfl
    exact decodeAll_eq_error hfails

end Bet

/-! ## Over the link -/

/-- A bet that is sent arrives as it is read back: as itself whenever its largest bound is at most
the number of bytes behind it, and otherwise the peer refuses it. -/
theorem Link.exchanges_bet {σ : Type} (link : Link σ) {b : Bet} {parties : List String}
    (h : b.Sendable parties) :
    Bet.decode b.encode = b.readBack ∧ link.sendBet b = link.send .bet b.encode ∧
      ∀ {w w' : σ}, (link.receive .bet).Gives w (some b.encode) w' →
        link.receiveBet.resultIn w = (b.readBack, w') := by
  have hdecode := Bet.decode_encode h
  refine ⟨hdecode, ?_, fun {w w'} hreceive => ?_⟩
  · rw [sendBet, h.checked]
    rfl
  · have hexpect : (link.expect .bet).Gives w b.encode w' :=
      gives_bind.2 ⟨_, w', hreceive, gives_pure.2 ⟨rfl, rfl⟩⟩
    rw [receiveBet, resultIn_bind_of_gives hexpect, hdecode, Bet.readBack]
    by_cases hfits : b.maxOracles.toNat ≤ b.behindMost.length
    · rw [if_pos hfits, resultIn_bind_of_gives (gives_lift.2 ⟨rfl, rfl⟩)]
      exact resultIn_bind_of_gives (gives_lift.2 ⟨h.checked, rfl⟩)
    · rw [if_neg hfits]
      rfl

theorem Mailbox.gives_receive_deliver (topic : Topic) (message : Bytes) :
    (link.receive topic).Gives (empty.deliver topic message) (some message) empty := by
  have hdelivered := receive_deliver empty topic message fun _ h => absurd h List.not_mem_nil
  exact (link_receive topic _).trans (by rw [hdelivered])

/-- A bet with one candidate that would take a million oracles. -/
def Bet.roomy : Bet where
  network := .testnet
  description := ""
  minOracles := 1
  maxOracles := 1000000
  required := 1
  oracles := Contract.greedy.committee.map (·.oracle)
  backups := []
  players := Contract.greedy.players
  amounts := ⟨0, 0, 1, 0, 0, 0⟩
  timeout := ⟨.hours, 1⟩
  channel := ⟨["a", "b"]⟩

theorem Bet.roomy_sendable : Bet.roomy.Sendable ["a", "b"] where
  checked := by decide
  candidates := by decide
  players := by decide
  channel := by decide
  addressable := by decide +kernel

theorem Bet.length_behindMost_roomy : Bet.roomy.behindMost.length = 164 := by decide +kernel

/-- The terms are coherent and the message is delivered, but the peer refuses it. -/
theorem Link.refuses_roomy : Bet.roomy.Sendable ["a", "b"] ∧
    Mailbox.link.receiveBet.resultIn (Mailbox.empty.deliver .bet Bet.roomy.encode) =
      (malformed (.lengthBeyond 1000000 164), Mailbox.empty) := by
  have hreceive := Mailbox.gives_receive_deliver .bet Bet.roomy.encode
  refine ⟨Bet.roomy_sendable, ?_⟩
  rw [(exchanges_bet Mailbox.link Bet.roomy_sendable).2.2 hreceive, Bet.readBack,
    Bet.length_behindMost_roomy]
  rfl

end Wager
