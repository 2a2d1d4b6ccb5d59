import Wager.Proofs.Bets
import Wager.Proofs.Transactions

/-!
# What is written in more than one way

The reader takes a count in any width, the writer uses the least. So the bytes that are read as a
value are the ones that it is written in, or they are more of them (`Encode.Widens`): each part that
can be written in several ways is shortest as the writer writes it, and two spellings of a count in
the same width are the same.

**Bets** have keys, and a key that is written long may state its parity in its first byte. This is
the one difference between spellings that their length does not show. The parts of a bet that can be
written in several ways form a `Bet.Spelling`.

Main result: `accepted_spellings`.
-/

namespace Wager

open Exchange Cursor

/-! ## The shortest spelling -/

namespace Encode

/-- The second byte string is the first or a longer one. -/
def Widens (short data : Bytes) : Prop := data = short ∨ short.length < data.length

variable {short data short' data' : Bytes}

theorem Widens.refl (data : Bytes) : Widens data data := .inl rfl

theorem Widens.append (h : Widens short data) (h' : Widens short' data') :
    Widens (short ++ short') (data ++ data') := by
  rcases h with rfl | h <;> rcases h' with rfl | h'
  · exact .inl rfl
  all_goals
    right
    simp only [List.length_append]
    omega

theorem Widens.cons (b : UInt8) (h : Widens short data) : Widens (b :: short) (b :: data) :=
  (Widens.refl [b]).append h

theorem Widens.length_le (h : Widens short data) : short.length ≤ data.length := by
  rcases h with rfl | h
  · exact Nat.le_refl _
  · exact Nat.le_of_lt h

theorem Widens.eq_iff (h : Widens short data) : short = data ↔ short.length = data.length := by
  constructor
  · exact congrArg List.length
  · intro hlen
    rcases h with rfl | h
    · rfl
    · omega

/-- A number has one spelling in each width. -/
theorem Spells.eq_of_length_eq {n m : Nat} (h : Spells n data) (h' : Spells m data') (hnm : n = m)
    (hlen : data.length = data'.length) : data = data' := by
  cases h <;> cases h' <;> simp only [u16, u32, u64, List.length_cons, List.length_nil,
    length_littleEndian, Nat.reduceAdd, Nat.reduceEqDiff, OfNat.ofNat_ne_one] at hlen ⊢
  · rw [UInt8.toNat_inj.1 hnm]
  all_goals rw [hnm]

theorem length_count_le {n : Nat} (h : Spells n data) : (count n).length ≤ data.length := by
  have hword : (UInt64.ofNat n).toNat = n := UInt64.toNat_ofNat_of_lt' h.lt
  have hsize : (count n).length =
      if n < 253 then 1 else if n ≤ 65535 then 3 else if n ≤ 4294967295 then 5 else 9 := by
    rw [count, length_compact, compactSize]
    simp only [UInt64.lt_iff_toNat_lt, UInt64.le_iff_toNat_le, hword]
    rfl
  rw [hsize]
  cases h with
  | byte m hm => exact (if_pos (UInt8.lt_iff_toNat_lt.1 hm)).le
  | short m =>
    have hlt := m.toNat_lt
    simp only [u16, List.length_cons, length_littleEndian]
    split_ifs <;> omega
  | word m =>
    have hlt := m.toNat_lt
    simp only [u32, List.length_cons, length_littleEndian]
    split_ifs <;> omega
  | long m =>
    simp only [u64, List.length_cons, length_littleEndian]
    split_ifs <;> omega

/-- The writer chooses the least width. -/
theorem Spells.widens {n : Nat} (h : Spells n data) : Widens (count n) data := by
  rcases Nat.lt_or_ge (count n).length data.length with hlt | hge
  · exact .inr hlt
  · have hlen : data.length = (count n).length := Nat.le_antisymm hge (length_count_le h)
    exact .inl (h.eq_of_length_eq (spells_count h.lt) rfl hlen)

theorem SpellsSized.widens {payload : Bytes} (h : SpellsSized payload data) :
    Widens (sized payload) data := by
  obtain ⟨size, hsize, rfl⟩ := h
  exact hsize.widens.append (.refl payload)

variable {α : Type} {R : α → Bytes → Prop} {write : α → Bytes} {xs : List α}

theorem Row.widens (h : Row R xs data) (hR : ∀ {x data}, R x data → Widens (write x) data) :
    Widens (xs.flatMap write) data := by
  induction h with
  | nil => exact .refl []
  | cons hx _ ih =>
    rw [List.flatMap_cons]
    exact (hR hx).append ih

theorem SpellsCounted.widens (h : SpellsCounted R xs data)
    (hR : ∀ {x data}, R x data → Widens (write x) data) :
    Widens (count xs.length ++ xs.flatMap write) data := by
  obtain ⟨size, row, hsize, hrow, rfl⟩ := h
  exact hsize.widens.append (hrow.widens hR)

end Encode

open Encode

/-! ## Transactions -/

theorem Input.Spells.widens {i : Input} {data : Bytes} (h : i.Spells data) :
    Widens i.encode data := by
  obtain ⟨script, hscript, rfl⟩ := h
  rw [encode, List.append_assoc]
  exact (Widens.refl _).append (hscript.widens.append (.refl _))

theorem Output.Spells.widens {o : Output} {data : Bytes} (h : o.Spells data) :
    Widens o.encode data := by
  obtain ⟨script, hscript, rfl⟩ := h
  exact (Widens.refl _).append hscript.widens

theorem Transaction.Spells.widens {tx : Transaction} {data : Bytes} (h : tx.Spells data) :
    Widens tx.encode data := by
  obtain ⟨inputs, outputs, hinputs, houtputs, -, rfl⟩ := h
  have hbody := (hinputs.widens Input.Spells.widens).append
    ((houtputs.widens Output.Spells.widens).append (Widens.refl (u32 tx.lockTime)))
  simp only [List.append_assoc] at hbody
  exact (Widens.refl _).append hbody

/-! ## Bets -/

/-- A key is written as the writer writes it. -/
def PublicKey.Plain (k : PublicKey) (data : Bytes) : Prop := data = k.bytes

theorem PublicKey.Written.widens {k : PublicKey} {data : Bytes} (h : k.Written Plain data) :
    Widens (sized k.bytes) data := by
  obtain ⟨_, rfl, hsized⟩ := h
  exact hsized.widens

theorem PublicKey.written_plain (k : PublicKey) : k.Written Plain (sized k.bytes) :=
  ⟨k.bytes, rfl, spellsSized k.length_bytes_lt⟩

theorem Channel.Spells.widens {channel : Channel} {data : Bytes} (h : channel.Spells data) :
    Widens channel.encode data := by
  obtain ⟨text, htext, rfl⟩ := h
  exact htext.widens.cons tag

theorem Network.ofTag_eq_ok {tag : UInt8} {network : Network} :
    ofTag tag = .ok network ↔ tag = network.tag := by
  constructor
  · intro h
    unfold ofTag at h
    split at h
    · cases h
      rfl
    · cases h
      rfl
    · cases h
  · rintro rfl
    exact ofTag_tag network

namespace Bet

/-- The parts of an encoded bet that can be written in several ways. -/
structure Spelling where
  description : Bytes
  minOracles : Bytes
  maxOracles : Bytes
  required : Bytes
  oracles : Bytes
  backups : Bytes
  playerA : Bytes
  playerB : Bytes
  channel : Bytes

namespace Spelling

def bytes (s : Spelling) (b : Bet) : Bytes :=
  betMagic ++ b.network.tag :: (s.description ++ (s.minOracles ++ (s.maxOracles ++ (s.required ++
    (s.oracles ++ (s.backups ++ (s.playerA ++ (s.playerB ++ (b.amounts.encode ++
      (b.timeout.encode ++ s.channel))))))))))

/-- The parts spell those of the bet, with each key in one of the forms. -/
structure Of (form : PublicKey → Bytes → Prop) (s : Spelling) (b : Bet) : Prop where
  description : SpellsSized (Utf8.encode b.description) s.description
  minOracles : Spells b.minOracles.toNat s.minOracles
  maxOracles : Spells b.maxOracles.toNat s.maxOracles
  required : Spells b.required.toNat s.required
  oracles : SpellsCounted (PublicKey.Written form) b.oracles s.oracles
  backups : SpellsCounted (PublicKey.Written form) b.backups s.backups
  playerA : b.players.a.Written form s.playerA
  playerB : b.players.b.Written form s.playerB
  channel : b.channel.Spells s.channel

end Spelling

/-- What the writer writes. -/
def spelling (b : Bet) : Spelling where
  description := sized (Utf8.encode b.description)
  minOracles := compact b.minOracles
  maxOracles := compact b.maxOracles
  required := compact b.required
  oracles := count b.oracles.length ++ b.oracles.flatMap (sized ·.bytes)
  backups := count b.backups.length ++ b.backups.flatMap (sized ·.bytes)
  playerA := sized b.players.a.bytes
  playerB := sized b.players.b.bytes
  channel := b.channel.encode

/-- The ways to write a bet with each key in one of the forms. -/
def Spells (form : PublicKey → Bytes → Prop) (b : Bet) (data : Bytes) : Prop :=
  ∃ s : Spelling, s.Of form b ∧ data = s.bytes b

variable {b : Bet} {form : PublicKey → Bytes → Prop} {data : Bytes}

theorem bytes_spelling (b : Bet) : b.spelling.bytes b = b.encode := rfl

/-- What can be written at all can be written as the writer does. -/
theorem Spells.encode (h : b.Spells form data) : b.Spells PublicKey.Plain b.encode := by
  obtain ⟨s, h, -⟩ := h
  obtain ⟨_, hdescription, -⟩ := h.description
  obtain ⟨_, _, horacles, -⟩ := h.oracles
  obtain ⟨_, _, hbackups, -⟩ := h.backups
  obtain ⟨_, ⟨_, hchannel, -⟩, -⟩ := h.channel
  refine ⟨b.spelling, ⟨?_, ?_, ?_, ?_, ?_, ?_, ?_, ?_, ?_⟩, (bytes_spelling b).symm⟩
  · exact spellsSized hdescription.lt
  · exact spells_compact b.minOracles
  · exact spells_compact b.maxOracles
  · exact spells_compact b.required
  · exact spellsCounted horacles.lt fun k _ => k.written_plain
  · exact spellsCounted hbackups.lt fun k _ => k.written_plain
  · exact b.players.a.written_plain
  · exact b.players.b.written_plain
  · exact ⟨_, spellsSized hchannel.lt, rfl⟩

theorem Spells.widens (h : b.Spells PublicKey.Plain data) : Widens b.encode data := by
  obtain ⟨s, h, rfl⟩ := h
  have hbound {n : UInt64} {data : Bytes} (h : Encode.Spells n.toNat data) :
      Widens (compact n) data := by
    have hwidens := h.widens
    rwa [count, UInt64.ofNat_toNat] at hwidens
  refine (Widens.refl betMagic).append (.cons _ (h.description.widens.append ?_))
  refine (hbound h.minOracles).append ((hbound h.maxOracles).append ?_)
  refine (hbound h.required).append ((h.oracles.widens PublicKey.Written.widens).append ?_)
  refine (h.backups.widens PublicKey.Written.widens).append (h.playerA.widens.append ?_)
  refine h.playerB.widens.append ((Widens.refl _).append ((Widens.refl _).append ?_))
  exact h.channel.widens

theorem encode_of_decodeDescription {text : String}
    (h : decodeDescription data = .ok text) : Utf8.encode text = data := by
  unfold decodeDescription at h
  split at h
  · next found hfound =>
    obtain rfl := Except.ok.inj h
    exact Utf8.encode_of_decode hfound
  · cases h

theorem spells_of_gives_length {n : Nat} {c c' : Cursor} (h : Gives Decoder.length c n c') :
    ∃ data, Encode.Spells (UInt64.ofNat n).toNat data ∧ c.Passes data c' := by
  obtain ⟨⟨data, hspells, hpass⟩, -⟩ := Decoder.gives_length_iff.1 h
  refine ⟨data, ?_, hpass⟩
  rwa [UInt64.toNat_ofNat_of_lt' hspells.lt]

/-- Whatever is read as a bet is one of the ways to write it. -/
theorem spells_of_decode (h : decode data = .ok b) : b.Spells PublicKey.Spells data := by
  obtain ⟨p, h⟩ := Decoder.decodeAll_eq_ok_iff.1 h
  obtain ⟨magic, c₁, hmagic, h⟩ := gives_bind.1 h
  obtain ⟨heq, h⟩ := gives_unless.1 h
  obtain ⟨tag, c₂, htag, h⟩ := gives_bind.1 h
  obtain ⟨network, hnetwork, h⟩ := gives_lift_bind.1 h
  obtain ⟨text, c₃, htext, h⟩ := gives_bind.1 h
  obtain ⟨description, hdescription, h⟩ := gives_lift_bind.1 h
  obtain ⟨minOracles, c₄, hmin, h⟩ := gives_bind.1 h
  obtain ⟨maxOracles, c₅, hmax, h⟩ := gives_bind.1 h
  obtain ⟨required, c₆, hrequired, h⟩ := gives_bind.1 h
  obtain ⟨oracles, c₇, horacles, h⟩ := gives_bind.1 h
  obtain ⟨backups, c₈, hbackups, h⟩ := gives_bind.1 h
  obtain ⟨playerA, c₉, hplayerA, h⟩ := gives_bind.1 h
  obtain ⟨playerB, c₁₀, hplayerB, h⟩ := gives_bind.1 h
  obtain ⟨amounts, c₁₁, hamounts, h⟩ := gives_bind.1 h
  obtain ⟨timeout, c₁₂, htimeout, h⟩ := gives_bind.1 h
  obtain ⟨channel, c₁₃, hchannel, h⟩ := gives_bind.1 h
  obtain ⟨rfl, rfl⟩ := gives_pure.1 h
  obtain rfl := not_not.1 heq
  obtain ⟨-, hmagic⟩ := Decoder.gives_bytes.1 hmagic
  rw [Decoder.gives_u8, Network.ofTag_eq_ok.1 hnetwork] at htag
  obtain ⟨d, hd, hdpass⟩ := Decoder.recognizes_sized.1 htext
  rw [← encode_of_decodeDescription hdescription] at hd
  obtain ⟨m₁, hm₁, hm₁pass⟩ := spells_of_gives_length hmin
  obtain ⟨m₂, hm₂, hm₂pass⟩ := spells_of_gives_length hmax
  obtain ⟨m₃, hm₃, hm₃pass⟩ := spells_of_gives_length hrequired
  obtain ⟨o, ho, hopass⟩ := PublicKey.recognizes_keys.1 horacles
  obtain ⟨k, hk, hkpass⟩ := PublicKey.recognizes_keys.1 hbackups
  obtain ⟨a, ha, hapass⟩ := PublicKey.recognizes_decoder.1 hplayerA
  obtain ⟨e, he, hepass⟩ := PublicKey.recognizes_decoder.1 hplayerB
  obtain ⟨f, hf, hfpass⟩ := Channel.recognizes_decoder.1 hchannel
  refine ⟨⟨d, m₁, m₂, m₃, o, k, a, e, f⟩, ⟨hd, hm₁, hm₂, hm₃, ho.mono And.right, hk.mono And.right,
    ha.2, he.2, hf.2⟩, ?_⟩
  refine Eq.trans (And.left (?_ : (start data).Passes _ ⟨p, []⟩)) (List.append_nil _)
  refine passes_append.2 ⟨c₁, hmagic, passes_cons.2 ⟨c₂, htag, passes_append.2 ⟨c₃, hdpass, ?_⟩⟩⟩
  refine passes_append.2 ⟨c₄, hm₁pass, passes_append.2 ⟨c₅, hm₂pass, ?_⟩⟩
  refine passes_append.2 ⟨c₆, hm₃pass, passes_append.2 ⟨c₇, hopass, ?_⟩⟩
  refine passes_append.2 ⟨c₈, hkpass, passes_append.2 ⟨c₉, hapass, ?_⟩⟩
  refine passes_append.2 ⟨c₁₀, hepass, passes_append.2 ⟨c₁₁, Amounts.gives_decoder.1 hamounts, ?_⟩⟩
  exact passes_append.2 ⟨c₁₂, Timeout.gives_decoder.1 htimeout, hfpass⟩

end Bet

/-! ## What is accepted -/

/-- A transaction is read from its spellings, and is written as what was read exactly if that is as
long as its encoding. A bet is read from spellings only; it is written as what was read exactly if
that is as long as its encoding and every key in it is one that the writer writes. -/
theorem accepted_spellings (data : Bytes) :
    (∀ tx, Transaction.decode data = .ok tx ↔ tx.Spells data) ∧
    (∀ tx, Transaction.decode data = .ok tx →
      tx.encode.length ≤ data.length ∧
      (tx.encode = data ↔ tx.encode.length = data.length) ∧
      (tx.encode.length = data.length → tx.txid = .ofDigest (doubleSha256 data))) ∧
    ∀ b, Bet.decode data = .ok b → b.Spells PublicKey.Spells data ∧
      (b.encode = data ↔ b.encode.length = data.length ∧ b.Spells PublicKey.Plain data) := by
  refine ⟨fun _ => Transaction.decode_eq_ok_iff, fun tx h => ?_, fun b h => ?_⟩
  · have hwidens := (Transaction.decode_eq_ok_iff.1 h).widens
    refine ⟨hwidens.length_le, hwidens.eq_iff, fun hlen => ?_⟩
    rw [Transaction.txid, hwidens.eq_iff.2 hlen]
  · have hspells := Bet.spells_of_decode h
    refine ⟨hspells, fun heq => ?_, fun hplain => hplain.2.widens.eq_iff.2 hplain.1⟩
    rw [← heq]
    exact ⟨rfl, hspells.encode⟩

/-- No input and no output, with the count of inputs in three bytes. -/
def Transaction.wide : Bytes := [1, 0, 0, 0, 0xfd, 0, 0, 0, 0, 0, 0, 0]

/-- A bet with a player whose key is written long. -/
def Bet.stated : Bet :=
  { Bet.roomy with maxOracles := 1, players.a.short := false }

/-- The bet with the parity of that key in front of it. -/
def Bet.statedBytes : Bytes :=
  Spelling.bytes { stated.spelling with playerA := sized stated.players.a.point.hybrid } stated

/-- Both are read, and written otherwise. -/
theorem wide_accepted :
    (∃ tx, Transaction.decode Transaction.wide = .ok tx ∧ tx.encode ≠ Transaction.wide) ∧
    Bet.decode Bet.statedBytes = .ok Bet.stated ∧ Bet.stated.encode ≠ Bet.statedBytes ∧
    ¬ Bet.stated.Spells PublicKey.Plain Bet.statedBytes := by
  have htx : Transaction.decode Transaction.wide = .ok ⟨1, [], [], 0⟩ := by decide
  have hbet : Bet.decode Bet.statedBytes = .ok Bet.stated := by decide +kernel
  have hlen : Bet.stated.encode.length = Bet.statedBytes.length := by decide +kernel
  have hne : Bet.stated.encode ≠ Bet.statedBytes := by decide +kernel
  refine ⟨⟨_, htx, fun heq => ?_⟩, hbet, hne, fun hplain => ?_⟩
  · exact absurd (((accepted_spellings _).2.1 _ htx).2.1.1 heq) (by decide)
  · exact hne (((accepted_spellings _).2.2 _ hbet).2.2 ⟨hlen, hplain⟩)

end Wager
