import Wager.Proofs.Bets

/-!
# What sent seats are read as

The seats of a committee travel behind their number, one after the other: a key behind its length,
then the two hash images, which have no length in front. A row of seats is recognized
(`Link.recognizes_seats`), so each seat is read from where the one before it ends.

**Nothing else is read.** A byte string has at most one front that spells seats. So a message that
was cut short is refused (`Link.eq_of_decodeSeats`), and so is one that goes on.

Main result: `Link.exchanges_seats`.
-/

namespace Wager

open Exchange Cursor Decoder

namespace Seat

/-- The ways to write a seat: its key may be written in several. -/
def Spells (s : Seat) (data : Bytes) : Prop :=
  ∃ key, s.oracle.Written PublicKey.Spells key ∧
    data = key ++ (s.images.a.toList ++ s.images.b.toList)

theorem Spells.ne_nil {s : Seat} {data : Bytes} (h : s.Spells data) : data ≠ [] := by
  obtain ⟨key, hkey, rfl⟩ := h
  exact List.append_ne_nil_of_left_ne_nil hkey.ne_nil _

theorem spells_encode (s : Seat) : s.Spells s.encode := ⟨_, s.oracle.written_bytes, rfl⟩

theorem recognizes_decoder {network : Network} : Recognizes (decoder network) fun s data =>
    s.oracle.network = network ∧ s.Spells data := by
  intro c s c'
  constructor
  · intro h
    obtain ⟨oracle, c₁, horacle, h⟩ := gives_bind.1 h
    obtain ⟨a, c₂, ha, h⟩ := gives_bind.1 h
    obtain ⟨b, c₃, hb, h⟩ := gives_bind.1 h
    obtain ⟨rfl, rfl⟩ := gives_pure.1 h
    obtain ⟨key, ⟨hnetwork, hkey⟩, hpass⟩ := PublicKey.recognizes_decoder.1 horacle
    refine ⟨_, ⟨hnetwork, key, hkey, rfl⟩, passes_append.2 ⟨c₁, hpass, ?_⟩⟩
    exact passes_append.2 ⟨c₂, gives_block.1 ha, gives_block.1 hb⟩
  · intro h
    obtain ⟨_, ⟨hnetwork, key, hkey, rfl⟩, hpass⟩ := h
    obtain ⟨c₁, hkeyPass, hpass⟩ := passes_append.1 hpass
    obtain ⟨c₂, ha, hb⟩ := passes_append.1 hpass
    refine gives_bind.2 ⟨s.oracle, c₁, ?_, ?_⟩
    · exact PublicKey.recognizes_decoder.2 ⟨key, ⟨hnetwork, hkey⟩, hkeyPass⟩
    refine gives_bind.2 ⟨s.images.a, c₂, gives_block.2 ha, ?_⟩
    exact gives_bind.2 ⟨s.images.b, c', gives_block.2 hb, gives_pure.2 ⟨rfl, rfl⟩⟩

end Seat

namespace Link

variable {network : Network} {committee found : List Seat} {data : Bytes}

/-! ## The seats of a committee -/

/-- The ways to write the seats of a committee whose keys are of one network. -/
def SpellsSeats (network : Network) : List Seat → Bytes → Prop :=
  Encode.SpellsCounted fun s data => s.oracle.network = network ∧ s.Spells data

theorem recognizes_seats :
    Recognizes (counted (Seat.decoder network)) (SpellsSeats network) :=
  recognizes_counted Seat.recognizes_decoder fun hseat => hseat.2.ne_nil

theorem spells_encodeSeats (hlen : committee.length < UInt64.size)
    (hkeys : ∀ seat ∈ committee, seat.oracle.network = network) :
    SpellsSeats network committee (encodeSeats committee) :=
  Encode.spellsCounted hlen fun seat hseat => ⟨hkeys seat hseat, seat.spells_encode⟩

theorem decodeSeats_eq_ok : decodeSeats network data = .ok found ↔ SpellsSeats network found data :=
  recognizes_seats.decodeAll_eq_ok

/-- No front of a written row of seats is read, except the whole. -/
theorem eq_of_decodeSeats (hwritten : SpellsSeats network committee (encodeSeats committee))
    (hfront : data <+: encodeSeats committee) (hread : decodeSeats network data = .ok found) :
    data = encodeSeats committee := by
  obtain ⟨more, hmore⟩ := hfront
  rw [← List.append_nil (encodeSeats committee)] at hmore
  exact (recognizes_seats.front_unique (decodeSeats_eq_ok.1 hread) hwritten hmore).2.1

theorem receiveSeats_eq {σ : Type} {link : Link σ} {w w' : σ}
    (hreceive : (link.receive .commitments).Gives w (some data) w') (b : Bet) :
    (link.receiveSeats b).resultIn w = (do
      let committee ← decodeSeats b.network data
      b.checkSeats committee
      return committee, w') := by
  have hexpect : (link.expect .commitments).Gives w data w' :=
    gives_bind.2 ⟨_, w', hreceive, gives_pure.2 ⟨rfl, rfl⟩⟩
  rw [receiveSeats, resultIn_bind_of_gives hexpect]
  cases hdecode : decodeSeats b.network data with
  | error fault => rfl
  | ok found =>
    rw [resultIn_bind_of_ok rfl, Outcome.ok_bind]
    cases b.checkSeats found <;> rfl

/-! ## Over the link -/

/-- The seats of a committee that the terms admit arrive as they are, in order and each with its own
images. A message that stops before its end or goes on behind it is refused. -/
theorem exchanges_seats {σ : Type} (link : Link σ) {b : Bet}
    (hseated : b.checkSeats committee = .ok ())
    (hkeys : ∀ seat ∈ committee, seat.oracle.network = b.network) :
    link.sendSeats committee = link.send .commitments (encodeSeats committee) ∧
    ∀ {w w' : σ} {data : Bytes}, (link.receive .commitments).Gives w (some data) w' →
      (data = encodeSeats committee → (link.receiveSeats b).resultIn w = (.ok committee, w')) ∧
      (data <+: encodeSeats committee → data ≠ encodeSeats committee →
        ∃ fault, (link.receiveSeats b).resultIn w = (.error fault, w')) ∧
      ∀ more ≠ [], data = encodeSeats committee ++ more → (link.receiveSeats b).resultIn w =
        (malformed (.trailing more.length (encodeSeats committee).length), w') := by
  have hwritten : SpellsSeats b.network committee (encodeSeats committee) :=
    spells_encodeSeats (Bet.length_lt_of_checkSeats hseated) hkeys
  refine ⟨rfl, fun {w w' data} hreceive => ?_⟩
  rw [receiveSeats_eq hreceive]
  refine ⟨?whole, ?front, ?behind⟩
  case whole =>
    rintro rfl
    rw [decodeSeats_eq_ok.2 hwritten, Outcome.ok_bind, hseated]
    rfl
  case front =>
    intro hfront hne
    cases hread : decodeSeats b.network data with
    | error fault => exact ⟨fault, rfl⟩
    | ok found => exact absurd (eq_of_decodeSeats hwritten hfront hread) hne
  case behind =>
    rintro more hmore rfl
    rw [decodeSeats, recognizes_seats.decodeAll_append hwritten hmore]
    rfl

/-- A bet on two oracles, one of them with a key in the long form. -/
def twoOracles : Bet :=
  let keys := Bet.roomy.oracles
  { Bet.roomy with maxOracles := 2, oracles := keys ++ keys.map ({ · with short := false }) }

/-- Their seats, with four different images. -/
def twoSeats : List Seat :=
  twoOracles.oracles.zipWith Seat.mk
    [⟨.replicate 20 1, .replicate 20 2⟩, ⟨.replicate 20 3, .replicate 20 4⟩]

theorem exchanges_twoSeats :
    (Mailbox.link.receiveSeats twoOracles).resultIn
      (Mailbox.empty.deliver .commitments (encodeSeats twoSeats)) = (.ok twoSeats, Mailbox.empty) ∧
    (∃ fault, (Mailbox.link.receiveSeats twoOracles).resultIn
      (Mailbox.empty.deliver .commitments (encodeSeats twoSeats).dropLast) =
        (.error fault, Mailbox.empty)) ∧
    (Mailbox.link.receiveSeats twoOracles).resultIn
      (Mailbox.empty.deliver .commitments (encodeSeats twoSeats ++ [0])) =
        (malformed (.trailing 1 181), Mailbox.empty) := by
  have hseated : twoOracles.checkSeats twoSeats = .ok () := by decide
  have hkeys : ∀ seat ∈ twoSeats, seat.oracle.network = twoOracles.network := by decide
  have hlen : (encodeSeats twoSeats).length = 181 := by decide +kernel
  have harrives (data : Bytes) := (exchanges_seats Mailbox.link hseated hkeys).2
    (Mailbox.gives_receive_deliver .commitments data)
  refine ⟨(harrives _).1 rfl, (harrives _).2.1 (List.dropLast_prefix _) ?_, ?_⟩
  · intro hsame
    have hshort := congrArg List.length hsame
    rw [List.length_dropLast] at hshort
    omega
  · rw [← hlen]
    exact (harrives _).2.2 [0] (List.cons_ne_nil _ _) rfl

end Link

end Wager
