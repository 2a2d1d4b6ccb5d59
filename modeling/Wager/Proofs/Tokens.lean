import Wager.Chain.Grammar
import Wager.Proofs.Reading

/-!
# Reading scripts

The parser accepts exactly the grammar: `tokens_eq_ok_iff` says that a script has these tokens
just when its bytes spell them. A script that was assembled from readable pieces therefore has
the tokens of the pieces, one after the other (`tokens_of_assemble`).
-/

namespace Wager.Script

open Exchange Decoder Cursor

/-! ## One token -/

namespace Token

variable {c c' : Cursor} {token : Token}

theorem Spells.ne_nil {bytes : Bytes} (h : token.Spells bytes) : bytes ≠ [] := by
  cases h <;> simp

/-- Named opcodes are no direct pushes. -/
theorem not_direct_of_name {code : UInt8} (h : (Opcode.name? code).isSome) :
    ¬ (0x01 ≤ code ∧ code ≤ 0x4b) := by
  intro h
  obtain ⟨hlow, hhigh⟩ := h
  rw [UInt8.le_iff_toNat_le] at hlow hhigh
  have hzero : code ≠ Opcode.op0 := by
    intro h
    subst h
    exact absurd hlow (by decide)
  have hnamed : code < Opcode.firstNamed := by
    rw [UInt8.lt_iff_toNat_lt]
    exact Nat.lt_of_le_of_lt hhigh (by decide)
  simp [Opcode.name?, hzero, hnamed] at h

/-- A push behind its size, which is a word of `n` bytes. -/
theorem gives_sizedPush {α : Type} {size : Decoder α} {word : Nat → α} {value : α → Nat} {n : Nat}
    (hsize : ∀ {c a c'}, Gives size c a c' ↔ c.Passes (littleEndian n (value a)) c')
    (hword : ∀ m, m < 256 ^ n → value (word m) = m) (hlt : ∀ a, value a < 256 ^ n) :
    Gives (do return Token.push (← Decoder.bytes (value (← size)))) c token c' ↔ ∃ data,
      c.Passes (littleEndian n data.length ++ data) c' ∧ data.length < 256 ^ n ∧
        .push data = token := by
  simp only [gives_bind, gives_pure, gives_bytes, hsize]
  constructor
  · intro h
    obtain ⟨a, c₁, ha, data, c₂, ⟨hlen, hdata⟩, rfl, rfl⟩ := h
    rw [← hlen] at ha
    exact ⟨data, passes_append.2 ⟨c₁, ha, hdata⟩, hlen ▸ hlt a, rfl⟩
  · intro h
    obtain ⟨data, hpass, hlen, rfl⟩ := h
    obtain ⟨c₁, ha, hdata⟩ := passes_append.1 hpass
    exact ⟨word data.length, c₁, by rwa [hword _ hlen], data, c', ⟨(hword _ hlen).symm, hdata⟩,
      rfl, rfl⟩

theorem gives_shortPush : Gives (do return Token.push (← Decoder.bytes (← u8).toNat)) c token c' ↔
    ∃ data, c.Passes (littleEndian 1 data.length ++ data) c' ∧ data.length < UInt8.size ∧
      .push data = token := by
  have hbyte (b : UInt8) : littleEndian 1 b.toNat = [b] := by
    rw [littleEndian, littleEndian, UInt8.ofNat_toNat]
  exact gives_sizedPush (by simp only [hbyte, gives_u8, implies_true])
    (fun _ h => UInt8.toNat_ofNat_of_lt' h) UInt8.toNat_lt

theorem gives_mediumPush : Gives (do return Token.push (← Decoder.bytes (← u16).toNat)) c token c' ↔
    ∃ data, c.Passes (littleEndian 2 data.length ++ data) c' ∧ data.length < UInt16.size ∧
      .push data = token :=
  gives_sizedPush gives_u16 (fun _ h => UInt16.toNat_ofNat_of_lt' h) UInt16.toNat_lt

theorem gives_longPush : Gives (do return Token.push (← Decoder.bytes (← u32).toNat)) c token c' ↔
    ∃ data, c.Passes (littleEndian 4 data.length ++ data) c' ∧ data.length < UInt32.size ∧
      .push data = token :=
  gives_sizedPush gives_u32 (fun _ h => UInt32.toNat_ofNat_of_lt' h) UInt32.toNat_lt

theorem gives_decoder :
    Gives decoder c token c' ↔ ∃ bytes, c.Passes bytes c' ∧ token.Spells bytes := by
  unfold decoder
  simp only [gives_bind, gives_u8]
  constructor
  · intro h
    obtain ⟨code, c₁, hcode, h⟩ := h
    split at h
    · next hdirect =>
      obtain ⟨data, c₂, hdata, hpure⟩ := gives_bind.1 h
      obtain ⟨hlen, hdata⟩ := gives_bytes.1 hdata
      obtain ⟨rfl, rfl⟩ := gives_pure.1 hpure
      simp only [Bool.and_eq_true, decide_eq_true_eq, UInt8.le_iff_toNat_le, ← hlen] at hdirect
      have hbyte : UInt8.ofNat data.length = code := by rw [hlen, UInt8.ofNat_toNat]
      exact ⟨code :: data, passes_cons.2 ⟨c₁, hcode, hdata⟩,
        hbyte ▸ .direct hdirect.1 hdirect.2⟩
    split at h
    · next hshort =>
      obtain ⟨data, hdata, hlen, rfl⟩ := gives_shortPush.1 h
      exact ⟨_, passes_cons.2 ⟨c₁, hcode, hdata⟩, hshort ▸ .short hlen⟩
    split at h
    · next hmedium =>
      obtain ⟨data, hdata, hlen, rfl⟩ := gives_mediumPush.1 h
      exact ⟨_, passes_cons.2 ⟨c₁, hcode, hdata⟩, hmedium ▸ .medium hlen⟩
    split at h
    · next hlong =>
      obtain ⟨data, hdata, hlen, rfl⟩ := gives_longPush.1 h
      exact ⟨_, passes_cons.2 ⟨c₁, hcode, hdata⟩, hlong ▸ .long hlen⟩
    split at h
    · next hshort hmedium hlong hname =>
      obtain ⟨rfl, rfl⟩ := gives_pure.1 h
      exact ⟨[code], hcode, .op hname hshort hmedium hlong⟩
    · obtain ⟨_, _, _, h⟩ := gives_bind.1 h
      exact absurd h not_gives_throw
  · intro h
    obtain ⟨bytes, hpass, hspells⟩ := h
    cases hspells with
    | @direct data hlow hhigh =>
      obtain ⟨c₁, hcode, hdata⟩ := passes_cons.1 hpass
      have hlen : (UInt8.ofNat data.length).toNat = data.length := by
        rw [UInt8.toNat_ofNat']
        omega
      refine ⟨_, c₁, hcode, ?_⟩
      rw [if_pos (by simp [UInt8.le_iff_toNat_le, hlen, hlow, hhigh])]
      exact gives_bind.2 ⟨data, c', gives_bytes.2 ⟨hlen.symm, hdata⟩, gives_pure.2 ⟨rfl, rfl⟩⟩
    | short hlen =>
      obtain ⟨c₁, hcode, hdata⟩ := passes_cons.1 hpass
      exact ⟨_, c₁, hcode, gives_shortPush.2 ⟨_, hdata, hlen, rfl⟩⟩
    | medium hlen =>
      obtain ⟨c₁, hcode, hdata⟩ := passes_cons.1 hpass
      exact ⟨_, c₁, hcode, gives_mediumPush.2 ⟨_, hdata, hlen, rfl⟩⟩
    | long hlen =>
      obtain ⟨c₁, hcode, hdata⟩ := passes_cons.1 hpass
      exact ⟨_, c₁, hcode, gives_longPush.2 ⟨_, hdata, hlen, rfl⟩⟩
    | @op code hname hshort hmedium hlong =>
      refine ⟨code, c', hpass, ?_⟩
      rw [if_neg (by simpa using not_direct_of_name hname), if_neg hshort, if_neg hmedium,
        if_neg hlong, if_pos hname]
      exact gives_pure.2 ⟨rfl, rfl⟩

/-! ## All tokens -/

/-- Enough fuel for the bytes reads a spelling of the tokens to its end. -/
theorem gives_decoderAll {fuel : Nat} {tokens : List Token} (hfuel : c.remaining ≤ fuel) :
    Gives (decoderAll fuel) c tokens c' ↔ Script.Spells tokens c.rest ∧ c.Passes c.rest c' := by
  induction fuel generalizing c tokens with
  | zero =>
    obtain ⟨p, rest⟩ := c
    obtain rfl : rest = [] := by simpa [remaining] using hfuel
    rw [decoderAll, gives_pure, passes_nil]
    constructor
    · intro h
      obtain ⟨rfl, rfl⟩ := h
      exact ⟨.nil, rfl⟩
    · intro h
      obtain ⟨hspells, rfl⟩ := h
      generalize hrest : ([] : Bytes) = rest at hspells
      cases hspells with
      | nil => exact ⟨rfl, rfl⟩
      | cons head _ => simp [head.ne_nil] at hrest
  | succ fuel ih =>
    rw [decoderAll]
    simp only [gives_bind, gives_get]
    constructor
    · intro h
      obtain ⟨_, _, ⟨rfl, rfl⟩, h⟩ := h
      split at h
      · next hend =>
        obtain ⟨rfl, rfl⟩ := gives_pure.1 h
        have hrest := List.isEmpty_iff.1 hend
        rw [hrest]
        exact ⟨.nil, passes_nil.2 rfl⟩
      · obtain ⟨token, c₁, htoken, h⟩ := gives_bind.1 h
        obtain ⟨tokens, c₂, htokens, h⟩ := gives_bind.1 h
        obtain ⟨rfl, rfl⟩ := gives_pure.1 h
        obtain ⟨bytes, hpass, hhead⟩ := gives_decoder.1 htoken
        have hlen := List.length_pos_iff.2 hhead.ne_nil
        have hrest := hpass.1
        rw [remaining, hrest, List.length_append] at hfuel
        obtain ⟨htail, hpass'⟩ := (ih (by rw [remaining]; omega)).1 htokens
        rw [hrest]
        exact ⟨.cons hhead htail, passes_append.2 ⟨c₁, hpass, hpass'⟩⟩
    · intro h
      obtain ⟨hspells, hpass⟩ := h
      refine ⟨c, c, ⟨rfl, rfl⟩, ?_⟩
      generalize hrest : c.rest = rest at hspells hpass
      cases hspells with
      | nil =>
        rw [if_pos (by simp [isAtEnd, hrest]), gives_pure]
        exact ⟨rfl, passes_nil.1 hpass⟩
      | @cons token tokens bytes more hhead htail =>
        have hlen := List.length_pos_iff.2 hhead.ne_nil
        obtain ⟨c₁, hfirst, hmore⟩ := passes_append.1 hpass
        have hrest₁ : c₁.rest = more := List.append_cancel_left (hfirst.1.symm.trans hrest)
        rw [if_neg (by simp [isAtEnd, hrest, hhead.ne_nil])]
        rw [remaining, hrest, List.length_append] at hfuel
        subst hrest₁
        exact gives_bind.2 ⟨token, c₁, gives_decoder.2 ⟨bytes, hfirst, hhead⟩,
          gives_bind.2 ⟨tokens, c', (ih (by rw [remaining]; omega)).2 ⟨htail, hmore⟩,
            gives_pure.2 ⟨rfl, rfl⟩⟩⟩

end Token

/-- The parser accepts exactly the spellings of tokens. -/
theorem tokens_eq_ok_iff {s : Script} {tokens : List Token} :
    s.tokens = .ok tokens ↔ Spells tokens s.bytes := by
  have h (c' : Cursor) : Gives (Token.decoderAll s.size) (Cursor.start s.bytes) tokens c' ↔ _ :=
    Token.gives_decoderAll (c := .start s.bytes) (Nat.le_refl s.size)
  change (resultIn (Token.decoderAll s.size) (Cursor.start s.bytes)).1 = _ ↔ _
  constructor
  · intro hok
    exact ((h _).1 (Prod.ext hok rfl)).1
  · intro hspells
    have hpass : (Cursor.start s.bytes).Passes s.bytes ⟨s.bytes.length, []⟩ :=
      ⟨by simp [start], by simp [start]⟩
    exact congrArg Prod.fst ((h _).2 ⟨hspells, hpass⟩)

/-! ## Pieces -/

namespace Piece

/-- The tokens that a piece adds, none for the splice of a script without tokens. -/
def reading (p : Piece) : List Token :=
  match p.tokens with
  | .ok tokens => tokens
  | .error _ => []

/-- Whether a piece can be read back: an opcode that has a name and does not push what follows, a
push, or a script with tokens. -/
def Readable : Piece → Prop
  | .op code => (Opcode.name? code).isSome ∧ code ≠ Opcode.pushData1 ∧
      code ≠ Opcode.pushData2 ∧ code ≠ Opcode.pushData4
  | .push _ => True
  | .splice script => ∃ tokens, script.tokens = .ok tokens

instance (code : UInt8) : Decidable (op code).Readable :=
  inferInstanceAs (Decidable (_ ∧ _ ∧ _ ∧ _))

@[simp] theorem reading_op (code : UInt8) : (op code).reading = [.op code] := rfl

@[simp] theorem reading_push (data : Bytes) :
    (push data).reading = [if data.isEmpty then .op Opcode.op0 else .push data] := rfl

theorem reading_splice {script : Script} {tokens : List Token} (h : script.tokens = .ok tokens) :
    (splice script).reading = tokens := by
  simp only [reading, Piece.tokens, h]

theorem spells_push {data bytes : Bytes} (h : encodePush data = .ok bytes) :
    Spells (push data).reading bytes := by
  rw [reading_push]
  apply Spells.singleton
  simp only [encodePush] at h
  split at h
  · next hdirect =>
    obtain ⟨⟩ := h
    cases data with
    | nil => exact .op (by decide) (by decide) (by decide) (by decide)
    | cons b rest => exact .direct (by simp) hdirect
  split at h
  · next hdirect hshort =>
    obtain ⟨⟩ := h
    rw [if_neg (by cases data <;> simp at hdirect ⊢)]
    exact .short (Nat.lt_succ_of_le hshort)
  split at h
  · next hdirect _ hmedium =>
    obtain ⟨⟩ := h
    rw [if_neg (by cases data <;> simp at hdirect ⊢)]
    exact .medium (Nat.lt_of_le_of_lt hmedium (by decide))
  · exact absurd h Outcome.malformed_ne_ok

theorem spells_reading {p : Piece} {bytes : Bytes} (hp : p.Readable) (h : p.bytes = .ok bytes) :
    Spells p.reading bytes := by
  cases p with
  | op code =>
    obtain ⟨hname, hshort, hmedium, hlong⟩ := hp
    obtain ⟨⟩ := h
    exact Spells.singleton (.op hname hshort hmedium hlong)
  | push data => exact spells_push h
  | splice script =>
    obtain ⟨tokens, htokens⟩ := hp
    obtain ⟨⟩ := h
    rw [reading_splice htokens]
    exact tokens_eq_ok_iff.1 htokens

end Piece

theorem assemble_eq_ok_iff {pieces : List Piece} {s : Script} :
    assemble pieces = .ok s ↔
      ∃ parts, List.Forall₂ (fun p bytes => Piece.bytes p = .ok bytes) pieces parts ∧
        s.bytes = parts.flatten := by
  unfold assemble
  simp only [Outcome.bind_eq_ok, Outcome.mapM_eq_ok, Outcome.pure_eq_ok]
  refine exists_congr fun parts => and_congr_right fun _ => ?_
  cases s
  simp [eq_comm]

/-- The number of bytes of a piece, if it has any. -/
def Piece.size : Piece → Nat
  | .op _ => 1
  | .push data =>
    data.length + if data.length ≤ 75 then 1 else if data.length ≤ 255 then 2 else 3
  | .splice script => script.size

theorem Piece.length_of_bytes {p : Piece} {bytes : Bytes} (h : p.bytes = .ok bytes) :
    bytes.length = p.size := by
  cases p with
  | op code =>
    obtain ⟨⟩ := h
    rfl
  | push data =>
    simp only [Piece.bytes, encodePush] at h
    split at h
    · next hdirect =>
      obtain ⟨⟩ := h
      simp [Piece.size, hdirect]
    split at h
    · next hdirect hshort =>
      obtain ⟨⟩ := h
      simp [Piece.size, hdirect, hshort]
    split at h
    · next hdirect hshort _ =>
      obtain ⟨⟩ := h
      simp [Piece.size, hdirect, hshort]
      omega
    · exact absurd h Outcome.malformed_ne_ok
  | splice script =>
    obtain ⟨⟩ := h
    rfl

/-- What an assembled script pushes fits a push. -/
theorem length_le_of_assemble {pieces : List Piece} {s : Script} {data : Bytes}
    (h : assemble pieces = .ok s) (hdata : .push data ∈ pieces) : data.length ≤ maxPush := by
  obtain ⟨parts, hparts, -⟩ := assemble_eq_ok_iff.1 h
  clear h
  induction hparts with
  | nil => cases hdata
  | cons hhead _ ih =>
    rcases List.mem_cons.1 hdata with rfl | hdata
    · simp only [Piece.bytes, encodePush] at hhead
      split at hhead
      · next hdirect =>
        change _ ≤ 520
        omega
      split at hhead
      · next hshort =>
        change _ ≤ 520
        omega
      split at hhead
      · next hmedium => exact hmedium
      · exact absurd hhead Outcome.malformed_ne_ok
    · exact ih hdata

theorem size_of_assemble {pieces : List Piece} {s : Script} (h : assemble pieces = .ok s) :
    s.size = (pieces.map Piece.size).sum := by
  obtain ⟨parts, hparts, hbytes⟩ := assemble_eq_ok_iff.1 h
  rw [size, hbytes]
  clear h hbytes
  induction hparts with
  | nil => rfl
  | cons hhead _ ih => simp [ih, Piece.length_of_bytes hhead]

/-- An assembled script reads as its pieces in a row. -/
theorem tokens_of_assemble {pieces : List Piece} {s : Script} (h : assemble pieces = .ok s)
    (hp : ∀ p ∈ pieces, p.Readable) : s.tokens = .ok (pieces.flatMap Piece.reading) := by
  obtain ⟨parts, hparts, hbytes⟩ := assemble_eq_ok_iff.1 h
  rw [tokens_eq_ok_iff, hbytes]
  clear h hbytes
  induction hparts with
  | nil => exact .nil
  | cons hhead _ ih =>
    rw [List.flatMap_cons, List.flatten_cons]
    have htail := ih fun p hmem => hp p (List.mem_cons_of_mem _ hmem)
    exact (Piece.spells_reading (hp _ List.mem_cons_self) hhead).append htail

end Wager.Script
