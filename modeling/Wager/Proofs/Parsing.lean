import Wager.Proofs.Faults
import Wager.Proofs.Tokens

/-!
# Taking scripts apart

**Parts.** A script that spells tokens falls into parts, one for each token (`Script.Parses`). What
spells a token at the front of a byte string is determined by the byte string, so the parts are too
(`Script.Parses.unique`).

**Fuel.** Each token takes at least a byte, so the reader never runs out of fuel: with more of it
than there are bytes it does the same (`Token.resultIn_decoderAll`).

**Refusals.** Whatever does not fall into parts is refused as malformed, because an element is cut
off by the end or a byte starts none (`Script.Broken`).

Main result: `Script.tokens_iff_parses`.
-/

namespace Wager.Script

open Exchange Decoder Cursor

/-! ## Parts -/

/-- The script is these parts in a row, each of which spells the token in its place. -/
structure Parses (s : Script) (tokens : List Token) (parts : List Bytes) : Prop where
  spelled : List.Forall₂ Token.Spells tokens parts
  joined : parts.flatten = s.bytes

theorem Token.recognizes_decoder : Recognizes Token.decoder Token.Spells := by
  intro c token c'
  rw [Token.gives_decoder]
  exact exists_congr fun _ => and_comm

theorem spells_iff_exists_parts {tokens : List Token} {data : Bytes} :
    Spells tokens data ↔
      ∃ parts, List.Forall₂ Token.Spells tokens parts ∧ parts.flatten = data := by
  constructor
  · intro h
    induction h with
    | nil => exact ⟨[], .nil, rfl⟩
    | @cons token tokens part rest hhead _ ih =>
      obtain ⟨parts, hparts, rfl⟩ := ih
      exact ⟨part :: parts, .cons hhead hparts, rfl⟩
  · rintro ⟨parts, hparts, rfl⟩
    induction hparts with
    | nil => exact .nil
    | cons hhead _ ih => exact .cons hhead ih

/-- Rows of parts that make up the same bytes are the same, and so are the tokens that they
spell. -/
theorem eq_of_flatten_eq {tokens tokens' : List Token} {parts parts' : List Bytes}
    (h : List.Forall₂ Token.Spells tokens parts) (h' : List.Forall₂ Token.Spells tokens' parts')
    (heq : parts.flatten = parts'.flatten) : tokens = tokens' ∧ parts = parts' := by
  induction h generalizing tokens' parts' with
  | nil =>
    cases h' with
    | nil => exact ⟨rfl, rfl⟩
    | cons hhead' _ => simp [hhead'.ne_nil] at heq
  | @cons token part tokens parts hhead _ ih =>
    cases h' with
    | nil => simp [hhead.ne_nil] at heq
    | @cons token' part' tokens' parts' hhead' htail' =>
      rw [List.flatten_cons, List.flatten_cons] at heq
      obtain ⟨rfl, rfl, hrest⟩ := Token.recognizes_decoder.front_unique hhead hhead' heq
      obtain ⟨rfl, rfl⟩ := ih htail' hrest
      exact ⟨rfl, rfl⟩

theorem Parses.unique {s : Script} {tokens tokens' : List Token} {parts parts' : List Bytes}
    (h : s.Parses tokens parts) (h' : s.Parses tokens' parts') :
    tokens = tokens' ∧ parts = parts' :=
  eq_of_flatten_eq h.spelled h'.spelled (h.joined.trans h'.joined.symm)

/-! ## Fuel -/

namespace Token

variable {c : Cursor} {fuel : Nat}

theorem resultIn_decoderAll_succ (fuel : Nat) (c : Cursor) :
    resultIn (decoderAll (fuel + 1)) c = if c.isAtEnd then (.ok [], c)
      else resultIn (do
        let token ← decoder
        return token :: (← decoderAll fuel)) c := by
  rw [decoderAll, resultIn_bind]
  change resultIn (if c.isAtEnd then _ else _) c = _
  split <;> rfl

theorem remaining_lt_of_decoder {token : Token} {c' : Cursor} (h : Gives decoder c token c') :
    c'.remaining < c.remaining := by
  obtain ⟨part, hpass, hspells⟩ := gives_decoder.1 h
  have hpos := List.length_pos_iff.2 hspells.ne_nil
  rw [remaining, remaining, hpass.1, List.length_append]
  omega

/-- One attempt more than there are bytes changes nothing. -/
theorem resultIn_decoderAll_of_le (h : c.remaining ≤ fuel) :
    resultIn (decoderAll (fuel + 1)) c = resultIn (decoderAll fuel) c := by
  induction fuel generalizing c with
  | zero =>
    have hend : c.isAtEnd = true := by
      rw [isAtEnd, List.isEmpty_iff]
      exact List.length_eq_zero_iff.1 (Nat.le_zero.1 h)
    rw [resultIn_decoderAll_succ, if_pos hend]
    rfl
  | succ fuel ih =>
    rw [resultIn_decoderAll_succ, resultIn_decoderAll_succ]
    split
    · rfl
    · rw [resultIn_bind, resultIn_bind]
      rcases htoken : resultIn decoder c with ⟨fault | token, c₁⟩
      · rfl
      · have hless := remaining_lt_of_decoder htoken
        dsimp only
        rw [resultIn_bind, resultIn_bind, ih (by omega)]

theorem resultIn_decoderAll (h : c.remaining ≤ fuel) :
    resultIn (decoderAll fuel) c = resultIn (decoderAll c.remaining) c := by
  induction fuel, h using Nat.le_induction with
  | base => rfl
  | succ fuel h ih => rw [resultIn_decoderAll_of_le h, ih]

end Token

/-! ## Refusals -/

/-- A script is cut off in an element, or a byte starts none. -/
inductive Broken : Fault → Prop
  | cut (wanted position left : Nat) : Broken (.malformed (.unexpectedEnd wanted position left))
  | unknown (code : UInt8) (position : Nat) : Broken (.malformed (.unknownOpcode code position))

theorem broken_bytes (n : Nat) : Exchange.Faults Broken (Decoder.bytes n) := by
  intro c fault c' h
  change (if n ≤ c.remaining then _ else _) = _ at h
  split at h
  · cases h
  · cases h
    exact .cut _ _ _

theorem broken_u8 : Exchange.Faults Broken Decoder.u8 := by
  rintro ⟨position, _ | ⟨b, rest⟩⟩ fault c' h
  · cases h
    exact .cut _ _ _
  · cases h

theorem broken_decoder : Exchange.Faults Broken Token.decoder := by
  have hpush (n : Nat) : Exchange.Faults Broken (do return Token.push (← Decoder.bytes n)) :=
    .bind (broken_bytes n) fun _ _ _ _ => .pure _
  unfold Token.decoder
  refine .bind broken_u8 fun _ code _ _ => ?_
  split_ifs
  · exact hpush code.toNat
  · exact .bind broken_u8 fun _ size _ _ => hpush size.toNat
  · exact .bind (.bind (broken_bytes 2) fun _ _ _ _ => .pure _) fun _ size _ _ => hpush size.toNat
  · exact .bind (.bind (broken_bytes 4) fun _ _ _ _ => .pure _) fun _ size _ _ => hpush size.toNat
  · exact .pure _
  · exact .bind (fun _ _ _ h => nomatch h) fun _ _ _ _ => .throw (.unknown _ _)

theorem broken_decoderAll (fuel : Nat) : Exchange.Faults Broken (Token.decoderAll fuel) := by
  induction fuel with
  | zero => exact .pure []
  | succ fuel ih =>
    refine .bind (fun _ _ _ h => nomatch h) fun _ c _ _ => ?_
    split
    · exact .pure []
    · exact .bind broken_decoder fun _ _ _ _ => .bind ih fun _ _ _ _ => .pure _

/-! ## The parser -/

/-- A script has these tokens exactly if it falls into parts that spell them, and it does so in at
most one way. Exactly the scripts that do not are refused as broken. Fuel has no part in this: the
reader is done before it has used as much as there are bytes. -/
theorem tokens_iff_parses (s : Script) :
    (∀ tokens, s.tokens = .ok tokens ↔ ∃ parts, s.Parses tokens parts) ∧
    (∀ tokens tokens' parts parts', s.Parses tokens parts → s.Parses tokens' parts' →
      tokens = tokens' ∧ parts = parts') ∧
    ((∃ fault, s.tokens = .error fault ∧ Broken fault) ↔ ¬ ∃ tokens parts, s.Parses tokens parts) ∧
    ∀ fuel, s.size ≤ fuel →
      (resultIn (Token.decoderAll fuel) (Cursor.start s.bytes)).1 = s.tokens := by
  have hparses (tokens : List Token) : s.tokens = .ok tokens ↔ ∃ parts, s.Parses tokens parts := by
    rw [tokens_eq_ok_iff, spells_iff_exists_parts]
    exact exists_congr fun parts => ⟨fun h => ⟨h.1, h.2⟩, fun h => ⟨h.spelled, h.joined⟩⟩
  refine ⟨hparses, fun _ _ _ _ => Parses.unique, ?_, fun fuel hfuel => ?_⟩
  · simp only [← hparses]
    constructor
    · rintro ⟨fault, hfault, -⟩ ⟨tokens, htokens⟩
      cases hfault.symm.trans htokens
    · intro hnone
      rcases htokens : s.tokens with fault | tokens
      · exact ⟨fault, rfl, broken_decoderAll s.size _ fault _ (Prod.ext htokens rfl)⟩
      · exact absurd ⟨tokens, htokens⟩ hnone
  · rw [Token.resultIn_decoderAll (c := .start s.bytes) hfuel]
    rfl

end Wager.Script
