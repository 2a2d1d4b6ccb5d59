import Wager.Proofs.Signing

/-!
# Scripts as they were written

**Steps.** A script is written step by step: opcodes, data, numbers, keys, and scripts that are
there already (`Script.Step`). Each step says which tokens it should be read as
(`Script.Step.tokens`), where small numbers have opcodes of their own (`Script.Token.number`).

**Reading back.** Each step is a piece that reads as these tokens (`Script.Step.reading_piece`), and
pieces leave the reader at their end. So a script reads as its steps in a row, unless the data of a
step does not fit a push. The first such step is then reported.

Main result: `Script.reads_as_written`.
-/

namespace Wager.Script

/-! ## Numbers -/

/-- The token of a number. The numbers from -1 to 16 have opcodes, that of zero apart from the
others, and any other number is data. -/
def Token.number (value : Int) : Token :=
  if value = 0 then .op 0x00
  else if -1 ≤ value ∧ value ≤ 16 then .op (UInt8.ofNat (0x50 + value).toNat)
  else .push (ScriptNumber.encode value)

theorem Piece.reading_int (value : Int) : (Piece.int value).reading = [Token.number value] := by
  rw [int, Token.number]
  by_cases hzero : value = 0
  · rw [if_pos hzero, if_pos hzero]
    rfl
  rw [if_neg hzero, if_neg hzero]
  by_cases hnegative : value = -1
  · subst hnegative
    rfl
  rw [if_neg hnegative]
  by_cases hsmall : 1 ≤ value ∧ value ≤ 16
  · obtain ⟨hlow, hhigh⟩ := hsmall
    interval_cases value <;> rfl
  · rw [if_neg hsmall, if_neg (by omega), reading_push]
    have hne : ScriptNumber.encode value ≠ [] := ScriptNumber.signed_ne_nil _ (by omega)
    rw [if_neg (by simpa using hne)]

/-- A number can be read back. -/
theorem Piece.readable_int (value : Int) : (Piece.int value).Readable := by
  let c : Context := ⟨0, 0, fun _ _ => false⟩
  exact (performs_int (c := c) value).readable _ List.mem_cons_self

/-! ## Steps -/

/-- A step in the writing of a script: an opcode with a name that does not announce data, data, a
word as a number, a key, or a script that has tokens. -/
inductive Step
  | op (code : UInt8) (readable : (Piece.op code).Readable)
  | push (data : Bytes)
  | int (value : Int64)
  | key (owner : PublicKey)
  | splice (script : Script) (tokens : List Token) (reads : script.tokens = .ok tokens)

namespace Step

def piece : Step → Piece
  | .op code _ => .op code
  | .push data => .push data
  | .int value => .int value.toInt
  | .key owner => .key owner
  | .splice script _ _ => .splice script

/-- What the step should be read as. -/
def tokens : Step → List Token
  | .op code _ => [.op code]
  | .push [] => [.op 0x00]
  | .push data => [.push data]
  | .int value => [.number value.toInt]
  | .key owner => [.push owner.bytes]
  | .splice _ tokens _ => tokens

theorem readable_piece (step : Step) : step.piece.Readable := by
  cases step with
  | op code readable => exact readable
  | push data => trivial
  | int value => exact Piece.readable_int value.toInt
  | key owner => trivial
  | splice script tokens reads => exact ⟨tokens, reads⟩

theorem reading_piece (step : Step) : step.piece.reading = step.tokens := by
  cases step with
  | op code readable => rfl
  | push data => cases data <;> rfl
  | int value => exact Piece.reading_int value.toInt
  | key owner =>
    have hne : owner.bytes ≠ [] := by
      rw [PublicKey.bytes]
      split <;> exact List.cons_ne_nil _ _
    rw [piece, tokens, Piece.key, Piece.reading_push, if_neg (by simpa using hne)]
  | splice script tokens reads => exact Piece.reading_splice reads

/-- Only data can be too long for a push. -/
theorem fits_piece_iff {step : Step} :
    step.piece.Fits ↔ ∀ data, step = .push data → data.length ≤ maxPush := by
  cases step with
  | op code readable => simp [piece]
  | push data => simp [piece, Piece.Fits]
  | int value =>
    have hfits : (Piece.int value.toInt).Fits := by
      refine Piece.fits_int ?_
      have hlt := value.toInt_lt
      have hle := value.le_toInt
      omega
    simp [piece, hfits]
  | key owner => simp [piece]
  | splice script tokens reads => simp [piece]

theorem eq_push_of_piece {step : Step} {data : Bytes} (hpiece : step.piece = .push data)
    (hlong : maxPush < data.length) : step = .push data := by
  have hnot : ¬ step.piece.Fits := by
    rw [hpiece]
    exact Nat.not_le.2 hlong
  simp only [fits_piece_iff, not_forall] at hnot
  obtain ⟨pushed, rfl, -⟩ := hnot
  exact congrArg _ (Piece.push.inj hpiece)

theorem fits_pieces_iff {steps : List Step} : (∀ p ∈ steps.map piece, p.Fits) ↔
    ∀ data, .push data ∈ steps → data.length ≤ maxPush := by
  simp only [List.forall_mem_map, fits_piece_iff]
  exact ⟨fun h data hmem => h _ hmem data rfl, fun h step hmem data hpush => h data (hpush ▸ hmem)⟩

end Step

/-- A script is written exactly if all data fits a push, and then it reads as its steps, one after
the other. Otherwise the first data that does not fit is reported. -/
theorem reads_as_written (steps : List Step) :
    match assemble (steps.map Step.piece) with
    | .ok s => (∀ data, .push data ∈ steps → data.length ≤ maxPush) ∧
        s.tokens = .ok (steps.flatMap Step.tokens)
    | .error fault => ∃ front data back, steps = front ++ .push data :: back ∧
        (∀ earlier, .push earlier ∈ front → earlier.length ≤ maxPush) ∧ maxPush < data.length ∧
        fault = .malformed (.oversizedPush data.length) := by
  by_cases hfits : ∀ p ∈ steps.map Step.piece, p.Fits
  · have hassembled := assemble_of_fits hfits
    have hreadable : ∀ p ∈ steps.map Step.piece, p.Readable :=
      List.forall_mem_map.2 fun step _ => step.readable_piece
    have htokens := tokens_of_assemble hassembled hreadable
    simp only [List.flatMap_map, Step.reading_piece] at htokens
    rw [hassembled]
    exact ⟨Step.fits_pieces_iff.1 hfits, htokens⟩
  · have hlong : ∃ p ∈ steps.map Step.piece, ¬ p.Fits := by simpa using hfits
    obtain ⟨front, data, back, hsteps, hfront, hdata⟩ := exists_first_of_not_fits hlong
    rw [hsteps, assemble_of_first hfront hdata]
    obtain ⟨early, rest, rfl, rfl, hrest⟩ := List.map_eq_append_iff.1 hsteps
    obtain ⟨step, late, rfl, hstep, rfl⟩ := List.map_eq_cons_iff.1 hrest
    obtain rfl := Step.eq_push_of_piece hstep hdata
    exact ⟨early, data, late, rfl, Step.fits_pieces_iff.1 hfront, hdata, rfl⟩

end Wager.Script
