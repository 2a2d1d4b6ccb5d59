import Wager.Proofs.ContractScripts
import Wager.Proofs.Recovery

/-!
# Scripts and their locks

The scripts of one contract and seat differ in their locks only. They can be built for all locks,
and the locks can be read back from the tokens, so different locks make different scripts
(`answerScript_injective`, `insuranceScript_injective`).
-/

namespace Wager

open Script

/-! ## Scripts that can be built -/

namespace Script

/-- What a piece pushes fits a push. -/
def Piece.Fits : Piece → Prop
  | .push data => data.length ≤ maxPush
  | _ => True

theorem Piece.exists_bytes {p : Piece} (h : p.Fits) : ∃ bytes, p.bytes = .ok bytes := by
  cases p with
  | op code => exact ⟨_, rfl⟩
  | splice script => exact ⟨_, rfl⟩
  | push data =>
    rw [Piece.bytes, encodePush]
    split
    · exact ⟨_, rfl⟩
    split
    · exact ⟨_, rfl⟩
    split
    · exact ⟨_, rfl⟩
    · next hlong => exact absurd h hlong

/-- The script of pieces that fit. -/
def assembled (pieces : List Piece) : Script := (assemble pieces).toOption.getD .empty

theorem assemble_of_fits {pieces : List Piece} (h : ∀ p ∈ pieces, p.Fits) :
    assemble pieces = .ok (assembled pieces) := by
  have hexists : ∃ s, assemble pieces = .ok s := by
    simp only [assemble_eq_ok_iff]
    induction pieces with
    | nil => exact ⟨.empty, [], .nil, rfl⟩
    | cons p pieces ih =>
      obtain ⟨bytes, hbytes⟩ := Piece.exists_bytes (h p List.mem_cons_self)
      obtain ⟨s, parts, hparts, -⟩ := ih fun q hq => h q (List.mem_cons_of_mem p hq)
      exact ⟨⟨(bytes :: parts).flatten⟩, bytes :: parts, .cons hbytes hparts, rfl⟩
  obtain ⟨s, hs⟩ := hexists
  exact Outcome.eq_ok_of_isSome (by rw [hs]; rfl)

@[simp] theorem Piece.fits_op (code : UInt8) : (Piece.op code).Fits := trivial

@[simp] theorem Piece.fits_splice (s : Script) : (Piece.splice s).Fits := trivial

@[simp] theorem Piece.fits_key (key : PublicKey) : (Piece.key key).Fits := by
  change key.bytes.length ≤ 520
  rw [PublicKey.bytes]
  split <;> simp [Curve.Point.compressed, Curve.Point.uncompressed]

@[simp] theorem Piece.fits_hash (hash : Hash160) : (Piece.push hash.toList).Fits := by
  simp [Fits, maxPush]

theorem Piece.fits_int {v : Int} (h : v.natAbs < 128 * 256 ^ 8) : (Piece.int v).Fits := by
  rw [int]
  split
  · trivial
  split
  · trivial
  split
  · trivial
  · exact Nat.le_trans (ScriptNumber.length_encode_le_iff.2 h) (by decide)

/-! ## Locks in tokens -/

theorem Piece.length_reading_int (v : Int) : (Piece.int v).reading.length = 1 := by
  rw [int]
  split
  · rfl
  split
  · rfl
  split
  · rfl
  · rfl

/-- What is read back of a number tells the number: it is what the tokens push. -/
theorem Piece.reading_int_injective {v v' : Int}
    (h : (Piece.int v).reading = (Piece.int v').reading) : v = v' := by
  let c : Context := ⟨0, 0, fun _ _ => false⟩
  have hpush (v : Int) : (Machine.start []).run c (Piece.int v).reading =
      some ⟨[ScriptNumber.encode v], []⟩ := by
    have hactive : (Machine.start []).run c ([Piece.int v].flatMap reading) = _ :=
      (performs_int v).active rfl
    rwa [List.flatMap_singleton] at hactive
  have hrun := hpush v
  rw [h, hpush v'] at hrun
  obtain ⟨hstack, -⟩ := Machine.mk.inj (Option.some.inj hrun)
  exact ScriptNumber.encode_injective (List.cons.inj hstack).1.symm

theorem Piece.length_reading_relativeLock (lock : UInt32) :
    ((relativeLock lock).flatMap reading).length = 3 := by
  simp [relativeLock, length_reading_int]

theorem Piece.reading_relativeLock_injective {lock lock' : UInt32}
    (h : (relativeLock lock).flatMap reading = (relativeLock lock').flatMap reading) :
    lock = lock' := by
  rw [relativeLock, relativeLock, List.flatMap_cons, List.flatMap_cons] at h
  obtain ⟨hint, -⟩ := List.append_inj h (by rw [length_reading_int, length_reading_int])
  exact UInt32.toNat_inj.1 (Int.ofNat_inj.1 (reading_int_injective hint))

end Script

/-! ## The scripts of a seat -/

namespace Contract

variable {c : Contract} {seat : Seat} {position : Nat} {payment : Script}

theorem fits_relativeLock (lock : UInt32) : ∀ p ∈ Piece.relativeLock lock, p.Fits := by
  have hlock := lock.toNat_lt
  have hint : (Piece.int lock.toNat).Fits :=
    Piece.fits_int (by rw [Int.natAbs_natCast]; omega)
  simp [Piece.relativeLock, hint]

theorem fits_threshold (images : List Hash160) (required : UInt64) :
    ∀ p ∈ Piece.threshold images required, p.Fits := by
  have hint : (Piece.int required.toInt64.toInt).Fits := by
    refine Piece.fits_int ?_
    have hlt := required.toInt64.toInt_lt
    have hle := required.toInt64.le_toInt
    omega
  simp only [Piece.threshold_eq, List.forall_mem_append, List.forall_mem_singleton, Piece.fits_op,
    hint, and_true, true_and, List.mem_flatMap]
  intro p h
  obtain ⟨image, -, hp⟩ := h
  simp only [Piece.tally, List.mem_cons, List.not_mem_nil, or_false] at hp
  rcases hp with rfl | rfl | rfl | rfl | rfl <;> simp

theorem exists_payment (c : Contract) : ∃ payment, c.payment = .ok payment := by
  have hfits : ∀ p ∈ Piece.int 2 :: c.players.toList.map .key ++
      [.int 2, .op Opcode.checkMultisig], p.Fits := by
    have htwo : (Piece.int 2).Fits := Piece.fits_int (by decide)
    simp [Sides.toList, htwo]
  exact ⟨_, assemble_of_fits hfits⟩

theorem fits_prizePieces (c : Contract) (owner : Player) (lock : UInt32) :
    ∀ p ∈ c.prizePieces owner lock, p.Fits := by
  simp only [prizePieces, List.forall_mem_append]
  exact ⟨⟨⟨⟨by simp, fits_threshold _ _⟩, by simp⟩, fits_relativeLock lock⟩, by simp⟩

theorem fits_refutation (winner : Player) : ∀ p ∈ c.refutation seat position winner, p.Fits := by
  simp only [refutation, List.forall_mem_append]
  exact ⟨⟨by simp, fits_threshold _ _⟩, by simp⟩

theorem fits_answerPieces (resolutionLock replyLock : UInt32) :
    ∀ p ∈ c.answerPieces seat position resolutionLock replyLock payment, p.Fits := by
  simp only [answerPieces, List.forall_mem_append]
  exact ⟨⟨⟨⟨⟨⟨⟨⟨by simp, fits_relativeLock _⟩, by simp⟩, fits_relativeLock _⟩, by simp⟩,
    fits_refutation .B⟩, by simp⟩, fits_refutation .A⟩, by simp⟩

theorem fits_insurancePieces (lock : UInt32) : ∀ p ∈ c.insurancePieces seat lock, p.Fits := by
  simp only [insurancePieces, List.forall_mem_append]
  exact ⟨⟨by simp, fits_relativeLock _⟩, by simp⟩

/-- The insurance script of a seat with this lock. -/
def insuranceScript (c : Contract) (seat : Seat) (lock : UInt32) : Script :=
  assembled (c.insurancePieces seat lock)

/-- The answer script of a seat with these locks. -/
def answerScript (c : Contract) (seat : Seat) (position : Nat) (payment : Script)
    (resolutionLock replyLock : UInt32) : Script :=
  assembled (c.answerPieces seat position resolutionLock replyLock payment)

theorem builtFrom_insurance (hseat : c.committee[position]? = some seat) :
    RelativeLock.BuiltFrom (c.insurance position) (c.insuranceScript seat) := by
  intro timeout script
  rw [insurance_eq_ok_iff]
  constructor
  · intro h
    obtain ⟨_, hseat', lock, hlock, hassemble⟩ := h
    obtain rfl := Option.some.inj (hseat.symm.trans hseat')
    rw [assemble_of_fits (fits_insurancePieces lock)] at hassemble
    exact ⟨lock, hlock, Except.ok.inj hassemble⟩
  · intro h
    obtain ⟨lock, hlock, rfl⟩ := h
    exact ⟨seat, hseat, lock, hlock, assemble_of_fits (fits_insurancePieces lock)⟩

theorem builtFrom_answer (hseat : c.committee[position]? = some seat)
    (hpayment : c.payment = .ok payment) {resolution resolutionLock : UInt32}
    (hresolution : RelativeLock.sequence resolution = .ok resolutionLock) :
    RelativeLock.BuiltFrom (c.answer position resolution)
      (c.answerScript seat position payment resolutionLock) := by
  intro timeout script
  rw [answer_eq_ok_iff]
  constructor
  · intro h
    obtain ⟨_, hseat', _, hresolution', lock, hlock, _, hpayment', hassemble⟩ := h
    obtain rfl := Option.some.inj (hseat.symm.trans hseat')
    obtain rfl := Except.ok.inj (hresolution.symm.trans hresolution')
    obtain rfl := Except.ok.inj (hpayment.symm.trans hpayment')
    rw [assemble_of_fits (fits_answerPieces _ lock)] at hassemble
    exact ⟨lock, hlock, Except.ok.inj hassemble⟩
  · intro h
    obtain ⟨lock, hlock, rfl⟩ := h
    exact ⟨seat, hseat, resolutionLock, hresolution, lock, hlock, payment, hpayment,
      assemble_of_fits (fits_answerPieces _ lock)⟩

/-- Equal scripts of pieces that can be read back read as equal tokens. -/
theorem reading_eq_of_assembled {xs ys : List Piece} (hx : ∀ p ∈ xs, p.Fits ∧ p.Readable)
    (hy : ∀ p ∈ ys, p.Fits ∧ p.Readable) (h : assembled xs = assembled ys) :
    xs.flatMap Piece.reading = ys.flatMap Piece.reading := by
  have htokens {pieces : List Piece} (hp : ∀ p ∈ pieces, p.Fits ∧ p.Readable) :
      (assembled pieces).tokens = .ok (pieces.flatMap Piece.reading) :=
    tokens_of_assemble (assemble_of_fits fun p hmem => (hp p hmem).1) fun p hmem => (hp p hmem).2
  have heq := htokens hx
  rw [h, htokens hy] at heq
  exact (Except.ok.inj heq).symm

theorem insuranceScript_injective (c : Contract) (seat : Seat) :
    (c.insuranceScript seat).Injective := by
  intro lock lock' h
  have hperforms (lock : UInt32) :
      Piece.Performs ⟨0, 0, fun _ _ => false⟩ (c.insurancePieces seat lock) _ :=
    performs_insurance seat lock
  have hpieces (lock : UInt32) (p : Piece) (hp : p ∈ c.insurancePieces seat lock) :
      p.Fits ∧ p.Readable :=
    ⟨fits_insurancePieces lock p hp, (hperforms lock).readable p hp⟩
  have hreading := reading_eq_of_assembled (hpieces lock) (hpieces lock') h
  simp only [insurancePieces, List.flatMap_append, List.append_left_inj, List.append_right_inj]
    at hreading
  exact Piece.reading_relativeLock_injective hreading

theorem answerScript_injective (seat : Seat) (hpayment : c.payment = .ok payment)
    (hsize : ∀ winner, (c.images winner (some position)).length < 2 ^ 31) :
    Function.Injective2 (c.answerScript seat position payment) := by
  intro resolutionLock resolutionLock' replyLock replyLock' h
  have hperforms (resolutionLock replyLock : UInt32) : Piece.Performs ⟨0, 0, fun _ _ => false⟩
      (c.answerPieces seat position resolutionLock replyLock payment) _ :=
    performs_answer resolutionLock replyLock hpayment hsize
  have hpieces (resolutionLock replyLock : UInt32) (p : Piece)
      (hp : p ∈ c.answerPieces seat position resolutionLock replyLock payment) :
      p.Fits ∧ p.Readable :=
    ⟨fits_answerPieces resolutionLock replyLock p hp,
      (hperforms resolutionLock replyLock).readable p hp⟩
  have hreading := reading_eq_of_assembled (hpieces resolutionLock replyLock)
    (hpieces resolutionLock' replyLock') h
  simp only [answerPieces, List.flatMap_append, List.append_left_inj] at hreading
  obtain ⟨hfirst, hsecond⟩ := List.append_inj' hreading
    (by rw [Piece.length_reading_relativeLock, Piece.length_reading_relativeLock])
  simp only [List.append_left_inj, List.append_right_inj] at hfirst
  exact ⟨Piece.reading_relativeLock_injective hfirst, Piece.reading_relativeLock_injective hsecond⟩

end Contract

end Wager
