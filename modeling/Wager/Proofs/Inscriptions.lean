import Wager.Contract.Settlement
import Wager.Proofs.Digests
import Wager.Proofs.Drafts
import Wager.Proofs.Takings
import Wager.Proofs.Templates

/-!
# What an inscription commits to

An inscription carries the images of its seat and pays the hashes of its two scripts. From these
a settlement that knows the bet and the committee finds the seat and both scripts again, with
timeouts that have the locks of the chosen ones.

**Offsets.** The nominal timeouts need not be whole units, and neither do the chosen ones. What is
found is the nominal timeout and as many units more as the chosen one has more (`excess`), which
lies in the same unit as the chosen one.
-/

namespace Wager

open Exchange Script

variable {σ : Type} {w w' : σ}

/-! ## Carried data -/

theorem Script.carried?_of_carrying {data : Bytes} {s : Script} (h : carrying data = .ok s)
    (hdata : data ≠ []) : s.carried? = some data := by
  have htokens := tokens_of_assemble h fun p hp => by
    simp only [List.mem_cons, List.not_mem_nil, or_false] at hp
    rcases hp with rfl | rfl
    · decide
    · trivial
  have hread : (Piece.push data).reading = [.push data] := by simp [hdata]
  rw [List.flatMap_cons, List.flatMap_singleton, hread] at htokens
  simp only [carried?, htokens]
  rfl

/-- Data is carried exactly if it fits a push. -/
theorem Script.exists_carrying_iff {data : Bytes} :
    (∃ s, carrying data = .ok s) ↔ data.length ≤ maxPush := by
  constructor
  · intro h
    obtain ⟨s, hs⟩ := h
    exact length_le_of_assemble hs (by simp)
  · intro h
    exact ⟨_, assemble_of_fits
      (List.forall_mem_cons.2 ⟨Piece.fits_op _, List.forall_mem_singleton.2 h⟩)⟩

theorem Transaction.output_eq_ok {tx : Transaction} {index : Nat} {output : Output} :
    tx.output index = .ok output ↔ tx.outputs[index]? = some output := by
  rw [Transaction.output]
  split
  · next hfound => simp [hfound]
  · next hnone => simp [hnone, inconsistent]

theorem Transaction.coin_eq_ok {tx : Transaction} {index : Nat} {coin : Coin} :
    tx.coin index = .ok coin ↔ coin.outpoint = ⟨tx.txid, UInt32.ofNat index⟩ ∧
      tx.outputs[index]? = some coin.output := by
  obtain ⟨outpoint, output⟩ := coin
  simp only [Transaction.coin, Outcome.bind_eq_ok, output_eq_ok, Outcome.pure_eq_ok,
    Coin.mk.injEq]
  constructor
  · intro h
    obtain ⟨_, houtput, rfl, rfl⟩ := h
    exact ⟨rfl, houtput⟩
  · intro h
    exact ⟨output, h.2, h.1.symm, rfl⟩

/-- A seat is read from the transaction whose first output carries it. -/
theorem Seat.ofInscription_of_carrying {seat : Seat} {tx : Transaction} {images : Script}
    {value : UInt64} {rest : List Output} (himages : carrying seat.inscribed = .ok images)
    (houtputs : tx.outputs = ⟨value, images⟩ :: rest) :
    ofInscription seat.oracle tx = .ok seat := by
  have hcarried := carried?_of_carrying himages (by simp [inscribed, inscriptionMagic])
  have houtput : tx.output 0 = .ok ⟨value, images⟩ :=
    Transaction.output_eq_ok.2 (by rw [houtputs]; rfl)
  have htake : seat.inscribed.take 3 = inscriptionMagic := rfl
  have hdrop : seat.inscribed.drop 3 = seat.images.a.toList ++ seat.images.b.toList := rfl
  have hlen : (seat.images.a.toList ++ seat.images.b.toList).length = 40 := by simp
  refine Outcome.bind_eq_ok.2 ⟨_, houtput, Outcome.bind_eq_ok.2 ⟨seat.inscribed, ?_, ?_⟩⟩
  · exact Outcome.need_eq_ok.2 hcarried
  refine Outcome.unless_eq_ok.2 ⟨not_not.2 htake, Outcome.unless_eq_ok.2 ⟨?_, ?_⟩⟩
  · rw [hdrop, not_not]
    exact hlen
  rw [hdrop, List.take_left' (by simp), List.drop_left' (by simp), Decoder.exactly_toList,
    Decoder.exactly_toList]
  rfl

/-! ## Scripts that can be spent -/

namespace Contract

variable {c : Contract}

/-- Every script of a committee that can be spent was built, and fits a push. -/
theorem fits_of_checkSpendable {resolution reply : UInt32}
    (h : c.checkSpendable resolution reply = .ok ()) {lock : Lock} (hlock : lock ∈ c.locks) :
    ∃ script, c.script resolution reply lock = .ok script ∧ script.size ≤ maxPush := by
  obtain ⟨scripts, hscripts, h⟩ := Outcome.bind_eq_ok.1 h
  obtain ⟨⟨found, script⟩, hmem, hbuilt⟩ :=
    exists_mem_of_forall₂ (Outcome.mapM_eq_ok.1 hscripts) hlock
  obtain ⟨script', hscript, heq⟩ := Outcome.bind_eq_ok.1 hbuilt
  obtain ⟨rfl, rfl⟩ := Prod.mk.inj (Outcome.pure_eq_ok.1 heq)
  refine ⟨script', hscript, ?_⟩
  split at h
  · exact absurd h Outcome.inconsistent_ne_ok
  · next hnone =>
    have hsmall := List.find?_eq_none.1 hnone _ hmem
    simpa using hsmall

/-- A script that passed the check fits a push. -/
theorem size_le_of_checkSpendable {resolution reply : UInt32} {lock : Lock} {script : Script}
    (h : c.checkSpendable resolution reply = .ok ()) (hlock : lock ∈ c.locks)
    (hscript : c.script resolution reply lock = .ok script) : script.size ≤ maxPush := by
  obtain ⟨script', hscript', hfits⟩ := fits_of_checkSpendable h hlock
  obtain rfl := Except.ok.inj (hscript.symm.trans hscript')
  exact hfits

theorem prize_mem_locks (c : Contract) (owner : Player) : Lock.prize owner ∈ c.locks := by
  cases owner <;> simp [locks, Player.all]

theorem answer_mem_locks {position : Nat} {seat : Seat}
    (hseat : c.committee[position]? = some seat) : Lock.answer position ∈ c.locks := by
  obtain ⟨hlt, -⟩ := List.getElem?_eq_some_iff.1 hseat
  refine List.mem_append_right _ (List.mem_flatMap.2 ⟨position, List.mem_range.2 hlt, ?_⟩)
  exact List.mem_cons_self

end Contract

/-! ## Plans -/

namespace Inscription

/-- What a request comes to before anyone signs. -/
structure Plan where
  seat : Seat
  payment : Script
  promised : Coin
  /-- What the oracle puts in. -/
  available : UInt64
  change : UInt64
  answer : Script
  insurance : Script
  images : Script

namespace Plan

def draft (plan : Plan) (r : Request σ) : Draft where
  version := Draft.currentVersion
  inputs := (plan.promised :: r.funding).map fun coin => ⟨coin.outpoint, RelativeLock.final, none⟩
  outputs :=
    [⟨0, plan.images⟩, ⟨r.bet.amounts.oraclePayment, plan.answer.wrapped⟩,
     ⟨r.bet.amounts.penalty, plan.insurance.wrapped⟩,
     ⟨r.bet.amounts.firstPayment, payToKey r.holder.key.publicKey.hash⟩] ++
      if plan.change = 0 then [] else [⟨plan.change, payToAddress r.change⟩]
  lockTime := 0

/-- Both players sign for the payment, and the oracle for its coins. -/
def unlocks (plan : Plan) (r : Request σ) : List (Unlock σ) :=
  .byMultisig r.players.toList plan.payment [] ::
    r.funding.map fun _ => .byKey (.held r.holder.key)

end Plan

/-- The plan is what the request comes to. -/
structure Plan.Valid (plan : Plan) (config : Config) (r : Request σ) : Prop where
  seated : r.committee[r.position]? = some plan.seat
  held : plan.seat = r.holder.seat
  timeouts : checkTimeouts config r = .ok ()
  signers : r.players.map Signer.publicKey = r.bet.players
  payment : (Contract.ofBet r.bet r.committee).payment = .ok plan.payment
  promised : promisedCoin r plan.payment = .ok plan.promised
  own : ¬ r.funding.any (·.output.locking ≠ payToKey r.holder.key.publicKey.hash) = true
  available : Coin.total r.funding = .ok plan.available
  change : Sats.sub? plan.available r.bet.amounts.penalty = some plan.change
  spendable : (Contract.ofBet r.bet r.committee).checkSpendable r.resolution r.reply = .ok ()
  answer : (Contract.ofBet r.bet r.committee).answer r.position r.resolution r.reply =
    .ok plan.answer
  insurance : (Contract.ofBet r.bet r.committee).insurance r.position r.reply =
    .ok plan.insurance
  images : carrying plan.seat.inscribed = .ok plan.images

variable {config : Config} {r : Request σ} {i : Inscription}

theorem gives_build_iff : (build config r).Gives w i w' ↔
    ∃ plan : Plan, plan.Valid config r ∧
    ∃ signed, ((plan.draft r).signAll (plan.unlocks r)).Gives w signed w' ∧
    ∃ tx, signed.finish = .ok tx ∧
    ∃ spent, Sats.add? plan.promised.output.value plan.available = some spent ∧
    ∃ paid, Output.total tx.outputs = .ok paid ∧
      Sats.add? paid r.bet.amounts.inscriptionFee = some spent ∧
      ⟨tx, plan.answer, plan.insurance, r.resolution, r.reply⟩ = i := by
  rw [build]
  constructor
  · intro h
    obtain ⟨seat, hseat, h⟩ := gives_lift_bind.1 h
    obtain ⟨hheld, h⟩ := gives_unless.1 h
    obtain ⟨_, htimeouts, h⟩ := gives_lift_bind.1 h
    obtain ⟨hsigners, h⟩ := gives_unless.1 h
    obtain ⟨payment, hpayment, h⟩ := gives_lift_bind.1 h
    obtain ⟨promised, hpromised, h⟩ := gives_lift_bind.1 h
    obtain ⟨hown, h⟩ := gives_unless.1 h
    obtain ⟨available, havailable, h⟩ := gives_lift_bind.1 h
    obtain ⟨change, hchange, h⟩ := gives_lift_bind.1 h
    obtain ⟨_, hspendable, h⟩ := gives_lift_bind.1 h
    obtain ⟨answer, hanswer, h⟩ := gives_lift_bind.1 h
    obtain ⟨insurance, hinsurance, h⟩ := gives_lift_bind.1 h
    obtain ⟨images, himages, h⟩ := gives_lift_bind.1 h
    obtain ⟨signed, _, hsigned, h⟩ := gives_bind.1 h
    obtain ⟨tx, htx, h⟩ := gives_lift_bind.1 h
    obtain ⟨spent, hspent, h⟩ := gives_lift_bind.1 h
    obtain ⟨paid, hpaid, h⟩ := gives_lift_bind.1 h
    obtain ⟨hexact, h⟩ := gives_unless.1 h
    obtain ⟨hinscription, rfl⟩ := gives_pure.1 h
    refine ⟨⟨seat, payment, promised, available, change, answer, insurance, images⟩, ?_, signed,
      hsigned, tx, htx, spent, Outcome.need_eq_ok.1 hspent, paid, hpaid, not_not.1 hexact,
      hinscription⟩
    exact {
      seated := Outcome.need_eq_ok.1 hseat
      held := not_not.1 hheld
      timeouts := htimeouts
      signers := not_not.1 hsigners
      payment := hpayment
      promised := hpromised
      own := hown
      available := havailable
      change := Outcome.need_eq_ok.1 hchange
      spendable := hspendable
      answer := hanswer
      insurance := hinsurance
      images := himages }
  · intro h
    obtain ⟨plan, hplan, signed, hsigned, tx, htx, spent, hspent, paid, hpaid, hexact, rfl⟩ := h
    refine gives_lift_bind.2 ⟨plan.seat, Outcome.need_eq_ok.2 hplan.seated, ?_⟩
    refine gives_unless.2 ⟨not_not.2 hplan.held, gives_lift_bind.2 ⟨(), hplan.timeouts, ?_⟩⟩
    refine gives_unless.2 ⟨not_not.2 hplan.signers, ?_⟩
    refine gives_lift_bind.2 ⟨plan.payment, hplan.payment, ?_⟩
    refine gives_lift_bind.2 ⟨plan.promised, hplan.promised, gives_unless.2 ⟨hplan.own, ?_⟩⟩
    refine gives_lift_bind.2 ⟨plan.available, hplan.available, ?_⟩
    refine gives_lift_bind.2 ⟨plan.change, Outcome.need_eq_ok.2 hplan.change, ?_⟩
    refine gives_lift_bind.2 ⟨(), hplan.spendable, ?_⟩
    refine gives_lift_bind.2 ⟨plan.answer, hplan.answer, ?_⟩
    refine gives_lift_bind.2 ⟨plan.insurance, hplan.insurance, ?_⟩
    refine gives_lift_bind.2 ⟨plan.images, hplan.images, ?_⟩
    refine gives_bind.2 ⟨signed, w', hsigned, gives_lift_bind.2 ⟨tx, htx, ?_⟩⟩
    refine gives_lift_bind.2 ⟨spent, Outcome.need_eq_ok.2 hspent, ?_⟩
    refine gives_lift_bind.2 ⟨paid, hpaid, gives_unless.2 ⟨not_not.2 hexact, ?_⟩⟩
    exact gives_pure.2 ⟨rfl, rfl⟩

/-! ## What was inscribed -/

/-- The seat that was inscribed, the timeouts that were chosen and the outputs that commit to
them. -/
structure Commits (config : Config) (r : Request σ) (i : Inscription) (seat : Seat) : Prop where
  seated : r.committee[r.position]? = some seat
  nominal : ∃ resolution reply, config.nominal r.bet = .ok (resolution, reply) ∧
    resolution ≤ r.resolution ∧ reply ≤ r.reply
  answer : (Contract.ofBet r.bet r.committee).answer r.position r.resolution r.reply = .ok i.answer
  insurance : (Contract.ofBet r.bet r.committee).insurance r.position r.reply = .ok i.insurance
  fits : i.answer.size ≤ maxPush
  outputs : ∃ images rest, carrying seat.inscribed = .ok images ∧
    i.transaction.outputs = ⟨0, images⟩ :: ⟨r.bet.amounts.oraclePayment, i.answer.wrapped⟩ ::
      ⟨r.bet.amounts.penalty, i.insurance.wrapped⟩ :: rest

theorem nominal_of_checkTimeouts (h : checkTimeouts config r = .ok ()) :
    ∃ resolution reply, config.nominal r.bet = .ok (resolution, reply) ∧
      resolution ≤ r.resolution ∧ reply ≤ r.reply := by
  obtain ⟨⟨resolution, reply⟩, hnominal, h⟩ := Outcome.bind_eq_ok.1 h
  obtain ⟨hbelow, -⟩ := Outcome.unless_eq_ok.1 h
  rw [not_or, UInt32.not_lt, UInt32.not_lt] at hbelow
  exact ⟨resolution, reply, hnominal, hbelow⟩

theorem commits_of_build (h : (build config r).Gives w i w') :
    ∃ seat, i.Commits config r seat := by
  obtain ⟨plan, hplan, signed, hsigned, tx, htx, _, -, _, -, -, rfl⟩ := gives_build_iff.1 h
  have hcompletes := Draft.completes_of_signAll hsigned htx
  have hfits := Contract.size_le_of_checkSpendable hplan.spendable
    (Contract.answer_mem_locks (c := .ofBet r.bet r.committee) hplan.seated) hplan.answer
  exact ⟨plan.seat, {
    seated := hplan.seated
    nominal := nominal_of_checkTimeouts hplan.timeouts
    answer := hplan.answer
    insurance := hplan.insurance
    fits := hfits
    outputs := ⟨plan.images, _, hplan.images, congrArg Draft.outputs hcompletes.bare⟩ }⟩

end Inscription

/-! ## What is recovered -/

namespace Settlement

open RelativeLock

/-- No script that the searches for the answer and the insurance try has the hash of the inscribed
one without being it. -/
structure Collisionless (s : Settlement) (i : Inscription) (position : Nat) : Prop where
  answer : ∀ {resolution reply}, s.config.nominal s.bet = .ok (resolution, reply) →
    NoPairCollision resolution reply s.config.search.pair (s.contract.answer position) i.answer
  insurance : ∀ {resolution reply}, s.config.nominal s.bet = .ok (resolution, reply) →
    NoCollision reply s.config.search.single (s.contract.insurance position) i.insurance

variable {config : Config} {r : Inscription.Request σ} {i : Inscription} {s : Settlement}
  {seat : Seat} {resolution reply : UInt32}

theorem eq_of_new {bet : Bet} {committee : List Seat} (h : new config bet committee = .ok s) :
    s = ⟨bet, committee, config⟩ := by
  obtain ⟨_, -, h⟩ := Outcome.bind_eq_ok.1 h
  obtain ⟨_, -, h⟩ := Outcome.bind_eq_ok.1 h
  exact (Outcome.pure_eq_ok.1 h).symm

theorem inscribedSeat_of_carrying {tx : Transaction} {position : Nat} {images : Script}
    {value : UInt64} {rest : List Output} (hseat : s.committee[position]? = some seat)
    (himages : carrying seat.inscribed = .ok images)
    (houtputs : tx.outputs = ⟨value, images⟩ :: rest) :
    s.inscribedSeat tx position = .ok seat := by
  refine Outcome.bind_eq_ok.2 ⟨seat, Outcome.need_eq_ok.2 hseat, ?_⟩
  refine Outcome.bind_eq_ok.2 ⟨seat, Seat.ofInscription_of_carrying himages houtputs, ?_⟩
  exact Outcome.unless_eq_ok.2 ⟨not_not.2 rfl, rfl⟩

theorem inscribedSeat_of_commits (hi : i.Commits config r seat) :
    inscribedSeat ⟨r.bet, r.committee, config⟩ i.transaction r.position = .ok seat := by
  obtain ⟨images, rest, himages, houtputs⟩ := hi.outputs
  exact inscribedSeat_of_carrying hi.seated himages houtputs

theorem recoverAnswer_of_commits (hi : i.Commits config r seat)
    (hnominal : config.nominal r.bet = .ok (resolution, reply))
    (hno : NoPairCollision resolution reply config.search.pair
      ((Contract.ofBet r.bet r.committee).answer r.position) i.answer) :
    recoverAnswer ⟨r.bet, r.committee, config⟩ i.transaction r.position =
      if excess resolution r.resolution < config.search.pair ∧
          excess reply r.reply < config.search.pair then
        .ok (i.answer, resolution + 512 * excess resolution r.resolution,
          reply + 512 * excess reply r.reply)
      else .error (.unrecovered (.pair "answer" config.search.pair resolution reply)) := by
  obtain ⟨images, rest, -, houtputs⟩ := hi.outputs
  obtain ⟨_, _, hnominal', hle, hleReply⟩ := hi.nominal
  obtain ⟨rfl, rfl⟩ := Prod.mk.inj (Except.ok.inj (hnominal.symm.trans hnominal'))
  obtain ⟨seat', hseat', lock, hlock, replyLock, hreplyLock, payment, hpayment, hassemble⟩ :=
    Contract.answer_eq_ok_iff.1 hi.answer
  obtain rfl := Option.some.inj (hi.seated.symm.trans hseat')
  have hscript : (Contract.ofBet r.bet r.committee).answerScript seat r.position payment lock
      replyLock = i.answer := by
    rw [Contract.answerScript, assembled, hassemble]
    rfl
  have houtput : i.transaction.output Inscription.answerPlace =
      .ok ⟨r.bet.amounts.oraclePayment, i.answer.wrapped⟩ :=
    Transaction.output_eq_ok.2 (by rw [houtputs]; rfl)
  have hinjective := Contract.answerScript_injective seat hpayment
    (Contract.length_images_lt_of_answer hassemble hi.fits)
  rw [← searchPair_of_built (Contract.builtFrom_answer hi.seated hpayment) hinjective hle hleReply
    hlock hreplyLock hscript hno]
  simp only [recoverAnswer, houtput, committedHash_wrapped, hnominal, Outcome.ok_bind]
  rfl

theorem recoverInsurance_of_commits (hi : i.Commits config r seat)
    (hnominal : config.nominal r.bet = .ok (resolution, reply))
    (hno : NoCollision reply config.search.single
      ((Contract.ofBet r.bet r.committee).insurance r.position) i.insurance) :
    recoverInsurance ⟨r.bet, r.committee, config⟩ i.transaction r.position =
      if excess reply r.reply < config.search.single then
        .ok (i.insurance, reply + 512 * excess reply r.reply)
      else .error (.unrecovered (.single "insurance" config.search.single reply)) := by
  obtain ⟨images, rest, -, houtputs⟩ := hi.outputs
  obtain ⟨_, _, hnominal', -, hleReply⟩ := hi.nominal
  obtain ⟨rfl, rfl⟩ := Prod.mk.inj (Except.ok.inj (hnominal.symm.trans hnominal'))
  obtain ⟨seat', hseat', replyLock, hreplyLock, hassemble⟩ :=
    Contract.insurance_eq_ok_iff.1 hi.insurance
  obtain rfl := Option.some.inj (hi.seated.symm.trans hseat')
  have hscript : (Contract.ofBet r.bet r.committee).insuranceScript seat replyLock =
      i.insurance := by
    rw [Contract.insuranceScript, assembled, hassemble]
    rfl
  have houtput : i.transaction.output Inscription.insurancePlace =
      .ok ⟨r.bet.amounts.penalty, i.insurance.wrapped⟩ :=
    Transaction.output_eq_ok.2 (by rw [houtputs]; rfl)
  rw [← search_of_built (Contract.builtFrom_insurance hi.seated)
    (Contract.insuranceScript_injective _ seat) hleReply hreplyLock hscript hno]
  simp only [recoverInsurance, houtput, committedHash_wrapped, hnominal, Outcome.ok_bind]
  rfl

/-- An inscription that was built is accepted for its seat, and both its scripts are found again
exactly when the chosen timeouts are within the bounds of the search. The timeouts that are found
have the locks of the chosen ones. -/
theorem recovers_inscription (hs : new config r.bet r.committee = .ok s)
    (hbuild : (Inscription.build config r).Gives w i w') (hno : s.Collisionless i r.position) :
    ∃ seat resolution reply, r.committee[r.position]? = some seat ∧
      config.nominal r.bet = .ok (resolution, reply) ∧
      s.inscribedSeat i.transaction r.position = .ok seat ∧
      s.recoverAnswer i.transaction r.position =
        (if excess resolution r.resolution < config.search.pair ∧
            excess reply r.reply < config.search.pair then
          .ok (i.answer, resolution + 512 * excess resolution r.resolution,
            reply + 512 * excess reply r.reply)
        else .error (.unrecovered (.pair "answer" config.search.pair resolution reply))) ∧
      s.recoverInsurance i.transaction r.position =
        (if excess reply r.reply < config.search.single then
          .ok (i.insurance, reply + 512 * excess reply r.reply)
        else .error (.unrecovered (.single "insurance" config.search.single reply))) ∧
      sequence (resolution + 512 * excess resolution r.resolution) = sequence r.resolution ∧
      sequence (reply + 512 * excess reply r.reply) = sequence r.reply := by
  obtain rfl := eq_of_new hs
  obtain ⟨seat, hi⟩ := Inscription.commits_of_build hbuild
  obtain ⟨resolution, reply, hnominal, hle, hleReply⟩ := hi.nominal
  obtain ⟨-, -, lock, hlock, replyLock, hreplyLock, -⟩ := Contract.answer_eq_ok_iff.1 hi.answer
  refine ⟨seat, resolution, reply, hi.seated, hnominal, inscribedSeat_of_commits hi,
    recoverAnswer_of_commits hi hnominal (hno.answer hnominal),
    recoverInsurance_of_commits hi hnominal (hno.insurance hnominal), ?_, ?_⟩
  · rw [sequence_excess hle hlock, hlock]
  · rw [sequence_excess hleReply hreplyLock, hreplyLock]

end Settlement

/-! ## A late inscription

The only oracle of a committee takes more time to reply than the bet asks for. The answer is then
not found within the first timeout, but the insurance is within the first two. -/

namespace Inscription

/-- The key of the oracle, whose secret is three. -/
def lateKey : PrivateKey where
  secret := 3
  publicKey := Contract.greedy.committee[0].oracle
  secret_lt := by decide
  generates := by decide +kernel

def lateHolder : SeatHolder := ⟨lateKey, ⟨⟨.replicate 32 0⟩, ⟨.replicate 32 1⟩⟩⟩

/-- The hash with these digits. -/
def lateHash (n : Nat) : Hash160 := ⟨(bigEndian 20 n).toArray, by simp⟩

def lateSeat : Seat where
  oracle := lateKey.publicKey
  images := ⟨lateHash 0xb8bcb07f6344b42ab04250c86a6e8b75d3fdbbc6,
    lateHash 0x4b6b2e5444c2639cc0fb7bcea5afba3f3cdce239⟩

def lateBet : Bet where
  network := .testnet
  description := ""
  minOracles := 1
  maxOracles := 1
  required := 1
  oracles := [lateSeat.oracle]
  backups := []
  players := Contract.greedy.players
  amounts := ⟨0, 0, 1, 0, 0, 0⟩
  timeout := ⟨.seconds, 100⟩
  channel := ⟨["a", "b"]⟩

def lateConfig : Config := ⟨.testnet, ⟨2, 1⟩, 2⟩

def lateContract : Contract := .ofBet lateBet [lateSeat]

def latePayment : Script := lateContract.payment.toOption.getD .empty

def lateAnswer : Script := lateContract.answerScript lateSeat 0 latePayment 0x400000 0x400001

def lateInsurance : Script := lateContract.insuranceScript lateSeat 0x400001

def lateImages : Script := (carrying lateSeat.inscribed).toOption.getD .empty

def latePromise : Transaction :=
  ⟨2, [], [⟨0, .empty⟩, ⟨1, .empty⟩, ⟨1, .empty⟩, ⟨0, latePayment.wrapped⟩], 0⟩

def lateOutputs : List Output :=
  [⟨0, lateImages⟩, ⟨0, lateAnswer.wrapped⟩, ⟨0, lateInsurance.wrapped⟩,
   ⟨0, payToKey lateKey.publicKey.hash⟩]

def lateDraft : Draft := ⟨2, [⟨⟨latePromise.txid, 3⟩, RelativeLock.final, none⟩], lateOutputs, 0⟩

def lateSignature : Player → Bytes
  | .A => Signature.toDer ⟨0xdc66b99e2ed0ffd75271e24ed8d2de26ea3b46e51c54125f65ce604728bfb6a8,
      0x407c43ea803c127aea1b6499862077df74885416e0c4c4586fdca669718683b6⟩ ++ [sighashAll]
  | .B => Signature.toDer ⟨0x42ff20e84cfb5586883a7c322de6ccca6ff83d17542e8ac6cdbc113578ca5a0b,
      0x103657e1f2c359dd0823ead722f489e8dca607088910553d8e832b366eee76cf⟩ ++ [sighashAll]

/-- A player who answers every request with the same signature. -/
def latePlayer (player : Player) : Signer Unit :=
  .remote (lateBet.players.get player)
    ⟨fun _ _ => pure (), fun _ => pure (some (lateSignature player))⟩

def lateRequest : Request Unit where
  bet := lateBet
  committee := [lateSeat]
  promise := latePromise
  position := 0
  holder := lateHolder
  resolution := 500
  reply := 700
  funding := []
  change := ⟨.testnet, .key, .replicate 20 0⟩
  players := ⟨latePlayer .A, latePlayer .B⟩

def lateUnlock : Unlock Unit := .byMultisig lateRequest.players.toList latePayment []

def lateUnlocking : Script :=
  (lateUnlock.script [lateSignature .A, lateSignature .B]).toOption.getD .empty

def late : Inscription where
  transaction := ⟨2, [⟨⟨latePromise.txid, 3⟩, lateUnlocking, RelativeLock.final⟩], lateOutputs, 0⟩
  answer := lateAnswer
  insurance := lateInsurance
  resolution := 500
  reply := 700

theorem late_payment : lateContract.payment = .ok latePayment := rfl

theorem late_answer : lateContract.answer 0 500 700 = .ok lateAnswer := by
  have hresolution : RelativeLock.sequence 500 = .ok 0x400000 := rfl
  exact (Contract.builtFrom_answer rfl late_payment hresolution).2 ⟨0x400001, rfl, rfl⟩

theorem late_insurance : lateContract.insurance 0 700 = .ok lateInsurance :=
  (Contract.builtFrom_insurance rfl).2 ⟨0x400001, rfl, rfl⟩

def latePaymentHash : Hash160 := lateHash 0x12fcac201d73f5b5dba0f1f22c40f02da17bb4a4

def lateAnswerHash : Hash160 := lateHash 0x6f6b4a3976d80e6b614c60dcb95f10460a0d5c0d

def lateInsuranceHash : Hash160 := lateHash 0xddadacf0f894b5a2d6b4e155817a304635fa7e10

def lateKeyHash : Hash160 := lateHash 0x7dd65592d0ab2fe0d0257d571abf032cd9db93dc

def lateTxid : Txid :=
  ⟨⟨(bigEndian 32 0x77749be5d78fa543f16e515c111fc1d2f4da524abe929795c755cddb4f013bd5).toArray,
    by simp⟩⟩

theorem late_hashes : lateHolder.seat = lateSeat ∧ latePromise.txid = lateTxid ∧
    lateAnswer.hash = lateAnswerHash ∧ lateInsurance.hash = lateInsuranceHash ∧
    lateKey.publicKey.hash = lateKeyHash := by
  have hpayment : latePayment.hash = latePaymentHash := by
    rw [Script.hash, hash160_eq]
    decide +kernel
  have htxid : latePromise.txid = lateTxid := by
    rw [latePromise, wrapped, hpayment, Transaction.txid, doubleSha256_eq]
    decide +kernel
  rw [htxid]
  simp only [SeatHolder.seat, Sides.map, Secret.image, Script.hash, PublicKey.hash, hash160_eq]
  decide +kernel

/-- The scripts of the candidates that were not chosen have other hashes. -/
theorem late_others : (lateContract.answerScript lateSeat 0 latePayment 0x400000 0x400000).hash ≠
      lateAnswerHash ∧
    (lateContract.insuranceScript lateSeat 0x400000).hash ≠ lateInsuranceHash := by
  simp only [Script.hash, hash160_eq]
  decide +kernel

/-- The draft with its hashes written out. -/
theorem late_draft : lateDraft = ⟨2, [⟨⟨lateTxid, 3⟩, RelativeLock.final, none⟩],
    [⟨0, lateImages⟩, ⟨0, payToScript lateAnswerHash⟩, ⟨0, payToScript lateInsuranceHash⟩,
     ⟨0, payToKey lateKeyHash⟩], 0⟩ := by
  obtain ⟨-, htxid, hanswer, hinsurance, hkey⟩ := late_hashes
  rw [lateDraft, lateOutputs, wrapped, wrapped, htxid, hanswer, hinsurance, hkey]

theorem late_scripts : lateContract.checkSpendable 500 700 = .ok () ∧
    carrying lateSeat.inscribed = .ok lateImages ∧
    lateUnlock.script [lateSignature .A, lateSignature .B] = .ok lateUnlocking :=
  ⟨by decide +kernel, Outcome.eq_ok_of_isSome (by decide +kernel),
    Outcome.eq_ok_of_isSome (by decide +kernel)⟩

def lateDigest : Hash256 :=
  ⟨(bigEndian 32 0x6fa9bdee8a91bed399cfbdfe3dd98e85ad334b1657338bc406a3263d4ebb5453).toArray,
    by simp⟩

theorem late_digest : lateDraft.digest 0 latePayment sighashAll = .ok lateDigest := by
  rw [late_draft, Draft.digest, doubleSha256_eq]
  decide +kernel

theorem late_sign (player : Player) :
    ((latePlayer player).sign lateDraft 0 latePayment).Gives () (lateSignature player) () := by
  have hverify : (lateBet.players.get player).verifyInput lateDraft 0 latePayment
      (lateSignature player) = .ok true := by
    rw [PublicKey.verifyInput, late_digest]
    cases player <;> decide +kernel
  refine gives_bind.2 ⟨⟨⟩, (), gives_pure.2 ⟨rfl, rfl⟩, ?_⟩
  refine gives_bind.2 ⟨lateSignature player, (), gives_pure.2 ⟨rfl, rfl⟩, ?_⟩
  refine gives_unless.2 ⟨by cases player <;> decide +kernel, ?_⟩
  refine gives_bind.2 ⟨true, (), gives_lift.2 ⟨hverify, rfl⟩, gives_pure.2 ⟨rfl, rfl⟩⟩

theorem late_signAll :
    (lateDraft.signAll [lateUnlock]).Gives () (lateDraft.unlocked [lateUnlocking]) () := by
  have hsigned : Gives ([latePlayer .A, latePlayer .B].mapM (·.sign lateDraft 0 latePayment)) ()
      [lateSignature .A, lateSignature .B] () :=
    gives_mapM_of_forall₂ (.cons (late_sign .A) (.cons (late_sign .B) .nil))
  exact Draft.gives_signAll rfl (Draft.gives_unlockingScripts_cons rfl hsigned late_scripts.2.2
    (gives_pure.2 ⟨rfl, rfl⟩))

/-- The coin of the promise that the oracle spends. -/
def lateCoin : Coin := ⟨⟨latePromise.txid, 3⟩, 0, latePayment.wrapped⟩

theorem promised_late : promisedCoin lateRequest latePayment = .ok lateCoin := by
  refine Outcome.bind_eq_ok.2 ⟨lateCoin, rfl, Outcome.unless_eq_ok.2 ⟨not_not.2 rfl, ?_⟩⟩
  exact Outcome.bind_eq_ok.2 ⟨0, rfl, Outcome.unless_eq_ok.2 ⟨by decide, rfl⟩⟩

theorem late_build : (build lateConfig lateRequest).Gives () late () := by
  obtain ⟨hspendable, himages, -⟩ := late_scripts
  refine gives_build_iff.2 ⟨⟨lateSeat, latePayment, lateCoin, 0, 0, lateAnswer, lateInsurance,
    lateImages⟩, ?_, _, late_signAll, late.transaction, rfl, 0, rfl, 0, rfl, by decide, rfl⟩
  exact {
    seated := rfl
    held := late_hashes.1.symm
    timeouts := rfl
    signers := rfl
    payment := late_payment
    promised := promised_late
    own := by decide
    available := rfl
    change := rfl
    spendable := hspendable
    answer := late_answer
    insurance := late_insurance
    images := himages }

end Inscription

namespace Settlement

def late : Settlement := ⟨Inscription.lateBet, [Inscription.lateSeat], Inscription.lateConfig⟩

theorem nominal_late {resolution reply : UInt32}
    (h : late.config.nominal late.bet = .ok (resolution, reply)) :
    100 = resolution ∧ 200 = reply :=
  Prod.mk.inj (Except.ok.inj h)

theorem collisionless_late : late.Collisionless Inscription.late 0 where
  answer := by
    intro resolution reply hnominal offset hoffset timeout hcandidate offset' hoffset' timeout'
      other hcandidate' hother hhash
    obtain ⟨rfl, rfl⟩ := nominal_late hnominal
    obtain rfl := UInt32.lt_one_iff.1 hoffset
    obtain rfl := UInt32.lt_one_iff.1 hoffset'
    obtain rfl : 100 = timeout := Option.some.inj hcandidate
    obtain rfl : 200 = timeout' := Option.some.inj hcandidate'
    have hresolution : RelativeLock.sequence 100 = .ok 0x400000 := rfl
    obtain ⟨lock, hlock, rfl⟩ :=
      (Contract.builtFrom_answer rfl Inscription.late_payment hresolution).1 hother
    obtain rfl : 0x400000 = lock := Except.ok.inj hlock
    obtain ⟨-, -, hanswer, -⟩ := Inscription.late_hashes
    exact absurd (hhash.trans hanswer) Inscription.late_others.1
  insurance := by
    intro resolution reply hnominal offset hoffset timeout other hcandidate hother hhash
    obtain ⟨rfl, rfl⟩ := nominal_late hnominal
    obtain rfl | rfl : offset = 0 ∨ offset = 1 := by
      have hlt : offset.toNat < 2 := hoffset
      rw [← UInt32.toNat_inj, ← UInt32.toNat_inj]
      change offset.toNat = 0 ∨ offset.toNat = 1
      omega
    · obtain rfl : 200 = timeout := Option.some.inj hcandidate
      obtain ⟨lock, hlock, rfl⟩ := (Contract.builtFrom_insurance rfl).1 hother
      obtain rfl : 0x400000 = lock := Except.ok.inj hlock
      obtain ⟨-, -, -, hinsurance, -⟩ := Inscription.late_hashes
      exact absurd (hhash.trans hinsurance) Inscription.late_others.2
    · obtain rfl : 712 = timeout := Option.some.inj hcandidate
      have hsame : late.contract.insurance 0 712 = .ok Inscription.lateInsurance :=
        Inscription.late_insurance
      exact Except.ok.inj (hother.symm.trans hsame)

theorem late_recovered : new Inscription.lateConfig Inscription.lateBet [Inscription.lateSeat] =
      .ok late ∧
    late.inscribedSeat Inscription.late.transaction 0 = .ok Inscription.lateSeat ∧
    late.recoverAnswer Inscription.late.transaction 0 =
      .error (.unrecovered (.pair "answer" 1 100 200)) ∧
    late.recoverInsurance Inscription.late.transaction 0 =
      .ok (Inscription.lateInsurance, 712) := by
  have hs : new Inscription.lateConfig Inscription.lateBet [Inscription.lateSeat] = .ok late := by
    refine Outcome.bind_eq_ok.2 ⟨(), rfl, Outcome.bind_eq_ok.2 ⟨(), ?_, rfl⟩⟩
    decide
  obtain ⟨seat, resolution, reply, hseat, hnominal, hinscribed, hanswer, hinsurance, -⟩ :=
    recovers_inscription hs Inscription.late_build collisionless_late
  obtain ⟨rfl, rfl⟩ := nominal_late hnominal
  obtain rfl : Inscription.lateSeat = seat := Option.some.inj hseat
  exact ⟨hs, hinscribed, hanswer, hinsurance⟩

end Settlement

end Wager
