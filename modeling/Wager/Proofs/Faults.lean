import Wager.Contract.Promise
import Wager.Proofs.Templates

/-!
# Where faults come from

What a step can fail with is said of every fault at once (`Outcome.Faults`, `Exchange.Faults`), and
of several steps in a row by what each of them can fail with.

**Scripts** are assembled unless something in them is malformed. Those of a contract are built
unless a seat is missing or a timeout has no lock (`Contract.faults_script`).

**Signing** fails over the draft and its unlocks, or because a signature is not made
(`Fault.ofSigning`). Any other fault is that of a link over which a signer was asked
(`Link.Raises`), which may fail as it likes.
-/

namespace Wager

variable {α β σ : Type} {P Q : Fault → Prop} {fault : Fault}

/-! ## Outcomes -/

namespace Outcome

/-- Whatever the outcome fails with has the property. -/
def Faults (P : Fault → Prop) (x : Outcome α) : Prop := ∀ fault, x = .error fault → P fault

namespace Faults

variable {x : Outcome α} {f : α → Outcome β}

theorem of_eq_ok {a : α} (h : x = .ok a) : Faults P x := by
  intro fault hfails
  cases h.symm.trans hfails

theorem ok (a : α) : Faults P (.ok a : Outcome α) := of_eq_ok rfl

theorem error (h : P fault) : Faults P (.error fault : Outcome α) := by
  intro fault' heq
  obtain rfl := Except.error.inj heq
  exact h

theorem mono (hx : Faults P x) (h : ∀ fault, P fault → Q fault) : Faults Q x :=
  fun fault heq => h fault (hx fault heq)

theorem need {o : Option α} (h : P fault) : Faults P (need fault o) := by
  cases o with
  | none => exact error h
  | some a => exact ok a

theorem bind (hx : Faults P x) (hf : ∀ a, x = .ok a → Faults P (f a)) : Faults P (x >>= f) := by
  intro fault h
  rcases bind_eq_error.1 h with hfails | ⟨a, ha, hfails⟩
  · exact hx fault hfails
  · exact hf a ha fault hfails

theorem check {p : Prop} [Decidable p] {f : PUnit → Outcome α} (h : P fault)
    (hf : Faults P (f ⟨⟩)) :
    Faults P (if p then (throw fault : Outcome PUnit) >>= f else f ⟨⟩) := by
  split
  · exact error h
  · exact hf

theorem mapM {f : α → Outcome β} (hf : ∀ a, Faults P (f a)) (xs : List α) :
    Faults P (xs.mapM f) := by
  induction xs with
  | nil => exact ok []
  | cons x xs ih =>
    rw [List.mapM_cons]
    exact bind (hf x) fun _ _ => bind ih fun _ _ => ok _

end Faults

end Outcome

/-! ## Exchanges -/

namespace Exchange

/-- Whatever the exchange fails with, in any world, has the property. -/
def Faults (P : Fault → Prop) (x : Exchange σ α) : Prop :=
  ∀ w fault w', x.resultIn w = (.error fault, w') → P fault

namespace Faults

variable {x : Exchange σ α} {f : α → Exchange σ β}

theorem pure (a : α) : Faults P (pure a : Exchange σ α) := fun _ _ _ h => nomatch h

theorem throw (h : P fault) : Faults P (throw fault : Exchange σ α) := by
  intro w fault' w' heq
  obtain rfl := Except.error.inj (Prod.mk.inj heq).1
  exact h

theorem lift {o : Outcome α} (h : o.Faults P) : Faults P (liftM o : Exchange σ α) :=
  fun _ fault _ heq => h fault (Prod.mk.inj heq).1

theorem bind (hx : Faults P x) (hf : ∀ w a w', x.Gives w a w' → Faults P (f a)) :
    Faults P (x >>= f) := by
  intro w fault w' h
  rcases resultIn_bind_eq_error.1 h with hfails | ⟨a, w₁, ha, hfails⟩
  · exact hx w fault w' hfails
  · exact hf w a w₁ ha w₁ fault w' hfails

/-- A step that talks to nobody. -/
theorem bindLift {o : Outcome α} (ho : o.Faults P) (hf : ∀ a, o = .ok a → Faults P (f a)) :
    Faults P (liftM o >>= f) :=
  bind (lift ho) fun _ a _ h => hf a (gives_lift.1 h).1

theorem check {p : Prop} [Decidable p] {f : PUnit → Exchange σ α} (h : P fault)
    (hf : ¬ p → Faults P (f ⟨⟩)) :
    Faults P (if p then (MonadExcept.throw fault : Exchange σ PUnit) >>= f else f ⟨⟩) := by
  split
  · exact bind (throw h) fun _ _ _ hgives => absurd hgives not_gives_throw
  · next hp => exact hf hp

theorem mapM {f : α → Exchange σ β} {xs : List α} (hf : ∀ x ∈ xs, Faults P (f x)) :
    Faults P (xs.mapM f) := by
  induction xs with
  | nil => exact pure []
  | cons x xs ih =>
    obtain ⟨hx, hxs⟩ := List.forall_mem_cons.1 hf
    rw [List.mapM_cons]
    exact bind hx fun _ _ _ _ => bind (ih hxs) fun _ _ _ _ => pure _

end Faults

end Exchange

open Outcome

/-! ## Scripts -/

def Fault.isMalformed : Fault → Bool
  | .malformed _ => true
  | _ => false

/-- The outcome fails only over something malformed. -/
abbrev Outcome.OnlyMalformed (x : Outcome α) : Prop :=
  x.Faults fun fault => fault.isMalformed = true

namespace Script

theorem faults_encodePush (data : Bytes) : (encodePush data).OnlyMalformed := by
  unfold encodePush
  dsimp only
  split_ifs
  · exact .ok _
  · exact .ok _
  · exact .ok _
  · exact .error rfl

theorem faults_assemble (pieces : List Piece) : (assemble pieces).OnlyMalformed := by
  refine .bind (.mapM (fun piece => ?_) pieces) fun _ _ => .ok _
  cases piece with
  | op code => exact .ok _
  | push data => exact faults_encodePush data
  | splice script => exact .ok _

end Script

/-! ## Scripts of a contract -/

/-- Whether the building of a contract's script raises a fault of this kind. -/
def Fault.ofBuilding : Fault → Bool
  | .malformed (.seatOf _ _) => true
  | .malformed (.relativeTimeout _) => true
  | _ => false

theorem Fault.isMalformed_of_ofBuilding (fault : Fault) (h : fault.ofBuilding = true) :
    fault.isMalformed = true := by
  cases fault with
  | malformed => rfl
  | _ => cases h

/-- The outcome fails only for want of a seat or over a timeout without a lock. -/
abbrev Outcome.OnlyBuilding (x : Outcome α) : Prop :=
  x.Faults fun fault => fault.ofBuilding = true

theorem RelativeLock.faults_sequence (seconds : UInt32) : (sequence seconds).OnlyBuilding := by
  unfold sequence
  dsimp only
  split_ifs
  · exact .error rfl
  · exact .ok _

namespace Contract

open RelativeLock Script

theorem faults_payment (c : Contract) : c.payment.Faults P := by
  obtain ⟨payment, hpayment⟩ := c.exists_payment
  exact .of_eq_ok hpayment

theorem faults_prize (c : Contract) (owner : Player) (resolution : UInt32) :
    (c.prize owner resolution).OnlyBuilding := by
  refine .bind (faults_sequence resolution) fun lock _ => ?_
  exact .of_eq_ok (assemble_of_fits (c.fits_prizePieces owner lock))

theorem faults_answer (c : Contract) (position : Nat) (resolution reply : UInt32) :
    (c.answer position resolution reply).OnlyBuilding := by
  refine .bind (.need rfl) fun seat _ => .bind (faults_sequence resolution) fun first _ => ?_
  refine .bind (faults_sequence reply) fun second _ => .bind c.faults_payment fun payment _ => ?_
  exact .of_eq_ok (assemble_of_fits (fits_answerPieces first second))

theorem faults_insurance (c : Contract) (position : Nat) (reply : UInt32) :
    (c.insurance position reply).OnlyBuilding := by
  refine .bind (.need rfl) fun seat _ => .bind (faults_sequence reply) fun lock _ => ?_
  exact .of_eq_ok (assemble_of_fits (fits_insurancePieces lock))

theorem faults_script (c : Contract) (resolution reply : UInt32) (lock : Lock) :
    (c.script resolution reply lock).OnlyBuilding := by
  cases lock with
  | prize owner => exact c.faults_prize owner resolution
  | answer position => exact c.faults_answer position resolution reply
  | insurance position => exact c.faults_insurance position reply

end Contract

/-! ## Signing -/

/-- The link fails with the fault at some time. -/
def Link.Raises (link : Link σ) (fault : Fault) : Prop :=
  ∃ w w', (∃ topic message, (link.send topic message).resultIn w = (.error fault, w')) ∨
    ∃ topic, (link.receive topic).resultIn w = (.error fault, w')

/-- The signer is asked over a link that fails with the fault. -/
def Signer.Raises : Signer σ → Fault → Prop
  | .held _, _ => False
  | .remote _ link, fault => link.Raises fault

/-- Whether a signer raises a fault of this kind by itself. -/
def Fault.ofSigner : Fault → Bool
  | .malformed (.signedInput _ _) => true
  | .signing _ => true
  | .collaborator (.silent _) => true
  | _ => false

/-- Whether signing raises a fault of this kind by itself. -/
def Fault.ofSigning : Fault → Bool
  | .malformed _ => true
  | .inconsistent (.unlockCount _ _) => true
  | .inconsistent (.signerCount _) => true
  | .signing _ => true
  | .collaborator (.silent _) => true
  | _ => false

theorem Fault.ofSigning_of_isMalformed (fault : Fault) (h : fault.isMalformed = true) :
    fault.ofSigning = true := by
  cases fault with
  | malformed => rfl
  | _ => cases h

theorem Fault.ofSigning_of_ofSigner (fault : Fault) (h : fault.ofSigner = true) :
    fault.ofSigning = true := by
  cases fault with
  | malformed => rfl
  | signing => rfl
  | collaborator cause =>
    cases cause with
    | silent => rfl
    | _ => cases h
  | _ => cases h

theorem Draft.faults_digest (d : Draft) (index : Nat) (code : Script) (hashType : UInt8) :
    (d.digest index code hashType).Faults fun fault => fault.ofSigner = true := by
  unfold digest
  split
  · exact .ok _
  · exact .error rfl

theorem PublicKey.faults_verifyInput (key : PublicKey) (d : Draft) (index : Nat) (code : Script)
    (signature : Bytes) :
    (key.verifyInput d index code signature).Faults fun fault => fault.ofSigner = true := by
  unfold verifyInput
  split
  · rw [map_eq_pure_bind]
    exact .bind (d.faults_digest index code sighashAll) fun _ _ => .ok _
  · exact .ok _

theorem Link.faults_expect (link : Link σ) (topic : Topic) :
    Exchange.Faults (fun fault => fault.ofSigner = true ∨ link.Raises fault)
      (link.expect topic) := by
  refine .bind ?_ fun _ message _ _ => ?_
  · exact fun w fault w' h => .inr ⟨w, w', .inr ⟨topic, h⟩⟩
  · cases message with
    | some message => exact .pure message
    | none => exact .throw (.inl rfl)

theorem Signer.faults_sign (signer : Signer σ) (d : Draft) (index : Nat) (code : Script) :
    Exchange.Faults (fun fault => fault.ofSigner = true ∨ signer.Raises fault)
      (signer.sign d index code) := by
  cases signer with
  | held key =>
    refine .lift (.mono ?_ fun _ => .inl)
    exact .bind (d.faults_digest index code sighashAll) fun _ _ => .ok _
  | remote peer link =>
    refine .bind (fun w fault w' h => .inr ⟨w, w', .inl ⟨_, _, h⟩⟩) fun _ _ _ _ => ?_
    refine .bind (link.faults_expect .signature) fun _ signature _ _ => ?_
    refine .check (.inl rfl) fun _ => ?_
    refine .bindLift (.mono (peer.faults_verifyInput d index code signature) fun _ => .inl) ?_
    intro valid _
    cases valid with
    | false => exact .bind (.throw (.inl rfl)) fun _ _ _ h => absurd h Exchange.not_gives_throw
    | true => exact .pure signature

namespace Unlock

theorem faults_onlySigner (u : Unlock σ) :
    u.onlySigner.Faults fun fault => fault.ofSigning = true := by
  unfold onlySigner
  split
  · exact .ok _
  · exact .error rfl

theorem faults_scriptCode (u : Unlock σ) :
    u.scriptCode.Faults fun fault => fault.ofSigning = true := by
  unfold scriptCode
  split
  · rw [map_eq_pure_bind]
    exact .bind u.faults_onlySigner fun _ _ => .ok _
  · exact .ok _

theorem faults_script (u : Unlock σ) (signatures : List Bytes) :
    (u.script signatures).Faults fun fault => fault.ofSigning = true := by
  have hassemble (pieces : List Script.Piece) :=
    (Script.faults_assemble pieces).mono Fault.ofSigning_of_isMalformed
  unfold script
  split
  · exact .bind u.faults_onlySigner fun _ _ => hassemble _
  · exact hassemble _

end Unlock

namespace Draft

variable {unlocks : List (Unlock σ)}

/-- The fault is one of signing, or that of a link to a signer. -/
def BlamesSigning (unlocks : List (Unlock σ)) (fault : Fault) : Prop :=
  fault.ofSigning = true ∨ ∃ u ∈ unlocks, ∃ signer ∈ u.signers, signer.Raises fault

/-- Unlocking scripts fail over a code that is missing, a signature that is not made or a script
that cannot be assembled from the signatures. -/
theorem faults_unlockingScripts {d : Draft} (index : Nat)
    (hcode : ∀ u ∈ unlocks, u.scriptCode.Faults P)
    (hsign : ∀ u ∈ unlocks, ∀ signer ∈ u.signers, ∀ index code,
      Exchange.Faults P (signer.sign d index code))
    (hscript : ∀ u ∈ unlocks, ∀ index code w signatures w',
      (u.signers.mapM (Signer.sign d index code)).Gives w signatures w' →
        (u.script signatures).Faults P) :
    Exchange.Faults P (d.unlockingScripts index unlocks) := by
  induction unlocks generalizing index with
  | nil => exact .pure []
  | cons u unlocks ih =>
    rw [List.forall_mem_cons] at hcode hsign hscript
    refine .bindLift hcode.1 fun code _ => ?_
    refine .bind (.mapM fun signer hsigner => hsign.1 signer hsigner index code) ?_
    intro w signatures w' hsigned
    refine .bindLift (hscript.1 index code w signatures w' hsigned) fun script _ => ?_
    exact .bind (ih (index + 1) hcode.2 hsign.2 hscript.2) fun _ _ _ _ => .pure _

theorem faults_signAll_of {d : Draft} (hcount : ∀ count inputs,
      P (.inconsistent (.unlockCount count inputs)))
    (hscripts : Exchange.Faults P (d.unlockingScripts 0 unlocks)) :
    Exchange.Faults P (d.signAll unlocks) := by
  rw [signAll_eq]
  exact .check (hcount _ _) fun _ => .bind hscripts fun _ _ _ _ => .pure _

/-- Signing a draft fails by itself or over a link to a signer. -/
theorem faults_signAll (d : Draft) (unlocks : List (Unlock σ)) :
    Exchange.Faults (BlamesSigning unlocks) (d.signAll unlocks) := by
  refine faults_signAll_of (fun _ _ => .inl rfl) (faults_unlockingScripts 0 ?_ ?_ ?_)
  · exact fun u _ => u.faults_scriptCode.mono fun _ => .inl
  · intro u hu signer hsigner index code w fault w' h
    refine (signer.faults_sign d index code w fault w' h).imp (fault.ofSigning_of_ofSigner) ?_
    exact fun hraises => ⟨u, hu, signer, hsigner, hraises⟩
  · exact fun u _ _ _ _ signatures _ _ => (u.faults_script signatures).mono fun _ => .inl

end Draft

/-! ## Fees -/

namespace Output

theorem faults_chargeEach (outputs : List Output) (fees : List UInt64) :
    (chargeEach outputs fees).2.Faults fun fault => fault.isMalformed = false := by
  induction outputs generalizing fees with
  | nil => exact .ok ()
  | cons o outputs ih =>
    cases fees with
    | nil => exact .ok ()
    | cons fee fees =>
      rw [chargeEach, charge]
      cases Sats.sub? o.value fee with
      | none => exact .error rfl
      | some value => exact ih fees

/-- The taking of a fee fails for want of money or of an output, over nothing malformed. -/
theorem faults_afterFee (outputs : List Output) (fee : UInt64) :
    (afterFee outputs fee).Faults fun fault => fault.isMalformed = false := by
  have hsplit : (splitFee outputs fee).2.Faults fun fault => fault.isMalformed = false := by
    unfold splitFee
    split
    · exact .error rfl
    · exact faults_chargeEach _ _
  exact .bind hsplit fun _ _ => .ok _

end Output

end Wager
