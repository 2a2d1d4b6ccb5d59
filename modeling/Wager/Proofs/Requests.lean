import Wager.Proofs.Faults
import Wager.Proofs.Tolerance

/-!
# What is asked before funds are found short

The fee of a draft is known only when the draft has been signed once. So two kinds of shortage are
found at two times: outputs that distribute more than the inputs before anyone is asked, and outputs
that cannot pay the fee after every signer was asked to sign the draft that does not pay it yet.

**Notes** are taken of what is sent, beside the world (`Link.noted`). Taking them changes nothing
else, and a step notes the front of what it asks for, and all of it if it succeeds
(`Exchange.Notes`).

Main result: `Draft.asked_of_short`.
-/

namespace Wager

open Exchange

variable {α β σ : Type} {w w' : σ}

theorem Mailbox.not_raises (fault : Fault) : ¬ link.Raises fault := by
  rintro ⟨_, _, ⟨_, _, h⟩ | ⟨_, h⟩⟩
  · cases (Prod.mk.inj h).1
  · cases (Prod.mk.inj h).1

/-! ## Notes -/

/-- Messages that were sent, the oldest first. -/
abbrev Notebook := List (Topic × Bytes)

/-- The link, over which nothing is sent without a note of it. -/
def Link.noted (link : Link σ) : Link (σ × Notebook) where
  send topic message := fun (w, notes) =>
    ((link.send topic message).resultIn w).map id fun w' => (w', notes ++ [(topic, message)])
  receive topic := fun (w, notes) => ((link.receive topic).resultIn w).map id fun w' => (w', notes)

def Signer.noted : Signer σ → Signer (σ × Notebook)
  | .held key => .held key
  | .remote peer link => .remote peer link.noted

def Unlock.noted (u : Unlock σ) : Unlock (σ × Notebook) := ⟨u.signers.map Signer.noted, u.layout⟩

namespace Exchange

/-- The second exchange comes to what the first does. It notes messages from the front of those that
are listed, and all of them if it succeeds. -/
def Notes (x : Exchange σ α) (y : Exchange (σ × Notebook) α) (listed : Notebook) : Prop :=
  ∀ w notes, ∃ sent, sent <+: listed ∧
    y.resultIn (w, notes) = ((x.resultIn w).1, (x.resultIn w).2, notes ++ sent) ∧
    ∀ a w', x.Gives w a w' → sent = listed

namespace Notes

variable {x : Exchange σ α} {y : Exchange (σ × Notebook) α} {listed more : Notebook}
  {f : α → Exchange σ β} {g : α → Exchange (σ × Notebook) β}

theorem pure (a : α) : Notes (pure a : Exchange σ α) (pure a) [] := by
  intro w notes
  exact ⟨[], List.nil_prefix, by rw [List.append_nil]; rfl, fun _ _ _ => rfl⟩

theorem throw (fault : Fault) (listed : Notebook) :
    Notes (throw fault : Exchange σ α) (throw fault) listed := by
  intro w notes
  exact ⟨[], List.nil_prefix, by rw [List.append_nil]; rfl, fun _ _ h => absurd h not_gives_throw⟩

theorem gives (h : Notes x y listed) {notes : Notebook} {a : α} (hx : x.Gives w a w') :
    y.Gives (w, notes) a (w', notes ++ listed) := by
  obtain ⟨sent, -, hy, hall⟩ := h w notes
  rw [hall a w' hx, hx] at hy
  exact hy

theorem bind (hx : Notes x y listed) (hf : ∀ a, Notes (f a) (g a) more) :
    Notes (x >>= f) (y >>= g) (listed ++ more) := by
  intro w notes
  obtain ⟨sent, hfront, hy, hall⟩ := hx w notes
  rw [resultIn_bind, resultIn_bind, hy]
  rcases hresult : x.resultIn w with ⟨fault | a, w₁⟩
  · refine ⟨sent, hfront.trans (List.prefix_append ..), rfl, fun b w' h => ?_⟩
    obtain ⟨a, w₂, ha, -⟩ := gives_bind.1 h
    cases hresult.symm.trans ha
  · obtain ⟨sent', hfront', hg, hall'⟩ := hf a w₁ (notes ++ sent)
    obtain rfl := hall a w₁ hresult
    refine ⟨sent ++ sent', (List.prefix_append_right_inj sent).2 hfront', ?_, fun b w' h => ?_⟩
    · rw [← List.append_assoc]
      exact hg
    · obtain ⟨a', w₂, ha, hb⟩ := gives_bind.1 h
      obtain ⟨heq, rfl⟩ := Prod.mk.inj (hresult.symm.trans ha)
      obtain rfl := Except.ok.inj heq
      rw [hall' b w' hb]

/-- Nothing is sent after the first step. -/
theorem bindSilent (hx : Notes x y listed) (hf : ∀ a, Notes (f a) (g a) []) :
    Notes (x >>= f) (y >>= g) listed := by
  have hbind := hx.bind hf
  rwa [List.append_nil] at hbind

theorem lift (o : Outcome α) : Notes (liftM o : Exchange σ α) (liftM o) [] := by
  cases o with
  | ok a => exact pure a
  | error fault => exact throw fault []

/-- A step that talks to nobody. -/
theorem bindLift {o : Outcome α} (hf : ∀ a, o = .ok a → Notes (f a) (g a) listed) :
    Notes (liftM o >>= f) (liftM o >>= g) listed := by
  cases o with
  | ok a =>
    rw [lift_ok_bind rfl, lift_ok_bind rfl]
    exact hf a rfl
  | error fault =>
    rw [lift_error_bind rfl, lift_error_bind rfl]
    exact throw fault listed

theorem check {p : Prop} [Decidable p] {fault : Fault} {f : PUnit → Exchange σ α}
    {g : PUnit → Exchange (σ × Notebook) α} (hf : Notes (f ⟨⟩) (g ⟨⟩) listed) :
    Notes (if p then (MonadExcept.throw fault : Exchange σ PUnit) >>= f else f ⟨⟩)
      (if p then (MonadExcept.throw fault : Exchange (σ × Notebook) PUnit) >>= g else g ⟨⟩)
      listed := by
  by_cases hp : p
  · rw [if_pos hp, if_pos hp]
    exact throw fault listed
  · rw [if_neg hp, if_neg hp]
    exact hf

end Notes

end Exchange

/-! ## Requests -/

/-- What the signer is asked over its link. -/
def Signer.requests (d : Draft) (index : Nat) (code : Script) : Signer σ → Notebook
  | .held _ => []
  | .remote _ _ => [(.signRequest, SignRequest.encode ⟨d, index, code⟩)]

def Unlock.requests (d : Draft) (index : Nat) (u : Unlock σ) : Notebook :=
  match u.scriptCode with
  | .ok code => u.signers.flatMap (·.requests d index code)
  | .error _ => []

/-- The requests to sign the inputs from `index` on, one for each signer asked over a link. -/
def Draft.requests (d : Draft) (index : Nat) : List (Unlock σ) → Notebook
  | [] => []
  | u :: rest => u.requests d index ++ d.requests (index + 1) rest

theorem Signer.publicKey_noted (signer : Signer σ) : signer.noted.publicKey = signer.publicKey := by
  cases signer <;> rfl

theorem Link.notes_send (link : Link σ) (topic : Topic) (message : Bytes) :
    Exchange.Notes (link.send topic message) (link.noted.send topic message) [(topic, message)] :=
  fun _ _ => ⟨[(topic, message)], List.prefix_refl _, rfl, fun _ _ _ => rfl⟩

theorem Link.notes_receive (link : Link σ) (topic : Topic) :
    Exchange.Notes (link.receive topic) (link.noted.receive topic) [] :=
  fun _ _ => ⟨[], List.nil_prefix, by rw [List.append_nil]; rfl, fun _ _ _ => rfl⟩

theorem Link.notes_expect (link : Link σ) (topic : Topic) :
    Exchange.Notes (link.expect topic) (link.noted.expect topic) [] := by
  refine .bindSilent (link.notes_receive topic) fun message => ?_
  cases message with
  | some message => exact .pure message
  | none => exact .throw _ _

theorem Signer.notes_sign (signer : Signer σ) (d : Draft) (index : Nat) (code : Script) :
    Exchange.Notes (signer.sign d index code) (signer.noted.sign d index code)
      (signer.requests d index code) := by
  cases signer with
  | held key => exact .lift _
  | remote peer link =>
    refine .bindSilent (link.notes_send _ _) fun _ => ?_
    refine .bindSilent (link.notes_expect .signature) fun signature => .check (.bindLift ?_)
    intro valid _
    cases valid with
    | false => exact .throw _ _
    | true => exact .pure signature

theorem Signer.notes_mapM (signers : List (Signer σ)) (d : Draft) (index : Nat) (code : Script) :
    Exchange.Notes (signers.mapM (·.sign d index code))
      ((signers.map Signer.noted).mapM (·.sign d index code))
      (signers.flatMap (·.requests d index code)) := by
  induction signers with
  | nil => exact .pure []
  | cons signer signers ih =>
    rw [List.map_cons, List.mapM_cons, List.mapM_cons, List.flatMap_cons]
    exact .bind (signer.notes_sign d index code) fun _ => .bindSilent ih fun _ => .pure _

namespace Unlock

theorem onlySigner_noted (u : Unlock σ) : u.noted.onlySigner = Signer.noted <$> u.onlySigner := by
  obtain ⟨signers, layout⟩ := u
  match signers with
  | [] => rfl
  | [signer] => rfl
  | _ :: _ :: _ => simp [noted, onlySigner, inconsistent]

theorem scriptCode_noted (u : Unlock σ) : u.noted.scriptCode = u.scriptCode := by
  have hkey := u.onlySigner_noted
  obtain ⟨signers, layout⟩ := u
  cases layout with
  | script redeem multisig args => rfl
  | key =>
    simp only [scriptCode, noted] at hkey ⊢
    rw [hkey]
    cases onlySigner ⟨signers, .key⟩ with
    | error fault => rfl
    | ok signer =>
      exact congrArg (fun key : PublicKey => Except.ok (Script.payToKey key.hash))
        signer.publicKey_noted

theorem script_noted (u : Unlock σ) (signatures : List Bytes) :
    u.noted.script signatures = u.script signatures := by
  have hkey := u.onlySigner_noted
  obtain ⟨signers, layout⟩ := u
  cases layout with
  | script redeem multisig args => rfl
  | key =>
    simp only [script, noted] at hkey ⊢
    rw [hkey]
    cases onlySigner ⟨signers, .key⟩ with
    | error fault => rfl
    | ok signer =>
      exact congrArg (fun key : PublicKey =>
        Script.assemble (signatures.map .push ++ [.key key])) signer.publicKey_noted

end Unlock

namespace Draft

theorem notes_unlockingScripts (d : Draft) (index : Nat) (unlocks : List (Unlock σ)) :
    Exchange.Notes (d.unlockingScripts index unlocks)
      (d.unlockingScripts index (unlocks.map Unlock.noted)) (d.requests index unlocks) := by
  induction unlocks generalizing index with
  | nil => exact .pure []
  | cons u unlocks ih =>
    rw [List.map_cons, unlockingScripts, unlockingScripts, u.scriptCode_noted, requests]
    refine .bindLift fun code hcode => ?_
    have hrequests : u.requests d index = u.signers.flatMap (·.requests d index code) := by
      rw [Unlock.requests, hcode]
    rw [hrequests]
    refine .bind (Signer.notes_mapM u.signers d index code) fun signatures => ?_
    rw [u.script_noted]
    refine .bindLift fun script _ => ?_
    exact .bindSilent (ih (index + 1)) fun _ => .pure _

/-- Signing a draft asks each signer who is asked over a link once, in order. -/
theorem notes_signAll (d : Draft) (unlocks : List (Unlock σ)) :
    Exchange.Notes (d.signAll unlocks) (d.signAll (unlocks.map Unlock.noted))
      (d.requests 0 unlocks) := by
  rw [signAll_eq, signAll_eq, List.length_map]
  exact .check (.bindSilent (d.notes_unlockingScripts 0 unlocks) fun _ => .pure _)

/-! ## Shortages -/

variable {d : Draft} {unlocks : List (Unlock σ)} {rate inputs required available : UInt64}
  {takeFee : List Output → UInt64 → Outcome (List Output)}

/-- The outputs distribute more than the inputs hold. -/
theorem signWithFee_of_overdrawn (htotal : Output.total d.outputs = .ok required)
    (hless : inputs < required) : (d.signWithFee unlocks rate inputs takeFee).resultIn w =
      (.error (.insufficientFunds required inputs), w) := by
  rw [signWithFee, resultIn_bind_of_ok htotal, if_pos hless]
  rfl

/-- The funds are found short before anyone is asked, by a fee that cannot be taken from the
outputs, or over a link. -/
theorem short_cases (h : (d.signWithFee unlocks rate inputs takeFee).resultIn w =
      (.error (.insufficientFunds required available), w')) :
    (Output.total d.outputs = .ok required ∧ available = inputs ∧ inputs < required ∧ w' = w) ∨
    (Output.total d.outputs = .ok inputs ∧ ∃ measured fee,
      (d.signAll unlocks).Gives w measured w' ∧ feeOf measured.size rate = .ok fee ∧
      takeFee d.outputs fee = .error (.insufficientFunds required available)) ∨
    ∃ u ∈ unlocks, ∃ signer ∈ u.signers, signer.Raises (.insufficientFunds required available) := by
  have hsigning {d : Draft} {w w' : σ} (h : (d.signAll unlocks).resultIn w =
      (.error (.insufficientFunds required available), w')) : ∃ u ∈ unlocks, ∃ signer ∈ u.signers,
        signer.Raises (.insufficientFunds required available) :=
    (d.faults_signAll unlocks w _ w' h).resolve_left nofun
  have hneed {α : Type} {cause : Malformed} {o : Option α} :
      need (.malformed cause) o ≠ .error (.insufficientFunds required available) := by
    cases o <;> nofun
  rw [signWithFee] at h
  obtain ⟨htotal, -⟩ | ⟨distributed, htotal, h⟩ := resultIn_lift_bind_eq_error.1 h
  · exact absurd htotal hneed
  by_cases hmore : inputs < distributed
  · rw [if_pos hmore] at h
    obtain ⟨heq, rfl⟩ := Prod.mk.inj h
    obtain ⟨rfl, rfl⟩ := Fault.insufficientFunds.inj (Except.error.inj heq)
    exact .inl ⟨htotal, rfl, hmore, rfl⟩
  rw [if_neg hmore] at h
  by_cases hless : distributed < inputs
  · rw [if_pos hless] at h
    cases (Prod.mk.inj h).1
  rw [if_neg hless] at h
  obtain rfl := UInt64.le_antisymm (UInt64.not_lt.1 hmore) (UInt64.not_lt.1 hless)
  obtain hfails | ⟨measured, w₁, hmeasured, h⟩ := resultIn_bind_eq_error.1 h
  · exact .inr (.inr (hsigning hfails))
  obtain ⟨hfee, -⟩ | ⟨fee, hfee, h⟩ := resultIn_lift_bind_eq_error.1 h
  · exact absurd hfee hneed
  obtain ⟨htake, rfl⟩ | ⟨outputs, htake, h⟩ := resultIn_lift_bind_eq_error.1 h
  · exact .inr (.inl ⟨htotal, measured, fee, hmeasured, hfee, htake⟩)
  -- The fee is taken, and what is left is signed: only a link can still find the funds short.
  obtain hfails | ⟨signed, w₂, hsigned, h⟩ := resultIn_bind_eq_error.1 h
  · exact .inr (.inr (hsigning hfails))
  obtain ⟨tx, htx⟩ := exists_finish_of_signAll hsigned
  rw [resultIn_bind_of_ok htx] at h
  obtain ⟨hpaid, -⟩ | ⟨paid, -, h⟩ := resultIn_lift_bind_eq_error.1 h
  · exact absurd hpaid hneed
  split at h
  · cases (Prod.mk.inj h).1
  · cases (Prod.mk.inj h).1

/-- **Who was asked when the funds are found short.** When the outputs distribute more than the
inputs, nobody. When they cannot pay the fee, every signer who is asked over a link, once, to sign
the draft as it is before the fee: nobody is asked to sign what the fee would leave. No other
shortage is found, unless a link fails with one itself. -/
theorem asked_of_short (h : (d.signWithFee unlocks rate inputs takeFee).resultIn w =
      (.error (.insufficientFunds required available), w')) :
    (∃ u ∈ unlocks, ∃ signer ∈ u.signers,
      signer.Raises (.insufficientFunds required available)) ∨
    ∃ asked, (∀ notes, (d.signWithFee (unlocks.map Unlock.noted) rate inputs takeFee).resultIn
        (w, notes) = (.error (.insufficientFunds required available), w', notes ++ asked)) ∧
      ((Output.total d.outputs = .ok required ∧ available = inputs ∧ inputs < required ∧ w' = w ∧
          asked = []) ∨
        (Output.total d.outputs = .ok inputs ∧ (∃ measured fee,
            (d.signAll unlocks).Gives w measured w' ∧ feeOf measured.size rate = .ok fee ∧
            takeFee d.outputs fee = .error (.insufficientFunds required available)) ∧
          asked = d.requests 0 unlocks)) := by
  obtain ⟨htotal, rfl, hless, rfl⟩ | ⟨htotal, measured, fee, hmeasured, hfee, htake⟩ | hraises :=
    short_cases h
  · refine .inr ⟨[], fun notes => ?_, .inl ⟨htotal, rfl, hless, rfl, rfl⟩⟩
    rw [List.append_nil]
    exact signWithFee_of_overdrawn htotal hless
  · refine .inr ⟨_, fun notes => ?_, .inr ⟨htotal, ⟨measured, fee, hmeasured, hfee, htake⟩, rfl⟩⟩
    refine signWithFee_of_unpaid htotal ((notes_signAll d unlocks).gives hmeasured) ?_
    rw [hfee, Outcome.ok_bind, htake]
  · exact .inl hraises

/-! ## A fee that the refund cannot pay

At a rate of four the fee of the refund is 1076, and the refund is 1001. The peer has signed it by
then. -/

theorem refund_short : ((refund 1001).signWithFee [refundUnlock] 4 1001 Output.afterFee).resultIn
    refundMailbox = (.error (.insufficientFunds 1076 1001), ⟨[(.signature, chargedSignature)],
      [(.signRequest, SignRequest.encode ⟨refund 1001, 0, Settlement.idlePrize⟩)]⟩) := by
  refine signWithFee_of_unpaid rfl refund_measured ?_
  rw [size_measured]
  rfl

/-- It is not so that nobody is asked when the funds are found short, even if all are asked over a
mailbox. -/
theorem not_unasked_of_short : ¬ ∀ (d : Draft) (unlocks : List (Unlock Mailbox))
    (rate inputs required available : UInt64)
    (takeFee : List Output → UInt64 → Outcome (List Output)) (m m' : Mailbox),
    (∀ u ∈ unlocks, ∀ signer ∈ u.signers, ∃ peer, signer = .remote peer Mailbox.link) →
    (d.signWithFee unlocks rate inputs takeFee).resultIn m =
      (.error (.insufficientFunds required available), m') →
    m'.sent = m.sent := by
  intro h
  have hremote : ∀ u ∈ [refundUnlock], ∀ signer ∈ u.signers,
      ∃ peer, signer = .remote peer Mailbox.link := by
    simp [refundUnlock, Unlock.byScript]
  cases h _ _ _ _ _ _ _ _ _ hremote refund_short

theorem refund_asked : ∃ asked, (∀ notes, ((refund 1001).signWithFee
      ([refundUnlock].map Unlock.noted) 4 1001 Output.afterFee).resultIn (refundMailbox, notes) =
        (.error (.insufficientFunds 1076 1001), ⟨[(.signature, chargedSignature)],
          [(.signRequest, SignRequest.encode ⟨refund 1001, 0, Settlement.idlePrize⟩)]⟩,
          notes ++ asked)) ∧
    asked = [(.signRequest, SignRequest.encode ⟨refund 1001, 0, Settlement.idlePrize⟩)] := by
  obtain hraises | ⟨asked, hnoted, ⟨htotal, -⟩ | ⟨-, -, rfl⟩⟩ := asked_of_short refund_short
  · obtain ⟨u, hu, signer, hsigner, hraises⟩ := hraises
    obtain rfl := List.mem_singleton.1 hu
    obtain rfl := List.mem_singleton.1 hsigner
    exact absurd hraises (Mailbox.not_raises _)
  · cases htotal
  · exact ⟨_, hnoted, rfl⟩

end Draft

end Wager
