import Mathlib.Data.List.Forall2
import Wager.Peer.Channel

/-!
# What a success says

An operation that succeeded has passed all its checks, in order. The lemmas here take a success
apart into the successes of the steps, for outcomes (`bind_eq_ok`) and for exchanges
(`Exchange.Gives`), and put it together again.
-/

namespace Wager

variable {α β γ σ : Type}

/-- Lists that are related place by place have an element for each of the other. -/
theorem exists_of_forall₂ {R : α → β → Prop} {xs : List α} {ys : List β}
    (h : List.Forall₂ R xs ys) {i : Nat} {y : β} (hy : ys[i]? = some y) :
    ∃ x, xs[i]? = some x ∧ R x y := by
  induction h generalizing i with
  | nil => cases hy
  | cons hhead _ ih =>
    cases i with
    | zero =>
      obtain rfl := Option.some.inj hy
      exact ⟨_, rfl, hhead⟩
    | succ i => exact ih hy

theorem exists_mem_of_forall₂ {R : α → β → Prop} {xs : List α} {ys : List β}
    (h : List.Forall₂ R xs ys) {x : α} (hx : x ∈ xs) : ∃ y ∈ ys, R x y := by
  induction h with
  | nil => exact absurd hx List.not_mem_nil
  | cons hhead _ ih =>
    rcases List.mem_cons.1 hx with rfl | hx
    · exact ⟨_, List.mem_cons_self, hhead⟩
    · obtain ⟨y, hy, hR⟩ := ih hx
      exact ⟨y, List.mem_cons_of_mem _ hy, hR⟩

namespace Outcome

theorem bind_eq_ok {x : Outcome α} {f : α → Outcome β} {b : β} :
    x >>= f = .ok b ↔ ∃ a, x = .ok a ∧ f a = .ok b := by
  cases x with
  | error e => simp [bind, Except.bind]
  | ok a => simp [bind, Except.bind]

/-- A step fails by itself or by what comes behind it. -/
theorem bind_eq_error {x : Outcome α} {f : α → Outcome β} {fault : Fault} :
    x >>= f = .error fault ↔ x = .error fault ∨ ∃ a, x = .ok a ∧ f a = .error fault := by
  cases x with
  | error e => simp [bind, Except.bind]
  | ok a => simp [bind, Except.bind]

theorem ok_bind (a : α) (f : α → Outcome β) : (.ok a : Outcome α) >>= f = f a := rfl

theorem map_eq_ok {x : Outcome α} {f : α → β} {b : β} :
    f <$> x = .ok b ↔ ∃ a, x = .ok a ∧ f a = b := by
  cases x <;> simp [Functor.map, Except.map]

theorem pure_eq_ok {a b : α} : (pure a : Outcome α) = .ok b ↔ a = b := by
  simp [pure, Except.pure]

theorem eq_ok_of_isSome {x : Outcome α} {a : α} (h : x.toOption.isSome = true) :
    x = .ok (x.toOption.getD a) := by
  cases x with
  | error fault => cases h
  | ok a => rfl

theorem throw_ne_ok {fault : Fault} {a : α} : (throw fault : Outcome α) ≠ .ok a := by
  simp [throw, throwThe, MonadExceptOf.throw]

/-- A check that stops an operation has been passed. -/
theorem unless_eq_ok {p : Prop} [Decidable p] {fault : Fault} {f : PUnit → Outcome α} {a : α} :
    (if p then (throw fault : Outcome PUnit) >>= f else f ⟨⟩) = .ok a ↔ ¬ p ∧ f ⟨⟩ = .ok a := by
  by_cases hp : p
  · simp [hp, bind_eq_ok, throw_ne_ok]
  · simp [hp]

/-- A loop that only checks succeeds exactly if every check does. -/
theorem forIn_eq_ok {xs : List α} {u : PUnit} {f : α → PUnit → Outcome (ForInStep PUnit)}
    (hstep : ∀ {x step}, f x ⟨⟩ = .ok step → step = .yield ⟨⟩) :
    forIn xs ⟨⟩ f = .ok u ↔ ∀ x ∈ xs, f x ⟨⟩ = .ok (.yield ⟨⟩) := by
  induction xs with
  | nil => simp [pure, Except.pure]
  | cons x xs ih =>
    rw [List.forIn_cons, bind_eq_ok, List.forall_mem_cons]
    constructor
    · intro h
      obtain ⟨step, hx, h⟩ := h
      obtain rfl := hstep hx
      exact ⟨hx, ih.1 h⟩
    · intro h
      exact ⟨_, h.1, ih.2 h.2⟩

theorem malformed_ne_ok {cause : Malformed} {a : α} : malformed cause ≠ .ok a := by
  simp [malformed]

theorem inconsistent_ne_ok {cause : Inconsistency} {a : α} : inconsistent cause ≠ .ok a := by
  simp [inconsistent]

theorem need_eq_ok {fault : Fault} {o : Option α} {a : α} : need fault o = .ok a ↔ o = some a := by
  cases o <;> simp [need]

/-- Steps made for each element of a list succeed together. -/
theorem mapM_eq_ok {f : α → Outcome β} {xs : List α} {ys : List β} :
    xs.mapM f = .ok ys ↔ List.Forall₂ (fun x y => f x = .ok y) xs ys := by
  induction xs generalizing ys with
  | nil => simp [pure, Except.pure, eq_comm]
  | cons x xs ih =>
    rw [List.mapM_cons, bind_eq_ok]
    constructor
    · intro h
      obtain ⟨y, hy, h⟩ := h
      obtain ⟨rest, hrest, h⟩ := bind_eq_ok.1 h
      rw [← pure_eq_ok.1 h]
      exact .cons hy (ih.1 hrest)
    · intro h
      cases h with
      | cons hy hrest => exact ⟨_, hy, bind_eq_ok.2 ⟨_, ih.2 hrest, rfl⟩⟩

end Outcome

/-! ## Exchanges -/

namespace Exchange

/-- What the exchange comes to in the world `w`, and the world that it leaves. -/
def resultIn (x : Exchange σ α) (w : σ) : Outcome α × σ := x.run w

/-- Exchanges that come to the same in every world are the same. -/
theorem eq_of_resultIn {x y : Exchange σ α} (h : ∀ w, x.resultIn w = y.resultIn w) : x = y :=
  funext h

/-- The exchange succeeds in the world `w` with `a`, and leaves the world `w'`. -/
def Gives (x : Exchange σ α) (w : σ) (a : α) (w' : σ) : Prop := x.resultIn w = (.ok a, w')

variable {w w' : σ}

theorem resultIn_bind (x : Exchange σ α) (f : α → Exchange σ β) (w : σ) :
    resultIn (x >>= f) w = match x.resultIn w with
      | (.ok a, w₁) => (f a).resultIn w₁
      | (.error e, w₁) => (.error e, w₁) := by
  change ExceptT.bindCont f (x.resultIn w).1 (x.resultIn w).2 = _
  rcases x.resultIn w with ⟨e | a, w₁⟩ <;> rfl

theorem resultIn_lift (x : Outcome α) (w : σ) : resultIn (liftM x) w = (x, w) := rfl

theorem resultIn_pure (a : α) (w : σ) : resultIn (pure a) w = (.ok a, w) := rfl

theorem resultIn_throw (fault : Fault) (w : σ) :
    resultIn (throw fault : Exchange σ α) w = (.error fault, w) := rfl

theorem resultIn_map (f : α → β) (x : Exchange σ α) (w : σ) :
    resultIn (f <$> x) w = (f <$> (x.resultIn w).1, (x.resultIn w).2) := by
  rw [map_eq_pure_bind, resultIn_bind]
  rcases x.resultIn w with ⟨e | a, w₁⟩ <;> rfl

/-- A check stops an exchange or lets it go on. -/
theorem resultIn_unless {p : Prop} [Decidable p] {fault : Fault} {f : PUnit → Exchange σ α} :
    resultIn (if p then (throw fault : Exchange σ PUnit) >>= f else f ⟨⟩) w =
      if p then (.error fault, w) else (f ⟨⟩).resultIn w := by
  by_cases hp : p
  · rw [if_pos hp, if_pos hp, resultIn_bind, resultIn_throw]
  · rw [if_neg hp, if_neg hp]

theorem gives_bind {x : Exchange σ α} {f : α → Exchange σ β} {b : β} :
    Gives (x >>= f) w b w' ↔ ∃ a w₁, x.Gives w a w₁ ∧ (f a).Gives w₁ b w' := by
  unfold Gives
  rw [resultIn_bind]
  rcases x.resultIn w with ⟨e | a, w₁⟩
  · simp
  · constructor
    · exact fun h => ⟨a, w₁, rfl, h⟩
    · intro h
      obtain ⟨_, _, ⟨⟩, h⟩ := h
      exact h

theorem gives_map {f : α → β} {x : Exchange σ α} {b : β} :
    Gives (f <$> x) w b w' ↔ ∃ a, x.Gives w a w' ∧ f a = b := by
  unfold Gives
  rw [resultIn_map]
  rcases x.resultIn w with ⟨e | a, w₁⟩
  · simp [Functor.map, Except.map]
  · simp [Functor.map, Except.map, and_comm]

theorem resultIn_map_eq_error {f : α → β} {x : Exchange σ α} {fault : Fault} :
    resultIn (f <$> x) w = (.error fault, w') ↔ x.resultIn w = (.error fault, w') := by
  rw [resultIn_map]
  rcases x.resultIn w with ⟨e | a, w₁⟩
  · simp [Functor.map, Except.map]
  · simp [Functor.map, Except.map]

theorem resultIn_bind_of_gives {x : Exchange σ α} {f : α → Exchange σ β} {a : α}
    (h : x.Gives w a w') : resultIn (x >>= f) w = (f a).resultIn w' := by
  rw [resultIn_bind, h]

/-- A step fails by itself or by what comes behind it. -/
theorem resultIn_bind_eq_error {x : Exchange σ α} {f : α → Exchange σ β} {fault : Fault} :
    resultIn (x >>= f) w = (.error fault, w') ↔ x.resultIn w = (.error fault, w') ∨
      ∃ a w₁, x.Gives w a w₁ ∧ (f a).resultIn w₁ = (.error fault, w') := by
  unfold Gives
  rw [resultIn_bind]
  rcases x.resultIn w with ⟨e | a, w₁⟩
  · simp
  · constructor
    · exact fun h => .inr ⟨a, w₁, rfl, h⟩
    · intro h
      obtain ⟨⟨⟩⟩ | ⟨_, _, ⟨⟩, h⟩ := h
      exact h

theorem gives_pure {a b : α} : Gives (pure a) w b w' ↔ a = b ∧ w = w' := by
  simp [Gives, resultIn_pure]

theorem gives_lift {x : Outcome α} {a : α} : Gives (liftM x) w a w' ↔ x = .ok a ∧ w = w' := by
  simp [Gives, resultIn_lift]

theorem resultIn_bind_of_ok {x : Outcome α} {f : α → Exchange σ β} {a : α} (h : x = .ok a) :
    resultIn (liftM x >>= f) w = (f a).resultIn w :=
  resultIn_bind_of_gives (gives_lift.2 ⟨h, rfl⟩)

theorem resultIn_bind_of_error {x : Outcome α} {f : α → Exchange σ β} {fault : Fault}
    (h : x = .error fault) : resultIn (liftM x >>= f) w = (.error fault, w) := by
  rw [resultIn_bind, resultIn_lift, h]

theorem lift_ok_bind {x : Outcome α} {a : α} (h : x = .ok a) (f : α → Exchange σ β) :
    liftM x >>= f = f a :=
  funext fun _ => resultIn_bind_of_ok h

theorem lift_error_bind {x : Outcome α} {fault : Fault} (h : x = .error fault)
    (f : α → Exchange σ β) : liftM x >>= f = throw fault :=
  funext fun _ => resultIn_bind_of_error h

theorem gives_lift_bind {x : Outcome α} {f : α → Exchange σ β} {b : β} :
    Gives (liftM x >>= f) w b w' ↔ ∃ a, x = .ok a ∧ (f a).Gives w b w' := by
  simp only [gives_bind, gives_lift]
  constructor
  · intro h
    obtain ⟨a, _, ⟨ha, rfl⟩, h⟩ := h
    exact ⟨a, ha, h⟩
  · intro h
    obtain ⟨a, ha, h⟩ := h
    exact ⟨a, w, ⟨ha, rfl⟩, h⟩

theorem resultIn_lift_bind_eq_error {x : Outcome α} {f : α → Exchange σ β} {fault : Fault} :
    resultIn (liftM x >>= f) w = (.error fault, w') ↔ (x = .error fault ∧ w = w') ∨
      ∃ a, x = .ok a ∧ (f a).resultIn w = (.error fault, w') := by
  cases x with
  | error e =>
    rw [resultIn_bind_of_error rfl]
    simp
  | ok a =>
    rw [resultIn_bind_of_ok rfl]
    simp

/-- Steps made for each element of a list succeed one after the other. -/
theorem forall₂_of_gives_mapM {f : α → Exchange σ β} {xs : List α} {ys : List β}
    (h : Gives (xs.mapM f) w ys w') :
    List.Forall₂ (fun x y => ∃ w w', (f x).Gives w y w') xs ys := by
  induction xs generalizing ys w with
  | nil =>
    obtain ⟨rfl, rfl⟩ := gives_pure.1 h
    exact .nil
  | cons x xs ih =>
    rw [List.mapM_cons] at h
    obtain ⟨y, w₁, hy, h⟩ := gives_bind.1 h
    obtain ⟨rest, w₂, hrest, h⟩ := gives_bind.1 h
    obtain ⟨rfl, rfl⟩ := gives_pure.1 h
    exact .cons ⟨w, w₁, hy⟩ (ih hrest)

/-- Steps that leave the world as it is succeed together. -/
theorem gives_mapM_of_forall₂ {f : α → Exchange σ β} {xs : List α} {ys : List β}
    (h : List.Forall₂ (fun x y => (f x).Gives w y w) xs ys) : Gives (xs.mapM f) w ys w := by
  induction h with
  | nil => exact gives_pure.2 ⟨rfl, rfl⟩
  | @cons x y xs ys hfirst _ ih =>
    rw [List.mapM_cons]
    exact gives_bind.2 ⟨y, w, hfirst, gives_bind.2 ⟨ys, w, ih, gives_pure.2 ⟨rfl, rfl⟩⟩⟩

theorem not_gives_throw {fault : Fault} {a : α} : ¬ Gives (throw fault) w a w' := by
  simp [Gives, resultIn_throw]

/-- A loop that only checks has checked every element. -/
theorem forall_of_gives_forIn {P : α → Prop} {xs : List α} {u : PUnit}
    {f : α → PUnit → Exchange σ (ForInStep PUnit)}
    (hstep : ∀ {x w step w'}, Gives (f x ⟨⟩) w step w' → step = .yield ⟨⟩ ∧ P x)
    (h : Gives (forIn xs ⟨⟩ f) w u w') : ∀ x ∈ xs, P x := by
  induction xs generalizing w with
  | nil => exact fun _ hx => absurd hx List.not_mem_nil
  | cons x xs ih =>
    rw [List.forIn_cons] at h
    obtain ⟨step, w₁, hx, h⟩ := gives_bind.1 h
    obtain ⟨rfl, hP⟩ := hstep hx
    exact List.forall_mem_cons.2 ⟨hP, ih h⟩

/-- A check that stops an exchange has been passed. -/
theorem gives_unless {p : Prop} [Decidable p] {fault : Fault} {f : PUnit → Exchange σ α} {a : α} :
    Gives (if p then (throw fault : Exchange σ PUnit) >>= f else f ⟨⟩) w a w' ↔
      ¬ p ∧ (f ⟨⟩).Gives w a w' := by
  by_cases hp : p
  · simp [hp, not_gives_throw]
  · simp [hp]

end Exchange

end Wager
