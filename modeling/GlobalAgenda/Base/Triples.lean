namespace GlobalAgenda.Base.Triples

variable {ε σ α β : Type} {P P' : σ → Prop} {Q Q' : α → σ → Prop} {E E' : ε → σ → Prop}

/-- From every state in `P` the action ends normally in `Q` or with an error in `E`. -/
def Triple (P : σ → Prop) (x : EStateM ε σ α) (Q : α → σ → Prop) (E : ε → σ → Prop) : Prop :=
  ∀ s, P s → match x s with
    | .ok a t => Q a t
    | .error e t => E e t

theorem Triple.ok {x : EStateM ε σ α} (h : Triple P x Q E) {s t : σ} {a : α}
    (hs : P s) (hx : x s = .ok a t) : Q a t := by
  have := h s hs
  rwa [hx] at this

theorem Triple.error {x : EStateM ε σ α} (h : Triple P x Q E) {s t : σ} {e : ε}
    (hs : P s) (hx : x s = .error e t) : E e t := by
  have := h s hs
  rwa [hx] at this

theorem Triple.total {x : EStateM ε σ α} (h : Triple P x Q (fun _ _ => False)) {s : σ} (hs : P s) :
    ∃ a t, x s = .ok a t ∧ Q a t := by
  cases hx : x s with
  | ok a t => exact ⟨a, t, rfl, h.ok hs hx⟩
  | error e t => exact (h.error hs hx).elim

theorem Triple.intro {x : EStateM ε σ α} (hok : ∀ s a t, P s → x s = .ok a t → Q a t)
    (herr : ∀ s e t, P s → x s = .error e t → E e t) : Triple P x Q E := by
  intro s hs
  cases hx : x s with
  | ok a t => exact hok s a t hs hx
  | error e t => exact herr s e t hs hx

theorem Triple.conseq {x : EStateM ε σ α} (h : Triple P x Q E) (hP : ∀ s, P' s → P s)
    (hQ : ∀ a s, Q a s → Q' a s) (hE : ∀ e s, E e s → E' e s) : Triple P' x Q' E' :=
  .intro (fun s a t hs hx => hQ a t (h.ok (hP s hs) hx))
    (fun s e t hs hx => hE e t (h.error (hP s hs) hx))

theorem Triple.pure {a : α} (h : ∀ s, P s → Q a s) :
    Triple P (pure a : EStateM ε σ α) Q E := h

theorem Triple.throw {e : ε} (h : ∀ s, P s → E e s) :
    Triple P (throw e : EStateM ε σ α) Q E := h

theorem Triple.bind {x : EStateM ε σ α} {f : α → EStateM ε σ β} {R : β → σ → Prop}
    (hx : Triple P x Q E) (hf : ∀ a, Triple (Q a) (f a) R E) : Triple P (x >>= f) R E := by
  intro s hs
  have hrun : (x >>= f) s = match x s with | .ok a t => f a t | .error e t => .error e t := rfl
  rw [hrun]
  cases hxs : x s with
  | ok a t => exact hf a t (hx.ok hs hxs)
  | error e t => exact hx.error hs hxs

theorem Triple.pure_pre {p : Prop} {x : EStateM ε σ α} (h : p → Triple P x Q E) :
    Triple (fun s => p ∧ P s) x Q E :=
  fun s ⟨hp, hs⟩ => h hp s hs

def final (x : EStateM ε σ α) (s : σ) : σ :=
  match x s with
  | .ok _ t => t
  | .error _ t => t

def returned (x : EStateM ε σ α) (s : σ) : Option α :=
  match x s with
  | .ok a _ => some a
  | .error _ _ => none

def raised (x : EStateM ε σ α) (s : σ) : Option ε :=
  match x s with
  | .ok _ _ => none
  | .error e _ => some e

def outcome (x : EStateM ε σ α) (s : σ) : Except ε α :=
  match x s with
  | .ok a _ => .ok a
  | .error e _ => .error e

theorem returned_eq_some {x : EStateM ε σ α} {s : σ} {a : α} :
    returned x s = some a ↔ x s = .ok a (final x s) := by
  unfold returned final
  cases x s <;> simp

theorem raised_eq_some {x : EStateM ε σ α} {s : σ} {e : ε} :
    raised x s = some e ↔ x s = .error e (final x s) := by
  unfold raised final
  cases x s <;> simp

theorem outcome_eq_ok {x : EStateM ε σ α} {s : σ} {a : α} :
    outcome x s = .ok a ↔ x s = .ok a (final x s) := by
  unfold outcome final
  cases x s <;> simp

theorem bind_ok {x : EStateM ε σ α} {f : α → EStateM ε σ β} {s t : σ} {a : α}
    (h : x s = .ok a t) : (x >>= f) s = f a t := by
  change (match x s with | .ok a t => f a t | .error e t => .error e t) = f a t
  rw [h]

theorem bind_error {x : EStateM ε σ α} {f : α → EStateM ε σ β} {s t : σ} {e : ε}
    (h : x s = .error e t) : (x >>= f) s = .error e t := by
  change (match x s with | .ok a t => f a t | .error e t => .error e t) = .error e t
  rw [h]

theorem bind_eq_ok {x : EStateM ε σ α} {f : α → EStateM ε σ β} {s u : σ} {b : β}
    (h : (x >>= f) s = .ok b u) : ∃ a t, x s = .ok a t ∧ f a t = .ok b u := by
  cases hx : x s with
  | ok a t => exact ⟨a, t, rfl, by rwa [bind_ok hx] at h⟩
  | error e t =>
    rw [bind_error hx] at h
    cases h

theorem except_bind_ok {x : Except ε α} {f : α → Except ε β} {b : β} (h : x >>= f = .ok b) :
    ∃ a, x = .ok a ∧ f a = .ok b := by
  cases x with
  | ok a => exact ⟨a, rfl, h⟩
  | error e => cases h

theorem except_eq_ok {x : Except ε α} {a : α} (h : x.toOption = some a) : x = .ok a := by
  cases x with
  | ok b => exact congrArg Except.ok (Option.some.inj h)
  | error e => cases h

theorem except_map_ok {x : Except ε α} {f : α → β} {b : β} (h : x.map f = .ok b) :
    ∃ a, x = .ok a ∧ b = f a := by
  cases x with
  | ok a =>
    cases h
    exact ⟨a, rfl, rfl⟩
  | error e => cases h

theorem except_map_bind {γ : Type} {x : Except ε α} {f : α → Except ε β} {g : β → γ} :
    (x >>= f).map g = x >>= fun a => (f a).map g := by
  cases x <;> rfl

theorem raised_bind_pure (x : EStateM ε σ α) (f : α → β) (s : σ) :
    raised (x >>= fun a => pure (f a)) s = raised x s := by
  cases hx : x s with
  | ok a t =>
    simp only [raised, bind_ok hx, hx]
    rfl
  | error e t => simp only [raised, bind_error hx, hx]

theorem outcome_bind_pure (x : EStateM ε σ α) (f : α → β) (s : σ) :
    outcome (x >>= fun a => pure (f a)) s = (outcome x s).map f := by
  cases hx : x s with
  | ok a t =>
    simp only [outcome, bind_ok hx, hx]
    rfl
  | error e t =>
    simp only [outcome, bind_error hx, hx]
    rfl

def times : Nat → EStateM ε σ α → EStateM ε σ (List α)
  | 0, _ => pure []
  | n + 1, x => do
      let a ← x
      let as ← times n x
      pure (a :: as)

end GlobalAgenda.Base.Triples
