import GlobalAgenda.Base.Chains
import GlobalAgenda.Base.WhileLoop

namespace GlobalAgenda.Base.Places

open GlobalAgenda.Base.Triples GlobalAgenda.Base.Chains

variable {ε σ γ α β : Type}

/-- Which places are in order, and which errors are raised for one that is not. -/
structure Judge (ε σ γ : Type) where
  pos : σ → Nat
  good : γ → Prop
  bad : ε → Prop

variable (J : Judge ε σ γ)

/-- Started at `i` the action raises a bad error exactly if one of the places in `V` is not in
order. -/
def Sees (i : Nat) (x : EStateM ε σ α) (V : γ → Prop) : Prop :=
  ∀ s, J.pos s = i → ((∀ e, raised x s = some e → ¬ J.bad e) ↔ ∀ c, V c → J.good c)

/-- Started at `i` the action returns the one result that `Q` has. Without a result it raises an
error, and a bad one where `Q` has one. -/
def Gives (i : Nat) (x : EStateM ε σ α) (Q : α → Nat → Prop) : Prop :=
  ∀ s, J.pos s = i → match x s with
    | .ok a t => Q a (J.pos t) ∧ ∀ b j, Q b j → b = a ∧ j = J.pos t
    | .error e _ => ¬ J.bad e → ∀ b j, ¬ Q b j

/-- Started at `i` the action comes to the places in `V`, and goes on as `Q` says. -/
structure Visits (i : Nat) (x : EStateM ε σ α) (Q : α → Nat → Prop) (V : γ → Prop) : Prop where
  sees : Sees J i x V
  gives : Gives J i x Q

variable {J} {i : Nat}

theorem Visits.ok {x : EStateM ε σ α} {Q : α → Nat → Prop} {V : γ → Prop}
    (h : ∀ s, J.pos s = i → ∃ a t, x s = .ok a t ∧ Q a (J.pos t))
    (hQ : ∀ a j b k, Q a j → Q b k → a = b ∧ j = k) (hV : ∀ c, V c → J.good c) :
    Visits J i x Q V := by
  constructor
  · intro s hs
    obtain ⟨a, t, hrun, _⟩ := h s hs
    refine iff_of_true (fun e he => ?_) hV
    rw [raised, hrun] at he
    cases he
  · intro s hs
    obtain ⟨a, t, hrun, hq⟩ := h s hs
    rw [hrun]
    exact ⟨hq, fun b j hb => hQ b j a (J.pos t) hb hq⟩

theorem Visits.pure (a : α) : Visits J i (pure a) (fun b j => b = a ∧ j = i) (fun _ => False) := by
  refine .ok (fun s hs => ⟨a, s, rfl, rfl, hs⟩) ?_ (fun _ hc => hc.elim)
  rintro a j b k ⟨rfl, rfl⟩ ⟨rfl, rfl⟩
  exact ⟨rfl, rfl⟩

theorem Visits.error {x : EStateM ε σ α} {Q : α → Nat → Prop} {V : γ → Prop}
    (h : ∀ s, J.pos s = i → ∃ e t, x s = .error e t ∧ (J.bad e ↔ ¬ ∀ c, V c → J.good c) ∧
      (¬ J.bad e → ∀ b j, ¬ Q b j)) : Visits J i x Q V := by
  constructor
  · intro s hs
    obtain ⟨e, t, hrun, hbad, _⟩ := h s hs
    rw [raised, hrun]
    constructor
    · intro hnone
      by_contra hV
      exact hnone e rfl (hbad.mpr hV)
    · rintro hV e' he hbad'
      cases he
      exact hbad.mp hbad' hV
  · intro s hs
    obtain ⟨e, t, hrun, _, hQ⟩ := h s hs
    rw [hrun]
    exact hQ

theorem Visits.conseq {x : EStateM ε σ α} {Q Q' : α → Nat → Prop} {V V' : γ → Prop}
    (h : Visits J i x Q V) (hQ : ∀ a j, Q a j ↔ Q' a j) (hV : ∀ c, V c ↔ V' c) :
    Visits J i x Q' V' := by
  obtain rfl : Q = Q' := funext fun a => funext fun j => propext (hQ a j)
  obtain rfl : V = V' := funext fun c => propext (hV c)
  exact h

theorem Sees.conseq {x : EStateM ε σ α} {V V' : γ → Prop} (h : Sees J i x V)
    (hV : ∀ c, V c ↔ V' c) : Sees J i x V' := by
  obtain rfl : V = V' := funext fun c => propext (hV c)
  exact h

variable {x : EStateM ε σ α} {f : α → EStateM ε σ β} {Q : α → Nat → Prop} {V : γ → Prop}

/-- What comes behind an action is visited where the action has a result. -/
theorem Visits.bind_sees (hx : Visits J i x Q V) {W : α → Nat → γ → Prop}
    (hf : ∀ a j, Q a j → Sees J j (f a) (W a j)) :
    Sees J i (x >>= f) (fun c => V c ∨ ∃ a j, Q a j ∧ W a j c) := by
  intro s hs
  have hgives := hx.gives s hs
  cases hrun : x s with
  | ok a t =>
    rw [hrun] at hgives
    obtain ⟨hq, hunique⟩ := hgives
    have hgood : ∀ c, V c → J.good c := (hx.sees s hs).mp (fun e he => by
      rw [raised, hrun] at he
      cases he)
    have hrest := hf a _ hq t rfl
    rw [raised, bind_ok hrun]
    constructor
    · rintro h c (hc | ⟨b, j, hb, hc⟩)
      · exact hgood c hc
      · obtain ⟨rfl, rfl⟩ := hunique b j hb
        exact hrest.mp h c hc
    · intro h
      exact hrest.mpr (fun c hc => h c (.inr ⟨a, _, hq, hc⟩))
  | error e t =>
    rw [hrun] at hgives
    have hsees := hx.sees s hs
    rw [raised, hrun] at hsees
    rw [raised, bind_error hrun]
    constructor
    · rintro h c (hc | ⟨b, j, hb, _⟩)
      · exact hsees.mp h c hc
      · exact absurd hb (hgives (h e rfl) b j)
    · intro h
      exact hsees.mpr (fun c hc => h c (.inl hc))

theorem Visits.bind (hx : Visits J i x Q V) {R : α → Nat → β → Nat → Prop} {W : α → Nat → γ → Prop}
    (hf : ∀ a j, Q a j → Visits J j (f a) (R a j) (W a j)) :
    Visits J i (x >>= f) (fun b k => ∃ a j, Q a j ∧ R a j b k)
      (fun c => V c ∨ ∃ a j, Q a j ∧ W a j c) := by
  refine ⟨hx.bind_sees (fun a j ha => (hf a j ha).sees), fun s hs => ?_⟩
  have hgives := hx.gives s hs
  cases hrun : x s with
  | ok a t =>
    rw [hrun] at hgives
    obtain ⟨hq, hunique⟩ := hgives
    have hrest := (hf a _ hq).gives t rfl
    rw [bind_ok hrun]
    cases hfrun : f a t with
    | ok b u =>
      rw [hfrun] at hrest
      refine ⟨⟨a, _, hq, hrest.1⟩, ?_⟩
      rintro b' k ⟨a', j, ha, hb⟩
      obtain ⟨rfl, rfl⟩ := hunique a' j ha
      exact hrest.2 b' k hb
    | error e u =>
      rw [hfrun] at hrest
      rintro hbad b' k ⟨a', j, ha, hb⟩
      obtain ⟨rfl, rfl⟩ := hunique a' j ha
      exact hrest hbad b' k hb
  | error e t =>
    rw [hrun] at hgives
    rw [bind_error hrun]
    rintro hbad b k ⟨a, j, ha, _⟩
    exact hgives hbad a j ha

theorem Visits.step {a₀ : α} {j₀ : Nat} (hx : Visits J i x (fun a j => a = a₀ ∧ j = j₀) V)
    {R : β → Nat → Prop} {W : γ → Prop} (hf : Visits J j₀ (f a₀) R W) :
    Visits J i (x >>= f) R (fun c => V c ∨ W c) := by
  have hbind := hx.bind (f := f) (R := fun _ _ => R) (W := fun _ _ => W) (by
    rintro a j ⟨rfl, rfl⟩
    exact hf)
  refine hbind.conseq (fun b k => ?_) (fun c => or_congr_right ?_)
  · exact ⟨fun ⟨_, _, _, h⟩ => h, fun h => ⟨a₀, j₀, ⟨rfl, rfl⟩, h⟩⟩
  · exact ⟨fun ⟨_, _, _, h⟩ => h, fun h => ⟨a₀, j₀, ⟨rfl, rfl⟩, h⟩⟩

theorem Visits.map (hx : Visits J i x Q V) (f : α → β) :
    Visits J i (x >>= fun a => Pure.pure (f a)) (fun b j => ∃ a, Q a j ∧ b = f a) V := by
  have hbind := hx.bind (f := fun a => Pure.pure (f a)) (R := fun a j b k => b = f a ∧ k = j)
    (W := fun _ _ _ => False) (fun a j _ => .pure (f a))
  refine hbind.conseq (fun b k => ?_) (fun c => ?_)
  · constructor
    · rintro ⟨a, j, ha, rfl, rfl⟩
      exact ⟨a, ha, rfl⟩
    · rintro ⟨a, ha, rfl⟩
      exact ⟨a, k, ha, rfl, rfl⟩
  · exact ⟨fun h => h.elim id (fun ⟨_, _, _, h⟩ => h.elim), .inl⟩

theorem Visits.times {R : Nat → α → Nat → Prop} {W : Nat → γ → Prop}
    (h : ∀ j, Visits J j x (R j) (W j)) (n : Nat) : Visits J i (times n x)
      (fun as j => Chain R i as j ∧ as.length = n)
      (fun c => Somewhere (fun j => W j c) (fun j k => ∃ a, R j a k) n i) := by
  induction n generalizing i with
  | zero =>
    refine (Visits.pure []).conseq (fun as j => ?_) (fun c => Iff.rfl)
    constructor
    · rintro ⟨rfl, rfl⟩
      exact ⟨.nil j, rfl⟩
    · rintro ⟨has, hlen⟩
      obtain rfl := List.length_eq_zero_iff.mp hlen
      cases has
      exact ⟨rfl, rfl⟩
  | succ n ih =>
    refine ((h i).bind (fun a j _ => (ih (i := j)).map (a :: ·))).conseq (fun as k => ?_) (fun c => ?_)
    · constructor
      · rintro ⟨a, j, ha, bs, ⟨hbs, hlen⟩, rfl⟩
        exact ⟨.cons ha hbs, by rw [List.length_cons, hlen]⟩
      · rintro ⟨has, hlen⟩
        cases has with
        | nil => cases hlen
        | cons ha hbs => exact ⟨_, _, ha, _, ⟨hbs, Nat.succ.inj hlen⟩, rfl⟩
    · refine or_congr_right ⟨?_, ?_⟩
      · rintro ⟨a, j, ha, hc⟩
        exact ⟨j, ⟨a, ha⟩, hc⟩
      · rintro ⟨j, ⟨a, ha⟩, hc⟩
        exact ⟨a, j, ha, hc⟩

end GlobalAgenda.Base.Places
