import GlobalAgenda.Base.Triples

namespace GlobalAgenda.Base.WhileLoop

open GlobalAgenda.Base.Triples

variable {ε σ α : Type} {stuck : ε} {cond : σ → Bool} {body : α → EStateM ε σ α}

/-- A loop that is cut off with the error `stuck` after a number of rounds. -/
def whileLoop (stuck : ε) (cond : σ → Bool) (body : α → EStateM ε σ α) :
    Nat → α → EStateM ε σ α
  | 0, a => fun s => if cond s then .error stuck s else .ok a s
  | n + 1, a => fun s => if cond s then (body a >>= whileLoop stuck cond body n) s else .ok a s

/-- From one loop head to another by complete rounds of the body. -/
inductive Reaches (cond : σ → Bool) (body : α → EStateM ε σ α) : α → σ → α → σ → Prop
  | refl (a : α) (s : σ) : Reaches cond body a s a s
  | round {a b c : α} {s t u : σ} (hc : cond s = true) (hb : body a s = .ok b t)
      (h : Reaches cond body b t c u) : Reaches cond body a s c u

def Terminates (stuck : ε) (cond : σ → Bool) (body : α → EStateM ε σ α) (a : α) (s : σ) : Prop :=
  ∃ n, ∀ t, whileLoop stuck cond body n a s ≠ .error stuck t

theorem whileLoop_exit {s : σ} (h : cond s = false) (n : Nat) (a : α) :
    whileLoop stuck cond body n a s = .ok a s := by
  cases n <;> simp [whileLoop, h]

theorem whileLoop_round {s t : σ} {a b : α} (h : cond s = true) (hb : body a s = .ok b t)
    (n : Nat) : whileLoop stuck cond body (n + 1) a s = whileLoop stuck cond body n b t := by
  simp only [whileLoop, h, ↓reduceIte]
  exact bind_ok hb

theorem whileLoop_error {s t : σ} {a : α} {e : ε} (h : cond s = true)
    (hb : body a s = .error e t) (n : Nat) :
    whileLoop stuck cond body (n + 1) a s = .error e t := by
  simp only [whileLoop, h, ↓reduceIte]
  exact bind_error hb

theorem whileLoop_ok {n : Nat} {a b : α} {s t : σ}
    (h : whileLoop stuck cond body n a s = .ok b t) :
    cond t = false ∧ Reaches cond body a s b t := by
  induction n generalizing a s with
  | zero =>
    cases hc : cond s with
    | false =>
      rw [whileLoop_exit hc] at h
      cases h
      exact ⟨hc, .refl _ _⟩
    | true => simp [whileLoop, hc] at h
  | succ n ih =>
    cases hc : cond s with
    | false =>
      rw [whileLoop_exit hc] at h
      cases h
      exact ⟨hc, .refl _ _⟩
    | true =>
      cases hb : body a s with
      | error e u =>
        rw [whileLoop_error hc hb] at h
        cases h
      | ok c u =>
        rw [whileLoop_round hc hb] at h
        obtain ⟨ht, hr⟩ := ih h
        exact ⟨ht, .round hc hb hr⟩

theorem Triple.whileLoop {I : α → σ → Prop} {E : ε → σ → Prop}
    (hbody : ∀ a, Triple (fun s => cond s = true ∧ I a s) (body a) I E)
    (hstuck : ∀ a s, I a s → E stuck s) (n : Nat) (a : α) :
    Triple (I a) (WhileLoop.whileLoop stuck cond body n a)
      (fun b s => cond s = false ∧ I b s) E := by
  induction n generalizing a with
  | zero =>
    intro s hs
    cases hc : cond s with
    | false => rw [whileLoop_exit hc]; exact ⟨hc, hs⟩
    | true => simpa only [WhileLoop.whileLoop, hc, ↓reduceIte] using hstuck a s hs
  | succ n ih =>
    intro s hs
    cases hc : cond s with
    | false => rw [whileLoop_exit hc]; exact ⟨hc, hs⟩
    | true =>
      simp only [WhileLoop.whileLoop, hc, ↓reduceIte]
      exact (hbody a).bind ih s ⟨hc, hs⟩

theorem Reaches.invariant {I : α → σ → Prop} {a b : α} {s t : σ}
    (h : Reaches cond body a s b t) (hs : I a s)
    (hbody : ∀ a s b t, cond s = true → I a s → body a s = .ok b t → I b t) : I b t := by
  induction h with
  | refl => exact hs
  | round hc hb _ ih => exact ih (hbody _ _ _ _ hc hs hb)

theorem Reaches.snoc {a b c : α} {s t u : σ} (h : Reaches cond body a s b t)
    (hc : cond t = true) (hb : body b t = .ok c u) : Reaches cond body a s c u := by
  induction h with
  | refl => exact .round hc hb (.refl _ _)
  | round hc' hb' _ ih => exact .round hc' hb' (ih hc hb)

theorem terminates_of_measure (μ : σ → Nat) (a : α) (s : σ)
    (hpos : ∀ b t, Reaches cond body a s b t → cond t = true → 0 < μ t)
    (hdec : ∀ b t c u, Reaches cond body a s b t → cond t = true → body b t = .ok c u → μ u < μ t)
    (hne : ∀ b t u, Reaches cond body a s b t → body b t ≠ .error stuck u)
    (n : Nat) (hn : μ s ≤ n) (t : σ) : whileLoop stuck cond body n a s ≠ .error stuck t := by
  induction n generalizing a s with
  | zero =>
    cases hc : cond s with
    | false => rw [whileLoop_exit hc]; nofun
    | true => exact absurd (hpos a s (.refl a s) hc) (by omega)
  | succ n ih =>
    cases hc : cond s with
    | false => rw [whileLoop_exit hc]; nofun
    | true =>
      cases hb : body a s with
      | error e u =>
        rw [whileLoop_error hc hb]
        rintro ⟨⟩
        exact hne a s t (.refl a s) hb
      | ok b u =>
        have hd := hdec a s b u (.refl a s) hc hb
        rw [whileLoop_round hc hb]
        exact ih b u (fun c v h => hpos c v (.round hc hb h))
          (fun c v d w h => hdec c v d w (.round hc hb h))
          (fun c v w h => hne c v w (.round hc hb h)) (by omega)

theorem stuck_of_trap (T : σ → Prop) (hcond : ∀ s, T s → cond s = true)
    (hbody : ∀ a s, T s → ∃ b t, body a s = .ok b t ∧ T t) (n : Nat) (a : α) (s : σ) (hs : T s) :
    ∃ t, whileLoop stuck cond body n a s = .error stuck t := by
  induction n generalizing a s with
  | zero => exact ⟨s, by simp [whileLoop, hcond s hs]⟩
  | succ n ih =>
    obtain ⟨b, t, hb, ht⟩ := hbody a s hs
    rw [whileLoop_round (hcond s hs) hb]
    exact ih b t ht

theorem Reaches.never_ends {a b : α} {s t : σ} (h : Reaches cond body a s b t)
    (ht : ∀ n, ∃ u, whileLoop stuck cond body n b t = .error stuck u) (n : Nat) :
    ∃ u, whileLoop stuck cond body n a s = .error stuck u := by
  induction h generalizing n with
  | refl => exact ht n
  | round hc hb _ ih =>
    cases n with
    | zero => exact ⟨_, by simp only [whileLoop, hc, ↓reduceIte]; rfl⟩
    | succ n => rw [whileLoop_round hc hb]; exact ih ht n

/-- A loop whose rounds make progress exactly outside a trap ends if and only if no round
begins in the trap. -/
theorem terminates_iff (μ : σ → Nat) (T : σ → Prop) (a : α) (s : σ)
    (hcond : ∀ t, T t → cond t = true)
    (hbody : ∀ b t, T t → ∃ c u, body b t = .ok c u ∧ T u)
    (hpos : ∀ b t, Reaches cond body a s b t → cond t = true → 0 < μ t)
    (hdec : ∀ b t c u, Reaches cond body a s b t → cond t = true → ¬ T t → body b t = .ok c u →
      μ u < μ t)
    (hne : ∀ b t u, Reaches cond body a s b t → body b t ≠ .error stuck u) :
    Terminates stuck cond body a s ↔ ∀ b t, Reaches cond body a s b t → ¬ T t := by
  constructor
  · rintro ⟨n, hn⟩ b t hr ht
    obtain ⟨u, hu⟩ := hr.never_ends (fun n => stuck_of_trap T hcond hbody n b t ht) n
    exact hn u hu
  · intro hr
    exact ⟨μ s, terminates_of_measure μ a s hpos
      (fun b t c u h hc => hdec b t c u h hc (hr b t h)) hne _ (Nat.le_refl _)⟩

theorem whileLoop_more {n k : Nat} (hle : n ≤ k) {a : α} {s : σ}
    (h : ∀ t, whileLoop stuck cond body n a s ≠ .error stuck t) :
    whileLoop stuck cond body k a s = whileLoop stuck cond body n a s := by
  induction n generalizing k a s with
  | zero =>
    cases hc : cond s with
    | false => rw [whileLoop_exit hc, whileLoop_exit hc]
    | true => exact absurd (by simp [whileLoop, hc]) (h s)
  | succ n ih =>
    obtain ⟨k, rfl⟩ := Nat.exists_eq_succ_of_ne_zero (by omega : k ≠ 0)
    cases hc : cond s with
    | false => rw [whileLoop_exit hc, whileLoop_exit hc]
    | true =>
      cases hb : body a s with
      | error e u => rw [whileLoop_error hc hb, whileLoop_error hc hb]
      | ok b u =>
        rw [whileLoop_round hc hb, whileLoop_round hc hb]
        apply ih (Nat.le_of_succ_le_succ hle)
        intro t ht
        rw [← whileLoop_round hc hb] at ht
        exact h t ht

/-- Where every round outside a trap decreases a measure, as many rounds as it has at the start
decide how the loop ends, and if it does. -/
theorem outcome_of_measure (μ : σ → Nat) (T : σ → Prop) (a : α) (s : σ)
    (hcond : ∀ t, T t → cond t = true)
    (hbody : ∀ b t, T t → ∃ c u, body b t = .ok c u ∧ T u)
    (hpos : ∀ b t, Reaches cond body a s b t → cond t = true → ¬ T t → 0 < μ t)
    (hdec : ∀ b t c u, Reaches cond body a s b t → cond t = true → ¬ T t → body b t = .ok c u →
      μ u < μ t) (n k : Nat) (hn : μ s ≤ n) (hk : μ s ≤ k) :
    outcome (whileLoop stuck cond body n a) s = outcome (whileLoop stuck cond body k a) s := by
  induction hμ : μ s using Nat.strongRecOn generalizing a s n k with
  | ind v ih =>
    by_cases hT : T s
    · obtain ⟨t, ht⟩ := @stuck_of_trap _ _ _ stuck _ _ T hcond hbody n a s hT
      obtain ⟨u, hu⟩ := @stuck_of_trap _ _ _ stuck _ _ T hcond hbody k a s hT
      rw [outcome, outcome, ht, hu]
    · cases hc : cond s with
      | false => rw [outcome, outcome, whileLoop_exit hc, whileLoop_exit hc]
      | true =>
        have hμpos := hpos a s (.refl a s) hc hT
        obtain ⟨n, rfl⟩ := Nat.exists_eq_succ_of_ne_zero (by omega : n ≠ 0)
        obtain ⟨k, rfl⟩ := Nat.exists_eq_succ_of_ne_zero (by omega : k ≠ 0)
        cases hb : body a s with
        | error e u => rw [outcome, outcome, whileLoop_error hc hb, whileLoop_error hc hb]
        | ok b u =>
          have hlt := hdec a s b u (.refl a s) hc hT hb
          have hrest := ih (μ u) (by omega) b u (fun c v h => hpos c v (.round hc hb h))
            (fun c v d w h => hdec c v d w (.round hc hb h)) n k (by omega) (by omega) rfl
          rw [outcome, outcome, whileLoop_round hc hb, whileLoop_round hc hb]
          exact hrest

end GlobalAgenda.Base.WhileLoop
