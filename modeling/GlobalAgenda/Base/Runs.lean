namespace GlobalAgenda.Base.Runs

variable {σ ι ε : Type} (step : σ → ι → Except ε σ)

/-- `P` holds of every state of a run, which ends early where a step raises an error. -/
def Always (P : σ → Prop) : σ → List ι → Prop
  | s, [] => P s
  | s, i :: is => P s ∧ ∀ t, step s i = .ok t → Always P t is

def EachStep (Q : σ → ι → Prop) : σ → List ι → Prop
  | _, [] => True
  | s, i :: is => Q s i ∧ ∀ t, step s i = .ok t → EachStep Q t is

variable {step} {P : σ → Prop} {Q : σ → ι → Prop}

theorem Always.head {s : σ} {is : List ι} (h : Always step P s is) : P s := by
  cases is with
  | nil => exact h
  | cons i is => exact h.1

theorem always_iff_reached {s : σ} {is : List ι} : Always step P s is ↔
    ∀ js ks t, is = js ++ ks → js.foldlM step s = .ok t → P t := by
  induction is generalizing s with
  | nil =>
    constructor
    · intro h js ks t hjs ht
      obtain ⟨rfl, rfl⟩ := List.append_eq_nil_iff.mp hjs.symm
      cases ht
      exact h
    · intro h
      exact h [] [] s rfl rfl
  | cons i is ih =>
    constructor
    · rintro ⟨hs, hrest⟩ js ks t hjs ht
      cases js with
      | nil =>
        cases ht
        exact hs
      | cons j js =>
        obtain ⟨rfl, rfl⟩ := List.cons.inj hjs
        rw [List.foldlM_cons] at ht
        cases hstep : step s i with
        | ok u =>
          rw [hstep] at ht
          exact ih.mp (hrest u hstep) js ks t rfl ht
        | error e =>
          rw [hstep] at ht
          cases ht
    · intro h
      refine ⟨h [] (i :: is) s rfl rfl, fun t hstep => ih.mpr (fun js ks u hjs hu => ?_)⟩
      refine h (i :: js) ks u (by rw [hjs, List.cons_append]) ?_
      rw [List.foldlM_cons, hstep]
      exact hu

/-- Where a step from a state with `P` leads to one with `P` exactly if `Q` holds of the step, `P` is
kept all along a run exactly if `Q` holds of all its steps. -/
theorem always_iff_eachStep (hok : ∀ s i t, P s → step s i = .ok t → (P t ↔ Q s i))
    (herror : ∀ s i e, P s → step s i = .error e → Q s i) {s : σ} (hs : P s) (is : List ι) :
    Always step P s is ↔ EachStep step Q s is := by
  induction is generalizing s with
  | nil => exact iff_of_true hs trivial
  | cons i is ih =>
    cases hstep : step s i with
    | ok t =>
      have hrest : P t → (Always step P t is ↔ EachStep step Q t is) := fun ht => ih ht
      constructor
      · rintro ⟨_, h⟩
        have ht : P t := (h t hstep).head
        refine ⟨(hok s i t hs hstep).mp ht, fun u hu => ?_⟩
        rw [hstep] at hu
        cases hu
        exact (hrest ht).mp (h t hstep)
      · rintro ⟨hq, h⟩
        have ht : P t := (hok s i t hs hstep).mpr hq
        refine ⟨hs, fun u hu => ?_⟩
        rw [hstep] at hu
        cases hu
        exact (hrest ht).mpr (h t hstep)
    | error e =>
      constructor
      · rintro _
        exact ⟨herror s i e hs hstep, fun t ht => by rw [hstep] at ht; cases ht⟩
      · rintro _
        exact ⟨hs, fun t ht => by rw [hstep] at ht; cases ht⟩

end GlobalAgenda.Base.Runs
