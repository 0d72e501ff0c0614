import GlobalAgenda.Base.Triples

namespace GlobalAgenda.Base.Progress

open GlobalAgenda.Base.Triples

variable {ε σ α β γ : Type} {obs : σ → γ} {pos : σ → Nat} {stop d : Nat}

def Stays (obs : σ → γ) (x : EStateM ε σ α) : Prop :=
  ∀ s a t, x s = .ok a t → obs t = obs s

/-- From a position up to `stop` a normal return goes on to one up to `stop`, and by `d` at least
where `d` remain. -/
def Moves (pos : σ → Nat) (stop d : Nat) (x : EStateM ε σ α) : Prop :=
  ∀ s a t, pos s ≤ stop → x s = .ok a t →
    pos s ≤ pos t ∧ pos t ≤ stop ∧ (pos s + d ≤ stop → pos s + d ≤ pos t)

variable {x : EStateM ε σ α} {f : α → EStateM ε σ β}

theorem Stays.pure (a : α) : Stays obs (pure a : EStateM ε σ α) := by
  intro s b t h
  cases h
  rfl

theorem Stays.throw (e : ε) : Stays obs (throw e : EStateM ε σ α) := nofun

theorem Stays.bind (hx : Stays obs x) (hf : ∀ a, Stays obs (f a)) : Stays obs (x >>= f) := by
  intro s b u h
  obtain ⟨a, t, hxs, hft⟩ := bind_eq_ok h
  exact (hf a t b u hft).trans (hx s a t hxs)

theorem Stays.forM {g : α → EStateM ε σ PUnit} (h : ∀ a, Stays obs (g a)) (as : List α) :
    Stays obs (as.forM g) := by
  induction as with
  | nil => exact .pure _
  | cons a as ih => exact (h a).bind (fun _ => ih)

theorem Stays.moves (hx : Stays pos x) : Moves pos stop 0 x := by
  intro s a t hs h
  have ht := hx s a t h
  omega

theorem Moves.pure (a : α) : Moves pos stop 0 (pure a : EStateM ε σ α) := (Stays.pure a).moves

theorem Moves.bind (hx : Moves pos stop d x) (hf : ∀ a, Moves pos stop 0 (f a)) :
    Moves pos stop d (x >>= f) := by
  intro s b u hs h
  obtain ⟨a, t, hxs, hft⟩ := bind_eq_ok h
  obtain ⟨hst, ht, hd⟩ := hx s a t hs hxs
  obtain ⟨htu, hu, _⟩ := hf a t b u ht hft
  exact ⟨Nat.le_trans hst htu, hu, fun h => Nat.le_trans (hd h) htu⟩

theorem Moves.times (hx : Moves pos stop 0 x) (n : Nat) : Moves pos stop 0 (times n x) := by
  induction n with
  | zero => exact .pure []
  | succ n ih => exact hx.bind (fun a => ih.bind (fun as => .pure (a :: as)))

end GlobalAgenda.Base.Progress
