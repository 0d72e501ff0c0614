import Mathlib.Data.List.Forall2
import GlobalAgenda.Base.Triples

namespace GlobalAgenda.Base.Consumption

open GlobalAgenda.Base.Triples

variable {ε σ α β γ δ : Type} {At : List β → σ → Prop}

/-- Whatever input follows, the action reads exactly the word `bs` and returns a value in `Q`.
`At ws s` says that `ws` is what remains to be read in the state `s`. -/
def Consumes (At : List β → σ → Prop) (x : EStateM ε σ α) (bs : List β) (Q : α → Prop)
    (E : ε → Prop) : Prop :=
  ∀ rest, Triple (At (bs ++ rest)) x (fun a s => Q a ∧ At rest s) (fun e _ => E e)

variable {E : ε → Prop} {bs cs : List β} {Q : α → Prop} {R : γ → Prop}

theorem Consumes.pure {a : α} (h : Q a) : Consumes At (pure a : EStateM ε σ α) [] Q E :=
  fun _ => .pure (fun _ hs => ⟨h, hs⟩)

theorem Consumes.bind {x : EStateM ε σ α} {f : α → EStateM ε σ γ}
    (hx : Consumes At x bs Q E) (hf : ∀ a, Q a → Consumes At (f a) cs R E) :
    Consumes At (x >>= f) (bs ++ cs) R E := by
  intro rest
  rw [List.append_assoc]
  exact (hx (cs ++ rest)).bind (fun a => .pure_pre (fun ha => hf a ha rest))

theorem Consumes.bind_pure {x : EStateM ε σ α} {f : α → EStateM ε σ γ}
    (hx : Consumes At x bs Q E) (hf : ∀ a, Q a → Consumes At (f a) [] R E) :
    Consumes At (x >>= f) bs R E := by
  simpa only [List.append_nil] using hx.bind hf

theorem Consumes.times {x : EStateM ε σ α} {encode : γ → List β} {Rel : α → γ → Prop}
    (cs : List γ) (h : ∀ c ∈ cs, Consumes At x (encode c) (Rel · c) E) :
    Consumes At (times cs.length x) (cs.flatMap encode) (List.Forall₂ Rel · cs) E := by
  induction cs with
  | nil => exact .pure .nil
  | cons c cs ih =>
    rw [List.flatMap_cons]
    refine (h c (by simp)).bind (fun a ha => ?_)
    refine (ih (fun d hd => h d (by simp [hd]))).bind_pure (fun as has => ?_)
    exact .pure (.cons ha has)

end GlobalAgenda.Base.Consumption
