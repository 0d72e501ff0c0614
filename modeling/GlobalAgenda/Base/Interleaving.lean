import Mathlib.Tactic.ByContra
import Mathlib.Logic.Relation

namespace GlobalAgenda.Base.Interleaving

open Relation

variable {σ : Type} (start : σ) (idle : σ → Prop) (step : Nat → σ → σ → Prop)

/-- One thread runs the components, which are numbered in the order in which they are added. A
component is added when all are idle, and takes a step when all others are. -/
inductive Step : List σ → List σ → Prop
  | added {cs : List σ} (hidle : ∀ c ∈ cs, idle c) : Step cs (cs ++ [start])
  | moved {cs : List σ} {i : Nat} {c d : σ} (hi : cs[i]? = some c)
      (hothers : ∀ j e, j ≠ i → cs[j]? = some e → idle e) (hstep : step i c d) : Step cs (cs.set i d)

def Reaches : List σ → List σ → Prop := ReflTransGen (Step start idle step)

variable {start idle step} {cs ds : List σ} {i : Nat}

theorem Step.component {d : σ} (h : Step start idle step cs ds) (hd : ds[i]? = some d) :
    (∃ c, cs[i]? = some c ∧ (c = d ∨ step i c d)) ∨ d = start := by
  cases h with
  | added hidle =>
    by_cases hlt : i < cs.length
    · rw [List.getElem?_append_left hlt] at hd
      exact .inl ⟨d, hd, .inl rfl⟩
    · rw [List.getElem?_append_right (Nat.not_lt.mp hlt)] at hd
      exact .inr (List.mem_singleton.mp (List.mem_of_getElem? hd))
  | @moved j c e hj hothers hstep =>
    by_cases hij : j = i
    · subst hij
      rw [List.getElem?_set_self (List.getElem?_eq_some_iff.mp hj).1] at hd
      cases hd
      exact .inl ⟨c, hj, .inr hstep⟩
    · rw [List.getElem?_set_ne hij] at hd
      exact .inl ⟨d, hd, .inl rfl⟩

theorem Reaches.component (h : Reaches start idle step [] cs) {c : σ} (hc : cs[i]? = some c) :
    ReflTransGen (step i) start c := by
  induction h generalizing c with
  | refl => cases hc
  | tail _ hstep ih =>
    obtain ⟨b, hb, rfl | hbc⟩ | rfl := hstep.component hc
    · exact ih hb
    · exact (ih hb).tail hbc
    · exact .refl

theorem Step.exclusive (hstart : idle start) (h : Step start idle step cs ds) {j : Nat} {c d : σ}
    (hi : ds[i]? = some c) (hc : ¬ idle c) (hj : ds[j]? = some d) (hd : ¬ idle d) : i = j := by
  cases h with
  | added hidle =>
    obtain hmem | hmem := List.mem_append.mp (List.mem_of_getElem? hi)
    · exact absurd (hidle c hmem) hc
    · rw [List.mem_singleton.mp hmem] at hc
      exact absurd hstart hc
  | @moved k b e hk hothers hstep =>
    have hmover : ∀ l f, (cs.set k e)[l]? = some f → ¬ idle f → l = k := by
      intro l f hl hf
      by_contra hlk
      rw [List.getElem?_set_ne (Ne.symm hlk)] at hl
      exact hf (hothers l f hlk hl)
    rw [hmover i c hi hc, hmover j d hj hd]

theorem Reaches.exclusive (hstart : idle start) (h : Reaches start idle step [] cs) {j : Nat} {c d : σ}
    (hi : cs[i]? = some c) (hc : ¬ idle c) (hj : cs[j]? = some d) (hd : ¬ idle d) : i = j := by
  cases h with
  | refl => cases hi
  | tail _ hstep => exact hstep.exclusive hstart hi hc hj hd

theorem Reaches.captured {T : σ → Prop} (hT : ∀ c d, T c → step i c d → T d)
    (hbusy : ∀ c, T c → ¬ idle c) {c : σ} (hc : cs[i]? = some c) (htrap : T c)
    (h : Reaches start idle step cs ds) :
    ∃ d, ds = cs.set i d ∧ ReflTransGen (step i) c d ∧ T d := by
  have hlt : i < cs.length := (List.getElem?_eq_some_iff.mp hc).1
  induction h with
  | refl =>
    obtain ⟨_, rfl⟩ := List.getElem?_eq_some_iff.mp hc
    exact ⟨_, (List.set_getElem_self hlt).symm, .refl, htrap⟩
  | tail _ hstep ih =>
    obtain ⟨d, rfl, hrun, hd⟩ := ih
    have hself : (cs.set i d)[i]? = some d := List.getElem?_set_self hlt
    cases hstep with
    | added hidle => exact absurd (hidle d (List.mem_of_getElem? hself)) (hbusy d hd)
    | @moved j e f hj hothers hef =>
      have hij : i = j := by
        by_contra hne
        exact hbusy d hd (hothers i d hne hself)
      subst hij
      rw [hself] at hj
      cases hj
      exact ⟨f, List.set_set .., hrun.tail hef, hT d f hd hef⟩

end GlobalAgenda.Base.Interleaving
