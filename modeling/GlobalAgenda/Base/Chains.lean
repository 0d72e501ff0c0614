import Mathlib.Algebra.GroupWithZero.Nat
import Mathlib.Algebra.BigOperators.Ring.List

namespace GlobalAgenda.Base.Chains

variable {α : Type} {R R' : Nat → α → Nat → Prop}

/-- The items follow one another, each from where the one before it ends. -/
inductive Chain (R : Nat → α → Nat → Prop) : Nat → List α → Nat → Prop
  | nil (i : Nat) : Chain R i [] i
  | cons {i j k : Nat} {a : α} {as : List α} (ha : R i a j) (has : Chain R j as k) :
      Chain R i (a :: as) k

/-- `P` holds at the first of `n` positions, and at those that follow it under `E`. -/
def Along (P : Nat → Prop) (E : Nat → Nat → Prop) : Nat → Nat → Prop
  | 0, _ => True
  | n + 1, i => P i ∧ ∀ j, E i j → Along P E n j

/-- `P` holds at one of `n` positions that follow one another under `E`. -/
def Somewhere (P : Nat → Prop) (E : Nat → Nat → Prop) : Nat → Nat → Prop
  | 0, _ => False
  | n + 1, i => P i ∨ ∃ j, E i j ∧ Somewhere P E n j

def Unique (R : Nat → α → Nat → Prop) : Prop :=
  ∀ i a j a' j', R i a j → R i a' j' → a = a' ∧ j = j'

theorem Chain.singleton {i j : Nat} {a : α} (h : R i a j) : Chain R i [a] j := .cons h (.nil j)

theorem Chain.snoc {i j k : Nat} {a : α} {as : List α} (h : Chain R i as j) (ha : R j a k) :
    Chain R i (as ++ [a]) k := by
  induction h with
  | nil i => exact .singleton ha
  | cons hb _ ih => exact .cons hb (ih ha)

theorem Chain.forall {P : α → Prop} (hP : ∀ i a j, R i a j → P a) {i k : Nat} {as : List α}
    (h : Chain R i as k) : ∀ a ∈ as, P a := by
  induction h with
  | nil i => simp
  | cons ha _ ih => exact List.forall_mem_cons.mpr ⟨hP _ _ _ ha, ih⟩

theorem Chain.forall_of {I : Nat → Prop} {P : α → Prop} (hstep : ∀ i a j, I i → R i a j → P a ∧ I j)
    {i k : Nat} {as : List α} (h : Chain R i as k) (hi : I i) : (∀ a ∈ as, P a) ∧ I k := by
  induction h with
  | nil i => exact ⟨by simp, hi⟩
  | cons ha _ ih =>
    obtain ⟨hP, hj⟩ := hstep _ _ _ hi ha
    obtain ⟨hPs, hk⟩ := ih hj
    exact ⟨List.forall_mem_cons.mpr ⟨hP, hPs⟩, hk⟩

theorem Chain.sum_le {f : α → Nat} (hf : ∀ i a j, R i a j → i + f a ≤ j) {i k : Nat} {as : List α}
    (h : Chain R i as k) : i + (as.map f).sum ≤ k := by
  induction h with
  | nil i => simp
  | @cons i j k a as ha _ ih =>
    have hle := hf i a j ha
    rw [List.map_cons, List.sum_cons]
    omega

/-- The words stand in the list one behind the other, each in one piece and with anything in between,
and `rest` is what remains behind them. -/
inductive Pieces {β : Type} : List β → List (List β) → List β → Prop
  | nil (skipped rest : List β) : Pieces (skipped ++ rest) [] rest
  | cons (skipped w : List β) {bs rest : List β} {ws : List (List β)} (h : Pieces bs ws rest) :
      Pieces (skipped ++ (w ++ bs)) (w :: ws) rest

section Pieces

variable {β : Type} {bs cs ds : List β} {vs ws : List (List β)}

theorem Pieces.skip (skipped : List β) (h : Pieces bs ws cs) : Pieces (skipped ++ bs) ws cs := by
  cases h with
  | nil more rest =>
    rw [← List.append_assoc]
    exact .nil _ _
  | cons more w h =>
    rw [← List.append_assoc]
    exact .cons _ w h

theorem Pieces.append (h : Pieces bs ws cs) (h' : Pieces cs vs ds) : Pieces bs (ws ++ vs) ds := by
  induction h with
  | nil skipped rest => exact h'.skip skipped
  | cons skipped w _ ih => exact .cons skipped w (ih h')

theorem Pieces.forget (h : Pieces bs ws cs) : Pieces bs [] cs := by
  induction h with
  | nil skipped rest => exact .nil skipped rest
  | cons skipped w _ ih => exact (ih.skip w).skip skipped

theorem Pieces.length_le (h : Pieces bs ws cs) : ws.flatten.length + cs.length ≤ bs.length := by
  induction h with
  | nil skipped rest => simp
  | cons skipped w _ ih =>
    rw [List.flatten_cons, List.length_append, List.length_append, List.length_append]
    omega

theorem Pieces.drop {i j : Nat} (h : i ≤ j) : Pieces (bs.drop i) [] (bs.drop j) := by
  have hsplit := List.take_append_drop (j - i) (bs.drop i)
  rw [List.drop_drop, Nat.add_sub_cancel' h] at hsplit
  rw [← hsplit]
  exact .nil _ _

theorem Chain.pieces {f : α → List (List β)}
    (hf : ∀ i a j, R i a j → Pieces (bs.drop i) (f a) (bs.drop j)) {i k : Nat} {as : List α}
    (h : Chain R i as k) : Pieces (bs.drop i) (as.flatMap f) (bs.drop k) := by
  induction h with
  | nil i => exact .drop le_rfl
  | cons ha _ ih =>
    rw [List.flatMap_cons]
    exact (hf _ _ _ ha).append ih

end Pieces

theorem Chain.unique (hR : Unique R) {i k k' : Nat} {as as' : List α} (h : Chain R i as k)
    (h' : Chain R i as' k') (hlen : as.length = as'.length) : as = as' ∧ k = k' := by
  induction h generalizing as' with
  | nil i =>
    cases h' with
    | nil => exact ⟨rfl, rfl⟩
    | cons _ _ => cases hlen
  | cons ha _ ih =>
    cases h' with
    | nil => cases hlen
    | cons ha' has' =>
      obtain ⟨rfl, rfl⟩ := hR _ _ _ _ _ ha ha'
      obtain ⟨rfl, rfl⟩ := ih has' (Nat.succ.inj hlen)
      exact ⟨rfl, rfl⟩

theorem Chain.iff_along {P : Nat → Prop} (hR : Unique R) (hle : ∀ i a j, R' i a j → R i a j)
    (hP : ∀ i a j, R i a j → (R' i a j ↔ P i)) {i k : Nat} {as : List α} (h : Chain R i as k) :
    Chain R' i as k ↔ Along P (fun i j => ∃ a, R i a j) as.length i := by
  induction h with
  | nil i => exact iff_of_true (.nil i) trivial
  | @cons i j k a as ha has ih =>
    constructor
    · intro hall
      cases hall with
      | cons ha' has' =>
        obtain ⟨_, rfl⟩ := hR _ _ _ _ _ ha (hle _ _ _ ha')
        refine ⟨(hP _ _ _ ha).mp ha', ?_⟩
        rintro l ⟨b, hb⟩
        obtain ⟨_, rfl⟩ := hR _ _ _ _ _ ha hb
        exact ih.mp has'
    · rintro ⟨hhead, htail⟩
      exact .cons ((hP _ _ _ ha).mpr hhead) (ih.mpr (htail j ⟨a, ha⟩))

theorem Chain.forall_iff_somewhere {γ : Type} {F : α → Prop} {W : Nat → γ → Prop} {good : γ → Prop}
    (hR : Unique R) (hF : ∀ i a j, R i a j → (F a ↔ ∀ c, W i c → good c)) {i k : Nat} {as : List α}
    (h : Chain R i as k) : (∀ a ∈ as, F a) ↔
      ∀ c, Somewhere (fun i => W i c) (fun i j => ∃ a, R i a j) as.length i → good c := by
  induction h with
  | nil i => exact iff_of_true (by simp) (fun _ hc => hc.elim)
  | @cons i j k a as ha _ ih =>
    rw [List.forall_mem_cons, hF _ _ _ ha, ih]
    constructor
    · rintro ⟨hhead, htail⟩ c (hc | ⟨l, ⟨b, hb⟩, hc⟩)
      · exact hhead c hc
      · obtain ⟨_, rfl⟩ := hR _ _ _ _ _ ha hb
        exact htail c hc
    · intro hall
      exact ⟨fun c hc => hall c (.inl hc), fun c hc => hall c (.inr ⟨j, ⟨a, ha⟩, hc⟩)⟩

end GlobalAgenda.Base.Chains
