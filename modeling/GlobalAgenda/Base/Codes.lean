import Mathlib.Data.List.Basic

namespace GlobalAgenda.Base.Codes

variable {α β κ : Type} {D D' : α → Prop} {encode : α → List β}

/-- No word of an object in `D` begins that of another one: in a stream the object and what follows
it are determined. -/
def PrefixFree (D : α → Prop) (encode : α → List β) : Prop :=
  ∀ a b r s, D a → D b → encode a ++ r = encode b ++ s → a = b ∧ r = s

theorem PrefixFree.mono (h : PrefixFree D encode) (hD : ∀ a, D' a → D a) : PrefixFree D' encode :=
  fun a b r s ha hb => h a b r s (hD a ha) (hD b hb)

theorem PrefixFree.ofLength (hlen : ∀ a b, D a → D b → (encode a).length = (encode b).length)
    (hinj : ∀ a b, D a → D b → encode a = encode b → a = b) : PrefixFree D encode := by
  intro a b r s ha hb h
  obtain ⟨hword, hrest⟩ := List.append_inj h (hlen a b ha hb)
  exact ⟨hinj a b ha hb hword, hrest⟩

theorem PrefixFree.keyed {K : κ → Prop} {head : κ → List β} {key : α → κ} {tail : α → List β}
    (hhead : PrefixFree K head) (hkey : ∀ a, D a → K (key a))
    (htail : ∀ k, PrefixFree (fun a => D a ∧ key a = k) tail) :
    PrefixFree D (fun a => head (key a) ++ tail a) := by
  intro a b r s ha hb h
  rw [List.append_assoc, List.append_assoc] at h
  obtain ⟨hk, hrest⟩ := hhead _ _ _ _ (hkey a ha) (hkey b hb) h
  exact htail (key b) a b r s ⟨ha, hk⟩ ⟨hb, rfl⟩ hrest

theorem PrefixFree.list (h : PrefixFree D encode) (n : Nat) :
    PrefixFree (fun as : List α => (∀ a ∈ as, D a) ∧ as.length = n) (fun as => as.flatMap encode) := by
  induction n with
  | zero =>
    rintro as bs r s ⟨_, has⟩ ⟨_, hbs⟩ heq
    rw [List.length_eq_zero_iff.mp has, List.length_eq_zero_iff.mp hbs] at heq ⊢
    exact ⟨rfl, heq⟩
  | succ n ih =>
    rintro as bs r s ⟨hDa, has⟩ ⟨hDb, hbs⟩ heq
    obtain ⟨a, as, rfl⟩ := List.exists_cons_of_length_eq_add_one has
    obtain ⟨b, bs, rfl⟩ := List.exists_cons_of_length_eq_add_one hbs
    simp only [List.flatMap_cons, List.append_assoc] at heq
    obtain ⟨hDa, hDas⟩ := List.forall_mem_cons.mp hDa
    obtain ⟨hDb, hDbs⟩ := List.forall_mem_cons.mp hDb
    obtain ⟨rfl, hrest⟩ := h a b _ _ hDa hDb heq
    obtain ⟨rfl, rfl⟩ := ih as bs r s ⟨hDas, Nat.succ.inj has⟩ ⟨hDbs, Nat.succ.inj hbs⟩ hrest
    exact ⟨rfl, rfl⟩

theorem PrefixFree.counted {N : Nat → Prop} {num : Nat → List β} (hnum : PrefixFree N num)
    (h : PrefixFree D encode) :
    PrefixFree (fun as : List α => N as.length ∧ ∀ a ∈ as, D a)
      (fun as => num as.length ++ as.flatMap encode) :=
  hnum.keyed (fun _ has => has.1) (fun n => (h.list n).mono (fun _ has => ⟨has.1.2, has.2⟩))

theorem PrefixFree.stream (h : PrefixFree D encode) (hne : ∀ a, D a → encode a ≠ []) {as bs : List α}
    (hDa : ∀ a ∈ as, D a) (hDb : ∀ b ∈ bs, D b) (heq : as.flatMap encode = bs.flatMap encode) :
    as = bs := by
  induction as generalizing bs with
  | nil =>
    cases bs with
    | nil => rfl
    | cons b bs =>
      rw [List.flatMap_nil, List.flatMap_cons] at heq
      exact absurd (List.append_eq_nil_iff.mp heq.symm).1 (hne b (hDb b (by simp)))
  | cons a as ih =>
    cases bs with
    | nil =>
      rw [List.flatMap_nil, List.flatMap_cons] at heq
      exact absurd (List.append_eq_nil_iff.mp heq).1 (hne a (hDa a (by simp)))
    | cons b bs =>
      rw [List.flatMap_cons, List.flatMap_cons] at heq
      obtain ⟨rfl, hrest⟩ := h a b _ _ (hDa a (by simp)) (hDb b (by simp)) heq
      rw [ih (fun c hc => hDa c (by simp [hc])) (fun c hc => hDb c (by simp [hc])) hrest]

theorem PrefixFree.delimited {f : α → List β} (stop : β) (hstop : ∀ a, D a → stop ∉ f a)
    (hinj : ∀ a b, D a → D b → f a = f b → a = b) : PrefixFree D (fun a => f a ++ [stop]) := by
  have hsplit : ∀ (xs ys r s : List β), stop ∉ xs → stop ∉ ys →
      xs ++ stop :: r = ys ++ stop :: s → xs = ys ∧ r = s := by
    intro xs
    induction xs with
    | nil =>
      intro ys r s _ hys h
      cases ys with
      | nil => exact ⟨rfl, (List.cons.inj h).2⟩
      | cons y ys => exact absurd (by simp [(List.cons.inj h).1]) hys
    | cons x xs ih =>
      intro ys r s hxs hys h
      cases ys with
      | nil => exact absurd (by simp [(List.cons.inj h).1]) hxs
      | cons y ys =>
        obtain ⟨rfl, htail⟩ := List.cons.inj h
        obtain ⟨rfl, rfl⟩ := ih ys r s (List.not_mem_of_not_mem_cons hxs)
          (List.not_mem_of_not_mem_cons hys) htail
        exact ⟨rfl, rfl⟩
  intro a b r s ha hb h
  rw [List.append_assoc, List.append_assoc] at h
  obtain ⟨hword, hrest⟩ := hsplit _ _ r s (hstop a ha) (hstop b hb) h
  exact ⟨hinj a b ha hb hword, hrest⟩

theorem PrefixFree.terminated (h : PrefixFree D encode) (stop : β)
    (hstart : ∀ a, D a → ∃ c cs, encode a = c :: cs ∧ c ≠ stop) :
    PrefixFree (fun as : List α => ∀ a ∈ as, D a) (fun as => as.flatMap encode ++ [stop]) := by
  intro as
  induction as with
  | nil =>
    intro bs r s _ hDb heq
    cases bs with
    | nil => exact ⟨rfl, List.append_cancel_left heq⟩
    | cons b bs =>
      obtain ⟨c, cs, hc, hne⟩ := hstart b (hDb b (by simp))
      simp only [List.flatMap_nil, List.flatMap_cons, hc] at heq
      exact absurd (List.cons.inj heq).1.symm hne
  | cons a as ih =>
    intro bs r s hDa hDb heq
    cases bs with
    | nil =>
      obtain ⟨c, cs, hc, hne⟩ := hstart a (hDa a (by simp))
      simp only [List.flatMap_nil, List.flatMap_cons, hc] at heq
      exact absurd (List.cons.inj heq).1 hne
    | cons b bs =>
      simp only [List.flatMap_cons, List.append_assoc] at heq
      obtain ⟨rfl, hrest⟩ := h a b _ _ (hDa a (by simp)) (hDb b (by simp)) heq
      rw [← List.append_assoc, ← List.append_assoc] at hrest
      obtain ⟨rfl, rfl⟩ := ih bs r s (fun c hc => hDa c (by simp [hc]))
        (fun c hc => hDb c (by simp [hc])) hrest
      exact ⟨rfl, rfl⟩

end GlobalAgenda.Base.Codes
