import GlobalAgenda.ParserSpec

namespace GlobalAgenda.Phantoms

open EnumDataTypes ValueConverter Base.Triples Base.Chains ParserSpec

variable {m : Machine} {i j : Nat}

/-- The entry begins with two bytes of its own. -/
def OwnEntry (m : Machine) (i : Nat) (e : DataEntry) (j : Nat) : Prop :=
  EntryAt m i e j ∧ i + 2 ≤ j

/-- The array has a count, and so many entries behind it, each with bytes of its own. -/
structure OwnArray (m : Machine) (i : Nat) (a : AnonymousArray) (j : Nat) : Prop where
  reads : ArrayAt m i a j
  counted : i + 2 ≤ m.input.length
  count : a.entries.length = wordAt m.input i
  entries : Chain (OwnEntry m) (i + 2) a.entries j

/-- Started at `it`, a constructor that stores arrays from `i` up to `stop` has read them there. -/
structure InventsNothing (m : Machine) (it i : Nat) (arrays : List AnonymousArray) (stop : Nat) :
    Prop where
  own : Chain (OwnArray m) i arrays stop
  bound : 2 * arrays.length + 2 * (arrays.map (fun a => a.entries.length)).sum ≤ stop - it

/-- A constructor that is started at `it` stores arrays it takes from `i` on, so many as it was
asked for, and ends at `stop`. -/
inductive Constructs (m : Machine) (it : Nat) : Nat → Nat → List AnonymousArray → Nat → Prop
  | array {a : AnonymousArray} {t : Scan} (h : AnonymousArray.ofInput m { it := it } = .ok a t) :
      Constructs m it it 1 [a] t.it
  | ofHeader {header : EntryHeader} {d : DataSet} {t : Scan}
      (h : DataSet.ofHeader m header { it := it } = .ok d t) :
      Constructs m it it header.contentSize d.anonArrays t.it
  | dataSet {header : EntryHeader} {k : Nat} {d : DataSet} {t : Scan} (hk : HeaderAt m it header k)
      (h : DataSet.ofInput m { it := it } = .ok d t) :
      Constructs m it k header.contentSize d.anonArrays t.it

def TwoRemain (m : Machine) (i : Nat) : Prop := i + 2 ≤ m.input.length

instance (m : Machine) (i : Nat) : Decidable (TwoRemain m i) :=
  inferInstanceAs (Decidable (i + 2 ≤ m.input.length))

/-- Where an array begins a count remains that is no more than the bytes behind it, and two bytes
remain where each of so many entries begins. -/
def ArrayRoom (m : Machine) (i : Nat) : Prop :=
  TwoRemain m i ∧ wordAt m.input i ≤ m.input.length - (i + 2) ∧
    Along (TwoRemain m) (EntryEnd m) (wordAt m.input i) (i + 2)

/-- There is room for so many arrays. -/
def Room (m : Machine) (n i : Nat) : Prop := Along (ArrayRoom m) (ArrayEnd m) n i

theorem entryAt_moves_iff {e : DataEntry} (he : EntryAt m i e j) :
    i + 2 ≤ j ↔ i + 2 ≤ m.input.length := by
  obtain ⟨k, hh, hp⟩ := he
  constructor
  · intro hmoves
    by_contra hshort
    have hword : afterWord m.input i = i := if_neg hshort
    have hk : k = i := by
      generalize e.entryHeader = header at hh
      cases hh with
      | sized _ => rw [hword, hword]
      | fixed _ _ _ _ => exact hword
    subst hk
    generalize e.data = data at hp
    cases hp with
    | fits hle => omega
    | short _ => omega
  · intro hroom
    exact (hh.advances hroom).trans (hp.le)

theorem ownEntry_iff (i : Nat) (e : DataEntry) (j : Nat) (he : EntryAt m i e j) :
    OwnEntry m i e j ↔ TwoRemain m i := by
  rw [OwnEntry, entryAt_moves_iff he, TwoRemain, and_iff_right he]

theorem ownEntries_iff {es : List DataEntry} (hes : Chain (EntryAt m) i es j) :
    Chain (OwnEntry m) i es j ↔ Along (TwoRemain m) (EntryEnd m) es.length i :=
  hes.iff_along entryAt_unique (fun _ _ _ h => h.1) ownEntry_iff

theorem ownArray_iff (i : Nat) (a : AnonymousArray) (j : Nat) (ha : ArrayAt m i a j) :
    OwnArray m i a j ↔ ArrayRoom m i := by
  have hword : TwoRemain m i → afterWord m.input i = i + 2 := fun h => if_pos h
  constructor
  · rintro ⟨_, hcounted, hcount, hown⟩
    refine ⟨hcounted, ?_⟩
    cases ha with
    | empty h =>
      rw [← hcount]
      exact ⟨Nat.zero_le _, trivial⟩
    | entries hpos hle hes hlen =>
      rw [hword hcounted] at hle hes
      rw [← hlen]
      exact ⟨hlen ▸ hle, (ownEntries_iff hes).mp hown⟩
  · rintro ⟨hcounted, hle, halong⟩
    have hown : a.entries.length = wordAt m.input i ∧ Chain (OwnEntry m) (i + 2) a.entries j := by
      cases ha with
      | empty h =>
        rw [hword hcounted] at h ⊢
        have hzero : wordAt m.input i = 0 := by omega
        exact ⟨hzero.symm, .nil _⟩
      | entries hpos _ hes hlen =>
        rw [hword hcounted] at hes
        rw [← hlen] at halong
        exact ⟨hlen, (ownEntries_iff hes).mpr halong⟩
    exact ⟨ha, hcounted, hown.1, hown.2⟩

theorem ownArrays_iff {arrays : List AnonymousArray} (has : Chain (ArrayAt m) i arrays j) :
    Chain (OwnArray m) i arrays j ↔ Room m arrays.length i :=
  has.iff_along arrayAt_unique (fun _ _ _ h => h.reads) ownArray_iff

theorem ownArray_size (i : Nat) (a : AnonymousArray) (j : Nat) (ha : OwnArray m i a j) :
    i + (2 + 2 * a.entries.length) ≤ j := by
  have hsum := ha.entries.sum_le (f := fun _ => 2) (fun _ _ _ h => h.2)
  rw [List.map_const', List.sum_replicate, Nat.nsmul_eq_mul] at hsum
  omega

theorem ownArrays_size {arrays : List AnonymousArray} (has : Chain (OwnArray m) i arrays j) :
    i + (2 * arrays.length + 2 * (arrays.map (fun a => a.entries.length)).sum) ≤ j := by
  have hsum := has.sum_le ownArray_size
  have hsplit : (arrays.map (fun a => 2 + 2 * a.entries.length)).sum =
      2 * arrays.length + 2 * (arrays.map (fun a => a.entries.length)).sum := by
    rw [List.sum_map_add, List.map_const', List.sum_replicate, Nat.nsmul_eq_mul, List.sum_map_mul_left]
    omega
  rwa [hsplit] at hsum

theorem Constructs.chain {it n stop : Nat} {arrays : List AnonymousArray}
    (hit : it ≤ m.input.length) (h : Constructs m it i n arrays stop) :
    it ≤ i ∧ Chain (ArrayAt m) i arrays stop ∧ arrays.length = n := by
  cases h with
  | array h =>
    exact ⟨le_rfl, .singleton ((runs_array hit).ok h).1, rfl⟩
  | ofHeader h =>
    obtain ⟨_, harrays, hlen⟩ := ((runs_arrays hit _).ok h).1
    exact ⟨le_rfl, harrays, hlen⟩
  | dataSet hk h =>
    obtain ⟨⟨k', hat, harrays, hlen⟩, _⟩ := (runs_headerAndArrays hit).ok h
    obtain ⟨rfl, rfl⟩ := hk.unique hat
    exact ⟨hk.le, harrays, hlen⟩

/-- Arrays and entries are read from bytes of their own exactly if the input has room for as many as
the counts announce. -/
theorem inventsNothing_iff {it n stop : Nat} {arrays : List AnonymousArray}
    (hit : it ≤ m.input.length) (h : Constructs m it i n arrays stop) :
    InventsNothing m it i arrays stop ↔ Room m n i := by
  obtain ⟨hi, harrays, rfl⟩ := h.chain hit
  rw [← ownArrays_iff harrays]
  constructor
  · intro hown
    exact hown.own
  · intro hown
    refine ⟨hown, ?_⟩
    have hsize := ownArrays_size hown
    omega

theorem entryEnd_eq (hi : i ≤ m.input.length) {e : DataEntry}
    (h : returned (DataEntry.ofInput m) { it := i } = some e) (hend : EntryEnd m i j) :
    j = (final (DataEntry.ofInput m) { it := i }).it := by
  obtain ⟨e', he'⟩ := hend
  exact (entryAt_unique _ _ _ _ _ he' ((runs_entry hi).ok (returned_eq_some.mp h)).1).2

theorem arrayEnd_eq (hi : i ≤ m.input.length) {a : AnonymousArray}
    (h : returned (AnonymousArray.ofInput m) { it := i } = some a) (hend : ArrayEnd m i j) :
    j = (final (AnonymousArray.ofInput m) { it := i }).it := by
  obtain ⟨a', ha'⟩ := hend
  exact (arrayAt_unique _ _ _ _ _ ha' ((runs_array hi).ok (returned_eq_some.mp h)).1).2

def flags : List UInt8 := [2, 0, 1, 0, 0x80, 1, 0, 0x81, 1, 0, 1, 0, 0x82]

theorem inventsNothing_flags : InventsNothing (.server flags (fun _ => 0)) 0 0
    [⟨[⟨⟨1, 1, 0⟩, [0x80]⟩, ⟨⟨1, 1, 0⟩, [0x81]⟩]⟩, ⟨[⟨⟨1, 1, 0⟩, [0x82]⟩]⟩] 13 := by
  have hrun : returned (DataSet.ofHeader (.server flags (fun _ => 0)) ⟨0x10C, 2, 2⟩) {} =
      some ⟨⟨0x10C, 2, 2⟩, [⟨[⟨⟨1, 1, 0⟩, [0x80]⟩, ⟨⟨1, 1, 0⟩, [0x81]⟩]⟩,
        ⟨[⟨⟨1, 1, 0⟩, [0x82]⟩]⟩]⟩ := by decide +kernel
  have hend : (final (DataSet.ofHeader (.server flags (fun _ => 0)) ⟨0x10C, 2, 2⟩) {}).it = 13 := by
    decide +kernel
  have harrays := Constructs.ofHeader (returned_eq_some.mp hrun)
  rw [hend] at harrays
  refine (inventsNothing_iff (Nat.zero_le _) harrays).mpr ⟨⟨by decide, by decide, ?_⟩, fun j hj => ?_⟩
  · refine ⟨by decide, fun j hj => ⟨?_, fun _ _ => trivial⟩⟩
    have hfive : (final (DataEntry.ofInput (.server flags (fun _ => 0))) { it := 2 }).it = 5 := by
      decide +kernel
    rw [entryEnd_eq (e := ⟨⟨1, 1, 0⟩, [0x80]⟩) (by decide) (by decide +kernel) hj, hfive]
    decide
  · have height : (final (AnonymousArray.ofInput (.server flags (fun _ => 0))) {}).it = 8 := by
      decide +kernel
    rw [arrayEnd_eq (a := ⟨[⟨⟨1, 1, 0⟩, [0x80]⟩, ⟨⟨1, 1, 0⟩, [0x81]⟩]⟩) (by decide) (by decide +kernel) hj,
      height]
    exact ⟨⟨by decide, by decide, by decide, fun _ _ => trivial⟩, fun _ _ => trivial⟩

def phantom : List UInt8 := [2, 0, 0, 0]

/-- The array stores the same entry again. -/
theorem some_entry_invented :
    ¬ ∀ (input : List UInt8) (beyond : Nat → UInt8) (it i n stop : Nat)
      (arrays : List AnonymousArray), it ≤ input.length →
        Constructs (.server input beyond) it i n arrays stop →
          InventsNothing (.server input beyond) it i arrays stop := by
  intro h
  have hrun : returned (AnonymousArray.ofInput (.server phantom (fun _ => 0))) {} =
      some ⟨[⟨⟨0, 0, 2⟩, []⟩, ⟨⟨0, 0, 2⟩, []⟩]⟩ := by decide +kernel
  have hend : (final (AnonymousArray.ofInput (.server phantom (fun _ => 0))) {}).it = 4 := by
    decide +kernel
  have hbound := (h phantom (fun _ => 0) 0 0 1 _ _ (Nat.zero_le _)
    (.array (returned_eq_some.mp hrun))).bound
  rw [hend] at hbound
  exact absurd hbound (by decide)

end GlobalAgenda.Phantoms
