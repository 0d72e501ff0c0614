import GlobalAgenda.Base.Chains
import GlobalAgenda.TcpPacket

namespace GlobalAgenda.ParserSpec

open EnumDataTypes ValueConverter Base.Triples Base.LittleEndian Base.WhileLoop Base.Chains

variable {α β : Type}

def unknownType : Fault := .exception "Got unknown enum type for parsing entry"

def nestedDataSet : Fault := .exception "DataEntry cannot parse DATA_SET type"

/-- Started at `i` the action ends at some `j` with `Q a j`, never moving back or past the end, or
with a fault, which comes from the bound on the rounds only where `C` allows it. -/
def Runs (m : Machine) (C : Prop) (i : Nat) (x : Decoder α) (Q : α → Nat → Prop) : Prop :=
  Triple (fun s => s.it = i) x (fun a s => Q a s.it ∧ i ≤ s.it ∧ s.it ≤ m.input.length)
    (fun f _ => f = .outOfFuel → C)

section Rules

variable {m : Machine} {C : Prop} {i : Nat}

theorem Runs.bind {x : Decoder α} {f : α → Decoder β} {Q : α → Nat → Prop} {R : β → Nat → Prop}
    (hx : Runs m C i x Q)
    (hf : ∀ a j, Q a j → i ≤ j → j ≤ m.input.length → Runs m C j (f a) R) :
    Runs m C i (x >>= f) R := by
  refine Triple.bind hx (fun a s hs => ?_)
  obtain ⟨hq, hij, hj⟩ := hs
  have h := hf a s.it hq hij hj s rfl
  cases hfs : f a s with
  | ok b t =>
    rw [hfs] at h
    exact ⟨h.1, hij.trans h.2.1, h.2.2⟩
  | error e t =>
    rw [hfs] at h
    exact h

theorem Runs.pure {a : α} {Q : α → Nat → Prop} (hi : i ≤ m.input.length) (h : Q a i) :
    Runs m C i (pure a : Decoder α) Q := by
  refine Triple.pure (fun s hs => ?_)
  subst hs
  exact ⟨h, le_rfl, hi⟩

theorem Runs.throw {Q : α → Nat → Prop} {f : Fault} (h : f ≠ .outOfFuel) :
    Runs m C i (throw f : Decoder α) Q :=
  Triple.throw (fun _ _ hf => absurd hf h)

theorem Runs.conseq {x : Decoder α} {Q Q' : α → Nat → Prop} (h : Runs m C i x Q)
    (hQ : ∀ a j, Q a j → i ≤ j → j ≤ m.input.length → Q' a j) : Runs m C i x Q' :=
  Triple.conseq h (fun _ hs => hs) (fun a s hs => ⟨hQ a s.it hs.1 hs.2.1 hs.2.2, hs.2⟩)
    (fun _ _ he => he)

theorem Runs.ok {x : Decoder α} {Q : α → Nat → Prop} (h : Runs m True i x Q) {a : α} {t : Scan}
    (hrun : x { it := i } = .ok a t) : Q a t.it ∧ t.it ≤ m.input.length :=
  have hok := Triple.ok h rfl hrun
  ⟨hok.1, hok.2.2⟩

theorem runs_cursor (hi : i ≤ m.input.length) : Runs m C i cursor (fun a j => a = i ∧ j = i) := by
  rintro s rfl
  exact ⟨⟨rfl, rfl⟩, le_rfl, hi⟩

theorem runs_advance {n : Nat} (h : i + n ≤ m.input.length) :
    Runs m C i (advance n) (fun _ j => j = i + n) := by
  rintro s rfl
  exact ⟨rfl, Nat.le_add_right _ _, h⟩

theorem Runs.times {x : Decoder α} {R : Nat → α → Nat → Prop}
    (h : ∀ j, i ≤ j → j ≤ m.input.length → Runs m C j x (R j)) (n : Nat) (hi : i ≤ m.input.length) :
    Runs m C i (times n x) (fun as j => Chain R i as j ∧ as.length = n) := by
  induction n generalizing i with
  | zero => exact .pure hi ⟨.nil i, rfl⟩
  | succ n ih =>
    refine (h i le_rfl hi).bind (fun a j ha hij hj => ?_)
    refine (ih (fun k hk => h k (hij.trans hk)) hj).bind (fun as k has _ hk => ?_)
    exact .pure hk ⟨.cons ha has.1, by rw [List.length_cons, has.2]⟩

theorem Runs.forM {f : α → Decoder PUnit} (as : List α) (hi : i ≤ m.input.length)
    (h : ∀ a ∈ as, Runs m C i (f a) (fun _ j => j = i)) :
    Runs m C i (as.forM f) (fun _ j => j = i) := by
  induction as with
  | nil => exact .pure hi rfl
  | cons a as ih =>
    refine (h a (by simp)).bind (fun _ j hj _ _ => ?_)
    subst hj
    exact ih (fun b hb => h b (by simp [hb]))

end Rules

variable {m : Machine} {C : Prop} {i : Nat}

theorem afterWord_le {input : List UInt8} {i : Nat} (hi : i ≤ input.length) :
    i ≤ afterWord input i ∧ afterWord input i ≤ input.length := by
  rw [afterWord]
  split <;> omega

theorem runs_toUintValueFromVector (hi : i ≤ m.input.length) {amount : Nat} (ha : amount ≤ 8) :
    Runs m C i (toUintValueFromVector m amount) (fun v j =>
      (i + amount ≤ m.input.length →
        j = i + amount ∧ v % 256 ^ amount = value ((m.input.drop i).take amount)) ∧
      (m.input.length < i + amount → j = i ∧ v = 0)) := by
  refine (runs_cursor hi).bind (fun it j hit _ _ => ?_)
  obtain ⟨rfl, rfl⟩ := hit
  by_cases henough : j + amount ≤ m.input.length
  · rw [isEnoughToRead, decide_eq_true henough, if_pos rfl]
    cases hload : m.fetch j 8 with
    | ok loaded =>
      rw [lift, pure_bind]
      refine (runs_advance henough).bind (fun _ l hl _ hle => ?_)
      refine .pure hle ⟨fun _ => ⟨hl, ?_⟩, fun hlt => absurd henough (by omega)⟩
      rw [value_mod, Machine.fetch_take hload ha henough]
    | error f =>
      obtain ⟨pos, rfl⟩ := Machine.fetch_error hload
      exact .throw (by simp)
  · rw [isEnoughToRead, decide_eq_false henough, if_neg (by simp)]
    exact .pure hi ⟨fun h => absurd h henough, fun _ => ⟨rfl, rfl⟩⟩

theorem runs_toUint16 (hi : i ≤ m.input.length) :
    Runs m C i (toUint16 m) (fun v j => v = wordAt m.input i ∧ j = afterWord m.input i) := by
  refine (runs_toUintValueFromVector hi (by norm_num : 2 ≤ 8)).bind (fun v j hv _ hj => ?_)
  refine .pure hj ?_
  by_cases henough : i + 2 ≤ m.input.length
  · obtain ⟨hjj, hval⟩ := hv.1 henough
    rw [wordAt, afterWord, if_pos henough, if_pos henough]
    exact ⟨hval, hjj⟩
  · obtain ⟨hjj, hval⟩ := hv.2 (by omega)
    rw [wordAt, afterWord, if_neg henough, if_neg henough, hval]
    exact ⟨rfl, hjj⟩

theorem runs_toCmd (hi : i ≤ m.input.length) :
    Runs m C i (toCmd m) (fun cmd j => cmd = cmdAt m.input i ∧ j = afterWord m.input i) := by
  refine (runs_toUint16 hi).bind (fun v j hv _ hj => ?_)
  exact .pure hj ⟨by rw [hv.1]; rfl, hv.2⟩

/-- The header the parser takes from a position, and where the cursor stands after it. -/
inductive HeaderAt (m : Machine) (i : Nat) : EntryHeader → Nat → Prop
  | sized (hc : EntryHeader.getConfig m.typeOf (cmdAt m.input i) = .ok (2, 0)) :
      HeaderAt m i ⟨cmdAt m.input i, wordAt m.input (afterWord m.input i), 2⟩
        (afterWord m.input (afterWord m.input i))
  | fixed (size : Nat) (hpos : 0 < size) (hle : size ≤ 16)
      (hc : EntryHeader.getConfig m.typeOf (cmdAt m.input i) = .ok (0, size)) :
      HeaderAt m i ⟨cmdAt m.input i, size, 0⟩ (afterWord m.input i)

theorem HeaderAt.typeOf {h : EntryHeader} {j : Nat} (hh : HeaderAt m i h j) :
    ∃ type ≤ 10, m.typeOf h.cmd = some type := by
  cases hh with
  | sized hc | fixed _ _ _ hc =>
    obtain ⟨type, ht, hle, _⟩ := EntryHeader.getConfig_ok hc
    exact ⟨type, hle, ht⟩

theorem HeaderAt.consistent {h : EntryHeader} {j : Nat} (hh : HeaderAt m i h j) :
    h.Consistent m.typeOf := by
  cases hh with
  | sized hc => exact ⟨_, hc, rfl, fun h => absurd h (by decide)⟩
  | fixed size _ _ hc => exact ⟨_, hc, rfl, fun _ => rfl⟩

theorem HeaderAt.contentSize_lt {h : EntryHeader} {j : Nat} (hh : HeaderAt m i h j) :
    h.contentSize < 2 ^ 16 := by
  cases hh with
  | sized hc => exact wordAt_lt _ _
  | fixed size _ hle hc => exact hle.trans_lt (by norm_num)

theorem HeaderAt.le {h : EntryHeader} {j : Nat} (hh : HeaderAt m i h j) : i ≤ j := by
  have hword : ∀ k, k ≤ afterWord m.input k := fun k => by
    rw [afterWord]
    split <;> omega
  cases hh with
  | sized _ => exact (hword i).trans (hword _)
  | fixed _ _ _ _ => exact hword i

theorem HeaderAt.le_end {h : EntryHeader} {j : Nat} (hh : HeaderAt m i h j)
    (hi : i ≤ m.input.length) : j ≤ m.input.length := by
  have hword := (afterWord_le hi).2
  cases hh with
  | sized _ => exact (afterWord_le hword).2
  | fixed _ _ _ _ => exact hword

theorem HeaderAt.unique {h h' : EntryHeader} {j j' : Nat} (hh : HeaderAt m i h j)
    (hh' : HeaderAt m i h' j') : h = h' ∧ j = j' := by
  cases hh with
  | sized hc =>
    cases hh' with
    | sized _ => exact ⟨rfl, rfl⟩
    | fixed size' _ _ hc' =>
      rw [hc] at hc'
      cases hc'
  | fixed size _ _ hc =>
    cases hh' with
    | sized hc' =>
      rw [hc] at hc'
      cases hc'
    | fixed size' _ _ hc' =>
      rw [hc] at hc'
      cases hc'
      exact ⟨rfl, rfl⟩

theorem runs_header (hi : i ≤ m.input.length) :
    Runs m C i (EntryHeader.ofInput m) (HeaderAt m i) := by
  refine (runs_toCmd hi).bind (fun cmd k hcmd _ hk => ?_)
  obtain ⟨rfl, rfl⟩ := hcmd
  cases hc : EntryHeader.getConfig m.typeOf (cmdAt m.input i) with
  | ok c =>
    obtain rfl | ⟨size, hpos, hle, rfl⟩ := EntryHeader.getConfig_cases hc
    · refine (runs_toUint16 hk).bind (fun v l hv _ hl => ?_)
      obtain ⟨rfl, rfl⟩ := hv
      exact .pure hl (.sized hc)
    · exact .pure hk (.fixed size hpos hle hc)
  | error f =>
    refine .throw ?_
    obtain rfl | rfl := EntryHeader.getConfig_error hc
    · simp
    · simp

/-- The payload the parser takes at `k` for a header: none where it does not fit, and none at all of a
data set that fits. -/
inductive PayloadAt (m : Machine) (k : Nat) (h : EntryHeader) : List UInt8 → Nat → Prop
  | fits (hle : k + h.contentSize ≤ m.input.length) (h6 : m.typeOf h.cmd ≠ some 6) :
      PayloadAt m k h ((m.input.drop k).take h.contentSize) (k + h.contentSize)
  | short (hlt : m.input.length < k + h.contentSize) : PayloadAt m k h [] k

theorem PayloadAt.length_le {k j : Nat} {h : EntryHeader} {data : List UInt8}
    (hp : PayloadAt m k h data j) : data.length ≤ h.contentSize := by
  cases hp with
  | fits _ _ => exact List.length_take_le _ _
  | short _ => exact Nat.zero_le _

theorem PayloadAt.le {k j : Nat} {h : EntryHeader} {data : List UInt8} (hp : PayloadAt m k h data j) :
    k ≤ j := by
  cases hp with
  | fits _ _ => exact Nat.le_add_right _ _
  | short _ => exact le_rfl

theorem PayloadAt.unique {h : EntryHeader} {j j' k : Nat} {data data' : List UInt8}
    (hp : PayloadAt m k h data j) (hp' : PayloadAt m k h data' j') : data = data' ∧ j = j' := by
  cases hp with
  | fits hle _ =>
    cases hp' with
    | fits _ _ => exact ⟨rfl, rfl⟩
    | short hlt => exact absurd hle (Nat.not_le.mpr hlt)
  | short hlt =>
    cases hp' with
    | fits hle _ => exact absurd hle (Nat.not_le.mpr hlt)
    | short _ => exact ⟨rfl, rfl⟩

theorem getType_run {h : EntryHeader} {type : Nat} (ht : m.typeOf h.cmd = some type) :
    h.getType m = pure (EnumType.ofValue type) := by
  rw [EntryHeader.getType, ht]

theorem runs_getType (hi : i ≤ m.input.length) {h : EntryHeader} {type : Nat}
    (ht : m.typeOf h.cmd = some type) :
    Runs m C i (h.getType m) (fun t j => t = EnumType.ofValue type ∧ j = i) := by
  rw [getType_run ht]
  exact .pure hi ⟨rfl, rfl⟩

theorem runs_payload {k : Nat} (hk : k ≤ m.input.length) {h : EntryHeader} {type : Nat}
    (ht : m.typeOf h.cmd = some type) : Runs m C k (DataEntry.parse m h) (PayloadAt m k h) := by
  refine (runs_cursor hk).bind (fun start j hs _ _ => ?_)
  obtain ⟨rfl, rfl⟩ := hs
  by_cases hle : j + h.getSize ≤ m.input.length
  · rw [isEnoughToRead, decide_eq_true hle, if_pos rfl]
    refine (runs_getType hk ht).bind (fun t l htl _ _ => ?_)
    obtain ⟨rfl, rfl⟩ := htl
    by_cases hset : EnumType.ofValue type = some .typeTcpDataSet
    · rw [if_pos hset]
      exact .throw (by simp)
    · rw [if_neg hset]
      have h6 : m.typeOf h.cmd ≠ some 6 := by
        rintro h6
        rw [h6] at ht
        cases ht
        exact hset rfl
      refine (runs_advance hle).bind (fun _ n hn _ hnle => ?_)
      subst hn
      rw [Machine.fetch_input hle]
      exact .pure hnle (.fits hle h6)
  · rw [isEnoughToRead, decide_eq_false hle, if_neg (by simp)]
    exact .pure hk (.short (Nat.not_le.mp hle))

theorem runs_ofHeader {k : Nat} (hk : k ≤ m.input.length) {h : EntryHeader} {type : Nat}
    (ht : m.typeOf h.cmd = some type) :
    Runs m C k (DataEntry.ofHeader m h)
      (fun e j => e.entryHeader = h ∧ PayloadAt m k h e.data j) := by
  refine (runs_payload hk ht).bind (fun data j hd _ hj => ?_)
  exact .pure hj ⟨rfl, hd⟩

theorem payload_run {h : EntryHeader} {type : Nat} {data : List UInt8} {s : Scan} {j : Nat}
    (ht : m.typeOf h.cmd = some type) (hp : PayloadAt m s.it h data j) :
    DataEntry.ofHeader m h s = .ok ⟨h, data⟩ ⟨j⟩ := by
  rw [DataEntry.ofHeader, DataEntry.parse, bind_assoc, bind_ok (cursor_run s)]
  cases hp with
  | fits hle h6 =>
    have henough : isEnoughToRead m s.it h.getSize = true := decide_eq_true hle
    have hne : type ≠ 6 := by
      rintro rfl
      exact h6 ht
    have hfetch : m.fetch s.it h.getSize = .ok ((m.input.drop s.it).take h.contentSize) :=
      Machine.fetch_input hle
    rw [if_pos henough, getType_run ht, pure_bind, if_neg (EnumType.ofValue_ne_typeTcpDataSet hne),
      hfetch]
    rfl
  | short hlt =>
    have hlong : isEnoughToRead m s.it h.getSize = false := decide_eq_false (Nat.not_le.mpr hlt)
    rw [if_neg (by simp [hlong])]
    rfl

/-- The array entry the parser takes from a position. -/
def EntryAt (m : Machine) (i : Nat) (e : DataEntry) (j : Nat) : Prop :=
  ∃ k, HeaderAt m i e.entryHeader k ∧ PayloadAt m k e.entryHeader e.data j

def EntryEnd (m : Machine) (i j : Nat) : Prop := ∃ e, EntryAt m i e j

theorem entryAt_unique : Unique (EntryAt m) := by
  rintro i ⟨header, data⟩ j ⟨header', data'⟩ j' ⟨k, hh, hp⟩ ⟨k', hh', hp'⟩
  obtain ⟨rfl, rfl⟩ := hh.unique hh'
  obtain ⟨rfl, rfl⟩ := hp.unique hp'
  exact ⟨rfl, rfl⟩

theorem EntryAt.fits {e : DataEntry} {j : Nat} (h : EntryAt m i e j) : e.Fits m.typeOf := by
  obtain ⟨k, hh, hp⟩ := h
  exact ⟨hh.consistent, fun _ => hp.length_le.trans_lt hh.contentSize_lt⟩

/-- A data set with a size that fits is where the only exception of an entry comes from. -/
theorem throws_nested {k : Nat} {h : EntryHeader} (ht : m.typeOf h.cmd = some 6)
    (hle : k + h.contentSize ≤ m.input.length) (s : Scan) (hs : s.it = k) :
    DataEntry.ofHeader m h s = .error nestedDataSet s := by
  subst hs
  have henough : isEnoughToRead m s.it h.getSize = true := decide_eq_true hle
  rw [DataEntry.ofHeader, DataEntry.parse, bind_assoc, bind_ok (cursor_run s), if_pos henough, bind_assoc,
    getType_run ht]
  rfl

theorem runs_entry (hi : i ≤ m.input.length) : Runs m C i (DataEntry.ofInput m) (EntryAt m i) := by
  refine (runs_header hi).bind (fun h k hh _ hk => ?_)
  obtain ⟨type, _, ht⟩ := hh.typeOf
  refine (runs_ofHeader hk ht).conseq (fun e n he _ _ => ?_)
  obtain ⟨rfl, hp⟩ := he
  exact ⟨k, hh, hp⟩

theorem runs_dbgPrint (hi : i ≤ m.input.length) (h : EntryHeader) :
    Runs m C i (h.dbgPrint m) (fun _ j => j = i) := by
  rw [EntryHeader.dbgPrint]
  by_cases hrow : h.cmd.toNat < m.textRows
  · rw [if_pos hrow]
    exact .pure hi rfl
  · rw [if_neg hrow]
    exact .throw (by simp)

theorem forM_pure {α : Type} {f : α → Decoder PUnit} {as : List α} (h : ∀ a ∈ as, f a = pure ()) :
    as.forM f = pure () := by
  induction as with
  | nil => rfl
  | cons a as ih =>
    change (f a >>= fun _ => as.forM f) = _
    rw [h a (by simp), pure_bind]
    exact ih (fun b hb => h b (by simp [hb]))

section Text

variable (htext : ∀ cmd type, m.typeOf cmd = some type → cmd.toNat < m.textRows)

include htext

theorem dbgPrint_run {h : EntryHeader} {type : Nat} (ht : m.typeOf h.cmd = some type) :
    h.dbgPrint m = pure () := by
  rw [EntryHeader.dbgPrint, if_pos (htext _ _ ht)]

theorem dataSet_dbgPrint_run {d : DataSet}
    (h : ∀ a ∈ d.anonArrays, ∀ e ∈ a.entries, ∃ type, m.typeOf e.entryHeader.cmd = some type) :
    d.dbgPrint m = pure () := by
  apply forM_pure
  intro a ha
  apply forM_pure
  intro e he
  obtain ⟨type, ht⟩ := h a ha e he
  exact dbgPrint_run htext ht

end Text

theorem consistent_typeOf {typeOf : CmdCode → Option Nat} {h : EntryHeader}
    (hc : h.Consistent typeOf) : ∃ type, typeOf h.cmd = some type := by
  obtain ⟨c, hc, _⟩ := hc
  obtain ⟨type, ht, _⟩ := EntryHeader.getConfig_ok hc
  exact ⟨type, ht⟩

inductive ArrayAt (m : Machine) (i : Nat) : AnonymousArray → Nat → Prop
  | empty (h : wordAt m.input i = 0 ∨
      m.input.length - afterWord m.input i < wordAt m.input i) : ArrayAt m i {} (afterWord m.input i)
  | entries {es : List DataEntry} {j : Nat} (hpos : wordAt m.input i ≠ 0)
      (hle : wordAt m.input i ≤ m.input.length - afterWord m.input i)
      (hes : Chain (EntryAt m) (afterWord m.input i) es j) (hlen : es.length = wordAt m.input i) :
      ArrayAt m i ⟨es⟩ j

def ArrayEnd (m : Machine) (i j : Nat) : Prop := ∃ a, ArrayAt m i a j

theorem arrayAt_unique : Unique (ArrayAt m) := by
  intro i a j a' j' h h'
  cases h with
  | empty h =>
    cases h' with
    | empty _ => exact ⟨rfl, rfl⟩
    | entries hpos hle _ _ => omega
  | entries hpos hle hes hlen =>
    cases h' with
    | empty h => omega
    | entries _ _ hes' hlen' =>
      obtain ⟨rfl, rfl⟩ := hes.unique entryAt_unique hes' (hlen.trans hlen'.symm)
      exact ⟨rfl, rfl⟩

theorem ArrayAt.fits {a : AnonymousArray} {j : Nat} (h : ArrayAt m i a j) : a.Fits m.typeOf := by
  cases h with
  | empty h => exact ⟨by norm_num, by simp⟩
  | @entries es j hpos hle hes hlen =>
    refine ⟨?_, hes.forall (fun _ _ _ he => EntryAt.fits he)⟩
    change es.length < 2 ^ 16
    rw [hlen]
    exact wordAt_lt _ _

theorem runs_array (hi : i ≤ m.input.length) :
    Runs m C i (AnonymousArray.ofInput m) (ArrayAt m i) := by
  refine (runs_toUint16 hi).bind (fun n j hn _ hj => ?_)
  obtain ⟨rfl, rfl⟩ := hn
  refine (runs_cursor hj).bind (fun start k hs _ hk => ?_)
  obtain ⟨rfl, rfl⟩ := hs
  by_cases hzero : wordAt m.input i = 0
  · rw [if_pos hzero]
    exact .pure hk (.empty (.inl hzero))
  · rw [if_neg hzero]
    by_cases hlong : m.input.length - afterWord m.input i < wordAt m.input i
    · rw [if_pos hlong]
      exact .pure hk (.empty (.inr hlong))
    · rw [if_neg hlong]
      refine (Runs.times (R := EntryAt m) (fun l _ hl => runs_entry hl) _ hk).bind ?_
      intro es l hes _ hl
      exact .pure hl (.entries hzero (Nat.not_lt.mp hlong) hes.1 hes.2)

theorem runs_arrays (hi : i ≤ m.input.length) (h : EntryHeader) :
    Runs m C i (DataSet.ofHeader m h) (fun d j => d.entryHeader = h ∧
      Chain (ArrayAt m) i d.anonArrays j ∧ d.anonArrays.length = h.contentSize) := by
  refine (Runs.times (R := ArrayAt m) (fun l _ hl => runs_array hl) _ hi).bind ?_
  intro arrays j harrays _ hj
  exact .pure hj ⟨rfl, harrays⟩

theorem runs_headerAndArrays (hi : i ≤ m.input.length) :
    Runs m C i (DataSet.ofInput m) (fun d j => ∃ k, HeaderAt m i d.entryHeader k ∧
      Chain (ArrayAt m) k d.anonArrays j ∧ d.anonArrays.length = d.entryHeader.contentSize) := by
  refine (runs_header hi).bind (fun h k hh _ hk => ?_)
  refine (runs_arrays hk h).conseq (fun d j hd _ _ => ?_)
  obtain ⟨rfl, harrays⟩ := hd
  exact ⟨k, hh, harrays⟩

theorem runs_dataSet_dbgPrint (hi : i ≤ m.input.length) (d : DataSet) :
    Runs m C i (d.dbgPrint m) (fun _ j => j = i) :=
  Runs.forM _ hi (fun _ _ => Runs.forM _ hi (fun e _ => runs_dbgPrint hi e.entryHeader))

def DataSetAt (m : Machine) (i : Nat) (d : DataSet) (j : Nat) : Prop :=
  ∃ k, HeaderAt m i d.entryHeader k ∧ Chain (ArrayAt m) k d.anonArrays j ∧
    d.anonArrays.length = d.entryHeader.contentSize

theorem DataSetAt.fits {d : DataSet} {j : Nat} (h : DataSetAt m i d j)
    (h6 : m.typeOf d.entryHeader.cmd = some 6) : d.Fits m.typeOf := by
  obtain ⟨k, hh, harrays, hlen⟩ := h
  exact ⟨h6, hh.consistent, hlen ▸ hh.contentSize_lt, harrays.forall (fun _ _ _ ha => ArrayAt.fits ha)⟩

/-- The loop of `m_parse` with so many rounds left goes from a position and a packet to a packet and
the position where it stops. -/
inductive ItemsAt (m : Machine) : Nat → Nat → Packet → Packet → Nat → Prop
  | complete (i : Nat) (p : Packet) : ItemsAt m 0 i p { p with entryIter := some 0 } i
  | atEnd (n : Nat) (p : Packet) :
      ItemsAt m (n + 1) m.input.length p { p with entryIter := some 0 } m.input.length
  | dataSet {n i j l : Nat} {p q : Packet} {d : DataSet} (hi : i ≠ m.input.length)
      (hd : DataSetAt m i d j) (h6 : m.typeOf d.entryHeader.cmd = some 6)
      (hrest : ItemsAt m n j { p with dataSets := p.dataSets ++ [d] } q l) : ItemsAt m (n + 1) i p q l
  | entry {n i j l : Nat} {p q : Packet} {e : DataEntry} (hi : i ≠ m.input.length)
      (he : EntryAt m i e j) (h6 : m.typeOf e.entryHeader.cmd ≠ some 6) (hv : e.valid = true)
      (hrest : ItemsAt m n j { p with entries := p.entries ++ [e] } q l) : ItemsAt m (n + 1) i p q l
  | rejected {n i j : Nat} {p : Packet} {e : DataEntry} (hi : i ≠ m.input.length)
      (he : EntryAt m i e j) (h6 : m.typeOf e.entryHeader.cmd ≠ some 6) (hv : e.valid = false) :
      ItemsAt m (n + 1) i p p j

theorem runs_itemsAt (n : Nat) (p : Packet) (hi : i ≤ m.input.length) :
    Runs m C i (Packet.parseItems m n p) (ItemsAt m n i p) := by
  induction n generalizing p i with
  | zero => exact .pure hi (.complete i p)
  | succ n ih =>
    refine (runs_cursor hi).bind (fun start j hs _ hj => ?_)
    obtain ⟨rfl, rfl⟩ := hs
    by_cases hend : j = m.input.length
    · rw [if_pos hend]
      subst hend
      exact .pure hj (.atEnd n p)
    rw [if_neg hend]
    refine (runs_header hj).bind (fun h k hh _ hk => ?_)
    obtain ⟨type, _, ht⟩ := hh.typeOf
    refine (runs_getType hk ht).bind (fun t l htl _ hl => ?_)
    obtain ⟨rfl, rfl⟩ := htl
    by_cases hset : EnumType.ofValue type = some .typeTcpDataSet
    · rw [if_pos hset]
      obtain rfl := EnumType.ofValue_eq_typeTcpDataSet.mp hset
      refine (runs_arrays hl h).bind (fun d q hd _ hq => ?_)
      obtain ⟨rfl, harrays⟩ := hd
      have hdata : DataSetAt m j d q := ⟨l, hh, harrays⟩
      refine (runs_dataSet_dbgPrint hq d).bind (fun _ r hr _ hrle => ?_)
      subst hr
      exact (ih _ hrle).conseq (fun _ _ hrest _ _ => .dataSet hend hdata ht hrest)
    · rw [if_neg hset]
      have hne : type ≠ 6 := fun h6 => hset (EnumType.ofValue_eq_typeTcpDataSet.mpr h6)
      refine (runs_ofHeader hl ht).bind (fun e q he _ hq => ?_)
      obtain ⟨rfl, hpay⟩ := he
      have hentry : EntryAt m j e q := ⟨l, hh, hpay⟩
      have h6 : m.typeOf e.entryHeader.cmd ≠ some 6 := by
        rw [ht]
        simpa using hne
      refine (runs_dbgPrint hq e.entryHeader).bind (fun _ r hr _ hrle => ?_)
      subst hr
      by_cases hv : e.valid
      · rw [if_pos hv]
        exact (ih _ hrle).conseq (fun _ _ hrest _ _ => .entry hend hentry h6 hv hrest)
      · rw [if_neg hv]
        exact .pure hrle (.rejected hend hentry h6 (Bool.not_eq_true _ ▸ hv))

def PacketAt (m : Machine) (i : Nat) (p : Packet) (j : Nat) : Prop :=
  ∃ h k, HeaderAt m i h k ∧ ItemsAt m h.contentSize k { packetHeader := h } p j

structure Growing (m : Machine) (n : Nat) (p : Packet) : Prop where
  header : p.packetHeader.Consistent m.typeOf
  count : p.entries.length + p.dataSets.length + n ≤ p.capacity
  entries : ∀ e ∈ p.entries, e.Fits m.typeOf ∧ e.sanitized.valid ∧
    m.typeOf e.entryHeader.cmd ≠ some 6
  dataSets : ∀ d ∈ p.dataSets, d.Fits m.typeOf

theorem Growing.fits {n : Nat} {p : Packet} (h : Growing m n p) (iter : Option Nat) :
    Packet.Fits m.typeOf { p with entryIter := iter } :=
  ⟨h.header, (Nat.le_add_right _ n).trans h.count, h.entries, h.dataSets⟩

theorem EntryAt.sanitized_valid {e : DataEntry} {j : Nat} (he : EntryAt m i e j) (hv : e.valid) :
    e.sanitized.valid := by
  obtain ⟨k, hh, _⟩ := he
  apply DataEntry.sanitized_valid hv
  intro hw
  generalize e.entryHeader = h at hh hw
  cases hh with
  | sized _ => simp at hw
  | fixed size hpos _ _ => exact hpos

theorem ItemsAt.fits {n j : Nat} {p q : Packet} (h : ItemsAt m n i p q j) (hp : Growing m n p) :
    q.Fits m.typeOf := by
  induction h with
  | complete _ _ | atEnd _ _ => exact hp.fits _
  | @dataSet n i j l p q d _ hd h6 _ ih =>
    have hcount := hp.count
    refine ih ⟨hp.header, ?_, hp.entries, ?_⟩
    · simp only [List.length_append, List.length_singleton]
      exact (by omega : _ ≤ p.entries.length + p.dataSets.length + (n + 1)).trans hcount
    · intro d' hd'
      rcases List.mem_append.mp hd' with hmem | hmem
      · exact hp.dataSets d' hmem
      · rw [List.mem_singleton.mp hmem]
        exact hd.fits h6
  | @entry n i j l p q e _ he h6 hv _ ih =>
    have hcount := hp.count
    refine ih ⟨hp.header, ?_, ?_, hp.dataSets⟩
    · simp only [List.length_append, List.length_singleton]
      exact (by omega : _ ≤ p.entries.length + p.dataSets.length + (n + 1)).trans hcount
    · intro e' he'
      rcases List.mem_append.mp he' with hmem | hmem
      · exact hp.entries e' hmem
      · rw [List.mem_singleton.mp hmem]
        exact ⟨he.fits, he.sanitized_valid hv, h6⟩
  | rejected _ _ _ _ => exact hp.fits _

theorem HeaderAt.growing {h : EntryHeader} {j : Nat} (hh : HeaderAt m i h j) :
    Growing m h.getSize { packetHeader := h } := by
  refine ⟨hh.consistent, ?_, by simp, by simp⟩
  have hlt := hh.contentSize_lt
  simp only [EntryHeader.getSize, Packet.capacity, List.length_nil]
  split <;> omega

theorem HeaderAt.advances {h : EntryHeader} {j : Nat} (hh : HeaderAt m i h j)
    (hi : i + 2 ≤ m.input.length) : i + 2 ≤ j := by
  have hword : afterWord m.input i = i + 2 := by rw [afterWord, if_pos hi]
  cases hh with
  | sized _ => exact hword ▸ (afterWord_le (hword ▸ hi)).1
  | fixed _ _ _ _ => exact hword.ge

theorem cmdAt_short (h : m.input.length < i + 2) : cmdAt m.input i = CmdCode.unknown := by
  rw [cmdAt, wordAt, if_neg (by omega)]
  rfl

theorem HeaderAt.cmd {h : EntryHeader} {j : Nat} (hh : HeaderAt m i h j) : h.cmd = cmdAt m.input i := by
  cases hh <;> rfl

theorem HeaderAt.two_le {h : EntryHeader} {j : Nat} (hh : HeaderAt m i h j) (hcmd : h.cmd ≠ CmdCode.unknown) :
    i + 2 ≤ j := by
  apply hh.advances
  by_contra hshort
  apply hcmd
  rw [hh.cmd, cmdAt_short (Nat.not_le.mp hshort)]

theorem PacketAt.fits {p : Packet} {j : Nat} (h : PacketAt m i p j) : p.Fits m.typeOf := by
  obtain ⟨h, k, hh, hitems⟩ := h
  exact hitems.fits hh.growing

theorem runs_packet (hi : i ≤ m.input.length) : Runs m C i (Packet.ofInput m)
    (fun p j => PacketAt m i p j ∧ (i + 2 ≤ m.input.length → i + 2 ≤ j)) := by
  refine (runs_header hi).bind (fun h k hh _ hk => ?_)
  refine (runs_itemsAt _ _ hk).conseq (fun p j hp hkj _ => ⟨⟨h, k, hh, hp⟩, fun h2 => ?_⟩)
  exact (hh.advances h2).trans hkj

theorem packet_fits {p : Packet} {t : Scan} (hrun : Packet.ofInput m {} = .ok p t) :
    p.Fits m.typeOf :=
  ((runs_packet (Nat.zero_le _)).ok hrun).1.1.fits

theorem runs_round (hi : i ≤ m.input.length) (packets : List Packet) :
    Runs m C i (TcpPacket.round m packets) (fun qs j =>
      (∃ p, PacketAt m i p j ∧ qs = packets ++ [p.copy]) ∧ (i + 2 ≤ m.input.length → i + 2 ≤ j)) :=
  (runs_packet hi).bind (fun p _ hp _ hj => .pure hj ⟨⟨p, hp.1, rfl⟩, hp.2⟩)

/-- A round of `while(start != end)` takes a packet and stores this copy of it. -/
def RoundAt (m : Machine) (i : Nat) (q : Packet) (j : Nat) : Prop :=
  i < m.input.length ∧ ∃ p, PacketAt m i p j ∧ q = p.copy

theorem RoundAt.fits {q : Packet} {j : Nat} (h : RoundAt m i q j) : q.Fits m.typeOf := by
  obtain ⟨_, p, hp, rfl⟩ := h
  exact ⟨hp.fits.header, hp.fits.count, hp.fits.entries, hp.fits.dataSets⟩

/-- What every round of the loop that began at `i` keeps. -/
structure LoopInv (m : Machine) (i : Nat) (packets : List Packet) (s : Scan) : Prop where
  packets : Chain (RoundAt m) i packets s.it
  start_le : i ≤ s.it
  le_end : s.it ≤ m.input.length

theorem round_keeps (packets : List Packet) :
    Triple (fun s => TcpPacket.notAtEnd m s = true ∧ LoopInv m i packets s)
      (TcpPacket.round m packets) (LoopInv m i) (fun f _ => f = .outOfFuel → True) := by
  rintro s ⟨hcond, hinv⟩
  have hlt := Nat.lt_of_le_of_ne hinv.le_end (of_decide_eq_true hcond)
  have hround := runs_round (C := True) hinv.le_end packets s rfl
  cases hrun : TcpPacket.round m packets s with
  | ok qs t =>
    rw [hrun] at hround
    obtain ⟨⟨⟨p, hp, rfl⟩, _⟩, hst, ht⟩ := hround
    exact ⟨hinv.packets.snoc ⟨hlt, p, hp, rfl⟩, hinv.start_le.trans hst, ht⟩
  | error f t => exact fun _ => trivial

theorem runs_loop (hi : i ≤ m.input.length) (rounds : Nat) :
    Runs m True i (whileLoop .outOfFuel (TcpPacket.notAtEnd m) (TcpPacket.round m) rounds [])
      (fun ps j => j = m.input.length ∧ Chain (RoundAt m) i ps j) := by
  have hstuck : ∀ ps s, LoopInv m i ps s → (Fault.outOfFuel = .outOfFuel → True) :=
    fun _ _ _ _ => trivial
  have hloop := Triple.whileLoop round_keeps hstuck rounds []
  refine Triple.conseq hloop (fun s hs => ?_) (fun ps s hs => ?_) (fun _ _ he => he)
  · subst hs
    exact ⟨.nil _, le_rfl, hi⟩
  · have hend : s.it = m.input.length := by simpa [TcpPacket.notAtEnd] using hs.1
    exact ⟨⟨hend, hs.2.packets⟩, hs.2.start_le, hs.2.le_end⟩

/-- A frame has no packets, or its packets fill the input behind its size. -/
theorem runs_frame (hi : i ≤ m.input.length) (rounds : Nat) :
    Runs m True i (TcpPacket.ofInput m rounds) (fun t _ => t.packets = [] ∨
      Chain (RoundAt m) (afterWord m.input i) t.packets m.input.length) := by
  refine (runs_toUint16 hi).bind (fun size j hj _ hle => ?_)
  obtain ⟨_, rfl⟩ := hj
  refine (runs_cursor hle).bind (fun start k hs _ hk => ?_)
  obtain ⟨rfl, rfl⟩ := hs
  by_cases hzero : size = 0
  · rw [if_pos hzero]
    exact .pure hk (.inl rfl)
  · rw [if_neg hzero]
    by_cases hlong : m.input.length - afterWord m.input i < size
    · rw [if_pos hlong]
      exact .pure hk (.inl rfl)
    · rw [if_neg hlong]
      refine (runs_loop hk rounds).bind (fun ps l hps _ hl => ?_)
      obtain ⟨rfl, hchain⟩ := hps
      exact .pure hl (.inr hchain)

theorem frame_fits {rounds : Nat} {t : TcpPacket} {u : Scan}
    (hrun : TcpPacket.ofInput m rounds {} = .ok t u) : ∀ p ∈ t.packets, p.Fits m.typeOf := by
  obtain ⟨hnil | hchain, _⟩ := (runs_frame (Nat.zero_le _) rounds).ok hrun
  · simp [hnil]
  · exact hchain.forall (fun _ _ _ hp => RoundAt.fits hp)

end GlobalAgenda.ParserSpec
