import GlobalAgenda.Base.Places
import GlobalAgenda.ParserSpec

namespace GlobalAgenda.Walk

open EnumDataTypes ValueConverter Base.LittleEndian Base.Triples Base.WhileLoop Base.Chains
  Base.Places ParserSpec

/-- Where the parser attempts to read an integer of `amount` bytes, looks up the command of the header
that begins at `it`, or goes on to the payload of the array entry that begins at `it`. -/
inductive Place
  | field (it amount : Nat)
  | header (it : Nat)
  | entry (it : Nat)

variable {m : Machine} {i j k : Nat}

/-- What the header that begins at `i` has the parser come to. -/
inductive HeaderComes (m : Machine) (i : Nat) : Place → Prop
  | command : HeaderComes m i (.field i 2)
  | lookup : HeaderComes m i (.header i)
  | size (hc : EntryHeader.getConfig m.typeOf (cmdAt m.input i) = .ok (2, 0)) :
      HeaderComes m i (.field (afterWord m.input i) 2)

inductive EntryComes (m : Machine) (i : Nat) : Place → Prop
  | header {c : Place} (hc : HeaderComes m i c) : EntryComes m i c
  | payload {h : EntryHeader} {k : Nat} (hh : HeaderAt m i h k) : EntryComes m i (.entry i)

inductive ArrayComes (m : Machine) (i : Nat) : Place → Prop
  | count : ArrayComes m i (.field i 2)
  | entry {c : Place} (hle : wordAt m.input i ≤ m.input.length - afterWord m.input i)
      (hc : Somewhere (EntryComes m · c) (EntryEnd m) (wordAt m.input i) (afterWord m.input i)) :
      ArrayComes m i c

/-- What so many items have the loop of `m_parse` come to, of which the first begins at `i`. -/
inductive ItemsCome (m : Machine) : Nat → Nat → Place → Prop
  | header {n i : Nat} {c : Place} (hi : i ≠ m.input.length) (hc : HeaderComes m i c) :
      ItemsCome m (n + 1) i c
  | array {n i k : Nat} {h : EntryHeader} {c : Place} (hi : i ≠ m.input.length)
      (hh : HeaderAt m i h k) (h6 : m.typeOf h.cmd = some 6)
      (hc : Somewhere (ArrayComes m · c) (ArrayEnd m) h.contentSize k) : ItemsCome m (n + 1) i c
  | afterDataSet {n i j : Nat} {d : DataSet} {c : Place} (hi : i ≠ m.input.length)
      (hd : DataSetAt m i d j) (h6 : m.typeOf d.entryHeader.cmd = some 6) (hc : ItemsCome m n j c) :
      ItemsCome m (n + 1) i c
  | afterEntry {n i j : Nat} {e : DataEntry} {c : Place} (hi : i ≠ m.input.length)
      (he : EntryAt m i e j) (h6 : m.typeOf e.entryHeader.cmd ≠ some 6) (hv : e.valid = true)
      (hc : ItemsCome m n j c) : ItemsCome m (n + 1) i c

inductive PacketComes (m : Machine) (i : Nat) : Place → Prop
  | header {c : Place} (hc : HeaderComes m i c) : PacketComes m i c
  | item {h : EntryHeader} {k : Nat} {c : Place} (hh : HeaderAt m i h k)
      (hc : ItemsCome m h.contentSize k c) : PacketComes m i c

/-- What the first `rounds` packets have the loop of a frame come to, of which the first begins at
`i`. -/
def PacketsCome (m : Machine) (rounds i : Nat) (c : Place) : Prop :=
  Somewhere (fun i => i ≠ m.input.length ∧ PacketComes m i c)
    (fun i j => i ≠ m.input.length ∧ ∃ p, PacketAt m i p j) rounds i

/-- What a frame has the parser come to in the first `rounds` packets. -/
inductive FrameComes (m : Machine) (rounds : Nat) : Place → Prop
  | size : FrameComes m rounds (.field 0 2)
  | packet {c : Place} (hsize : wordAt m.input 0 ≠ 0)
      (hle : wordAt m.input 0 ≤ m.input.length - afterWord m.input 0)
      (hc : PacketsCome m rounds (afterWord m.input 0) c) : FrameComes m rounds c

/-- The array entry whose header begins at `it` is a data set with a size that fits. -/
def Nested (typeOf : CmdCode → Option Nat) (input : List UInt8) (it : Nat) : Prop :=
  typeOf (cmdAt input it) = some 6 ∧
    afterWord input (afterWord input it) + wordAt input (afterWord input it) ≤ input.length

/-- The parser does not go wrong at a place. -/
def Harmless (m : Machine) : Place → Prop
  | .field it amount => m.input.length < it + amount ∨ ∀ k < 8, (m.load (it + k)).isSome
  | .header it => ∃ type ≤ 10, m.typeOf (cmdAt m.input it) = some type
  | .entry it => ¬ Nested m.typeOf m.input it

/-- How the parser goes wrong at a place that is not harmless. -/
def Blame (m : Machine) : Place → Fault → Prop
  | .field _ _, f => ∃ pos, f = .outOfRange pos
  | .header it, f => (m.typeOf (cmdAt m.input it) = none ∧ f = .missingRow (cmdAt m.input it)) ∨
      f = unknownType ∧ ∃ type > 10, m.typeOf (cmdAt m.input it) = some type
  | .entry _, f => f = nestedDataSet

/-- The faults in `bad` are those raised at the places of a kind, and loads and lookups of text raise
no others. -/
structure Tells (m : Machine) (kind : Place → Prop) (bad : Fault → Prop) : Prop where
  blame : ∀ c f, ¬ Harmless m c → Blame m c f → (bad f ↔ kind c)
  load : (∀ pos, (m.load pos).isSome) ∨ ∀ it amount, kind (.field it amount)
  text : ∀ cmd type, m.typeOf cmd = some type → cmd.toNat < m.textRows
  fuel : ¬ bad .outOfFuel

def judge (m : Machine) (kind : Place → Prop) (bad : Fault → Prop) : Judge Fault Scan Place :=
  ⟨Scan.it, fun c => kind c → Harmless m c, bad⟩

variable {kind : Place → Prop} {bad : Fault → Prop}

theorem visits_cursor : Visits (judge m kind bad) i cursor (fun a j => a = i ∧ j = i)
    (fun _ => False) := by
  refine .ok (fun s hs => ⟨s.it, s, rfl, hs, hs⟩) ?_ (fun _ hc => hc.elim)
  rintro a j b k ⟨rfl, rfl⟩ ⟨rfl, rfl⟩
  exact ⟨rfl, rfl⟩

/-- At a place an action is judged by what it does where the place is harmless and where not. -/
theorem visits_place {α : Type} {x : Decoder α} {Q : α → Nat → Prop} (ht : Tells m kind bad) (c : Place)
    (hQ : ∀ a j b k, Q a j → Q b k → a = b ∧ j = k)
    (hok : Harmless m c → ∀ s : Scan, s.it = i → ∃ a t, x s = .ok a t ∧ Q a t.it)
    (hfail : ¬ Harmless m c → ∀ s : Scan, s.it = i → ∃ f t, x s = .error f t ∧ Blame m c f ∧
      (kind c ∨ ∀ b j, ¬ Q b j)) : Visits (judge m kind bad) i x Q (· = c) := by
  by_cases hc : Harmless m c
  · refine .ok (hok hc) hQ ?_
    rintro _ rfl _
    exact hc
  · refine .error (fun s hs => ?_)
    obtain ⟨f, t, hrun, hblame, hkind⟩ := hfail hc s hs
    have hbad := ht.blame c f hc hblame
    refine ⟨f, t, hrun, ?_, fun hnot => hkind.resolve_left (fun hk => hnot (hbad.mpr hk))⟩
    refine hbad.trans ⟨fun hk hall => hc (hall c rfl hk), fun hnot => ?_⟩
    by_contra hk
    apply hnot
    rintro _ rfl hk'
    exact absurd hk' hk

theorem word_run {s : Scan} (h : Harmless m (.field s.it 2)) :
    toUint16 m s = .ok (wordAt m.input s.it) ⟨afterWord m.input s.it⟩ := by
  by_cases henough : s.it + 2 ≤ m.input.length
  · obtain ⟨loaded, hloaded⟩ := Machine.fetch_ok (h.resolve_left (by omega))
    have hrun : toUint16 m s = .ok (value loaded % 2 ^ 16) ⟨s.it + 2⟩ := by
      rw [toUint16, bind_ok (toUintValueFromVector_enough henough hloaded)]
      rfl
    rw [hrun, toUint16_ok hrun, afterWord, if_pos henough]
  · rw [toUint16_short (Nat.not_le.mp henough), wordAt, afterWord, if_neg henough, if_neg henough]

theorem visits_word (ht : Tells m kind bad) : Visits (judge m kind bad) i (toUint16 m)
    (fun v j => v = wordAt m.input i ∧ j = afterWord m.input i) (· = .field i 2) := by
  refine visits_place ht _ ?_ ?_ ?_
  · rintro a j b k ⟨rfl, rfl⟩ ⟨rfl, rfl⟩
    exact ⟨rfl, rfl⟩
  · rintro hok s rfl
    exact ⟨_, _, word_run hok, rfl, rfl⟩
  · rintro hbad s rfl
    have henough : s.it + 2 ≤ m.input.length := by
      by_contra hshort
      exact hbad (.inl (Nat.not_le.mp hshort))
    obtain ⟨pos, hpos⟩ := Machine.fetch_fails (fun hall => hbad (.inr hall))
    refine ⟨.outOfRange pos, s, ?_, ⟨pos, rfl⟩, ?_⟩
    · rw [toUint16, bind_error (toUintValueFromVector_fault henough hpos)]
    · exact .inl (ht.load.resolve_left (fun hall => hbad (.inr (fun k _ => hall _))) _ _)

theorem visits_command (ht : Tells m kind bad) : Visits (judge m kind bad) i (toCmd m)
    (fun cmd j => cmd = cmdAt m.input i ∧ j = afterWord m.input i) (· = .field i 2) := by
  refine ((visits_word ht).map UInt16.ofNat).conseq (fun cmd j => ?_) (fun _ => Iff.rfl)
  constructor
  · rintro ⟨v, ⟨rfl, rfl⟩, rfl⟩
    exact ⟨rfl, rfl⟩
  · rintro ⟨rfl, rfl⟩
    exact ⟨_, ⟨rfl, rfl⟩, rfl⟩

theorem visits_config (ht : Tells m kind bad) :
    Visits (judge m kind bad) k (lift (EntryHeader.getConfig m.typeOf (cmdAt m.input i)))
      (fun c j => EntryHeader.getConfig m.typeOf (cmdAt m.input i) = .ok c ∧ j = k)
      (· = .header i) := by
  refine visits_place ht _ ?_ ?_ ?_
  · rintro a j b k ⟨ha, rfl⟩ ⟨hb, rfl⟩
    rw [ha] at hb
    cases hb
    exact ⟨rfl, rfl⟩
  · rintro ⟨type, hle, htype⟩ s hs
    have hconfig := EntryHeader.getConfig_known htype hle
    exact ⟨_, s, by rw [hconfig]; rfl, hconfig, hs⟩
  · rintro hbad s hs
    cases htype : m.typeOf (cmdAt m.input i) with
    | none =>
      have hconfig := EntryHeader.getConfig_none htype
      refine ⟨_, s, by rw [hconfig]; rfl, .inl ⟨htype, rfl⟩, .inr ?_⟩
      rintro b j ⟨hb, _⟩
      rw [hconfig] at hb
      cases hb
    | some type =>
      have hgt : 10 < type := by
        by_contra hle
        exact hbad ⟨type, Nat.not_lt.mp hle, htype⟩
      have hconfig := EntryHeader.getConfig_unknown htype hgt
      refine ⟨unknownType, s, by rw [hconfig]; rfl, .inr ⟨rfl, type, hgt, htype⟩, .inr ?_⟩
      rintro b j ⟨hb, _⟩
      rw [hconfig] at hb
      cases hb

theorem visits_header (ht : Tells m kind bad) :
    Visits (judge m kind bad) i (EntryHeader.ofInput m) (HeaderAt m i) (HeaderComes m i) := by
  refine ((visits_command ht).step ((visits_config ht).bind (R := fun _ _ => HeaderAt m i)
    (W := fun config _ c => config = (2, 0) ∧ c = .field (afterWord m.input i) 2) ?_)).conseq
    (fun h j => ?_) (fun c => ?_)
  · rintro config _ ⟨hc, rfl⟩
    obtain rfl | ⟨size, hpos, hle, rfl⟩ := EntryHeader.getConfig_cases hc
    · refine ((visits_word ht).map _).conseq (fun h j => ?_) (fun c => (and_iff_right rfl).symm)
      constructor
      · rintro ⟨v, ⟨rfl, rfl⟩, rfl⟩
        exact .sized hc
      · intro hh
        cases hh with
        | sized _ => exact ⟨_, ⟨rfl, rfl⟩, rfl⟩
        | fixed _ _ _ h => cases hc.symm.trans h
    · refine (Visits.pure _).conseq (fun h j => ?_) (fun c => ?_)
      · constructor
        · rintro ⟨rfl, rfl⟩
          exact .fixed size hpos hle hc
        · intro hh
          cases hh with
          | sized h => cases hc.symm.trans h
          | fixed _ _ _ h =>
            cases hc.symm.trans h
            exact ⟨rfl, rfl⟩
      · exact iff_of_false id (fun hc => by cases hc.1)
  · constructor
    · rintro ⟨_, _, _, hh⟩
      exact hh
    · intro hh
      cases hh with
      | sized hc => exact ⟨_, _, ⟨hc, rfl⟩, .sized hc⟩
      | fixed size hpos hle hc => exact ⟨_, _, ⟨hc, rfl⟩, .fixed size hpos hle hc⟩
  · constructor
    · rintro (rfl | rfl | ⟨_, _, ⟨hc, _⟩, rfl, rfl⟩)
      · exact .command
      · exact .lookup
      · exact .size hc
    · intro hcome
      cases hcome with
      | command => exact .inl rfl
      | lookup => exact .inr (.inl rfl)
      | size hc => exact .inr (.inr ⟨_, _, ⟨hc, rfl⟩, rfl, rfl⟩)

theorem nested_iff {h : EntryHeader} (hh : HeaderAt m i h k) :
    Nested m.typeOf m.input i ↔ m.typeOf h.cmd = some 6 ∧ k + h.contentSize ≤ m.input.length := by
  cases hh with
  | sized hc => rfl
  | fixed size _ _ hc =>
    have hne : m.typeOf (cmdAt m.input i) ≠ some 6 := by
      intro h6
      rw [EntryHeader.getConfig_known h6 (by norm_num)] at hc
      simp at hc
    exact iff_of_false (fun hn => hne hn.1) (fun hn => hne hn.1)

theorem payload_exists {h : EntryHeader}
    (hn : ¬ (m.typeOf h.cmd = some 6 ∧ k + h.contentSize ≤ m.input.length)) :
    ∃ data j, PayloadAt m k h data j := by
  by_cases hle : k + h.contentSize ≤ m.input.length
  · exact ⟨_, _, .fits hle (fun h6 => hn ⟨h6, hle⟩)⟩
  · exact ⟨_, _, .short (Nat.not_le.mp hle)⟩

theorem payload_unique {h : EntryHeader} (a : DataEntry) (j : Nat) (b : DataEntry) (l : Nat)
    (ha : a.entryHeader = h ∧ PayloadAt m k h a.data j)
    (hb : b.entryHeader = h ∧ PayloadAt m k h b.data l) : a = b ∧ j = l := by
  obtain ⟨header, data⟩ := a
  obtain ⟨header', data'⟩ := b
  obtain ⟨hdata, rfl⟩ := ha.2.unique hb.2
  exact ⟨DataEntry.mk.injEq .. ▸ ⟨ha.1.trans hb.1.symm, hdata⟩, rfl⟩

theorem visits_payload {h : EntryHeader} {type : Nat} (htype : m.typeOf h.cmd = some type)
    (h6 : type ≠ 6) : Visits (judge m kind bad) k (DataEntry.ofHeader m h)
      (fun e j => e.entryHeader = h ∧ PayloadAt m k h e.data j) (fun _ => False) := by
  refine .ok ?_ payload_unique (fun _ hc => hc.elim)
  rintro s rfl
  obtain ⟨data, j, hp⟩ : ∃ data j, PayloadAt m s.it h data j := by
    apply payload_exists
    rintro ⟨hset, _⟩
    rw [htype] at hset
    exact h6 (Option.some.inj hset)
  exact ⟨_, _, payload_run htype hp, rfl, hp⟩

theorem visits_arrayPayload (ht : Tells m kind bad) {h : EntryHeader} (hh : HeaderAt m i h k) :
    Visits (judge m kind bad) k (DataEntry.ofHeader m h)
      (fun e j => e.entryHeader = h ∧ PayloadAt m k h e.data j) (· = .entry i) := by
  obtain ⟨type, _, htype⟩ := hh.typeOf
  refine visits_place ht _ payload_unique ?_ ?_
  · rintro hok s rfl
    obtain ⟨data, j, hp⟩ := payload_exists (fun hn => hok ((nested_iff hh).mpr hn))
    exact ⟨_, _, payload_run htype hp, rfl, hp⟩
  · intro hbad s hs
    obtain ⟨h6, hle⟩ := (nested_iff hh).mp (not_not.mp hbad)
    refine ⟨nestedDataSet, s, throws_nested h6 hle s hs, rfl, .inr ?_⟩
    rintro e j ⟨_, hp⟩
    generalize e.data = data at hp
    cases hp with
    | fits _ hne => exact hne h6
    | short hlt => exact absurd hle (Nat.not_le.mpr hlt)

theorem visits_entry (ht : Tells m kind bad) :
    Visits (judge m kind bad) i (DataEntry.ofInput m) (EntryAt m i) (EntryComes m i) := by
  refine ((visits_header ht).bind (fun _ _ hh => visits_arrayPayload ht hh)).conseq
    (fun e j => ?_) (fun c => ?_)
  · constructor
    · rintro ⟨_, k, hh, rfl, hp⟩
      exact ⟨k, hh, hp⟩
    · rintro ⟨k, hh, hp⟩
      exact ⟨_, k, hh, rfl, hp⟩
  · constructor
    · rintro (hc | ⟨_, _, hh, rfl⟩)
      · exact .header hc
      · exact .payload hh
    · intro hcome
      cases hcome with
      | header hc => exact .inl hc
      | payload hh => exact .inr ⟨_, _, hh, rfl⟩

/-- An array that the guards leave empty comes to its count only. -/
theorem visits_array_empty (ht : Tells m kind bad) (hguard : wordAt m.input i = 0 ∨
    m.input.length - afterWord m.input i < wordAt m.input i) :
    Visits (judge m kind bad) i (AnonymousArray.ofInput m)
      (fun a j => a = {} ∧ j = afterWord m.input i) (· = .field i 2) := by
  refine ((visits_word ht).step (visits_cursor.step (W := fun _ => False) ?_)).conseq
    (fun _ _ => Iff.rfl) (fun c => ?_)
  · by_cases hzero : wordAt m.input i = 0
    · rw [if_pos hzero]
      exact .pure _
    · rw [if_neg hzero, if_pos (hguard.resolve_left hzero)]
      exact .pure _
  · simp

theorem visits_array_filled (ht : Tells m kind bad) (hpos : wordAt m.input i ≠ 0)
    (hle : wordAt m.input i ≤ m.input.length - afterWord m.input i) :
    Visits (judge m kind bad) i (AnonymousArray.ofInput m)
      (fun a j => ∃ es, (Chain (EntryAt m) (afterWord m.input i) es j ∧
        es.length = wordAt m.input i) ∧ a = ⟨es⟩)
      (fun c => c = .field i 2 ∨
        Somewhere (EntryComes m · c) (EntryEnd m) (wordAt m.input i) (afterWord m.input i)) := by
  refine ((visits_word ht).step (visits_cursor.step (W := fun c =>
    Somewhere (EntryComes m · c) (EntryEnd m) (wordAt m.input i) (afterWord m.input i)) ?_)).conseq
    (fun _ _ => Iff.rfl) (fun c => ?_)
  · rw [if_neg hpos, if_neg (Nat.not_lt.mpr hle)]
    exact (Visits.times (fun j => visits_entry ht) _).map _
  · simp

theorem visits_array (ht : Tells m kind bad) :
    Visits (judge m kind bad) i (AnonymousArray.ofInput m) (ArrayAt m i) (ArrayComes m i) := by
  by_cases hguard : wordAt m.input i = 0 ∨ m.input.length - afterWord m.input i < wordAt m.input i
  · refine (visits_array_empty ht hguard).conseq (fun a j => ?_) (fun c => ?_)
    · constructor
      · rintro ⟨rfl, rfl⟩
        exact .empty hguard
      · intro ha
        cases ha with
        | empty _ => exact ⟨rfl, rfl⟩
        | entries hpos hle _ _ => omega
    · constructor
      · rintro rfl
        exact .count
      · intro hcome
        cases hcome with
        | count => rfl
        | entry hle hc =>
          rw [hguard.resolve_right (Nat.not_lt.mpr hle)] at hc
          exact hc.elim
  · obtain ⟨hpos, hlong⟩ := not_or.mp hguard
    have hle := Nat.not_lt.mp hlong
    refine (visits_array_filled ht hpos hle).conseq (fun a j => ?_) (fun c => ?_)
    · constructor
      · rintro ⟨es, ⟨hes, hlen⟩, rfl⟩
        exact .entries hpos hle hes hlen
      · intro ha
        cases ha with
        | empty h => exact absurd h hguard
        | entries _ _ hes hlen => exact ⟨_, ⟨hes, hlen⟩, rfl⟩
    · constructor
      · rintro (rfl | hc)
        · exact .count
        · exact .entry hle hc
      · intro hcome
        cases hcome with
        | count => exact .inl rfl
        | entry _ hc => exact .inr hc

theorem visits_arrays (ht : Tells m kind bad) (h : EntryHeader) :
    Visits (judge m kind bad) k (DataSet.ofHeader m h)
      (fun d j => d.entryHeader = h ∧ Chain (ArrayAt m) k d.anonArrays j ∧
        d.anonArrays.length = h.contentSize)
      (fun c => Somewhere (ArrayComes m · c) (ArrayEnd m) h.contentSize k) := by
  refine ((Visits.times (fun j => visits_array ht) _).map (DataSet.mk h)).conseq (fun d j => ?_)
    (fun c => Iff.rfl)
  constructor
  · rintro ⟨arrays, harrays, rfl⟩
    exact ⟨rfl, harrays⟩
  · rintro ⟨rfl, harrays⟩
    exact ⟨_, harrays, rfl⟩

/-- What the loop of `m_parse` stores from the item with the header `h` on, and where it ends. -/
def ItemResult (m : Machine) (n : Nat) (p : Packet) (h : EntryHeader) (k : Nat) (q : Packet)
    (l : Nat) : Prop :=
  if m.typeOf h.cmd = some 6 then
    ∃ (d : DataSet) (j : Nat), (d.entryHeader = h ∧ Chain (ArrayAt m) k d.anonArrays j ∧
      d.anonArrays.length = h.contentSize) ∧
        ItemsAt m n j { p with dataSets := p.dataSets ++ [d] } q l
  else
    ∃ (e : DataEntry) (j : Nat), (e.entryHeader = h ∧ PayloadAt m k h e.data j) ∧
      if e.valid then ItemsAt m n j { p with entries := p.entries ++ [e] } q l else q = p ∧ l = j

/-- What it comes to behind that header. -/
def ItemComes (m : Machine) (n : Nat) (h : EntryHeader) (k : Nat) (c : Place) : Prop :=
  if m.typeOf h.cmd = some 6 then
    Somewhere (ArrayComes m · c) (ArrayEnd m) h.contentSize k ∨
      ∃ (d : DataSet) (j : Nat), (d.entryHeader = h ∧ Chain (ArrayAt m) k d.anonArrays j ∧
        d.anonArrays.length = h.contentSize) ∧ ItemsCome m n j c
  else
    ∃ (e : DataEntry) (j : Nat), (e.entryHeader = h ∧ PayloadAt m k h e.data j) ∧
      e.valid = true ∧ ItemsCome m n j c

theorem itemsAt_iff {n l : Nat} {p q : Packet} (hi : i ≠ m.input.length) :
    ItemsAt m (n + 1) i p q l ↔ ∃ h k, HeaderAt m i h k ∧ ItemResult m n p h k q l := by
  constructor
  · intro hitems
    cases hitems with
    | atEnd n p => exact absurd rfl hi
    | dataSet _ hd h6 hrest =>
      obtain ⟨k, hh, harrays⟩ := hd
      refine ⟨_, k, hh, ?_⟩
      rw [ItemResult, if_pos h6]
      exact ⟨_, _, ⟨rfl, harrays⟩, hrest⟩
    | entry _ he h6 hv hrest =>
      obtain ⟨k, hh, hp⟩ := he
      refine ⟨_, k, hh, ?_⟩
      rw [ItemResult, if_neg h6]
      exact ⟨_, _, ⟨rfl, hp⟩, by rwa [if_pos hv]⟩
    | rejected _ he h6 hv =>
      obtain ⟨k, hh, hp⟩ := he
      refine ⟨_, k, hh, ?_⟩
      rw [ItemResult, if_neg h6]
      exact ⟨_, _, ⟨rfl, hp⟩, by rw [if_neg (by simp [hv])]; exact ⟨rfl, rfl⟩⟩
  · rintro ⟨h, k, hh, hresult⟩
    by_cases h6 : m.typeOf h.cmd = some 6
    · rw [ItemResult, if_pos h6] at hresult
      obtain ⟨d, j, ⟨rfl, harrays⟩, hrest⟩ := hresult
      exact .dataSet hi ⟨k, hh, harrays⟩ h6 hrest
    · rw [ItemResult, if_neg h6] at hresult
      obtain ⟨e, j, ⟨rfl, hp⟩, hrest⟩ := hresult
      by_cases hv : e.valid = true
      · rw [if_pos hv] at hrest
        exact .entry hi ⟨k, hh, hp⟩ h6 hv hrest
      · rw [if_neg hv] at hrest
        obtain ⟨rfl, rfl⟩ := hrest
        exact .rejected hi ⟨k, hh, hp⟩ h6 (Bool.not_eq_true _ ▸ hv)

theorem itemsCome_iff {n : Nat} {c : Place} (hi : i ≠ m.input.length) : ItemsCome m (n + 1) i c ↔
    HeaderComes m i c ∨ ∃ h k, HeaderAt m i h k ∧ ItemComes m n h k c := by
  constructor
  · intro hcome
    cases hcome with
    | header _ hc => exact .inl hc
    | array _ hh h6 hc =>
      refine .inr ⟨_, _, hh, ?_⟩
      rw [ItemComes, if_pos h6]
      exact .inl hc
    | afterDataSet _ hd h6 hc =>
      obtain ⟨k, hh, harrays⟩ := hd
      refine .inr ⟨_, k, hh, ?_⟩
      rw [ItemComes, if_pos h6]
      exact .inr ⟨_, _, ⟨rfl, harrays⟩, hc⟩
    | afterEntry _ he h6 hv hc =>
      obtain ⟨k, hh, hp⟩ := he
      refine .inr ⟨_, k, hh, ?_⟩
      rw [ItemComes, if_neg h6]
      exact ⟨_, _, ⟨rfl, hp⟩, hv, hc⟩
  · rintro (hc | ⟨h, k, hh, hcome⟩)
    · exact .header hi hc
    · by_cases h6 : m.typeOf h.cmd = some 6
      · rw [ItemComes, if_pos h6] at hcome
        obtain hc | ⟨d, j, ⟨rfl, harrays⟩, hc⟩ := hcome
        · exact .array hi hh h6 hc
        · exact .afterDataSet hi ⟨k, hh, harrays⟩ h6 hc
      · rw [ItemComes, if_neg h6] at hcome
        obtain ⟨e, j, ⟨rfl, hp⟩, hv, hc⟩ := hcome
        exact .afterEntry hi ⟨k, hh, hp⟩ h6 hv hc

theorem visits_end (n : Nat) (p : Packet) : Visits (judge m kind bad) m.input.length
    (Packet.parseItems m (n + 1) p) (ItemsAt m (n + 1) m.input.length p)
    (ItemsCome m (n + 1) m.input.length) := by
  have hend : Visits (judge m kind bad) m.input.length (Packet.parseItems m (n + 1) p)
      (fun q j => q = { p with entryIter := some 0 } ∧ j = m.input.length)
      (fun c => False ∨ False) := by
    refine visits_cursor.step ?_
    rw [if_pos rfl]
    exact .pure _
  refine hend.conseq (fun q j => ?_) (fun c => ?_)
  · constructor
    · rintro ⟨rfl, rfl⟩
      exact .atEnd n p
    · intro hitems
      cases hitems with
      | atEnd _ _ => exact ⟨rfl, rfl⟩
      | dataSet hne _ _ _ | entry hne _ _ _ _ | rejected hne _ _ _ => exact absurd rfl hne
  · refine iff_of_false (by simp) (fun hcome => ?_)
    cases hcome with
    | header hne _ | array hne _ _ _ | afterDataSet hne _ _ _ | afterEntry hne _ _ _ _ =>
      exact hne rfl

section Item

variable {n : Nat} (hrest : ∀ (j : Nat) (q : Packet), Visits (judge m kind bad) j
  (Packet.parseItems m n q) (ItemsAt m n j q) (ItemsCome m n j))

include hrest

theorem visits_item_dataSet (ht : Tells m kind bad) (p : Packet) {h : EntryHeader}
    (hh : HeaderAt m i h k) (h6 : m.typeOf h.cmd = some 6) :
    Visits (judge m kind bad) k (do
      let dataSet ← DataSet.ofHeader m h
      dataSet.dbgPrint m
      Packet.parseItems m n { p with dataSets := p.dataSets ++ [dataSet] })
      (ItemResult m n p h k) (ItemComes m n h k) := by
  refine ((visits_arrays ht h).bind (R := fun d j => ItemsAt m n j
    { p with dataSets := p.dataSets ++ [d] }) (W := fun _ j => ItemsCome m n j)
    (fun d j hd => ?_)).conseq (fun q l => ?_) (fun c => ?_)
  · obtain ⟨rfl, harrays⟩ := hd
    have hdata : DataSetAt m i d j := ⟨k, hh, harrays⟩
    have hprint : d.dbgPrint m = pure () := dataSet_dbgPrint_run ht.text
      (fun a ha e he => consistent_typeOf (((hdata.fits h6).2.2.2 a ha).2 e he).1)
    rw [hprint, pure_bind]
    exact hrest j _
  · rw [ItemResult, if_pos h6]
  · rw [ItemComes, if_pos h6]

theorem visits_item_entry (ht : Tells m kind bad) (p : Packet) {h : EntryHeader} {type : Nat}
    (htype : m.typeOf h.cmd = some type) (h6 : type ≠ 6) :
    Visits (judge m kind bad) k (do
      let entry ← DataEntry.ofHeader m h
      entry.dbgPrint m
      if entry.valid then
        Packet.parseItems m n { p with entries := p.entries ++ [entry] }
      else
        pure p) (ItemResult m n p h k) (ItemComes m n h k) := by
  have hne : m.typeOf h.cmd ≠ some 6 := by
    rw [htype]
    simpa using h6
  refine ((visits_payload htype h6).bind (R := fun e j q l => if e.valid then
    ItemsAt m n j { p with entries := p.entries ++ [e] } q l else q = p ∧ l = j)
    (W := fun e j c => e.valid = true ∧ ItemsCome m n j c)
    (fun e j he => ?_)).conseq (fun q l => ?_) (fun c => ?_)
  · obtain ⟨rfl, hp⟩ := he
    rw [DataEntry.dbgPrint, dbgPrint_run ht.text htype, pure_bind]
    by_cases hv : e.valid = true
    · simp only [hv, if_true, true_and]
      exact hrest j _
    · simp only [hv, Bool.false_eq_true, if_false, false_and]
      exact .pure p
  · rw [ItemResult, if_neg hne]
  · rw [ItemComes, if_neg hne]
    exact or_iff_right id

end Item

theorem visits_items (ht : Tells m kind bad) (n : Nat) (p : Packet) :
    Visits (judge m kind bad) i (Packet.parseItems m n p) (ItemsAt m n i p) (ItemsCome m n i) := by
  induction n generalizing i p with
  | zero =>
    refine (Visits.pure _).conseq (fun q j => ?_) (fun c => iff_of_false id (fun hc => by cases hc))
    constructor
    · rintro ⟨rfl, rfl⟩
      exact .complete _ p
    · intro hitems
      cases hitems
      exact ⟨rfl, rfl⟩
  | succ n ih =>
    by_cases hi : i = m.input.length
    · subst hi
      exact visits_end n p
    have hloop : Visits (judge m kind bad) i (Packet.parseItems m (n + 1) p)
        (fun q l => ∃ h k, HeaderAt m i h k ∧ ItemResult m n p h k q l)
        (fun c => False ∨ (HeaderComes m i c ∨ ∃ h k, HeaderAt m i h k ∧ ItemComes m n h k c)) := by
      refine visits_cursor.step ?_
      rw [if_neg hi]
      refine (visits_header ht).bind (fun h k hh => ?_)
      obtain ⟨type, _, htype⟩ := hh.typeOf
      rw [getType_run htype, pure_bind]
      by_cases h6 : type = 6
      · subst h6
        rw [if_pos (by rfl)]
        exact visits_item_dataSet (fun _ q => ih q) ht p hh htype
      · rw [if_neg (EnumType.ofValue_ne_typeTcpDataSet h6)]
        exact visits_item_entry (fun _ q => ih q) ht p htype h6
    exact hloop.conseq (fun q l => (itemsAt_iff hi).symm)
      (fun c => (or_iff_right id).trans (itemsCome_iff hi).symm)

theorem visits_packet (ht : Tells m kind bad) :
    Visits (judge m kind bad) i (Packet.ofInput m) (PacketAt m i) (PacketComes m i) := by
  refine ((visits_header ht).bind (fun h k _ => visits_items ht h.contentSize _)).conseq
    (fun _ _ => Iff.rfl) (fun c => ?_)
  constructor
  · rintro (hc | ⟨h, k, hh, hc⟩)
    · exact .header hc
    · exact .item hh hc
  · intro hcome
    cases hcome with
    | header hc => exact .inl hc
    | item hh hc => exact .inr ⟨_, _, hh, hc⟩

theorem visits_round (ht : Tells m kind bad) (packets : List Packet) :
    Visits (judge m kind bad) i (TcpPacket.round m packets)
      (fun qs j => ∃ p, PacketAt m i p j ∧ qs = packets ++ [p.copy]) (PacketComes m i) :=
  (visits_packet ht).map _

theorem sees_loop (ht : Tells m kind bad) (rounds : Nat) (packets : List Packet) :
    Sees (judge m kind bad) i
      (whileLoop .outOfFuel (TcpPacket.notAtEnd m) (TcpPacket.round m) rounds packets)
      (PacketsCome m rounds i) := by
  induction rounds generalizing i packets with
  | zero =>
    intro s _
    refine iff_of_true (fun f hf => ?_) (fun _ hc => hc.elim)
    cases hgoes : TcpPacket.notAtEnd m s with
    | true =>
      simp only [raised, whileLoop, hgoes, if_true] at hf
      cases hf
      exact ht.fuel
    | false =>
      rw [raised, whileLoop_exit hgoes] at hf
      cases hf
  | succ rounds ih =>
    by_cases hi : i = m.input.length
    · intro s hs
      have hend : TcpPacket.notAtEnd m s = false := decide_eq_false (not_not.mpr (hs.trans hi))
      refine iff_of_true (fun f hf => ?_) ?_
      · rw [raised, whileLoop_exit hend] at hf
        cases hf
      · rintro c (⟨hne, _⟩ | ⟨_, ⟨hne, _⟩, _⟩)
        · exact absurd hi hne
        · exact absurd hi hne
    · have hround : Sees (judge m kind bad) i (TcpPacket.round m packets >>=
          whileLoop .outOfFuel (TcpPacket.notAtEnd m) (TcpPacket.round m) rounds)
          (PacketsCome m (rounds + 1) i) := by
        refine ((visits_round ht packets).bind_sees (fun qs j _ => ih qs)).conseq (fun c => ?_)
        constructor
        · rintro (hc | ⟨_, j, ⟨p, hp, _⟩, hc⟩)
          · exact .inl ⟨hi, hc⟩
          · exact .inr ⟨j, ⟨hi, p, hp⟩, hc⟩
        · rintro (⟨_, hc⟩ | ⟨j, ⟨_, p, hp⟩, hc⟩)
          · exact .inl hc
          · exact .inr ⟨_, j, ⟨p, hp, rfl⟩, hc⟩
      intro s hs
      have hgoes : TcpPacket.notAtEnd m s = true := decide_eq_true (fun hend => hi (hs.symm.trans hend))
      have hloop := hround s hs
      simpa only [raised, whileLoop, hgoes, if_true] using hloop

theorem sees_frame (ht : Tells m kind bad) (rounds : Nat) :
    Sees (judge m kind bad) 0 (TcpPacket.ofInput m rounds) (FrameComes m rounds) := by
  have hrest : ∀ size j, size = wordAt m.input 0 ∧ j = afterWord m.input 0 →
      Sees (judge m kind bad) j (cursor >>= fun start =>
        if size = 0 then pure { size := size }
        else if m.input.length - start < size then pure { size := size }
        else whileLoop .outOfFuel (TcpPacket.notAtEnd m) (TcpPacket.round m) rounds [] >>=
          fun packets => pure ({ size := size, packets := packets, packetIter := some 0 } : TcpPacket))
      (fun c => wordAt m.input 0 ≠ 0 ∧ wordAt m.input 0 ≤ m.input.length - afterWord m.input 0 ∧
        PacketsCome m rounds (afterWord m.input 0) c) := by
    rintro _ _ ⟨rfl, rfl⟩ s hs
    have hstart : s.it = afterWord m.input 0 := hs
    rw [raised, bind_ok (cursor_run s), hstart]
    by_cases hzero : wordAt m.input 0 = 0
    · rw [if_pos hzero]
      exact iff_of_true (fun f hf => by cases hf) (fun _ hc => absurd hzero hc.1)
    · rw [if_neg hzero]
      by_cases hlong : m.input.length - afterWord m.input 0 < wordAt m.input 0
      · rw [if_pos hlong]
        exact iff_of_true (fun f hf => by cases hf) (fun _ hc => absurd hc.2.1 (Nat.not_le.mpr hlong))
      · rw [if_neg hlong]
        have hloop := sees_loop ht rounds [] s hs
        rw [← raised_bind_pure _ (fun packets => ({
          size := wordAt m.input 0, packets := packets, packetIter := some 0 } : TcpPacket))] at hloop
        refine hloop.trans (forall_congr' (fun c => imp_congr_left ?_))
        exact ⟨fun hc => ⟨hzero, Nat.not_lt.mp hlong, hc⟩, fun hc => hc.2.2⟩
  refine ((visits_word ht).bind_sees hrest).conseq (fun c => ?_)
  constructor
  · rintro (rfl | ⟨_, _, ⟨rfl, rfl⟩, hsize, hle, hc⟩)
    · exact .size
    · exact .packet hsize hle hc
  · intro hcome
    cases hcome with
    | size => exact .inl rfl
    | packet hsize hle hc => exact .inr ⟨_, _, ⟨rfl, rfl⟩, hsize, hle, hc⟩

end GlobalAgenda.Walk
