import GlobalAgenda.Canonical
import GlobalAgenda.RoundTrip
import GlobalAgenda.Walk

namespace GlobalAgenda.Reencoding

open EnumDataTypes ValueConverter Base.Triples Base.Chains Wire Encoding Decoding ParserSpec Walk

variable {m : Machine} {i j k : Nat}

section Nested

theorem entryAt_flat_iff (i : Nat) (e : DataEntry) (j : Nat) (he : EntryAt m i e j) :
    m.typeOf e.getCmd ≠ some 6 ↔
      ∀ it, EntryComes m i (.entry it) → m.typeOf (cmdAt m.input it) ≠ some 6 := by
  obtain ⟨k, hh, _⟩ := he
  have hcmd : e.getCmd = cmdAt m.input i := hh.cmd
  rw [hcmd]
  constructor
  · intro h it hcome
    cases hcome with
    | header hc => cases hc
    | payload _ => exact h
  · intro h
    exact h i (.payload hh)

theorem arrayAt_flat_iff (i : Nat) (a : AnonymousArray) (j : Nat) (ha : ArrayAt m i a j) :
    (∀ e ∈ a.entries, m.typeOf e.getCmd ≠ some 6) ↔
      ∀ it, ArrayComes m i (.entry it) → m.typeOf (cmdAt m.input it) ≠ some 6 := by
  cases ha with
  | empty h =>
    refine iff_of_true (by simp) (fun it hcome => ?_)
    cases hcome with
    | entry hle hc =>
      rw [h.resolve_right (Nat.not_lt.mpr hle)] at hc
      exact hc.elim
  | entries _ hle hes hlen =>
    have hall := hes.forall_iff_somewhere entryAt_unique entryAt_flat_iff
    rw [hlen] at hall
    refine hall.trans (forall_congr' (fun it => imp_congr_left ⟨.entry hle, fun hcome => ?_⟩))
    cases hcome with
    | entry _ hc => exact hc

theorem arrays_flat_iff {arrays : List AnonymousArray} (h : Chain (ArrayAt m) k arrays j) :
    (∀ e ∈ arrays.flatMap AnonymousArray.entries, m.typeOf e.getCmd ≠ some 6) ↔
      ∀ it, Somewhere (ArrayComes m · (.entry it)) (ArrayEnd m) arrays.length k →
        m.typeOf (cmdAt m.input it) ≠ some 6 := by
  rw [List.forall_mem_flatMap]
  exact h.forall_iff_somewhere arrayAt_unique arrayAt_flat_iff

theorem itemsCome_entry_iff {n it : Nat} {h : EntryHeader} (hi : i ≠ m.input.length)
    (hh : HeaderAt m i h k) :
    ItemsCome m (n + 1) i (.entry it) ↔ ItemComes m n h k (.entry it) := by
  rw [itemsCome_iff hi]
  constructor
  · rintro (hc | ⟨h', k', hh', hc⟩)
    · cases hc
    · obtain ⟨rfl, rfl⟩ := hh.unique hh'
      exact hc
  · exact fun hc => .inr ⟨h, k, hh, hc⟩

theorem itemsAt_flat_iff {n : Nat} {p q : Packet} (h : ItemsAt m n i p q j) :
    (∀ e ∈ q.arrayEntries, m.typeOf e.getCmd ≠ some 6) ↔
      (∀ e ∈ p.arrayEntries, m.typeOf e.getCmd ≠ some 6) ∧
        ∀ it, ItemsCome m n i (.entry it) → m.typeOf (cmdAt m.input it) ≠ some 6 := by
  induction h with
  | complete i p => exact (and_iff_left (fun _ hcome => nomatch hcome)).symm
  | atEnd n p =>
    refine (and_iff_left (fun it hcome => ?_)).symm
    cases hcome with
    | header hi _ | array hi _ _ _ | afterDataSet hi _ _ _ | afterEntry hi _ _ _ _ =>
      exact absurd rfl hi
  | @dataSet n i j l p q d hi hd h6 _ ih =>
    obtain ⟨k, hh, harrays, hlen⟩ := hd
    have hentries : ({ p with dataSets := p.dataSets ++ [d] } : Packet).arrayEntries =
        p.arrayEntries ++ d.arrayEntries := by
      rw [Packet.arrayEntries, List.flatMap_append, List.flatMap_singleton]
      rfl
    have hsplit := arrays_flat_iff harrays
    rw [hlen] at hsplit
    rw [ih, hentries, List.forall_mem_append, and_assoc, DataSet.arrayEntries, hsplit]
    refine and_congr_right (fun _ => ?_)
    simp only [itemsCome_entry_iff hi hh, ItemComes, if_pos h6]
    constructor
    · rintro ⟨hhere, hrest⟩ it (hc | ⟨d', j', ⟨_, harrays', hlen'⟩, hc⟩)
      · exact hhere it hc
      · obtain ⟨_, rfl⟩ := harrays.unique arrayAt_unique harrays' (hlen.trans hlen'.symm)
        exact hrest it hc
    · intro hall
      exact ⟨fun it hc => hall it (.inl hc), fun it hc => hall it (.inr ⟨d, j, ⟨rfl, harrays, hlen⟩, hc⟩)⟩
  | @entry n i j l p q e hi he h6 hv _ ih =>
    obtain ⟨k, hh, hp⟩ := he
    have hentries : ({ p with entries := p.entries ++ [e] } : Packet).arrayEntries = p.arrayEntries :=
      rfl
    rw [ih, hentries]
    refine and_congr_right (fun _ => ?_)
    simp only [itemsCome_entry_iff hi hh, ItemComes, if_neg h6]
    constructor
    · rintro hrest it ⟨e', j', ⟨_, hp'⟩, _, hc⟩
      obtain ⟨_, rfl⟩ := hp.unique hp'
      exact hrest it hc
    · exact fun hall it hc => hall it ⟨e, j, ⟨rfl, hp⟩, hv, hc⟩
  | @rejected n i j p e hi he h6 hv =>
    obtain ⟨k, hh, hp⟩ := he
    refine (and_iff_left (fun it hcome => ?_)).symm
    rw [itemsCome_entry_iff hi hh, ItemComes, if_neg h6] at hcome
    obtain ⟨⟨header, data⟩, j', ⟨rfl, hp'⟩, hv', _⟩ := hcome
    obtain ⟨rfl, _⟩ := hp.unique hp'
    rw [hv] at hv'
    cases hv'

theorem nested_iff {p : Packet} (hp : PacketAt m i p j) :
    (∀ e ∈ p.arrayEntries, m.typeOf e.getCmd ≠ some 6) ↔
      ∀ it, PacketComes m i (.entry it) → m.typeOf (cmdAt m.input it) ≠ some 6 := by
  obtain ⟨h, k, hh, hitems⟩ := hp
  have hempty : ∀ e ∈ ({ packetHeader := h } : Packet).arrayEntries, m.typeOf e.getCmd ≠ some 6 := by
    simp [Packet.arrayEntries]
  rw [itemsAt_flat_iff hitems, and_iff_right hempty]
  refine forall_congr' (fun it => imp_congr_left ⟨.item hh, fun hcome => ?_⟩)
  cases hcome with
  | header hc => cases hc
  | item hh' hc =>
    obtain ⟨rfl, rfl⟩ := hh.unique hh'
    exact hc

end Nested

section Unread

def Unread (typeOf : CmdCode → Option Nat) (e : DataEntry) : Prop :=
  typeOf e.getCmd = some 6 → e.data.length < e.entryHeader.contentSize

theorem entryAt_unread (i : Nat) (e : DataEntry) (j : Nat) (hi : i ≤ m.input.length)
    (he : EntryAt m i e j) : Unread m.typeOf e ∧ j ≤ m.input.length := by
  obtain ⟨k, hh, hp⟩ := he
  have hk := hh.le_end hi
  rw [Unread]
  generalize e.data = data at hp ⊢
  cases hp with
  | fits hle h6 => exact ⟨fun h => absurd h h6, hle⟩
  | short hlt =>
    refine ⟨fun _ => ?_, hk⟩
    change 0 < e.entryHeader.contentSize
    omega

theorem arrayAt_unread (i : Nat) (a : AnonymousArray) (j : Nat) (hi : i ≤ m.input.length)
    (ha : ArrayAt m i a j) : (∀ e ∈ a.entries, Unread m.typeOf e) ∧ j ≤ m.input.length := by
  have hword := (afterWord_le hi).2
  cases ha with
  | empty _ => exact ⟨by simp, hword⟩
  | entries _ _ hes _ => exact hes.forall_of entryAt_unread hword

theorem itemsAt_unread {n : Nat} {p q : Packet} (h : ItemsAt m n i p q j) (hi : i ≤ m.input.length)
    (hp : ∀ e ∈ p.arrayEntries, Unread m.typeOf e) : ∀ e ∈ q.arrayEntries, Unread m.typeOf e := by
  induction h with
  | complete _ _ | atEnd _ _ | rejected _ _ _ _ => exact hp
  | @dataSet n i j l p q d _ hd _ _ ih =>
    obtain ⟨k, hh, harrays, _⟩ := hd
    obtain ⟨hunread, hj⟩ := harrays.forall_of arrayAt_unread (hh.le_end hi)
    apply ih hj
    rw [Packet.arrayEntries, List.flatMap_append, List.flatMap_singleton, List.forall_mem_append]
    exact ⟨hp, List.forall_mem_flatMap.mpr hunread⟩
  | @entry n i j l p q e _ he _ _ _ ih => exact ih (entryAt_unread _ _ _ hi he).2 hp

theorem packetAt_unread {p : Packet} (hi : i ≤ m.input.length) (hp : PacketAt m i p j) :
    ∀ e ∈ p.arrayEntries, Unread m.typeOf e := by
  obtain ⟨h, k, hh, hitems⟩ := hp
  exact itemsAt_unread hitems (hh.le_end hi) (by simp [Packet.arrayEntries])

end Unread

/-- What the packet builds to is parsed, and the packet parsed builds to the same. -/
def Stable (p : Packet) (beyond : Nat → UInt8) : Prop :=
  ∃ q s, Packet.ofInput (.server p.build.1 beyond) {} = .ok q s ∧ q.build.1 = p.build.1

theorem stable_of_fits {p : Packet} (hfits : p.Fits EnumDataTypes.typeOf) (beyond : Nat → UInt8)
    (h : ∀ e ∈ p.arrayEntries, EnumDataTypes.typeOf e.getCmd ≠ some 6) : Stable p beyond := by
  obtain ⟨w, hbytes, _, hdataSets, _⟩ := packet_build hfits
  have hnone := RoundTrip.no_nested hdataSets (RoundTrip.fits_tables hfits) h
  have hread := reads_encoded (E := fun _ => False) beyond w hbytes
    (fun t ht r hr e he h6 => hnone t ht r hr e he h6)
  obtain ⟨q, s, hrun, rfl⟩ := hread.total rfl
  exact ⟨_, s, hrun, (Canonical.packetData_build w).trans hbytes.symm⟩

/-- A data set in an array is built with the size of what was stored of it, so the second parser
finds that it fits. -/
theorem not_nested_of_stable {p : Packet} (hfits : p.Fits EnumDataTypes.typeOf)
    {beyond : Nat → UInt8} (h : Stable p beyond) :
    ∀ e ∈ p.arrayEntries, EnumDataTypes.typeOf e.getCmd ≠ some 6 := by
  intro e he h6
  obtain ⟨w, hbytes, _, hdataSets, _⟩ := packet_build hfits
  obtain ⟨q, s, hrun, _⟩ := h
  obtain rfl := Triple.ok (reads_encoded beyond w hbytes (excused_any (.server p.build.1 beyond) w)) rfl hrun
  have hentries : (packetData w).arrayEntries = p.arrayEntries.map (fun e => e.build.2) := by
    rw [← Packet.build_arrayEntries (RoundTrip.fits_tables hfits), Packet.arrayEntries, Packet.arrayEntries,
      hdataSets]
    rfl
  have hmem : e.sanitized ∈ (packetData w).arrayEntries := by
    rw [hentries]
    exact List.mem_map_of_mem he
  have hunread := packetAt_unread (Nat.zero_le _) ((runs_packet (Nat.zero_le _)).ok hrun).1.1 _ hmem
  obtain ⟨d, hd, hmem⟩ := List.mem_flatMap.mp he
  obtain ⟨a, ha, hmem⟩ := List.mem_flatMap.mp hmem
  have hconsistent := (((hfits.dataSets d hd).2.2.2 a ha).2 e hmem).1
  have hwidth := table_width h6 hconsistent
  rw [DataEntry.sanitized_of_sized (by omega)] at hunread
  exact absurd (hunread h6) (Nat.lt_irrefl _)

/-- Building what was parsed is stable exactly when the parser comes to no array entry with the
command of a data set. -/
theorem stable_iff {input : List UInt8} {beyond : Nat → UInt8} {p : Packet}
    (h : returned (Packet.ofInput (.server input beyond)) {} = some p) (beyond' : Nat → UInt8) :
    Stable p beyond' ↔ ∀ it, PacketComes (.server input beyond) 0 (.entry it) →
      EnumDataTypes.typeOf (cmdAt input it) ≠ some 6 := by
  have hpacket := ((runs_packet (Nat.zero_le _)).ok (returned_eq_some.mp h)).1.1
  refine Iff.trans ?_ (nested_iff hpacket)
  exact ⟨not_nested_of_stable hpacket.fits, stable_of_fits hpacket.fits beyond'⟩

def named : Packet where
  packetHeader := ⟨0x3E, 2, 2⟩
  entries := [⟨⟨0x3C5, 1, 2⟩, [0x40]⟩]
  dataSets := [⟨⟨0x10C, 1, 2⟩, [⟨[⟨⟨0x3C5, 1, 2⟩, [0x41]⟩, ⟨⟨0x3C5, 0, 2⟩, []⟩]⟩]⟩]
  entryIter := some 0

theorem stable_named : Stable named (fun _ => 0) ↔
    ∀ it, PacketComes (.server [0x3E, 0, 2, 0, 0xC5, 3, 1, 0, 0x40, 0x0C, 1, 1, 0, 2, 0,
      0xC5, 3, 1, 0, 0x41, 0xC5, 3, 0, 0] (fun _ => 0)) 0 (.entry it) →
        EnumDataTypes.typeOf (cmdAt [0x3E, 0, 2, 0, 0xC5, 3, 1, 0, 0x40, 0x0C, 1, 1, 0, 2, 0,
          0xC5, 3, 1, 0, 0x41, 0xC5, 3, 0, 0] it) ≠ some 6 := by
  have hparse : returned (Packet.ofInput (.server [0x3E, 0, 2, 0, 0xC5, 3, 1, 0, 0x40, 0x0C, 1, 1, 0,
      2, 0, 0xC5, 3, 1, 0, 0x41, 0xC5, 3, 0, 0] (fun _ => 0))) {} = some named := by
    decide +kernel
  exact stable_iff hparse (fun _ => 0)

/-- An array with the header of a data set of five arrays, of which no byte follows. -/
def nested : Packet where
  packetHeader := ⟨0x3E, 1, 2⟩
  dataSets := [⟨⟨0x10C, 1, 2⟩, [⟨[⟨⟨0x10C, 5, 2⟩, []⟩]⟩]⟩]
  entryIter := some 0

/-- The first parser does not read this data set, the second one raises an exception on it. -/
theorem some_packet_unstable : ¬ ∀ (input : List UInt8) (beyond : Nat → UInt8) (p : Packet),
    ReadSafety.CodesInside input (PacketComes (.server input beyond) 0) →
      returned (Packet.ofInput (.server input beyond)) {} = some p →
        ∀ beyond', Stable p beyond' := by
  intro h
  have hparse : returned (Packet.ofInput (.server
      [0x3E, 0, 1, 0, 0x0C, 1, 1, 0, 1, 0, 0x0C, 1, 5, 0] (fun _ => 0))) {} = some nested := by
    decide +kernel
  have hrun := returned_eq_some.mp hparse
  have hcodes := (ReadSafety.packet_misses_iff [0x3E, 0, 1, 0, 0x0C, 1, 1, 0, 1, 0, 0x0C, 1, 5, 0]
    (fun _ => 0)).mp (fun f hf => by rw [raised, hrun] at hf; cases hf)
  obtain ⟨q, s, hrun', _⟩ := h _ _ _ hcodes hparse (fun _ => 0)
  have hraised : raised (Packet.ofInput (.server nested.build.1 (fun _ => 0))) {} =
      some nestedDataSet := by decide +kernel
  rw [raised, hrun'] at hraised
  cases hraised

end GlobalAgenda.Reencoding
