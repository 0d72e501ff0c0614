import GlobalAgenda.ParserSpec

namespace GlobalAgenda.StorageBounds

open EnumDataTypes ValueConverter Base.Triples Base.WhileLoop Base.Chains ParserSpec

variable {m : Machine} {C : Prop} {i j : Nat}

/-- Two bytes for the command of a data set, and what the entries of its arrays weigh. -/
def dataSetWeight (f : DataEntry → Nat) (d : DataSet) : Nat := 2 + (d.arrayEntries.map f).sum

/-- Two bytes for every command of a packet outside arrays, the payloads of its entries, and what
the entries of arrays weigh. -/
def packetWeight (f : DataEntry → Nat) (p : Packet) : Nat :=
  2 + (p.entries.map (fun e => 2 + e.data.length)).sum + (p.dataSets.map (dataSetWeight f)).sum

def count (_ : DataEntry) : Nat := 1

def payload (e : DataEntry) : Nat := e.data.length

/-- What is stored of a frame of `n` bytes: as many entries of arrays as fit if each has one byte,
and the payloads these bytes hold. The arrays are limited by the width of their number alone. -/
structure Bounded (n : Nat) (packets : List Packet) : Prop where
  counts : (packets.map (packetWeight count)).sum ≤ n
  payloads : (packets.map (packetWeight payload)).sum ≤ n
  arrays : ∀ p ∈ packets, ∀ d ∈ p.dataSets, d.anonArrays.length < 2 ^ 16

/-- An array weighs no more than the bytes it was read from. -/
def Paid (m : Machine) (f : DataEntry → Nat) : Prop :=
  ∀ i a j, ArrayAt m i a j → i + (a.entries.map f).sum ≤ j

theorem le_afterWord (input : List UInt8) (i : Nat) : i ≤ afterWord input i := by
  rw [afterWord]
  split <;> omega

theorem entryAt_le {e : DataEntry} (he : EntryAt m i e j) : i ≤ j := by
  obtain ⟨k, hh, hp⟩ := he
  exact hh.le.trans hp.le

theorem entries_advance {es : List DataEntry} (h : Chain (EntryAt m) i es j)
    (hroom : j + 2 ≤ m.input.length) : i + 2 * es.length ≤ j := by
  induction h with
  | nil i => exact le_rfl
  | @cons i k j e es he _ ih =>
    have hrest := ih hroom
    obtain ⟨l, hh, hp⟩ := he
    have hle := hh.le.trans hp.le
    have hadvances := (hh.advances (by omega)).trans hp.le
    rw [List.length_cons]
    omega

/-- The guard lets no more entries pass than bytes remain, and only at the end of the input an
entry has no bytes of its own. -/
theorem paid_count : Paid m count := by
  intro i a j h
  have hsum : ∀ es : List DataEntry, (es.map count).sum = es.length := by
    intro es
    induction es with
    | nil => rfl
    | cons e es ih =>
      rw [List.map_cons, List.sum_cons, ih, List.length_cons, count]
      omega
  rw [hsum]
  cases h with
  | empty _ => exact le_afterWord _ _
  | @entries es j hpos hle hes hlen =>
    have hword : afterWord m.input i = i + 2 := by
      by_contra hne
      have hshort : ¬ i + 2 ≤ m.input.length := fun h => hne (if_pos h)
      exact hpos (if_neg hshort)
    rw [hword] at hle hes
    change i + es.length ≤ j
    by_cases hroom : j + 2 ≤ m.input.length
    · have hadvance := entries_advance hes hroom
      omega
    · omega

theorem entryAt_payload (i : Nat) (e : DataEntry) (j : Nat) (he : EntryAt m i e j) :
    i + payload e ≤ j := by
  obtain ⟨k, hh, hp⟩ := he
  have hle := hh.le
  rw [payload]
  generalize e.data = data at hp
  cases hp with
  | fits _ =>
    have hlen : ((m.input.drop k).take e.entryHeader.contentSize).length ≤ _ := List.length_take_le _ _
    omega
  | short _ => exact hle

theorem paid_payload : Paid m payload := by
  intro i a j h
  have hword := le_afterWord m.input i
  cases h with
  | empty _ => exact hword
  | entries _ _ hes _ =>
    have hsum := hes.sum_le entryAt_payload
    exact (Nat.add_le_add_right hword _).trans hsum

section Packets

variable {f : DataEntry → Nat} (h0 : m.typeOf CmdCode.unknown ≠ some 6) (hf : Paid m f)

include hf

theorem arrays_weight {arrays : List AnonymousArray} (h : Chain (ArrayAt m) i arrays j) :
    i + ((arrays.flatMap AnonymousArray.entries).map f).sum ≤ j := by
  have hsum := h.sum_le hf
  have hflat : ((arrays.flatMap AnonymousArray.entries).map f).sum =
      (arrays.map (fun a => (a.entries.map f).sum)).sum := by
    rw [List.map_flatMap, List.flatMap_def, List.sum_flatten, List.map_map]
    rfl
  rw [hflat]
  exact hsum

include h0

theorem dataSetAt_weight {d : DataSet} (hd : DataSetAt m i d j)
    (h6 : m.typeOf d.entryHeader.cmd = some 6) : i + dataSetWeight f d ≤ j := by
  obtain ⟨k, hh, harrays, _⟩ := hd
  have hcmd : d.entryHeader.cmd ≠ CmdCode.unknown := by
    intro heq
    rw [heq] at h6
    exact h0 h6
  have htwo := hh.two_le hcmd
  have hsum := arrays_weight hf harrays
  rw [dataSetWeight, DataSet.arrayEntries]
  omega

theorem itemsAt_weight {n : Nat} {p q : Packet} (h : ItemsAt m n i p q j) :
    i + packetWeight f q ≤ packetWeight f p + j := by
  induction h with
  | complete _ _ | atEnd _ _ => simp [packetWeight]; omega
  | @dataSet n i j l p q d _ hd h6 _ ih =>
    have hweight := dataSetAt_weight h0 hf hd h6
    have hadd : packetWeight f { p with dataSets := p.dataSets ++ [d] } =
        packetWeight f p + dataSetWeight f d := by
      simp [packetWeight]
      omega
    omega
  | @entry n i j l p q e _ he _ hv _ ih =>
    obtain ⟨k, hh, hp⟩ := he
    have htwo := hh.two_le ((DataEntry.valid_iff e).mp hv).1
    have hpayload : k + e.data.length ≤ j := by
      generalize e.data = data at hp
      cases hp with
      | fits _ => exact Nat.add_le_add_left (List.length_take_le _ _) _
      | short _ => exact le_rfl
    have hadd : packetWeight f { p with entries := p.entries ++ [e] } =
        packetWeight f p + (2 + e.data.length) := by
      simp [packetWeight]
      omega
    omega
  | rejected _ he _ _ =>
    have hle := entryAt_le he
    omega

theorem roundAt_weight (hi : i + 2 ≤ m.input.length) {q : Packet} (h : RoundAt m i q j) :
    i + packetWeight f q ≤ j := by
  obtain ⟨_, p, ⟨header, k, hh, hitems⟩, rfl⟩ := h
  have hcopy : packetWeight f p.copy = packetWeight f p := rfl
  have htwo := hh.advances hi
  have hweight := itemsAt_weight h0 hf hitems
  have hempty : packetWeight f { packetHeader := header } = 2 := rfl
  omega

end Packets

theorem packetAt_last (hunknown : m.typeOf CmdCode.unknown = some 0) (hlast : i + 1 = m.input.length)
    {p : Packet} (h : PacketAt m i p j) : j = i := by
  obtain ⟨header, k, hh, hitems⟩ := h
  have hshort : ¬ i + 2 ≤ m.input.length := by omega
  have hword : afterWord m.input i = i := if_neg hshort
  have hcmd : cmdAt m.input i = CmdCode.unknown := cmdAt_short (by omega)
  cases hh with
  | sized _ =>
    have hsize : wordAt m.input (afterWord m.input i) = 0 := by rw [hword, wordAt, if_neg hshort]
    change ItemsAt m (wordAt m.input (afterWord m.input i)) _ _ _ _ at hitems
    rw [hsize, hword, hword] at hitems
    cases hitems
    rfl
  | fixed size _ _ hc =>
    rw [hcmd, EntryHeader.getConfig_known hunknown (by norm_num), if_pos (.inl rfl)] at hc
    cases hc

/-- The loop over a frame that comes to the end never has a single byte left. -/
theorem rounds_room (hunknown : m.typeOf CmdCode.unknown = some 0) {packets : List Packet}
    (h : Chain (RoundAt m) i packets j) (hj : j = m.input.length) :
    Chain (fun i q j => i + 2 ≤ m.input.length ∧ RoundAt m i q j) i packets j ∧
      i + 1 ≠ m.input.length := by
  induction h with
  | nil i => exact ⟨.nil i, by omega⟩
  | @cons i k j q packets hround _ ih =>
    obtain ⟨hrest, hk⟩ := ih hj
    have ⟨hlt, p, hpacket, _⟩ := hround
    have hlast : i + 1 ≠ m.input.length := by
      intro hlast
      rw [packetAt_last hunknown hlast hpacket] at hk
      exact hk hlast
    exact ⟨.cons ⟨by omega, hround⟩ hrest, hlast⟩

theorem rounds_weight (hunknown : m.typeOf CmdCode.unknown = some 0) {f : DataEntry → Nat}
    (hf : Paid m f) {packets : List Packet} (h : Chain (RoundAt m) i packets m.input.length) :
    (packets.map (packetWeight f)).sum ≤ m.input.length := by
  have h0 : m.typeOf CmdCode.unknown ≠ some 6 := by simp [hunknown]
  have hsum := (rounds_room hunknown h rfl).1.sum_le
    (f := packetWeight f) (fun _ _ _ hp => roundAt_weight h0 hf hp.1 hp.2)
  exact (Nat.le_add_left _ _).trans hsum

/-- A frame that was parsed holds no more than its bytes pay for, whatever its counts announce. -/
theorem frame_bounded (input : List UInt8) (beyond : Nat → UInt8) (rounds : Nat) (t : TcpPacket)
    (h : returned (TcpPacket.ofInput (.server input beyond) rounds) {} = some t) :
    Bounded input.length t.packets := by
  have hrun := returned_eq_some.mp h
  have hfits := frame_fits hrun
  have harrays : ∀ p ∈ t.packets, ∀ d ∈ p.dataSets, d.anonArrays.length < 2 ^ 16 :=
    fun p hp d hd => ((hfits p hp).dataSets d hd).2.2.1
  obtain hnil | hchain := ((runs_frame (Nat.zero_le _) rounds).ok hrun).1
  · rw [hnil]
    exact ⟨Nat.zero_le _, Nat.zero_le _, by simp⟩
  · exact ⟨rounds_weight typeOf_unknown paid_count hchain,
      rounds_weight typeOf_unknown paid_payload hchain, harrays⟩

theorem phantom_bounded : Bounded 14 [⟨⟨0x3E, 1, 2⟩, [],
    [⟨⟨0x10C, 1, 2⟩, [⟨[⟨⟨0x3C5, 0, 2⟩, []⟩, ⟨⟨0, 0, 2⟩, []⟩]⟩]⟩], none⟩] := by
  have hparse : returned (TcpPacket.ofInput (.server
      [12, 0, 0x3E, 0, 1, 0, 0x0C, 1, 1, 0, 2, 0, 0xC5, 3] (fun _ => 0)) 1) {} = some
      ⟨12, [⟨⟨0x3E, 1, 2⟩, [], [⟨⟨0x10C, 1, 2⟩, [⟨[⟨⟨0x3C5, 0, 2⟩, []⟩, ⟨⟨0, 0, 2⟩, []⟩]⟩]⟩], none⟩],
        some 0⟩ := by decide +kernel
  exact frame_bounded _ _ _ _ hparse

end GlobalAgenda.StorageBounds
