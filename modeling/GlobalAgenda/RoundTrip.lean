import GlobalAgenda.BuildSizes
import GlobalAgenda.Construction
import GlobalAgenda.Decoding

namespace GlobalAgenda.RoundTrip

open EnumDataTypes ValueConverter Base.LittleEndian Base.Triples Base.WhileLoop Wire Encoding
  Decoding BuildSizes ParserSpec

variable {m : Machine} {E : Fault → Prop}

theorem reads_messages (hm : Total m) (ws : List (Message m.typeOf))
    (hws : ∀ w ∈ ws, w.layout = .sized ∧ Excused E w) (rounds : Nat) (hr : ws.length ≤ rounds)
    (packets : List Packet) :
    Triple (At m (ws.flatMap Message.encode))
      (whileLoop .outOfFuel (TcpPacket.notAtEnd m) (TcpPacket.round m) rounds packets)
      (fun qs s => qs = packets ++ ws.map (fun w => (packetData w).copy) ∧ At m [] s)
      (fun f _ => E f) := by
  induction ws generalizing rounds packets with
  | nil =>
    intro s hs
    have hend : TcpPacket.notAtEnd m s = false := decide_eq_false (not_not.mpr (by simpa using hs.length))
    rw [whileLoop_exit hend]
    exact ⟨by simp, hs⟩
  | cons w ws ih =>
    obtain ⟨hsized, hexcused⟩ := hws w (by simp)
    obtain ⟨rounds, rfl⟩ : ∃ k, rounds = k + 1 := ⟨rounds - 1, by rw [List.length_cons] at hr; omega⟩
    intro s hs
    have hgoes : TcpPacket.notAtEnd m s = true := by
      rw [List.flatMap_cons] at hs
      exact decide_eq_true (hs.ne_end (by have := w.two_le_length; omega))
    have hround : Triple (At m (w.encode ++ ws.flatMap Message.encode)) (TcpPacket.round m packets)
        (fun qs s => qs = packets ++ [(packetData w).copy] ∧ At m (ws.flatMap Message.encode) s)
        (fun f _ => E f) := by
      apply (reads_packet hm w hexcused (.inl hsized)).bind
      intro p
      apply Triple.pure_pre
      rintro rfl
      exact .pure (fun t ht => ⟨rfl, ht⟩)
    simp only [whileLoop, hgoes, ↓reduceIte]
    refine hround.bind (fun qs => .pure_pre ?_) s hs
    rintro rfl
    have hrest := ih (fun v hv => hws v (by simp [hv])) rounds (by simpa using hr)
      (packets ++ [(packetData w).copy])
    simpa only [List.append_assoc, List.singleton_append, List.map_cons] using hrest

theorem reads_frame (hm : Total m) (ws : List (Message m.typeOf))
    (hws : ∀ w ∈ ws, w.layout = .sized ∧ Excused E w)
    (hsize : (ws.flatMap Message.encode).length < 2 ^ 16) (rounds : Nat) (hr : ws.length ≤ rounds) :
    Triple (At m (bytes 2 (ws.flatMap Message.encode).length ++ ws.flatMap Message.encode))
      (TcpPacket.ofInput m rounds)
      (fun t s => t.packets = ws.map (fun w => (packetData w).copy) ∧ At m [] s)
      (fun f _ => E f) := by
  apply (consumes_toUint16 hm hsize _).bind
  intro size
  apply Triple.pure_pre
  rintro rfl s hs
  have hlen := hs.length
  rw [bind_ok (cursor_run s)]
  by_cases hzero : (ws.flatMap Message.encode).length = 0
  · rw [if_pos hzero]
    have hnil : ws = [] := by
      cases ws with
      | nil => rfl
      | cons w ws =>
        have htwo := w.two_le_length
        rw [List.flatMap_cons, List.length_append] at hzero
        omega
    subst hnil
    exact ⟨rfl, hs⟩
  · rw [if_neg hzero, if_neg (by omega)]
    refine (reads_messages hm ws hws rounds hr []).bind (fun qs => .pure_pre ?_) s hs
    rintro rfl
    exact .pure (fun t ht => ⟨rfl, ht⟩)

section Frames

variable {typeOf : CmdCode → Option Nat}

/-- A packet with a size field, with items that a receiver does not stop at, and with arrays of
anything but data sets. -/
structure SendablePacket (typeOf : CmdCode → Option Nat) (p : Packet) : Prop where
  made : ∃ cmd, p.Made typeOf cmd ∧
    (typeOf cmd = some 0 ∨ typeOf cmd = some 6 ∨ typeOf cmd = some 10)
  entries : ∀ e ∈ p.entries, e.Made typeOf ∧ e.getCmd ≠ CmdCode.unknown ∧
    typeOf e.getCmd ≠ some 6 ∧ e.sanitized.data ≠ []
  dataSets : ∀ d ∈ p.dataSets, d.Made typeOf ∧ typeOf d.getCmd = some 6
  arrays : ∀ e ∈ p.arrayEntries, e.Made typeOf ∧ typeOf e.getCmd ≠ some 6

structure Sendable (typeOf : CmdCode → Option Nat) (t : TcpPacket) : Prop where
  packets : ∀ p ∈ t.packets, SendablePacket typeOf p
  size : t.payload.length ≤ 65535

/-- Every entry, in an array or not, has the header of its command. -/
def Configured (typeOf : CmdCode → Option Nat) (t : TcpPacket) : Prop :=
  ∀ p ∈ t.packets, (∀ e ∈ p.entries, e.entryHeader.Consistent typeOf) ∧
    ∀ e ∈ p.arrayEntries, e.entryHeader.Consistent typeOf

/-- The parser takes the built frame apart into the packets that `build` has left. Their iterators
are those of copies. -/
def RoundTrips (t : TcpPacket) : Prop :=
  ∀ (beyond : Nat → UInt8) (rounds : Nat), t.packets.length ≤ rounds →
    ∃ u s, TcpPacket.ofInput (.server t.build.1 beyond) rounds {} = .ok u s ∧
      s.it = t.build.1.length ∧ u.packets = t.build.2.copies

theorem entry_fits {e : DataEntry} (hc : e.entryHeader.Consistent typeOf)
    (hlen : e.build.1.length ≤ 65535) : e.Fits typeOf := by
  refine ⟨hc, fun hw => ?_⟩
  rw [entry_build_length, DataEntry.sanitized_of_sized hw] at hlen
  exact Nat.lt_succ_of_le ((Nat.le_add_left _ _).trans hlen)

theorem array_fits {a : AnonymousArray} (hc : ∀ e ∈ a.entries, e.entryHeader.Consistent typeOf)
    (hlen : a.build.1.length ≤ 65535) : a.Fits typeOf := by
  have hentries := array_entries_le a
  refine ⟨by omega, fun e he => entry_fits (hc e he) ?_⟩
  exact (array_part_le he).trans hlen

theorem table_sanitized {d : DataSet} (h6 : typeOf d.getCmd = some 6)
    (hc : d.entryHeader.Consistent typeOf) : d.sanitized.anonArrays = d.anonArrays := by
  have hwidth := table_width h6 hc
  rw [DataSet.sanitized, EntryHeader.sanitizePayloadSizeByType, if_pos (by omega)]

theorem fits_tables {p : Packet} (h : p.Fits typeOf) :
    ∀ d ∈ p.dataSets, d.sanitized.anonArrays = d.anonArrays := by
  intro d hd
  obtain ⟨h6, hc, _⟩ := h.dataSets d hd
  exact table_sanitized h6 hc

theorem dataSet_fits {d : DataSet} (h6 : typeOf d.getCmd = some 6)
    (hc : d.entryHeader.Consistent typeOf)
    (harrays : ∀ a ∈ d.anonArrays, ∀ e ∈ a.entries, e.entryHeader.Consistent typeOf)
    (hlen : d.build.1.length ≤ 65535) : d.Fits typeOf := by
  have hsan := table_sanitized h6 hc
  have hcount := dataSet_arrays_le d
  rw [hsan] at hcount
  refine ⟨h6, hc, by omega, fun a ha => array_fits (harrays a ha) ?_⟩
  exact (dataSet_part_le (by rwa [hsan])).trans hlen

theorem made_header {p : Packet} {cmd : CmdCode} (h : p.Made typeOf cmd)
    (hcmd : typeOf cmd = some 0 ∨ typeOf cmd = some 6 ∨ typeOf cmd = some 10) :
    p.packetHeader.Consistent typeOf ∧ layoutOf typeOf p.packetHeader.cmd = some .sized ∧
      p.capacity = 65535 := by
  obtain ⟨c, hc, rfl, hwidth⟩ := h.header
  obtain ⟨l, hl, rfl⟩ := layout_of_getConfig hc
  have hsized : layoutOf typeOf p.packetHeader.cmd = some .sized := by
    obtain h0 | h6 | h10 := hcmd
    · rw [layoutOf_known h0 (by norm_num), if_pos (by norm_num)]
    · exact layoutOf_table h6
    · rw [layoutOf_known h10 (by norm_num), if_pos (by norm_num)]
  rw [hsized] at hl
  cases hl
  refine ⟨⟨_, hc, hwidth, nofun⟩, hsized, ?_⟩
  rw [Packet.capacity, if_neg (by rw [hwidth]; decide)]
  rfl

theorem SendablePacket.table {p : Packet} (h : SendablePacket typeOf p)
    (h0 : typeOf CmdCode.unknown = some 0) {d : DataSet} (hd : d ∈ p.dataSets) :
    typeOf d.getCmd = some 6 ∧ d.entryHeader.Consistent typeOf := by
  obtain ⟨hmade, h6⟩ := h.dataSets d hd
  refine ⟨h6, hmade.consistent h6 (fun heq => ?_)⟩
  rw [heq, h0] at h6
  cases h6

theorem mem_arrayEntries {p : Packet} {d : DataSet} {a : AnonymousArray} {e : DataEntry}
    (hd : d ∈ p.dataSets) (ha : a ∈ d.anonArrays) (he : e ∈ a.entries) : e ∈ p.arrayEntries :=
  List.mem_flatMap.mpr ⟨d, hd, List.mem_flatMap.mpr ⟨a, ha, he⟩⟩

theorem Sendable.fits {t : TcpPacket} (h0 : typeOf CmdCode.unknown = some 0)
    (h : Sendable typeOf t) (hc : Configured typeOf t) {p : Packet} (hp : p ∈ t.packets) :
    p.Fits typeOf := by
  have hsend := h.packets p hp
  obtain ⟨cmd, hmade, hcmd⟩ := hsend.made
  obtain ⟨hheader, _, hcapacity⟩ := made_header hmade hcmd
  obtain ⟨hentries, harrays⟩ := hc p hp
  have hlen := (payload_part_le hp).trans h.size
  refine ⟨hheader, ?_, ?_, ?_⟩
  · rw [hcapacity]
    exact (packet_items_le p).trans hlen
  · intro e he
    obtain ⟨_, hunknown, h6, hdata⟩ := hsend.entries e he
    have hfits := entry_fits (hentries e he) ((packet_entry_le he).trans hlen)
    refine ⟨hfits, (DataEntry.valid_iff _).mpr ⟨?_, hdata⟩, h6⟩
    rwa [DataEntry.sanitized_cmd]
  · intro d hmem
    obtain ⟨h6, hconsistent⟩ := hsend.table h0 hmem
    apply dataSet_fits h6 hconsistent
    · exact fun a ha e he => harrays e (mem_arrayEntries hmem ha he)
    · exact (packet_dataSet_le hmem).trans hlen

theorem no_nested {p : Packet} {w : Message typeOf}
    (hbuild : p.build.2.dataSets = w.tables.map dataSetData)
    (hsets : ∀ d ∈ p.dataSets, d.sanitized.anonArrays = d.anonArrays)
    (hentries : ∀ e ∈ p.arrayEntries, typeOf e.getCmd ≠ some 6) :
    ∀ t ∈ w.tables, ∀ r ∈ t.records, ∀ e ∈ r.entries, typeOf e.cmd ≠ some 6 := by
  intro t ht r hr v hv
  have hmem : entryData v ∈ p.build.2.arrayEntries := by
    rw [Packet.arrayEntries, hbuild, List.flatMap_map, List.mem_flatMap]
    refine ⟨t, ht, List.mem_flatMap.mpr ⟨arrayData r, List.mem_map_of_mem hr, ?_⟩⟩
    exact List.mem_map_of_mem hv
  rw [Packet.build_arrayEntries hsets] at hmem
  obtain ⟨e, he, hev⟩ := List.mem_map.mp hmem
  have hcmd : e.getCmd = v.cmd := by
    have h := congrArg (fun e : DataEntry => e.entryHeader.cmd) hev
    simp only [entryData, header_cmd] at h
    rw [← h]
    exact (DataEntry.sanitized_cmd e).symm
  rw [← hcmd]
  exact hentries e he

end Frames

/-- The bytes of a packet, and the packet as a frame that is received stores it. -/
def received (p : Packet) : List UInt8 × Packet := (p.build.1, p.build.2.copy)

/-- A frame whose packets are received as messages is read off its bytes. -/
theorem reads_received {t : TcpPacket} (hparts : ∀ p ∈ t.packets,
      ∃ w : Message EnumDataTypes.typeOf, received p = (w.encode, (packetData w).copy) ∧
        w.layout = .sized ∧
        ∀ t ∈ w.tables, ∀ r ∈ t.records, ∀ e ∈ r.entries, EnumDataTypes.typeOf e.cmd ≠ some 6)
    (hsize : t.payload.length < 2 ^ 16) (beyond : Nat → UInt8) {rounds : Nat}
    (hr : t.packets.length ≤ rounds) : ∃ u s, TcpPacket.ofInput (.server t.build.1 beyond) rounds {} =
      .ok u s ∧ s.it = t.build.1.length ∧ u.packets = t.packets.map (fun p => (received p).2) := by
  obtain ⟨ws, hlen, hbytes, hpackets, hws⟩ := exists_sequence hparts
  have hpayload : t.payload = ws.flatMap Message.encode := hbytes
  rw [hpayload] at hsize
  have hbuild : t.build.1 = bytes 2 (ws.flatMap Message.encode).length ++ ws.flatMap Message.encode := by
    rw [TcpPacket.build, fromUint16_eq, hpayload, Nat.mod_eq_of_lt hsize]
  have hread := reads_frame (E := fun _ => False) (total_server t.build.1 beyond) ws
    (fun w hw => ⟨(hws w hw).1, fun t ht r hr e he h6 => (hws w hw).2 t ht r hr e he h6⟩) hsize
    rounds (hlen.trans_le hr)
  have hstart : At (.server t.build.1 beyond)
      (bytes 2 (ws.flatMap Message.encode).length ++ ws.flatMap Message.encode) {} :=
    ⟨Nat.zero_le _, hbuild⟩
  obtain ⟨u, s, hrun, hu, hend⟩ := hread.total hstart
  exact ⟨u, s, hrun, hend.length, hu.trans hpackets.symm⟩

theorem Sendable.received {t : TcpPacket} (h : Sendable EnumDataTypes.typeOf t)
    (hc : Configured EnumDataTypes.typeOf t) {p : Packet} (hp : p ∈ t.packets) :
    ∃ w : Message EnumDataTypes.typeOf, received p = (w.encode, (packetData w).copy) ∧
      w.layout = .sized ∧
      ∀ t ∈ w.tables, ∀ r ∈ t.records, ∀ e ∈ r.entries, EnumDataTypes.typeOf e.cmd ≠ some 6 := by
  have hfits := h.fits typeOf_unknown hc hp
  obtain ⟨cmd, hmade, hcmd⟩ := (h.packets p hp).made
  obtain ⟨_, hsized, _⟩ := made_header hmade hcmd
  obtain ⟨w, hbytes, hlayout, hdataSets, hleft⟩ := packet_build hfits
  rw [hsized] at hlayout
  have hl : w.layout = .sized := (Option.some.inj hlayout).symm
  refine ⟨w, ?_, hl, no_nested hdataSets (fits_tables hfits) ?_⟩
  · rw [RoundTrip.received, hbytes, hleft hl]
    rfl
  · exact fun e he => ((h.packets p hp).arrays e he).2

theorem ofCmd_made {cmd : CmdCode} {c : Nat × Nat}
    (h : EntryHeader.getConfig EnumDataTypes.typeOf cmd = .ok c) (data : List UInt8) :
    DataEntry.Made EnumDataTypes.typeOf ⟨⟨cmd, c.2, c.1⟩, data⟩ := by
  have hmake : DataEntry.ofCmd EnumDataTypes.typeOf cmd data = .ok ⟨⟨cmd, c.2, c.1⟩, data⟩ := by
    rw [DataEntry.ofCmd, EntryHeader.ofCmd_eq h]
    rfl
  exact .ofCmd hmake

theorem sized_config {typeOf : CmdCode → Option Nat} {cmd : CmdCode} {type : Nat}
    (ht : typeOf cmd = some type) (hsized : type = 0 ∨ type = 6) :
    EntryHeader.getConfig typeOf cmd = .ok (2, 0) := by
  rw [EntryHeader.getConfig_known ht (by omega), if_pos (by omega)]

theorem typeOf_playerName : EnumDataTypes.typeOf CmdCode.playerName = some 0 := by decide +kernel

theorem typeOf_sysSiteId : EnumDataTypes.typeOf CmdCode.sysSiteId = some 3 := by decide +kernel

def playerName (name : List UInt8) : DataEntry := ⟨⟨CmdCode.playerName, 0, 2⟩, name⟩

def sysSiteId (value : UInt32) : DataEntry := ⟨⟨CmdCode.sysSiteId, 4, 0⟩, fromUint32 value.toNat⟩

theorem config_sysSiteId :
    EntryHeader.getConfig EnumDataTypes.typeOf CmdCode.sysSiteId = .ok (0, 4) :=
  EntryHeader.getConfig_known typeOf_sysSiteId (by norm_num)

theorem playerName_made (name : List UInt8) :
    (playerName name).Made EnumDataTypes.typeOf ∧ EnumDataTypes.typeOf CmdCode.playerName ≠ some 6 :=
  ⟨ofCmd_made (sized_config typeOf_playerName (.inl rfl)) name, by rw [typeOf_playerName]; decide⟩

theorem sysSiteId_made (value : UInt32) :
    (sysSiteId value).Made EnumDataTypes.typeOf ∧ EnumDataTypes.typeOf CmdCode.sysSiteId ≠ some 6 :=
  ⟨ofCmd_made config_sysSiteId _, by rw [typeOf_sysSiteId]; decide⟩

def intervalPacket (entries : List DataEntry) (tables : List (List AnonymousArray)) : Packet where
  packetHeader := ⟨CmdCode.applyOnIntervalFlag, 0, 2⟩
  entries := entries
  dataSets := tables.map (fun arrays => ⟨⟨CmdCode.dataSet, 0, 2⟩, arrays⟩)

theorem intervalPacket_made (entries : List DataEntry) (tables : List (List AnonymousArray)) :
    (intervalPacket entries tables).Made EnumDataTypes.typeOf CmdCode.applyOnIntervalFlag := by
  have hempty : Packet.ofCmd EnumDataTypes.typeOf CmdCode.applyOnIntervalFlag =
      .ok { packetHeader := ⟨CmdCode.applyOnIntervalFlag, 0, 2⟩ } := by
    rw [Packet.ofCmd, EntryHeader.ofCmd_eq (sized_config typeOf_applyOnIntervalFlag (.inl rfl))]
    rfl
  exact (Packet.Made.ofCmd hempty).append entries _

end GlobalAgenda.RoundTrip
