import GlobalAgenda.Canonical
import GlobalAgenda.Rebuilding
import GlobalAgenda.RoundTrip

namespace GlobalAgenda.EmptyEntries

open EnumDataTypes ValueConverter Base.LittleEndian Base.Triples Base.Consumption Wire Encoding
  Decoding ParserSpec BuildSizes

/-- Whatever surrounds it, a data set is read back as `build` left it. -/
structure SetRoundTrips (d : DataSet) : Prop where
  type : EnumDataTypes.typeOf d.getCmd = some 6
  consumes : ∀ input beyond, Consumes (At (.server input beyond))
    (DataSet.ofInput (.server input beyond)) d.build.1 (· = d.build.2) (fun _ => False)

/-- A packet with a 16-bit count, with any entries that are no data sets and data sets that
round-trip, all of sizes that have a field. -/
structure Plain (p : Packet) : Prop where
  made : ∃ cmd, p.Made EnumDataTypes.typeOf cmd ∧ (EnumDataTypes.typeOf cmd = some 0 ∨
    EnumDataTypes.typeOf cmd = some 6 ∨ EnumDataTypes.typeOf cmd = some 10)
  entries : ∀ e ∈ p.entries, e.getCmd ≠ CmdCode.unknown ∧
    EnumDataTypes.typeOf e.getCmd ≠ some 6 ∧ e.data.length < 2 ^ 16
  dataSets : ∀ d ∈ p.dataSets, SetRoundTrips d
  count : p.entries.length + p.dataSets.length < 2 ^ 16

/-- The parser stores every entry and every data set in order and takes all bytes. -/
def StoresAll (p : Packet) (beyond : Nat → UInt8) : Prop :=
  ∃ q s, Packet.ofInput (.server p.build.1 beyond) {} = .ok q s ∧
    q.entries = p.build.2.entries ∧ q.dataSets = p.build.2.dataSets ∧ s.it = p.build.1.length

section Sets

variable {m : Machine} {s t : Scan}

theorem read_fits {d : DataSet} (hd : DataSet.ofInput m {} = .ok d t)
    (h6 : m.typeOf d.getCmd = some 6) : d.Fits m.typeOf := by
  obtain ⟨⟨k, hh, harrays, hlen⟩, _⟩ := (runs_headerAndArrays (Nat.zero_le _)).ok hd
  refine ⟨h6, hh.consistent, ?_, harrays.forall (fun _ _ _ ha => ArrayAt.fits ha)⟩
  rw [hlen]
  exact hh.contentSize_lt

theorem fits_dbgPrint (hm : Total m) {d : DataSet} (h : d.Fits m.typeOf) :
    d.dbgPrint m = pure () := by
  apply dataSet_dbgPrint_run hm.text
  intro a ha e he
  exact consistent_typeOf ((h.2.2.2 a ha).2 e he).1

variable {Q : Packet → Scan → Prop} {E : Fault → Prop} {ws : List UInt8} {n : Nat} {p : Packet}

theorem item_dataSet {d : DataSet} (h6 : m.typeOf d.build.2.getCmd = some 6)
    (hd : Consumes (At m) (DataSet.ofInput m) d.build.1 (· = d.build.2) (fun _ => False))
    (hprint : d.build.2.dbgPrint m = pure ())
    (hrest : Triple (At m ws)
      (Packet.parseItems m n { p with dataSets := p.dataSets ++ [d.build.2] }) Q (fun f _ => E f)) :
    Triple (At m (d.build.1 ++ ws)) (Packet.parseItems m (n + 1) p) Q (fun f _ => E f) := by
  intro s hs
  have hset : EnumType.ofValue 6 = some .typeTcpDataSet := rfl
  have hnend := hs.ne_end ((by norm_num : 0 < 2).trans_le (dataSet_two_le d))
  obtain ⟨_, u, hrun, rfl, hu⟩ := (hd ws).total hs
  obtain ⟨h, t, hheader, harrays⟩ := bind_eq_ok hrun
  rw [DataSet.getCmd, EntryHeader.getCmd, DataSet.ofHeader_header harrays] at h6
  rw [Packet.parseItems, bind_ok (cursor_run s), if_neg hnend, bind_ok hheader, getType_run h6,
    pure_bind, if_pos hset, bind_ok harrays, hprint, pure_bind]
  exact hrest u hu

theorem items_dataSets (ds : List DataSet)
    (hds : ∀ d ∈ ds, m.typeOf d.build.2.getCmd = some 6 ∧
      Consumes (At m) (DataSet.ofInput m) d.build.1 (· = d.build.2) (fun _ => False) ∧
      d.build.2.dbgPrint m = pure ())
    (hrest : Triple (At m ws)
      (Packet.parseItems m n { p with dataSets := p.dataSets ++ ds.map (fun d => d.build.2) }) Q
      (fun f _ => E f)) :
    Triple (At m (ds.flatMap (fun d => d.build.1) ++ ws)) (Packet.parseItems m (ds.length + n) p) Q
      (fun f _ => E f) := by
  induction ds generalizing p with
  | nil => simpa using hrest
  | cons d ds ih =>
    obtain ⟨h6, hd, hprint⟩ := hds d (by simp)
    rw [List.flatMap_cons, List.append_assoc, List.length_cons, Nat.add_right_comm]
    apply item_dataSet h6 hd hprint
    apply ih (fun d' hd' => hds d' (by simp [hd']))
    simpa only [List.append_assoc, List.singleton_append, List.map_cons] using hrest

end Sets

theorem SetRoundTrips.item {d : DataSet} (h : SetRoundTrips d) (input : List UInt8)
    (beyond : Nat → UInt8) : EnumDataTypes.typeOf d.build.2.getCmd = some 6 ∧
      Consumes (At (.server input beyond)) (DataSet.ofInput (.server input beyond)) d.build.1
        (· = d.build.2) (fun _ => False) ∧ d.build.2.dbgPrint (.server input beyond) = pure () := by
  have h6 : EnumDataTypes.typeOf d.build.2.getCmd = some 6 := by
    have hcmd := DataSet.sanitized_cmd d
    rw [DataSet.build, DataSet.getCmd, EntryHeader.getCmd, hcmd]
    exact h.type
  have hstart : At (.server d.build.1 beyond) (d.build.1 ++ []) {} :=
    ⟨Nat.zero_le _, (List.append_nil _).symm⟩
  obtain ⟨_, u, hrun, rfl, _⟩ := (h.consumes d.build.1 beyond []).total hstart
  have hfits : d.build.2.Fits EnumDataTypes.typeOf := read_fits hrun h6
  exact ⟨h6, h.consumes input beyond, fits_dbgPrint (total_server input beyond) hfits⟩

theorem sanitized_ne_nil {typeOf : CmdCode → Option Nat} {e : DataEntry}
    (hc : e.entryHeader.Consistent typeOf) (h : e.entryHeader.sizeWidth ≠ 0 → e.data ≠ []) :
    e.sanitized.data ≠ [] := by
  by_cases hwidth : e.entryHeader.sizeWidth = 0
  · obtain ⟨c, hconfig, hw, hsize⟩ := hc
    obtain rfl | ⟨size, hpos, _, rfl⟩ := EntryHeader.getConfig_cases hconfig
    · rw [hwidth] at hw
      cases hw
    · have hcontent : e.entryHeader.contentSize = size := hsize rfl
      rw [DataEntry.sanitized_of_fixed hwidth]
      intro hnil
      have hlen := congrArg List.length hnil
      rw [List.takeD_length, hcontent] at hlen
      exact hpos.ne' hlen
  · rw [DataEntry.sanitized_of_sized hwidth]
    exact h hwidth

theorem sized_build {p : Packet} (hc : p.packetHeader.Consistent EnumDataTypes.typeOf)
    (hl : layoutOf EnumDataTypes.typeOf p.packetHeader.cmd = some .sized) :
    p.build.1 = bytes 2 p.packetHeader.cmd.toNat ++
      Layout.sized.sizeField (p.entries.length + p.dataSets.length) ++
        (p.entries.flatMap (fun e => e.build.1) ++ p.dataSets.flatMap (fun d => d.build.1)) := by
  obtain ⟨l, hlayout, hh⟩ := consistent_iff.mp hc
  rw [hl] at hlayout
  cases hlayout
  have hset : p.packetHeader.setSize (p.entries.length + p.dataSets.length) =
      header p.packetHeader.cmd .sized (p.entries.length + p.dataSets.length) := by
    rw [EntryHeader.setSize, hh]
    rfl
  simp only [Packet.build, hset, header_build]

/-- The header is one of the command, and what has a size field is not empty. -/
def Readable (e : DataEntry) : Prop :=
  e.entryHeader.Consistent EnumDataTypes.typeOf ∧ (e.entryHeader.sizeWidth ≠ 0 → e.data ≠ [])

theorem Plain.readable {p : Packet} (hp : Plain p) (h : ∀ e ∈ p.entries, Readable e) {e : DataEntry}
    (he : e ∈ p.entries) : ∃ w : Entry EnumDataTypes.typeOf,
      e.build = (w.encode, entryData w) ∧ w.Readable := by
  obtain ⟨hunknown, h6, hsize⟩ := hp.entries e he
  obtain ⟨hc, hdata⟩ := h e he
  obtain ⟨w, hw, hcmd, hpayload⟩ := entry_build ⟨hc, fun _ => hsize⟩
  refine ⟨w, hw, ?_, ?_, ?_⟩
  · rwa [hcmd]
  · rw [hpayload]
    exact sanitized_ne_nil hc hdata
  · rwa [hcmd]

theorem stores_all {p : Packet} (hp : Plain p) (beyond : Nat → UInt8)
    (h : ∀ e ∈ p.entries, Readable e) : StoresAll p beyond := by
  obtain ⟨cmd, hmade, hcmd⟩ := hp.made
  obtain ⟨hheader, hl, _⟩ := RoundTrip.made_header hmade hcmd
  obtain ⟨es, hlen, hbytes, hdata, hread⟩ := exists_sequence (fun e he => hp.readable h he)
  have hm := total_server p.build.1 beyond
  have hbuild := sized_build hheader hl
  have hcount := hp.count
  rw [hbytes, ← hlen] at hbuild
  rw [← hlen] at hcount
  have hparse : Triple (At (.server p.build.1 beyond) (bytes 2 p.packetHeader.cmd.toNat ++
      Layout.sized.sizeField (es.length + p.dataSets.length) ++
        (es.flatMap Entry.encode ++ (p.dataSets.flatMap (fun d => d.build.1) ++ []))))
      (Packet.ofInput (.server p.build.1 beyond))
      (fun q s => (q.entries = es.map entryData ∧
        q.dataSets = p.dataSets.map (fun d => d.build.2)) ∧ At (.server p.build.1 beyond) [] s)
      (fun _ _ => False) := by
    apply Triple.bind (consumes_header hm hl (fun _ => hcount) _)
    intro h
    apply Triple.pure_pre
    rintro rfl
    have hitems : (header p.packetHeader.cmd .sized (es.length + p.dataSets.length)).getSize =
        es.length + (p.dataSets.length + 0) := rfl
    rw [hitems]
    apply items_entries hm es hread
    apply items_dataSets p.dataSets (fun d hd => (hp.dataSets d hd).item p.build.1 beyond)
    refine (items_end (.inl rfl)).conseq (fun _ hs => hs) ?_ (fun _ _ hf => hf)
    rintro q s ⟨rfl, hs⟩
    exact ⟨⟨List.nil_append _, List.nil_append _⟩, hs⟩
  rw [List.append_nil, ← hbuild] at hparse
  have hstart : At (.server p.build.1 beyond) p.build.1 {} := ⟨Nat.zero_le _, rfl⟩
  obtain ⟨q, s, hrun, ⟨hqe, hqd⟩, hend⟩ := hparse.total hstart
  refine ⟨q, s, hrun, ?_, hqd, hend.length⟩
  rw [hqe, ← hdata]
  rfl

/-- A packet is read completely exactly when every entry has the header of its command and no entry
with a size field is empty: the parser takes an empty payload for a failed read. -/
theorem stores_all_iff {p : Packet} (hp : Plain p) (beyond : Nat → UInt8) :
    StoresAll p beyond ↔ ∀ e ∈ p.entries, Readable e := by
  constructor
  · rintro ⟨q, s, hrun, hentries, _⟩ e he
    have hmem : e.sanitized ∈ q.entries := by
      rw [hentries]
      exact List.mem_map_of_mem he
    obtain ⟨hfits, hvalid, _⟩ := (packet_fits hrun).entries _ hmem
    refine ⟨(EntryHeader.sanitize_consistent_iff _ _ _).mp hfits.1, fun hwidth hnil => ?_⟩
    rw [Rebuilding.entry_sanitized, DataEntry.sanitized_of_sized hwidth] at hvalid
    exact ((DataEntry.valid_iff _).mp hvalid).2 hnil
  · exact stores_all hp beyond

theorem table_roundTrips (w : Table EnumDataTypes.typeOf)
    (h6 : ∀ r ∈ w.records, ∀ e ∈ r.entries, EnumDataTypes.typeOf e.cmd ≠ some 6) :
    SetRoundTrips (dataSetData w) := by
  refine ⟨w.type_eq, fun input beyond => ?_⟩
  rw [Canonical.dataSetData_build]
  exact consumes_table (total_server input beyond) w (fun r hr e he h => absurd h (h6 r hr e he))

def emptyNames : Table EnumDataTypes.typeOf where
  cmd := CmdCode.dataSet
  records := [⟨[⟨CmdCode.playerName, .sized, [], by decide +kernel, Nat.two_pow_pos 16⟩], by decide⟩]
  type_eq := by decide +kernel
  fits := by decide

def namePacket (name : List UInt8) : Packet where
  packetHeader := ⟨CmdCode.applyOnIntervalFlag, 0, 2⟩
  entries := [RoundTrip.sysSiteId 1, RoundTrip.playerName name]
  dataSets := [dataSetData emptyNames]

theorem namePacket_plain {name : List UInt8} (hname : name.length < 2 ^ 16) :
    Plain (namePacket name) := by
  have hnames : SetRoundTrips (dataSetData emptyNames) := by
    apply table_roundTrips
    intro r hr e he
    rw [List.mem_singleton.mp hr] at he
    rw [List.mem_singleton.mp he]
    exact (RoundTrip.playerName_made []).2
  have hmade := (RoundTrip.intervalPacket_made [] []).append
    [RoundTrip.sysSiteId 1, RoundTrip.playerName name] [dataSetData emptyNames]
  constructor
  · exact ⟨_, hmade, .inl typeOf_applyOnIntervalFlag⟩
  · intro e he
    obtain rfl | rfl := List.mem_pair.mp he
    · exact ⟨by decide, (RoundTrip.sysSiteId_made 1).2, by decide⟩
    · exact ⟨by simp [RoundTrip.playerName, DataEntry.getCmd, EntryHeader.getCmd]; decide,
        (RoundTrip.playerName_made []).2, hname⟩
  · intro d hd
    rw [List.mem_singleton.mp hd]
    exact hnames
  · exact (by norm_num : 2 + 1 < 2 ^ 16)

theorem sysSiteId_readable (value : UInt32) : Readable (RoundTrip.sysSiteId value) :=
  ⟨⟨_, RoundTrip.config_sysSiteId, rfl, fun _ => rfl⟩, fun h => absurd rfl h⟩

theorem playerName_consistent (name : List UInt8) :
    (RoundTrip.playerName name).entryHeader.Consistent EnumDataTypes.typeOf :=
  ⟨_, RoundTrip.sized_config RoundTrip.typeOf_playerName (.inl rfl), rfl, nofun⟩

theorem stores_all_name :
    StoresAll (namePacket [0x41]) (fun _ => 0) ∧ ¬ StoresAll (namePacket []) (fun _ => 0) := by
  constructor
  · refine (stores_all_iff (namePacket_plain (by decide)) _).mpr (fun e he => ?_)
    obtain rfl | rfl := List.mem_pair.mp he
    · exact sysSiteId_readable 1
    · exact ⟨playerName_consistent [0x41], fun _ => by decide⟩
  · intro h
    have hread := (stores_all_iff (namePacket_plain (by decide)) _).mp h (RoundTrip.playerName [])
      (by simp [namePacket])
    exact hread.2 (by decide) rfl

/-- Of the packet only the number is stored, although the name in the array is read. -/
theorem some_packet_cut : ¬ ∀ (p : Packet) (beyond : Nat → UInt8), Plain p → StoresAll p beyond := by
  intro h
  obtain ⟨q, s, hrun, hentries, _⟩ := h (namePacket []) (fun _ => 0) (namePacket_plain (by decide))
  have hcut : (returned (Packet.ofInput (.server (namePacket []).build.1 (fun _ => 0))) {}).map
      Packet.entries = some [RoundTrip.sysSiteId 1] := by decide +kernel
  rw [returned, hrun] at hcut
  rw [Option.some.inj hcut] at hentries
  exact absurd hentries (by decide +kernel)

end GlobalAgenda.EmptyEntries
