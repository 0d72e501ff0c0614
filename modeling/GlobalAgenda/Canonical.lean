import GlobalAgenda.Decoding
import GlobalAgenda.ReadSafety

namespace GlobalAgenda.Canonical

open EnumDataTypes ValueConverter Base.LittleEndian Base.Triples Wire Encoding Decoding ParserSpec
  ReadSafety Walk

variable {typeOf : CmdCode → Option Nat}

theorem entryData_build (w : Entry typeOf) : (entryData w).build = (w.encode, entryData w) := by
  have hsan : (entryData w).sanitized = entryData w := by
    cases hl : w.layout with
    | sized =>
      have hwidth : (entryData w).entryHeader.sizeWidth ≠ 0 := by simp [entryData, hl, header]
      rw [DataEntry.sanitized_of_sized hwidth]
      simp [entryData, hl, header]
    | fixed size =>
      have hwidth : (entryData w).entryHeader.sizeWidth = 0 := by simp [entryData, hl, header]
      have hcontent : (entryData w).entryHeader.contentSize = w.payload.length :=
        header_contentSize w.fits
      have htake : w.payload.takeD w.payload.length 0 = w.payload := by
        rw [List.takeD_eq_take _ le_rfl, List.take_length]
      rw [DataEntry.sanitized_of_fixed hwidth, hcontent]
      exact congrArg (DataEntry.mk _) htake
  rw [DataEntry.build, hsan, entryData, header_build]
  rfl

theorem arrayData_build (w : Record typeOf) : (arrayData w).build = (w.encode, arrayData w) := by
  have hbytes : (w.entries.map entryData).flatMap (fun e => e.build.1) =
      w.entries.flatMap Entry.encode := by
    simp only [List.flatMap_map, entryData_build]
  have hdata : (w.entries.map entryData).map (fun e => e.build.2) = w.entries.map entryData := by
    simp only [List.map_map, Function.comp_def, entryData_build]
  rw [AnonymousArray.build, arrayData, hbytes, hdata, fromUint16_eq, List.length_map]
  rfl

theorem dataSetData_build (w : Table typeOf) : (dataSetData w).build = (w.encode, dataSetData w) := by
  have hsan : (dataSetData w).sanitized = dataSetData w := by
    rw [DataSet.sanitized, EntryHeader.sanitizePayloadSizeByType]
    simp [dataSetData, header]
  have hbytes : (w.records.map arrayData).flatMap (fun a => a.build.1) =
      w.records.flatMap Record.encode := by
    simp only [List.flatMap_map, arrayData_build]
  have hdata : (w.records.map arrayData).map (fun a => a.build.2) = w.records.map arrayData := by
    simp only [List.map_map, Function.comp_def, arrayData_build]
  rw [DataSet.build, hsan, dataSetData, header_build, hbytes, hdata]
  rfl

theorem packetData_build (w : Message typeOf) : (packetData w).build.1 = w.encode := by
  have hentries : (w.entries.map entryData).flatMap (fun e => e.build.1) =
      w.entries.flatMap Entry.encode := by
    simp only [List.flatMap_map, entryData_build]
  have htables : (w.tables.map dataSetData).flatMap (fun d => d.build.1) =
      w.tables.flatMap Table.encode := by
    simp only [List.flatMap_map, dataSetData_build]
  have hheader : ((packetData w).packetHeader.setSize
      ((packetData w).entries.length + (packetData w).dataSets.length)).build =
      bytes 2 w.cmd.toNat ++ w.layout.sizeField w.count := by
    rw [← header_build]
    simp only [packetData, EntryHeader.setSize, List.length_map]
    cases w.layout <;> rfl
  simp only [Packet.build, hheader]
  rw [packetData, hentries, htables]
  rfl

/-- `m_parse` comes to its end with the whole input read. -/
structure Accepts (input : List UInt8) (beyond : Nat → UInt8) (p : Packet) : Prop where
  returns : returned (Packet.ofInput (.server input beyond)) {} = some p
  completes : p.entryIter ≠ none
  atEnd : (final (Packet.ofInput (.server input beyond)) {}).it = input.length

/-- An accepted packet builds to the bytes it was read from exactly when these encode a message. -/
theorem build_parse_iff {input : List UInt8} {beyond : Nat → UInt8} {p : Packet}
    (h : Accepts input beyond p) :
    p.build.1 = input ↔ ∃ w : Message EnumDataTypes.typeOf, w.encode = input := by
  have hrun := returned_eq_some.mp h.returns
  constructor
  · intro hbuild
    obtain ⟨w, hw, _⟩ := packet_build (packet_fits hrun)
    exact ⟨w, hw.symm.trans hbuild⟩
  · rintro ⟨w, rfl⟩
    obtain rfl := Triple.ok (reads_encoded beyond w rfl (excused_any (.server w.encode beyond) w)) rfl hrun
    exact packetData_build w

theorem build_parse_names :
    (Packet.build ⟨⟨0x3E, 2, 2⟩, [⟨⟨0x3C5, 1, 2⟩, [0x41]⟩],
        [⟨⟨0x10C, 1, 2⟩, [⟨[⟨⟨0x3C5, 0, 2⟩, []⟩, ⟨⟨0x3C5, 2, 2⟩, [0x42, 0x43]⟩]⟩]⟩], some 0⟩).1 =
      [0x3E, 0, 2, 0, 0xC5, 3, 1, 0, 0x41, 0x0C, 1, 1, 0, 2, 0, 0xC5, 3, 0, 0,
        0xC5, 3, 2, 0, 0x42, 0x43] ↔
      ∃ w : Message EnumDataTypes.typeOf, w.encode = [0x3E, 0, 2, 0, 0xC5, 3, 1, 0, 0x41,
        0x0C, 1, 1, 0, 2, 0, 0xC5, 3, 0, 0, 0xC5, 3, 2, 0, 0x42, 0x43] :=
  have h : Accepts _ (fun _ => 0) _ := ⟨by decide +kernel, by decide, by decide +kernel⟩
  build_parse_iff h

/-- A packet that announces five items and has none is accepted and builds without them. -/
theorem some_accepted_differs : ¬ ∀ (input : List UInt8) (beyond : Nat → UInt8) (p : Packet),
    CodesInside input (PacketComes (.server input beyond) 0) →
      Accepts input beyond p → p.build.1 = input := by
  intro h
  have haccepts : Accepts [0x3E, 0, 5, 0] (fun _ => 0) ⟨⟨0x3E, 5, 2⟩, [], [], some 0⟩ :=
    ⟨by decide +kernel, by decide, by decide +kernel⟩
  refine absurd (h _ _ _ ((packet_misses_iff _ _).mp (fun f hf => ?_)) haccepts) (by decide +kernel)
  have hruns : raised (Packet.ofInput (.server [0x3E, 0, 5, 0] (fun _ => 0))) {} = none := by
    decide +kernel
  rw [hruns] at hf
  cases hf

end GlobalAgenda.Canonical
