import GlobalAgenda.Packet
import GlobalAgenda.WireFormat

namespace GlobalAgenda.Encoding

open EnumDataTypes ValueConverter Base.LittleEndian Wire

variable {typeOf : CmdCode → Option Nat}

def config : Layout → Nat × Nat
  | .sized => (2, 0)
  | .fixed size => (0, size)

/-- The header of a layout in the terms of `EntryHeader`. -/
def header (cmd : CmdCode) : Layout → Nat → EntryHeader
  | .sized, n => ⟨cmd, n, 2⟩
  | .fixed size, _ => ⟨cmd, size, 0⟩

theorem getConfig_of_layout {cmd : CmdCode} {l : Layout} (h : layoutOf typeOf cmd = some l) :
    EntryHeader.getConfig typeOf cmd = .ok (config l) := by
  obtain ⟨type, hle, ht⟩ := layoutOf_type h
  rw [layoutOf_known ht hle] at h
  cases h
  rw [EntryHeader.getConfig_known ht hle]
  split <;> rfl

theorem layout_of_getConfig {cmd : CmdCode} {c : Nat × Nat}
    (h : EntryHeader.getConfig typeOf cmd = .ok c) :
    ∃ l, layoutOf typeOf cmd = some l ∧ c = config l := by
  obtain ⟨type, ht, hle, _⟩ := EntryHeader.getConfig_ok h
  have hl := layoutOf_known ht hle
  have hc := getConfig_of_layout hl
  rw [h] at hc
  exact ⟨_, hl, Except.ok.inj hc⟩

theorem consistent_iff {h : EntryHeader} : h.Consistent typeOf ↔
    ∃ l, layoutOf typeOf h.cmd = some l ∧ h = header h.cmd l h.contentSize := by
  constructor
  · rintro ⟨c, hc, hw, hs⟩
    obtain ⟨l, hl, rfl⟩ := layout_of_getConfig hc
    refine ⟨l, hl, ?_⟩
    cases l with
    | sized => rw [header, ← show h.sizeWidth = 2 from hw]
    | fixed size =>
      have hsize : h.contentSize = size := hs rfl
      rw [header, ← show h.sizeWidth = 0 from hw, ← hsize]
  · rintro ⟨l, hl, hh⟩
    refine ⟨config l, getConfig_of_layout hl, ?_⟩
    rw [hh]
    cases l with
    | sized => exact ⟨rfl, nofun⟩
    | fixed size => exact ⟨rfl, fun _ => rfl⟩

theorem header_build (cmd : CmdCode) (l : Layout) (n : Nat) :
    (header cmd l n).build = bytes 2 cmd.toNat ++ l.sizeField n := by
  cases l with
  | sized => simp only [header, EntryHeader.build, fromUint16_eq, Layout.sizeField]
  | fixed size => simp only [header, EntryHeader.build, fromUint16_eq, Layout.sizeField]

def entryData (w : Entry typeOf) : DataEntry := ⟨header w.cmd w.layout w.payload.length, w.payload⟩

def arrayData (w : Record typeOf) : AnonymousArray := ⟨w.entries.map entryData⟩

def dataSetData (w : Table typeOf) : DataSet :=
  ⟨header w.cmd .sized w.records.length, w.records.map arrayData⟩

def packetData (w : Message typeOf) : Packet :=
  { packetHeader := header w.cmd w.layout w.count
    entries := w.entries.map entryData
    dataSets := w.tables.map dataSetData
    entryIter := some 0 }

theorem sanitized_eq {e : DataEntry} (h : e.Fits typeOf) :
    ∃ l, layoutOf typeOf e.entryHeader.cmd = some l ∧ l.Holds e.sanitized.data.length ∧
      e.sanitized = ⟨header e.entryHeader.cmd l e.sanitized.data.length, e.sanitized.data⟩ := by
  obtain ⟨hc, hsize⟩ := h
  obtain ⟨l, hl, hh⟩ := consistent_iff.mp hc
  refine ⟨l, hl, ?_⟩
  cases l with
  | sized =>
    have hwidth : e.entryHeader.sizeWidth = 2 := by rw [hh]; rfl
    have hne : e.entryHeader.sizeWidth ≠ 0 := by omega
    rw [DataEntry.sanitized_of_sized hne, header, ← hwidth]
    exact ⟨hsize hne, rfl⟩
  | fixed size =>
    have hwidth : e.entryHeader.sizeWidth = 0 := by rw [hh]; rfl
    have hcontent : e.entryHeader.contentSize = size := by rw [hh]; rfl
    rw [DataEntry.sanitized_of_fixed hwidth, header, ← hwidth, ← hcontent]
    exact ⟨List.takeD_length _ _ _, rfl⟩

theorem entry_build {e : DataEntry} (h : e.Fits typeOf) : ∃ w : Entry typeOf,
    e.build = (w.encode, entryData w) ∧ w.cmd = e.entryHeader.cmd ∧ w.payload = e.sanitized.data := by
  obtain ⟨l, hl, hfits, hsan⟩ := sanitized_eq h
  generalize e.sanitized.data = payload at hfits hsan
  refine ⟨⟨e.entryHeader.cmd, l, payload, hl, hfits⟩, ?_, rfl, ?_⟩
  · rw [DataEntry.build, hsan, header_build]
    rfl
  · rfl

section Lists

variable {O W : Type} {build : O → List UInt8 × O} {encode : W → List UInt8} {data : W → O}

theorem exists_sequence {P : W → Prop} {os : List O}
    (h : ∀ o ∈ os, ∃ w, build o = (encode w, data w) ∧ P w) :
    ∃ ws : List W, ws.length = os.length ∧ os.flatMap (fun o => (build o).1) = ws.flatMap encode ∧
      os.map (fun o => (build o).2) = ws.map data ∧ ∀ w ∈ ws, P w := by
  induction os with
  | nil => exact ⟨[], rfl, rfl, rfl, by simp⟩
  | cons o os ih =>
    obtain ⟨w, hw, hP⟩ := h o (by simp)
    obtain ⟨ws, hlen, hbytes, hdata, hPs⟩ := ih (fun o' ho => h o' (by simp [ho]))
    refine ⟨w :: ws, ?_, ?_, ?_, ?_⟩
    · rw [List.length_cons, List.length_cons, hlen]
    · rw [List.flatMap_cons, List.flatMap_cons, hbytes, hw]
    · rw [List.map_cons, List.map_cons, hdata, hw]
    · exact List.forall_mem_cons.mpr ⟨hP, hPs⟩

end Lists

theorem array_build {a : AnonymousArray} (h : a.Fits typeOf) : ∃ w : Record typeOf,
    a.build = (w.encode, arrayData w) := by
  obtain ⟨hcount, hentries⟩ := h
  have hparts : ∀ e ∈ a.entries, ∃ w : Entry typeOf, e.build = (w.encode, entryData w) ∧ True := by
    intro e he
    obtain ⟨w, hw, _⟩ := entry_build (hentries e he)
    exact ⟨w, hw, trivial⟩
  obtain ⟨ws, hlen, hbytes, hdata, _⟩ := exists_sequence hparts
  have hfits : ws.length < 2 ^ 16 := by rwa [hlen]
  refine ⟨⟨ws, hfits⟩, ?_⟩
  rw [AnonymousArray.build, fromUint16_eq, hbytes, hdata, ← hlen]
  rfl

theorem table_width {h : EntryHeader} (h6 : typeOf h.cmd = some 6) (hc : h.Consistent typeOf) :
    h.sizeWidth = 2 := by
  obtain ⟨l, hl, hh⟩ := consistent_iff.mp hc
  rw [layoutOf_table h6] at hl
  cases hl
  rw [hh]
  rfl

theorem dataSet_build {d : DataSet} (h : d.Fits typeOf) : ∃ w : Table typeOf,
    d.build = (w.encode, dataSetData w) := by
  obtain ⟨h6, hc, hcount, harrays⟩ := h
  have hparts : ∀ a ∈ d.anonArrays, ∃ w : Record typeOf, a.build = (w.encode, arrayData w) ∧ True := by
    intro a ha
    obtain ⟨w, hw⟩ := array_build (harrays a ha)
    exact ⟨w, hw, trivial⟩
  obtain ⟨ws, hlen, hbytes, hdata, _⟩ := exists_sequence hparts
  have hsan : d.sanitized = ⟨header d.entryHeader.cmd .sized ws.length, d.anonArrays⟩ := by
    have hwidth := table_width h6 hc
    rw [DataSet.sanitized, EntryHeader.sanitizePayloadSizeByType, if_pos (by omega), header,
      ← hwidth, hlen]
  have hfits : ws.length < 2 ^ 16 := by rwa [hlen]
  refine ⟨⟨d.entryHeader.cmd, ws, h6, hfits⟩, ?_⟩
  rw [DataSet.build, hsan, header_build, hbytes, hdata]
  rfl

/-- A packet that fits builds to the encoding of a message. If its header has a size field the
packet is left as that message; otherwise `setSize` has replaced the size of the command. -/
theorem packet_build {p : Packet} (h : p.Fits typeOf) : ∃ w : Message typeOf,
    p.build.1 = w.encode ∧ layoutOf typeOf p.packetHeader.cmd = some w.layout ∧
      p.build.2.dataSets = w.tables.map dataSetData ∧
      (w.layout = .sized → p.build.2 = { packetData w with entryIter := p.entryIter }) := by
  obtain ⟨hc, hcount, hentries, hsets⟩ := h
  have hparts : ∀ e ∈ p.entries, ∃ w : Entry typeOf,
      e.build = (w.encode, entryData w) ∧ w.Readable := by
    intro e he
    obtain ⟨hfits, hvalid, hset⟩ := hentries e he
    obtain ⟨w, hw, hcmd, hdata⟩ := entry_build hfits
    obtain ⟨hne, hpayload⟩ := (DataEntry.valid_iff _).mp hvalid
    refine ⟨w, hw, ?_, ?_, ?_⟩
    · rwa [hcmd, ← DataEntry.sanitized_cmd]
    · rwa [hdata]
    · rwa [hcmd]
  have hsetParts : ∀ d ∈ p.dataSets, ∃ w : Table typeOf,
      d.build = (w.encode, dataSetData w) ∧ True := by
    intro d hd
    obtain ⟨w, hw⟩ := dataSet_build (hsets d hd)
    exact ⟨w, hw, trivial⟩
  obtain ⟨es, helen, hebytes, hedata, hread⟩ := exists_sequence hparts
  obtain ⟨ts, htlen, htbytes, htdata, _⟩ := exists_sequence hsetParts
  obtain ⟨l, hl, hh⟩ := consistent_iff.mp hc
  have hcap : es.length + ts.length ≤ l.capacity := by
    rw [helen, htlen]
    refine hcount.trans (le_of_eq ?_)
    rw [Packet.capacity, hh]
    cases l <;> rfl
  have hbuild : (p.packetHeader.setSize (p.entries.length + p.dataSets.length)).build =
      bytes 2 p.packetHeader.cmd.toNat ++ l.sizeField (es.length + ts.length) := by
    rw [EntryHeader.setSize, hh, helen, htlen, ← header_build]
    cases l <;> rfl
  refine ⟨⟨p.packetHeader.cmd, l, es, ts, hl, hcap, hread⟩, ?_, hl, htdata, ?_⟩
  · simp only [Packet.build, hbuild, hebytes, htbytes]
    rfl
  · intro hsized
    have hheader : p.packetHeader.setSize (p.entries.length + p.dataSets.length) =
        header p.packetHeader.cmd l (es.length + ts.length) := by
      rw [EntryHeader.setSize, hh, helen, htlen, show l = .sized from hsized]
      rfl
    simp only [Packet.build, hheader, hedata, htdata]
    rfl

end GlobalAgenda.Encoding
