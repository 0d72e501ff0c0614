import GlobalAgenda.Base.Runs
import GlobalAgenda.Construction
import GlobalAgenda.Decoding

namespace GlobalAgenda.HeaderInvariant

open EnumDataTypes ValueConverter Base.Triples Base.Runs Encoding Decoding ParserSpec

structure Source where
  input : List UInt8
  beyond : Nat → UInt8
  it : Nat
  le : it ≤ input.length

namespace Source

def machine (src : Source) : Machine := .server src.input src.beyond

def parse {α : Type} (x : Machine → Decoder α) (src : Source) : Except Fault α :=
  outcome (x src.machine) { it := src.it }

end Source

/-- The objects that have been constructed, as they are now. -/
structure World where
  headers : List EntryHeader := []
  entries : List DataEntry := []
  arrays : List AnonymousArray := []
  dataSets : List DataSet := []
  packets : List Packet := []

/-- The constructors and functions that set a header. An object is named by its number among those
of its class. The typed constructors of `DataEntry` differ from `entryOfCmd` only in the data. -/
inductive Call
  | header
  | headerOfCmd (cmd : CmdCode) (size : Nat)
  | headerOfInput (src : Source)
  | setSize (header size : Nat)
  | sanitize (header : Nat) (payload : List UInt8)
  | entry
  | entryOfData (data : List UInt8)
  | entryOfCmd (cmd : CmdCode) (data : List UInt8)
  | entryOfInput (src : Source)
  | entryOfHeader (header : Nat) (src : Source)
  | buildEntry (entry : Nat)
  | array
  | arrayOfInput (src : Source)
  | arrayOfEntries (d1 d2 : Nat)
  | appendToArray (array entry : Nat)
  | buildArray (array : Nat)
  | dataSet
  | dataSetOfCmd (cmd : CmdCode) (arrays : List Nat)
  | dataSetOfInput (src : Source)
  | dataSetOfHeader (header : Nat) (src : Source)
  | buildDataSet (dataSet : Nat)
  | packet
  | packetOfCmd (cmd : CmdCode)
  | packetOfInput (src : Source)
  | appendEntry (packet entry : Nat)
  | appendDataSet (packet dataSet : Nat)
  | buildPacket (packet : Nat)

namespace World

def addHeader (w : World) (h : EntryHeader) : World := { w with headers := w.headers ++ [h] }

def addEntry (w : World) (e : DataEntry) : World := { w with entries := w.entries ++ [e] }

def addArray (w : World) (a : AnonymousArray) : World := { w with arrays := w.arrays ++ [a] }

def addDataSet (w : World) (d : DataSet) : World := { w with dataSets := w.dataSets ++ [d] }

def addPacket (w : World) (p : Packet) : World := { w with packets := w.packets ++ [p] }

/-- A call on an object that is not there has no effect. -/
def withObject {α : Type} (w : World) (objects : List α) (number : Nat)
    (call : α → Except Fault World) : Except Fault World :=
  match objects[number]? with
  | some object => call object
  | none => .ok w

def perform (w : World) : Call → Except Fault World
  | .header => .ok (w.addHeader {})
  | .headerOfCmd cmd size => (EntryHeader.ofCmd EnumDataTypes.typeOf cmd size).map w.addHeader
  | .headerOfInput src => (src.parse EntryHeader.ofInput).map w.addHeader
  | .setSize header size => .ok { w with headers := w.headers.modify header (·.setSize size) }
  | .sanitize header payload =>
    .ok { w with headers := w.headers.modify header (fun h =>
      (h.sanitizePayloadSizeByType payload 0).1) }
  | .entry => .ok (w.addEntry {})
  | .entryOfData _ => .ok (w.addEntry {})
  | .entryOfCmd cmd data => (DataEntry.ofCmd EnumDataTypes.typeOf cmd data).map w.addEntry
  | .entryOfInput src => (src.parse DataEntry.ofInput).map w.addEntry
  | .entryOfHeader header src => w.withObject w.headers header (fun h =>
    (src.parse (fun m => DataEntry.ofHeader m h)).map w.addEntry)
  | .buildEntry entry => .ok { w with entries := w.entries.modify entry (·.build.2) }
  | .array => .ok (w.addArray {})
  | .arrayOfInput src => (src.parse AnonymousArray.ofInput).map w.addArray
  | .arrayOfEntries d1 d2 => w.withObject w.entries d1 (fun e1 => w.withObject w.entries d2 (fun e2 =>
    .ok (w.addArray (.ofEntries e1 e2))))
  | .appendToArray array entry => w.withObject w.entries entry (fun e =>
    .ok { w with arrays := w.arrays.modify array (·.appendEntry e) })
  | .buildArray array => .ok { w with arrays := w.arrays.modify array (·.build.2) }
  | .dataSet => .ok (w.addDataSet {})
  | .dataSetOfCmd cmd arrays =>
    (DataSet.ofCmd EnumDataTypes.typeOf cmd (arrays.filterMap (w.arrays[·]?))).map w.addDataSet
  | .dataSetOfInput src => (src.parse DataSet.ofInput).map w.addDataSet
  | .dataSetOfHeader header src => w.withObject w.headers header (fun h =>
    (src.parse (fun m => DataSet.ofHeader m h)).map w.addDataSet)
  | .buildDataSet dataSet => .ok { w with dataSets := w.dataSets.modify dataSet (·.build.2) }
  | .packet => .ok (w.addPacket {})
  | .packetOfCmd cmd => (Packet.ofCmd EnumDataTypes.typeOf cmd).map w.addPacket
  | .packetOfInput src => (src.parse Packet.ofInput).map w.addPacket
  | .appendEntry packet entry => w.withObject w.entries entry (fun e =>
    .ok { w with packets := w.packets.modify packet (·.appendEntry e) })
  | .appendDataSet packet dataSet => w.withObject w.dataSets dataSet (fun d =>
    .ok { w with packets := w.packets.modify packet (·.appendDataSet d) })
  | .buildPacket packet => .ok { w with packets := w.packets.modify packet (·.build.2) }

theorem withObject_ok {α : Type} {w w' : World} {objects : List α} {number : Nat}
    {call : α → Except Fault World} (h : w.withObject objects number call = .ok w') :
    w' = w ∨ ∃ object ∈ objects, call object = .ok w' := by
  rw [withObject] at h
  cases hobject : objects[number]? with
  | none =>
    rw [hobject] at h
    cases h
    exact .inl rfl
  | some object =>
    rw [hobject] at h
    exact .inr ⟨object, List.mem_of_getElem? hobject, h⟩

/-- No header is left without the configuration of a command, and the size of a header without a
size field is not replaced by another one. -/
def Proper (w : World) : Call → Prop
  | .header | .entry | .entryOfData _ | .dataSet | .packet => False
  | .setSize header size =>
    ∀ h, w.headers[header]? = some h → h.sizeWidth = 0 → size = h.contentSize
  | .buildPacket packet => ∀ p, w.packets[packet]? = some p → p.packetHeader.sizeWidth = 0 →
    p.entries.length + p.dataSets.length = p.packetHeader.contentSize
  | _ => True

end World

/-- The header has the size field and, without one, the size of its command, and is read back from
its bytes, whatever follows them. -/
def Represents (h : EntryHeader) : Prop :=
  h.Consistent EnumDataTypes.typeOf ∧ (h.contentSize < 2 ^ 16 → ∀ rest beyond,
    ∃ t, EntryHeader.ofInput (.server (h.build ++ rest) beyond) {} = .ok h t ∧
      t.it = h.build.length)

theorem represents_eq : Represents = EntryHeader.Consistent EnumDataTypes.typeOf := by
  funext h
  apply propext
  constructor
  · exact fun hr => hr.1
  · intro hc
    refine ⟨hc, fun hsize rest beyond => ?_⟩
    obtain ⟨l, hl, hh⟩ := consistent_iff.mp hc
    have hbuild := header_build h.cmd l h.contentSize
    rw [← hh] at hbuild
    obtain ⟨t, hrun, hit⟩ := header_read hl hsize rest (congrArg (· ++ rest) hbuild) beyond
    rw [← hh] at hrun
    rw [List.length_append] at hit
    exact ⟨t, hrun, by omega⟩

section Parts

variable (R : EntryHeader → Prop)

def InArray (a : AnonymousArray) : Prop := ∀ e ∈ a.entries, R e.entryHeader

structure InDataSet (d : DataSet) : Prop where
  header : R d.entryHeader
  arrays : ∀ a ∈ d.anonArrays, InArray R a

structure InPacket (p : Packet) : Prop where
  header : R p.packetHeader
  entries : ∀ e ∈ p.entries, R e.entryHeader
  dataSets : ∀ d ∈ p.dataSets, InDataSet R d

structure InWorld (w : World) : Prop where
  headers : ∀ h ∈ w.headers, R h
  entries : ∀ e ∈ w.entries, R e.entryHeader
  arrays : ∀ a ∈ w.arrays, InArray R a
  dataSets : ∀ d ∈ w.dataSets, InDataSet R d
  packets : ∀ p ∈ w.packets, InPacket R p

end Parts

section Lists

variable {α : Type} {P : α → Prop} {xs : List α}

theorem forall_snoc (h : ∀ x ∈ xs, P x) (y : α) : (∀ x ∈ xs ++ [y], P x) ↔ P y := by
  constructor
  · exact fun hall => hall y (by simp)
  · intro hy x hx
    rcases List.mem_append.mp hx with hmem | hmem
    · exact h x hmem
    · rw [List.mem_singleton.mp hmem]
      exact hy

theorem forall_modify (h : ∀ x ∈ xs, P x) (k : Nat) (f : α → α) :
    (∀ x ∈ xs.modify k f, P x) ↔ ∀ y, xs[k]? = some y → P (f y) := by
  constructor
  · intro hall y hy
    apply hall
    rw [List.mem_iff_getElem?]
    exact ⟨k, by rw [List.getElem?_modify_eq, hy]; rfl⟩
  · intro hy x hx
    obtain ⟨j, hj⟩ := List.mem_iff_getElem?.mp hx
    by_cases hkj : k = j
    · subst hkj
      rw [List.getElem?_modify_eq] at hj
      obtain ⟨y, hget, rfl⟩ := Option.map_eq_some_iff.mp hj
      exact hy y hget
    · rw [List.getElem?_modify_ne _ _ hkj] at hj
      exact h x (List.mem_of_getElem? hj)

end Lists

section Worlds

variable {R : EntryHeader → Prop} {w : World} (hw : InWorld R w)

include hw

theorem addHeader_iff (h : EntryHeader) : InWorld R (w.addHeader h) ↔ R h :=
  ⟨fun hadd => (forall_snoc hw.headers h).mp hadd.headers,
    fun hh => { hw with headers := (forall_snoc hw.headers h).mpr hh }⟩

theorem addEntry_iff (e : DataEntry) : InWorld R (w.addEntry e) ↔ R e.entryHeader :=
  ⟨fun hadd => (forall_snoc hw.entries e).mp hadd.entries,
    fun he => { hw with entries := (forall_snoc hw.entries e).mpr he }⟩

theorem addArray_iff (a : AnonymousArray) : InWorld R (w.addArray a) ↔ InArray R a :=
  ⟨fun hadd => (forall_snoc hw.arrays a).mp hadd.arrays,
    fun ha => { hw with arrays := (forall_snoc hw.arrays a).mpr ha }⟩

theorem addDataSet_iff (d : DataSet) : InWorld R (w.addDataSet d) ↔ InDataSet R d :=
  ⟨fun hadd => (forall_snoc hw.dataSets d).mp hadd.dataSets,
    fun hd => { hw with dataSets := (forall_snoc hw.dataSets d).mpr hd }⟩

theorem addPacket_iff (p : Packet) : InWorld R (w.addPacket p) ↔ InPacket R p :=
  ⟨fun hadd => (forall_snoc hw.packets p).mp hadd.packets,
    fun hp => { hw with packets := (forall_snoc hw.packets p).mpr hp }⟩

theorem modifyHeaders_iff (k : Nat) (f : EntryHeader → EntryHeader) :
    InWorld R { w with headers := w.headers.modify k f } ↔
      ∀ h, w.headers[k]? = some h → R (f h) :=
  ⟨fun hmod => (forall_modify hw.headers k f).mp hmod.headers,
    fun hf => { hw with headers := (forall_modify hw.headers k f).mpr hf }⟩

theorem modifyEntries {k : Nat} {f : DataEntry → DataEntry}
    (hf : ∀ e, R e.entryHeader → R (f e).entryHeader) :
    InWorld R { w with entries := w.entries.modify k f } :=
  { hw with
    entries := (forall_modify hw.entries k f).mpr
      (fun e he => hf e (hw.entries e (List.mem_of_getElem? he))) }

theorem modifyArrays {k : Nat} {f : AnonymousArray → AnonymousArray}
    (hf : ∀ a, InArray R a → InArray R (f a)) :
    InWorld R { w with arrays := w.arrays.modify k f } :=
  { hw with
    arrays := (forall_modify hw.arrays k f).mpr
      (fun a ha => hf a (hw.arrays a (List.mem_of_getElem? ha))) }

theorem modifyDataSets {k : Nat} {f : DataSet → DataSet}
    (hf : ∀ d, InDataSet R d → InDataSet R (f d)) :
    InWorld R { w with dataSets := w.dataSets.modify k f } :=
  { hw with
    dataSets := (forall_modify hw.dataSets k f).mpr
      (fun d hd => hf d (hw.dataSets d (List.mem_of_getElem? hd))) }

theorem modifyPackets_iff (k : Nat) (f : Packet → Packet) :
    InWorld R { w with packets := w.packets.modify k f } ↔
      ∀ p, w.packets[k]? = some p → InPacket R (f p) :=
  ⟨fun hmod => (forall_modify hw.packets k f).mp hmod.packets,
    fun hf => { hw with packets := (forall_modify hw.packets k f).mpr hf }⟩

end Worlds

abbrev Configured (h : EntryHeader) : Prop := h.Consistent EnumDataTypes.typeOf

theorem default_not_configured : ¬ Configured {} := by
  rintro ⟨c, hc, hw, _⟩
  rw [EntryHeader.getConfig_known typeOf_unknown (by norm_num)] at hc
  cases hc
  cases hw

theorem setSize_configured_iff {h : EntryHeader} (hc : Configured h) (size : Nat) :
    Configured (h.setSize size) ↔ (h.sizeWidth = 0 → size = h.contentSize) := by
  obtain ⟨c, hconfig, hw, hs⟩ := hc
  constructor
  · rintro ⟨c', hconfig', hw', hs'⟩ hzero
    change EntryHeader.getConfig _ h.cmd = _ at hconfig'
    rw [hconfig] at hconfig'
    cases hconfig'
    exact (hs' (hw.symm.trans hzero)).trans (hs (hw.symm.trans hzero)).symm
  · intro hsize
    exact ⟨c, hconfig, hw, fun hzero => (hsize (hw.trans hzero)).trans (hs hzero)⟩

theorem build_entry {e : DataEntry} (h : Configured e.entryHeader) :
    Configured e.build.2.entryHeader :=
  (EntryHeader.sanitize_consistent_iff _ _ _).mpr h

theorem build_array {a : AnonymousArray} (h : InArray Configured a) :
    InArray Configured a.build.2 := by
  intro e he
  obtain ⟨e', he', rfl⟩ := List.mem_map.mp he
  exact build_entry (h e' he')

theorem sanitized_arrays {d : DataSet} (h : ∀ a ∈ d.anonArrays, InArray Configured a) :
    ∀ a ∈ d.sanitized.anonArrays, InArray Configured a := by
  have htake : ∀ (n : Nat) (as : List AnonymousArray), (∀ a ∈ as, InArray Configured a) →
      ∀ a ∈ as.takeD n {}, InArray Configured a := by
    intro n
    induction n with
    | zero => simp
    | succ n ih =>
      intro as has
      cases as with
      | nil =>
        exact List.forall_mem_cons.mpr ⟨fun e he => absurd he (List.not_mem_nil), ih [] (by simp)⟩
      | cons a as =>
        exact List.forall_mem_cons.mpr
          ⟨has a (by simp), ih as (fun b hb => has b (by simp [hb]))⟩
  rw [DataSet.sanitized, EntryHeader.sanitizePayloadSizeByType]
  split
  · exact h
  · exact htake _ _ h

theorem build_dataSet {d : DataSet} (h : InDataSet Configured d) :
    InDataSet Configured d.build.2 := by
  refine ⟨(EntryHeader.sanitize_consistent_iff _ _ _).mpr h.header, fun a ha => ?_⟩
  obtain ⟨a', ha', rfl⟩ := List.mem_map.mp ha
  exact build_array (sanitized_arrays h.arrays a' ha')

theorem build_packet_iff {p : Packet} (h : InPacket Configured p) : InPacket Configured p.build.2 ↔
    (p.packetHeader.sizeWidth = 0 →
      p.entries.length + p.dataSets.length = p.packetHeader.contentSize) := by
  constructor
  · intro hbuild
    exact (setSize_configured_iff h.header _).mp hbuild.header
  · intro hsize
    refine ⟨(setSize_configured_iff h.header _).mpr hsize, fun e he => ?_, fun d hd => ?_⟩
    · obtain ⟨e', he', rfl⟩ := List.mem_map.mp he
      exact build_entry (h.entries e' he')
    · obtain ⟨d', hd', rfl⟩ := List.mem_map.mp hd
      exact build_dataSet (h.dataSets d' hd')

theorem append_entry {p : Packet} {e : DataEntry} (h : InPacket Configured p)
    (he : Configured e.entryHeader) : InPacket Configured (p.appendEntry e) :=
  ⟨h.header, (forall_snoc h.entries e).mpr he, h.dataSets⟩

theorem append_dataSet {p : Packet} {d : DataSet} (h : InPacket Configured p)
    (hd : InDataSet Configured d) : InPacket Configured (p.appendDataSet d) :=
  ⟨h.header, h.entries, (forall_snoc h.dataSets d).mpr hd⟩

section Parsing

variable {src : Source}

theorem Source.parse_ok {α : Type} {x : Machine → Decoder α} {a : α} (h : src.parse x = .ok a) :
    ∃ t, x src.machine { it := src.it } = .ok a t :=
  ⟨_, outcome_eq_ok.mp h⟩

theorem parse_header {h : EntryHeader} (hh : src.parse EntryHeader.ofInput = .ok h) :
    Configured h := by
  obtain ⟨t, hrun⟩ := Source.parse_ok hh
  exact (EntryHeader.ofInput_ok hrun).2

theorem parse_entry {e : DataEntry} (he : src.parse DataEntry.ofInput = .ok e) :
    Configured e.entryHeader := by
  obtain ⟨t, hrun⟩ := Source.parse_ok he
  exact ((runs_entry src.le).ok hrun).1.fits.1

theorem parse_entryOfHeader {h : EntryHeader} (hh : Configured h) {e : DataEntry}
    (he : src.parse (fun m => DataEntry.ofHeader m h) = .ok e) : Configured e.entryHeader := by
  obtain ⟨t, hrun⟩ := Source.parse_ok he
  rw [DataEntry.ofHeader_header hrun]
  exact hh

theorem inArray_of_fits {a : AnonymousArray} (h : a.Fits EnumDataTypes.typeOf) :
    InArray Configured a :=
  fun e he => (h.2 e he).1

theorem parse_array {a : AnonymousArray} (ha : src.parse AnonymousArray.ofInput = .ok a) :
    InArray Configured a := by
  obtain ⟨t, hrun⟩ := Source.parse_ok ha
  exact inArray_of_fits ((runs_array src.le).ok hrun).1.fits

theorem arrays_configured {m : Machine} (hm : m.typeOf = EnumDataTypes.typeOf) {i j : Nat}
    {as : List AnonymousArray} (h : Base.Chains.Chain (ArrayAt m) i as j) :
    ∀ a ∈ as, InArray Configured a := by
  refine h.forall (fun _ a _ ha => inArray_of_fits ?_)
  rw [← hm]
  exact ha.fits

theorem parse_dataSetOfHeader {h : EntryHeader} (hh : Configured h) {d : DataSet}
    (hd : src.parse (fun m => DataSet.ofHeader m h) = .ok d) : InDataSet Configured d := by
  obtain ⟨t, hrun⟩ := Source.parse_ok hd
  obtain ⟨⟨rfl, harrays, _⟩, _⟩ := (runs_arrays src.le h).ok hrun
  exact ⟨hh, arrays_configured rfl harrays⟩

theorem parse_dataSet {d : DataSet} (hd : src.parse DataSet.ofInput = .ok d) :
    InDataSet Configured d := by
  obtain ⟨t, hrun⟩ := Source.parse_ok hd
  obtain ⟨⟨k, hh, harrays, _⟩, _⟩ := (runs_headerAndArrays src.le).ok hrun
  exact ⟨hh.consistent, arrays_configured rfl harrays⟩

theorem parse_packet {p : Packet} (hp : src.parse Packet.ofInput = .ok p) :
    InPacket Configured p := by
  obtain ⟨t, hrun⟩ := Source.parse_ok hp
  have hfits : p.Fits EnumDataTypes.typeOf := ((runs_packet src.le).ok hrun).1.1.fits
  refine ⟨hfits.header, fun e he => (hfits.entries e he).1.1, fun d hd => ?_⟩
  obtain ⟨_, hheader, _, harrays⟩ := hfits.dataSets d hd
  exact ⟨hheader, fun a ha => inArray_of_fits (harrays a ha)⟩

end Parsing

theorem perform_iff {w w' : World} {c : Call} (hw : InWorld Configured w)
    (h : w.perform c = .ok w') : InWorld Configured w' ↔ w.Proper c := by
  cases c with
  | header =>
    cases h
    exact (addHeader_iff hw _).trans (iff_of_false default_not_configured id)
  | headerOfCmd cmd size =>
    obtain ⟨a, ha, rfl⟩ := except_map_ok h
    exact iff_of_true ((addHeader_iff hw a).mpr (EntryHeader.ofCmd_consistent ha)) trivial
  | headerOfInput src =>
    obtain ⟨a, ha, rfl⟩ := except_map_ok h
    exact iff_of_true ((addHeader_iff hw a).mpr (parse_header ha)) trivial
  | setSize k size =>
    cases h
    rw [modifyHeaders_iff hw]
    exact forall₂_congr (fun h hh =>
      setSize_configured_iff (hw.headers h (List.mem_of_getElem? hh)) size)
  | sanitize k payload =>
    cases h
    refine iff_of_true ((modifyHeaders_iff hw _ _).mpr (fun h hh => ?_)) trivial
    exact (EntryHeader.sanitize_consistent_iff _ _ _).mpr (hw.headers h (List.mem_of_getElem? hh))
  | entry | entryOfData _ =>
    cases h
    exact (addEntry_iff hw _).trans (iff_of_false default_not_configured id)
  | entryOfCmd cmd data =>
    obtain ⟨a, ha, rfl⟩ := except_map_ok h
    obtain ⟨header, hh, ha⟩ := except_bind_ok ha
    cases ha
    exact iff_of_true ((addEntry_iff hw _).mpr (EntryHeader.ofCmd_consistent hh)) trivial
  | entryOfInput src =>
    obtain ⟨a, ha, rfl⟩ := except_map_ok h
    exact iff_of_true ((addEntry_iff hw a).mpr (parse_entry ha)) trivial
  | entryOfHeader k src =>
    refine iff_of_true ?_ trivial
    obtain rfl | ⟨header, hmem, h⟩ := World.withObject_ok h
    · exact hw
    · obtain ⟨a, ha, rfl⟩ := except_map_ok h
      exact (addEntry_iff hw a).mpr (parse_entryOfHeader (hw.headers header hmem) ha)
  | buildEntry k =>
    cases h
    exact iff_of_true (modifyEntries hw (fun _ he => build_entry he)) trivial
  | array =>
    cases h
    exact iff_of_true ((addArray_iff hw _).mpr (fun e he => absurd he List.not_mem_nil)) trivial
  | arrayOfInput src =>
    obtain ⟨a, ha, rfl⟩ := except_map_ok h
    exact iff_of_true ((addArray_iff hw a).mpr (parse_array ha)) trivial
  | arrayOfEntries k l =>
    refine iff_of_true ?_ trivial
    obtain rfl | ⟨e, hmem, h⟩ := World.withObject_ok h
    · exact hw
    obtain rfl | ⟨e', hmem', h⟩ := World.withObject_ok h
    · exact hw
    · cases h
      refine (addArray_iff hw _).mpr (fun d hd => ?_)
      obtain rfl | rfl := List.mem_pair.mp hd
      · exact hw.entries _ hmem
      · exact hw.entries _ hmem'
  | appendToArray k l =>
    refine iff_of_true ?_ trivial
    obtain rfl | ⟨e, hmem, h⟩ := World.withObject_ok h
    · exact hw
    · cases h
      exact modifyArrays hw (fun a ha => (forall_snoc ha e).mpr (hw.entries e hmem))
  | buildArray k =>
    cases h
    exact iff_of_true (modifyArrays hw (fun _ ha => build_array ha)) trivial
  | dataSet =>
    cases h
    refine (addDataSet_iff hw _).trans (iff_of_false (fun hd => ?_) id)
    exact default_not_configured hd.header
  | dataSetOfCmd cmd arrays =>
    obtain ⟨d, hd, rfl⟩ := except_map_ok h
    obtain ⟨header, hh, hd⟩ := except_bind_ok hd
    cases hd
    refine iff_of_true ((addDataSet_iff hw _).mpr ⟨EntryHeader.ofCmd_consistent hh, ?_⟩) trivial
    intro a ha
    obtain ⟨k, _, hk⟩ := List.mem_filterMap.mp ha
    exact hw.arrays a (List.mem_of_getElem? hk)
  | dataSetOfInput src =>
    obtain ⟨d, hd, rfl⟩ := except_map_ok h
    exact iff_of_true ((addDataSet_iff hw d).mpr (parse_dataSet hd)) trivial
  | dataSetOfHeader k src =>
    refine iff_of_true ?_ trivial
    obtain rfl | ⟨header, hmem, h⟩ := World.withObject_ok h
    · exact hw
    · obtain ⟨d, hd, rfl⟩ := except_map_ok h
      exact (addDataSet_iff hw d).mpr (parse_dataSetOfHeader (hw.headers header hmem) hd)
  | buildDataSet k =>
    cases h
    exact iff_of_true (modifyDataSets hw (fun _ hd => build_dataSet hd)) trivial
  | packet =>
    cases h
    refine (addPacket_iff hw _).trans (iff_of_false (fun hp => ?_) id)
    exact default_not_configured hp.header
  | packetOfCmd cmd =>
    obtain ⟨p, hp, rfl⟩ := except_map_ok h
    obtain ⟨header, hh, hp⟩ := except_bind_ok hp
    cases hp
    have hheader := EntryHeader.ofCmd_consistent hh
    exact iff_of_true ((addPacket_iff hw _).mpr ⟨hheader, by simp, by simp⟩) trivial
  | packetOfInput src =>
    obtain ⟨p, hp, rfl⟩ := except_map_ok h
    exact iff_of_true ((addPacket_iff hw p).mpr (parse_packet hp)) trivial
  | appendEntry k l =>
    refine iff_of_true ?_ trivial
    obtain rfl | ⟨e, hmem, h⟩ := World.withObject_ok h
    · exact hw
    · cases h
      exact (modifyPackets_iff hw _ _).mpr
        (fun p hp => append_entry (hw.packets p (List.mem_of_getElem? hp)) (hw.entries e hmem))
  | appendDataSet k l =>
    refine iff_of_true ?_ trivial
    obtain rfl | ⟨d, hmem, h⟩ := World.withObject_ok h
    · exact hw
    · cases h
      exact (modifyPackets_iff hw _ _).mpr
        (fun p hp => append_dataSet (hw.packets p (List.mem_of_getElem? hp)) (hw.dataSets d hmem))
  | buildPacket k =>
    cases h
    rw [modifyPackets_iff hw]
    exact forall₂_congr (fun p hp => build_packet_iff (hw.packets p (List.mem_of_getElem? hp)))

theorem error_proper {w : World} {c : Call} {f : Fault} (h : w.perform c = .error f) :
    w.Proper c := by
  cases c with
  | header | entry | entryOfData _ | dataSet | packet | setSize _ _ | buildPacket _ => cases h
  | _ => trivial

theorem start_configured : InWorld Configured {} :=
  ⟨by simp, by simp, by simp, by simp, by simp⟩

/-- In a run every header in every state represents its command exactly if all calls are proper. -/
theorem represents_iff_proper (calls : List Call) :
    (∀ done rest w, calls = done ++ rest → done.foldlM World.perform {} = .ok w →
      InWorld Represents w) ↔ EachStep World.perform World.Proper {} calls := by
  rw [represents_eq, ← always_iff_reached]
  exact always_iff_eachStep (fun _ _ _ hw h => perform_iff hw h) (fun _ _ _ _ h => error_proper h)
    start_configured calls

/-- A default packet, of which the header has no size field, and a packet with the command
`APPLICATION_VALUE`, of which building replaces the fixed size. -/
theorem some_header_not_represented :
    (¬ ∀ w, [Call.packet].foldlM World.perform {} = .ok w → InWorld Represents w) ∧
      ¬ ∀ w, [Call.packetOfCmd CmdCode.applicationValue, Call.buildPacket 0].foldlM
        World.perform {} = .ok w → InWorld Represents w := by
  have hvalue : EnumDataTypes.typeOf CmdCode.applicationValue = some 1 := by decide +kernel
  have hconfig := EntryHeader.getConfig_known hvalue (by norm_num)
  constructor
  · intro h
    have hpacket := (h _ rfl).packets {} (by simp [World.addPacket])
    exact default_not_configured hpacket.header.1
  · intro h
    have hbuilt := (h { packets := [⟨⟨CmdCode.applicationValue, 0, 0⟩, [], [], none⟩] } (by
      simp only [List.foldlM_cons, World.perform, Packet.ofCmd, EntryHeader.ofCmd_eq hconfig]
      rfl)).packets _ (List.mem_singleton.mpr rfl)
    obtain ⟨c, hc, _, hsize⟩ := hbuilt.header.1
    rw [hconfig] at hc
    cases hc
    exact absurd (hsize rfl) (by decide)

end GlobalAgenda.HeaderInvariant
