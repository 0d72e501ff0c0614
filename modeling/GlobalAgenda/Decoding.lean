import GlobalAgenda.Base.Consumption
import GlobalAgenda.Encoding
import GlobalAgenda.ParserSpec

namespace GlobalAgenda.Decoding

open EnumDataTypes ValueConverter Base.LittleEndian Base.Triples Base.Consumption Wire Encoding
  ParserSpec

def At (m : Machine) (ws : List UInt8) (s : Scan) : Prop :=
  s.it ≤ m.input.length ∧ m.input.drop s.it = ws

/-- Loads and lookups of text do not fail. -/
structure Total (m : Machine) : Prop where
  load : ∀ pos, (m.load pos).isSome
  text : ∀ cmd type, m.typeOf cmd = some type → cmd.toNat < m.textRows

theorem total_server (input : List UInt8) (beyond : Nat → UInt8) : Total (.server input beyond) :=
  ⟨Machine.load_server input beyond, fun _ _ h => typeOf_lt h⟩

variable {m : Machine} {E : Fault → Prop} {cmd : CmdCode} {l : Layout}

theorem At.length {ws : List UInt8} {s : Scan} (h : At m ws s) :
    s.it + ws.length = m.input.length := by
  have hlen := congrArg List.length h.2
  have hle := h.1
  rw [List.length_drop] at hlen
  omega

theorem At.advance {bs rest : List UInt8} {s t : Scan} (h : At m (bs ++ rest) s)
    (ht : t.it = s.it + bs.length) : At m rest t := by
  have hlen := h.length
  rw [List.length_append] at hlen
  refine ⟨by omega, ?_⟩
  rw [ht, ← List.drop_drop, h.2, List.drop_left]

theorem At.ne_end {bs rest : List UInt8} {s : Scan} (h : At m (bs ++ rest) s)
    (hbs : 0 < bs.length) : s.it ≠ m.input.length := by
  have hlen := h.length
  rw [List.length_append] at hlen
  omega

theorem At.take {bs rest : List UInt8} {s : Scan} (h : At m (bs ++ rest) s) :
    (m.input.drop s.it).take bs.length = bs := by
  rw [h.2, List.take_left]

/-- Of the eight bytes that are loaded those of the integer count. -/
theorem consumes_value (hm : Total m) {bs : List UInt8} (hbs : bs.length ≤ 8) :
    Consumes (At m) (toUintValueFromVector m bs.length) bs
      (fun v => v % 256 ^ bs.length = value bs) E := by
  intro rest s hs
  have hlen := hs.length
  rw [List.length_append] at hlen
  have hle : s.it + bs.length ≤ m.input.length := by omega
  obtain ⟨loaded, hloaded⟩ := Machine.fetch_ok (n := 8) (fun k _ => hm.load (s.it + k))
  have hvalue : value loaded % 256 ^ bs.length = value bs := by
    rw [value_mod, Machine.fetch_take hloaded hbs hle, hs.take]
  rw [toUintValueFromVector_enough hle hloaded]
  exact ⟨hvalue, hs.advance rfl⟩

theorem consumes_toUint16 (hm : Total m) {n : Nat} (hn : n < 2 ^ 16) :
    Consumes (At m) (toUint16 m) (bytes 2 n) (· = n) E := by
  have hlen : (bytes 2 n).length ≤ 8 := by rw [length_bytes]; norm_num
  have hvalue := consumes_value (E := E) hm hlen
  rw [length_bytes] at hvalue
  apply hvalue.bind_pure
  intro v hv
  apply Consumes.pure
  rw [value_bytes_of_lt hn] at hv
  exact hv

theorem consumes_toCmd (hm : Total m) (cmd : CmdCode) :
    Consumes (At m) (toCmd m) (bytes 2 cmd.toNat) (· = cmd) E := by
  apply (consumes_toUint16 hm cmd.toNat_lt).bind_pure
  rintro _ rfl
  exact .pure UInt16.ofNat_toNat

theorem consumes_header (hm : Total m) (hl : layoutOf m.typeOf cmd = some l) {n : Nat}
    (hn : l = .sized → n < 2 ^ 16) :
    Consumes (At m) (EntryHeader.ofInput m) (bytes 2 cmd.toNat ++ l.sizeField n)
      (· = header cmd l n) E := by
  apply (consumes_toCmd hm cmd).bind
  rintro _ rfl
  rw [getConfig_of_layout hl]
  cases l with
  | sized =>
    apply (consumes_toUint16 hm (hn rfl)).bind_pure
    rintro _ rfl
    exact .pure rfl
  | fixed size => exact .pure rfl

theorem header_read (hl : layoutOf EnumDataTypes.typeOf cmd = some l)
    {count : Nat} (hcount : count < 2 ^ 16) {input : List UInt8} (rest : List UInt8)
    (hinput : input = bytes 2 cmd.toNat ++ l.sizeField count ++ rest) (beyond : Nat → UInt8) :
    ∃ s, EntryHeader.ofInput (.server input beyond) {} = .ok (header cmd l count) s ∧
      s.it + rest.length = input.length := by
  have hread := consumes_header (E := fun _ => False) (n := count)
    (total_server input beyond) hl (fun _ => hcount) rest
  have hstart : At (.server input beyond) (bytes 2 cmd.toNat ++ l.sizeField count ++ rest) {} :=
    ⟨Nat.zero_le _, hinput⟩
  obtain ⟨h, s, hrun, rfl, hs⟩ := hread.total hstart
  exact ⟨s, hrun, hs.length⟩

theorem consumes_payload {h : EntryHeader} {type : Nat} (ht : m.typeOf h.cmd = some type)
    (h6 : type = 6 → E nestedDataSet) {payload : List UInt8}
    (hsize : h.contentSize = payload.length) :
    Consumes (At m) (DataEntry.ofHeader m h) payload (· = ⟨h, payload⟩) E := by
  intro rest s hs
  have hlen := hs.length
  rw [List.length_append] at hlen
  have hle : s.it + h.contentSize ≤ m.input.length := by omega
  by_cases hset : type = 6
  · subst hset
    rw [throws_nested ht hle s rfl]
    exact h6 rfl
  · have hne : m.typeOf h.cmd ≠ some 6 := by
      rw [ht]
      simpa using hset
    rw [payload_run ht (.fits hle hne), hsize]
    exact ⟨by rw [hs.take], hs.advance rfl⟩

theorem header_cmd (cmd : CmdCode) (l : Layout) (n : Nat) : (header cmd l n).cmd = cmd := by
  cases l <;> rfl

theorem header_contentSize {n : Nat} (h : l.Holds n) : (header cmd l n).contentSize = n := by
  cases l with
  | sized => rfl
  | fixed size => exact h.symm

theorem consumes_entryHeader (hm : Total m) (w : Entry m.typeOf) :
    Consumes (At m) (EntryHeader.ofInput m)
      (bytes 2 w.cmd.toNat ++ w.layout.sizeField w.payload.length)
      (· = header w.cmd w.layout w.payload.length) E := by
  apply consumes_header hm w.layout_eq
  intro hsized
  have hfits := w.fits
  rw [hsized] at hfits
  exact hfits

theorem consumes_entryPayload (w : Entry m.typeOf) (h6 : m.typeOf w.cmd = some 6 → E nestedDataSet) :
    Consumes (At m) (DataEntry.ofHeader m (header w.cmd w.layout w.payload.length)) w.payload
      (· = entryData w) E := by
  obtain ⟨type, _, ht⟩ := layoutOf_type w.layout_eq
  have hcmd := header_cmd w.cmd w.layout w.payload.length
  have htype : m.typeOf (header w.cmd w.layout w.payload.length).cmd = some type := by rw [hcmd, ht]
  apply consumes_payload htype
  · rintro rfl
    exact h6 ht
  · exact header_contentSize w.fits

theorem consumes_entry (hm : Total m) (w : Entry m.typeOf)
    (h6 : m.typeOf w.cmd = some 6 → E nestedDataSet) :
    Consumes (At m) (DataEntry.ofInput m) w.encode (· = entryData w) E := by
  apply (consumes_entryHeader hm w).bind
  rintro _ rfl
  exact consumes_entryPayload w h6

theorem eq_map_of_forall₂ {α β : Type} {f : β → α} {as : List α} {bs : List β}
    (h : List.Forall₂ (fun a b => a = f b) as bs) : as = bs.map f := by
  induction h with
  | nil => rfl
  | cons hab _ ih => rw [List.map_cons, hab, ih]

theorem entries_length_le (es : List (Entry m.typeOf)) :
    es.length ≤ (es.flatMap Entry.encode).length := by
  induction es with
  | nil => rfl
  | cons e es ih =>
    have he := e.two_le_length
    rw [List.flatMap_cons, List.length_append, List.length_cons]
    omega

theorem consumes_array (hm : Total m) (w : Record m.typeOf)
    (h6 : ∀ e ∈ w.entries, m.typeOf e.cmd = some 6 → E nestedDataSet) :
    Consumes (At m) (AnonymousArray.ofInput m) w.encode (· = arrayData w) E := by
  have hentries := Consumes.times w.entries (fun e he => consumes_entry hm e (h6 e he))
  apply (consumes_toUint16 hm w.fits).bind
  rintro _ rfl rest s hs
  have hlen := hs.length
  have hle := entries_length_le w.entries
  rw [List.length_append] at hlen
  rw [bind_ok (cursor_run s)]
  by_cases hzero : w.entries.length = 0
  · rw [if_pos hzero]
    have hnil : w.entries = [] := List.length_eq_zero_iff.mp hzero
    refine ⟨?_, ?_⟩
    · rw [arrayData, hnil]
      rfl
    · rw [hnil] at hs
      exact hs
  · rw [if_neg hzero, if_neg (by omega)]
    have harray := hentries.bind_pure (f := fun es => pure ⟨es⟩) (R := (· = arrayData w))
      (fun es hes => .pure (by rw [eq_map_of_forall₂ hes]; rfl))
    exact harray rest s hs

theorem consumes_records (hm : Total m) (w : Table m.typeOf)
    (h6 : ∀ r ∈ w.records, ∀ e ∈ r.entries, m.typeOf e.cmd = some 6 → E nestedDataSet) :
    Consumes (At m) (DataSet.ofHeader m (header w.cmd .sized w.records.length))
      (w.records.flatMap Record.encode) (· = dataSetData w) E := by
  have hrecords := Consumes.times w.records (fun r hr => consumes_array hm r (h6 r hr))
  apply hrecords.bind_pure
  intro arrays harrays
  apply Consumes.pure
  rw [eq_map_of_forall₂ harrays]
  rfl

theorem consumes_table (hm : Total m) (w : Table m.typeOf)
    (h6 : ∀ r ∈ w.records, ∀ e ∈ r.entries, m.typeOf e.cmd = some 6 → E nestedDataSet) :
    Consumes (At m) (DataSet.ofInput m) w.encode (· = dataSetData w) E := by
  apply (consumes_header hm (layoutOf_table w.type_eq) (fun _ => w.fits)).bind
  rintro _ rfl
  exact consumes_records hm w h6

theorem entryData_type (w : Entry m.typeOf) :
    ∃ type, m.typeOf (entryData w).entryHeader.cmd = some type := by
  obtain ⟨type, _, ht⟩ := layoutOf_type w.layout_eq
  exact ⟨type, by rw [entryData, header_cmd, ht]⟩

theorem entryData_dbgPrint (hm : Total m) (w : Entry m.typeOf) :
    (entryData w).dbgPrint m = pure () := by
  obtain ⟨type, ht⟩ := entryData_type w
  exact dbgPrint_run hm.text ht

theorem dataSetData_dbgPrint (hm : Total m) (w : Table m.typeOf) :
    (dataSetData w).dbgPrint m = pure () := by
  apply dataSet_dbgPrint_run hm.text
  intro a ha e he
  obtain ⟨r, _, rfl⟩ := List.mem_map.mp ha
  obtain ⟨v, _, rfl⟩ := List.mem_map.mp he
  exact entryData_type v

variable {Q : Packet → Scan → Prop} {ws : List UInt8} {n : Nat} {p : Packet}

theorem item_entry (hm : Total m) (w : Entry m.typeOf) (hw : w.Readable)
    (hrest : Triple (At m ws)
      (Packet.parseItems m n { p with entries := p.entries ++ [entryData w] }) Q (fun f _ => E f)) :
    Triple (At m (w.encode ++ ws)) (Packet.parseItems m (n + 1) p) Q (fun f _ => E f) := by
  obtain ⟨hunknown, hpayload, h6⟩ := hw
  obtain ⟨type, _, ht⟩ := layoutOf_type w.layout_eq
  have hvalid : (entryData w).valid = true := by
    rw [DataEntry.valid_iff, entryData, header_cmd]
    exact ⟨hunknown, hpayload⟩
  have hne : type ≠ 6 := by
    rintro rfl
    exact h6 ht
  have hbody : Triple (At m ws) (do
      (entryData w).dbgPrint m
      if (entryData w).valid then
        Packet.parseItems m n { p with entries := p.entries ++ [entryData w] }
      else pure p) Q (fun f _ => E f) := by
    rw [entryData_dbgPrint hm w, pure_bind, if_pos hvalid]
    exact hrest
  intro s hs
  have hnend := hs.ne_end (by have := w.two_le_length; omega)
  rw [Packet.parseItems, bind_ok (cursor_run s), if_neg hnend]
  rw [Entry.encode, List.append_assoc] at hs
  have hheader := consumes_entryHeader (E := E) hm w (w.payload ++ ws)
  refine hheader.bind (fun h => .pure_pre ?_) s hs
  rintro rfl
  rw [getType_run (by rw [header_cmd, ht]), pure_bind,
    if_neg (EnumType.ofValue_ne_typeTcpDataSet hne)]
  refine (consumes_entryPayload w (fun h => absurd h h6) ws).bind (fun e => .pure_pre ?_)
  rintro rfl
  exact hbody

theorem item_table (hm : Total m) (w : Table m.typeOf)
    (h6 : ∀ r ∈ w.records, ∀ e ∈ r.entries, m.typeOf e.cmd = some 6 → E nestedDataSet)
    (hrest : Triple (At m ws)
      (Packet.parseItems m n { p with dataSets := p.dataSets ++ [dataSetData w] }) Q
      (fun f _ => E f)) :
    Triple (At m (w.encode ++ ws)) (Packet.parseItems m (n + 1) p) Q (fun f _ => E f) := by
  have hbody : Triple (At m ws) (do
      (dataSetData w).dbgPrint m
      Packet.parseItems m n { p with dataSets := p.dataSets ++ [dataSetData w] }) Q
      (fun f _ => E f) := by
    rw [dataSetData_dbgPrint hm w, pure_bind]
    exact hrest
  have hset : EnumType.ofValue 6 = some .typeTcpDataSet := rfl
  intro s hs
  have hnend := hs.ne_end (by have := w.two_le_length; omega)
  rw [Packet.parseItems, bind_ok (cursor_run s), if_neg hnend]
  rw [Table.encode, List.append_assoc] at hs
  have hheader := consumes_header (E := E) hm (layoutOf_table w.type_eq) (fun _ => w.fits)
    (w.records.flatMap Record.encode ++ ws)
  refine hheader.bind (fun h => .pure_pre ?_) s hs
  rintro rfl
  rw [getType_run (by rw [header_cmd, w.type_eq]), pure_bind, if_pos hset]
  refine (consumes_records hm w h6 ws).bind (fun d => .pure_pre ?_)
  rintro rfl
  exact hbody

theorem items_entries (hm : Total m) (es : List (Entry m.typeOf)) (hread : ∀ e ∈ es, e.Readable)
    (hrest : Triple (At m ws)
      (Packet.parseItems m n { p with entries := p.entries ++ es.map entryData }) Q
      (fun f _ => E f)) :
    Triple (At m (es.flatMap Entry.encode ++ ws)) (Packet.parseItems m (es.length + n) p) Q
      (fun f _ => E f) := by
  induction es generalizing p with
  | nil => simpa using hrest
  | cons e es ih =>
    rw [List.flatMap_cons, List.append_assoc, List.length_cons, Nat.add_right_comm]
    apply item_entry hm e (hread e (by simp))
    apply ih (fun e' he => hread e' (by simp [he]))
    simpa only [List.append_assoc, List.singleton_append, List.map_cons] using hrest

theorem items_tables (hm : Total m) (ts : List (Table m.typeOf))
    (h6 : ∀ t ∈ ts, ∀ r ∈ t.records, ∀ e ∈ r.entries, m.typeOf e.cmd = some 6 → E nestedDataSet)
    (hrest : Triple (At m ws)
      (Packet.parseItems m n { p with dataSets := p.dataSets ++ ts.map dataSetData }) Q
      (fun f _ => E f)) :
    Triple (At m (ts.flatMap Table.encode ++ ws)) (Packet.parseItems m (ts.length + n) p) Q
      (fun f _ => E f) := by
  induction ts generalizing p with
  | nil => simpa using hrest
  | cons t ts ih =>
    rw [List.flatMap_cons, List.append_assoc, List.length_cons, Nat.add_right_comm]
    apply item_table hm t (h6 t (by simp))
    apply ih (fun t' ht => h6 t' (by simp [ht]))
    simpa only [List.append_assoc, List.singleton_append, List.map_cons] using hrest

theorem items_end (hend : n = 0 ∨ ws = []) : Triple (At m ws) (Packet.parseItems m n p)
    (fun q s => q = { p with entryIter := some 0 } ∧ At m ws s) (fun f _ => E f) := by
  intro s hs
  cases n with
  | zero => exact ⟨rfl, hs⟩
  | succ n =>
    have hnil := hend.resolve_left (Nat.succ_ne_zero n)
    subst hnil
    have hlen := hs.length
    rw [Packet.parseItems, bind_ok (cursor_run s), if_pos (by simpa using hlen)]
    exact ⟨rfl, hs⟩

/-- The array entries of a message that are data sets themselves may raise an exception. -/
def Excused (E : Fault → Prop) (w : Message m.typeOf) : Prop :=
  ∀ t ∈ w.tables, ∀ r ∈ t.records, ∀ e ∈ r.entries, m.typeOf e.cmd = some 6 → E nestedDataSet

/-- A packet is read off the encoding of a message. Without a size field in its header it takes
everything up to the end. -/
theorem reads_packet (hm : Total m) (w : Message m.typeOf) (h6 : Excused E w)
    (hend : w.layout = .sized ∨ ws = []) :
    Triple (At m (w.encode ++ ws)) (Packet.ofInput m)
      (fun p s => p = packetData w ∧ At m ws s) (fun f _ => E f) := by
  have hfits := w.fits
  have hcount : w.layout = .sized → w.count < 2 ^ 16 := by
    intro hsized
    rw [hsized] at hfits
    exact Nat.lt_of_le_pred (by norm_num) hfits
  obtain ⟨k, hk, hkend⟩ : ∃ k, (header w.cmd w.layout w.count).getSize =
      w.entries.length + (w.tables.length + k) ∧ (k = 0 ∨ ws = []) := by
    cases hl : w.layout with
    | sized => exact ⟨0, rfl, .inl rfl⟩
    | fixed size =>
      rw [hl] at hfits hend
      have hle : w.entries.length + w.tables.length ≤ size := hfits
      refine ⟨size - (w.entries.length + w.tables.length), ?_, .inr (hend.resolve_left nofun)⟩
      change size = _
      omega
  rw [Message.encode, List.append_assoc, List.append_assoc]
  apply Triple.bind (consumes_header hm w.layout_eq hcount _)
  intro h
  apply Triple.pure_pre
  rintro rfl
  rw [hk, List.append_assoc]
  apply items_entries hm w.entries w.readable
  apply items_tables hm w.tables h6
  exact items_end hkend

theorem excused_any (m : Machine) (w : Message m.typeOf) : Excused (fun _ => True) w :=
  fun _ _ _ _ _ _ _ => trivial

theorem reads_encoded {input : List UInt8} (beyond : Nat → UInt8)
    (w : Message EnumDataTypes.typeOf) (hinput : input = w.encode)
    (h6 : @Excused (.server input beyond) E w) :
    Triple (fun s => s = {}) (Packet.ofInput (.server input beyond))
      (fun p _ => p = packetData w) (fun f _ => E f) := by
  have hread : Triple (At (.server input beyond) (w.encode ++ []))
      (Packet.ofInput (.server input beyond))
      (fun p s => p = packetData w ∧ At (.server input beyond) [] s) (fun f _ => E f) :=
    reads_packet (total_server input beyond) w h6 (.inr rfl)
  rw [List.append_nil] at hread
  refine hread.conseq ?_ (fun p s hp => hp.1) (fun _ _ hf => hf)
  rintro s rfl
  exact ⟨Nat.zero_le _, hinput⟩

end GlobalAgenda.Decoding
