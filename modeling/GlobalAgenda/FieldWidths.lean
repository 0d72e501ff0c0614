import GlobalAgenda.BuildSizes

namespace GlobalAgenda.FieldWidths

open EnumDataTypes ValueConverter Base.LittleEndian BuildSizes

/-- A part of a built frame: bytes as they are, or a 16-bit field with the quantity it describes. -/
inductive Piece
  | raw (bs : List UInt8)
  | field (quantity : Nat)

def Piece.render : Piece → List UInt8
  | raw bs => bs
  | field quantity => fromUint16 quantity

def render (pieces : List Piece) : List UInt8 := pieces.flatMap Piece.render

def headerPieces (h : EntryHeader) (quantity : Nat) : List Piece :=
  .raw (fromUint16 h.cmd.toNat) :: match h.sizeWidth with
    | 2 => [.field quantity]
    | 4 => [.raw (fromUint32 h.contentSize)]
    | _ => []

def entryPieces (e : DataEntry) : List Piece :=
  headerPieces e.sanitized.entryHeader e.sanitized.data.length ++ [.raw e.sanitized.data]

def arrayPieces (a : AnonymousArray) : List Piece :=
  .field a.entries.length :: a.entries.flatMap entryPieces

def dataSetPieces (d : DataSet) : List Piece :=
  headerPieces d.sanitized.entryHeader d.sanitized.anonArrays.length ++
    d.sanitized.anonArrays.flatMap arrayPieces

def packetPieces (p : Packet) : List Piece :=
  headerPieces (p.packetHeader.setSize (p.entries.length + p.dataSets.length))
      (p.entries.length + p.dataSets.length) ++
    (p.entries.flatMap entryPieces ++ p.dataSets.flatMap dataSetPieces)

def framePieces (t : TcpPacket) : List Piece :=
  .field t.payload.length :: t.packets.flatMap packetPieces

/-- Every 16-bit field of the built frame holds the quantity it describes. -/
def FieldsExact (t : TcpPacket) : Prop :=
  ∀ before quantity after, framePieces t = before ++ .field quantity :: after →
    wordAt t.build.1 (render before).length = quantity

theorem render_cons (piece : Piece) (pieces : List Piece) :
    render (piece :: pieces) = piece.render ++ render pieces :=
  List.flatMap_cons

theorem render_append (pieces pieces' : List Piece) :
    render (pieces ++ pieces') = render pieces ++ render pieces' :=
  List.flatMap_append

theorem render_flatMap {α : Type} {f : α → List Piece} {build : α → List UInt8} (as : List α)
    (h : ∀ a ∈ as, render (f a) = build a) : render (as.flatMap f) = as.flatMap build := by
  induction as with
  | nil => rfl
  | cons a as ih =>
    rw [List.flatMap_cons, List.flatMap_cons, render_append, h a (by simp),
      ih (fun b hb => h b (by simp [hb]))]

theorem render_header {h : EntryHeader} {quantity : Nat}
    (hsize : h.sizeWidth = 2 → h.contentSize = quantity) :
    render (headerPieces h quantity) = h.build := by
  obtain ⟨cmd, size, width⟩ := h
  rw [headerPieces, render_cons, EntryHeader.build]
  apply congrArg (fromUint16 cmd.toNat ++ ·)
  by_cases h2 : width = 2
  · subst h2
    rw [show size = quantity from hsize rfl]
    exact List.append_nil _
  by_cases h4 : width = 4
  · subst h4
    exact List.append_nil _
  · simp [render]

theorem sanitized_contentSize {e : DataEntry} (h : e.sanitized.entryHeader.sizeWidth = 2) :
    e.sanitized.entryHeader.contentSize = e.sanitized.data.length := by
  by_cases hwidth : e.entryHeader.sizeWidth = 0
  · rw [DataEntry.sanitized_of_fixed hwidth] at h
    rw [hwidth] at h
    cases h
  · rw [DataEntry.sanitized_of_sized hwidth]

theorem render_entry (e : DataEntry) : render (entryPieces e) = e.build.1 := by
  rw [entryPieces, render_append, render_header sanitized_contentSize, DataEntry.build, render_cons]
  exact congrArg _ (List.append_nil _)

theorem render_array (a : AnonymousArray) : render (arrayPieces a) = a.build.1 := by
  rw [arrayPieces, render_cons, render_flatMap _ (fun e _ => render_entry e)]
  rfl

theorem render_dataSet (d : DataSet) : render (dataSetPieces d) = d.build.1 := by
  have hsize : d.sanitized.entryHeader.sizeWidth = 2 →
      d.sanitized.entryHeader.contentSize = d.sanitized.anonArrays.length := by
    rw [DataSet.sanitized, EntryHeader.sanitizePayloadSizeByType]
    by_cases hwidth : d.entryHeader.sizeWidth = 0
    · rw [if_neg (not_not.mpr hwidth)]
      intro h
      rw [hwidth] at h
      cases h
    · rw [if_pos hwidth]
      exact fun _ => rfl
  rw [dataSetPieces, render_append, render_header hsize, render_flatMap _ (fun a _ => render_array a)]
  rfl

theorem render_packet (p : Packet) : render (packetPieces p) = p.build.1 := by
  have hheader : render (headerPieces (p.packetHeader.setSize (p.entries.length + p.dataSets.length))
      (p.entries.length + p.dataSets.length)) = _ := render_header (fun _ => rfl)
  rw [packetPieces, render_append, hheader, render_append,
    render_flatMap _ (fun e _ => render_entry e), render_flatMap _ (fun d _ => render_dataSet d)]
  rfl

theorem render_frame (t : TcpPacket) : render (framePieces t) = t.build.1 := by
  rw [framePieces, render_cons, render_flatMap _ (fun p _ => render_packet p), TcpPacket.build,
    fromUint16_eq, Piece.render, fromUint16_eq]
  exact congrArg (· ++ _) (bytes_mod 2 t.payload.length).symm

theorem wordAt_append (before after : List UInt8) (n : Nat) :
    wordAt (before ++ (bytes 2 n ++ after)) before.length = n % 2 ^ 16 := by
  have hle : before.length + 2 ≤ (before ++ (bytes 2 n ++ after)).length := by
    simp only [List.length_append, length_bytes]
    omega
  have htake : (bytes 2 n ++ after).take 2 = bytes 2 n := by
    have h : (bytes 2 n ++ after).take (bytes 2 n).length = bytes 2 n := List.take_left
    rwa [length_bytes] at h
  rw [wordAt, if_pos hle, List.drop_left, htake, value_bytes]
  norm_num

theorem fieldsExact_iff (t : TcpPacket) :
    FieldsExact t ↔ ∀ quantity, .field quantity ∈ framePieces t → quantity < 2 ^ 16 := by
  have hword : ∀ before quantity after, framePieces t = before ++ .field quantity :: after →
      wordAt t.build.1 (render before).length = quantity % 2 ^ 16 := by
    intro before quantity after h
    rw [← render_frame, h, render_append, render_cons, Piece.render, fromUint16_eq, wordAt_append]
  constructor
  · intro h quantity hmem
    obtain ⟨before, after, hsplit⟩ := List.append_of_mem hmem
    have hexact := h before quantity after hsplit
    rw [hword before quantity after hsplit] at hexact
    rw [← hexact]
    exact Nat.mod_lt _ (by norm_num)
  · intro h before quantity after hsplit
    have hlt := h quantity (by rw [hsplit]; simp)
    rw [hword before quantity after hsplit, Nat.mod_eq_of_lt hlt]

theorem mem_headerPieces {h : EntryHeader} {n quantity : Nat}
    (hmem : .field quantity ∈ headerPieces h n) : quantity = n := by
  rw [headerPieces, List.mem_cons] at hmem
  obtain hraw | hsize := hmem
  · cases hraw
  · split at hsize
    · exact Piece.field.inj (List.mem_singleton.mp hsize)
    · cases List.mem_singleton.mp hsize
    · cases hsize

theorem entry_fields_le {e : DataEntry} {quantity : Nat} (h : .field quantity ∈ entryPieces e) :
    quantity ≤ e.build.1.length := by
  rw [entryPieces, List.mem_append] at h
  obtain hheader | hdata := h
  · rw [mem_headerPieces hheader, entry_build_length]
    exact Nat.le_add_left _ _
  · simp at hdata

theorem array_fields_le {a : AnonymousArray} {quantity : Nat} (h : .field quantity ∈ arrayPieces a) :
    quantity ≤ a.build.1.length := by
  rw [arrayPieces, List.mem_cons, List.mem_flatMap] at h
  obtain hcount | ⟨e, he, hentry⟩ := h
  · cases hcount
    exact array_entries_le a
  · exact (entry_fields_le hentry).trans (array_part_le he)

theorem dataSet_fields_le {d : DataSet} {quantity : Nat} (h : .field quantity ∈ dataSetPieces d) :
    quantity ≤ d.build.1.length := by
  rw [dataSetPieces, List.mem_append, List.mem_flatMap] at h
  obtain hheader | ⟨a, ha, harray⟩ := h
  · rw [mem_headerPieces hheader]
    exact dataSet_arrays_le d
  · exact (array_fields_le harray).trans (dataSet_part_le ha)

theorem packet_fields_le {p : Packet} {quantity : Nat} (h : .field quantity ∈ packetPieces p) :
    quantity ≤ p.build.1.length := by
  rw [packetPieces, List.mem_append, List.mem_append, List.mem_flatMap, List.mem_flatMap] at h
  obtain hheader | ⟨e, he, hentry⟩ | ⟨d, hd, hset⟩ := h
  · rw [mem_headerPieces hheader]
    exact packet_items_le p
  · exact (entry_fields_le hentry).trans (packet_entry_le he)
  · exact (dataSet_fields_le hset).trans (packet_dataSet_le hd)

theorem fields_lt_iff (t : TcpPacket) :
    (∀ quantity, .field quantity ∈ framePieces t → quantity < 2 ^ 16) ↔ t.payload.length < 2 ^ 16 := by
  constructor
  · intro h
    exact h _ (by rw [framePieces]; exact List.mem_cons_self)
  · intro hlt quantity hmem
    rw [framePieces, List.mem_cons, List.mem_flatMap] at hmem
    obtain hsize | ⟨p, hp, hpacket⟩ := hmem
    · cases hsize
      exact hlt
    · exact ((packet_fields_le hpacket).trans (payload_part_le hp)).trans_lt hlt

section WireSize

def headerSize (h : EntryHeader) : Nat :=
  2 + match h.sizeWidth with
    | 2 => 2
    | 4 => 4
    | _ => 0

def entrySize (e : DataEntry) : Nat :=
  headerSize e.entryHeader +
    if e.entryHeader.sizeWidth ≠ 0 then e.data.length else e.entryHeader.contentSize

def arraySize (a : AnonymousArray) : Nat := 2 + (a.entries.map entrySize).sum

def dataSetSize (d : DataSet) : Nat :=
  headerSize d.entryHeader +
    if d.entryHeader.sizeWidth ≠ 0 then (d.anonArrays.map arraySize).sum
    else ((d.anonArrays.takeD d.entryHeader.contentSize {}).map arraySize).sum

def packetSize (p : Packet) : Nat :=
  headerSize p.packetHeader + (p.entries.map entrySize).sum + (p.dataSets.map dataSetSize).sum

/-- The bytes that the packets of a frame need. -/
def wireSize (t : TcpPacket) : Nat := (t.packets.map packetSize).sum

theorem header_size (h : EntryHeader) : h.build.length = headerSize h := by
  obtain ⟨cmd, size, width⟩ := h
  rw [EntryHeader.build, headerSize, List.length_append, fromUint16_eq, length_bytes]
  apply congrArg (2 + ·)
  by_cases h2 : width = 2
  · subst h2
    exact (congrArg List.length (fromUint16_eq size)).trans (length_bytes 2 size)
  by_cases h4 : width = 4
  · subst h4
    exact (congrArg List.length (fromUint32_eq size)).trans (length_bytes 4 size)
  · simp

theorem sum_sizes {α : Type} {build : α → List UInt8} {size : α → Nat}
    (h : ∀ a, (build a).length = size a) (as : List α) :
    (as.flatMap build).length = (as.map size).sum := by
  rw [List.length_flatMap]
  simp only [h]

theorem entry_size (e : DataEntry) : e.build.1.length = entrySize e := by
  rw [entry_build_length, header_size, entrySize]
  by_cases hwidth : e.entryHeader.sizeWidth = 0
  · rw [DataEntry.sanitized_of_fixed hwidth, if_neg (not_not.mpr hwidth), List.takeD_length]
  · rw [DataEntry.sanitized_of_sized hwidth, if_pos hwidth]
    rfl

theorem array_size (a : AnonymousArray) : a.build.1.length = arraySize a := by
  rw [array_build_length, sum_sizes entry_size, arraySize]

theorem dataSet_size (d : DataSet) : d.build.1.length = dataSetSize d := by
  rw [dataSet_build_length, header_size, sum_sizes array_size, dataSetSize, DataSet.sanitized,
    EntryHeader.sanitizePayloadSizeByType]
  by_cases hwidth : d.entryHeader.sizeWidth = 0
  · rw [if_neg (not_not.mpr hwidth), if_neg (not_not.mpr hwidth)]
  · rw [if_pos hwidth, if_pos hwidth]
    rfl

theorem packet_size (p : Packet) : p.build.1.length = packetSize p := by
  rw [packet_build_length, header_size, sum_sizes entry_size, sum_sizes dataSet_size]
  rfl

theorem payload_size (t : TcpPacket) : t.payload.length = wireSize t :=
  sum_sizes packet_size t.packets

end WireSize

/-- No field of a built frame wraps exactly when its packets need at most 65535 bytes. -/
theorem fields_exact_iff (t : TcpPacket) : FieldsExact t ↔ wireSize t ≤ 65535 := by
  rw [fieldsExact_iff, fields_lt_iff, payload_size]
  exact Nat.lt_succ_iff

theorem single_entry_wraps {data : List UInt8} (h : data.length = 65536) :
    ¬ FieldsExact { packets := [{
      packetHeader := ⟨CmdCode.applyOnIntervalFlag, 0, 2⟩
      entries := [⟨⟨CmdCode.playerName, 0, 2⟩, data⟩] }] } := by
  rw [fieldsExact_iff, fields_lt_iff, payload_size]
  simp [wireSize, packetSize, entrySize, headerSize, h]

theorem some_field_wraps : ¬ ∀ t, FieldsExact t :=
  fun h => single_entry_wraps (List.length_replicate (a := (0x41 : UInt8))) (h _)

end GlobalAgenda.FieldWidths
