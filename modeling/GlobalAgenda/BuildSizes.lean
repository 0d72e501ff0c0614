import GlobalAgenda.TcpPacket

namespace GlobalAgenda.BuildSizes

open ValueConverter Base.LittleEndian

section Lists

variable {α β : Type} {f : α → List β} {l : List α}

theorem length_le_flatMap (h : ∀ a ∈ l, 1 ≤ (f a).length) : l.length ≤ (l.flatMap f).length := by
  induction l with
  | nil => rfl
  | cons a l ih =>
    have ha := h a (by simp)
    have hl := ih (fun b hb => h b (by simp [hb]))
    rw [List.flatMap_cons, List.length_append, List.length_cons]
    omega

theorem part_length_le {a : α} (ha : a ∈ l) : (f a).length ≤ (l.flatMap f).length := by
  induction l with
  | nil => cases ha
  | cons b l ih =>
    rw [List.flatMap_cons, List.length_append]
    cases ha with
    | head => exact Nat.le_add_right _ _
    | tail _ hmem => exact (ih hmem).trans (Nat.le_add_left _ _)

end Lists

theorem header_two_le (h : EntryHeader) : 2 ≤ h.build.length := by
  simp only [EntryHeader.build, fromUint16_eq, List.length_append, length_bytes]
  omega

theorem entry_build_length (e : DataEntry) :
    e.build.1.length = e.sanitized.entryHeader.build.length + e.sanitized.data.length := by
  rw [DataEntry.build, List.length_append]

theorem entry_two_le (e : DataEntry) : 2 ≤ e.build.1.length := by
  have h := header_two_le e.sanitized.entryHeader
  rw [entry_build_length]
  omega

theorem array_build_length (a : AnonymousArray) :
    a.build.1.length = 2 + (a.entries.flatMap (fun e => e.build.1)).length := by
  rw [AnonymousArray.build, List.length_append, fromUint16_eq, length_bytes]

theorem array_entries_le (a : AnonymousArray) : a.entries.length ≤ a.build.1.length := by
  have h := length_le_flatMap (f := fun e : DataEntry => e.build.1) (l := a.entries)
    (fun e _ => (by norm_num : 1 ≤ 2).trans (entry_two_le e))
  rw [array_build_length]
  omega

theorem array_part_le {a : AnonymousArray} {e : DataEntry} (he : e ∈ a.entries) :
    e.build.1.length ≤ a.build.1.length := by
  have h := part_length_le (f := fun e : DataEntry => e.build.1) he
  rw [array_build_length]
  omega

theorem dataSet_build_length (d : DataSet) : d.build.1.length =
    d.sanitized.entryHeader.build.length +
      (d.sanitized.anonArrays.flatMap (fun a => a.build.1)).length := by
  rw [DataSet.build, List.length_append]

theorem dataSet_two_le (d : DataSet) : 2 ≤ d.build.1.length := by
  have h := header_two_le d.sanitized.entryHeader
  rw [dataSet_build_length]
  omega

theorem dataSet_arrays_le (d : DataSet) : d.sanitized.anonArrays.length ≤ d.build.1.length := by
  have h := length_le_flatMap (f := fun a : AnonymousArray => a.build.1)
    (l := d.sanitized.anonArrays) (fun a _ => by rw [array_build_length]; omega)
  rw [dataSet_build_length]
  omega

theorem dataSet_part_le {d : DataSet} {a : AnonymousArray} (ha : a ∈ d.sanitized.anonArrays) :
    a.build.1.length ≤ d.build.1.length := by
  have h := part_length_le (f := fun a : AnonymousArray => a.build.1) ha
  rw [dataSet_build_length]
  omega

theorem packet_build_length (p : Packet) : p.build.1.length =
    (p.packetHeader.setSize (p.entries.length + p.dataSets.length)).build.length +
      (p.entries.flatMap (fun e => e.build.1)).length +
      (p.dataSets.flatMap (fun d => d.build.1)).length := by
  simp only [Packet.build, List.length_append]
  omega

theorem packet_items_le (p : Packet) : p.entries.length + p.dataSets.length ≤ p.build.1.length := by
  have hentries := length_le_flatMap (f := fun e : DataEntry => e.build.1) (l := p.entries)
    (fun e _ => (by norm_num : 1 ≤ 2).trans (entry_two_le e))
  have hsets := length_le_flatMap (f := fun d : DataSet => d.build.1) (l := p.dataSets)
    (fun d _ => (by norm_num : 1 ≤ 2).trans (dataSet_two_le d))
  rw [packet_build_length]
  omega

theorem packet_entry_le {p : Packet} {e : DataEntry} (he : e ∈ p.entries) :
    e.build.1.length ≤ p.build.1.length := by
  have h := part_length_le (f := fun e : DataEntry => e.build.1) he
  rw [packet_build_length]
  omega

theorem packet_dataSet_le {p : Packet} {d : DataSet} (hd : d ∈ p.dataSets) :
    d.build.1.length ≤ p.build.1.length := by
  have h := part_length_le (f := fun d : DataSet => d.build.1) hd
  rw [packet_build_length]
  omega

theorem payload_part_le {t : TcpPacket} {p : Packet} (hp : p ∈ t.packets) :
    p.build.1.length ≤ t.payload.length :=
  part_length_le (f := fun p : Packet => p.build.1) hp

end GlobalAgenda.BuildSizes
