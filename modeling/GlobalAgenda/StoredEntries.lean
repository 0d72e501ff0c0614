import GlobalAgenda.ParserSpec

namespace GlobalAgenda.StoredEntries

open EnumDataTypes ValueConverter Base.Triples Base.LittleEndian Base.WhileLoop Base.Chains ParserSpec

variable {m : Machine} {i j : Nat}

/-- The bytes of the entries that have a command and a payload. -/
def spelled (es : List DataEntry) : List (List UInt8) :=
  (es.filter DataEntry.valid).map (fun e => e.build.1)

/-- The input has the bytes of each entry of the packets in one piece, one behind the other in the
order in which they are stored, and so it has those of the entries in arrays with a payload. -/
structure Received (input : List UInt8) (packets : List Packet) : Prop where
  entries : Pieces input (packets.flatMap (fun p => p.entries.map (fun e => e.build.1))) []
  arrays : Pieces input (packets.flatMap (fun p => spelled p.arrayEntries)) []

theorem drop_word {input : List UInt8} (h : i + 2 ≤ input.length) :
    input.drop i = bytes 2 (wordAt input i) ++ input.drop (i + 2) := by
  have hlen : ((input.drop i).take 2).length = 2 := by
    rw [List.length_take, List.length_drop]
    omega
  have hword := bytes_value ((input.drop i).take 2)
  rw [hlen] at hword
  rw [wordAt, if_pos h, hword, ← List.drop_drop, List.take_append_drop]

theorem drop_cmd (h : i + 2 ≤ m.input.length) :
    m.input.drop i = bytes 2 (cmdAt m.input i).toNat ++ m.input.drop (i + 2) := by
  have hcmd : (cmdAt m.input i).toNat = wordAt m.input i := by
    rw [cmdAt, UInt16.toNat_ofNat', Nat.mod_eq_of_lt (wordAt_lt _ _)]
  rw [hcmd]
  exact drop_word h

theorem payloadAt_bytes {h : EntryHeader} {data : List UInt8} (hp : PayloadAt m i h data j)
    (hdata : data ≠ []) : data.length = h.contentSize ∧ m.input.drop i = data ++ m.input.drop j := by
  cases hp with
  | fits hle =>
    refine ⟨?_, ?_⟩
    · rw [List.length_take, List.length_drop]
      omega
    · rw [← List.drop_drop, List.take_append_drop]
  | short _ => exact absurd rfl hdata

/-- An entry with a command and a payload builds to the bytes it was read from. -/
theorem entryAt_bytes {e : DataEntry} (he : EntryAt m i e j) (hv : e.valid) :
    m.input.drop i = e.build.1 ++ m.input.drop j := by
  obtain ⟨k, hh, hp⟩ := he
  obtain ⟨hcmd, hdata⟩ := (DataEntry.valid_iff e).mp hv
  obtain ⟨hlen, hpayload⟩ := payloadAt_bytes hp hdata
  have hpos : e.entryHeader.contentSize ≠ 0 := by
    rw [← hlen]
    exact (List.length_pos_iff.mpr hdata).ne'
  have hroom : i + 2 ≤ m.input.length := by
    by_contra hshort
    apply hcmd
    rw [hh.cmd, cmdAt_short (Nat.not_le.mp hshort)]
  have hword : afterWord m.input i = i + 2 := if_pos hroom
  obtain ⟨header, data⟩ := e
  cases hh with
  | sized _ =>
    have hsize : i + 2 + 2 ≤ m.input.length := by
      by_contra hshort
      apply hpos
      rw [hword]
      exact if_neg hshort
    have hnext : afterWord m.input (i + 2) = i + 2 + 2 := if_pos hsize
    rw [hword, hnext] at hpayload
    rw [DataEntry.build, DataEntry.sanitized_of_sized (by decide : (2 : Nat) ≠ 0)]
    change data.length = wordAt m.input (afterWord m.input i) at hlen
    rw [hword] at hlen
    simp only [EntryHeader.build, fromUint16_eq, hlen]
    rw [drop_cmd hroom, drop_word hsize, hpayload]
    simp only [List.append_assoc]
  | fixed size _ _ _ =>
    change data.length = size at hlen
    have htake : data.takeD size 0 = data := by
      rw [← hlen, List.takeD_eq_take _ le_rfl, List.take_length]
    rw [hword] at hpayload
    rw [DataEntry.build, DataEntry.sanitized_of_fixed rfl]
    simp only [EntryHeader.build, fromUint16_eq, htake, List.append_nil]
    rw [drop_cmd hroom, hpayload]
    simp only [List.append_assoc]

theorem spelled_append (es es' : List DataEntry) : spelled (es ++ es') = spelled es ++ spelled es' := by
  simp only [spelled, List.filter_append, List.map_append]

theorem spelled_flatMap {α : Type} (as : List α) (f : α → List DataEntry) :
    spelled (as.flatMap f) = as.flatMap (fun a => spelled (f a)) := by
  rw [spelled, List.filter_flatMap, List.map_flatMap]
  rfl

theorem entryAt_pieces (i : Nat) (e : DataEntry) (j : Nat) (he : EntryAt m i e j) :
    Pieces (m.input.drop i) (spelled [e]) (m.input.drop j) := by
  by_cases hv : e.valid = true
  · rw [entryAt_bytes he hv, spelled, List.filter_cons_of_pos hv]
    exact .cons [] e.build.1 (.drop le_rfl)
  · rw [spelled, List.filter_cons_of_neg hv]
    obtain ⟨k, hh, hp⟩ := he
    exact .drop (hh.le.trans hp.le)

theorem entries_pieces {es : List DataEntry} (h : Chain (EntryAt m) i es j) :
    Pieces (m.input.drop i) (spelled es) (m.input.drop j) := by
  have hpieces := h.pieces entryAt_pieces
  rwa [← spelled_flatMap, List.flatMap_singleton'] at hpieces

theorem arrayAt_pieces (i : Nat) (a : AnonymousArray) (j : Nat) (ha : ArrayAt m i a j) :
    Pieces (m.input.drop i) (spelled a.entries) (m.input.drop j) := by
  have hword : i ≤ afterWord m.input i := by
    rw [afterWord]
    split <;> omega
  cases ha with
  | empty _ => exact .drop hword
  | entries _ _ hes _ => exact (Pieces.drop hword).append (entries_pieces hes)

theorem dataSetAt_pieces {d : DataSet} (hd : DataSetAt m i d j) :
    Pieces (m.input.drop i) (spelled d.arrayEntries) (m.input.drop j) := by
  obtain ⟨k, hh, harrays, _⟩ := hd
  rw [DataSet.arrayEntries, spelled_flatMap]
  exact (Pieces.drop hh.le).append (harrays.pieces arrayAt_pieces)

theorem itemsAt_pieces {n : Nat} {p q : Packet} (h : ItemsAt m n i p q j) :
    ∃ es ds, q.entries = p.entries ++ es ∧ q.dataSets = p.dataSets ++ ds ∧
      Pieces (m.input.drop i) (es.map (fun e => e.build.1)) (m.input.drop j) ∧
      Pieces (m.input.drop i) (spelled (ds.flatMap DataSet.arrayEntries)) (m.input.drop j) := by
  induction h with
  | complete _ _ | atEnd _ _ => exact ⟨[], [], by simp, by simp, .drop le_rfl, .drop le_rfl⟩
  | @dataSet n i j l p q d _ hd _ _ ih =>
    obtain ⟨es, ds, hes, hds, hentries, harrays⟩ := ih
    have hpieces := dataSetAt_pieces hd
    refine ⟨es, d :: ds, hes, by simpa using hds, hpieces.forget.append hentries, ?_⟩
    rw [List.flatMap_cons, spelled_append]
    exact hpieces.append harrays
  | @entry n i j l p q e _ he _ hv _ ih =>
    obtain ⟨es, ds, hes, hds, hentries, harrays⟩ := ih
    have hbytes := entryAt_bytes he hv
    refine ⟨e :: es, ds, by simpa using hes, hds, ?_, ?_⟩
    · rw [hbytes]
      exact .cons [] e.build.1 hentries
    · rw [hbytes]
      exact harrays.skip _
  | @rejected n i j p e _ he _ _ =>
    obtain ⟨k, hh, hp⟩ := he
    have hle := hh.le.trans hp.le
    exact ⟨[], [], by simp, by simp, .drop hle, .drop hle⟩

theorem roundAt_pieces (i : Nat) (q : Packet) (j : Nat) (h : RoundAt m i q j) :
    Pieces (m.input.drop i) (q.entries.map (fun e => e.build.1)) (m.input.drop j) ∧
      Pieces (m.input.drop i) (spelled q.arrayEntries) (m.input.drop j) := by
  obtain ⟨_, p, ⟨header, k, hh, hitems⟩, rfl⟩ := h
  obtain ⟨es, ds, hes, hds, hentries, harrays⟩ := itemsAt_pieces hitems
  rw [Packet.arrayEntries, Packet.copy, hes, hds]
  exact ⟨(Pieces.drop hh.le).append hentries, (Pieces.drop hh.le).append harrays⟩

/-- Nothing is stored with a payload that was not received in one piece, whatever the input. -/
theorem frame_received (input : List UInt8) (beyond : Nat → UInt8) (rounds : Nat) (t : TcpPacket)
    (h : returned (TcpPacket.ofInput (.server input beyond) rounds) {} = some t) :
    Received input t.packets := by
  obtain hnil | hchain := ((runs_frame (Nat.zero_le _) rounds).ok (returned_eq_some.mp h)).1
  · rw [hnil]
    have hnone : Pieces input [] [] := by simpa using Pieces.nil input []
    exact ⟨hnone, hnone⟩
  · have hsize : Pieces input [] (input.drop (afterWord input 0)) := .drop (Nat.zero_le _)
    have hentries := hchain.pieces (fun i q j h => (roundAt_pieces i q j h).1)
    have harrays := hchain.pieces (fun i q j h => (roundAt_pieces i q j h).2)
    rw [List.drop_length] at hentries harrays
    exact ⟨hsize.append hentries, hsize.append harrays⟩

theorem names_received : Received
    [31, 0, 0x3E, 0, 3, 0, 0xC5, 3, 1, 0, 0x41, 0x0C, 1, 1, 0, 2, 0, 0xC5, 3, 1, 0, 0x42,
      0xC5, 3, 1, 0, 0x43, 0xC5, 3, 2, 0, 0x44, 0x45]
    [⟨⟨0x3E, 3, 2⟩, [⟨⟨0x3C5, 1, 2⟩, [0x41]⟩, ⟨⟨0x3C5, 2, 2⟩, [0x44, 0x45]⟩],
      [⟨⟨0x10C, 1, 2⟩, [⟨[⟨⟨0x3C5, 1, 2⟩, [0x42]⟩, ⟨⟨0x3C5, 1, 2⟩, [0x43]⟩]⟩]⟩], none⟩] := by
  have hparse : returned (TcpPacket.ofInput (.server
      [31, 0, 0x3E, 0, 3, 0, 0xC5, 3, 1, 0, 0x41, 0x0C, 1, 1, 0, 2, 0, 0xC5, 3, 1, 0, 0x42,
        0xC5, 3, 1, 0, 0x43, 0xC5, 3, 2, 0, 0x44, 0x45] (fun _ => 0)) 1) {} = some ⟨31,
      [⟨⟨0x3E, 3, 2⟩, [⟨⟨0x3C5, 1, 2⟩, [0x41]⟩, ⟨⟨0x3C5, 2, 2⟩, [0x44, 0x45]⟩],
        [⟨⟨0x10C, 1, 2⟩, [⟨[⟨⟨0x3C5, 1, 2⟩, [0x42]⟩, ⟨⟨0x3C5, 1, 2⟩, [0x43]⟩]⟩]⟩], none⟩],
      some 0⟩ := by decide +kernel
  exact frame_received _ _ _ _ hparse

end GlobalAgenda.StoredEntries
