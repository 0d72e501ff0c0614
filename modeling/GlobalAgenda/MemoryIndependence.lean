import GlobalAgenda.TcpPacket

namespace GlobalAgenda.MemoryIndependence

open EnumDataTypes ValueConverter Base.LittleEndian Base.Triples Base.WhileLoop

/-- The machines differ only in the memory after the vector, and all of it can be loaded. -/
structure Agree (m m' : Machine) : Prop where
  input : m.input = m'.input
  typeOf : m.typeOf = m'.typeOf
  textRows : m.textRows = m'.textRows
  load : ∀ pos, (m.load pos).isSome
  load' : ∀ pos, (m'.load pos).isSome

theorem agree_server (input : List UInt8) (beyond beyond' : Nat → UInt8) :
    Agree (.server input beyond) (.server input beyond') :=
  ⟨rfl, rfl, rfl, Machine.load_server _ _, Machine.load_server _ _⟩

variable {m m' : Machine} {amount : Nat}

theorem value_run (hload : ∀ pos, (m.load pos).isSome) (ha : amount ≤ 8) (s : Scan) :
    (toUintValueFromVector m amount >>= fun v => (pure (v % 256 ^ amount) : Decoder Nat)) s =
      if s.it + amount ≤ m.input.length then
        .ok (value ((m.input.drop s.it).take amount)) ⟨s.it + amount⟩
      else .ok 0 s := by
  by_cases henough : s.it + amount ≤ m.input.length
  · obtain ⟨loaded, hloaded⟩ := Machine.fetch_ok (n := 8) (fun k _ => hload (s.it + k))
    have hvalue : value loaded % 256 ^ amount = value ((m.input.drop s.it).take amount) := by
      rw [value_mod, Machine.fetch_take hloaded ha henough]
    rw [bind_ok (toUintValueFromVector_enough henough hloaded), if_pos henough, hvalue]
    rfl
  · rw [bind_ok (toUintValueFromVector_short (by omega)), if_neg henough, Nat.zero_mod]
    rfl

theorem value_agree (h : Agree m m') (ha : amount ≤ 8) :
    (toUintValueFromVector m amount >>= fun v => (pure (v % 256 ^ amount) : Decoder Nat)) =
      toUintValueFromVector m' amount >>= fun v => pure (v % 256 ^ amount) := by
  funext s
  rw [value_run h.load ha, value_run h.load' ha, h.input]

theorem toUint16_agree (h : Agree m m') : toUint16 m = toUint16 m' :=
  value_agree h (by norm_num)

theorem toUint32_agree (h : Agree m m') : toUint32 m = toUint32 m' :=
  value_agree h (by norm_num)

theorem header_agree (h : Agree m m') : EntryHeader.ofInput m = EntryHeader.ofInput m' := by
  have hcmd : toCmd m = toCmd m' := by rw [toCmd, toCmd, toUint16_agree h]
  rw [EntryHeader.ofInput, EntryHeader.ofInput, hcmd, h.typeOf, toUint16_agree h, toUint32_agree h]

theorem getType_agree (h : Agree m m') (header : EntryHeader) :
    header.getType m = header.getType m' := by
  rw [EntryHeader.getType, EntryHeader.getType, h.typeOf]

theorem dbgPrint_agree (h : Agree m m') (header : EntryHeader) :
    header.dbgPrint m = header.dbgPrint m' := by
  rw [EntryHeader.dbgPrint, EntryHeader.dbgPrint, h.textRows]

theorem payload_agree (h : Agree m m') (header : EntryHeader) :
    DataEntry.ofHeader m header = DataEntry.ofHeader m' header := by
  have hparse : DataEntry.parse m header = DataEntry.parse m' header := by
    funext s
    rw [DataEntry.parse, DataEntry.parse, bind_ok (cursor_run s), bind_ok (cursor_run s), isEnoughToRead,
      isEnoughToRead, ← h.input, ← getType_agree h]
    by_cases henough : s.it + header.getSize ≤ m.input.length
    · rw [Machine.fetch_input henough, Machine.fetch_input (h.input ▸ henough), h.input]
    · rw [decide_eq_false henough, if_neg (by simp), if_neg (by simp)]
  rw [DataEntry.ofHeader, DataEntry.ofHeader, hparse]

theorem entry_agree (h : Agree m m') : DataEntry.ofInput m = DataEntry.ofInput m' := by
  rw [DataEntry.ofInput, DataEntry.ofInput, header_agree h]
  simp only [payload_agree h]

theorem array_agree (h : Agree m m') : AnonymousArray.ofInput m = AnonymousArray.ofInput m' := by
  rw [AnonymousArray.ofInput, AnonymousArray.ofInput, toUint16_agree h, entry_agree h, h.input]

theorem dataSet_agree (h : Agree m m') (header : EntryHeader) :
    DataSet.ofHeader m header = DataSet.ofHeader m' header := by
  rw [DataSet.ofHeader, DataSet.ofHeader, DataSet.parse, DataSet.parse, array_agree h]

theorem dataSet_dbgPrint_agree (h : Agree m m') (d : DataSet) : d.dbgPrint m = d.dbgPrint m' := by
  have hentry : DataEntry.dbgPrint m = DataEntry.dbgPrint m' := by
    funext e
    exact dbgPrint_agree h e.entryHeader
  have harray : AnonymousArray.dbgPrint m = AnonymousArray.dbgPrint m' := by
    funext a
    rw [AnonymousArray.dbgPrint, AnonymousArray.dbgPrint, hentry]
  rw [DataSet.dbgPrint, DataSet.dbgPrint, harray]

theorem items_agree (h : Agree m m') (n : Nat) (p : Packet) :
    Packet.parseItems m n p = Packet.parseItems m' n p := by
  induction n generalizing p with
  | zero => rfl
  | succ n ih =>
    rw [Packet.parseItems, Packet.parseItems, header_agree h, h.input]
    simp only [getType_agree h, dataSet_agree h, dataSet_dbgPrint_agree h, payload_agree h,
      DataEntry.dbgPrint, dbgPrint_agree h, ih]

theorem packet_agree (h : Agree m m') : Packet.ofInput m = Packet.ofInput m' := by
  rw [Packet.ofInput, Packet.ofInput, header_agree h]
  simp only [items_agree h]

theorem round_agree (h : Agree m m') : TcpPacket.round m = TcpPacket.round m' := by
  funext packets
  rw [TcpPacket.round, TcpPacket.round, packet_agree h]

theorem tcpPacket_agree (h : Agree m m') (rounds : Nat) :
    TcpPacket.ofInput m rounds = TcpPacket.ofInput m' rounds := by
  have hcond : TcpPacket.notAtEnd m = TcpPacket.notAtEnd m' := by
    funext s
    rw [TcpPacket.notAtEnd, TcpPacket.notAtEnd, h.input]
  rw [TcpPacket.ofInput, TcpPacket.ofInput, toUint16_agree h, round_agree h, hcond, h.input]

def machine (input : List UInt8) (typeOf : CmdCode → Option Nat) (textRows : Nat)
    (beyond : Nat → UInt8) : Machine :=
  ⟨input, fun i => some (beyond i), typeOf, textRows⟩

theorem load_machine (input : List UInt8) (typeOf : CmdCode → Option Nat) (textRows : Nat)
    (beyond : Nat → UInt8) (pos : Nat) : ((machine input typeOf textRows beyond).load pos).isSome := by
  by_cases hlt : pos < (machine input typeOf textRows beyond).input.length
  · rw [Machine.load_input _ hlt]
    rfl
  · rw [Machine.load, if_neg hlt]
    rfl

/-- From every cursor a packet, and every round of a frame's loop, ends in the same way, with the
same result and the same cursor, whatever lies after the vector. -/
theorem memory_independent (input : List UInt8) (typeOf : CmdCode → Option Nat) (textRows : Nat)
    (beyond beyond' : Nat → UInt8) :
    Packet.ofInput (machine input typeOf textRows beyond) =
        Packet.ofInput (machine input typeOf textRows beyond') ∧
      ∀ packets, TcpPacket.round (machine input typeOf textRows beyond) packets =
        TcpPacket.round (machine input typeOf textRows beyond') packets := by
  have h : Agree (machine input typeOf textRows beyond) (machine input typeOf textRows beyond') :=
    ⟨rfl, rfl, rfl, load_machine _ _ _ _, load_machine _ _ _ _⟩
  exact ⟨packet_agree h, fun packets => by rw [round_agree h]⟩

end GlobalAgenda.MemoryIndependence
