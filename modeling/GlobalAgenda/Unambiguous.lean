import GlobalAgenda.Base.Codes
import GlobalAgenda.Encoding
import GlobalAgenda.TcpPacket

namespace GlobalAgenda.Unambiguous

open EnumDataTypes ValueConverter Base.LittleEndian Base.Codes Wire Encoding

variable {typeOf : CmdCode → Option Nat}

theorem prefixFree_size : PrefixFree (· < 2 ^ 16) (bytes 2) := by
  apply PrefixFree.ofLength
  · intro a b _ _
    rw [length_bytes, length_bytes]
  · intro a b ha hb h
    rw [← value_bytes_of_lt (w := 2) ha, h, value_bytes_of_lt (w := 2) hb]

theorem prefixFree_cmd : PrefixFree (fun _ => True) (fun cmd : CmdCode => bytes 2 cmd.toNat) := by
  intro a b r s _ _ h
  obtain ⟨hcmd, hrest⟩ := prefixFree_size a.toNat b.toNat r s a.toNat_lt b.toNat_lt h
  exact ⟨UInt16.toNat_inj.mp hcmd, hrest⟩

theorem prefixFree_payload : PrefixFree (fun p : List UInt8 => p.length < 2 ^ 16)
    (fun p => bytes 2 p.length ++ p) := by
  have hbyte : PrefixFree (fun _ => True) (fun b : UInt8 => [b]) :=
    .ofLength (fun _ _ _ _ => rfl) (fun a b _ _ h => List.singleton_inj.mp h)
  have h : PrefixFree (fun p : List UInt8 => p.length < 2 ^ 16)
      (fun p => bytes 2 p.length ++ p.flatMap (fun b => [b])) :=
    (prefixFree_size.counted hbyte).mono (fun p hp => ⟨hp, fun _ _ => trivial⟩)
  simpa only [List.flatMap_singleton'] using h

theorem layout_unique {cmd : CmdCode} {l l' : Layout} (h : layoutOf typeOf cmd = some l)
    (h' : layoutOf typeOf cmd = some l') : l = l' :=
  Option.some.inj (h.symm.trans h')

theorem prefixFree_entry : PrefixFree (fun _ : Entry typeOf => True) Entry.encode := by
  have hencode : (Entry.encode : Entry typeOf → List UInt8) =
      fun e => bytes 2 e.cmd.toNat ++ (e.layout.sizeField e.payload.length ++ e.payload) := by
    funext e
    rw [Entry.encode, List.append_assoc]
  rw [hencode]
  apply prefixFree_cmd.keyed (fun _ _ => trivial)
  rintro cmd ⟨_, l, p, hl, hp⟩ ⟨_, l', p', hl', hp'⟩ r s ⟨_, rfl⟩ ⟨_, rfl⟩ h
  obtain rfl := layout_unique hl hl'
  cases l with
  | sized =>
    obtain ⟨rfl, rfl⟩ := prefixFree_payload p p' r s hp hp' h
    exact ⟨rfl, rfl⟩
  | fixed size =>
    have hpayload : p ++ r = p' ++ s := h
    obtain ⟨rfl, rfl⟩ := List.append_inj hpayload (hp.trans hp'.symm)
    exact ⟨rfl, rfl⟩

theorem prefixFree_record : PrefixFree (fun _ : Record typeOf => True) Record.encode := by
  rintro ⟨es, hes⟩ ⟨es', hes'⟩ r s _ _ h
  obtain ⟨rfl, rfl⟩ := prefixFree_size.counted prefixFree_entry es es' r s
    ⟨hes, fun _ _ => trivial⟩ ⟨hes', fun _ _ => trivial⟩ h
  exact ⟨rfl, rfl⟩

theorem prefixFree_table : PrefixFree (fun _ : Table typeOf => True) Table.encode := by
  have hencode : (Table.encode : Table typeOf → List UInt8) =
      fun t => bytes 2 t.cmd.toNat ++ (bytes 2 t.records.length ++ t.records.flatMap Record.encode) := by
    funext t
    rw [Table.encode, List.append_assoc]
    rfl
  rw [hencode]
  apply prefixFree_cmd.keyed (fun _ _ => trivial)
  rintro cmd ⟨_, rs, ht, hrs⟩ ⟨_, rs', ht', hrs'⟩ r s ⟨_, rfl⟩ ⟨_, rfl⟩ h
  obtain ⟨rfl, rfl⟩ := prefixFree_size.counted prefixFree_record rs rs' r s
    ⟨hrs, fun _ _ => trivial⟩ ⟨hrs', fun _ _ => trivial⟩ h
  exact ⟨rfl, rfl⟩

abbrev Item (typeOf : CmdCode → Option Nat) := Entry typeOf ⊕ Table typeOf

def itemEncode : Item typeOf → List UInt8 := Sum.elim Entry.encode Table.encode

/-- Entries whose type is that of data sets are no items. -/
def IsItem : Item typeOf → Prop := Sum.elim (fun e => typeOf e.cmd ≠ some 6) (fun _ => True)

theorem prefixFree_item : PrefixFree IsItem (@itemEncode typeOf) := by
  have hcmd : ∀ (e : Entry typeOf) (t : Table typeOf) (r s : List UInt8),
      e.encode ++ r = t.encode ++ s → e.cmd = t.cmd := by
    intro e t r s h
    simp only [Entry.encode, Table.encode, List.append_assoc] at h
    exact (prefixFree_cmd e.cmd t.cmd _ _ trivial trivial h).1
  rintro (e | t) (e' | t') r s ha hb h
  · obtain ⟨rfl, rfl⟩ := prefixFree_entry e e' r s trivial trivial h
    exact ⟨rfl, rfl⟩
  · exact absurd (hcmd e t' r s h ▸ t'.type_eq) ha
  · exact absurd (hcmd e' t s r h.symm ▸ t.type_eq) hb
  · obtain ⟨rfl, rfl⟩ := prefixFree_table t t' r s trivial trivial h
    exact ⟨rfl, rfl⟩

def items (w : Message typeOf) : List (Item typeOf) := w.entries.map .inl ++ w.tables.map .inr

theorem items_encode (w : Message typeOf) : (items w).flatMap itemEncode =
    w.entries.flatMap Entry.encode ++ w.tables.flatMap Table.encode := by
  rw [items, List.flatMap_append, List.flatMap_map, List.flatMap_map]
  rfl

theorem items_isItem (w : Message typeOf) : ∀ x ∈ items w, IsItem x := by
  intro x hx
  obtain hx | hx := List.mem_append.mp hx
  · obtain ⟨e, he, rfl⟩ := List.mem_map.mp hx
    exact (w.readable e he).2.2
  · obtain ⟨t, _, rfl⟩ := List.mem_map.mp hx
    exact trivial

theorem items_inj {es es' : List (Entry typeOf)} {ts ts' : List (Table typeOf)}
    (h : es.map (Sum.inl (β := Table typeOf)) ++ ts.map .inr = es'.map .inl ++ ts'.map .inr) :
    es = es' ∧ ts = ts' := by
  have hleft := congrArg (List.filterMap Sum.getLeft?) h
  have hright := congrArg (List.filterMap Sum.getRight?) h
  constructor
  · simpa [List.filterMap_append, List.filterMap_map, Function.comp_def] using hleft
  · simpa [List.filterMap_append, List.filterMap_map, Function.comp_def] using hright

theorem message_ext {w v : Message typeOf} (hcmd : w.cmd = v.cmd) (hl : w.layout = v.layout)
    (hitems : items w = items v) : w = v := by
  obtain ⟨hes, hts⟩ := items_inj hitems
  cases w
  cases v
  cases hcmd
  cases hl
  cases hes
  cases hts
  rfl

/-- A message that carries the number of its items tells where it ends. -/
theorem prefixFree_message :
    PrefixFree (fun w : Message typeOf => w.layout = .sized) Message.encode := by
  have hcount : ∀ w : Message typeOf, (items w).length = w.count := by
    intro w
    rw [items, List.length_append, List.length_map, List.length_map, Message.count]
  have hfits : ∀ w : Message typeOf, w.layout = .sized → (items w).length < 2 ^ 16 := by
    intro w hw
    have hle := w.fits
    rw [hw] at hle
    rw [hcount]
    exact Nat.lt_of_le_of_lt hle (by decide)
  have hencode : ∀ w : Message typeOf, w.layout = .sized → w.encode = bytes 2 w.cmd.toNat ++
      (bytes 2 (items w).length ++ (items w).flatMap itemEncode) := by
    intro w hw
    rw [items_encode, hcount, Message.encode, hw, List.append_assoc]
    rfl
  intro w v r s hw hv h
  rw [hencode w hw, hencode v hv, List.append_assoc, List.append_assoc] at h
  obtain ⟨hcmd, hrest⟩ := prefixFree_cmd w.cmd v.cmd _ _ trivial trivial h
  obtain ⟨hitems, rfl⟩ := prefixFree_size.counted prefixFree_item (items w) (items v) r s
    ⟨hfits w hw, items_isItem w⟩ ⟨hfits v hv, items_isItem v⟩ hrest
  exact ⟨message_ext hcmd (hw.trans hv.symm) hitems, rfl⟩

theorem prefixFree_frame : PrefixFree
    (fun ws : List (Message typeOf) =>
      (ws.flatMap Message.encode).length < 2 ^ 16 ∧ ∀ w ∈ ws, w.layout = .sized)
    (fun ws => bytes 2 (ws.flatMap Message.encode).length ++ ws.flatMap Message.encode) := by
  rintro ws vs r s ⟨hsize, hws⟩ ⟨hsize', hvs⟩ h
  obtain ⟨hpayload, rfl⟩ := prefixFree_payload _ _ r s hsize hsize' h
  refine ⟨prefixFree_message.stream ?_ hws hvs hpayload, rfl⟩
  intro w _ hnil
  have htwo := w.two_le_length
  rw [hnil] at htwo
  exact absurd htwo (by decide)

/-- A copy of the packet as `build` leaves it. -/
def content (p : Packet) : Packet := p.build.2.copy

/-- A packet that fits and announces its items. -/
def Sized (typeOf : CmdCode → Option Nat) (p : Packet) : Prop :=
  p.Fits typeOf ∧ p.packetHeader.sizeWidth ≠ 0

theorem sized_header {h : EntryHeader} (hc : h.Consistent typeOf) (hwidth : h.sizeWidth ≠ 0) :
    layoutOf typeOf h.cmd = some .sized ∧ h = header h.cmd .sized h.contentSize := by
  obtain ⟨l, hl, hh⟩ := consistent_iff.mp hc
  cases l with
  | sized => exact ⟨hl, hh⟩
  | fixed size =>
    rw [hh] at hwidth
    exact absurd rfl hwidth

theorem Sized.message {p : Packet} (h : Sized typeOf p) : ∃ w : Message typeOf,
    (p.build.1, content p) = (w.encode, (packetData w).copy) ∧
      w.layout = .sized := by
  obtain ⟨w, hbytes, hlayout, _, hdata⟩ := packet_build h.1
  have hsized : w.layout = .sized := layout_unique hlayout (sized_header h.1.header h.2).1
  refine ⟨w, ?_, hsized⟩
  rw [content, hbytes, hdata hsized]
  rfl

/-- Whatever follows them, packets that build to the same bytes are the same. -/
theorem packets_unambiguous (p q : Packet) (r s : List UInt8) (hp : Sized EnumDataTypes.typeOf p)
    (hq : Sized EnumDataTypes.typeOf q) (h : p.build.1 ++ r = q.build.1 ++ s) :
    content p = content q ∧ r = s := by
  obtain ⟨w, hw, hwl⟩ := hp.message
  obtain ⟨v, hv, hvl⟩ := hq.message
  obtain ⟨hwbytes, hwdata⟩ := Prod.mk.inj hw
  obtain ⟨hvbytes, hvdata⟩ := Prod.mk.inj hv
  rw [hwbytes, hvbytes] at h
  obtain ⟨rfl, rfl⟩ := prefixFree_message w v r s hwl hvl h
  exact ⟨hwdata.trans hvdata.symm, rfl⟩

def named (size : Nat) : Packet where
  packetHeader := ⟨CmdCode.applyOnIntervalFlag, size, 2⟩
  entries := [⟨⟨CmdCode.playerName, size, 2⟩, [0x41]⟩, ⟨⟨CmdCode.playerName, size, 2⟩, [0x42, 0x43]⟩]
  dataSets := [⟨⟨CmdCode.dataSet, size, 2⟩, [⟨[⟨⟨CmdCode.playerName, size, 2⟩, []⟩]⟩]⟩]

theorem named_sized (size : Nat) : Sized EnumDataTypes.typeOf (named size) := by
  have hname : EnumDataTypes.typeOf CmdCode.playerName = some 0 := by decide +kernel
  have hset : EnumDataTypes.typeOf CmdCode.dataSet = some 6 := by decide +kernel
  have hconsistent : ∀ cmd type, EnumDataTypes.typeOf cmd = some type → type = 0 ∨ type = 6 →
      EntryHeader.Consistent EnumDataTypes.typeOf ⟨cmd, size, 2⟩ := by
    intro cmd type ht hsized
    have hconfig := EntryHeader.getConfig_known ht (by omega)
    rw [if_pos (by omega)] at hconfig
    exact ⟨_, hconfig, rfl, fun h => absurd h (by decide)⟩
  have hfits : ∀ name : List UInt8, name.length < 2 ^ 16 →
      DataEntry.Fits EnumDataTypes.typeOf ⟨⟨CmdCode.playerName, size, 2⟩, name⟩ :=
    fun name hlen => ⟨hconsistent _ _ hname (.inl rfl), fun _ => hlen⟩
  have hcount : 2 + 1 ≤ 2 ^ 16 - 1 := by norm_num
  refine ⟨⟨hconsistent _ _ typeOf_applyOnIntervalFlag (.inl rfl), hcount, ?_, ?_⟩, by simp [named]⟩
  · intro e he
    obtain rfl | rfl := List.mem_pair.mp he
    · exact ⟨hfits _ (by norm_num), rfl, ne_of_eq_of_ne hname (by decide)⟩
    · exact ⟨hfits _ (by norm_num), rfl, ne_of_eq_of_ne hname (by decide)⟩
  · intro d hd
    rw [List.mem_singleton.mp hd]
    refine ⟨hset, hconsistent _ _ hset (.inr rfl), by norm_num, fun a ha => ?_⟩
    rw [List.mem_singleton.mp ha]
    refine ⟨by norm_num, fun e he => ?_⟩
    rw [List.mem_singleton.mp he]
    exact hfits [] (by norm_num)

theorem named_unambiguous : content (named 0) = content (named 1) ∧ ([0] : List UInt8) = [0] :=
  packets_unambiguous (named 0) (named 1) [0] [0] (named_sized 0) (named_sized 1) (by decide)

/-- A frame of packets that fit and announce their items, with a payload whose size fits. -/
structure Writable (typeOf : CmdCode → Option Nat) (t : TcpPacket) : Prop where
  packets : ∀ p ∈ t.packets, Sized typeOf p
  size : t.payload.length < 2 ^ 16

def contents (t : TcpPacket) : TcpPacket := { packets := t.packets.map content }

theorem Writable.messages {t : TcpPacket} (h : Writable typeOf t) : ∃ ws : List (Message typeOf),
    (t.build.1, contents t) =
        (bytes 2 (ws.flatMap Message.encode).length ++ ws.flatMap Message.encode,
          { packets := ws.map (fun w => (packetData w).copy) }) ∧
      (ws.flatMap Message.encode).length < 2 ^ 16 ∧ ∀ w ∈ ws, w.layout = .sized := by
  let build (p : Packet) : List UInt8 × Packet := (p.build.1, content p)
  have hparts : ∀ p ∈ t.packets, ∃ w : Message typeOf,
      build p = (w.encode, (packetData w).copy) ∧ w.layout = .sized :=
    fun p hp => (h.packets p hp).message
  obtain ⟨ws, _, hbytes, hdata, hsized⟩ := exists_sequence hparts
  have hpayload : t.payload = ws.flatMap Message.encode := hbytes
  refine ⟨ws, ?_, hpayload ▸ h.size, hsized⟩
  rw [TcpPacket.build, fromUint16_eq, Nat.mod_eq_of_lt h.size, hpayload, contents]
  exact Prod.ext rfl (congrArg (fun packets => ({ packets := packets } : TcpPacket)) hdata)

theorem exists_frames {ts : List TcpPacket} (h : ∀ t ∈ ts, Writable typeOf t) :
    ∃ wss : List (List (Message typeOf)),
      ts.flatMap (fun t => t.build.1) = wss.flatMap
        (fun ws => bytes 2 (ws.flatMap Message.encode).length ++ ws.flatMap Message.encode) ∧
      ts.map contents = wss.map
        (fun ws => { packets := ws.map (fun w => (packetData w).copy) }) ∧
      ∀ ws ∈ wss, (ws.flatMap Message.encode).length < 2 ^ 16 ∧ ∀ w ∈ ws, w.layout = .sized := by
  let build (t : TcpPacket) : List UInt8 × TcpPacket := (t.build.1, contents t)
  have hparts : ∀ t ∈ ts, ∃ ws : List (Message typeOf), build t =
        (bytes 2 (ws.flatMap Message.encode).length ++ ws.flatMap Message.encode,
          { packets := ws.map (fun w => (packetData w).copy) }) ∧
      (ws.flatMap Message.encode).length < 2 ^ 16 ∧ ∀ w ∈ ws, w.layout = .sized :=
    fun t ht => (h t ht).messages
  obtain ⟨wss, _, hbytes, hdata, hfits⟩ := exists_sequence hparts
  exact ⟨wss, hbytes, hdata, hfits⟩

/-- Frames that are sent one after the other can be told apart, and so can their packets: no other
frames build to the same stream. -/
theorem streams_unambiguous (ts us : List TcpPacket) (hts : ∀ t ∈ ts, Writable EnumDataTypes.typeOf t)
    (hus : ∀ u ∈ us, Writable EnumDataTypes.typeOf u)
    (h : ts.flatMap (fun t => t.build.1) = us.flatMap (fun u => u.build.1)) :
    ts.map contents = us.map contents := by
  obtain ⟨wss, htbytes, htdata, hws⟩ := exists_frames hts
  obtain ⟨vss, hubytes, hudata, hvs⟩ := exists_frames hus
  rw [htbytes, hubytes] at h
  have hne : ∀ ws : List (Message EnumDataTypes.typeOf),
      bytes 2 (ws.flatMap Message.encode).length ++ ws.flatMap Message.encode ≠ [] := by
    intro ws hnil
    have hlen := congrArg List.length hnil
    rw [List.length_append, length_bytes, List.length_nil] at hlen
    omega
  rw [htdata, hudata, prefixFree_frame.stream (fun ws _ => hne ws) hws hvs h]

theorem named_writable (size : Nat) :
    Writable EnumDataTypes.typeOf { packets := [named size] } := by
  refine ⟨?_, ?_⟩
  · intro p hp
    rw [List.mem_singleton.mp hp]
    exact named_sized size
  · have hlen : (named size).build.1.length = 25 := rfl
    rw [TcpPacket.payload, List.flatMap_singleton, hlen]
    norm_num

theorem named_streams : [({ packets := [named 0] } : TcpPacket), {}].map contents =
    [({ packets := [named 1] } : TcpPacket), {}].map contents := by
  have hwritable : ∀ size, ∀ t ∈ [({ packets := [named size] } : TcpPacket), {}],
      Writable EnumDataTypes.typeOf t := by
    intro size t ht
    obtain rfl | rfl : t = { packets := [named size] } ∨ t = {} := by simpa using ht
    · exact named_writable size
    · exact ⟨by simp, by decide⟩
  exact streams_unambiguous _ _ (hwritable 0) (hwritable 1) (by decide)

end GlobalAgenda.Unambiguous
