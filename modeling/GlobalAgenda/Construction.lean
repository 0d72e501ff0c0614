import GlobalAgenda.Packet

namespace GlobalAgenda

open EnumDataTypes ValueConverter Base.Triples

variable {typeOf : CmdCode → Option Nat}

namespace EntryHeader

theorem ofInput_ok {m : Machine} {s t : Scan} {h : EntryHeader} (hh : ofInput m s = .ok h t) :
    h.cmd = cmdAt m.input s.it ∧ h.Consistent m.typeOf := by
  obtain ⟨cmd, s₁, hread, hh⟩ := bind_eq_ok hh
  obtain ⟨config, s₂, hconfig, hh⟩ := bind_eq_ok hh
  have hc : getConfig m.typeOf cmd = .ok config := lift_ok hconfig
  have hcmd : cmd = cmdAt m.input s.it := by
    obtain ⟨val, s₃, hval, hread⟩ := bind_eq_ok hread
    rw [cmdAt, ← toUint16_ok hval]
    cases hread
    rfl
  obtain rfl | ⟨size, _, _, rfl⟩ := getConfig_cases hc
  · obtain ⟨size, s₃, _, hh⟩ := bind_eq_ok hh
    cases hh
    exact ⟨hcmd, _, hc, rfl, nofun⟩
  · cases hh
    exact ⟨hcmd, _, hc, rfl, fun _ => rfl⟩

/-- What the constructors and the two functions that set the size make. -/
inductive Made (typeOf : CmdCode → Option Nat) : EntryHeader → Prop
  | default : Made typeOf {}
  | ofCmd {cmd : CmdCode} {size : Nat} {h : EntryHeader} (hh : ofCmd typeOf cmd size = .ok h) :
      Made typeOf h
  | parsed {m : Machine} {s t : Scan} {h : EntryHeader} (hm : m.typeOf = typeOf)
      (hh : ofInput m s = .ok h t) : Made typeOf h
  | setSize {h : EntryHeader} (size : Nat) (hh : Made typeOf h) : Made typeOf (h.setSize size)
  | sanitized {α : Type} {h : EntryHeader} (payload : List α) (pad : α) (hh : Made typeOf h) :
      Made typeOf (h.sanitizePayloadSizeByType payload pad).1

/-- Whatever is done to its size, a header keeps the width that it was made with. -/
theorem Made.width {h : EntryHeader} (hh : h.Made typeOf) :
    h.cmd = CmdCode.unknown ∨ ∃ c, getConfig typeOf h.cmd = .ok c ∧ h.sizeWidth = c.1 := by
  induction hh with
  | default => exact .inl rfl
  | ofCmd hh =>
    obtain ⟨c, hc, rfl⟩ := ofCmd_ok hh
    exact .inr ⟨c, hc, rfl⟩
  | parsed hm hh =>
    subst hm
    obtain ⟨c, hc, hw, _⟩ := (ofInput_ok hh).2
    exact .inr ⟨c, hc, hw⟩
  | setSize size hh ih => exact ih
  | sanitized payload pad hh ih =>
    rw [sanitize_cmd, sanitize_width]
    exact ih

end EntryHeader

namespace DataEntry

/-- What the constructors of `DataEntry` and `build` make. The typed constructors differ from
`ofCmd` only in the data they start from. -/
inductive Made (typeOf : CmdCode → Option Nat) : DataEntry → Prop
  | default : Made typeOf {}
  | ofCmd {cmd : CmdCode} {data : List UInt8} {e : DataEntry}
      (h : DataEntry.ofCmd typeOf cmd data = .ok e) : Made typeOf e
  | parsed {m : Machine} {s t : Scan} {e : DataEntry} (hm : m.typeOf = typeOf)
      (h : DataEntry.ofInput m s = .ok e t) : Made typeOf e
  | ofHeader {m : Machine} {s t : Scan} {header : EntryHeader} {e : DataEntry}
      (hm : m.typeOf = typeOf) (hh : header.Made typeOf)
      (h : DataEntry.ofHeader m header s = .ok e t) : Made typeOf e
  | built {e : DataEntry} (h : Made typeOf e) : Made typeOf e.build.2

theorem ofHeader_header {m : Machine} {s t : Scan} {h : EntryHeader} {e : DataEntry}
    (he : ofHeader m h s = .ok e t) : e.entryHeader = h := by
  obtain ⟨data, u, _, he⟩ := bind_eq_ok he
  cases he
  rfl

end DataEntry

namespace DataSet

inductive Made (typeOf : CmdCode → Option Nat) : DataSet → Prop
  | default : Made typeOf {}
  | ofCmd {cmd : CmdCode} {anonArrays : List AnonymousArray} {d : DataSet}
      (h : DataSet.ofCmd typeOf cmd anonArrays = .ok d) : Made typeOf d
  | parsed {m : Machine} {s t : Scan} {d : DataSet} (hm : m.typeOf = typeOf)
      (h : DataSet.ofInput m s = .ok d t) : Made typeOf d
  | ofHeader {m : Machine} {s t : Scan} {header : EntryHeader} {d : DataSet}
      (hm : m.typeOf = typeOf) (hh : header.Made typeOf)
      (h : DataSet.ofHeader m header s = .ok d t) : Made typeOf d
  | built {d : DataSet} (h : Made typeOf d) : Made typeOf d.build.2

theorem ofHeader_header {m : Machine} {s t : Scan} {h : EntryHeader} {d : DataSet}
    (hd : ofHeader m h s = .ok d t) : d.entryHeader = h := by
  obtain ⟨anonArrays, u, _, hd⟩ := bind_eq_ok hd
  cases hd
  rfl

theorem Made.header {d : DataSet} (h : d.Made typeOf) : d.entryHeader.Made typeOf := by
  induction h with
  | default => exact .default
  | ofCmd h =>
    obtain ⟨header, hh, hd⟩ := except_bind_ok h
    cases hd
    exact .ofCmd hh
  | parsed hm h =>
    obtain ⟨header, s₁, hh, h⟩ := bind_eq_ok h
    rw [ofHeader_header h]
    exact .parsed hm hh
  | ofHeader hm hh h =>
    rw [ofHeader_header h]
    exact hh
  | built h ih => exact .sanitized _ _ ih

theorem Made.consistent {d : DataSet} (h : d.Made typeOf) (h6 : typeOf d.getCmd = some 6)
    (hne : d.getCmd ≠ CmdCode.unknown) : d.entryHeader.Consistent typeOf := by
  obtain hunknown | ⟨c, hc, hw⟩ := h.header.width
  · exact absurd hunknown hne
  · have hconfig := EntryHeader.getConfig_known h6 (by norm_num)
    rw [if_pos (by norm_num)] at hconfig
    cases hc.symm.trans hconfig
    exact ⟨_, hconfig, hw, nofun⟩

end DataSet

namespace Packet

/-- What `Packet(cmd)`, the appends, `build` and the copies in a frame make. -/
inductive Made (typeOf : CmdCode → Option Nat) (cmd : CmdCode) : Packet → Prop
  | ofCmd {p : Packet} (h : Packet.ofCmd typeOf cmd = .ok p) : Made typeOf cmd p
  | appendEntry {p : Packet} (e : DataEntry) (h : Made typeOf cmd p) :
      Made typeOf cmd (p.appendEntry e)
  | appendDataSet {p : Packet} (d : DataSet) (h : Made typeOf cmd p) :
      Made typeOf cmd (p.appendDataSet d)
  | built {p : Packet} (h : Made typeOf cmd p) : Made typeOf cmd p.build.2
  | copied {p : Packet} (h : Made typeOf cmd p) : Made typeOf cmd p.copy

theorem Made.header {cmd : CmdCode} {p : Packet} (h : p.Made typeOf cmd) :
    ∃ c, EntryHeader.getConfig typeOf cmd = .ok c ∧ p.packetHeader.cmd = cmd ∧
      p.packetHeader.sizeWidth = c.1 := by
  induction h with
  | ofCmd h =>
    obtain ⟨header, hh, hp⟩ := except_bind_ok h
    cases hp
    obtain ⟨c, hc, rfl⟩ := EntryHeader.ofCmd_ok hh
    exact ⟨c, hc, rfl, rfl⟩
  | appendEntry e h ih => exact ih
  | appendDataSet d h ih => exact ih
  | built h ih => exact ih
  | copied h ih => exact ih

theorem Made.append {cmd : CmdCode} {p : Packet} (h : p.Made typeOf cmd) (es : List DataEntry)
    (ds : List DataSet) : Made typeOf cmd
      { p with entries := p.entries ++ es, dataSets := p.dataSets ++ ds, entryIter := none } := by
  induction es generalizing p with
  | nil =>
    induction ds generalizing p with
    | nil =>
      rw [List.append_nil, List.append_nil]
      exact h.copied
    | cons d ds ih =>
      have hrest := ih (h.appendDataSet d)
      rwa [Packet.appendDataSet, List.append_assoc, List.singleton_append] at hrest
  | cons e es ih =>
    have hrest := ih (h.appendEntry e)
    rwa [Packet.appendEntry, List.append_assoc, List.singleton_append] at hrest

end Packet

end GlobalAgenda
