import GlobalAgenda.Numbers

namespace GlobalAgenda.TypedArguments

open EnumDataTypes ValueConverter Base.LittleEndian Base.Triples Base.Consumption Encoding Decoding
  ParserSpec Numbers

/-- The arguments of the constructors for an address and for a double, which is given by its bits. -/
inductive Argument
  | address (port : UInt16) (ip : UInt32)
  | double (bits : UInt64)
  deriving DecidableEq, Repr

namespace Argument

def entry (typeOf : CmdCode → Option Nat) (cmd : CmdCode) : Argument → Except Fault DataEntry
  | address port ip => DataEntry.ofAddress typeOf cmd port ip
  | double bits => DataEntry.ofDouble typeOf cmd bits

/-- The payload that has the whole argument in it. -/
def payload : Argument → List UInt8
  | address port ip => bytes 2 0x0002 ++ bytes 2 port.toNat ++ bytes 4 ip.toNat
  | double bits => bytes 8 bits.toNat

/-- What the constructor leaves in `m_data`: of an address the part that was assigned last, of a
double nothing. -/
def stored : Argument → List UInt8
  | address _ ip => bytes 4 ip.toNat
  | double _ => bytes 8 0

inductive Alike : Argument → Argument → Prop
  | address (port port' : UInt16) (ip ip' : UInt32) : Alike (address port ip) (address port' ip')
  | double (bits bits' : UInt64) : Alike (double bits) (double bits')

theorem entry_eq (typeOf : CmdCode → Option Nat) (cmd : CmdCode) (a : Argument) :
    a.entry typeOf cmd = DataEntry.ofCmd typeOf cmd a.stored := by
  cases a with
  | address port ip =>
    rw [entry, DataEntry.ofAddress, stored, ← fromUint32_eq]
    rfl
  | double bits => rfl

theorem length_stored (a : Argument) : a.stored.length = 4 ∨ a.stored.length = 8 := by
  cases a with
  | address port ip => exact .inl (length_bytes 4 _)
  | double bits => exact .inr (length_bytes 8 _)

theorem Alike.length_stored {a b : Argument} (h : Alike a b) : a.stored.length = b.stored.length := by
  cases h with
  | address => simp only [stored, length_bytes]
  | double => rfl

theorem address_stored_eq_iff {port port' : UInt16} {ip ip' : UInt32} :
    (address port ip).stored = (address port' ip').stored ↔ ip = ip' := by
  constructor
  · intro hstored
    have hvalue := congrArg value hstored
    rw [stored, stored, value_bytes_of_lt ip.toNat_lt, value_bytes_of_lt ip'.toNat_lt] at hvalue
    exact UInt32.toNat_inj.mp hvalue
  · rintro rfl
    rfl

end Argument

def Distinct (cmd : CmdCode) (a b : Argument) : Prop :=
  ∃ e f, a.entry EnumDataTypes.typeOf cmd = .ok e ∧ b.entry EnumDataTypes.typeOf cmd = .ok f ∧
    e.build.1 ≠ f.build.1

/-- The argument is the payload that is built behind the header, and the payload that is read back
from the bytes, whatever follows them. -/
def Carried (cmd : CmdCode) (a : Argument) (rest : List UInt8) (beyond : Nat → UInt8) : Prop :=
  ∃ e parsed t, a.entry EnumDataTypes.typeOf cmd = .ok e ∧
    e.build.1 = e.sanitized.entryHeader.build ++ a.payload ∧
    DataEntry.ofInput (.server (e.build.1 ++ rest) beyond) {} = .ok parsed t ∧
    parsed.data = a.payload

def Kept (cmd : CmdCode) (a b : Argument) (rest : List UInt8) (beyond : Nat → UInt8) : Prop :=
  (a ≠ b → Distinct cmd a b) ∧ Carried cmd a rest beyond ∧ Carried cmd b rest beyond

/-- The type has a size field or eight bytes. -/
def Wide (type : Nat) : Prop := type = 0 ∨ type = 6 ∨ type = 10 ∨ gTypeSizes.getD type 0 = 8

theorem wide_uint64 : Wide 8 := .inr (.inr (.inr rfl))

variable {cmd : CmdCode} {type : Nat} {a b : Argument} {rest : List UInt8} {beyond : Nat → UInt8}

theorem wireWidth_wide (hw : Wide type) (k : Nat) : wireWidth type k = k ∨ wireWidth type k = 8 := by
  rw [wireWidth]
  by_cases hsized : type = 0 ∨ type = 6 ∨ type = 10
  · exact .inl (if_pos hsized)
  · rw [if_neg hsized]
    rw [Wide] at hw
    omega

theorem entry_known (ht : typeOf cmd = some type) (a : Argument) :
    ∃ e, a.entry EnumDataTypes.typeOf cmd = .ok e := by
  rw [a.entry_eq, ofCmd_known ht]
  exact ⟨_, rfl⟩

theorem entry_data (ht : typeOf cmd = some type) {e : DataEntry}
    (he : a.entry EnumDataTypes.typeOf cmd = .ok e) :
    e.sanitized.data = a.stored.takeD (wireWidth type a.stored.length) 0 := by
  rw [a.entry_eq] at he
  exact wire_payload ht he

theorem takeD_inj {p q : List UInt8} {w : Nat} (hlen : p.length = q.length) (hw : p.length ≤ w)
    (h : p.takeD w 0 = q.takeD w 0) : p = q := by
  have hvalue := congrArg value h
  have hp : value p < 256 ^ w := (value_lt p).trans_le (Nat.pow_le_pow_right (by norm_num) hw)
  have hq : value q < 256 ^ w :=
    (value_lt q).trans_le (Nat.pow_le_pow_right (by norm_num) (hlen ▸ hw))
  rw [value_takeD, value_takeD, Nat.mod_eq_of_lt hp, Nat.mod_eq_of_lt hq] at hvalue
  rw [← bytes_value p, ← bytes_value q, hvalue, hlen]

theorem sanitized_header {header : EntryHeader} {p q : List UInt8} (hlen : p.length = q.length) :
    (DataEntry.sanitized ⟨header, p⟩).entryHeader =
      (DataEntry.sanitized ⟨header, q⟩).entryHeader := by
  by_cases hwidth : header.sizeWidth = 0
  · rw [DataEntry.sanitized_of_fixed hwidth, DataEntry.sanitized_of_fixed hwidth]
  · rw [DataEntry.sanitized_of_sized hwidth, DataEntry.sanitized_of_sized hwidth]
    simp only [hlen]

theorem build_eq_iff (ht : typeOf cmd = some type) (hw : Wide type) (hab : Argument.Alike a b)
    {e f : DataEntry} (he : a.entry EnumDataTypes.typeOf cmd = .ok e)
    (hf : b.entry EnumDataTypes.typeOf cmd = .ok f) : e.build.1 = f.build.1 ↔ a.stored = b.stored := by
  have hlen := hab.length_stored
  have hle : a.stored.length ≤ wireWidth type a.stored.length := by
    have hwidth := wireWidth_wide hw a.stored.length
    have hstored := a.length_stored
    omega
  have hedata := entry_data ht he
  have hfdata := entry_data ht hf
  have hheader : e.sanitized.entryHeader = f.sanitized.entryHeader := by
    rw [Argument.entry_eq, ofCmd_known ht] at he hf
    cases he
    cases hf
    exact sanitized_header hlen
  rw [DataEntry.build, DataEntry.build, hheader, hedata, hfdata, List.append_cancel_left_eq, ← hlen]
  exact ⟨takeD_inj hlen hle, fun h => by rw [h]⟩

theorem distinct_iff (ht : typeOf cmd = some type) (hw : Wide type) (hab : Argument.Alike a b) :
    Distinct cmd a b ↔ a.stored ≠ b.stored := by
  constructor
  · rintro ⟨e, f, he, hf, hne⟩ hstored
    exact hne ((build_eq_iff ht hw hab he hf).mpr hstored)
  · intro hne
    obtain ⟨e, he⟩ := entry_known ht a
    obtain ⟨f, hf⟩ := entry_known ht b
    exact ⟨e, f, he, hf, fun h => hne ((build_eq_iff ht hw hab he hf).mp h)⟩

/-- Addresses build differently exactly if their ips differ: the port is lost. -/
theorem address_distinct_iff (ht : typeOf cmd = some type) (hw : Wide type) (port port' : UInt16)
    (ip ip' : UInt32) : Distinct cmd (.address port ip) (.address port' ip') ↔ ip ≠ ip' := by
  rw [distinct_iff ht hw (.address port port' ip ip'), ne_eq, Argument.address_stored_eq_iff]

theorem double_not_distinct (ht : typeOf cmd = some type) (hw : Wide type) (bits bits' : UInt64) :
    ¬ Distinct cmd (.double bits) (.double bits') := by
  rw [distinct_iff ht hw (.double bits bits')]
  exact fun hne => hne rfl

theorem value_address (port : UInt16) (ip : UInt32) : value (Argument.address port ip).payload =
    2 + 256 ^ 2 * port.toNat + 256 ^ 4 * ip.toNat := by
  have hfamily : value (bytes 2 0x0002) = 2 := value_bytes_of_lt (by norm_num)
  have hport : value (bytes 2 port.toNat) = port.toNat := value_bytes_of_lt port.toNat_lt
  have hip : value (bytes 4 ip.toNat) = ip.toNat := value_bytes_of_lt ip.toNat_lt
  simp only [Argument.payload, value_append, List.length_append, length_bytes, hfamily, hport, hip]

/-- The payload on the wire is the argument's only for the double of which all bits are zero. -/
theorem wire_eq_payload_iff (hw : Wide type) :
    a.stored.takeD (wireWidth type a.stored.length) 0 = a.payload ↔ a = .double 0 := by
  constructor
  · intro h
    have hvalue := congrArg value h
    rw [value_takeD] at hvalue
    cases a with
    | address port ip =>
      have hstored : value (Argument.address port ip).stored = ip.toNat :=
        value_bytes_of_lt ip.toNat_lt
      rw [hstored, value_address] at hvalue
      have hle := Nat.mod_le ip.toNat (256 ^ wireWidth type (Argument.address port ip).stored.length)
      omega
    | double bits =>
      have hbits : value (bytes 8 bits.toNat) = bits.toNat := value_bytes_of_lt bits.toNat_lt
      have hzero : value (Argument.double bits).stored = 0 := value_bytes_of_lt (by norm_num)
      rw [hzero, Nat.zero_mod, Argument.payload, hbits] at hvalue
      have heq : bits = 0 := UInt64.toNat_inj.mp hvalue.symm
      rw [heq]
  · rintro rfl
    have hlen : (Argument.double 0).stored.length = 8 := rfl
    have hwidth := wireWidth_wide hw 8
    rw [or_self] at hwidth
    rw [hlen, hwidth]
    rfl

theorem throws_entry {e : DataEntry} (hfits : e.Fits EnumDataTypes.typeOf)
    (h6 : typeOf e.entryHeader.cmd = some 6) (rest : List UInt8) (beyond : Nat → UInt8) :
    ∃ t, DataEntry.ofInput (.server (e.build.1 ++ rest) beyond) {} = .error nestedDataSet t := by
  obtain ⟨w, hbuild, hcmd, _⟩ := entry_build hfits
  have hm := total_server (e.build.1 ++ rest) beyond
  have hstart : At (.server (e.build.1 ++ rest) beyond)
      (bytes 2 w.cmd.toNat ++ w.layout.sizeField w.payload.length ++ (w.payload ++ rest)) {} := by
    refine ⟨Nat.zero_le _, ?_⟩
    rw [← List.append_assoc, hbuild]
    rfl
  obtain ⟨h, t, hrun, rfl, ht⟩ :=
    (consumes_entryHeader (E := fun _ => False) hm w (w.payload ++ rest)).total hstart
  have hset : typeOf (header w.cmd w.layout w.payload.length).cmd = some 6 := by
    rw [header_cmd, hcmd, h6]
  have hle : t.it + (header w.cmd w.layout w.payload.length).contentSize ≤
      (e.build.1 ++ rest).length := by
    have hlen := ht.length
    change t.it + (w.payload ++ rest).length = (e.build.1 ++ rest).length at hlen
    rw [List.length_append] at hlen
    rw [header_contentSize w.fits]
    omega
  refine ⟨t, ?_⟩
  rw [DataEntry.ofInput, bind_ok hrun]
  exact throws_nested hset hle t rfl

theorem entry_fits {e : DataEntry} (he : a.entry EnumDataTypes.typeOf cmd = .ok e) :
    e.Fits EnumDataTypes.typeOf := by
  rw [a.entry_eq] at he
  exact ofCmd_fits he (by have := a.length_stored; omega)

theorem entry_cmd (ht : typeOf cmd = some type) {e : DataEntry}
    (he : a.entry EnumDataTypes.typeOf cmd = .ok e) : e.entryHeader.cmd = cmd := by
  rw [a.entry_eq, ofCmd_known ht] at he
  cases he
  rfl

theorem carried_iff (ht : typeOf cmd = some type) (hw : Wide type) :
    Carried cmd a rest beyond ↔ type ≠ 6 ∧ a = .double 0 := by
  constructor
  · rintro ⟨e, parsed, t, he, hbuild, hrun, _⟩
    have hpayload : e.sanitized.data = a.payload := List.append_cancel_left hbuild
    rw [entry_data ht he, wire_eq_payload_iff hw] at hpayload
    refine ⟨?_, hpayload⟩
    rintro rfl
    obtain ⟨t', hthrows⟩ := throws_entry (entry_fits he) (by rw [entry_cmd ht he, ht]) rest beyond
    rw [hrun] at hthrows
    cases hthrows
  · rintro ⟨h6, ha⟩
    obtain ⟨e, he⟩ := entry_known ht a
    have hset : typeOf e.entryHeader.cmd ≠ some 6 := by
      rw [entry_cmd ht he, ht]
      simpa using h6
    obtain ⟨t, hrun, _⟩ := reads_entry (entry_fits he) hset rest beyond
    have hpayload : e.sanitized.data = a.payload :=
      (entry_data ht he).trans ((wire_eq_payload_iff hw).mpr ha)
    exact ⟨e, e.sanitized, t, he, by rw [DataEntry.build, hpayload], hrun, hpayload⟩

/-- Typed arguments are kept only if all their bits are zero and they make up a double. -/
theorem kept_iff (ht : typeOf cmd = some type) (hw : Wide type) (hab : Argument.Alike a b) :
    Kept cmd a b rest beyond ↔ type ≠ 6 ∧ a = .double 0 ∧ b = .double 0 := by
  rw [Kept, carried_iff ht hw, carried_iff ht hw, distinct_iff ht hw hab]
  constructor
  · rintro ⟨_, ⟨h6, ha⟩, _, hb⟩
    exact ⟨h6, ha, hb⟩
  · rintro ⟨h6, rfl, rfl⟩
    exact ⟨fun hne => absurd rfl hne, ⟨h6, rfl⟩, h6, rfl⟩

theorem kept_zero : Kept CmdCode.netAccessFlags (.double 0) (.double 0) [] (fun _ => 0) := by
  have hcmd : typeOf CmdCode.netAccessFlags = some 8 := by decide +kernel
  exact (kept_iff hcmd wide_uint64 (.double 0 0)).mpr ⟨by decide, rfl, rfl⟩

/-- The same ip with two ports. -/
theorem some_argument_lost : ¬ ∀ (cmd : CmdCode) (type : Nat) (a b : Argument) (rest : List UInt8)
    (beyond : Nat → UInt8), typeOf cmd = some type → Wide type → a.Alike b →
      Kept cmd a b rest beyond := by
  intro h
  have hcmd : typeOf CmdCode.netAccessFlags = some 8 := by decide +kernel
  have hkept := h _ _ (.address 80 0x0100007F) (.address 443 0x0100007F) [] (fun _ => 0) hcmd
    wide_uint64 (.address 80 443 _ _)
  exact (address_distinct_iff hcmd wide_uint64 _ _ _ _).mp (hkept.1 (by decide)) rfl

end GlobalAgenda.TypedArguments
