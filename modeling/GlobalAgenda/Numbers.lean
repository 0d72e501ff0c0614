import GlobalAgenda.Decoding
import GlobalAgenda.MemoryIndependence

namespace GlobalAgenda.Numbers

open EnumDataTypes ValueConverter Base.LittleEndian Base.Triples Base.Consumption Wire Encoding
  Decoding

/-- The arguments of the numeric constructors of `DataEntry`. -/
inductive Number
  | bool (value : Bool)
  | uint16 (value : UInt16)
  | uint32 (value : UInt32)
  | uint64 (value : UInt64)

namespace Number

def width : Number → Nat
  | bool _ => 1
  | uint16 _ => 2
  | uint32 _ => 4
  | uint64 _ => 8

def toNat : Number → Nat
  | bool value => value.toNat
  | uint16 value => value.toNat
  | uint32 value => value.toNat
  | uint64 value => value.toNat

def entry (typeOf : CmdCode → Option Nat) (cmd : CmdCode) : Number → Except Fault DataEntry
  | bool value => DataEntry.ofBool typeOf cmd value
  | uint16 value => DataEntry.ofUint16 typeOf cmd value
  | uint32 value => DataEntry.ofUint32 typeOf cmd value
  | uint64 value => DataEntry.ofUint64 typeOf cmd value

theorem entry_eq (typeOf : CmdCode → Option Nat) (cmd : CmdCode) (n : Number) :
    n.entry typeOf cmd = DataEntry.ofCmd typeOf cmd (bytes n.width n.toNat) := by
  cases n with
  | bool value => rw [entry, DataEntry.ofBool, fromBool, fromUint8_eq]; rfl
  | uint16 value => rw [entry, DataEntry.ofUint16, fromUint16_eq]; rfl
  | uint32 value => rw [entry, DataEntry.ofUint32, fromUint32_eq]; rfl
  | uint64 value => rw [entry, DataEntry.ofUint64, fromUint64_eq]; rfl

end Number

inductive Getter
  | uint8
  | uint16
  | uint32
  | uint64

namespace Getter

def width : Getter → Nat
  | uint8 => 1
  | uint16 => 2
  | uint32 => 4
  | uint64 => 8

def get (e : DataEntry) (beyond : Nat → UInt8) : Getter → Option Nat
  | uint8 => e.getUint8 beyond
  | uint16 => e.getUint16 beyond
  | uint32 => e.getUint32 beyond
  | uint64 => e.getUint64 beyond

theorem get_eq (g : Getter) (e : DataEntry) (beyond : Nat → UInt8) : g.get e beyond =
    some (if g.width ≤ e.data.length then value e.data % 256 ^ g.width else 0) := by
  have hload := Machine.load_server e.data beyond
  have hread : ∀ amount ≤ 8, returned (toUintValueFromVector (.server e.data beyond) amount >>=
      fun v => pure (v % 256 ^ amount)) {} =
        some (if amount ≤ e.data.length then value e.data % 256 ^ amount else 0) := by
    intro amount hamount
    have hrun := MemoryIndependence.value_run hload hamount {}
    change _ = if 0 + amount ≤ e.data.length then _ else _ at hrun
    rw [Nat.zero_add] at hrun
    by_cases henough : amount ≤ e.data.length
    · rw [if_pos henough] at hrun
      rw [returned, hrun, if_pos henough, value_mod]
      rfl
    · rw [if_neg henough] at hrun
      rw [returned, hrun, if_neg henough]
  cases g with
  | uint8 => exact hread 1 (by norm_num)
  | uint16 => exact hread 2 (by norm_num)
  | uint32 => exact hread 4 (by norm_num)
  | uint64 => exact hread 8 (by norm_num)

end Getter

/-- The width on the wire of a number of `k` bytes for a command of this type. -/
def wireWidth (type k : Nat) : Nat :=
  if type = 0 ∨ type = 6 ∨ type = 10 then k else gTypeSizes.getD type 0

/-- The entry made of a number is read back from its bytes, whatever follows them, and every getter
returns what has passed the widths of the constructor, the wire and the getter. -/
def Survives (cmd : CmdCode) (type : Nat) (n : Number) (rest : List UInt8)
    (beyond : Nat → UInt8) : Prop :=
  ∃ e parsed t, n.entry EnumDataTypes.typeOf cmd = .ok e ∧
    DataEntry.ofInput (.server (e.build.1 ++ rest) beyond) {} = .ok parsed t ∧
    t.it = e.build.1.length ∧ ∀ (g : Getter) (behind : Nat → UInt8), g.get parsed behind =
      some (if g.width ≤ wireWidth type n.width then
        n.toNat % 2 ^ (8 * min n.width (wireWidth type n.width)) % 2 ^ (8 * g.width) else 0)

variable {cmd : CmdCode} {type : Nat}

theorem ofCmd_known (ht : typeOf cmd = some type) (payload : List UInt8) :
    DataEntry.ofCmd EnumDataTypes.typeOf cmd payload = .ok ⟨⟨cmd,
      (if type = 0 ∨ type = 6 ∨ type = 10 then (2, 0) else (0, gTypeSizes.getD type 0)).2,
      (if type = 0 ∨ type = 6 ∨ type = 10 then (2, 0) else (0, gTypeSizes.getD type 0)).1⟩,
      payload⟩ := by
  rw [DataEntry.ofCmd, EntryHeader.ofCmd_eq (EntryHeader.getConfig_known ht (typeOf_le ht)) 0]
  rfl

theorem ofCmd_fits {payload : List UInt8} {e : DataEntry}
    (he : DataEntry.ofCmd EnumDataTypes.typeOf cmd payload = .ok e)
    (hlen : payload.length < 2 ^ 16) : e.Fits EnumDataTypes.typeOf := by
  obtain ⟨h, hh, he⟩ := except_bind_ok he
  cases he
  exact ⟨EntryHeader.ofCmd_consistent hh, fun _ => hlen⟩

theorem reads_entry {e : DataEntry} (hfits : e.Fits EnumDataTypes.typeOf)
    (h6 : typeOf e.entryHeader.cmd ≠ some 6) (rest : List UInt8) (beyond : Nat → UInt8) :
    ∃ t, DataEntry.ofInput (.server (e.build.1 ++ rest) beyond) {} = .ok e.sanitized t ∧
      t.it = e.build.1.length := by
  obtain ⟨w, hbuild, hcmd, hpayload⟩ := entry_build hfits
  have hread := consumes_entry (E := fun _ => False) (total_server (e.build.1 ++ rest) beyond) w
    (fun h => h6 (hcmd ▸ h))
  have hstart : At (.server (e.build.1 ++ rest) beyond) (w.encode ++ rest) {} :=
    ⟨Nat.zero_le _, by rw [hbuild]; rfl⟩
  obtain ⟨parsed, t, hrun, rfl, ht⟩ := (hread rest).total hstart
  have hsanitized : e.sanitized = entryData w := congrArg Prod.snd hbuild
  have hlen := ht.length
  change t.it + rest.length = (e.build.1 ++ rest).length at hlen
  rw [List.length_append] at hlen
  exact ⟨t, hrun.trans (by rw [hsanitized]; rfl), by omega⟩

theorem mod_pow_mod_pow (v k w : Nat) : v % 256 ^ k % 256 ^ w = v % 2 ^ (8 * min k w) := by
  have hpow : ∀ n, 2 ^ (8 * n) = 256 ^ n := fun n => Nat.pow_mul 2 8 n
  obtain hle | hle := Nat.le_total k w
  · have hlt : v % 256 ^ k < 256 ^ w :=
      (Nat.mod_lt _ (by positivity)).trans_le (Nat.pow_le_pow_right (by norm_num) hle)
    rw [Nat.mod_eq_of_lt hlt, Nat.min_eq_left hle, hpow]
  · rw [Nat.mod_mod_of_dvd _ (Nat.pow_dvd_pow 256 hle), Nat.min_eq_right hle, hpow]

theorem wire_payload (ht : typeOf cmd = some type) {payload : List UInt8} {e : DataEntry}
    (he : DataEntry.ofCmd EnumDataTypes.typeOf cmd payload = .ok e) :
    e.sanitized.data = payload.takeD (wireWidth type payload.length) 0 := by
  rw [ofCmd_known ht] at he
  cases he
  by_cases hsized : type = 0 ∨ type = 6 ∨ type = 10
  · rw [if_pos hsized, DataEntry.sanitized_of_sized (by norm_num), wireWidth, if_pos hsized,
      List.takeD_eq_take _ le_rfl, List.take_length]
  · rw [if_neg hsized, DataEntry.sanitized_of_fixed rfl, wireWidth, if_neg hsized]

/-- Every number given to a constructor passes the wire for every command but a data set's. -/
theorem numbers_survive (ht : typeOf cmd = some type) (h6 : type ≠ 6) (n : Number)
    (rest : List UInt8) (beyond : Nat → UInt8) : Survives cmd type n rest beyond := by
  have hentry := n.entry_eq EnumDataTypes.typeOf cmd
  have hmade := ofCmd_known ht (bytes n.width n.toNat)
  generalize he : (⟨⟨cmd,
    (if type = 0 ∨ type = 6 ∨ type = 10 then (2, 0) else (0, gTypeSizes.getD type 0)).2,
    (if type = 0 ∨ type = 6 ∨ type = 10 then (2, 0) else (0, gTypeSizes.getD type 0)).1⟩,
    bytes n.width n.toNat⟩ : DataEntry) = e at hmade
  have hwidth : n.width < 2 ^ 16 := by cases n <;> norm_num [Number.width]
  have hcmd : e.entryHeader.cmd = cmd := by rw [← he]
  have hset : typeOf e.entryHeader.cmd ≠ some 6 := by
    rw [hcmd, ht]
    simpa using h6
  obtain ⟨t, hrun, hit⟩ := reads_entry (ofCmd_fits hmade (by rwa [length_bytes])) hset rest beyond
  have hdata := wire_payload ht hmade
  rw [length_bytes] at hdata
  refine ⟨e, e.sanitized, t, hentry.trans hmade, hrun, hit, fun g behind => ?_⟩
  have hwire := mod_pow_mod_pow n.toNat n.width (wireWidth type n.width)
  rw [g.get_eq, hdata, List.takeD_length, value_takeD, value_bytes, hwire, Nat.pow_mul 2 8 g.width]

theorem numbers_survive_accessFlags :
    Survives CmdCode.netAccessFlags 8 (.uint32 0x01FFF3F8) [0x05] (fun _ => 0) :=
  numbers_survive (by decide +kernel) (by decide) _ _ _

end GlobalAgenda.Numbers
