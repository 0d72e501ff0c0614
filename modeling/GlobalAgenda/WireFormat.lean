import GlobalAgenda.Base.LittleEndian
import GlobalAgenda.EnumDataTypes

namespace GlobalAgenda.Wire

open EnumDataTypes Base.LittleEndian

/-- A payload follows its size in two bytes, or has the size of its type. -/
inductive Layout
  | sized
  | fixed (size : Nat)
  deriving DecidableEq, Repr

namespace Layout

def sizeField : Layout → Nat → List UInt8
  | sized, n => bytes 2 n
  | fixed _, _ => []

def Holds : Layout → Nat → Prop
  | sized, n => n < 2 ^ 16
  | fixed size, n => n = size

/-- How many items a header of this layout can announce. -/
def capacity : Layout → Nat
  | sized => 2 ^ 16 - 1
  | fixed size => size

end Layout

def layoutOf (typeOf : CmdCode → Option Nat) (cmd : CmdCode) : Option Layout :=
  match typeOf cmd with
  | none => none
  | some type =>
    if type = 0 ∨ type = 6 ∨ type = 10 then some .sized
    else if type ≤ 10 then some (.fixed (gTypeSizes.getD type 0))
    else none

variable (typeOf : CmdCode → Option Nat)

/-- A command with a payload of the size its layout asks for. -/
structure Entry where
  cmd : CmdCode
  layout : Layout
  payload : List UInt8
  layout_eq : layoutOf typeOf cmd = some layout
  fits : layout.Holds payload.length

structure Record where
  entries : List (Entry typeOf)
  fits : entries.length < 2 ^ 16

structure Table where
  cmd : CmdCode
  records : List (Record typeOf)
  type_eq : typeOf cmd = some 6
  fits : records.length < 2 ^ 16

/-- What a receiver takes as an item of a packet and does not stop at. -/
def Entry.Readable {typeOf : CmdCode → Option Nat} (e : Entry typeOf) : Prop :=
  e.cmd ≠ CmdCode.unknown ∧ e.payload ≠ [] ∧ typeOf e.cmd ≠ some 6

structure Message where
  cmd : CmdCode
  layout : Layout
  entries : List (Entry typeOf)
  tables : List (Table typeOf)
  layout_eq : layoutOf typeOf cmd = some layout
  fits : entries.length + tables.length ≤ layout.capacity
  readable : ∀ e ∈ entries, e.Readable

variable {typeOf}

def Entry.encode (e : Entry typeOf) : List UInt8 :=
  bytes 2 e.cmd.toNat ++ e.layout.sizeField e.payload.length ++ e.payload

def Record.encode (r : Record typeOf) : List UInt8 :=
  bytes 2 r.entries.length ++ r.entries.flatMap Entry.encode

def Table.encode (t : Table typeOf) : List UInt8 :=
  bytes 2 t.cmd.toNat ++ Layout.sized.sizeField t.records.length ++ t.records.flatMap Record.encode

def Message.count (m : Message typeOf) : Nat := m.entries.length + m.tables.length

def Message.encode (m : Message typeOf) : List UInt8 :=
  bytes 2 m.cmd.toNat ++ m.layout.sizeField m.count ++
    (m.entries.flatMap Entry.encode ++ m.tables.flatMap Table.encode)

theorem layoutOf_type {cmd : CmdCode} {l : Layout} (h : layoutOf typeOf cmd = some l) :
    ∃ type ≤ 10, typeOf cmd = some type := by
  cases ht : typeOf cmd with
  | none => simp [layoutOf, ht] at h
  | some type =>
    refine ⟨type, ?_, rfl⟩
    by_contra hgt
    have hsized : ¬ (type = 0 ∨ type = 6 ∨ type = 10) := by omega
    simp [layoutOf, ht, hsized, hgt] at h

theorem layoutOf_table {cmd : CmdCode} (h : typeOf cmd = some 6) :
    layoutOf typeOf cmd = some .sized := by
  simp [layoutOf, h]

theorem layoutOf_known {cmd : CmdCode} {type : Nat} (h : typeOf cmd = some type) (ht : type ≤ 10) :
    layoutOf typeOf cmd = some (if type = 0 ∨ type = 6 ∨ type = 10 then .sized
      else .fixed (gTypeSizes.getD type 0)) := by
  by_cases hs : type = 0 ∨ type = 6 ∨ type = 10
  · simp only [layoutOf, h, if_pos hs]
  · simp only [layoutOf, h, if_neg hs, if_pos ht]

theorem Entry.two_le_length (e : Entry typeOf) : 2 ≤ e.encode.length := by
  simp only [encode, List.length_append, length_bytes]
  omega

theorem Table.two_le_length (t : Table typeOf) : 2 ≤ t.encode.length := by
  simp only [encode, List.length_append, length_bytes]
  omega

theorem Message.two_le_length (m : Message typeOf) : 2 ≤ m.encode.length := by
  simp only [encode, List.length_append, length_bytes]
  omega

end GlobalAgenda.Wire
