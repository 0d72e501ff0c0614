import GlobalAgenda.EntryHeader
import Mathlib.Data.List.TakeDrop

namespace GlobalAgenda

open EnumDataTypes ValueConverter Base.Triples

structure DataEntry where
  entryHeader : EntryHeader := {}
  data : List UInt8 := []
  deriving DecidableEq, Repr

namespace DataEntry

/-- `m_parse`: a payload that does not fit is left unread. -/
def parse (m : Machine) (h : EntryHeader) : Decoder (List UInt8) := do
  let start ← cursor
  if isEnoughToRead m start h.getSize then
    let type ← h.getType m
    if type = some .typeTcpDataSet then
      throw (.exception "DataEntry cannot parse DATA_SET type")
    else
      advance h.getSize
      lift (m.fetch start h.getSize)
  else
    pure []

def ofHeader (m : Machine) (h : EntryHeader) : Decoder DataEntry := do
  let data ← parse m h
  pure ⟨h, data⟩

def ofInput (m : Machine) : Decoder DataEntry := do
  let h ← EntryHeader.ofInput m
  ofHeader m h

def ofCmd (typeOf : CmdCode → Option Nat) (cmd : CmdCode) (data : List UInt8) :
    Except Fault DataEntry := do
  let h ← EntryHeader.ofCmd typeOf cmd 0
  pure ⟨h, data⟩

def ofUint16 (typeOf : CmdCode → Option Nat) (cmd : CmdCode) (value : UInt16) :
    Except Fault DataEntry := ofCmd typeOf cmd (fromUint16 value.toNat)

def ofUint32 (typeOf : CmdCode → Option Nat) (cmd : CmdCode) (value : UInt32) :
    Except Fault DataEntry := ofCmd typeOf cmd (fromUint32 value.toNat)

def ofUint64 (typeOf : CmdCode → Option Nat) (cmd : CmdCode) (value : UInt64) :
    Except Fault DataEntry := ofCmd typeOf cmd (fromUint64 value.toNat)

def ofBool (typeOf : CmdCode → Option Nat) (cmd : CmdCode) (value : Bool) :
    Except Fault DataEntry := ofCmd typeOf cmd (fromBool value)

/-- `DataEntry(cmd, value)` for a double given by its bits. -/
def ofDouble (typeOf : CmdCode → Option Nat) (cmd : CmdCode) (value : UInt64) :
    Except Fault DataEntry := ofCmd typeOf cmd (fromDouble value)

/-- `DataEntry(cmd, port, ip)`: each assignment replaces the payload. -/
def ofAddress (typeOf : CmdCode → Option Nat) (cmd : CmdCode) (port : UInt16) (ip : UInt32) :
    Except Fault DataEntry := do
  let h ← EntryHeader.ofCmd typeOf cmd 0
  let e : DataEntry := ⟨h, []⟩
  let e := { e with data := fromUint16 0x0002 }
  let e := { e with data := fromUint16 port.toNat }
  let e := { e with data := fromUint32 ip.toNat }
  pure e

def ofString (typeOf : CmdCode → Option Nat) (cmd : CmdCode) (value : List UInt8) :
    Except Fault DataEntry := do
  let h ← EntryHeader.ofCmd typeOf cmd 0
  let e : DataEntry := ⟨h, []⟩
  pure { e with data := e.data ++ value }

/-- `DataEntry(cmd, value)` for a pointer to these characters: the string ends before a zero. -/
def ofCharPtr (typeOf : CmdCode → Option Nat) (cmd : CmdCode) (value : List UInt8) :
    Except Fault DataEntry := ofString typeOf cmd (value.takeWhile (· ≠ 0))

def getCmd (e : DataEntry) : CmdCode := e.entryHeader.getCmd

def read (x : Machine → Decoder Nat) (e : DataEntry) (beyond : Nat → UInt8) : Option Nat :=
  returned (x (.server e.data beyond)) {}

def getUint8 (e : DataEntry) (beyond : Nat → UInt8) : Option Nat := e.read toUint8 beyond

def getUint16 (e : DataEntry) (beyond : Nat → UInt8) : Option Nat := e.read toUint16 beyond

def getUint32 (e : DataEntry) (beyond : Nat → UInt8) : Option Nat := e.read toUint32 beyond

def getUint64 (e : DataEntry) (beyond : Nat → UInt8) : Option Nat := e.read toUint64 beyond

def getRawData (e : DataEntry) : List UInt8 := e.data

def getString (e : DataEntry) : List UInt8 :=
  e.data.foldl (fun str b => if b = 0x00 then str else str ++ [b]) []

/-- What `build` leaves behind: the size or the payload is adjusted in place. -/
def sanitized (e : DataEntry) : DataEntry :=
  let s := e.entryHeader.sanitizePayloadSizeByType e.data 0
  ⟨s.1, s.2⟩

def build (e : DataEntry) : List UInt8 × DataEntry :=
  (e.sanitized.entryHeader.build ++ e.sanitized.data, e.sanitized)

def valid (e : DataEntry) : Bool :=
  if e.entryHeader.getCmd = CmdCode.unknown then false
  else if e.data.length = 0 then false
  else true

/-- The header is one of its command and the size field can hold the payload's length. -/
def Fits (typeOf : CmdCode → Option Nat) (e : DataEntry) : Prop :=
  e.entryHeader.Consistent typeOf ∧ (e.entryHeader.sizeWidth ≠ 0 → e.data.length < 2 ^ 16)

def dbgPrint (m : Machine) (e : DataEntry) : Decoder Unit := e.entryHeader.dbgPrint m

theorem valid_iff (e : DataEntry) :
    e.valid = true ↔ e.entryHeader.cmd ≠ CmdCode.unknown ∧ e.data ≠ [] := by
  by_cases hcmd : e.entryHeader.cmd = CmdCode.unknown <;> by_cases hdata : e.data = [] <;>
    simp [valid, EntryHeader.getCmd, hcmd, hdata]

theorem sanitized_of_sized {e : DataEntry} (h : e.entryHeader.sizeWidth ≠ 0) :
    e.sanitized = ⟨{ e.entryHeader with contentSize := e.data.length }, e.data⟩ := by
  simp [sanitized, EntryHeader.sanitizePayloadSizeByType, h]

theorem sanitized_of_fixed {e : DataEntry} (h : e.entryHeader.sizeWidth = 0) :
    e.sanitized = ⟨e.entryHeader, e.data.takeD e.entryHeader.contentSize 0⟩ := by
  simp [sanitized, EntryHeader.sanitizePayloadSizeByType, h]

theorem sanitized_cmd (e : DataEntry) : e.sanitized.entryHeader.cmd = e.entryHeader.cmd :=
  EntryHeader.sanitize_cmd _ _ _

theorem sanitized_valid {e : DataEntry} (hv : e.valid)
    (hpos : e.entryHeader.sizeWidth = 0 → 0 < e.entryHeader.contentSize) : e.sanitized.valid := by
  obtain ⟨hcmd, hdata⟩ := (valid_iff e).mp hv
  rw [valid_iff]
  by_cases hw : e.entryHeader.sizeWidth = 0
  · rw [sanitized_of_fixed hw]
    refine ⟨hcmd, fun hnil => ?_⟩
    have hlen := congrArg List.length hnil
    rw [List.takeD_length] at hlen
    exact (hpos hw).ne' hlen
  · rw [sanitized_of_sized hw]
    exact ⟨hcmd, hdata⟩

end DataEntry

end GlobalAgenda
