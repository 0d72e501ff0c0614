namespace GlobalAgenda.EnumDataTypes

/-- `ENUM_TYPE`: how the value of a command is laid out on the wire. -/
inductive EnumType
  | typeTcpWcharStr
  | typeTcpFloat
  | typeTcpDoubleOrIntSigned
  | typeTcpUint32
  | typeTcpUint16
  | typeTcpUint8
  | typeTcpDataSet
  | typeTcpDatetime
  | typeTcpUint64
  | typeTcpUuid16Bytes
  | typeTcpDynamicUint32Size
  deriving DecidableEq, Repr

def EnumType.ofValue : Nat → Option EnumType
  | 0 => some .typeTcpWcharStr
  | 1 => some .typeTcpFloat
  | 2 => some .typeTcpDoubleOrIntSigned
  | 3 => some .typeTcpUint32
  | 4 => some .typeTcpUint16
  | 5 => some .typeTcpUint8
  | 6 => some .typeTcpDataSet
  | 7 => some .typeTcpDatetime
  | 8 => some .typeTcpUint64
  | 9 => some .typeTcpUuid16Bytes
  | 10 => some .typeTcpDynamicUint32Size
  | _ => none

def guidSize : Nat := 16

def gTypeSizes : List Nat := [2, 4, 4, 4, 2, 1, 2, 8, 8, guidSize, 4]

/-- `CMD_CODE` is an enumeration over `uint16_t`, and the parser casts any 16 bits to it. -/
abbrev CmdCode := UInt16

namespace CmdCode

def unknown : CmdCode := 0x0000
def afkTimeoutSec : CmdCode := 0x001C
def applicationValue : CmdCode := 0x003B
def applyOnIntervalFlag : CmdCode := 0x003E
def bannedUntilDatetime : CmdCode := 0x0064
def connectionHandle : CmdCode := 0x00DB
def dataSet : CmdCode := 0x010C
def dataSetMapConfigs : CmdCode := 0x0170
def displayEulaFlag : CmdCode := 0x0213
def gameBits : CmdCode := 0x0270
def msgId : CmdCode := 0x036E
def nameMsgId : CmdCode := 0x0371
def netAccessFlags : CmdCode := 0x0375
def playerId : CmdCode := 0x03C3
def playerName : CmdCode := 0x03C5
def sessionGuid : CmdCode := 0x0473
def success : CmdCode := 0x04D4
def sysSiteId : CmdCode := 0x04DA
def textValue : CmdCode := 0x04FF
def version : CmdCode := 0x0536

end CmdCode

/-- The column `type` of `g_cmd_code_types_flags`, one row per command code. The column
`flags` is read nowhere. -/
def gCmdCodeTypesFlags : List Nat := [
    0, 5, 1, 5, 0, 0, 0, 0, 8, 3, 1, 7, 3, 3, 0, 3, 3, 3, 3, 7, 3, 3, 0, 3, 3, 3, 3, 1, 3, 3, 2, 3,
    0, 3, 3, 0, 0, 3, 2, 5, 5, 3, 3, 3, 0, 0, 0, 0, 5, 3, 0, 3, 7, 3, 3, 3, 1, 7, 0, 1, 3, 1, 0, 3,
    3, 3, 3, 3, 3, 5, 3, 0, 3, 0, 3, 3, 3, 3, 3, 3, 3, 3, 3, 3, 3, 3, 3, 1, 3, 3, 7, 0, 0, 0, 3, 3,
    3, 3, 3, 3, 7, 3, 5, 1, 1, 1, 3, 3, 3, 3, 3, 7, 3, 10, 0, 0, 0, 0, 0, 3, 3, 3, 3, 0, 3, 1, 1, 1,
    1, 5, 3, 5, 1, 1, 3, 3, 3, 3, 3, 3, 0, 5, 3, 3, 3, 3, 3, 3, 3, 1, 3, 5, 3, 3, 3, 3, 3, 3, 5, 0,
    0, 0, 0, 5, 3, 3, 3, 1, 1, 0, 0, 3, 3, 3, 2, 7, 3, 3, 3, 3, 0, 3, 3, 0, 3, 3, 1, 0, 5, 3, 3, 8,
    3, 7, 0, 0, 3, 3, 5, 3, 3, 3, 0, 0, 3, 0, 1, 1, 1, 1, 1, 1, 3, 0, 3, 1, 7, 3, 5, 3, 0, 0, 3, 0,
    3, 3, 3, 1, 3, 3, 3, 3, 3, 7, 3, 0, 1, 1, 1, 1, 3, 3, 2, 1, 2, 3, 3, 3, 1, 3, 0, 3, 1, 3, 3, 1,
    1, 3, 3, 3, 3, 3, 0, 0, 0, 0, 0, 3, 6, 6, 6, 6, 6, 6, 6, 6, 6, 6, 6, 6, 6, 6, 6, 6, 6, 6, 6, 6,
    6, 6, 6, 6, 6, 6, 6, 6, 6, 6, 6, 6, 6, 6, 6, 6, 6, 6, 6, 6, 6, 6, 6, 6, 6, 6, 6, 6, 6, 6, 6, 6,
    6, 6, 6, 6, 6, 6, 6, 6, 6, 6, 6, 6, 6, 6, 6, 6, 6, 6, 6, 6, 6, 6, 6, 6, 6, 6, 6, 6, 6, 6, 6, 6,
    6, 6, 6, 6, 6, 6, 6, 6, 6, 6, 6, 6, 6, 6, 6, 6, 6, 6, 6, 6, 6, 6, 6, 6, 6, 6, 6, 6, 6, 6, 6, 6,
    6, 6, 6, 6, 6, 6, 6, 6, 6, 6, 6, 6, 6, 6, 6, 6, 6, 6, 6, 6, 6, 6, 6, 6, 6, 6, 6, 6, 6, 6, 6, 6,
    6, 6, 6, 6, 6, 6, 6, 6, 6, 6, 6, 6, 6, 6, 6, 6, 6, 6, 6, 6, 6, 6, 6, 6, 6, 6, 6, 6, 6, 6, 6, 6,
    6, 6, 6, 6, 6, 6, 6, 6, 6, 6, 6, 6, 6, 0, 0, 0, 3, 0, 3, 3, 1, 3, 3, 1, 3, 0, 1, 3, 3, 3, 3, 3,
    3, 3, 3, 3, 1, 3, 1, 5, 3, 3, 3, 3, 3, 1, 2, 3, 3, 0, 1, 3, 3, 3, 3, 3, 0, 3, 0, 3, 0, 3, 3, 3,
    0, 0, 3, 5, 3, 0, 3, 0, 3, 0, 0, 3, 3, 3, 0, 0, 3, 3, 0, 0, 3, 3, 3, 3, 3, 0, 0, 0, 2, 1, 5, 1,
    3, 3, 10, 3, 3, 0, 3, 3, 2, 0, 3, 3, 3, 7, 7, 3, 3, 3, 0, 3, 7, 3, 0, 3, 3, 0, 3, 3, 0, 3, 5, 3,
    3, 3, 0, 0, 3, 7, 3, 3, 3, 0, 7, 3, 0, 7, 3, 0, 3, 8, 0, 5, 5, 5, 3, 3, 3, 3, 3, 3, 1, 3, 0, 3,
    5, 0, 3, 0, 3, 3, 3, 7, 3, 0, 3, 3, 3, 3, 3, 3, 3, 0, 3, 3, 3, 3, 3, 3, 5, 0, 3, 3, 3, 3, 3, 3,
    3, 0, 3, 3, 3, 0, 0, 3, 0, 1, 1, 1, 3, 3, 3, 1, 3, 3, 3, 3, 3, 3, 3, 3, 3, 3, 3, 0, 3, 3, 3, 1,
    0, 3, 0, 1, 1, 3, 3, 3, 3, 3, 0, 0, 0, 3, 0, 0, 0, 0, 8, 3, 0, 0, 0, 0, 0, 0, 0, 0, 3, 1, 3, 3,
    3, 0, 3, 3, 0, 3, 3, 0, 1, 1, 1, 3, 0, 0, 0, 2, 3, 0, 3, 3, 0, 3, 3, 5, 3, 3, 3, 3, 0, 3, 3, 3,
    3, 0, 0, 0, 0, 0, 0, 0, 0, 0, 0, 0, 0, 0, 0, 0, 0, 0, 3, 3, 3, 3, 1, 1, 1, 3, 1, 3, 1, 3, 7, 7,
    3, 0, 3, 3, 5, 3, 3, 0, 1, 1, 1, 1, 1, 1, 3, 3, 3, 3, 5, 3, 7, 3, 0, 3, 3, 3, 3, 3, 3, 3, 1, 0,
    0, 0, 3, 3, 3, 3, 0, 3, 3, 3, 0, 3, 0, 3, 3, 3, 3, 1, 1, 3, 3, 3, 3, 3, 0, 5, 3, 3, 3, 3, 3, 3,
    3, 3, 3, 2, 3, 3, 3, 3, 3, 3, 3, 1, 3, 3, 3, 3, 3, 3, 3, 0, 3, 0, 3, 3, 3, 3, 3, 3, 3, 3, 1, 3,
    0, 3, 3, 3, 3, 3, 3, 3, 3, 3, 3, 0, 3, 3, 3, 0, 0, 3, 0, 3, 3, 8, 3, 0, 3, 5, 0, 0, 3, 3, 1, 3,
    5, 3, 0, 3, 6, 3, 0, 3, 5, 3, 0, 0, 5, 3, 3, 3, 3, 3, 3, 3, 0, 3, 3, 0, 3, 0, 3, 1, 3, 3, 3, 0,
    3, 3, 3, 3, 3, 3, 3, 10, 0, 0, 5, 3, 3, 3, 3, 3, 3, 5, 1, 1, 1, 3, 3, 1, 3, 5, 5, 5, 0, 3, 3, 3,
    3, 3, 3, 3, 3, 0, 3, 3, 1, 0, 1, 3, 3, 3, 3, 1, 3, 3, 3, 3, 3, 0, 3, 0, 3, 3, 3, 3, 3, 0, 3, 3,
    0, 3, 0, 3, 0, 2, 3, 3, 0, 3, 3, 1, 3, 3, 3, 1, 1, 0, 3, 0, 3, 0, 0, 8, 3, 5, 0, 0, 3, 3, 3, 3,
    3, 3, 3, 3, 7, 5, 5, 3, 3, 3, 3, 1, 3, 3, 5, 3, 3, 5, 3, 3, 3, 3, 3, 3, 3, 0, 1, 7, 3, 3, 0, 0,
    0, 0, 0, 5, 3, 3, 3, 3, 1, 3, 3, 3, 5, 0, 3, 3, 3, 0, 3, 3, 3, 3, 3, 3, 1, 0, 0, 0, 3, 3, 7, 3,
    0, 3, 3, 3, 3, 1, 3, 3, 0, 3, 3, 3, 3, 0, 3, 3, 3, 3, 3, 0, 1, 1, 1, 1, 0, 1, 3, 3, 3, 1, 1, 0,
    5, 3, 3, 3, 3, 3, 3, 3, 1, 3, 3, 3, 3, 3, 7, 3, 3, 3, 5, 9, 3, 3, 3, 3, 3, 3, 0, 3, 3, 1, 3, 3,
    3, 3, 3, 0, 3, 1, 3, 3, 3, 3, 3, 3, 3, 3, 3, 3, 3, 0, 3, 3, 3, 3, 0, 3, 3, 3, 1, 3, 3, 3, 3, 3,
    0, 3, 5, 3, 1, 0, 3, 3, 3, 0, 7, 3, 3, 1, 7, 3, 5, 0, 3, 3, 3, 5, 1, 3, 1, 5, 7, 3, 3, 5, 3, 1,
    1, 3, 3, 3, 3, 8, 10, 0, 3, 0, 0, 3, 0, 3, 0, 3, 0, 3, 3, 3, 5, 3, 1, 5, 3, 0, 3, 3, 1, 3, 0, 0,
    3, 3, 3, 3, 3, 3, 3, 1, 3, 3, 3, 3, 5, 3, 5, 3, 0, 0, 3, 3, 1, 3, 5, 5, 1, 3, 2, 3, 4, 3, 3, 0,
    3, 3, 1, 5, 7, 3, 1, 1, 3, 3, 3, 1, 3, 3, 7, 3, 3, 0, 0, 3, 0, 3, 3, 1, 1, 1, 1, 3, 3, 3, 3, 0,
    3, 3, 3, 3, 3, 3, 3, 3, 3, 0, 0, 0, 0, 0, 3, 1, 3, 0, 0, 3, 1, 3, 3, 3, 3, 1, 1, 1, 3, 3, 3, 3,
    3, 3, 3, 3, 3, 0, 3, 0, 0, 3, 3, 3, 0, 3, 1, 3, 3, 0, 1, 3, 3, 3, 3, 3, 3, 1, 1, 1, 3, 3, 3, 2,
    3, 3, 1, 3, 0, 3, 3, 3, 6, 3, 3, 3, 6, 7, 3, 0, 0, 0, 3, 5, 3, 6, 6, 3, 3, 3, 3, 3, 3, 3, 3, 3,
    3, 5, 3, 2, 3, 0, 3, 3, 3, 3, 3, 3, 3, 3, 3, 3, 3, 3, 3, 3, 3, 3, 3, 3, 5, 3, 0, 7, 3, 2, 3, 3,
    3, 6, 7, 2, 2, 4, 4, 3, 4, 4, 4, 4, 4, 4, 3, 0, 0, 3, 3, 1, 6, 5, 0, 0, 0, 0, 6, 3, 7, 3, 6, 5,
    3, 6, 6, 3, 3, 3, 2, 3, 0, 3, 6, 3, 3, 3, 5, 5, 0, 5, 3, 6, 3, 3, 3, 3, 3, 3, 5, 3, 3, 3, 3, 0,
    0, 0, 0, 5, 0, 0, 3, 1, 0, 0, 0, 8, 8, 2, 2, 2, 5, 5, 0, 5, 6, 3, 3, 3, 3, 7, 0, 6, 0, 0, 3, 3,
    3, 5, 3, 5, 0, 3, 3, 3, 3, 3, 3, 3, 5, 3, 3, 6, 3, 3, 0]

/-- The number of rows of `g_cmd_code_text`. The texts themselves only go to the log. -/
def gCmdCodeTextRows : Nat := 1555

/-- The type of a command, or nothing where the table has no row for it. -/
def typeOf (cmd : CmdCode) : Option Nat := gCmdCodeTypesFlags[cmd.toNat]?

theorem length_gCmdCodeTypesFlags : gCmdCodeTypesFlags.length = 1555 := by decide +kernel

theorem gCmdCodeTypesFlags_le : ∀ t ∈ gCmdCodeTypesFlags, t ≤ 10 := by decide +kernel

theorem typeOf_unknown : typeOf CmdCode.unknown = some 0 := by decide

theorem typeOf_applyOnIntervalFlag : typeOf CmdCode.applyOnIntervalFlag = some 0 := by decide +kernel

theorem typeOf_eq_none (cmd : CmdCode) : typeOf cmd = none ↔ 1555 ≤ cmd.toNat := by
  rw [typeOf, List.getElem?_eq_none_iff, length_gCmdCodeTypesFlags]

theorem typeOf_le {cmd : CmdCode} {t : Nat} (h : typeOf cmd = some t) : t ≤ 10 :=
  gCmdCodeTypesFlags_le t (List.mem_of_getElem? h)

theorem typeOf_lt {cmd : CmdCode} {t : Nat} (h : typeOf cmd = some t) :
    cmd.toNat < gCmdCodeTextRows := by
  have hne : ¬ typeOf cmd = none := by simp [h]
  rw [typeOf_eq_none] at hne
  exact Nat.lt_of_not_le hne

theorem EnumType.ofValue_eq_typeTcpDataSet {t : Nat} :
    EnumType.ofValue t = some .typeTcpDataSet ↔ t = 6 := by
  constructor
  · intro h
    unfold EnumType.ofValue at h
    split at h <;> simp_all
  · rintro rfl
    rfl

theorem EnumType.ofValue_ne_typeTcpDataSet {t : Nat} (h : t ≠ 6) :
    EnumType.ofValue t ≠ some .typeTcpDataSet :=
  fun heq => h (EnumType.ofValue_eq_typeTcpDataSet.mp heq)

end GlobalAgenda.EnumDataTypes
