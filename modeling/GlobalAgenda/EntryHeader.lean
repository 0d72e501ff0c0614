import GlobalAgenda.ValueConverter
import Mathlib.Tactic.IntervalCases

namespace GlobalAgenda

open EnumDataTypes ValueConverter

structure EntryHeader where
  cmd : CmdCode := CmdCode.unknown
  contentSize : Nat := 0
  sizeWidth : Nat := 0
  deriving DecidableEq, Repr

namespace EntryHeader

/-- The width of the size field and the fixed content size of a command. -/
def getConfig (typeOf : CmdCode → Option Nat) (cmd : CmdCode) : Except Fault (Nat × Nat) :=
  match typeOf cmd with
  | none => .error (.missingRow cmd)
  | some type => match EnumType.ofValue type with
    | some .typeTcpWcharStr => .ok (2, 0)
    | some .typeTcpFloat | some .typeTcpDoubleOrIntSigned | some .typeTcpUint32
    | some .typeTcpUint16 | some .typeTcpUint8 | some .typeTcpUint64
    | some .typeTcpDatetime | some .typeTcpUuid16Bytes => .ok (0, gTypeSizes.getD type 0)
    | some .typeTcpDynamicUint32Size => .ok (2, 0)
    | some .typeTcpDataSet => .ok (2, 0)
    | none => .error (.exception "Got unknown enum type for parsing entry")

/-- `EntryHeader(it, end)`. -/
def ofInput (m : Machine) : Decoder EntryHeader := do
  let cmd ← toCmd m
  let config ← lift (getConfig m.typeOf cmd)
  match config.1 with
  | 2 => do
    let size ← toUint16 m
    pure ⟨cmd, size, 2⟩
  | 4 => do
    let size ← toUint32 m
    pure ⟨cmd, size, 4⟩
  | sizeWidth => pure ⟨cmd, config.2, sizeWidth⟩

/-- `EntryHeader(cmd, size)`: the size is overwritten by the configuration of the command. -/
def ofCmd (typeOf : CmdCode → Option Nat) (cmd : CmdCode) (size : Nat) :
    Except Fault EntryHeader := do
  let header : EntryHeader := { cmd := cmd, contentSize := size, sizeWidth := 0 }
  let config ← getConfig typeOf cmd
  pure { header with contentSize := config.2, sizeWidth := config.1 }

def getSize (h : EntryHeader) : Nat := h.contentSize

def setSize (h : EntryHeader) (size : Nat) : EntryHeader := { h with contentSize := size }

def getCmd (h : EntryHeader) : CmdCode := h.cmd

/-- The row's value cast to the enumeration; a value that is no enumerator equals none of them. -/
def getType (m : Machine) (h : EntryHeader) : Decoder (Option EnumType) :=
  match m.typeOf h.cmd with
  | none => throw (.missingRow h.cmd)
  | some type => pure (EnumType.ofValue type)

/-- `sanitizePayloadSizeByType`, for a vector of anything; `pad` is what `resize` appends. -/
def sanitizePayloadSizeByType {α : Type} (h : EntryHeader) (payload : List α) (pad : α) :
    EntryHeader × List α :=
  if h.sizeWidth ≠ 0 then ({ h with contentSize := payload.length }, payload)
  else (h, payload.takeD h.contentSize pad)

def build (h : EntryHeader) : List UInt8 :=
  fromUint16 h.cmd.toNat ++ match h.sizeWidth with
    | 2 => fromUint16 h.contentSize
    | 4 => fromUint32 h.contentSize
    | _ => []

/-- The lookup of the command's text; writing it to the log is left out. -/
def dbgPrint (m : Machine) (h : EntryHeader) : Decoder Unit :=
  if h.cmd.toNat < m.textRows then pure () else throw (.missingText h.cmd)

theorem getConfig_none {typeOf : CmdCode → Option Nat} {cmd : CmdCode} (h : typeOf cmd = none) :
    getConfig typeOf cmd = .error (.missingRow cmd) := by
  simp only [getConfig, h]

theorem getConfig_unknown {typeOf : CmdCode → Option Nat} {cmd : CmdCode} {type : Nat}
    (h : typeOf cmd = some type) (ht : 10 < type) :
    getConfig typeOf cmd = .error (.exception "Got unknown enum type for parsing entry") := by
  obtain ⟨n, rfl⟩ := Nat.exists_eq_add_of_lt ht
  simp only [getConfig, h, Nat.add_comm 10, Nat.add_assoc, Nat.reduceAdd]
  rfl

/-- Strings, blobs and data sets carry a 16-bit size; every other type has a fixed one. -/
theorem getConfig_known {typeOf : CmdCode → Option Nat} {cmd : CmdCode} {type : Nat}
    (h : typeOf cmd = some type) (ht : type ≤ 10) :
    getConfig typeOf cmd = .ok
      (if type = 0 ∨ type = 6 ∨ type = 10 then (2, 0) else (0, gTypeSizes.getD type 0)) := by
  interval_cases type <;> simp [getConfig, h, EnumType.ofValue]

theorem getConfig_ok {typeOf : CmdCode → Option Nat} {cmd : CmdCode} {c : Nat × Nat}
    (h : getConfig typeOf cmd = .ok c) : ∃ type, typeOf cmd = some type ∧ type ≤ 10 ∧
      c = if type = 0 ∨ type = 6 ∨ type = 10 then (2, 0) else (0, gTypeSizes.getD type 0) := by
  cases ht : typeOf cmd with
  | none => rw [getConfig_none ht] at h; cases h
  | some type =>
    by_cases hle : type ≤ 10
    · rw [getConfig_known ht hle] at h
      cases h
      exact ⟨type, rfl, hle, rfl⟩
    · rw [getConfig_unknown ht (by omega)] at h
      cases h

theorem getConfig_error {typeOf : CmdCode → Option Nat} {cmd : CmdCode} {f : Fault}
    (h : getConfig typeOf cmd = .error f) : f = .missingRow cmd ∨
      f = .exception "Got unknown enum type for parsing entry" := by
  cases ht : typeOf cmd with
  | none =>
    rw [getConfig_none ht] at h
    cases h
    exact .inl rfl
  | some type =>
    by_cases hle : type ≤ 10
    · rw [getConfig_known ht hle] at h
      cases h
    · rw [getConfig_unknown ht (by omega)] at h
      cases h
      exact .inr rfl

theorem getConfig_cases {typeOf : CmdCode → Option Nat} {cmd : CmdCode} {c : Nat × Nat}
    (h : getConfig typeOf cmd = .ok c) : c = (2, 0) ∨ ∃ size, 0 < size ∧ size ≤ 16 ∧ c = (0, size) := by
  obtain ⟨type, _, hle, rfl⟩ := getConfig_ok h
  have hsize : ∀ t ≤ 10, 0 < gTypeSizes.getD t 0 ∧ gTypeSizes.getD t 0 ≤ 16 := by decide
  split
  · exact .inl rfl
  · exact .inr ⟨_, (hsize type hle).1, (hsize type hle).2, rfl⟩

/-- The header has the size field and, without one, the size of its command. -/
def Consistent (typeOf : CmdCode → Option Nat) (h : EntryHeader) : Prop :=
  ∃ c, getConfig typeOf h.cmd = .ok c ∧ h.sizeWidth = c.1 ∧ (c.1 = 0 → h.contentSize = c.2)

theorem ofCmd_eq {typeOf : CmdCode → Option Nat} {cmd : CmdCode} {c : Nat × Nat}
    (h : getConfig typeOf cmd = .ok c) (size : Nat) :
    ofCmd typeOf cmd size = .ok ⟨cmd, c.2, c.1⟩ := by
  simp only [ofCmd, h]
  rfl

theorem ofCmd_ok {typeOf : CmdCode → Option Nat} {cmd : CmdCode} {size : Nat} {h : EntryHeader}
    (hh : ofCmd typeOf cmd size = .ok h) :
    ∃ c, getConfig typeOf cmd = .ok c ∧ h = ⟨cmd, c.2, c.1⟩ := by
  cases hc : getConfig typeOf cmd with
  | error f => simp [ofCmd, hc, bind, Except.bind] at hh
  | ok c =>
    rw [ofCmd_eq hc] at hh
    cases hh
    exact ⟨c, rfl, rfl⟩

theorem ofCmd_consistent {typeOf : CmdCode → Option Nat} {cmd : CmdCode} {size : Nat}
    {h : EntryHeader} (hh : ofCmd typeOf cmd size = .ok h) : h.Consistent typeOf := by
  obtain ⟨c, hc, rfl⟩ := ofCmd_ok hh
  exact ⟨c, hc, rfl, fun _ => rfl⟩

section Sanitize

variable {α : Type} {typeOf : CmdCode → Option Nat} (h : EntryHeader) (payload : List α) (pad : α)

theorem sanitize_cmd : (h.sanitizePayloadSizeByType payload pad).1.cmd = h.cmd := by
  rw [sanitizePayloadSizeByType]
  split <;> rfl

theorem sanitize_width : (h.sanitizePayloadSizeByType payload pad).1.sizeWidth = h.sizeWidth := by
  rw [sanitizePayloadSizeByType]
  split <;> rfl

theorem sanitize_consistent_iff :
    (h.sanitizePayloadSizeByType payload pad).1.Consistent typeOf ↔ h.Consistent typeOf := by
  rw [sanitizePayloadSizeByType]
  by_cases hwidth : h.sizeWidth = 0
  · rw [if_neg (not_not.mpr hwidth)]
  · rw [if_pos hwidth]
    constructor <;>
      exact fun ⟨c, hconfig, hw, _⟩ => ⟨c, hconfig, hw, fun h0 => absurd (hw.trans h0) hwidth⟩

end Sanitize

end EntryHeader

end GlobalAgenda
