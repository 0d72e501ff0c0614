import GlobalAgenda.DataEntry

namespace GlobalAgenda

open EnumDataTypes ValueConverter Base.Triples

structure AnonymousArray where
  entries : List DataEntry := []
  deriving DecidableEq, Repr

namespace AnonymousArray

/-- `AnonymousArray(start, end)`: an array that declares more entries than bytes remain is
left empty. -/
def ofInput (m : Machine) : Decoder AnonymousArray := do
  let entriesCount ← toUint16 m
  let start ← cursor
  if entriesCount = 0 then
    pure {}
  else if m.input.length - start < entriesCount then
    pure {}
  else
    let entries ← times entriesCount (DataEntry.ofInput m)
    pure ⟨entries⟩

def ofEntries (d1 d2 : DataEntry) : AnonymousArray := ⟨[d1, d2]⟩

def entriesCount (a : AnonymousArray) : Nat := a.entries.length

def appendEntry (a : AnonymousArray) (e : DataEntry) : AnonymousArray :=
  { a with entries := a.entries ++ [e] }

def build (a : AnonymousArray) : List UInt8 × AnonymousArray :=
  (fromUint16 a.entries.length ++ a.entries.flatMap (fun e => e.build.1),
    ⟨a.entries.map (fun e => e.build.2)⟩)

def Fits (typeOf : CmdCode → Option Nat) (a : AnonymousArray) : Prop :=
  a.entries.length < 2 ^ 16 ∧ ∀ e ∈ a.entries, e.Fits typeOf

def dbgPrint (m : Machine) (a : AnonymousArray) : Decoder Unit := a.entries.forM (DataEntry.dbgPrint m)

end AnonymousArray

structure DataSet where
  entryHeader : EntryHeader := {}
  anonArrays : List AnonymousArray := []
  deriving DecidableEq, Repr

namespace DataSet

def parse (m : Machine) (h : EntryHeader) : Decoder (List AnonymousArray) :=
  times h.getSize (AnonymousArray.ofInput m)

def ofHeader (m : Machine) (h : EntryHeader) : Decoder DataSet := do
  let anonArrays ← parse m h
  pure ⟨h, anonArrays⟩

def ofInput (m : Machine) : Decoder DataSet := do
  let h ← EntryHeader.ofInput m
  ofHeader m h

def ofCmd (typeOf : CmdCode → Option Nat) (cmd : CmdCode) (anonArrays : List AnonymousArray) :
    Except Fault DataSet := do
  let h ← EntryHeader.ofCmd typeOf cmd 0
  pure ⟨h, anonArrays⟩

def getCmd (d : DataSet) : CmdCode := d.entryHeader.getCmd

def sanitized (d : DataSet) : DataSet :=
  let s := d.entryHeader.sanitizePayloadSizeByType d.anonArrays {}
  ⟨s.1, s.2⟩

def build (d : DataSet) : List UInt8 × DataSet :=
  (d.sanitized.entryHeader.build ++ d.sanitized.anonArrays.flatMap (fun a => a.build.1),
    ⟨d.sanitized.entryHeader, d.sanitized.anonArrays.map (fun a => a.build.2)⟩)

def Fits (typeOf : CmdCode → Option Nat) (d : DataSet) : Prop :=
  typeOf d.entryHeader.cmd = some 6 ∧ d.entryHeader.Consistent typeOf ∧
    d.anonArrays.length < 2 ^ 16 ∧ ∀ a ∈ d.anonArrays, a.Fits typeOf

def dbgPrint (m : Machine) (d : DataSet) : Decoder Unit :=
  d.anonArrays.forM (AnonymousArray.dbgPrint m)

def arrayEntries (d : DataSet) : List DataEntry := d.anonArrays.flatMap AnonymousArray.entries

theorem sanitized_cmd (d : DataSet) : d.sanitized.entryHeader.cmd = d.entryHeader.cmd :=
  EntryHeader.sanitize_cmd _ _ _

theorem build_arrayEntries {d : DataSet} (h : d.sanitized.anonArrays = d.anonArrays) :
    d.build.2.arrayEntries = d.arrayEntries.map (fun e => e.build.2) := by
  have hparts : ∀ a : AnonymousArray, a.build.2.entries = a.entries.map (fun e => e.build.2) :=
    fun _ => rfl
  rw [build, h, arrayEntries, arrayEntries, List.flatMap_map, List.map_flatMap]
  simp only [hparts]

end DataSet

end GlobalAgenda
