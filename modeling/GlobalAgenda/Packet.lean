import Mathlib.Data.List.Basic
import GlobalAgenda.DataSet

namespace GlobalAgenda

open EnumDataTypes ValueConverter

/-- `entryIter` is the offset of `m_entryIter` from the first entry, if the iterator was set on the
entries of this packet and no append has moved them since. -/
structure Packet where
  packetHeader : EntryHeader := {}
  entries : List DataEntry := []
  dataSets : List DataSet := []
  entryIter : Option Nat := none
  deriving DecidableEq, Repr

namespace Packet

/-- A copy. Its iterator still points into the entries of the packet that was copied. -/
def copy (p : Packet) : Packet := { p with entryIter := none }

def ofCmd (typeOf : CmdCode → Option Nat) (cmd : CmdCode) : Except Fault Packet := do
  let h ← EntryHeader.ofCmd typeOf cmd 0
  pure { packetHeader := h }

/-- The loop of `m_parse` with the given number of rounds left, and what follows it. -/
def parseItems (m : Machine) : Nat → Packet → Decoder Packet
  | 0, p => pure { p with entryIter := some 0 }
  | n + 1, p => do
    let start ← cursor
    if start = m.input.length then
      pure { p with entryIter := some 0 }
    else
      let entryHeader ← EntryHeader.ofInput m
      let type ← entryHeader.getType m
      if type = some .typeTcpDataSet then
        let dataSet ← DataSet.ofHeader m entryHeader
        dataSet.dbgPrint m
        parseItems m n { p with dataSets := p.dataSets ++ [dataSet] }
      else
        let entry ← DataEntry.ofHeader m entryHeader
        entry.dbgPrint m
        if entry.valid then
          parseItems m n { p with entries := p.entries ++ [entry] }
        else
          -- "Error got invalid entry": the iterator stays unset
          pure p

def ofInput (m : Machine) : Decoder Packet := do
  let packetHeader ← EntryHeader.ofInput m
  parseItems m packetHeader.getSize { packetHeader := packetHeader }

def appendEntry (p : Packet) (e : DataEntry) : Packet :=
  { p with entries := p.entries ++ [e], entryIter := none }

def appendDataSet (p : Packet) (d : DataSet) : Packet :=
  { p with dataSets := p.dataSets ++ [d] }

def getNextEntry (p : Packet) : Except Fault (DataEntry × Packet) :=
  match p.entryIter with
  | none => .error .badIterator
  | some i =>
    -- as in `TcpPacket::getNextPacket`, the iterator moves before it is read
    if i < p.entries.length then
      .ok (p.entries.getD (i + 1) {}, { p with entryIter := some (i + 1) })
    else
      .error .badIterator

def getEntryByCmd (p : Packet) (cmd : CmdCode) : DataEntry :=
  (p.entries.find? (fun obj => obj.getCmd = cmd)).getD {}

def getCmd (p : Packet) : CmdCode := p.packetHeader.getCmd

def entriesCount (p : Packet) : Nat := p.entries.length

def isEmpty (p : Packet) : Bool := p.entries.length = 0

/-- How many items a packet's header can announce. -/
def capacity (p : Packet) : Nat :=
  if p.packetHeader.sizeWidth = 0 then p.packetHeader.contentSize else 2 ^ 16 - 1

/-- Every part can be written in its field, and no packet-level entry is one that the parser
stops at. -/
structure Fits (typeOf : CmdCode → Option Nat) (p : Packet) : Prop where
  header : p.packetHeader.Consistent typeOf
  count : p.entries.length + p.dataSets.length ≤ p.capacity
  entries : ∀ e ∈ p.entries, e.Fits typeOf ∧ e.sanitized.valid ∧ typeOf e.entryHeader.cmd ≠ some 6
  dataSets : ∀ d ∈ p.dataSets, d.Fits typeOf

def build (p : Packet) : List UInt8 × Packet :=
  let packetHeader := p.packetHeader.setSize (p.entries.length + p.dataSets.length)
  (packetHeader.build ++ (p.entries.flatMap (fun e => e.build.1) ++
      p.dataSets.flatMap (fun d => d.build.1)),
    { p with
      packetHeader := packetHeader
      entries := p.entries.map (fun e => e.build.2)
      dataSets := p.dataSets.map (fun d => d.build.2) })

def arrayEntries (p : Packet) : List DataEntry := p.dataSets.flatMap DataSet.arrayEntries

theorem build_arrayEntries {p : Packet}
    (h : ∀ d ∈ p.dataSets, d.sanitized.anonArrays = d.anonArrays) :
    p.build.2.arrayEntries = p.arrayEntries.map (fun e => e.build.2) := by
  rw [build, arrayEntries, arrayEntries, List.flatMap_map, List.map_flatMap]
  exact List.flatMap_congr (fun d hd => DataSet.build_arrayEntries (h d hd))

end Packet

end GlobalAgenda
