import GlobalAgenda.Base.Progress
import GlobalAgenda.TcpPacket

namespace GlobalAgenda.CursorSafety

open EnumDataTypes ValueConverter Base.Triples Base.Progress

variable {α γ : Type} {m : Machine} {d : Nat} {obs : Scan → γ}

theorem dbgPrint_stays (h : EntryHeader) : Stays obs (h.dbgPrint m) := by
  rw [EntryHeader.dbgPrint]
  split
  · exact .pure _
  · exact .throw _

end GlobalAgenda.CursorSafety
