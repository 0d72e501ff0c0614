import GlobalAgenda.Base.WhileLoop
import GlobalAgenda.Packet

namespace GlobalAgenda

open EnumDataTypes ValueConverter Base.Triples Base.WhileLoop

/-- `packetIter` is the offset of `m_packetIter` from the first packet, if the iterator was set
and no append has moved the packets since. -/
structure TcpPacket where
  size : Nat := 0
  packets : List Packet := []
  packetIter : Option Nat := none
  deriving DecidableEq, Repr

namespace TcpPacket

def notAtEnd (m : Machine) (s : Scan) : Bool := decide (s.it ≠ m.input.length)

/-- One round of `while(start != end)`, which stores a copy of `packet_temp`. -/
def round (m : Machine) (packets : List Packet) : Decoder (List Packet) := do
  let packetTemp ← Packet.ofInput m
  pure (packets ++ [packetTemp.copy])

/-- `TcpPacket(start, end)`, with a bound on the rounds of its loop. -/
def ofInput (m : Machine) (rounds : Nat) : Decoder TcpPacket := do
  let size ← toUint16 m
  let start ← cursor
  if size = 0 then
    pure { size := size }
  else if m.input.length - start < size then
    pure { size := size }
  else
    let packets ← whileLoop .outOfFuel (notAtEnd m) (round m) rounds []
    pure { size := size, packets := packets, packetIter := some 0 }

def appendPacket (t : TcpPacket) (p : Packet) : TcpPacket :=
  { t with packets := t.packets ++ [p.copy], packetIter := none }

def getNextPacket (t : TcpPacket) : Except Fault (Packet × TcpPacket) :=
  match t.packetIter with
  | none => .error .badIterator
  | some i =>
    -- the iterator moves before it is read, and must not be moved past the end
    if i < t.packets.length then
      .ok ((t.packets.getD (i + 1) {}).copy, { t with packetIter := some (i + 1) })
    else
      .error .badIterator

/-- The packets as `getNextPacket` returns them. -/
def copies (t : TcpPacket) : List Packet := t.packets.map Packet.copy

def payload (t : TcpPacket) : List UInt8 := t.packets.flatMap (fun p => p.build.1)

def build (t : TcpPacket) : List UInt8 × TcpPacket :=
  let size := t.payload.length % 2 ^ 16
  (fromUint16 size ++ t.payload, { t with size := size, packets := t.packets.map (fun p => p.build.2) })

/-- The parsing constructor comes to its loop in this state. -/
def Enters (m : Machine) (s : Scan) : Prop :=
  ∃ size, toUint16 m {} = .ok size s ∧ size ≠ 0 ∧ size ≤ m.input.length - s.it

theorem Enters.raised {m : Machine} {s : Scan} (h : Enters m s) (rounds : Nat) :
    raised (ofInput m rounds) {} = raised (whileLoop .outOfFuel (notAtEnd m) (round m) rounds []) s := by
  obtain ⟨size, hsize, hne, hle⟩ := h
  have hrun : ofInput m rounds {} = (whileLoop .outOfFuel (notAtEnd m) (round m) rounds [] >>=
      fun ps => pure { size := size, packets := ps, packetIter := some 0 }) s := by
    rw [ofInput, bind_ok hsize, bind_ok (cursor_run s), if_neg hne, if_neg (by omega)]
  rw [Base.Triples.raised, hrun]
  exact raised_bind_pure _ _ s

def Returns (m : Machine) (s : Scan) : Prop :=
  ∃ size, toUint16 m {} = .ok size s ∧ (size = 0 ∨ m.input.length - s.it < size)

theorem ofInput_ok {m : Machine} {rounds : Nat} {t : TcpPacket} {u : Scan}
    (h : ofInput m rounds {} = .ok t u) : Returns m u ∧ t.packets = [] ∧ t.packetIter = none ∨
      ∃ s, Enters m s ∧ t.packetIter = some 0 ∧
        whileLoop .outOfFuel (notAtEnd m) (round m) rounds [] s = .ok t.packets u := by
  obtain ⟨size, s, hsize, h⟩ := bind_eq_ok h
  rw [bind_ok (cursor_run s)] at h
  by_cases hzero : size = 0
  · rw [if_pos hzero] at h
    cases h
    exact .inl ⟨⟨size, hsize, .inl hzero⟩, rfl, rfl⟩
  rw [if_neg hzero] at h
  by_cases hlong : m.input.length - s.it < size
  · rw [if_pos hlong] at h
    cases h
    exact .inl ⟨⟨size, hsize, .inr hlong⟩, rfl, rfl⟩
  rw [if_neg hlong] at h
  obtain ⟨packets, v, hloop, h⟩ := bind_eq_ok h
  cases h
  exact .inr ⟨s, ⟨size, hsize, hzero, by omega⟩, rfl, hloop⟩

end TcpPacket

end GlobalAgenda
