import GlobalAgenda.ReadSafety
import Mathlib.Data.List.GetD

namespace GlobalAgenda.Client

open EnumDataTypes ValueConverter Base.Triples Base.WhileLoop ParserSpec

def getSessionGuidClient : List UInt8 :=
  [0x40, 0x41, 0x42, 0x43, 0x44, 0x45, 0x46, 0x47, 0x48, 0x49, 0x50, 0x51, 0x52, 0x53, 0x54, 0x55]

def getFinishLogin : Except Fault (List UInt8) := do
  let guidPayload : List UInt8 := [0x40, 0x41, 0x42, 0x43, 0x44, 0x45, 0x46, 0x47,
    0x48, 0x49, 0x50, 0x51, 0x52, 0x53, 0x54, 0x55]
  let response : Packet := {}
  let success ← DataEntry.ofBool EnumDataTypes.typeOf CmdCode.success true
  let guid ← DataEntry.ofCmd EnumDataTypes.typeOf CmdCode.sessionGuid guidPayload
  pure ((response.appendEntry success).appendEntry guid).build.1

def serverResponseVersion : Except Fault Packet := do
  let packetOut ← Packet.ofCmd EnumDataTypes.typeOf CmdCode.applicationValue
  let version ← DataEntry.ofCmd EnumDataTypes.typeOf CmdCode.version [0x01, 0x00, 0x05, 0x01]
  let guid ← DataEntry.ofCmd EnumDataTypes.typeOf CmdCode.sessionGuid getSessionGuidClient
  pure ((packetOut.appendEntry version).appendEntry guid)

/-- The packet that `server_response_apply_on_interval_flag` leaves behind. The arrays, packets and
entries that it makes besides are dropped. -/
def serverResponseApplyOnIntervalFlag (intervalData : Packet) : Except Fault Packet := do
  let tcpPacket : TcpPacket := {}
  let playerId ← DataEntry.ofUint32 EnumDataTypes.typeOf CmdCode.playerId 0x001736D5
  let netAccessFlags ← DataEntry.ofUint64 EnumDataTypes.typeOf CmdCode.netAccessFlags 0x01FFF3F8
  let displayEulaFlag ← DataEntry.ofCharPtr EnumDataTypes.typeOf CmdCode.displayEulaFlag [0x6E]
  -- "PlayerNameLol"
  let playerName ← DataEntry.ofCharPtr EnumDataTypes.typeOf CmdCode.playerName
    [0x50, 0x6C, 0x61, 0x79, 0x65, 0x72, 0x4E, 0x61, 0x6D, 0x65, 0x4C, 0x6F, 0x6C]
  let success ← DataEntry.ofBool EnumDataTypes.typeOf CmdCode.success true
  let msgId ← DataEntry.ofUint32 EnumDataTypes.typeOf CmdCode.msgId 0x00004949
  let bannedUntil ← DataEntry.ofUint64 EnumDataTypes.typeOf CmdCode.bannedUntilDatetime 0
  let guid ← DataEntry.ofCmd EnumDataTypes.typeOf CmdCode.sessionGuid getSessionGuidClient
  let connectionHandle ← DataEntry.ofUint32 EnumDataTypes.typeOf CmdCode.connectionHandle 0x00001180
  let gameBits ← DataEntry.ofUint32 EnumDataTypes.typeOf CmdCode.gameBits 0x0000000F
  let afkTimeoutSec ← DataEntry.ofUint32 EnumDataTypes.typeOf CmdCode.afkTimeoutSec 0x00000384
  -- "f5"
  let textValue ← DataEntry.ofCharPtr EnumDataTypes.typeOf CmdCode.textValue [0x66, 0x35]
  let anonymousArray (sysSiteId nameMsgId : UInt32) : Except Fault AnonymousArray := do
    let d1 ← DataEntry.ofUint32 EnumDataTypes.typeOf CmdCode.sysSiteId sysSiteId
    let d2 ← DataEntry.ofUint32 EnumDataTypes.typeOf CmdCode.nameMsgId nameMsgId
    pure (.ofEntries d1 d2)
  let _dataSet1 ← anonymousArray 0x00000001 0x0000A26F
  let _dataSet2 ← anonymousArray 0x00000002 0x0000A2B0
  let _dataSet3 ← anonymousArray 0x00000004 0x0000CFAC
  let text ← DataEntry.ofCharPtr EnumDataTypes.typeOf CmdCode.dataSet [0x66, 0x35]
  let intervalData := [playerId, netAccessFlags, displayEulaFlag, playerName, success, msgId,
    bannedUntil, guid, connectionHandle, gameBits, afkTimeoutSec, textValue, text].foldl
      Packet.appendEntry intervalData
  let dataSet ← Packet.ofCmd EnumDataTypes.typeOf CmdCode.dataSet
  let noText ← DataEntry.ofBool EnumDataTypes.typeOf CmdCode.textValue false
  let _sysSiteId ← DataEntry.ofBool EnumDataTypes.typeOf CmdCode.sysSiteId false
  let _nameMsgId ← DataEntry.ofBool EnumDataTypes.typeOf CmdCode.nameMsgId false
  let tcpPacket := tcpPacket.appendPacket (dataSet.appendEntry noText)
  let dataSetMapConfigs ← Packet.ofCmd EnumDataTypes.typeOf CmdCode.dataSetMapConfigs
  let noText ← DataEntry.ofBool EnumDataTypes.typeOf CmdCode.textValue false
  let _tcpPacket := tcpPacket.appendPacket (dataSetMapConfigs.appendEntry noText)
  pure intervalData

def getBannedUntil : Except Fault (List UInt8) := do
  let response : Packet := {}
  let banned ← DataEntry.ofDouble EnumDataTypes.typeOf CmdCode.bannedUntilDatetime 0
  let textVal ← DataEntry.ofString EnumDataTypes.typeOf CmdCode.textValue (List.replicate 16 0x41)
  pure ((response.appendEntry banned).appendEntry textVal).build.1

/-- `m_processPacket`. The cases of the other commands all break off with the empty response. -/
def processPacket (packet : Packet) : Except Fault Packet :=
  let response : Packet := {}
  if packet.getCmd = CmdCode.applicationValue then
    if packet.entriesCount = 2 then serverResponseVersion
    else pure response
  else pure response

/-- The response of the dispatcher and the packets it has called `m_processPacket` on. -/
structure Dispatch where
  response : TcpPacket := {}
  processed : List Packet := []

variable (answer : Nat → Packet → Packet)

def Dispatch.step (d : Dispatch) (packetIn : Packet) : Dispatch :=
  let packetOut := answer d.processed.length packetIn
  { response := if packetOut.isEmpty then d.response else d.response.appendPacket packetOut
    processed := d.processed ++ [packetIn] }

/-- The `while(1)` of `m_processTcpPacket`, with a bound on its rounds. -/
def loop : Nat → TcpPacket → Dispatch → Except Fault Dispatch
  | 0, _, _ => .error .outOfFuel
  | n + 1, tcpPack, d => do
    let (packetIn, tcpPack) ← tcpPack.getNextPacket
    if packetIn.isEmpty then
      pure d
    else
      loop n tcpPack (d.step answer packetIn)

/-- What `m_processPacket` answers may depend on how many packets came before. -/
def processTcpPacket (rounds : Nat) (tcpPack : TcpPacket) : Except Fault Dispatch :=
  loop answer rounds tcpPack {}

/-- The packets an iterator at `i` leads to before the first one without entries. -/
def reached (packets : List Packet) (i : Nat) : List Packet :=
  (packets.drop (i + 1)).takeWhile (fun p => !p.isEmpty)

theorem getNextPacket_none {t : TcpPacket} (h : t.packetIter = none) :
    t.getNextPacket = .error .badIterator := by
  rw [TcpPacket.getNextPacket, h]

theorem getNextPacket_some {t : TcpPacket} {i : Nat} (h : t.packetIter = some i)
    (hi : i < t.packets.length) :
    t.getNextPacket = .ok (t.copies.getD (i + 1) {}, { t with packetIter := some (i + 1) }) := by
  have hcopy : t.copies.getD (i + 1) {} = (t.packets.getD (i + 1) {}).copy :=
    List.getD_map t.packets {} Packet.copy
  rw [TcpPacket.getNextPacket, h, hcopy]
  exact if_pos hi

theorem copies_length (t : TcpPacket) : t.copies.length = t.packets.length := List.length_map _

theorem reached_stop {packets : List Packet} {i : Nat} (h : (packets.getD (i + 1) {}).isEmpty) :
    reached packets i = [] := by
  by_cases hlt : i + 1 < packets.length
  · rw [List.getD_eq_getElem _ _ hlt] at h
    rw [reached, List.drop_eq_getElem_cons hlt, List.takeWhile_cons_of_neg (by simp [h])]
  · rw [reached, List.drop_eq_nil_of_le (by omega), List.takeWhile_nil]

theorem reached_step {packets : List Packet} {i : Nat}
    (h : ¬ (packets.getD (i + 1) {}).isEmpty) : i + 1 < packets.length ∧
      reached packets i = packets.getD (i + 1) {} :: reached packets (i + 1) := by
  have hlt : i + 1 < packets.length := by
    by_contra hge
    rw [List.getD_eq_default _ _ (by omega)] at h
    exact h rfl
  refine ⟨hlt, ?_⟩
  rw [List.getD_eq_getElem _ _ hlt] at h ⊢
  rw [reached, List.drop_eq_getElem_cons hlt, List.takeWhile_cons_of_pos (by simp [h]), reached]

theorem loop_eq {t : TcpPacket} {i : Nat} (h : t.packetIter = some i) (hi : i < t.packets.length)
    (d : Dispatch) (rounds : Nat) : loop answer rounds t d =
      if (reached t.copies i).length < rounds then
        .ok ((reached t.copies i).foldl (Dispatch.step answer) d)
      else .error .outOfFuel := by
  induction rounds generalizing t i d with
  | zero => rw [loop, if_neg (Nat.not_lt_zero _)]
  | succ rounds ih =>
    rw [loop, getNextPacket_some h hi]
    by_cases hempty : (t.copies.getD (i + 1) {}).isEmpty
    · change (if _ then pure d else _) = _
      rw [reached_stop hempty, if_pos hempty, if_pos (by simp)]
      rfl
    · obtain ⟨hlt, hreached⟩ := reached_step hempty
      rw [copies_length] at hlt
      have hrest := ih (t := { t with packetIter := some (i + 1) }) rfl hlt
        (d.step answer (t.copies.getD (i + 1) {}))
      rw [hreached, List.foldl_cons, List.length_cons]
      change (if _ then _ else loop answer rounds _ _) = _
      rw [if_neg hempty, hrest]
      simp only [Nat.add_lt_add_iff_right]
      rfl

theorem foldl_step_processed (packets : List Packet) (d : Dispatch) :
    (packets.foldl (Dispatch.step answer) d).processed = d.processed ++ packets := by
  induction packets generalizing d with
  | nil => rw [List.foldl_nil, List.append_nil]
  | cons p packets ih =>
    rw [List.foldl_cons, ih, Dispatch.step, List.append_assoc, List.singleton_append]

theorem round_ne_nil {m : Machine} {ps qs : List Packet} {s t : Scan}
    (h : TcpPacket.round m ps s = .ok qs t) : qs ≠ [] := by
  obtain ⟨p, u, _, h⟩ := bind_eq_ok h
  cases h
  simp

theorem foldl_step_response (packets : List Packet) (d : Dispatch) :
    (packets.foldl (Dispatch.step answer) d).response.packets = d.response.packets ++
      ((packets.mapIdx (fun k p => answer (d.processed.length + k) p)).filter
        (fun p => !p.isEmpty)).map Packet.copy := by
  induction packets generalizing d with
  | nil => simp
  | cons p packets ih =>
    rw [List.foldl_cons, ih, List.mapIdx_cons, List.filter_cons]
    have hcount : (d.step answer p).processed.length = d.processed.length + 1 := by
      simp [Dispatch.step]
    have hindex : (fun k p => answer (d.processed.length + 1 + k) p) =
        fun k p => answer (d.processed.length + (k + 1)) p := by
      funext k p
      rw [Nat.add_assoc, Nat.add_comm 1]
    rw [hcount, hindex]
    by_cases hempty : (answer d.processed.length p).isEmpty
    · simp [Dispatch.step, hempty]
    · simp [Dispatch.step, hempty, TcpPacket.appendPacket]

theorem parsed_iter {m : Machine} {rounds : Nat} {t : TcpPacket}
    (h : returned (TcpPacket.ofInput m rounds) {} = some t) :
    t.packets = [] ∧ t.packetIter = none ∨ t.packets ≠ [] ∧ t.packetIter = some 0 := by
  obtain ⟨_, hunset⟩ | ⟨s, ⟨size, _, hne, hle⟩, hiter, hloop⟩ :=
    TcpPacket.ofInput_ok (returned_eq_some.mp h)
  · exact .inl hunset
  · have hcond : TcpPacket.notAtEnd m s = true := decide_eq_true (by omega)
    obtain ⟨hend, hreach⟩ := whileLoop_ok hloop
    refine .inr ⟨?_, hiter⟩
    generalize t.packets = packets at hreach ⊢
    cases hreach with
    | refl => exact absurd hcond (by rw [hend]; decide)
    | round _ hrun hrest =>
      exact hrest.invariant (I := fun ps _ => ps ≠ []) (round_ne_nil hrun)
        (fun _ _ _ _ _ _ hb => round_ne_nil hb)

theorem processTcpPacket_unset {t : TcpPacket} (h : t.packetIter = none) (rounds : Nat)
    (d : Dispatch) : processTcpPacket answer rounds t ≠ .ok d := by
  cases rounds with
  | zero => nofun
  | succ rounds =>
    rw [processTcpPacket, loop, getNextPacket_none h]
    nofun

def hasItems (p : Packet) : Bool := !p.entries.isEmpty || !p.dataSets.isEmpty

/-- Every packet is processed once and in order, and the response is made of the answers that
have an item. -/
def Dispatches (t : TcpPacket) : Prop :=
  ∃ rounds d, processTcpPacket answer rounds t = .ok d ∧ d.processed = t.copies ∧
    d.response.packets = ((t.copies.mapIdx answer).filter hasItems).map Packet.copy

/-- What the dispatcher does with a parsed frame that has packets. -/
theorem processTcpPacket_eq {t : TcpPacket} (h : t.packetIter = some 0) (hne : t.packets ≠ [])
    {rounds : Nat} {d : Dispatch} (hrun : processTcpPacket answer rounds t = .ok d) :
    d.processed = t.copies.tail.takeWhile (fun p => !p.isEmpty) ∧
      d.response.packets =
        ((d.processed.mapIdx answer).filter (fun p => !p.isEmpty)).map Packet.copy := by
  have hpos : 0 < t.packets.length := List.length_pos_iff.mpr hne
  rw [processTcpPacket, loop_eq answer h hpos] at hrun
  by_cases hrounds : (reached t.copies 0).length < rounds
  · rw [if_pos hrounds] at hrun
    cases hrun
    have hprocessed := foldl_step_processed answer (reached t.copies 0) {}
    have hresponse := foldl_step_response answer (reached t.copies 0) {}
    rw [List.nil_append] at hprocessed
    simp only [List.nil_append, List.length_nil, Nat.zero_add] at hresponse
    rw [hprocessed, hresponse, reached, List.drop_one]
    exact ⟨rfl, rfl⟩
  · rw [if_neg hrounds] at hrun
    cases hrun

theorem processed_ne {t : TcpPacket} (h : t.packets = [] ∧ t.packetIter = none ∨
    t.packets ≠ [] ∧ t.packetIter = some 0) {rounds : Nat} {d : Dispatch}
    (hrun : processTcpPacket answer rounds t = .ok d) : d.processed ≠ t.copies := by
  obtain ⟨_, hunset⟩ | ⟨hne, hiter⟩ := h
  · exact absurd hrun (processTcpPacket_unset answer hunset rounds d)
  · intro hall
    have hlen := congrArg List.length (processTcpPacket_eq answer hiter hne hrun).1
    have hle := (List.takeWhile_sublist (fun p : Packet => !p.isEmpty) (l := t.copies.tail)).length_le
    have hpos : 0 < t.packets.length := List.length_pos_iff.mpr hne
    rw [List.length_tail, copies_length] at hle
    rw [hall, copies_length] at hlen
    omega

/-- No parsed frame is dispatched completely: the iterator moves before it is read. -/
theorem not_dispatches {input : List UInt8} {beyond : Nat → UInt8} {rounds : Nat} {t : TcpPacket}
    (h : returned (TcpPacket.ofInput (.server input beyond) rounds) {} = some t) :
    ¬ Dispatches answer t := by
  rintro ⟨n, d, hrun, hall, _⟩
  exact processed_ne answer (parsed_iter h) hrun hall

theorem single_not_dispatched : ¬ Dispatches (fun _ p => p)
    ⟨9, [⟨⟨0x3E, 1, 2⟩, [⟨⟨0x3E, 1, 2⟩, [0x41]⟩], [], none⟩], some 0⟩ := by
  have hparse : returned (TcpPacket.ofInput (.server
      [9, 0, 0x3E, 0, 1, 0, 0x3E, 0, 1, 0, 0x41] (fun _ => 0)) 1) {} =
      some ⟨9, [⟨⟨0x3E, 1, 2⟩, [⟨⟨0x3E, 1, 2⟩, [0x41]⟩], [], none⟩], some 0⟩ := by decide +kernel
  exact not_dispatches (fun _ p => p) hparse

theorem some_frame_not_dispatched : ¬ ∀ (input : List UInt8) (beyond : Nat → UInt8) (rounds : Nat)
    (t : TcpPacket) (answer : Nat → Packet → Packet),
    returned (TcpPacket.ofInput (.server input beyond) rounds) {} = some t →
      Dispatches answer t := by
  intro h
  have hparse : returned (TcpPacket.ofInput (.server
      [9, 0, 0x3E, 0, 1, 0, 0x3E, 0, 1, 0, 0x41] (fun _ => 0)) 1) {} =
      some ⟨9, [⟨⟨0x3E, 1, 2⟩, [⟨⟨0x3E, 1, 2⟩, [0x41]⟩], [], none⟩], some 0⟩ := by decide +kernel
  obtain ⟨n, d, hrun, hall, _⟩ := h _ _ _ _ (fun _ p => p) hparse
  exact processed_ne (fun _ p => p) (parsed_iter hparse) hrun hall

end GlobalAgenda.Client
