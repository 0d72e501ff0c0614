import GlobalAgenda.MemoryIndependence
import GlobalAgenda.RoundTrip

namespace GlobalAgenda.Framing

open EnumDataTypes ValueConverter Base.LittleEndian Base.Triples Base.WhileLoop Decoding
  MemoryIndependence

/-- The parser takes these packets from the buffer and leaves the cursor at `stop`. -/
def Yields (input : List UInt8) (beyond : Nat → UInt8) (packets : List Packet) (stop : Nat) : Prop :=
  ∃ rounds t s, TcpPacket.ofInput (.server input beyond) rounds {} = .ok t s ∧
    t.packets = packets ∧ s.it = stop

/-- A size and a payload of that size, which the parser reads when they are all there is. -/
structure Frame (payload : List UInt8) (packets : List Packet) : Prop where
  size : payload.length < 2 ^ 16
  alone : ∃ beyond, Yields (bytes 2 payload.length ++ payload) beyond packets (2 + payload.length)

def buffer (payload rest : List UInt8) : List UInt8 := bytes 2 payload.length ++ payload ++ rest

/-- What is built from packets that round-trip is a frame. -/
theorem frame_of_roundTrips {t : TcpPacket} (hsize : t.payload.length < 2 ^ 16)
    (h : RoundTrip.RoundTrips t) :
    Frame t.payload t.build.2.copies := by
  have hbuild : t.build.1 = bytes 2 t.payload.length ++ t.payload := by
    rw [TcpPacket.build, fromUint16_eq, Nat.mod_eq_of_lt hsize]
  obtain ⟨u, s, hrun, hend, hpackets⟩ := h (fun _ => 0) t.packets.length le_rfl
  rw [hbuild] at hrun hend
  refine ⟨hsize, fun _ => 0, t.packets.length, u, s, hrun, hpackets, ?_⟩
  rwa [List.length_append, length_bytes] at hend

theorem Yields.memory {input : List UInt8} {beyond : Nat → UInt8} {packets : List Packet} {stop : Nat}
    (h : Yields input beyond packets stop) (beyond' : Nat → UInt8) :
    Yields input beyond' packets stop := by
  obtain ⟨rounds, t, s, hrun, hpackets, hstop⟩ := h
  rw [tcpPacket_agree (agree_server input beyond beyond')] at hrun
  exact ⟨rounds, t, s, hrun, hpackets, hstop⟩

theorem buffer_size {payload : List UInt8} (h : payload.length < 2 ^ 16) (rest : List UInt8)
    (beyond : Nat → UInt8) : ∃ s, toUint16 (.server (buffer payload rest) beyond) {} =
      .ok payload.length s ∧ s.it = 2 := by
  have hread := consumes_toUint16 (E := fun _ => False)
    (total_server (buffer payload rest) beyond) h (payload ++ rest)
  have hstart : At (.server (buffer payload rest) beyond)
      (bytes 2 payload.length ++ (payload ++ rest)) {} :=
    ⟨Nat.zero_le _, List.append_assoc _ _ _⟩
  obtain ⟨size, s, hrun, rfl, hs⟩ := hread.total hstart
  refine ⟨s, hrun, ?_⟩
  have hlen := hs.length
  change _ = (bytes 2 payload.length ++ payload ++ rest).length at hlen
  simp only [List.length_append, length_bytes] at hlen
  omega

/-- The loop runs to the end of the buffer, so the cursor stops behind the frame only if nothing
follows the frame or there is nothing to loop over. -/
theorem Yields.nothing_follows {payload rest : List UInt8} {beyond : Nat → UInt8}
    {packets : List Packet} (hsize : payload.length < 2 ^ 16)
    (h : Yields (buffer payload rest) beyond packets (2 + payload.length)) :
    rest = [] ∨ payload = [] := by
  obtain ⟨rounds, t, s, hrun, _, hstop⟩ := h
  have hlen : (buffer payload rest).length = 2 + payload.length + rest.length := by
    simp only [buffer, List.length_append, length_bytes]
  obtain ⟨⟨size, hread, hguard⟩, _⟩ | ⟨_, _, _, hloop⟩ := TcpPacket.ofInput_ok hrun
  · obtain ⟨u, hu, hit⟩ := buffer_size hsize rest beyond
    rw [hread] at hu
    cases hu
    obtain hzero | hlong := hguard
    · exact .inr (List.length_eq_zero_iff.mp hzero)
    · change (buffer payload rest).length - s.it < payload.length at hlong
      omega
  · have hend : s.it = (buffer payload rest).length :=
      not_not.mp (of_decide_eq_false (whileLoop_ok hloop).1)
    exact .inl (List.length_eq_zero_iff.mp (by omega))

theorem yields_empty_iff {rest : List UInt8} {beyond : Nat → UInt8} {packets : List Packet} :
    Yields (buffer [] rest) beyond packets 2 ↔ packets = [] := by
  have hempty : ([] : List UInt8).length < 2 ^ 16 := by norm_num
  obtain ⟨u, hu, hit⟩ := buffer_size hempty rest beyond
  constructor
  · rintro ⟨rounds, t, s, hrun, rfl, _⟩
    obtain ⟨_, hnone, _⟩ | ⟨v, ⟨size, hread, hne, _⟩, _⟩ := TcpPacket.ofInput_ok hrun
    · exact hnone
    · rw [hu] at hread
      cases hread
      exact absurd rfl hne
  · rintro rfl
    refine ⟨0, { size := 0 }, u, ?_, rfl, hit⟩
    rw [TcpPacket.ofInput, bind_ok hu, bind_ok (cursor_run u)]
    rfl

/-- A frame is taken from the front of a buffer exactly when nothing follows it there or it is
empty. -/
theorem frame_yields_iff {payload : List UInt8} {packets : List Packet} (h : Frame payload packets)
    (rest : List UInt8) (beyond : Nat → UInt8) :
    Yields (buffer payload rest) beyond packets (2 + payload.length) ↔ rest = [] ∨ payload = [] := by
  obtain ⟨hsize, beyond', halone⟩ := h
  constructor
  · exact Yields.nothing_follows hsize
  · rintro (rfl | rfl)
    · rw [buffer, List.append_nil]
      exact halone.memory beyond
    · rw [← List.append_nil (bytes 2 [].length ++ [])] at halone
      rw [yields_empty_iff.mp halone]
      exact yields_empty_iff.mpr rfl

theorem keepAlive_frame : Frame [0x3E, 0, 0, 0] [⟨⟨0x3E, 0, 2⟩, [], [], none⟩] := by
  have hrun : returned (TcpPacket.ofInput (.server [4, 0, 0x3E, 0, 0, 0] (fun _ => 0)) 1) {} =
      some ⟨4, [⟨⟨0x3E, 0, 2⟩, [], [], none⟩], some 0⟩ := by decide +kernel
  have hstop : (final (TcpPacket.ofInput (.server [4, 0, 0x3E, 0, 0, 0] (fun _ => 0)) 1) {}).it = 6 := by
    decide +kernel
  exact ⟨by decide, fun _ => 0, 1, _, _, returned_eq_some.mp hrun, rfl, hstop⟩

theorem name_frame : Frame [0x3E, 0, 2, 0, 0xC5, 3, 1, 0, 0x41, 0x0C, 1, 0, 0]
    [⟨⟨0x3E, 2, 2⟩, [⟨⟨0x3C5, 1, 2⟩, [0x41]⟩], [⟨⟨0x10C, 0, 2⟩, []⟩], none⟩] := by
  have hrun : returned (TcpPacket.ofInput (.server
      [13, 0, 0x3E, 0, 2, 0, 0xC5, 3, 1, 0, 0x41, 0x0C, 1, 0, 0] (fun _ => 0)) 1) {} =
      some ⟨13, [⟨⟨0x3E, 2, 2⟩, [⟨⟨0x3C5, 1, 2⟩, [0x41]⟩], [⟨⟨0x10C, 0, 2⟩, []⟩], none⟩], some 0⟩ := by
    decide +kernel
  have hstop : (final (TcpPacket.ofInput (.server
      [13, 0, 0x3E, 0, 2, 0, 0xC5, 3, 1, 0, 0x41, 0x0C, 1, 0, 0] (fun _ => 0)) 1) {}).it = 15 := by
    decide +kernel
  exact ⟨by decide, fun _ => 0, 1, _, _, returned_eq_some.mp hrun, rfl, hstop⟩

theorem name_yields :
    Yields (buffer [0x3E, 0, 2, 0, 0xC5, 3, 1, 0, 0x41, 0x0C, 1, 0, 0] []) (fun _ => 0xFF)
        [⟨⟨0x3E, 2, 2⟩, [⟨⟨0x3C5, 1, 2⟩, [0x41]⟩], [⟨⟨0x10C, 0, 2⟩, []⟩], none⟩] 15 ∧
      ¬ Yields (buffer [0x3E, 0, 2, 0, 0xC5, 3, 1, 0, 0x41, 0x0C, 1, 0, 0] [4, 0, 0x3E, 0, 0, 0])
        (fun _ => 0)
        [⟨⟨0x3E, 2, 2⟩, [⟨⟨0x3C5, 1, 2⟩, [0x41]⟩], [⟨⟨0x10C, 0, 2⟩, []⟩], none⟩] 15 := by
  constructor
  · exact (frame_yields_iff name_frame [] (fun _ => 0xFF)).mpr (.inl rfl)
  · intro h
    obtain hnil | hnil := (frame_yields_iff name_frame [4, 0, 0x3E, 0, 0, 0] (fun _ => 0)).mp h
    · cases hnil
    · cases hnil

theorem some_frame_runs_on : ¬ ∀ (payload rest : List UInt8) (packets : List Packet)
    (beyond : Nat → UInt8), Frame payload packets →
      Yields (buffer payload rest) beyond packets (2 + payload.length) := by
  intro h
  have hboth := h _ [4, 0, 0x3E, 0, 0, 0] _ (fun _ => 0) keepAlive_frame
  obtain hnil | hnil := hboth.nothing_follows (by decide)
  · cases hnil
  · cases hnil

/-- From this state the constructor stores no packet and leaves the cursor where it is. -/
def LeavesInput (m : Machine) (s : Scan) : Prop :=
  ∀ rounds, ∃ t u, TcpPacket.ofInput m rounds s = .ok t u ∧ t.packets = [] ∧ u.it = s.it

variable {m : Machine} {s : Scan}

theorem leavesInput_of_short (h : m.input.length < s.it + 2) : LeavesInput m s := by
  intro rounds
  refine ⟨{ size := 0 }, s, ?_, rfl, rfl⟩
  rw [TcpPacket.ofInput, bind_ok (toUint16_short h), bind_ok (cursor_run s)]
  rfl

/-- The size is read before it is compared with what remains, and not given back. -/
theorem not_leavesInput (hm : Total m) {payload p : List UInt8} (hsize : payload.length < 2 ^ 16)
    (hs : At m (bytes 2 payload.length ++ p) s) (hlt : p.length < payload.length) :
    ¬ LeavesInput m s := by
  intro h
  obtain ⟨size, u, hread, rfl, hu⟩ := (consumes_toUint16 (E := fun _ => False) hm hsize p).total hs
  obtain ⟨t, v, hrun, _, hit⟩ := h 0
  have hlen := hs.length
  have hrest := hu.length
  rw [List.length_append, length_bytes] at hlen
  rw [TcpPacket.ofInput, bind_ok hread, bind_ok (cursor_run u), if_neg (by omega),
    if_pos (by omega)] at hrun
  cases hrun
  omega

theorem prefix_begins_with_size {payload p rest : List UInt8}
    (h : bytes 2 payload.length ++ payload = p ++ rest) (hp : 2 ≤ p.length) :
    ∃ q, p = bytes 2 payload.length ++ q ∧ payload = q ++ rest := by
  obtain ⟨q, hq, hpayload⟩ | ⟨q, hq, hrest⟩ := List.append_eq_append_iff.mp h
  · exact ⟨q, hq, hpayload⟩
  · have hlen := congrArg List.length hq
    rw [List.length_append, length_bytes] at hlen
    have hnil : q = [] := List.length_eq_zero_iff.mp (by omega)
    subst hnil
    exact ⟨[], by simpa using hq.symm, by simpa using hrest.symm⟩

/-- A frame that is cut off is left in the buffer exactly when it is cut off inside its size. -/
theorem incomplete_frame_iff {payload p rest input : List UInt8} {beyond : Nat → UInt8}
    (hsize : payload.length < 2 ^ 16) (h : bytes 2 payload.length ++ payload = p ++ rest)
    (hrest : rest ≠ []) (hs : At (.server input beyond) p s) :
    LeavesInput (.server input beyond) s ↔ p.length < 2 := by
  have hlen := hs.length
  constructor
  · intro hleaves
    by_contra hp
    obtain ⟨q, rfl, hpayload⟩ := prefix_begins_with_size h (Nat.not_lt.mp hp)
    have hpos := List.length_pos_iff.mpr hrest
    have hlt : q.length < payload.length := by
      rw [hpayload, List.length_append]
      omega
    exact not_leavesInput (total_server input beyond) hsize hs hlt hleaves
  · intro hp
    exact leavesInput_of_short (by omega)

theorem incomplete_keepAlive : LeavesInput (.server [4] (fun _ => 0)) {} ↔ [(4 : UInt8)].length < 2 := by
  have hframe : bytes 2 ([0x3E, 0, 0, 0] : List UInt8).length ++ [0x3E, 0, 0, 0] =
      [4] ++ [0, 0x3E, 0, 0, 0] := by decide
  exact incomplete_frame_iff (by decide) hframe (by decide) ⟨Nat.zero_le _, rfl⟩

theorem some_prefix_consumed : ¬ ∀ (payload p rest : List UInt8) (packets : List Packet)
    (beyond : Nat → UInt8), Frame payload packets → bytes 2 payload.length ++ payload = p ++ rest →
      rest ≠ [] → LeavesInput (.server p beyond) {} := by
  intro h
  have hleaves := h _ [4, 0] [0x3E, 0, 0, 0] _ (fun _ => 0) keepAlive_frame (by decide) (by decide)
  have hs : At (.server [4, 0] (fun _ => 0)) (bytes 2 ([0x3E, 0, 0, 0] : List UInt8).length ++ []) {} :=
    ⟨Nat.zero_le _, by decide⟩
  exact not_leavesInput (total_server _ _) (by decide) hs (by decide) hleaves

end GlobalAgenda.Framing
