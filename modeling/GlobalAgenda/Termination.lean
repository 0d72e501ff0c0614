import GlobalAgenda.ReadSafety

namespace GlobalAgenda.Termination

open EnumDataTypes ValueConverter Base.Triples Base.WhileLoop ParserSpec ReadSafety Walk

section ShortReads

variable {m : Machine} {s : Scan}

theorem header_short (h0 : m.typeOf 0 = some 0) (h : m.input.length < s.it + 2) :
    EntryHeader.ofInput m s = .ok ⟨0, 0, 2⟩ s := by
  have hcmd : toCmd m s = .ok 0 s := by
    rw [toCmd, bind_ok (toUint16_short h)]
    rfl
  have hconfig : EntryHeader.getConfig m.typeOf 0 = .ok (2, 0) :=
    EntryHeader.getConfig_known h0 (by norm_num)
  rw [EntryHeader.ofInput, bind_ok hcmd, hconfig, lift, pure_bind]
  exact bind_ok (toUint16_short h)

theorem round_short (h0 : m.typeOf 0 = some 0) (h : m.input.length < s.it + 2)
    (packets : List Packet) : ∃ qs, TcpPacket.round m packets s = .ok qs s := by
  have hpacket : Packet.ofInput m s = .ok { packetHeader := ⟨0, 0, 2⟩, entryIter := some 0 } s := by
    rw [Packet.ofInput, bind_ok (header_short h0 h)]
    rfl
  exact ⟨_, bind_ok hpacket⟩

end ShortReads

variable {m : Machine} {packets : List Packet} {s : Scan}

/-- A round of the loop may begin with these packets in this state. -/
def AtHead (m : Machine) (packets : List Packet) (s : Scan) : Prop :=
  ∃ s₀, TcpPacket.Enters m s₀ ∧ Reaches (TcpPacket.notAtEnd m) (TcpPacket.round m) [] s₀ packets s

def Ends (m : Machine) : Prop :=
  ∃ rounds, raised (TcpPacket.ofInput m rounds) {} ≠ some .outOfFuel

def Advances (m : Machine) : Prop :=
  ∀ packets s qs t, AtHead m packets s → TcpPacket.notAtEnd m s = true →
    TcpPacket.round m packets s = .ok qs t → s.it < t.it

theorem enters_of_raised {rounds : Nat}
    (h : raised (TcpPacket.ofInput m rounds) {} = some .outOfFuel) : ∃ s, TcpPacket.Enters m s := by
  by_contra hnone
  have hsize := runs_toUint16 (m := m) (C := False) (Nat.zero_le _) {} rfl
  cases hrun : toUint16 m {} with
  | ok size s =>
    have hguard : size = 0 ∨ m.input.length - s.it < size := by
      by_contra hboth
      exact hnone ⟨s, size, hrun, fun h0 => hboth (.inl h0), by omega⟩
    rw [raised, TcpPacket.ofInput, bind_ok hrun, bind_ok (cursor_run s)] at h
    by_cases hzero : size = 0
    · rw [if_pos hzero] at h
      cases h
    · rw [if_neg hzero, if_pos (hguard.resolve_left hzero)] at h
      cases h
  | error f s =>
    rw [hrun] at hsize
    rw [raised, TcpPacket.ofInput, bind_error hrun] at h
    exact hsize (Option.some.inj h)

theorem AtHead.le_end (h : AtHead m packets s) : s.it ≤ m.input.length := by
  obtain ⟨s₀, ⟨size, hsize, _⟩, hreach⟩ := h
  have hstart := Triple.ok (runs_toUint16 (C := True) (Nat.zero_le _)) rfl hsize
  have hinv : LoopInv m s₀.it packets s := by
    apply hreach.invariant (I := LoopInv m s₀.it) ⟨.nil _, le_rfl, hstart.2.2⟩
    intro ps s qs t hc hinv hrun
    exact (round_keeps ps).ok ⟨hc, hinv⟩ hrun
  exact hinv.le_end

theorem AtHead.round_advances {qs : List Packet} {t : Scan} (h : AtHead m packets s)
    (hc : TcpPacket.notAtEnd m s = true) (hlast : s.it + 1 ≠ m.input.length)
    (hrun : TcpPacket.round m packets s = .ok qs t) : s.it + 2 ≤ t.it ∧ t.it ≤ m.input.length := by
  have hne : s.it ≠ m.input.length := of_decide_eq_true hc
  have hle := h.le_end
  have hround := Triple.ok (runs_round (C := True) hle packets) rfl hrun
  exact ⟨hround.1.2 (by omega), hround.2.2⟩

theorem AtHead.round_ne_outOfFuel {t : Scan} (h : AtHead m packets s) :
    TcpPacket.round m packets s ≠ .error .outOfFuel t := by
  intro hrun
  exact Triple.error (runs_round (C := False) h.le_end packets) rfl hrun rfl

theorem loop_ends_iff (h0 : m.typeOf 0 = some 0) (h : TcpPacket.Enters m s) :
    Terminates .outOfFuel (TcpPacket.notAtEnd m) (TcpPacket.round m) [] s ↔
      ∀ ps t, Reaches (TcpPacket.notAtEnd m) (TcpPacket.round m) [] s ps t →
        ¬ t.it + 1 = m.input.length := by
  apply terminates_iff (fun t => m.input.length - t.it)
  · intro t ht
    exact decide_eq_true (by omega)
  · intro ps t ht
    have hshort : m.input.length < t.it + 2 := by omega
    obtain ⟨qs, hrun⟩ := round_short h0 hshort ps
    exact ⟨qs, t, hrun, ht⟩
  · intro ps t hreach hc
    have hle := AtHead.le_end ⟨s, h, hreach⟩
    have hne : t.it ≠ m.input.length := of_decide_eq_true hc
    omega
  · intro ps t qs u hreach hc hlast hrun
    obtain ⟨hlt, hle⟩ := AtHead.round_advances ⟨s, h, hreach⟩ hc hlast hrun
    omega
  · intro ps t u hreach
    exact AtHead.round_ne_outOfFuel ⟨s, h, hreach⟩

theorem ends_iff (h0 : m.typeOf 0 = some 0) :
    Ends m ↔ ∀ packets s, AtHead m packets s → s.it + 1 ≠ m.input.length := by
  constructor
  · rintro ⟨rounds, hends⟩ packets t ⟨s, henter, hreach⟩
    apply (loop_ends_iff h0 henter).mp _ packets t hreach
    refine ⟨rounds, fun u hu => hends ?_⟩
    rw [henter.raised rounds, raised, hu]
  · intro hlast
    by_cases henters : ∃ s, TcpPacket.Enters m s
    · obtain ⟨s, henter⟩ := henters
      obtain ⟨rounds, hn⟩ := (loop_ends_iff h0 henter).mpr
        (fun ps t hreach => hlast ps t ⟨s, henter, hreach⟩)
      refine ⟨rounds, fun hstuck => ?_⟩
      rw [henter.raised rounds] at hstuck
      exact hn _ (raised_eq_some.mp hstuck)
    · exact ⟨0, fun hstuck => henters (enters_of_raised hstuck)⟩

/-- The constructor ends and each of its rounds moves the cursor exactly when no round begins at
the last byte. -/
theorem parse_ends_iff (input : List UInt8) (beyond : Nat → UInt8) :
    Ends (.server input beyond) ∧ Advances (.server input beyond) ↔
      ∀ packets s, AtHead (.server input beyond) packets s → s.it + 1 ≠ input.length := by
  constructor
  · intro h
    exact (ends_iff (m := .server input beyond) typeOf_unknown).mp h.1
  · intro hlast
    refine ⟨(ends_iff typeOf_unknown).mpr hlast, fun packets s qs t hhead hc hrun => ?_⟩
    have hadv := (hhead.round_advances hc (hlast packets s hhead) hrun).1
    omega

theorem some_parse_never_ends : ¬ ∀ (input : List UInt8) (beyond : Nat → UInt8),
    (∀ rounds, CodesInside input (FrameComes (.server input beyond) rounds)) →
      Ends (.server input beyond) := by
  intro h
  have hsize : returned (toUint16 (.server [1, 0, 0] (fun _ => 0))) {} = some 1 := by
    decide +kernel
  have hlast : (final (toUint16 (.server [1, 0, 0] (fun _ => 0))) {}).it = 2 := by decide +kernel
  have hhead : AtHead (.server [1, 0, 0] (fun _ => 0)) []
      (final (toUint16 (.server [1, 0, 0] (fun _ => 0))) {}) :=
    ⟨_, ⟨1, returned_eq_some.mp hsize, by norm_num, by rw [hlast]; decide⟩, .refl _ _⟩
  have hnever : ¬ Ends (.server [1, 0, 0] (fun _ => 0)) :=
    fun hends => (ends_iff typeOf_unknown).mp hends _ _ hhead (by rw [hlast]; rfl)
  apply hnever
  apply h
  intro rounds
  have hstuck : raised (TcpPacket.ofInput (.server [1, 0, 0] (fun _ => 0)) rounds) {} =
      some .outOfFuel := by
    by_contra hne
    exact hnever ⟨rounds, hne⟩
  apply (frame_misses_iff _ _ _).mp
  intro f hf
  rw [hstuck] at hf
  cases hf
  exact id

end GlobalAgenda.Termination
