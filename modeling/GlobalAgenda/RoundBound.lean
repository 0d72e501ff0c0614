import GlobalAgenda.Termination

namespace GlobalAgenda.RoundBound

open EnumDataTypes ValueConverter Base.Triples Base.WhileLoop ParserSpec Termination

variable {m : Machine} {s : Scan}

abbrev loop (m : Machine) (rounds : Nat) : Decoder (List Packet) :=
  whileLoop .outOfFuel (TcpPacket.notAtEnd m) (TcpPacket.round m) rounds []

theorem raised_iff_outcome {ε σ α : Type} {x : EStateM ε σ α} {s : σ} {e : ε} :
    raised x s = some e ↔ outcome x s = .error e := by
  unfold raised outcome
  cases x s <;> simp

theorem ofInput_before (h : ¬ ∃ s, TcpPacket.Enters m s) (n k : Nat) :
    TcpPacket.ofInput m n {} = TcpPacket.ofInput m k {} := by
  cases hsize : toUint16 m {} with
  | error f u => rw [TcpPacket.ofInput, TcpPacket.ofInput, bind_error hsize, bind_error hsize]
  | ok size u =>
    rw [TcpPacket.ofInput, TcpPacket.ofInput, bind_ok hsize, bind_ok hsize, bind_ok (cursor_run u),
      bind_ok (cursor_run u)]
    by_cases hzero : size = 0
    · rw [if_pos hzero, if_pos hzero]
    · have hlong : m.input.length - u.it < size := by
        by_contra hfits
        exact h ⟨u, size, hsize, hzero, Nat.le_of_not_lt hfits⟩
      rw [if_neg hzero, if_neg hzero, if_pos hlong, if_pos hlong]

theorem ofInput_outcome (h : TcpPacket.Enters m s) : ∃ size, ∀ rounds,
    outcome (TcpPacket.ofInput m rounds) {} = (outcome (loop m rounds) s).map
      (fun ps => { size := size, packets := ps, packetIter := some 0 }) := by
  obtain ⟨size, hsize, hne, hle⟩ := h
  refine ⟨size, fun rounds => ?_⟩
  rw [← outcome_bind_pure, outcome, outcome, TcpPacket.ofInput, bind_ok hsize, bind_ok (cursor_run s),
    if_neg hne, if_neg (by omega)]

/-- So many rounds as pairs of bytes remain decide how the loop ends, and if it does. -/
theorem loop_decided (h0 : m.typeOf 0 = some 0) (h : TcpPacket.Enters m s) {n k : Nat}
    (hn : (m.input.length - s.it) / 2 ≤ n) (hk : (m.input.length - s.it) / 2 ≤ k) :
    outcome (loop m n) s = outcome (loop m k) s := by
  apply outcome_of_measure (fun t => (m.input.length - t.it) / 2) (fun t => t.it + 1 = m.input.length)
    [] s ?_ ?_ ?_ ?_ n k hn hk
  · intro t ht
    exact decide_eq_true (by omega)
  · intro ps t ht
    have hshort : m.input.length < t.it + 2 := by omega
    obtain ⟨qs, hrun⟩ := round_short h0 hshort ps
    exact ⟨qs, t, hrun, ht⟩
  · intro ps t hreach hc hlast
    have hle := AtHead.le_end ⟨s, h, hreach⟩
    have hne : t.it ≠ m.input.length := of_decide_eq_true hc
    omega
  · intro ps t qs u hreach hc hlast hrun
    obtain ⟨hadv, hend⟩ := AtHead.round_advances ⟨s, h, hreach⟩ hc hlast hrun
    omega

theorem ofInput_decided (h0 : m.typeOf 0 = some 0) {n k : Nat} (hn : m.input.length / 2 ≤ n)
    (hk : m.input.length / 2 ≤ k) :
    outcome (TcpPacket.ofInput m n) {} = outcome (TcpPacket.ofInput m k) {} := by
  by_cases h : ∃ s, TcpPacket.Enters m s
  · obtain ⟨s, hs⟩ := h
    obtain ⟨size, hsize⟩ := ofInput_outcome hs
    have hle : (m.input.length - s.it) / 2 ≤ m.input.length / 2 :=
      Nat.div_le_div_right (Nat.sub_le _ _)
    rw [hsize, hsize, loop_decided h0 hs (hle.trans hn) (hle.trans hk)]
  · rw [outcome, outcome, ofInput_before h n k]

theorem ofInput_more {n k : Nat} (hle : n ≤ k)
    (h : raised (TcpPacket.ofInput m n) {} ≠ some .outOfFuel) :
    outcome (TcpPacket.ofInput m k) {} = outcome (TcpPacket.ofInput m n) {} := by
  by_cases henters : ∃ s, TcpPacket.Enters m s
  · obtain ⟨s, hs⟩ := henters
    obtain ⟨size, hsize⟩ := ofInput_outcome hs
    have hloop : ∀ t, loop m n s ≠ .error .outOfFuel t := by
      intro t ht
      have hraised : raised (loop m n) s = some .outOfFuel := by rw [raised, ht]
      exact h ((hs.raised n).trans hraised)
    have hmore : outcome (loop m k) s = outcome (loop m n) s := by
      rw [outcome, outcome, loop, whileLoop_more hle hloop]
    rw [hsize, hsize, hmore]
  · rw [outcome, outcome, ofInput_before henters k n]

/-- What the constructor does is decided within half as many rounds as the input has bytes: no more
of them change what it returns or raises, and if it has not ended by then it never does. -/
theorem half_decides (input : List UInt8) (beyond : Nat → UInt8) :
    (∀ rounds, input.length / 2 ≤ rounds →
      outcome (TcpPacket.ofInput (.server input beyond) rounds) {} =
        outcome (TcpPacket.ofInput (.server input beyond) (input.length / 2)) {}) ∧
    (Ends (.server input beyond) ↔
      outcome (TcpPacket.ofInput (.server input beyond) (input.length / 2)) {} ≠
        .error .outOfFuel) := by
  have hdecided : ∀ rounds, input.length / 2 ≤ rounds →
      outcome (TcpPacket.ofInput (.server input beyond) rounds) {} =
        outcome (TcpPacket.ofInput (.server input beyond) (input.length / 2)) {} :=
    fun rounds h => ofInput_decided typeOf_unknown h le_rfl
  refine ⟨hdecided, ?_, fun hends => ⟨input.length / 2, fun h => hends (raised_iff_outcome.mp h)⟩⟩
  rintro ⟨rounds, hends⟩ hstuck
  have hmore := ofInput_more (Nat.le_max_left rounds (input.length / 2)) hends
  rw [hdecided _ (Nat.le_max_right _ _), hstuck] at hmore
  exact hends (raised_iff_outcome.mpr hmore.symm)

end GlobalAgenda.RoundBound
