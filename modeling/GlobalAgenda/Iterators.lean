import GlobalAgenda.Client

namespace GlobalAgenda.Iterators

open Base.Triples

variable {S α : Type}

/-- The items that a number of calls return. -/
def calls (next : S → Except Fault (α × S)) : Nat → S → Except Fault (List α × S)
  | 0, s => pure ([], s)
  | n + 1, s => do
    let (a, s) ← next s
    let (as, s) ← calls next n s
    pure (a :: as, s)

/-- The first calls return the items in order, and every later call returns the empty one. -/
def Enumerates (next : S → Except Fault (α × S)) (items : S → List α) (empty : α) (s : S) : Prop :=
  ∀ n, ∃ t, calls next ((items s).length + n) s = .ok (items s ++ List.replicate n empty, t)

/-- A call moves the iterator and returns the item it then stands at. -/
structure Iterates (next : S → Except Fault (α × S)) (items : S → List α) (iter : S → Option Nat)
    (empty : α) : Prop where
  unset : ∀ s, iter s = none → next s = .error .badIterator
  inside : ∀ s i, iter s = some i → i < (items s).length →
    ∃ t, next s = .ok ((items s).getD (i + 1) empty, t) ∧ items t = items s ∧ iter t = some (i + 1)
  past : ∀ s i, iter s = some i → (items s).length ≤ i → next s = .error .badIterator

section Calls

variable {next : S → Except Fault (α × S)} {items : S → List α} {iter : S → Option Nat} {empty : α}

theorem calls_error {s : S} {f : Fault} (h : next s = .error f) (n : Nat) :
    calls next (n + 1) s = .error f := by
  rw [calls, h]
  rfl

theorem calls_cons {s t u : S} {a : α} {as : List α} {n : Nat} (h : next s = .ok (a, t))
    (hrest : calls next n t = .ok (as, u)) : calls next (n + 1) s = .ok (a :: as, u) := by
  rw [calls, h]
  change (calls next n t >>= _) = _
  rw [hrest]
  rfl

theorem calls_rest {s t : S} {a : α} {f : Fault} {n : Nat} (h : next s = .ok (a, t))
    (hrest : calls next n t = .error f) : calls next (n + 1) s = .error f := by
  rw [calls, h]
  change (calls next n t >>= _) = _
  rw [hrest]
  rfl

theorem getD_cons_drop (as : List α) (a : α) {i : Nat} (hi : i < as.length) :
    as.getD i a :: as.drop (i + 1) = as.drop i := by
  rw [List.getD_eq_getElem _ _ hi, ← List.drop_eq_getElem_cons hi]

theorem Iterates.calls_inside (h : Iterates next items iter empty) {s : S} {i : Nat}
    (hs : iter s = some i) (k : Nat) (hk : i + k ≤ (items s).length) :
    ∃ t, calls next k s = .ok (((items s).drop (i + 1) ++ [empty]).take k, t) := by
  induction k generalizing s i with
  | zero => exact ⟨s, rfl⟩
  | succ k ih =>
    obtain ⟨t, hnext, hitems, hiter⟩ := h.inside s i hs (by omega)
    obtain ⟨u, hrest⟩ := ih hiter (by rw [hitems]; omega)
    refine ⟨u, (calls_cons hnext hrest).trans ?_⟩
    rw [hitems]
    by_cases hend : i + 1 < (items s).length
    · rw [← getD_cons_drop _ empty hend, List.cons_append, List.take_succ_cons]
    · have hk0 : k = 0 := by omega
      have hdrop : (items s).drop (i + 1) = [] := List.drop_eq_nil_of_le (by omega)
      subst hk0
      rw [List.getD_eq_default _ _ (by omega), hdrop]
      rfl

theorem Iterates.calls_past (h : Iterates next items iter empty) {s : S} {i : Nat}
    (hs : iter s = some i) (k : Nat) (hk : (items s).length < i + (k + 1)) :
    calls next (k + 1) s = .error .badIterator := by
  induction k generalizing s i with
  | zero => exact calls_error (h.past s i hs (by omega)) 0
  | succ k ih =>
    by_cases hi : i < (items s).length
    · obtain ⟨t, hnext, hitems, hiter⟩ := h.inside s i hs hi
      exact calls_rest hnext (ih hiter (by rw [hitems]; omega))
    · exact calls_error (h.past s i hs (by omega)) (k + 1)

theorem Iterates.calls_length (h : Iterates next items iter empty) (s : S) :
    calls next ((items s).length + 1) s = .error .badIterator := by
  cases hs : iter s with
  | none => exact calls_error (h.unset s hs) _
  | some i => exact h.calls_past hs _ (by omega)

theorem Iterates.not_enumerates (h : Iterates next items iter empty) (s : S) :
    ¬ Enumerates next items empty s := by
  intro hall
  obtain ⟨t, hrun⟩ := hall 1
  rw [h.calls_length] at hrun
  cases hrun

end Calls

theorem packets_iterate :
    Iterates TcpPacket.getNextPacket TcpPacket.copies TcpPacket.packetIter {} where
  unset t h := by rw [TcpPacket.getNextPacket, h]
  inside t i h hi := by
    rw [Client.copies_length] at hi
    exact ⟨_, Client.getNextPacket_some h hi, rfl, rfl⟩
  past t i h hi := by
    rw [Client.copies_length] at hi
    rw [TcpPacket.getNextPacket, h]
    exact if_neg (Nat.not_lt.mpr hi)

theorem entries_iterate : Iterates Packet.getNextEntry Packet.entries Packet.entryIter {} where
  unset p h := by rw [Packet.getNextEntry, h]
  inside p i h hi := by
    refine ⟨{ p with entryIter := some (i + 1) }, ?_, rfl, rfl⟩
    rw [Packet.getNextEntry, h]
    exact if_pos hi
  past p i h hi := by
    rw [Packet.getNextEntry, h]
    exact if_neg (Nat.not_lt.mpr hi)

/-- The calls on a parsed frame begin with the second packet. -/
theorem parsed_calls {m : Machine} {rounds : Nat} {t : TcpPacket}
    (h : returned (TcpPacket.ofInput m rounds) {} = some t) (hne : t.packets ≠ []) :
    ∃ u, calls TcpPacket.getNextPacket t.packets.length t = .ok (t.copies.tail ++ [({} : Packet)], u) := by
  obtain ⟨hnil, _⟩ | ⟨_, hiter⟩ := Client.parsed_iter h
  · exact absurd hnil hne
  · obtain ⟨u, hu⟩ := packets_iterate.calls_inside hiter t.packets.length
      (by rw [Client.copies_length]; omega)
    have hpos := List.length_pos_iff.mpr hne
    refine ⟨u, hu.trans ?_⟩
    rw [List.take_of_length_le (by simp [Client.copies_length]; omega), List.drop_one]

/-- However a frame or a packet was filled, its iterator does not enumerate it. -/
theorem never_enumerates (t : TcpPacket) (p : Packet) :
    ¬ Enumerates TcpPacket.getNextPacket TcpPacket.copies {} t ∧
      ¬ Enumerates Packet.getNextEntry Packet.entries {} p :=
  ⟨packets_iterate.not_enumerates t, entries_iterate.not_enumerates p⟩

theorem some_packet_skipped : ¬ ∀ (input : List UInt8) (beyond : Nat → UInt8) (rounds : Nat)
    (t : TcpPacket), returned (TcpPacket.ofInput (.server input beyond) rounds) {} = some t →
      Enumerates TcpPacket.getNextPacket TcpPacket.copies {} t := by
  intro h
  have hparse : returned (TcpPacket.ofInput (.server [4, 0, 0x3E, 0, 0, 0] (fun _ => 0)) 1) {} =
      some ⟨4, [⟨⟨0x3E, 0, 2⟩, [], [], none⟩], some 0⟩ := by decide +kernel
  obtain ⟨u, hu⟩ := parsed_calls hparse (by decide)
  obtain ⟨t, ht⟩ := h _ _ _ _ hparse 0
  rw [Nat.add_zero, Client.copies_length, hu] at ht
  have hfirst : [({} : Packet)] = [⟨⟨0x3E, 0, 2⟩, [], [], none⟩] :=
    congrArg Prod.fst (Except.ok.inj ht)
  exact absurd hfirst (by decide)

end GlobalAgenda.Iterators
