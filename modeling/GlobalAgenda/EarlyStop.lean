import GlobalAgenda.CursorSafety
import GlobalAgenda.Termination

namespace GlobalAgenda.EarlyStop

open EnumDataTypes ValueConverter Base.Triples Base.WhileLoop ParserSpec Termination CursorSafety

variable {m : Machine} {s t u x : Scan} {n : Nat} {p q : Packet}

/-- One round of the loop of `m_parse` that stores an item. -/
inductive Accepts (m : Machine) (u : Scan) : Scan → Prop
  | dataSet {h : EntryHeader} {d : DataSet} {v w x : Scan}
      (hh : EntryHeader.ofInput m u = .ok h v) (h6 : m.typeOf h.cmd = some 6)
      (hd : DataSet.ofHeader m h v = .ok d w) (hp : d.dbgPrint m w = .ok () x) : Accepts m u x
  | entry {h : EntryHeader} {e : DataEntry} {type : Nat} {v w x : Scan}
      (hh : EntryHeader.ofInput m u = .ok h v) (ht : m.typeOf h.cmd = some type) (h6 : type ≠ 6)
      (he : DataEntry.ofHeader m h v = .ok e w) (hp : e.dbgPrint m w = .ok () x)
      (hvalid : e.valid = true) : Accepts m u x

/-- The loop of `m_parse` of the packet that begins at `s` comes to the head of a round, with so
many rounds left. -/
inductive ItemHead (m : Machine) (s : Scan) : Nat → Scan → Prop
  | first {h : EntryHeader} {u : Scan} (hh : EntryHeader.ofInput m s = .ok h u) :
      ItemHead m s h.getSize u
  | next {n : Nat} {u x : Scan} (hu : ItemHead m s (n + 1) u) (hend : u.it ≠ m.input.length)
      (hx : Accepts m u x) : ItemHead m s n x

/-- The entry whose header begins at `i` ends at `j`, and has the unknown command or no payload. -/
def RejectedAt (m : Machine) (i j : Nat) : Prop :=
  ∃ h k data, HeaderAt m i h k ∧ PayloadAt m k h data j ∧ m.typeOf h.cmd ≠ some 6 ∧
    (h.cmd = CmdCode.unknown ∨ data = [])

/-- The packet that begins at `s` has an entry up to `stop` that is rejected. -/
def StopsAt (m : Machine) (s : Scan) (stop : Nat) : Prop :=
  ∃ n u, ItemHead m s (n + 1) u ∧ u.it ≠ m.input.length ∧ RejectedAt m u.it stop

theorem Accepts.run (hx : Accepts m u x) (hend : u.it ≠ m.input.length) (n : Nat) (p : Packet) :
    ∃ q, Packet.parseItems m (n + 1) p u = Packet.parseItems m n q x ∧
      q.entryIter = p.entryIter := by
  cases hx with
  | @dataSet h d v w _ hh h6 hd hp =>
    refine ⟨{ p with dataSets := p.dataSets ++ [d] }, ?_, rfl⟩
    have hset : EnumType.ofValue 6 = some .typeTcpDataSet := rfl
    rw [Packet.parseItems, bind_ok (cursor_run u), if_neg hend, bind_ok hh,
      getType_run h6, pure_bind, if_pos hset, bind_ok hd, bind_ok hp]
  | @entry h e type v w _ hh ht h6 he hp hvalid =>
    refine ⟨{ p with entries := p.entries ++ [e] }, ?_, rfl⟩
    rw [Packet.parseItems, bind_ok (cursor_run u), if_neg hend, bind_ok hh,
      getType_run ht, pure_bind, if_neg (EnumType.ofValue_ne_typeTcpDataSet h6), bind_ok he,
      bind_ok hp, if_pos hvalid]

theorem ItemHead.run (h : ItemHead m s n u) :
    ∃ p, p.entryIter = none ∧ Packet.ofInput m s = Packet.parseItems m n p u := by
  induction h with
  | @first h u hh =>
    refine ⟨{ packetHeader := h }, rfl, ?_⟩
    rw [Packet.ofInput, bind_ok hh]
  | @next n u x _ hend hx ih =>
    obtain ⟨p, hp, hrun⟩ := ih
    obtain ⟨q, hq, hiter⟩ := hx.run hend n p
    exact ⟨q, hiter.trans hp, hrun.trans hq⟩

def Fine (m : Machine) (s : Scan) : Prop := s.it ≤ m.input.length

theorem fine_ok {α : Type} {a : α} {decoder : Decoder α} {Q : α → Nat → Prop}
    (hrun : decoder s = .ok a t) (hspec : Runs m True s.it decoder Q) : Q a t.it ∧ Fine m t := by
  obtain ⟨hq, _, hle⟩ := Triple.ok hspec rfl hrun
  exact ⟨hq, hle⟩

theorem header_ok {h : EntryHeader} (hs : Fine m s) (hh : EntryHeader.ofInput m s = .ok h t) :
    HeaderAt m s.it h t.it ∧ Fine m t :=
  fine_ok hh (runs_header hs)

theorem payload_ok {h : EntryHeader} {e : DataEntry} {type : Nat} (hs : Fine m s)
    (ht : m.typeOf h.cmd = some type) (he : DataEntry.ofHeader m h s = .ok e t) :
    (e.entryHeader = h ∧ PayloadAt m s.it h e.data t.it) ∧ Fine m t :=
  fine_ok he (runs_ofHeader hs ht)

theorem Accepts.fine (hx : Accepts m u x) (hu : Fine m u) : Fine m x := by
  cases hx with
  | dataSet hh h6 hd hp =>
    obtain ⟨_, hv⟩ := header_ok hu hh
    obtain ⟨_, hw⟩ := fine_ok hd (runs_arrays hv _)
    exact (fine_ok hp (runs_dataSet_dbgPrint hw _)).2
  | entry hh ht h6 he hp hvalid =>
    obtain ⟨_, hv⟩ := header_ok hu hh
    obtain ⟨_, hw⟩ := payload_ok hv ht he
    exact (fine_ok hp (runs_dbgPrint hw _)).2

theorem ItemHead.fine (h : ItemHead m s n u) (hs : Fine m s) : Fine m u := by
  induction h with
  | first hh => exact (header_ok hs hh).2
  | next _ _ hx ih => exact hx.fine ih

section Stops

variable {stop : Nat}

theorem rejected_run (hu : Fine m u) (hend : u.it ≠ m.input.length) (hr : RejectedAt m u.it stop)
    (hrun : Packet.parseItems m (n + 1) p u = .ok q t) : t.it = stop ∧ q = p := by
  obtain ⟨h', k, data, hat', hpay', h6, hbad⟩ := hr
  rw [Packet.parseItems, bind_ok (cursor_run u), if_neg hend] at hrun
  obtain ⟨h, v, hh, hrun⟩ := bind_eq_ok hrun
  obtain ⟨hat, hv⟩ := header_ok hu hh
  obtain ⟨rfl, rfl⟩ := HeaderAt.unique hat' hat
  obtain ⟨type, _, ht⟩ := hat.typeOf
  have hne : type ≠ 6 := fun h => h6 (by rw [ht, h])
  rw [getType_run ht, pure_bind, if_neg (EnumType.ofValue_ne_typeTcpDataSet hne)] at hrun
  obtain ⟨e, w, he, hrun⟩ := bind_eq_ok hrun
  obtain ⟨⟨heq, hpay⟩, _⟩ := payload_ok hv ht he
  obtain ⟨rfl, rfl⟩ := PayloadAt.unique hpay' hpay
  obtain ⟨_, x, hp, hrun⟩ := bind_eq_ok hrun
  have hx : x.it = w.it := dbgPrint_stays e.entryHeader _ _ _ hp
  have hinvalid : ¬ e.valid = true := by
    intro hvalid
    obtain ⟨hcmd, hdata⟩ := (DataEntry.valid_iff e).mp hvalid
    rw [heq] at hcmd
    obtain hzero | hnil := hbad
    · exact hcmd hzero
    · exact hdata hnil
  rw [if_neg hinvalid] at hrun
  cases hrun
  exact ⟨hx, rfl⟩

theorem stops_of_unset (hs : Fine m s) (hu : ItemHead m s n u)
    (hrun : Packet.parseItems m n p u = .ok q t) (hq : q.entryIter = none) : StopsAt m s t.it := by
  induction n generalizing p u with
  | zero =>
    cases hrun
    cases hq
  | succ n ih =>
    rw [Packet.parseItems, bind_ok (cursor_run u)] at hrun
    by_cases hend : u.it = m.input.length
    · rw [if_pos hend] at hrun
      cases hrun
      cases hq
    rw [if_neg hend] at hrun
    obtain ⟨h, v, hh, hrun⟩ := bind_eq_ok hrun
    obtain ⟨hat, hv⟩ := header_ok (hu.fine hs) hh
    obtain ⟨type, _, ht⟩ := hat.typeOf
    rw [getType_run ht, pure_bind] at hrun
    by_cases h6 : type = 6
    · subst h6
      rw [if_pos (by rfl)] at hrun
      obtain ⟨d, w, hd, hrun⟩ := bind_eq_ok hrun
      obtain ⟨_, x, hp, hrun⟩ := bind_eq_ok hrun
      exact ih (hu.next hend (.dataSet hh ht hd hp)) hrun
    rw [if_neg (EnumType.ofValue_ne_typeTcpDataSet h6)] at hrun
    obtain ⟨e, w, he, hrun⟩ := bind_eq_ok hrun
    obtain ⟨_, x, hp, hrun⟩ := bind_eq_ok hrun
    by_cases hvalid : e.valid = true
    · rw [if_pos hvalid] at hrun
      exact ih (hu.next hend (.entry hh ht h6 he hp hvalid)) hrun
    · rw [if_neg hvalid] at hrun
      cases hrun
      obtain ⟨⟨heq, hpay⟩, _⟩ := payload_ok hv ht he
      have hx : t.it = w.it := dbgPrint_stays e.entryHeader _ _ _ hp
      refine ⟨n, u, hu, hend, h, v.it, e.data, hat, hx ▸ hpay, ?_, ?_⟩
      · rw [ht]
        simpa using h6
      · rw [DataEntry.valid_iff, not_and_or, not_not, not_not, heq] at hvalid
        exact hvalid

/-- The parse of a packet stops early, with the iterator unset, exactly where it comes to a
rejected entry, and it stops behind that entry. -/
theorem unset_iff (hs : Fine m s) (hrun : Packet.ofInput m s = .ok p t) :
    p.entryIter = none ↔ ∃ stop, StopsAt m s stop := by
  constructor
  · intro hp
    obtain ⟨h, u, hh, hitems⟩ := bind_eq_ok hrun
    exact ⟨t.it, stops_of_unset hs (.first hh) hitems hp⟩
  · rintro ⟨stop, n, u, hu, hend, hr⟩
    obtain ⟨q, hq, heq⟩ := hu.run
    rw [heq] at hrun
    rw [(rejected_run (hu.fine hs) hend hr hrun).2, hq]

theorem StopsAt.eq (h : StopsAt m s stop) (hs : Fine m s) (hrun : Packet.ofInput m s = .ok p t) :
    t.it = stop := by
  obtain ⟨n, u, hu, hend, hr⟩ := h
  obtain ⟨q, _, heq⟩ := hu.run
  rw [heq] at hrun
  exact (rejected_run (hu.fine hs) hend hr hrun).1

end Stops

theorem fine_of_atHead {packets : List Packet} (h : AtHead m packets s) : Fine m s :=
  h.le_end

/-- The loop of a frame stores a copy of `p`, which it has read from `s` to `t`. -/
structure Stores (m : Machine) (s : Scan) (p : Packet) (t : Scan) : Prop where
  head : ∃ packets, AtHead m packets s
  goesOn : TcpPacket.notAtEnd m s = true
  reads : Packet.ofInput m s = .ok p t

theorem Stores.next (h : Stores m s p t) : ∃ packets, AtHead m packets t := by
  obtain ⟨packets, s₀, henters, hreach⟩ := h.head
  exact ⟨packets ++ [p.copy], s₀, henters, hreach.snoc h.goesOn (bind_ok h.reads)⟩

/-- Whatever packet another one begins behind was parsed completely. -/
def Contained (m : Machine) : Prop :=
  ∀ s p t q u, Stores m s p t → Stores m t q u → p.entryIter ≠ none

/-- No byte follows an entry that is rejected. -/
def NoneBehind (m : Machine) : Prop :=
  ∀ packets s stop, AtHead m packets s → TcpPacket.notAtEnd m s = true → StopsAt m s stop →
    stop = m.input.length

def Raises (m : Machine) : Prop :=
  ∃ packets s f t, AtHead m packets s ∧ TcpPacket.notAtEnd m s = true ∧
    Packet.ofInput m s = .error f t

theorem contained_of_noneBehind (h : NoneBehind m) : Contained m := by
  rintro s p t q u hp hq hunset
  obtain ⟨packets, hhead⟩ := hp.head
  have hfine := fine_of_atHead hhead
  obtain ⟨stop, hstop⟩ := (unset_iff hfine hp.reads).mp hunset
  have hend := h packets s stop hhead hp.goesOn hstop
  rw [← hstop.eq hfine hp.reads] at hend
  have hne : t.it ≠ m.input.length := of_decide_eq_true hq.goesOn
  exact hne hend

theorem noneBehind_of_contained (hno : ¬ Raises m) (h : Contained m) : NoneBehind m := by
  have hreads : ∀ packets s, AtHead m packets s → TcpPacket.notAtEnd m s = true →
      ∃ p t, Stores m s p t := by
    intro packets s hhead hgoes
    cases hrun : Packet.ofInput m s with
    | ok p t => exact ⟨p, t, ⟨packets, hhead⟩, hgoes, hrun⟩
    | error f t => exact absurd ⟨packets, s, f, t, hhead, hgoes, hrun⟩ hno
  intro packets s stop hhead hgoes hstop
  obtain ⟨p, t, hp⟩ := hreads packets s hhead hgoes
  have hfine := fine_of_atHead hhead
  have hunset := (unset_iff hfine hp.reads).mpr ⟨stop, hstop⟩
  rw [← hstop.eq hfine hp.reads]
  by_contra hne
  obtain ⟨packets', hnext⟩ := hp.next
  obtain ⟨q, u, hq⟩ := hreads packets' t hnext (decide_eq_true hne)
  exact h s p t q u hp hq hunset

/-- Nothing is stored from behind a rejected entry if nothing follows it, and in a parse that
raises no fault only then. -/
theorem contained_iff (m : Machine) :
    (NoneBehind m → Contained m) ∧ (¬ Raises m → Contained m → NoneBehind m) :=
  ⟨contained_of_noneBehind, noneBehind_of_contained⟩

def emptyName : List UInt8 := [12, 0, 0x3E, 0, 2, 0, 0xC5, 3, 0, 0, 0x3E, 0, 0, 0]

/-- The second item is stored as another packet. -/
theorem some_item_smuggled :
    ¬ ∀ (input : List UInt8) (beyond : Nat → UInt8), Contained (.server input beyond) := by
  intro h
  have hsize : returned (toUint16 (.server emptyName (fun _ => 0))) {} = some 12 := by
    decide +kernel
  have hstart : final (toUint16 (.server emptyName (fun _ => 0))) {} = ⟨2⟩ := by
    decide +kernel
  have hfirst : returned (Packet.ofInput (.server emptyName (fun _ => 0))) ⟨2⟩ =
      some { packetHeader := ⟨0x3E, 2, 2⟩ } := by decide +kernel
  have hstop : (final (Packet.ofInput (.server emptyName (fun _ => 0))) ⟨2⟩).it =
      10 := by decide +kernel
  have hsecond : returned (Packet.ofInput (.server emptyName (fun _ => 0)))
      (final (Packet.ofInput (.server emptyName (fun _ => 0))) ⟨2⟩) =
      some { packetHeader := ⟨0x3E, 0, 2⟩, entryIter := some 0 } := by decide +kernel
  have hhead : AtHead (.server emptyName (fun _ => 0)) [] ⟨2⟩ := by
    rw [returned_eq_some, hstart] at hsize
    exact ⟨_, ⟨12, hsize, by norm_num, by decide⟩, .refl _ _⟩
  have hp : Stores (.server emptyName (fun _ => 0)) ⟨2⟩
      { packetHeader := ⟨0x3E, 2, 2⟩ } _ := ⟨⟨[], hhead⟩, by decide, returned_eq_some.mp hfirst⟩
  have hgoes : TcpPacket.notAtEnd (.server emptyName (fun _ => 0))
      (final (Packet.ofInput (.server emptyName (fun _ => 0))) ⟨2⟩) = true := by
    rw [TcpPacket.notAtEnd, hstop]
    decide
  exact h emptyName (fun _ => 0) _ _ _ _ _ hp ⟨hp.next, hgoes, returned_eq_some.mp hsecond⟩ rfl

end GlobalAgenda.EarlyStop
