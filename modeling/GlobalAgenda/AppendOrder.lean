import GlobalAgenda.Rebuilding
import Mathlib.Data.List.Induction

namespace GlobalAgenda.AppendOrder

open ValueConverter Rebuilding

def entryOf (i : Nat) : Call → Option DataEntry
  | .appendEntry j e => if j = i then some e else none
  | _ => none

def dataSetOf (i : Nat) : Call → Option DataSet
  | .appendDataSet j d => if j = i then some d else none
  | _ => none

/-- The packet `i` with what the calls append to it, the entries among themselves and the data sets
among themselves. -/
def collected (o : Objects) (calls : List Call) (i : Nat) : Packet :=
  { o.packets i with
    entries := (o.packets i).entries ++ calls.filterMap (entryOf i)
    dataSets := (o.packets i).dataSets ++ calls.filterMap (dataSetOf i) }

/-- What a call appends to the payload of the frame `k`: a packet as the calls before have left it. -/
def copied (o : Objects) (k : Nat) (before : List Call) : Call → List UInt8
  | .appendPacket j i => if j = k then (collected o before i).build.1 else []
  | _ => []

def copies (o : Objects) (k : Nat) : List Call → List Call → List UInt8
  | _, [] => []
  | before, c :: calls => copied o k before c ++ copies o k (before ++ [c]) calls

/-- The bytes that a call should return after others. -/
def written (o : Objects) (calls : List Call) : Call → Option (List UInt8)
  | .buildPacket i => some (collected o calls i).build.1
  | .buildFrame k =>
    let payload := (o.frames k).payload ++ copies o k [] calls
    some (fromUint16 (payload.length % 2 ^ 16) ++ payload)
  | _ => none

variable (o : Objects)

theorem setPacket_other (w : Objects) {i j : Nat} (p : Packet) (hj : j ≠ i) :
    (w.setPacket j p).packets i = w.packets i := by
  simp [Objects.setPacket, hj.symm]

theorem setPacket_self (w : Objects) (i : Nat) (p : Packet) : (w.setPacket i p).packets i = p := by
  simp [Objects.setPacket]

theorem setFrame_other (w : Objects) {k j : Nat} (t : TcpPacket) (hj : j ≠ k) :
    (w.setFrame j t).frames k = w.frames k := by
  simp [Objects.setFrame, hj.symm]

theorem setFrame_self (w : Objects) (k : Nat) (t : TcpPacket) : (w.setFrame k t).frames k = t := by
  simp [Objects.setFrame]

theorem run_snoc (calls : List Call) (c : Call) : o.run (calls ++ [c]) = (o.run calls).apply c := by
  rw [Objects.run, List.foldl_append, Objects.run]
  rfl

def extended (p : Packet) (es : List DataEntry) (ds : List DataSet) : Packet :=
  { p with entries := p.entries ++ es, dataSets := p.dataSets ++ ds }

theorem collected_snoc (calls : List Call) (c : Call) (i : Nat) : collected o (calls ++ [c]) i =
    extended (collected o calls i) (entryOf i c).toList (dataSetOf i c).toList := by
  have hlast : ∀ {α : Type} (f : Call → Option α), [c].filterMap f = (f c).toList := by
    intro α f
    cases hc : f c <;> simp [hc]
  simp only [collected, extended, List.filterMap_append, hlast, List.append_assoc]

theorem same_trans {p q r : Packet} (h : Same p q) (h' : Same q r) : Same p r :=
  ⟨h.cmd.trans h'.cmd, h.sizeWidth.trans h'.sizeWidth, h.entries.trans h'.entries,
    h.dataSets.trans h'.dataSets⟩

theorem same_extended {p q : Packet} (h : Same p q) (es : List DataEntry) (ds : List DataSet) :
    Same (extended p es ds) (extended q es ds) where
  cmd := h.cmd
  sizeWidth := h.sizeWidth
  entries := by rw [extended, extended, List.map_append, List.map_append, h.entries]
  dataSets := by rw [extended, extended, List.map_append, List.map_append, h.dataSets]

theorem same_extended_nil {p q : Packet} (h : Same p q) : Same p (extended q [] []) := by
  simpa only [extended, List.append_nil] using h

theorem apply_packet (w : Objects) (c : Call) (i : Nat) : Same ((w.apply c).packets i)
    (extended (w.packets i) (entryOf i c).toList (dataSetOf i c).toList) := by
  cases c with
  | appendEntry j e =>
    by_cases hj : j = i
    · subst hj
      rw [Objects.apply, setPacket_self, entryOf, if_pos rfl]
      exact ⟨rfl, rfl, rfl, by simp [extended, dataSetOf, Packet.appendEntry]⟩
    · rw [Objects.apply, setPacket_other w _ hj, entryOf, if_neg hj]
      exact same_extended_nil (.refl _)
  | appendDataSet j d =>
    by_cases hj : j = i
    · subst hj
      rw [Objects.apply, setPacket_self, dataSetOf, if_pos rfl]
      exact ⟨rfl, rfl, by simp [extended, entryOf, Packet.appendDataSet], rfl⟩
    · rw [Objects.apply, setPacket_other w _ hj, dataSetOf, if_neg hj]
      exact same_extended_nil (.refl _)
  | buildPacket j =>
    by_cases hj : j = i
    · subst hj
      rw [Objects.apply, setPacket_self]
      exact same_extended_nil (Same.refl _).built
    · rw [Objects.apply, setPacket_other w _ hj]
      exact same_extended_nil (.refl _)
  | appendPacket k j => exact same_extended_nil (.refl _)
  | buildFrame k => exact same_extended_nil (.refl _)

theorem run_collected (calls : List Call) (i : Nat) :
    Same ((o.run calls).packets i) (collected o calls i) := by
  induction calls using List.reverseRecOn with
  | nil => exact same_extended_nil (.refl _)
  | append_singleton calls c ih =>
    rw [run_snoc, collected_snoc]
    exact same_trans (apply_packet (o.run calls) c i) (same_extended ih _ _)

theorem payload_built (t : TcpPacket) : t.build.2.payload = t.payload := by
  have hbytes : ∀ p : Packet, p.build.2.build.1 = p.build.1 := fun p => (Same.refl p).built.bytes
  rw [TcpPacket.build, TcpPacket.payload, List.flatMap_map, TcpPacket.payload]
  simp only [hbytes]

theorem apply_payload (before : List Call) (c : Call) (k : Nat) :
    (((o.run before).apply c).frames k).payload =
      ((o.run before).frames k).payload ++ copied o k before c := by
  generalize hw : o.run before = w
  cases c with
  | appendPacket j i =>
    by_cases hj : j = k
    · subst hj
      rw [Objects.apply, setFrame_self, copied, if_pos rfl, ← (run_collected o before i).bytes, hw,
        TcpPacket.appendPacket, TcpPacket.payload, List.flatMap_append, List.flatMap_singleton]
      rfl
    · rw [Objects.apply, setFrame_other w _ hj, copied, if_neg hj, List.append_nil]
  | buildFrame j =>
    have hnone : copied o k before (.buildFrame j) = [] := rfl
    rw [hnone, List.append_nil]
    by_cases hj : j = k
    · subst hj
      rw [Objects.apply, setFrame_self, payload_built]
    · rw [Objects.apply, setFrame_other w _ hj]
  | appendEntry j e | appendDataSet j d | buildPacket j => exact (List.append_nil _).symm

theorem run_payload (before calls : List Call) (k : Nat) :
    ((o.run (before ++ calls)).frames k).payload =
      ((o.run before).frames k).payload ++ copies o k before calls := by
  induction calls generalizing before with
  | nil => rw [List.append_nil, copies, List.append_nil]
  | cons c calls ih =>
    have hrest := ih (before ++ [c])
    rw [List.append_assoc, List.singleton_append, run_snoc, apply_payload] at hrest
    rw [hrest, copies, List.append_assoc]

/-- After any calls the bytes of packets and frames are given by what was appended: to a packet its
entries and its data sets, each in their order, and to a frame the packets as they were at that time.
Neither the order of an entry and a data set matters, nor any call in between. -/
theorem bytes_written (calls : List Call) (c : Call) : (o.run calls).bytes c = written o calls c := by
  cases c with
  | buildPacket i => exact congrArg some (run_collected o calls i).bytes
  | buildFrame k =>
    have hpayload := run_payload o [] calls k
    rw [List.nil_append] at hpayload
    rw [written, Objects.bytes, TcpPacket.build, hpayload]
    rfl
  | appendEntry i e | appendDataSet i d | appendPacket k i => rfl

end GlobalAgenda.AppendOrder
