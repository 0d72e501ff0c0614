import GlobalAgenda.Walk

namespace GlobalAgenda.ReadSafety

open EnumDataTypes ValueConverter Base.Triples Base.Places ParserSpec Walk

variable {α : Type} {m : Machine}

/-- The command codes at the header positions that the parser comes to have a row. -/
def CodesInside (input : List UInt8) (comes : Place → Prop) : Prop :=
  ∀ it, comes (.header it) → (cmdAt input it).toNat < 1555

def Missing : Fault → Prop
  | .missingRow _ | .missingText _ => True
  | _ => False

def OutOfRange : Fault → Prop
  | .outOfRange _ => True
  | _ => False

def Exception : Fault → Prop
  | .exception _ => True
  | _ => False

def IsField : Place → Prop
  | .field _ _ => True
  | _ => False

def IsHeader : Place → Prop
  | .header _ => True
  | _ => False

def IsEntry : Place → Prop
  | .entry _ => True
  | _ => False

theorem harmless_header_iff (hm : m.typeOf = EnumDataTypes.typeOf) (it : Nat) :
    Harmless m (.header it) ↔ (cmdAt m.input it).toNat < 1555 := by
  have hrow := typeOf_eq_none (cmdAt m.input it)
  constructor
  · rintro ⟨type, _, ht⟩
    rw [hm] at ht
    rw [ht] at hrow
    simpa using hrow
  · intro hlt
    obtain ⟨type, ht⟩ := Option.ne_none_iff_exists'.mp (fun h => absurd (hrow.mp h) (by omega))
    exact ⟨type, typeOf_le ht, hm ▸ ht⟩

theorem tells {kind : Place → Prop} {bad : Fault → Prop} (hm : m.typeOf = EnumDataTypes.typeOf)
    (htext : m.textRows = gCmdCodeTextRows)
    (hload : (∀ pos, (m.load pos).isSome) ∨ ∀ it amount, kind (.field it amount))
    (hfield : ∀ it amount pos, bad (.outOfRange pos) ↔ kind (.field it amount))
    (hheader : ∀ it cmd, bad (.missingRow cmd) ↔ kind (.header it))
    (hentry : ∀ it, bad nestedDataSet ↔ kind (.entry it)) (hfuel : ¬ bad .outOfFuel) :
    Tells m kind bad := by
  refine ⟨?_, hload, fun cmd type ht => ?_, hfuel⟩
  · intro c f _ hblame
    cases c with
    | field it amount =>
      obtain ⟨pos, rfl⟩ := hblame
      exact hfield it amount pos
    | header it =>
      obtain ⟨_, rfl⟩ | ⟨_, type, hgt, ht⟩ := hblame
      · exact hheader it _
      · rw [hm] at ht
        exact absurd (typeOf_le ht) (by omega)
    | entry it =>
      obtain rfl : f = nestedDataSet := hblame
      exact hentry it
  · rw [hm] at ht
    rw [htext]
    exact typeOf_lt ht

theorem tells_missing (input : List UInt8) (beyond : Nat → UInt8) :
    Tells (.server input beyond) IsHeader Missing :=
  tells rfl rfl (.inl (Machine.load_server input beyond)) (fun _ _ _ => Iff.rfl) (fun _ _ => Iff.rfl)
    (fun _ => Iff.rfl) id

theorem tells_outOfRange (input : List UInt8) : Tells (.strict input) IsField OutOfRange :=
  tells rfl rfl (.inr (fun _ _ => trivial)) (fun _ _ _ => Iff.rfl) (fun _ _ => Iff.rfl)
    (fun _ => Iff.rfl) id

theorem tells_exception (input : List UInt8) (beyond : Nat → UInt8) :
    Tells (.server input beyond) IsEntry Exception :=
  tells rfl rfl (.inl (Machine.load_server input beyond)) (fun _ _ _ => Iff.rfl) (fun _ _ => Iff.rfl)
    (fun _ => Iff.rfl) id

theorem misses_iff {input : List UInt8} {beyond : Nat → UInt8} {x : Decoder α} {comes : Place → Prop}
    (hx : Sees (judge (.server input beyond) IsHeader Missing) 0 x comes) :
    (∀ f, raised x {} = some f → ¬ Missing f) ↔ CodesInside input comes := by
  refine (hx {} rfl).trans ⟨fun h it hit => ?_, fun h c hc hkind => ?_⟩
  · exact (harmless_header_iff (m := .server input beyond) rfl it).mp (h _ hit trivial)
  · cases c with
    | header it => exact (harmless_header_iff (m := .server input beyond) rfl it).mpr (h it hc)
    | field _ _ | entry _ => exact hkind.elim

theorem packet_misses_iff (input : List UInt8) (beyond : Nat → UInt8) :
    (∀ f, raised (Packet.ofInput (.server input beyond)) {} = some f → ¬ Missing f) ↔
      CodesInside input (PacketComes (.server input beyond) 0) :=
  misses_iff (visits_packet (tells_missing input beyond)).sees

theorem frame_misses_iff (input : List UInt8) (beyond : Nat → UInt8) (rounds : Nat) :
    (∀ f, raised (TcpPacket.ofInput (.server input beyond) rounds) {} = some f → ¬ Missing f) ↔
      CodesInside input (FrameComes (.server input beyond) rounds) :=
  misses_iff (sees_frame (tells_missing input beyond) rounds)

/-- No lookup misses its table exactly when the code at every header position of the frame has a
row. -/
theorem lookups_inside_iff (input : List UInt8) (beyond : Nat → UInt8) (rounds : Nat) :
    (∀ f, raised (TcpPacket.ofInput (.server input beyond) rounds) {} = some f → ¬ Missing f) ↔
      ∀ it, FrameComes (.server input beyond) rounds (.header it) → (cmdAt input it).toNat < 1555 :=
  frame_misses_iff input beyond rounds

theorem some_lookup_misses : ¬ ∀ (input : List UInt8) (beyond : Nat → UInt8) (rounds : Nat)
    (f : Fault), raised (TcpPacket.ofInput (.server input beyond) rounds) {} = some f →
      ¬ Missing f := by
  intro h
  exact h [4, 0, 0xFF, 0xFF, 0, 0] (fun _ => 0) 1 (.missingRow 0xFFFF) (by decide +kernel) trivial

/-- No byte outside the vector is loaded exactly when every integer that the parser comes to either
lacks its bytes or begins at least eight bytes before the end. -/
theorem loads_inside_iff (input : List UInt8) (rounds : Nat) :
    (∀ f, raised (TcpPacket.ofInput (.strict input) rounds) {} = some f → ¬ OutOfRange f) ↔
      ∀ it amount, FrameComes (.strict input) rounds (.field it amount) →
        input.length < it + amount ∨ it + 8 ≤ input.length := by
  have hload : ∀ it amount, Harmless (.strict input) (.field it amount) ↔
      input.length < it + amount ∨ it + 8 ≤ input.length := by
    intro it amount
    refine or_congr_right ⟨fun h => ?_, fun h k hk => ?_⟩
    · have := (Machine.load_strict input (it + 7)).mp (h 7 (by norm_num))
      omega
    · exact (Machine.load_strict input (it + k)).mpr (by omega)
  refine (sees_frame (tells_outOfRange input) rounds {} rfl).trans
    ⟨fun h it amount hit => (hload it amount).mp (h _ hit trivial), fun h c hc hkind => ?_⟩
  cases c with
  | field it amount => exact (hload it amount).mpr (h it amount hc)
  | header _ | entry _ => exact hkind.elim

/-- A keep-alive frame has six bytes, and its size is read with a load of eight. -/
theorem some_load_leaves : ¬ ∀ (input : List UInt8) (beyond : Nat → UInt8) (rounds : Nat),
    CodesInside input (FrameComes (.server input beyond) rounds) →
      ∀ f, raised (TcpPacket.ofInput (.strict input) rounds) {} = some f → ¬ OutOfRange f := by
  intro h
  have hruns : raised (TcpPacket.ofInput (.server [4, 0, 0x8E, 0, 0, 0] (fun _ => 0)) 1) {} = none := by
    decide +kernel
  refine h [4, 0, 0x8E, 0, 0, 0] (fun _ => 0) 1 ((frame_misses_iff _ _ _).mp (fun f hf => ?_))
    (.outOfRange 6) (by decide +kernel) trivial
  rw [hruns] at hf
  cases hf

/-- A packet's constructor throws exactly when an array entry that it comes to is a data set with a
size that fits. -/
theorem packet_throws_iff (input : List UInt8) (beyond : Nat → UInt8) :
    (∀ f, raised (Packet.ofInput (.server input beyond)) {} = some f → ¬ Exception f) ↔
      ∀ it, PacketComes (.server input beyond) 0 (.entry it) →
        ¬ Nested EnumDataTypes.typeOf input it := by
  refine ((visits_packet (tells_exception input beyond)).sees {} rfl).trans
    ⟨fun h it hit => h _ hit trivial, fun h c hc hkind => ?_⟩
  cases c with
  | entry it => exact h it hc
  | field _ _ | header _ => exact hkind.elim

/-- One data set with one array, whose only entry is again a data set. -/
theorem some_packet_throws : ¬ ∀ (input : List UInt8) (beyond : Nat → UInt8),
    CodesInside input (PacketComes (.server input beyond) 0) →
      ∀ f, raised (Packet.ofInput (.server input beyond)) {} = some f → ¬ Exception f := by
  intro h
  have hruns : raised (Packet.ofInput (.server
      [0x3E, 0, 1, 0, 0x0C, 1, 1, 0, 1, 0, 0x0C, 1, 0, 0] (fun _ => 0))) {} = some nestedDataSet := by
    decide +kernel
  refine h _ _ ((packet_misses_iff _ _).mp (fun f hf => ?_)) nestedDataSet hruns trivial
  rw [hruns] at hf
  cases hf
  exact id

end GlobalAgenda.ReadSafety
