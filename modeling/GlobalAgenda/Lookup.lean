import GlobalAgenda.Numbers
import GlobalAgenda.RoundTrip
import GlobalAgenda.Unambiguous

namespace GlobalAgenda.Lookup

open EnumDataTypes ValueConverter Base.LittleEndian Base.Triples Wire Encoding Decoding RoundTrip
  Unambiguous Numbers

variable {typeOf : CmdCode → Option Nat}

/-- The first entry with a command among those that were appended, as `build` leaves it. -/
def firstBuilt (entries : List DataEntry) (cmd : CmdCode) : Option DataEntry :=
  (entries.find? (fun e => e.entryHeader.cmd = cmd)).map (fun e => e.build.2)

theorem getEntryByCmd_built (p : Packet) (cmd : CmdCode) :
    p.build.2.getEntryByCmd cmd = (firstBuilt p.entries cmd).getD {} := by
  have hcmd : ((fun e : DataEntry => decide (e.getCmd = cmd)) ∘ fun e : DataEntry => e.build.2) =
      fun e : DataEntry => decide (e.entryHeader.cmd = cmd) := by
    funext e
    have he : e.build.2.getCmd = e.entryHeader.cmd := e.sanitized_cmd
    rw [Function.comp_apply, he]
  have hfind : p.build.2.entries.find? (fun e => e.getCmd = cmd) = firstBuilt p.entries cmd := by
    have hmap : (p.entries.map (fun e => e.build.2)).find? (fun e => e.getCmd = cmd) = _ :=
      List.find?_map
    rwa [hcmd] at hmap
  rw [Packet.getEntryByCmd, hfind]

/-- No array holds a data set. -/
def Flat (typeOf : CmdCode → Option Nat) (t : TcpPacket) : Prop :=
  ∀ p ∈ t.packets, ∀ e ∈ p.arrayEntries, typeOf e.getCmd ≠ some 6

theorem received_message {p : Packet} (h : Sized typeOf p)
    (hflat : ∀ e ∈ p.arrayEntries, typeOf e.getCmd ≠ some 6) : ∃ w : Message typeOf,
    received p = (w.encode, (packetData w).copy) ∧ w.layout = .sized ∧
      ∀ t ∈ w.tables, ∀ r ∈ t.records, ∀ e ∈ r.entries, typeOf e.cmd ≠ some 6 := by
  obtain ⟨w, hw, hl⟩ := h.message
  obtain ⟨hbytes, hcontent⟩ := Prod.mk.inj hw
  refine ⟨w, Prod.ext hbytes hcontent, hl, no_nested ?_ (fits_tables h.1) hflat⟩
  exact congrArg Packet.dataSets hcontent

/-- What a receiver finds in a frame by its command is the first entry that was appended with that
command, as it was built, and the default entry if there was none. -/
theorem lookups_arrive (t : TcpPacket) (h : Writable EnumDataTypes.typeOf t)
    (hflat : Flat EnumDataTypes.typeOf t) (beyond : Nat → UInt8) (rounds : Nat)
    (hr : t.packets.length ≤ rounds) : ∃ u s,
      TcpPacket.ofInput (.server t.build.1 beyond) rounds {} = .ok u s ∧
      ∀ cmd, u.packets.map (fun p => p.getEntryByCmd cmd) =
        t.packets.map (fun p => (firstBuilt p.entries cmd).getD {}) := by
  obtain ⟨u, s, hrun, _, hu⟩ := reads_received
    (fun p hp => received_message (h.packets p hp) (hflat p hp)) h.size beyond hr
  refine ⟨u, s, hrun, fun cmd => ?_⟩
  rw [hu, List.map_map]
  exact List.map_congr_left (fun p _ => getEntryByCmd_built p cmd)

theorem named_arrive : ∃ u s,
    TcpPacket.ofInput (.server ({ packets := [named 0] } : TcpPacket).build.1 (fun _ => 0)) 1 {} =
      .ok u s ∧
    u.packets.map (fun p => p.getEntryByCmd CmdCode.playerName) =
      [⟨⟨CmdCode.playerName, 1, 2⟩, [0x41]⟩] ∧
    u.packets.map (fun p => p.getEntryByCmd CmdCode.success) = [{}] := by
  have hflat : Flat EnumDataTypes.typeOf { packets := [named 0] } := by
    intro p hp e he
    rw [List.mem_singleton.mp hp] at he
    rw [List.mem_singleton.mp he]
    exact (playerName_made []).2
  obtain ⟨u, s, hrun, hfound⟩ :=
    lookups_arrive { packets := [named 0] } (named_writable 0) hflat (fun _ => 0) 1 le_rfl
  exact ⟨u, s, hrun, (hfound _).trans (by decide), (hfound _).trans (by decide)⟩

/-- The arguments of the constructors of `DataEntry` that take text. -/
inductive Text
  | string (value : List UInt8)
  | charPtr (value : List UInt8)

namespace Text

def stored : Text → List UInt8
  | string value => value
  | charPtr value => value.takeWhile (· ≠ 0)

def entry (typeOf : CmdCode → Option Nat) (cmd : CmdCode) : Text → Except Fault DataEntry
  | string value => DataEntry.ofString typeOf cmd value
  | charPtr value => DataEntry.ofCharPtr typeOf cmd value

theorem entry_eq (typeOf : CmdCode → Option Nat) (cmd : CmdCode) (x : Text) :
    x.entry typeOf cmd = DataEntry.ofCmd typeOf cmd x.stored := by
  cases x with
  | string value => rfl
  | charPtr value => rfl

end Text

theorem getString_eq (e : DataEntry) : e.getString = e.data.filter (· ≠ 0) := by
  have hfold : ∀ str : List UInt8, e.data.foldl
      (fun str b => if b = 0x00 then str else str ++ [b]) str = str ++ e.data.filter (· ≠ 0) := by
    induction e.data with
    | nil => simp
    | cons b data ih =>
      intro str
      rw [List.foldl_cons, ih]
      by_cases hb : b = 0
      · simp [hb]
      · simp [hb]
  exact hfold []

theorem filter_takeD (value : List UInt8) (n : Nat) :
    (value.takeD n 0).filter (· ≠ 0) = (value.take n).filter (· ≠ 0) := by
  induction n generalizing value with
  | zero => rfl
  | succ n ih =>
    cases value with
    | nil => simp
    | cons b value =>
      have htail := ih value
      rw [List.takeD, List.take_succ_cons, List.filter_cons, List.filter_cons]
      rw [List.headD_cons, List.tail_cons, htail]

theorem filter_take_eq_iff (value : List UInt8) (n : Nat) :
    (value.take n).filter (· ≠ 0) = value ↔ 0 ∉ value ∧ value.length ≤ n := by
  constructor
  · intro h
    have hlen := congrArg List.length h
    have hfilter := List.length_filter_le (· ≠ (0 : UInt8)) (value.take n)
    rw [hlen, List.length_take] at hfilter
    refine ⟨fun hmem => ?_, by omega⟩
    rw [← h] at hmem
    simpa using (List.mem_filter.mp hmem).2
  · rintro ⟨hzero, hle⟩
    rw [List.take_of_length_le hle, List.filter_eq_self]
    intro b hb
    have hne : b ≠ 0 := fun heq => hzero (heq ▸ hb)
    simpa using hne

variable {cmd : CmdCode} {type : Nat}

/-- The entry made of a text is read back from its bytes, whatever follows them, with the text as its
string exactly when no character is a zero and the command is wide enough. -/
def Arrives (cmd : CmdCode) (type : Nat) (x : Text) (rest : List UInt8) (beyond : Nat → UInt8) : Prop :=
  ∃ e parsed t, x.entry EnumDataTypes.typeOf cmd = .ok e ∧
    DataEntry.ofInput (.server (e.build.1 ++ rest) beyond) {} = .ok parsed t ∧
    t.it = e.build.1.length ∧
    parsed.getRawData = x.stored.takeD (wireWidth type x.stored.length) 0 ∧
    (parsed.getString = x.stored ↔
      0 ∉ x.stored ∧ x.stored.length ≤ wireWidth type x.stored.length)

/-- Every text of which the size fits passes the wire for every command but a data set's. -/
theorem texts_arrive (ht : EnumDataTypes.typeOf cmd = some type) (h6 : type ≠ 6) (x : Text)
    (hlen : x.stored.length < 2 ^ 16) (rest : List UInt8) (beyond : Nat → UInt8) :
    Arrives cmd type x rest beyond := by
  have hentry := x.entry_eq EnumDataTypes.typeOf cmd
  have hmade := ofCmd_known ht x.stored
  obtain ⟨e, he⟩ : ∃ e, DataEntry.ofCmd EnumDataTypes.typeOf cmd x.stored = .ok e := ⟨_, hmade⟩
  have hcmd : e.entryHeader.cmd = cmd := by
    rw [hmade] at he
    rw [← Except.ok.inj he]
  have hset : EnumDataTypes.typeOf e.entryHeader.cmd ≠ some 6 := by
    rw [hcmd, ht]
    simpa using h6
  obtain ⟨t, hrun, hit⟩ := reads_entry (ofCmd_fits he hlen) hset rest beyond
  have hdata := wire_payload ht he
  refine ⟨e, e.sanitized, t, hentry.trans he, hrun, hit, hdata, ?_⟩
  rw [getString_eq, hdata, filter_takeD]
  exact filter_take_eq_iff _ _

theorem texts_arrive_accessFlags :
    Arrives CmdCode.netAccessFlags 8 (.charPtr [0x41, 0x42, 0, 0x43]) [0x05] (fun _ => 0) :=
  texts_arrive (by decide +kernel) (by decide) _ (by decide) _ _

end GlobalAgenda.Lookup
