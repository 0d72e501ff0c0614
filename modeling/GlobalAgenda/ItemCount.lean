import GlobalAgenda.Decoding

namespace GlobalAgenda.ItemCount

open EnumDataTypes ValueConverter Base.LittleEndian Base.Triples Wire Encoding Decoding

variable (entries : List DataEntry) (dataSets : List DataSet)

def withItems (p : Packet) : Packet :=
  dataSets.foldl Packet.appendDataSet (entries.foldl Packet.appendEntry p)

def itemBytes : List UInt8 :=
  entries.flatMap (fun e => e.build.1) ++ dataSets.flatMap (fun d => d.build.1)

def itemCount : Nat := entries.length + dataSets.length

/-- `Packet(cmd)` with the items builds to command, count and items. -/
def BuildsCount (cmd : CmdCode) : Prop :=
  ∃ p, Packet.ofCmd EnumDataTypes.typeOf cmd = .ok p ∧ (withItems entries dataSets p).build.1 =
    bytes 2 cmd.toNat ++ bytes 2 (itemCount entries dataSets) ++ itemBytes entries dataSets

/-- From bytes that begin with command and count the packet parser takes the count for its number of
items, and its loop runs that often from behind the count. -/
def ReadsCount (cmd : CmdCode) (count : Nat) (rest : List UInt8) (beyond : Nat → UInt8) : Prop :=
  let m : Machine := .server (bytes 2 cmd.toNat ++ bytes 2 count ++ rest) beyond
  ∃ h, EntryHeader.ofInput m {} = .ok h ⟨4⟩ ∧ h.getCmd = cmd ∧ h.getSize = count ∧
    Packet.ofInput m {} = Packet.parseItems m count { packetHeader := h } ⟨4⟩

theorem foldl_appendEntry (p : Packet) :
    (entries.foldl Packet.appendEntry p).packetHeader = p.packetHeader ∧
      (entries.foldl Packet.appendEntry p).entries = p.entries ++ entries ∧
      (entries.foldl Packet.appendEntry p).dataSets = p.dataSets := by
  induction entries generalizing p with
  | nil => simp
  | cons e entries ih =>
    obtain ⟨hheader, hentries, hsets⟩ := ih (p.appendEntry e)
    refine ⟨hheader, ?_, hsets⟩
    rw [List.foldl_cons, hentries]
    simp [Packet.appendEntry]

theorem foldl_appendDataSet (p : Packet) :
    (dataSets.foldl Packet.appendDataSet p).packetHeader = p.packetHeader ∧
      (dataSets.foldl Packet.appendDataSet p).entries = p.entries ∧
      (dataSets.foldl Packet.appendDataSet p).dataSets = p.dataSets ++ dataSets := by
  induction dataSets generalizing p with
  | nil => simp
  | cons d dataSets ih =>
    obtain ⟨hheader, hentries, hsets⟩ := ih (p.appendDataSet d)
    refine ⟨hheader, hentries, ?_⟩
    rw [List.foldl_cons, hsets]
    simp [Packet.appendDataSet]

theorem build_withItems {cmd : CmdCode} {l : Layout}
    (hl : layoutOf EnumDataTypes.typeOf cmd = some l) :
    ∃ p, Packet.ofCmd EnumDataTypes.typeOf cmd = .ok p ∧ (withItems entries dataSets p).build.1 =
      bytes 2 cmd.toNat ++ l.sizeField (itemCount entries dataSets) ++ itemBytes entries dataSets := by
  have hheader : EntryHeader.ofCmd EnumDataTypes.typeOf cmd 0 = .ok (header cmd l 0) := by
    rw [EntryHeader.ofCmd_eq (getConfig_of_layout hl)]
    cases l <;> rfl
  refine ⟨{ packetHeader := header cmd l 0 }, ?_, ?_⟩
  · rw [Packet.ofCmd, hheader]
    rfl
  · obtain ⟨he₁, he₂, he₃⟩ := foldl_appendEntry entries { packetHeader := header cmd l 0 }
    obtain ⟨hd₁, hd₂, hd₃⟩ := foldl_appendDataSet dataSets
      (entries.foldl Packet.appendEntry { packetHeader := header cmd l 0 })
    have hset : ((header cmd l 0).setSize (entries.length + dataSets.length)).build =
        bytes 2 cmd.toNat ++ l.sizeField (itemCount entries dataSets) := by
      rw [itemCount, ← header_build]
      cases l <;> rfl
    simp only [withItems, Packet.build, hd₁, hd₂, hd₃, he₁, he₂, he₃, List.nil_append, hset]
    rfl

section Counts

variable {cmd : CmdCode} {type : Nat} (hcmd : EnumDataTypes.typeOf cmd = some type)

include hcmd

theorem buildsCount_iff :
    BuildsCount entries dataSets cmd ↔ type = 0 ∨ type = 6 ∨ type = 10 := by
  have hl := layoutOf_known hcmd (typeOf_le hcmd)
  constructor
  · rintro ⟨p, hp, hbuild⟩
    by_contra hfixed
    rw [if_neg hfixed] at hl
    obtain ⟨q, hq, hbytes⟩ := build_withItems entries dataSets hl
    rw [hp] at hq
    cases hq
    have hlen := congrArg List.length (hbuild.symm.trans hbytes)
    simp only [Layout.sizeField, List.length_append, length_bytes, List.length_nil] at hlen
    omega
  · intro hsized
    rw [if_pos hsized] at hl
    exact build_withItems entries dataSets hl

theorem readsCount_iff {count : Nat} (hcount : count < 2 ^ 16) (rest : List UInt8)
    (beyond : Nat → UInt8) :
    ReadsCount cmd count rest beyond ↔ type = 0 ∨ type = 6 ∨ type = 10 := by
  have hl := layoutOf_known hcmd (typeOf_le hcmd)
  have hlen : (bytes 2 cmd.toNat ++ bytes 2 count ++ rest).length = 4 + rest.length := by
    simp only [List.length_append, length_bytes]
  constructor
  · rintro ⟨h, hrun, _⟩
    by_contra hfixed
    rw [if_neg hfixed] at hl
    have hinput : bytes 2 cmd.toNat ++ bytes 2 count ++ rest =
        bytes 2 cmd.toNat ++ (Layout.fixed (gTypeSizes.getD type 0)).sizeField count ++
          (bytes 2 count ++ rest) := by
      rw [Layout.sizeField, List.append_nil, List.append_assoc]
    obtain ⟨t, ht, hstop⟩ := header_read hl hcount _ hinput beyond
    rw [hrun] at ht
    cases ht
    simp only [List.length_append, length_bytes] at hstop hlen
    omega
  · intro hsized
    rw [if_pos hsized] at hl
    obtain ⟨⟨it⟩, hs, hstop⟩ := header_read hl hcount rest rfl beyond
    change it + rest.length = (bytes 2 cmd.toNat ++ bytes 2 count ++ rest).length at hstop
    obtain rfl : it = 4 := by omega
    exact ⟨_, hs, rfl, rfl, bind_ok hs⟩

/-- A packet carries its count on the wire exactly when the type of its command has a size field,
as strings, data sets and blobs do. -/
theorem count_on_wire_iff (hcount : itemCount entries dataSets < 2 ^ 16) (rest : List UInt8)
    (beyond : Nat → UInt8) :
    BuildsCount entries dataSets cmd ∧ ReadsCount cmd (itemCount entries dataSets) rest beyond ↔
      type = 0 ∨ type = 6 ∨ type = 10 := by
  rw [buildsCount_iff entries dataSets hcmd, readsCount_iff hcmd hcount rest beyond, and_self]

end Counts

theorem count_on_wire_interval :
    BuildsCount [⟨⟨CmdCode.playerName, 0, 2⟩, [0x41]⟩] [⟨⟨CmdCode.dataSet, 0, 2⟩, [⟨[]⟩]⟩]
        CmdCode.applyOnIntervalFlag ∧
      ReadsCount CmdCode.applyOnIntervalFlag 2
        (itemBytes [⟨⟨CmdCode.playerName, 0, 2⟩, [0x41]⟩] [⟨⟨CmdCode.dataSet, 0, 2⟩, [⟨[]⟩]⟩])
        (fun _ => 0) :=
  (count_on_wire_iff _ _ typeOf_applyOnIntervalFlag (by decide) _ (fun _ => 0)).mpr (.inl rfl)

theorem some_count_missing : ¬ ∀ (cmd : CmdCode) (entries : List DataEntry) (dataSets : List DataSet),
    (∃ type, EnumDataTypes.typeOf cmd = some type) → itemCount entries dataSets < 2 ^ 16 →
      BuildsCount entries dataSets cmd := by
  intro h
  have hcmd : EnumDataTypes.typeOf CmdCode.applicationValue = some 1 := by decide +kernel
  have hbuild := h CmdCode.applicationValue [] [] ⟨1, hcmd⟩ (by decide)
  exact absurd ((buildsCount_iff [] [] hcmd).mp hbuild) (by decide)

end GlobalAgenda.ItemCount
