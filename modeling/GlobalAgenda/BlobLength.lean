import GlobalAgenda.FieldWidths
import GlobalAgenda.ParserSpec

namespace GlobalAgenda.BlobLength

open EnumDataTypes ValueConverter Base.LittleEndian Base.Triples ParserSpec FieldWidths

/-- A blob as the documented login packet has it: command, length in four bytes, payload. -/
def blob (cmd : CmdCode) (payload : List UInt8) : List UInt8 :=
  bytes 2 cmd.toNat ++ bytes 4 payload.length ++ payload

def BuildsBlob (cmd : CmdCode) (payload : List UInt8) : Prop :=
  ∃ e, DataEntry.ofCmd EnumDataTypes.typeOf cmd payload = .ok e ∧ e.build.1 = blob cmd payload

def ReadsBlob (cmd : CmdCode) (payload rest : List UInt8) (beyond : Nat → UInt8) : Prop :=
  ∃ e s, DataEntry.ofInput (.server (blob cmd payload ++ rest) beyond) {} = .ok e s ∧
    e.data = payload ∧ s.it + rest.length = (blob cmd payload ++ rest).length

variable {cmd : CmdCode} {payload rest : List UInt8} {beyond : Nat → UInt8}

theorem length_blob : (blob cmd payload).length = 6 + payload.length := by
  simp only [blob, List.length_append, length_bytes]

theorem blob_config (h : typeOf cmd = some 10) :
    EntryHeader.getConfig EnumDataTypes.typeOf cmd = .ok (2, 0) :=
  EntryHeader.getConfig_known h (by norm_num)

theorem not_builds (h : typeOf cmd = some 10) : ¬ BuildsBlob cmd payload := by
  rintro ⟨e, he, hbuild⟩
  obtain ⟨header, hh, he⟩ := except_bind_ok he
  rw [EntryHeader.ofCmd_eq (blob_config h)] at hh
  cases hh
  cases he
  have hlen := congrArg List.length hbuild
  have hsize : entrySize ⟨⟨cmd, 0, 2⟩, payload⟩ = 4 + payload.length := rfl
  rw [length_blob, entry_size, hsize] at hlen
  omega

theorem bytes_split (n : Nat) : bytes 4 n = bytes 2 n ++ bytes 2 (n / 2 ^ 16) := by
  simp only [bytes, Nat.div_div_eq_div_mul, Nat.reducePow, Nat.reduceMul, List.cons_append,
    List.nil_append]

/-- Of the length the parser takes the low half, and it does not get behind the blob. -/
theorem stops_inside (h : typeOf cmd = some 10) {e : DataEntry} {j : Nat}
    (he : EntryAt (.server (blob cmd payload ++ rest) beyond) 0 e j) : j < 6 + payload.length := by
  obtain ⟨k, hheader, hpayload⟩ := he
  have hinput : blob cmd payload ++ rest = bytes 2 cmd.toNat ++
      (bytes 2 payload.length ++ (bytes 2 (payload.length / 2 ^ 16) ++ payload ++ rest)) := by
    simp only [blob, bytes_split, List.append_assoc]
  have hword : wordAt (blob cmd payload ++ rest) 0 = cmd.toNat := by
    rw [hinput]
    exact (wordAt_append [] _ _).trans (Nat.mod_eq_of_lt cmd.toNat_lt)
  have hcmd : cmdAt (blob cmd payload ++ rest) 0 = cmd := by
    rw [cmdAt, hword]
    exact UInt16.ofNat_toNat
  have hlow : wordAt (blob cmd payload ++ rest) 2 = payload.length % 2 ^ 16 := by
    have hread := wordAt_append (bytes 2 cmd.toNat)
      (bytes 2 (payload.length / 2 ^ 16) ++ payload ++ rest) payload.length
    rwa [length_bytes, ← hinput] at hread
  have hlen : (blob cmd payload ++ rest).length = 6 + payload.length + rest.length := by
    rw [List.length_append, length_blob]
  have hafter : ∀ i, i + 2 ≤ (blob cmd payload ++ rest).length →
      afterWord (blob cmd payload ++ rest) i = i + 2 := fun i hi => if_pos hi
  have hle := Nat.mod_le payload.length (2 ^ 16)
  generalize e.entryHeader = header at hheader hpayload
  generalize e.data = data at hpayload
  cases hheader with
  | sized hc =>
    change PayloadAt _ (afterWord (blob cmd payload ++ rest) (afterWord (blob cmd payload ++ rest) 0))
      ⟨_, wordAt (blob cmd payload ++ rest) (afterWord (blob cmd payload ++ rest) 0), 2⟩ _ _ at hpayload
    rw [hafter 0 (by omega), hafter 2 (by omega), hlow] at hpayload
    cases hpayload with
    | fits hfits =>
      change 4 + payload.length % 2 ^ 16 < _
      omega
    | short hlong => omega
  | fixed size hpos _ hc =>
    change EntryHeader.getConfig EnumDataTypes.typeOf (cmdAt (blob cmd payload ++ rest) 0) = _ at hc
    rw [hcmd, blob_config h] at hc
    cases hc

theorem not_reads (h : typeOf cmd = some 10) : ¬ ReadsBlob cmd payload rest beyond := by
  rintro ⟨e, s, hrun, _, hit⟩
  have hstop := stops_inside h ((runs_entry (Nat.zero_le _)).ok hrun).1
  rw [List.length_append, length_blob] at hit
  omega

/-- No command of the type with a 32-bit size builds or reads any payload as a blob. -/
theorem never_blob (h : typeOf cmd = some 10) (payload rest : List UInt8) (beyond : Nat → UInt8) :
    ¬ BuildsBlob cmd payload ∧ ¬ ReadsBlob cmd payload rest beyond :=
  ⟨not_builds h, not_reads h⟩

theorem binBlob_never : ¬ BuildsBlob 0x0071 [0x8D] ∧ ¬ ReadsBlob 0x0071 [0x8D] [] (fun _ => 0) :=
  never_blob (by decide +kernel) [0x8D] [] (fun _ => 0)

theorem some_blob_differs : ¬ ∀ (cmd : CmdCode) (payload rest : List UInt8) (beyond : Nat → UInt8),
    typeOf cmd = some 10 → payload.length < 2 ^ 32 →
      BuildsBlob cmd payload ∧ ReadsBlob cmd payload rest beyond := by
  intro h
  have hcmd : typeOf 0x0071 = some 10 := by decide +kernel
  exact not_builds hcmd (h 0x0071 [0x8D] [] (fun _ => 0) hcmd (by decide)).1

end GlobalAgenda.BlobLength
