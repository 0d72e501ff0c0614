import GlobalAgenda.Client
import GlobalAgenda.Decoding
import GlobalAgenda.ItemCount
import GlobalAgenda.Numbers
import GlobalAgenda.Rebuilding
import GlobalAgenda.StoredEntries
import GlobalAgenda.Unambiguous

namespace GlobalAgenda.Responses

open EnumDataTypes ValueConverter Base.LittleEndian Base.Triples Wire Encoding Decoding ParserSpec
  StoredEntries Unambiguous Numbers Rebuilding Client

/-- The entries that `server_response_apply_on_interval_flag` appends, but for the last one. -/
def intervalEntries : List DataEntry := [
  ⟨⟨CmdCode.playerId, 4, 0⟩, [0xD5, 0x36, 0x17, 0x00]⟩,
  ⟨⟨CmdCode.netAccessFlags, 8, 0⟩, [0xF8, 0xF3, 0xFF, 0x01, 0x00, 0x00, 0x00, 0x00]⟩,
  ⟨⟨CmdCode.displayEulaFlag, 0, 2⟩, [0x6E]⟩,
  ⟨⟨CmdCode.playerName, 0, 2⟩,
    [0x50, 0x6C, 0x61, 0x79, 0x65, 0x72, 0x4E, 0x61, 0x6D, 0x65, 0x4C, 0x6F, 0x6C]⟩,
  ⟨⟨CmdCode.success, 1, 0⟩, [0x01]⟩,
  ⟨⟨CmdCode.msgId, 4, 0⟩, [0x49, 0x49, 0x00, 0x00]⟩,
  ⟨⟨CmdCode.bannedUntilDatetime, 8, 0⟩, [0x00, 0x00, 0x00, 0x00, 0x00, 0x00, 0x00, 0x00]⟩,
  ⟨⟨CmdCode.sessionGuid, 16, 0⟩, getSessionGuidClient⟩,
  ⟨⟨CmdCode.connectionHandle, 4, 0⟩, [0x80, 0x11, 0x00, 0x00]⟩,
  ⟨⟨CmdCode.gameBits, 4, 0⟩, [0x0F, 0x00, 0x00, 0x00]⟩,
  ⟨⟨CmdCode.afkTimeoutSec, 4, 0⟩, [0x84, 0x03, 0x00, 0x00]⟩,
  ⟨⟨CmdCode.textValue, 0, 2⟩, [0x66, 0x35]⟩]

def dataSetText : DataEntry := ⟨⟨CmdCode.dataSet, 0, 2⟩, [0x66, 0x35]⟩

theorem ofCharPtr_eq (typeOf : CmdCode → Option Nat) (cmd : CmdCode) (value : List UInt8) :
    DataEntry.ofCharPtr typeOf cmd value = DataEntry.ofCmd typeOf cmd (value.takeWhile (· ≠ 0)) :=
  rfl

theorem packet_ofCmd (h : EnumDataTypes.typeOf cmd = some 6) :
    Packet.ofCmd EnumDataTypes.typeOf cmd = .ok { packetHeader := ⟨cmd, 0, 2⟩ } := by
  rw [Packet.ofCmd, EntryHeader.ofCmd_eq (EntryHeader.getConfig_known h (by norm_num))]
  rfl

theorem interval_eq (p : Packet) : serverResponseApplyOnIntervalFlag p =
    .ok ((intervalEntries ++ [dataSetText]).foldl Packet.appendEntry p) := by
  have htypes : [CmdCode.playerId, CmdCode.netAccessFlags, CmdCode.displayEulaFlag, CmdCode.playerName,
      CmdCode.success, CmdCode.msgId, CmdCode.bannedUntilDatetime, CmdCode.sessionGuid,
      CmdCode.connectionHandle, CmdCode.gameBits, CmdCode.afkTimeoutSec, CmdCode.textValue,
      CmdCode.sysSiteId, CmdCode.nameMsgId, CmdCode.dataSet, CmdCode.dataSetMapConfigs].map
        EnumDataTypes.typeOf = [some 3, some 8, some 0, some 0, some 5, some 3, some 7, some 9, some 3,
      some 3, some 3, some 0, some 3, some 3, some 6, some 6] := by
    decide +kernel
  simp only [List.map_cons, List.map_nil, List.cons.injEq, and_true] at htypes
  obtain ⟨h1, h2, h3, h4, h5, h6, h7, h8, h9, h10, h11, h12, h13, h14, h15, h16⟩ := htypes
  simp only [serverResponseApplyOnIntervalFlag, DataEntry.ofUint32, DataEntry.ofUint64,
    DataEntry.ofBool, ofCharPtr_eq, ofCmd_known h1, ofCmd_known h2, ofCmd_known h3, ofCmd_known h4,
    ofCmd_known h5, ofCmd_known h6, ofCmd_known h7, ofCmd_known h8, ofCmd_known h9, ofCmd_known h10,
    ofCmd_known h11, ofCmd_known h12, ofCmd_known h13, ofCmd_known h14, ofCmd_known h15,
    packet_ofCmd h15, packet_ofCmd h16]
  rfl

variable {m : Machine} {E : Fault → Prop}

theorem array_unfilled (hm : Total m) {n : Nat} (hn : n < 2 ^ 16) :
    Triple (At m (bytes 2 n)) (AnonymousArray.ofInput m) (fun a s => a = {} ∧ At m [] s)
      (fun f _ => E f) := by
  have hread := consumes_toUint16 (E := E) hm hn []
  rw [List.append_nil] at hread
  refine hread.bind (fun count => .pure_pre ?_)
  rintro rfl s hs
  have hend : m.input.length - s.it = 0 := by
    have hlen := hs.length
    simp only [List.length_nil] at hlen
    omega
  rw [bind_ok (cursor_run s), hend]
  by_cases hzero : count = 0
  · rw [if_pos hzero]
    exact ⟨rfl, hs⟩
  · rw [if_neg hzero, if_pos (Nat.pos_of_ne_zero hzero)]
    exact ⟨rfl, hs⟩

theorem array_missing : Triple (At m []) (AnonymousArray.ofInput m) (fun a s => a = {} ∧ At m [] s)
    (fun f _ => E f) := by
  intro s hs
  have hlen := hs.length
  rw [List.length_nil] at hlen
  rw [AnonymousArray.ofInput, bind_ok (toUint16_short (by omega)), bind_ok (cursor_run s), if_pos rfl]
  exact ⟨rfl, hs⟩

/-- Text of two bytes with the command of a data set is taken for the count of the first array. -/
theorem arrays_text (hm : Total m) (cmd : CmdCode) {n : Nat} (hn : n < 2 ^ 16) :
    Triple (At m (bytes 2 n)) (DataSet.ofHeader m (header cmd .sized 2))
      (fun d s => d = ⟨header cmd .sized 2, [{}, {}]⟩ ∧ At m [] s) (fun f _ => E f) := by
  have htimes : Triple (At m (bytes 2 n)) (times 2 (AnonymousArray.ofInput m))
      (fun as s => as = [{}, {}] ∧ At m [] s) (fun f _ => E f) := by
    refine (array_unfilled hm hn).bind (fun a => .pure_pre ?_)
    rintro rfl
    refine Triple.bind (Q := fun as s => as = [{}] ∧ At m [] s) ?_ (fun as => .pure_pre ?_)
    · refine array_missing.bind (fun a => .pure_pre ?_)
      rintro rfl
      exact fun s hs => ⟨rfl, hs⟩
    · rintro rfl
      exact fun s hs => ⟨rfl, hs⟩
  refine htimes.bind (fun as => .pure_pre ?_)
  rintro rfl
  exact fun s hs => ⟨rfl, hs⟩

theorem item_text (hm : Total m) {cmd : CmdCode} (h6 : m.typeOf cmd = some 6) {v : Nat} (hv : v < 2 ^ 16)
    (n : Nat) (p : Packet) :
    Triple (At m (bytes 2 cmd.toNat ++ bytes 2 2 ++ bytes 2 v)) (Packet.parseItems m (n + 1) p)
      (fun q s => q = { p with
        dataSets := p.dataSets ++ [⟨header cmd .sized 2, [{}, {}]⟩]
        entryIter := some 0 } ∧ At m [] s) (fun f _ => E f) := by
  have hset : EnumType.ofValue 6 = some .typeTcpDataSet := rfl
  have hprint : (⟨header cmd .sized 2, [{}, {}]⟩ : DataSet).dbgPrint m = pure () := by
    apply forM_pure
    intro a ha
    obtain rfl : a = {} := by simpa using ha
    rfl
  intro s hs
  have hnend : s.it ≠ m.input.length := by
    rw [List.append_assoc] at hs
    exact hs.ne_end (by rw [length_bytes]; norm_num)
  rw [Packet.parseItems, bind_ok (cursor_run s), if_neg hnend]
  refine (consumes_header hm (layoutOf_table h6) (fun _ => by norm_num) _).bind
    (fun h => .pure_pre ?_) s hs
  rintro rfl
  rw [getType_run (by rw [header_cmd, h6]), pure_bind, if_pos hset]
  refine (arrays_text hm cmd hv).bind (fun d => .pure_pre ?_)
  rintro rfl
  rw [hprint, pure_bind]
  exact items_end (.inr rfl)

theorem packet_text (hm : Total m) {cmd cmd' : CmdCode} (hl : layoutOf m.typeOf cmd = some .sized)
    (h6 : m.typeOf cmd' = some 6) (ws : List (Entry m.typeOf)) (hread : ∀ w ∈ ws, w.Readable)
    (hlt : ws.length + 1 < 2 ^ 16) {v : Nat} (hv : v < 2 ^ 16) :
    Triple (At m (bytes 2 cmd.toNat ++ bytes 2 (ws.length + 1) ++
        (ws.flatMap Entry.encode ++ (bytes 2 cmd'.toNat ++ bytes 2 2 ++ bytes 2 v))))
      (Packet.ofInput m) (fun q s => (q.entries = ws.map entryData ∧
        q.dataSets = [⟨header cmd' .sized 2, [{}, {}]⟩]) ∧ At m [] s) (fun f _ => E f) := by
  refine (consumes_header hm hl (fun _ => hlt) _).bind (fun h => .pure_pre ?_)
  rintro rfl
  have hitems := items_entries (E := E) (p := { packetHeader := header cmd .sized (ws.length + 1) }) hm ws hread
    (item_text hm h6 hv 0 _)
  refine Triple.conseq hitems (fun _ hs => hs) ?_ (fun _ _ he => he)
  rintro q s ⟨rfl, hs⟩
  exact ⟨⟨rfl, rfl⟩, hs⟩

theorem wire_entries {typeOf : CmdCode → Option Nat} {es : List DataEntry}
    (h : ∀ e ∈ es, e.Fits typeOf ∧ e.sanitized.valid ∧ typeOf e.entryHeader.cmd ≠ some 6) :
    ∃ ws : List (Entry typeOf), ws.length = es.length ∧
      es.flatMap (fun e => e.build.1) = ws.flatMap Entry.encode ∧
      es.map (fun e => e.build.2) = ws.map entryData ∧ ∀ w ∈ ws, w.Readable := by
  apply exists_sequence
  intro e he
  obtain ⟨hfits, hvalid, hset⟩ := h e he
  obtain ⟨w, hw, hcmd, hdata⟩ := entry_build hfits
  obtain ⟨hne, hpayload⟩ := (DataEntry.valid_iff _).mp hvalid
  refine ⟨w, hw, ?_, ?_, ?_⟩
  · rwa [hcmd, ← DataEntry.sanitized_cmd]
  · rwa [hdata]
  · rwa [hcmd]

theorem text_bytes {q : Packet} {es : List DataEntry} {cmd : CmdCode} {size : Nat} {text : List UInt8}
    {typeOf : CmdCode → Option Nat} {ws : List (Entry typeOf)}
    (hheader : q.packetHeader = header q.packetHeader.cmd .sized q.packetHeader.contentSize)
    (htext : text.length = 2) (hentries : q.entries = es ++ [⟨⟨cmd, size, 2⟩, text⟩])
    (hsets : q.dataSets = []) (hlen : ws.length = es.length)
    (hbytes : es.flatMap (fun e => e.build.1) = ws.flatMap Entry.encode) :
    q.build.1 = bytes 2 q.packetHeader.cmd.toNat ++ bytes 2 (ws.length + 1) ++
      (ws.flatMap Entry.encode ++ (bytes 2 cmd.toNat ++ bytes 2 2 ++ bytes 2 (value text))) := by
  have hcount : q.entries.length + q.dataSets.length = ws.length + 1 := by
    rw [hentries, hsets, hlen, List.length_append]
    rfl
  have hset : q.packetHeader.setSize (ws.length + 1) =
      header q.packetHeader.cmd .sized (ws.length + 1) := by
    rw [hheader]
    rfl
  have hlast : (⟨⟨cmd, size, 2⟩, text⟩ : DataEntry).build.1 =
      bytes 2 cmd.toNat ++ bytes 2 2 ++ bytes 2 (value text) := by
    rw [DataEntry.build, DataEntry.sanitized_of_sized (by decide : (2 : Nat) ≠ 0), ← htext,
      bytes_value, htext]
    exact congrArg (· ++ text) (header_build cmd .sized 2)
  rw [Packet.build, hcount, hset, header_build, hentries, hsets, List.flatMap_append,
    List.flatMap_singleton, hbytes, hlast, List.flatMap_nil, List.append_nil]
  rfl

theorem text_read {q : Packet} {es : List DataEntry} {cmd : CmdCode} {size : Nat} {text : List UInt8}
    (hheader : q.packetHeader.Consistent EnumDataTypes.typeOf) (hwidth : q.packetHeader.sizeWidth ≠ 0)
    (hes : ∀ e ∈ es, e.Fits EnumDataTypes.typeOf ∧ e.sanitized.valid ∧
      EnumDataTypes.typeOf e.entryHeader.cmd ≠ some 6)
    (h6 : EnumDataTypes.typeOf cmd = some 6) (htext : text.length = 2)
    (hentries : q.entries = es ++ [⟨⟨cmd, size, 2⟩, text⟩]) (hsets : q.dataSets = [])
    (hroom : es.length + 1 < 2 ^ 16) (beyond : Nat → UInt8) :
    ∃ r s, Packet.ofInput (.server q.build.1 beyond) {} = .ok r s ∧ s.it = q.build.1.length ∧
      r.entries = es.map (fun e => e.build.2) ∧ r.dataSets = [⟨⟨cmd, 2, 2⟩, [{}, {}]⟩] := by
  obtain ⟨ws, hlen, hbytes, hdata, hread⟩ := wire_entries hes
  obtain ⟨hl, hh⟩ := sized_header hheader hwidth
  have hlt : ws.length + 1 < 2 ^ 16 := by
    rw [hlen]
    exact hroom
  have hvalue : value text < 2 ^ 16 := by
    have hle := value_lt text
    rw [htext] at hle
    exact hle
  have hstart : At (.server q.build.1 beyond) (bytes 2 q.packetHeader.cmd.toNat ++
      bytes 2 (ws.length + 1) ++
        (ws.flatMap Entry.encode ++ (bytes 2 cmd.toNat ++ bytes 2 2 ++ bytes 2 (value text)))) {} :=
    ⟨Nat.zero_le _, text_bytes hh htext hentries hsets hlen hbytes⟩
  have hpacket := packet_text (E := fun _ => False) (total_server q.build.1 beyond) hl h6 ws hread hlt
    hvalue
  obtain ⟨r, s, hrun, ⟨hr, hrsets⟩, hs⟩ := hpacket.total hstart
  exact ⟨r, s, hrun, hs.length, hr.trans hdata.symm, hrsets⟩

theorem intervalEntries_fit : ∀ e ∈ intervalEntries, e.Fits EnumDataTypes.typeOf ∧ e.sanitized.valid ∧
    EnumDataTypes.typeOf e.entryHeader.cmd ≠ some 6 := by
  have hmade : ∀ e ∈ intervalEntries,
      (DataEntry.ofCmd EnumDataTypes.typeOf e.entryHeader.cmd e.data).toOption = some e ∧
        e.data.length < 2 ^ 16 ∧ e.sanitized.valid ∧
        EnumDataTypes.typeOf e.entryHeader.cmd ≠ some 6 := by
    decide +kernel
  intro e he
  obtain ⟨hofCmd, hlen, hrest⟩ := hmade e he
  exact ⟨ofCmd_fits (except_eq_ok hofCmd) hlen, hrest⟩

/-- Whatever packet without data sets the entries are appended to, a reader gets them but for the
last one, which it takes for two arrays without entries. -/
theorem interval_read (p : Packet) (hp : Sized EnumDataTypes.typeOf p) (hsets : p.dataSets = [])
    (hroom : p.entries.length + 13 < 2 ^ 16) (beyond : Nat → UInt8) :
    ∃ q r s, serverResponseApplyOnIntervalFlag p = .ok q ∧
      Packet.ofInput (.server q.build.1 beyond) {} = .ok r s ∧ s.it = q.build.1.length ∧
      r.entries = (p.entries ++ intervalEntries).map (fun e => e.build.2) ∧
      r.dataSets = [⟨⟨CmdCode.dataSet, 2, 2⟩, [{}, {}]⟩] := by
  have hall : ∀ e ∈ p.entries ++ intervalEntries, e.Fits EnumDataTypes.typeOf ∧ e.sanitized.valid ∧
      EnumDataTypes.typeOf e.entryHeader.cmd ≠ some 6 := by
    intro e he
    exact (List.mem_append.mp he).elim (hp.1.entries e) (intervalEntries_fit e)
  have h6 : EnumDataTypes.typeOf CmdCode.dataSet = some 6 := by decide +kernel
  have hq := interval_eq p
  have happended := ItemCount.foldl_appendEntry (intervalEntries ++ [dataSetText]) p
  generalize (intervalEntries ++ [dataSetText]).foldl Packet.appendEntry p = q at hq happended
  obtain ⟨hqheader, hqentries, hqsets⟩ := happended
  have hlen : (p.entries ++ intervalEntries).length + 1 < 2 ^ 16 := by
    rw [List.length_append]
    exact hroom
  rw [← List.append_assoc] at hqentries
  obtain ⟨r, s, hread⟩ := text_read (hqheader ▸ hp.1.header) (hqheader ▸ hp.2) hall h6 rfl hqentries
    (hqsets.trans hsets) hlen beyond
  exact ⟨q, r, s, hq, hread⟩

theorem interval_read_named : ∃ q r s,
    serverResponseApplyOnIntervalFlag { named 0 with dataSets := [] } = .ok q ∧
      Packet.ofInput (.server q.build.1 (fun _ => 0)) {} = .ok r s ∧ s.it = q.build.1.length ∧
      r.entries = ((named 0).entries ++ intervalEntries).map (fun e => e.build.2) ∧
      r.dataSets = [⟨⟨CmdCode.dataSet, 2, 2⟩, [{}, {}]⟩] := by
  have hnamed := named_sized 0
  have hsized : Sized EnumDataTypes.typeOf { named 0 with dataSets := [] } :=
    ⟨⟨hnamed.1.header, by decide, hnamed.1.entries, by simp⟩, hnamed.2⟩
  exact interval_read _ hsized rfl (by decide) (fun _ => 0)

theorem header_unknown {k : Nat} {h : EntryHeader} (hunknown : m.typeOf CmdCode.unknown = some 0)
    (hcmd : cmdAt m.input 0 = CmdCode.unknown) (hfour : 4 ≤ m.input.length) (hh : HeaderAt m 0 h k) :
    k = 4 := by
  have hfirst : afterWord m.input 0 = 2 := if_pos (by omega)
  have hsecond : afterWord m.input 2 = 4 := if_pos hfour
  cases hh with
  | sized _ => rw [hfirst, hsecond]
  | fixed size _ _ hc =>
    rw [hcmd, EntryHeader.getConfig_known hunknown (by norm_num), if_pos (.inl rfl)] at hc
    cases hc

theorem header_unsized (n : Nat) : (({} : EntryHeader).setSize n).build = [0, 0] := by
  change fromUint16 0 ++ [] = [0, 0]
  decide

theorem two_le_build (e : DataEntry) : 2 ≤ e.build.1.length := by
  simp only [DataEntry.build, EntryHeader.build, fromUint16_eq, List.length_append, length_bytes]
  omega

/-- Behind a command without a size the first two bytes that were written are lost. -/
theorem unnamed_loses (hunknown : m.typeOf CmdCode.unknown = some 0) {written : List UInt8}
    (hinput : m.input = [0, 0] ++ written) (htwo : 2 ≤ written.length) {q : Packet} {j : Nat}
    (h : PacketAt m 0 q j) : (q.entries.flatMap (fun e => e.build.1)).length + 2 ≤ written.length := by
  obtain ⟨header, k, hh, hitems⟩ := h
  obtain ⟨stored, _, hstored, _, hpieces, _⟩ := itemsAt_pieces hitems
  have hlen : m.input.length = written.length + 2 := by
    rw [hinput]
    rfl
  have hword : wordAt m.input 0 = 0 := by
    rw [wordAt, if_pos (by omega), hinput]
    rfl
  have hcmd : cmdAt m.input 0 = CmdCode.unknown := congrArg UInt16.ofNat hword
  have hk := header_unknown hunknown hcmd (by omega) hh
  have hle := hpieces.length_le
  rw [← List.flatMap_def, List.length_drop, List.length_drop, hk, hlen] at hle
  rw [hstored, List.nil_append]
  omega

/-- A packet without a command is built without a size, and a reader that gets it does not find the
entries that were appended. -/
theorem unnamed_not_read (es : List DataEntry) (hne : es ≠ []) (beyond : Nat → UInt8) :
    (returned (Packet.ofInput (.server ({ entries := es } : Packet).build.1 beyond)) {}).map
      Packet.entries ≠ some (es.map (fun e => e.build.2)) := by
  intro hread
  obtain ⟨q, hq, hentries⟩ := Option.map_eq_some_iff.mp hread
  have hbuild : ({ entries := es } : Packet).build.1 = [0, 0] ++ es.flatMap (fun e => e.build.1) := by
    rw [Packet.build, header_unsized, List.flatMap_nil, List.append_nil]
  have htwo : 2 ≤ (es.flatMap (fun e => e.build.1)).length := by
    cases es with
    | nil => exact absurd rfl hne
    | cons e es =>
      rw [List.flatMap_cons, List.length_append]
      exact (two_le_build e).trans (Nat.le_add_right _ _)
  have hstored : q.entries.flatMap (fun e => e.build.1) = es.flatMap (fun e => e.build.1) := by
    rw [hentries, List.flatMap_map]
    exact List.flatMap_congr (fun e _ => congrArg Prod.fst (entry_rebuild e))
  have hle := unnamed_loses typeOf_unknown hbuild htwo
    ((runs_packet (Nat.zero_le _)).ok (returned_eq_some.mp hq)).1.1
  rw [hstored] at hle
  omega

theorem responses_not_read : ∃ login banned : List DataEntry,
    (getFinishLogin = .ok ({ entries := login } : Packet).build.1 ∧
      (returned (Packet.ofInput (.server ({ entries := login } : Packet).build.1 (fun _ => 0))) {}).map
        Packet.entries ≠ some (login.map (fun e => e.build.2))) ∧
    (getBannedUntil = .ok ({ entries := banned } : Packet).build.1 ∧
      (returned (Packet.ofInput (.server ({ entries := banned } : Packet).build.1 (fun _ => 0))) {}).map
        Packet.entries ≠ some (banned.map (fun e => e.build.2))) := by
  refine ⟨[⟨⟨CmdCode.success, 1, 0⟩, [0x01]⟩, ⟨⟨CmdCode.sessionGuid, 16, 0⟩, getSessionGuidClient⟩],
    [⟨⟨CmdCode.bannedUntilDatetime, 8, 0⟩, List.replicate 8 0x00⟩,
      ⟨⟨CmdCode.textValue, 0, 2⟩, List.replicate 16 0x41⟩], ⟨?_, ?_⟩, ⟨?_, ?_⟩⟩
  · exact except_eq_ok (by decide +kernel)
  · exact unnamed_not_read _ (List.cons_ne_nil _ _) _
  · exact except_eq_ok (by decide +kernel)
  · exact unnamed_not_read _ (List.cons_ne_nil _ _) _

end GlobalAgenda.Responses
