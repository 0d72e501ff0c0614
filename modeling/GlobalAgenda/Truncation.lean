import GlobalAgenda.Canonical
import GlobalAgenda.Rebuilding
import GlobalAgenda.StoredEntries
import GlobalAgenda.Unambiguous
import GlobalAgenda.Walk

namespace GlobalAgenda.Truncation

open EnumDataTypes ValueConverter Base.LittleEndian Base.Triples Wire Encoding Decoding ParserSpec
  StoredEntries Unambiguous Walk

variable {m : Machine} {s : Scan}

theorem toUint16_total (hm : Total m) (s : Scan) :
    toUint16 m s = .ok (wordAt m.input s.it) ⟨afterWord m.input s.it⟩ :=
  word_run (.inr (fun k _ => hm.load (s.it + k)))

theorem header_total (hm : Total m) {type : Nat} (ht : m.typeOf (cmdAt m.input s.it) = some type)
    (hle : type ≤ 10) : ∃ h t, EntryHeader.ofInput m s = .ok h t ∧ HeaderAt m s.it h t.it := by
  have hconfig := EntryHeader.getConfig_known ht hle
  have hread : toCmd m s = .ok (cmdAt m.input s.it) ⟨afterWord m.input s.it⟩ := by
    rw [toCmd, bind_ok (toUint16_total hm s)]
    rfl
  rw [EntryHeader.ofInput, bind_ok hread]
  obtain hc | ⟨size, hpos, hsize, hc⟩ := EntryHeader.getConfig_cases hconfig
  · rw [hc] at hconfig
    rw [hconfig]
    have hword := toUint16_total hm ⟨afterWord m.input s.it⟩
    exact ⟨_, _, bind_ok hword, .sized hconfig⟩
  · rw [hc] at hconfig
    rw [hconfig]
    exact ⟨_, _, rfl, .fixed size hpos hsize hconfig⟩

theorem entry_total {h : EntryHeader} {type : Nat} (ht : m.typeOf h.cmd = some type) (h6 : type ≠ 6)
    (s : Scan) : ∃ e t, DataEntry.ofHeader m h s = .ok e t ∧ e.entryHeader = h ∧
      PayloadAt m s.it h e.data t.it := by
  obtain ⟨data, j, hp⟩ : ∃ data j, PayloadAt m s.it h data j := by
    apply payload_exists
    rintro ⟨hset, _⟩
    rw [ht] at hset
    exact h6 (Option.some.inj hset)
  exact ⟨_, _, payload_run ht hp, rfl, hp⟩

theorem cmdAt_cut {w : Entry m.typeOf} {r : Nat} (hr : 2 ≤ r) (hlt : r < w.encode.length)
    (hs : At m (w.encode.take r) s) : cmdAt m.input s.it = w.cmd := by
  have hlen := hs.length
  rw [List.length_take, Nat.min_eq_left hlt.le] at hlen
  have hcmd := drop_cmd (m := m) (i := s.it) (by omega)
  rw [hs.2, Entry.encode, List.append_assoc, List.take_append, List.take_of_length_le (by simpa)] at hcmd
  exact (prefixFree_cmd _ _ _ _ trivial trivial hcmd).1.symm

/-- What is left of an entry that was cut off is not a valid entry. -/
theorem invalid_of_cut {w : Entry m.typeOf} {r j : Nat} (hlt : r < w.encode.length)
    (hs : At m (w.encode.take r) s) {e : DataEntry} (he : EntryAt m s.it e j) : ¬ e.valid := by
  intro hv
  have hbytes := entryAt_bytes he hv
  obtain ⟨v, hbuild, _⟩ := entry_build he.fits
  rw [hs.2, hbuild] at hbytes
  have hwhole : w.encode ++ [] = v.encode ++ (m.input.drop j ++ w.encode.drop r) := by
    rw [List.append_nil, ← List.append_assoc, ← hbytes, List.take_append_drop]
  obtain ⟨_, hnil⟩ := prefixFree_entry w v _ _ trivial trivial hwhole
  have hdrop := (List.append_eq_nil_iff.mp hnil.symm).2
  rw [List.drop_eq_nil_iff] at hdrop
  omega

variable {n : Nat} {p : Packet}

def Unchanged (p q : Packet) : Prop := q.entries = p.entries ∧ q.dataSets = p.dataSets

theorem item_cut (hm : Total m) (h0 : m.typeOf CmdCode.unknown = some 0) {w : Entry m.typeOf}
    (h6 : m.typeOf w.cmd ≠ some 6) {r : Nat} (hlt : r < w.encode.length) :
    Triple (At m (w.encode.take r)) (Packet.parseItems m (n + 1) p) (fun q _ => Unchanged p q)
      (fun _ _ => False) := by
  intro s hs
  have hlen := hs.length
  rw [List.length_take, Nat.min_eq_left hlt.le] at hlen
  rw [Packet.parseItems, bind_ok (cursor_run s)]
  by_cases hend : s.it = m.input.length
  · rw [if_pos hend]
    exact ⟨rfl, rfl⟩
  obtain ⟨type, hle, ht, hne⟩ : ∃ type ≤ 10, m.typeOf (cmdAt m.input s.it) = some type ∧ type ≠ 6 := by
    by_cases hr : 2 ≤ r
    · obtain ⟨type, hle, ht⟩ := layoutOf_type w.layout_eq
      rw [cmdAt_cut hr hlt hs]
      exact ⟨type, hle, ht, fun heq => h6 (heq ▸ ht)⟩
    · rw [cmdAt_short (by omega)]
      exact ⟨0, by norm_num, h0, by norm_num⟩
  obtain ⟨h, t, hheader, hat⟩ := header_total hm ht hle
  rw [← hat.cmd] at ht
  obtain ⟨e, u, hentry, heq, hpay⟩ := entry_total ht hne t
  have hinvalid : ¬ e.valid := invalid_of_cut hlt hs ⟨t.it, heq ▸ hat, heq ▸ hpay⟩
  have hprint : e.dbgPrint m = pure () := dbgPrint_run hm.text (heq ▸ ht)
  rw [if_neg hend, bind_ok hheader, getType_run ht, pure_bind,
    if_neg (EnumType.ofValue_ne_typeTcpDataSet hne), bind_ok hentry, hprint, pure_bind, if_neg hinvalid]
  exact ⟨rfl, rfl⟩

def fitting : Nat → List (Entry m.typeOf) → List (Entry m.typeOf)
  | _, [] => []
  | r, w :: ws => if w.encode.length ≤ r then w :: fitting (r - w.encode.length) ws else []

theorem items_cut (hm : Total m) (h0 : m.typeOf CmdCode.unknown = some 0) (ws : List (Entry m.typeOf))
    (hread : ∀ w ∈ ws, w.Readable) (r : Nat) (hr : r ≤ (ws.flatMap Entry.encode).length)
    (hn : ws.length ≤ n) :
    Triple (At m ((ws.flatMap Entry.encode).take r)) (Packet.parseItems m n p)
      (fun q _ => q.entries = p.entries ++ (fitting r ws).map entryData ∧ q.dataSets = p.dataSets)
      (fun _ _ => False) := by
  induction ws generalizing n p r with
  | nil =>
    refine (items_end (.inr (List.take_nil ..))).conseq (fun _ hs => hs) ?_ (fun _ _ he => he)
    rintro q _ ⟨rfl, _⟩
    exact ⟨by simp [fitting], rfl⟩
  | cons w ws ih =>
    obtain ⟨n, rfl⟩ := Nat.exists_eq_add_of_le' ((Nat.succ_le_succ (Nat.zero_le _)).trans hn)
    rw [List.flatMap_cons, List.length_append] at hr
    rw [List.flatMap_cons, List.take_append]
    by_cases hle : w.encode.length ≤ r
    · rw [List.take_of_length_le hle, fitting, if_pos hle]
      apply item_entry hm w (hread w (by simp))
      have hrest := ih (n := n) (p := { p with entries := p.entries ++ [entryData w] })
        (fun v hv => hread v (by simp [hv])) (r - w.encode.length) (by omega)
        (Nat.le_of_succ_le_succ hn)
      simpa only [List.append_assoc, List.singleton_append, List.map_cons] using hrest
    · have hlt : r < w.encode.length := Nat.not_le.mp hle
      rw [Nat.sub_eq_zero_of_le hlt.le, List.take_zero, List.append_nil, fitting, if_neg hle]
      refine (item_cut hm h0 (hread w (by simp)).2.2 hlt).conseq (fun _ hs => hs) ?_ (fun _ _ he => he)
      rintro q _ ⟨hentries, hdataSets⟩
      exact ⟨by simpa using hentries, hdataSets⟩

/-- The entries of which all bytes are among the first `r` of those they build to. -/
def complete : Nat → List DataEntry → List DataEntry
  | _, [] => []
  | r, e :: es => if e.build.1.length ≤ r then e :: complete (r - e.build.1.length) es else []

theorem build_bytes {e : DataEntry} {w : Entry m.typeOf} (h : e.build.2 = entryData w) :
    e.build.1 = w.encode := by
  rw [← Rebuilding.entry_rebuild, h, Canonical.entryData_build]

theorem flatMap_bytes {es : List DataEntry} {ws : List (Entry m.typeOf)}
    (h : es.map (fun e => e.build.2) = ws.map entryData) :
    es.flatMap (fun e => e.build.1) = ws.flatMap Entry.encode := by
  induction es generalizing ws with
  | nil => rw [List.map_eq_nil_iff.mp h.symm, List.flatMap_nil, List.flatMap_nil]
  | cons e es ih =>
    obtain ⟨w, ws, rfl, hw, hws⟩ := List.map_eq_cons_iff.mp h.symm
    rw [List.flatMap_cons, List.flatMap_cons, build_bytes hw.symm, ih hws.symm]

theorem complete_data {es : List DataEntry} {ws : List (Entry m.typeOf)} (r : Nat)
    (h : es.map (fun e => e.build.2) = ws.map entryData) :
    (complete r es).map (fun e => e.build.2) = (fitting r ws).map entryData := by
  induction es generalizing ws r with
  | nil =>
    rw [List.map_eq_nil_iff.mp h.symm]
    rfl
  | cons e es ih =>
    obtain ⟨w, ws, rfl, hw, hws⟩ := List.map_eq_cons_iff.mp h.symm
    rw [complete, fitting, build_bytes hw.symm]
    by_cases hle : w.encode.length ≤ r
    · rw [if_pos hle, if_pos hle, List.map_cons, List.map_cons, hw, ih _ hws.symm]
    · rw [if_neg hle, if_neg hle]
      rfl

theorem fitting_zero (ws : List (Entry m.typeOf)) : fitting 0 ws = [] := by
  cases ws with
  | nil => rfl
  | cons w ws =>
    have htwo := w.two_le_length
    rw [fitting, if_neg (by omega)]

theorem encode_take {w : Message m.typeOf} (hl : w.layout = .sized) {k : Nat} (hk : 4 ≤ k)
    (hle : k ≤ 4 + (w.entries.flatMap Entry.encode).length) : w.encode.take k =
      bytes 2 w.cmd.toNat ++ w.layout.sizeField w.count ++
        (w.entries.flatMap Entry.encode).take (k - 4) := by
  have hfour : (bytes 2 w.cmd.toNat ++ w.layout.sizeField w.count).length = 4 := by
    rw [hl, Layout.sizeField, List.length_append, length_bytes, length_bytes]
  rw [Message.encode, List.take_append, hfour, List.take_of_length_le (by omega), List.take_append]
  have hrest : k - 4 - (w.entries.flatMap Entry.encode).length = 0 := by omega
  rw [hrest, List.take_zero, List.append_nil]

theorem cmdAt_message {w : Message m.typeOf} {k : Nat} (hinput : m.input = w.encode.take k)
    (htwo : 2 ≤ m.input.length) : cmdAt m.input 0 = w.cmd := by
  have hdrop := drop_cmd (m := m) (i := 0) htwo
  rw [List.drop_zero] at hdrop
  have hencode : w.encode = bytes 2 (cmdAt m.input 0).toNat ++
      (m.input.drop (0 + 2) ++ w.encode.drop k) := by
    rw [← List.append_assoc, ← hdrop, hinput, List.take_append_drop]
  rw [Message.encode, List.append_assoc] at hencode
  exact (prefixFree_cmd _ _ _ _ trivial trivial hencode).1.symm

theorem short_header {w : Message m.typeOf} (hl : w.layout = .sized) {k : Nat} (hk : k < 4)
    (hinput : m.input = w.encode.take k) (h0 : m.typeOf CmdCode.unknown = some 0) {h : EntryHeader}
    {j : Nat} (hat : HeaderAt m 0 h j) : h.contentSize = 0 := by
  have hlen : m.input.length ≤ k := by
    rw [hinput]
    exact List.length_take_le _ _
  have hword : ∀ i, m.input.length < i + 2 → wordAt m.input i = 0 := fun i hi => if_neg (by omega)
  by_cases htwo : 2 ≤ m.input.length
  · cases hat with
    | sized _ =>
      have hnext : afterWord m.input 0 = 2 := if_pos htwo
      rw [hnext]
      exact hword 2 (by omega)
    | fixed size _ _ hconfig =>
      rw [cmdAt_message hinput htwo, getConfig_of_layout w.layout_eq, hl] at hconfig
      cases hconfig
  · cases hat with
    | sized _ =>
      have hnext : afterWord m.input 0 = 0 := if_neg htwo
      rw [hnext]
      exact hword 0 (by omega)
    | fixed size _ _ hconfig =>
      rw [cmdAt_short (by omega), EntryHeader.getConfig_known h0 (by norm_num)] at hconfig
      cases hconfig

theorem message_cut (hm : Total m) (h0 : m.typeOf CmdCode.unknown = some 0) {w : Message m.typeOf}
    (hl : w.layout = .sized) {k : Nat} (hinput : m.input = w.encode.take k)
    (hle : k ≤ 4 + (w.entries.flatMap Entry.encode).length) :
    Triple (fun s => s = {}) (Packet.ofInput m)
      (fun q _ => q.entries = (fitting (k - 4) w.entries).map entryData ∧ q.dataSets = [])
      (fun _ _ => False) := by
  rintro s rfl
  by_cases hk : k < 4
  · obtain ⟨type, hten, htype⟩ : ∃ type ≤ 10, m.typeOf (cmdAt m.input 0) = some type := by
      by_cases htwo : 2 ≤ m.input.length
      · rw [cmdAt_message hinput htwo]
        exact layoutOf_type w.layout_eq
      · rw [cmdAt_short (by omega)]
        exact ⟨0, by norm_num, h0⟩
    obtain ⟨h, t, hrun, hat⟩ := header_total (s := {}) hm htype hten
    have hsize : h.getSize = 0 := short_header hl hk hinput h0 hat
    rw [Packet.ofInput, bind_ok hrun, hsize, Nat.sub_eq_zero_of_le hk.le, fitting_zero]
    exact ⟨rfl, rfl⟩
  · have hcount : w.layout = .sized → w.count < 2 ^ 16 := by
      intro _
      have hfits := w.fits
      rw [hl] at hfits
      exact Nat.lt_of_le_pred (by norm_num) hfits
    have hsize : (header w.cmd w.layout w.count).getSize = w.count := by
      rw [hl]
      rfl
    have hstart : At m (bytes 2 w.cmd.toNat ++ w.layout.sizeField w.count ++
        (w.entries.flatMap Entry.encode).take (k - 4)) {} := by
      rw [← encode_take hl (Nat.not_lt.mp hk) hle, ← hinput]
      exact ⟨Nat.zero_le _, rfl⟩
    have hitems := items_cut (n := w.count) (p := { packetHeader := header w.cmd w.layout w.count })
      hm h0 w.entries w.readable (k - 4) (by omega) (Nat.le_add_right _ _)
    refine (consumes_header hm w.layout_eq hcount _).bind (fun h => .pure_pre ?_) {} hstart
    rintro rfl
    rw [hsize]
    exact hitems

/-- A packet that was cut off among its entries is read with those that arrived, as they were built,
and no others. -/
theorem truncated_packet (p : Packet) (beyond : Nat → UInt8) (k : Nat)
    (hp : Sized EnumDataTypes.typeOf p)
    (hk : k ≤ 4 + (p.entries.flatMap (fun e => e.build.1)).length) :
    ∃ q, returned (Packet.ofInput (.server (p.build.1.take k) beyond)) {} = some q ∧
      q.entries = (complete (k - 4) p.entries).map (fun e => e.build.2) ∧ q.dataSets = [] := by
  obtain ⟨w, hw, hl⟩ := hp.message
  obtain ⟨hbytes, hdata⟩ := Prod.mk.inj hw
  have hentries : p.entries.map (fun e => e.build.2) = w.entries.map entryData :=
    congrArg Packet.entries hdata
  have hflat := flatMap_bytes (m := .server (p.build.1.take k) beyond) hentries
  have h0 : EnumDataTypes.typeOf CmdCode.unknown = some 0 := by decide +kernel
  rw [hflat] at hk
  have hcut := message_cut (m := .server (p.build.1.take k) beyond) (total_server _ _) h0 hl
    (congrArg (List.take k) hbytes) hk
  obtain ⟨q, s, hrun, hq⟩ := hcut.total rfl
  refine ⟨q, by rw [returned, hrun], ?_, hq.2⟩
  rw [hq.1, complete_data (m := .server (p.build.1.take k) beyond) (k - 4) hentries]

theorem named_truncated :
    ∃ q, returned (Packet.ofInput (.server ((named 0).build.1.take 14) (fun _ => 0))) {} = some q ∧
      q.entries = [⟨⟨CmdCode.playerName, 1, 2⟩, [0x41]⟩] ∧ q.dataSets = [] := by
  have hcomplete : (complete (14 - 4) (named 0).entries).map (fun e => e.build.2) =
      [⟨⟨CmdCode.playerName, 1, 2⟩, [0x41]⟩] := by decide
  rw [← hcomplete]
  exact truncated_packet (named 0) (fun _ => 0) 14 (named_sized 0) (by decide)

end GlobalAgenda.Truncation
