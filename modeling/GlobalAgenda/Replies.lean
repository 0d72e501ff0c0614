import GlobalAgenda.Client
import GlobalAgenda.Decoding
import GlobalAgenda.MemoryIndependence

namespace GlobalAgenda.Replies

open EnumDataTypes ValueConverter Base.LittleEndian Base.Triples Base.WhileLoop Wire Encoding
  Decoding Client

def versionReply : Packet where
  packetHeader := ⟨CmdCode.applicationValue, 4, 0⟩
  entries := [⟨⟨CmdCode.version, 4, 0⟩, [0x01, 0x00, 0x05, 0x01]⟩,
    ⟨⟨CmdCode.sessionGuid, 16, 0⟩, getSessionGuidClient⟩]

theorem serverResponseVersion_eq : serverResponseVersion = .ok versionReply :=
  except_eq_ok (by decide +kernel)

def isVersionRequest (p : Packet) : Bool :=
  p.getCmd = CmdCode.applicationValue ∧ p.entriesCount = 2

def answer (p : Packet) : Packet := if isVersionRequest p then versionReply else {}

theorem processPacket_eq (p : Packet) : processPacket p = .ok (answer p) := by
  rw [processPacket, answer]
  by_cases hcmd : p.getCmd = CmdCode.applicationValue
  · by_cases hcount : p.entriesCount = 2
    · have hrequest : isVersionRequest p = true := decide_eq_true ⟨hcmd, hcount⟩
      rw [if_pos hcmd, if_pos hcount, if_pos hrequest, serverResponseVersion_eq]
    · have hrequest : ¬ isVersionRequest p = true := by simp [isVersionRequest, hcount]
      rw [if_pos hcmd, if_neg hcount, if_neg hrequest]
      rfl
  · have hrequest : ¬ isVersionRequest p = true := by simp [isVersionRequest, hcmd]
    rw [if_neg hcmd, if_neg hrequest]
    rfl

/-- How many requests for the version the dispatcher comes to. -/
def requests (t : TcpPacket) : Nat := (reached t.copies 0).countP isVersionRequest

theorem answers_eq (packets : List Packet) :
    (packets.mapIdx (fun _ => answer)).filter (fun p => !p.isEmpty) =
      List.replicate (packets.countP isVersionRequest) versionReply := by
  induction packets with
  | nil => rfl
  | cons p packets ih =>
    rw [List.mapIdx_cons, List.filter_cons, List.countP_cons, ih, answer]
    by_cases hrequest : isVersionRequest p
    · rw [if_pos hrequest, if_pos hrequest]
      rfl
    · rw [if_neg hrequest, if_neg hrequest]
      rfl

theorem dispatch_replies {t : TcpPacket} (h : t.packetIter = some 0) (hne : t.packets ≠ []) :
    ∃ n d, processTcpPacket (fun _ => answer) n t = .ok d ∧
      d.response.packets = List.replicate (requests t) versionReply := by
  have hpos : 0 < t.packets.length := List.length_pos_iff.mpr hne
  have hcopy : versionReply.copy = versionReply := rfl
  have hresponse := foldl_step_response (fun _ => answer) (reached t.copies 0) {}
  rw [List.nil_append, answers_eq, List.map_replicate, hcopy] at hresponse
  refine ⟨(reached t.copies 0).length + 1, _, ?_, hresponse⟩
  rw [processTcpPacket, loop_eq (fun _ => answer) h hpos, if_pos (Nat.lt_succ_self _)]

variable {m : Machine}

theorem header_missing (hm : Total m) {cmd : CmdCode} (hcmd : m.typeOf cmd = none) (rest : List UInt8) :
    Triple (At m (bytes 2 cmd.toNat ++ rest)) (EntryHeader.ofInput m) (fun _ _ => False)
      (fun _ _ => True) := by
  have hconfig : EntryHeader.getConfig m.typeOf cmd = .error (.missingRow cmd) := by
    rw [EntryHeader.getConfig, hcmd]
  apply (consumes_toCmd hm cmd _).bind
  intro c
  apply Triple.pure_pre
  rintro rfl
  rw [hconfig]
  exact fun s hs => trivial

/-- Without a size field the header takes as many entries as its command is wide. -/
theorem packet_swallows (hm : Total m) {cmd : CmdCode} {ws : List (Entry m.typeOf)}
    (hl : layoutOf m.typeOf cmd = some (.fixed ws.length)) (hread : ∀ w ∈ ws, w.Readable)
    (rest : List UInt8) :
    Triple (At m (bytes 2 cmd.toNat ++ (ws.flatMap Entry.encode ++ rest))) (Packet.ofInput m)
      (fun p s => p.entries = ws.map entryData ∧ At m rest s) (fun _ _ => True) := by
  have hheader := consumes_header (E := fun _ => True) hm hl (n := 0) nofun
    (ws.flatMap Entry.encode ++ rest)
  rw [Layout.sizeField, List.append_nil] at hheader
  refine hheader.bind (fun h => .pure_pre ?_)
  rintro rfl
  refine items_entries (E := fun _ => True) (n := 0)
    (p := { packetHeader := header cmd (.fixed ws.length) 0 }) hm ws hread ?_
  refine (items_end (E := fun _ => True) (.inl rfl)).conseq (fun _ hs => hs) ?_ (fun _ _ he => he)
  rintro p s ⟨rfl, hs⟩
  exact ⟨rfl, hs⟩

theorem loop_fails (hm : Total m) {cmd missing : CmdCode} {ws : List (Entry m.typeOf)}
    (hl : layoutOf m.typeOf cmd = some (.fixed ws.length)) (hread : ∀ w ∈ ws, w.Readable)
    (hmissing : m.typeOf missing = none) {rest : List UInt8} {s t : Scan} (hs : At m (bytes 2 cmd.toNat ++
      (ws.flatMap Entry.encode ++ (bytes 2 missing.toNat ++ rest))) s) (rounds : Nat)
    (packets : List Packet) : whileLoop .outOfFuel (TcpPacket.notAtEnd m) (TcpPacket.round m) rounds []
      s ≠ .ok packets t := by
  have hgoes : ∀ {bs : List UInt8} {u : Scan} (n : Nat), At m (bytes 2 n ++ bs) u →
      TcpPacket.notAtEnd m u = true :=
    fun n hu => decide_eq_true (hu.ne_end (by rw [length_bytes]; norm_num))
  intro hloop
  obtain ⟨hend, hreach⟩ := whileLoop_ok hloop
  cases hreach with
  | refl =>
    rw [hgoes _ hs] at hend
    cases hend
  | @round _ ps _ _ u _ _ hfirst hreach =>
    obtain ⟨p, v, hp, hfirst⟩ := bind_eq_ok hfirst
    cases hfirst
    have hu := ((packet_swallows hm hl hread (bytes 2 missing.toNat ++ rest)).ok hs hp).2
    cases hreach with
    | refl =>
      rw [hgoes _ hu] at hend
      cases hend
    | round _ hsecond _ =>
      obtain ⟨_, _, hsecond, _⟩ := bind_eq_ok hsecond
      obtain ⟨_, _, hheader, _⟩ := bind_eq_ok hsecond
      exact (header_missing hm hmissing rest).ok hu hheader

/-- The entries a reader finds where one reply follows another: those of the first, its header with
the first bytes of the version, and some of what follows. -/
def swallowed : List (Entry EnumDataTypes.typeOf) := [
  ⟨CmdCode.version, .fixed 4, [0x01, 0x00, 0x05, 0x01], by decide +kernel, rfl⟩,
  ⟨CmdCode.sessionGuid, .fixed 16, getSessionGuidClient, by decide +kernel, rfl⟩,
  ⟨CmdCode.applicationValue, .fixed 4, [0x36, 0x05, 0x01, 0x00], by decide +kernel, rfl⟩,
  ⟨0x0105, .fixed 4, [0x73, 0x04, 0x40, 0x41], by decide +kernel, rfl⟩]

theorem swallowed_readable : ∀ w ∈ swallowed, w.Readable := by
  have hread : ∀ w ∈ swallowed,
      w.cmd ≠ CmdCode.unknown ∧ w.payload ≠ [] ∧ EnumDataTypes.typeOf w.cmd ≠ some 6 := by
    decide +kernel
  exact hread

theorem two_replies : versionReply.build.1 ++ versionReply.build.1 =
    bytes 2 CmdCode.applicationValue.toNat ++ (swallowed.flatMap Entry.encode ++
      (bytes 2 (0x4342 : CmdCode).toNat ++ getSessionGuidClient.drop 4)) := by
  decide +kernel

/-- A reader that gets the response has the packets that were appended to it. -/
def ReadBack (response : TcpPacket) (beyond : Nat → UInt8) : Prop :=
  ∃ rounds u, returned (TcpPacket.ofInput (.server response.build.1 beyond) rounds) {} = some u ∧
    u.packets.map (fun p => (p.getCmd, p.entries)) =
      response.packets.map (fun p => (p.getCmd, p.entries))

def replies (k : Nat) : TcpPacket := { packets := List.replicate k versionReply }

theorem readBack_replies {response : TcpPacket} {k : Nat}
    (h : response.packets = List.replicate k versionReply) (beyond : Nat → UInt8) :
    ReadBack response beyond ↔ ReadBack (replies k) beyond := by
  have hbuild : response.build.1 = (replies k).build.1 := by
    rw [TcpPacket.build, TcpPacket.build, TcpPacket.payload, TcpPacket.payload, h, replies]
  rw [ReadBack, ReadBack, hbuild, h, replies]

theorem replies_payload (k : Nat) : ∃ rest, (replies (k + 2)).payload =
    bytes 2 CmdCode.applicationValue.toNat ++ (swallowed.flatMap Entry.encode ++
      (bytes 2 (0x4342 : CmdCode).toNat ++ rest)) := by
  refine ⟨getSessionGuidClient.drop 4 ++ (replies k).payload, ?_⟩
  rw [TcpPacket.payload, replies, List.replicate_succ, List.replicate_succ, List.flatMap_cons,
    List.flatMap_cons, ← List.append_assoc, two_replies]
  simp only [List.append_assoc]
  rfl

/-- After the second reply the reader finds a command without a row, unless the size of the frame
has wrapped to zero. -/
theorem not_readBack (k : Nat) (beyond : Nat → UInt8) : ¬ ReadBack (replies (k + 2)) beyond := by
  rintro ⟨rounds, u, hrun, hpackets⟩
  obtain ⟨_, hnone, _⟩ | ⟨s, ⟨size, hsize, _⟩, _, hloop⟩ :=
    TcpPacket.ofInput_ok (returned_eq_some.mp hrun)
  · rw [hnone] at hpackets
    simp [replies, List.replicate_succ] at hpackets
  · have hlt := Nat.mod_lt (replies (k + 2)).payload.length (Nat.two_pow_pos 16)
    have hstart : At (.server (replies (k + 2)).build.1 beyond)
        (bytes 2 ((replies (k + 2)).payload.length % 2 ^ 16) ++ (replies (k + 2)).payload) {} :=
      ⟨Nat.zero_le _, by rw [TcpPacket.build, fromUint16_eq]; rfl⟩
    obtain ⟨_, hs⟩ := (consumes_toUint16 (E := fun _ => False) (total_server _ _) hlt _).ok hstart hsize
    obtain ⟨rest, hpayload⟩ := replies_payload k
    rw [hpayload] at hs
    have hwidth : layoutOf EnumDataTypes.typeOf CmdCode.applicationValue =
        some (.fixed swallowed.length) := by decide +kernel
    have hmissing : EnumDataTypes.typeOf 0x4342 = none := by decide +kernel
    exact loop_fails (total_server _ _) hwidth swallowed_readable hmissing hs _ _ hloop

theorem readBack_one {k : Nat} (hk : k ≤ 1) (beyond : Nat → UInt8) : ReadBack (replies k) beyond := by
  have hread : ∀ k ≤ 1, (returned (TcpPacket.ofInput
      (.server (replies k).build.1 (fun _ => 0)) 1) {}).map
        (fun u => u.packets.map (fun p => (p.getCmd, p.entries))) =
      some ((replies k).packets.map (fun p => (p.getCmd, p.entries))) := by
    decide +kernel
  have hagree := MemoryIndependence.tcpPacket_agree
    (MemoryIndependence.agree_server (replies k).build.1 beyond (fun _ => 0)) 1
  obtain ⟨u, hu, hpackets⟩ := Option.map_eq_some_iff.mp (hread k hk)
  exact ⟨1, u, hagree ▸ hu, hpackets⟩

/-- Every request for the version that the dispatcher comes to in a received frame is answered, and
the response can be read exactly when there was one such request at most. -/
theorem replies_read_iff {respond : Nat → Packet → Packet}
    (hrespond : ∀ k p, processPacket p = .ok (respond k p)) {input : List UInt8}
    {beyond : Nat → UInt8} {rounds : Nat} {t : TcpPacket}
    (h : returned (TcpPacket.ofInput (.server input beyond) rounds) {} = some t)
    (hne : t.packets ≠ []) : ∃ n d, processTcpPacket respond n t = .ok d ∧
      d.response.packets = List.replicate (requests t) versionReply ∧
      ∀ beyond', ReadBack d.response beyond' ↔ requests t ≤ 1 := by
  have hanswer : respond = fun _ => answer := by
    funext k p
    exact Except.ok.inj ((hrespond k p).symm.trans (processPacket_eq p))
  have hiter : t.packetIter = some 0 :=
    (parsed_iter h).elim (fun hnil => absurd hnil.1 hne) And.right
  obtain ⟨n, d, hrun, hresponse⟩ := dispatch_replies hiter hne
  refine ⟨n, d, hanswer ▸ hrun, hresponse, fun beyond' => ?_⟩
  rw [readBack_replies hresponse]
  constructor
  · intro hread
    by_contra hmany
    obtain ⟨k, hk⟩ := Nat.exists_eq_add_of_le (Nat.not_le.mp hmany)
    rw [hk, Nat.add_comm] at hread
    exact not_readBack k beyond' hread
  · intro hone
    exact readBack_one hone beyond'

def requested : TcpPacket := ⟨30, [⟨⟨0x3E, 0, 2⟩, [], [], none⟩,
  ⟨⟨0x3B, 4, 0⟩, versionReply.entries, [], none⟩], some 0⟩

theorem requested_replies : ∃ n d, processTcpPacket (fun _ => answer) n requested = .ok d ∧
    d.response.packets = List.replicate (requests requested) versionReply ∧
    ∀ beyond', ReadBack d.response beyond' ↔ requests requested ≤ 1 := by
  have hparse : returned (TcpPacket.ofInput (.server
      ([30, 0, 0x3E, 0, 0, 0] ++ versionReply.build.1) (fun _ => 0)) 2) {} = some requested := by
    decide +kernel
  exact replies_read_iff (fun _ => processPacket_eq) hparse (by decide)

end GlobalAgenda.Replies
