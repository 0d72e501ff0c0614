import GlobalAgenda.Base.Consumption
import GlobalAgenda.DataTypeParser

namespace GlobalAgenda.ExtraRow

open Base.LittleEndian Base.Triples Base.WhileLoop Base.Consumption DataTypeParser

variable {α β : Type}

abbrev Record (size : Nat) := { bs : List UInt8 // bs.length = size }

def opened (bs : List UInt8) : IfStream := { rest := bs }

def ended : IfStream := ⟨[], true, true⟩

def file {size : Nat} (records : List (Record size)) : IfStream :=
  opened (records.flatMap Subtype.val)

def At (ws : List UInt8) (s : IfStream) : Prop := s = opened ws

section Reads

variable {E : Fault → Prop}

theorem consumes_read (bs target : List UInt8) :
    Consumes At (IfStream.read bs.length target) bs (· = bs) E := by
  rintro rest s rfl
  have hle : bs.length ≤ (bs ++ rest).length := by simp
  have hrun : IfStream.read bs.length target (opened (bs ++ rest)) = .ok bs (opened rest) := by
    simp only [IfStream.read, opened, Bool.or_self, Bool.false_eq_true, ↓reduceIte, hle,
      List.take_left, List.drop_left]
  rw [hrun]
  exact ⟨rfl, rfl⟩

theorem consumes_readUint16 {bs : List UInt8} (h : bs.length = 2) (target : UInt16) :
    Consumes At (readUint16 target) bs (· = UInt16.ofNat (value bs)) E := by
  have hread := consumes_read (E := E) bs (bytes 2 target.toNat)
  rw [h] at hread
  apply hread.bind_pure
  rintro _ rfl
  exact .pure rfl

theorem consumes_readUint32 {bs : List UInt8} (h : bs.length = 4) (target : UInt32) :
    Consumes At (readUint32 target) bs (· = UInt32.ofNat (value bs)) E := by
  have hread := consumes_read (E := E) bs (bytes 4 target.toNat)
  rw [h] at hread
  apply hread.bind_pure
  rintro _ rfl
  exact .pure rfl

theorem consumes_readChar (b target : UInt8) :
    Consumes At (readChar target) [b] (· = b) E := by
  apply (consumes_read [b] [target]).bind_pure
  rintro _ rfl
  exact .pure rfl

theorem consumes_getStr (bs : List UInt8) (temp : UInt8) (str : String) :
    Consumes At (getStr bs.length temp str) bs (· = (bs.filter (· ≠ 0)).foldl append str) E := by
  induction bs generalizing temp str with
  | nil => exact .pure rfl
  | cons b bs ih =>
    apply (consumes_readChar b temp).bind
    rintro c rfl
    by_cases hc : c = 0
    · simpa [hc] using ih 0 str
    · simpa [hc] using ih c (append str c)

theorem read_opened_nil {count : Nat} (h : 0 < count) (target : List UInt8) :
    IfStream.read count target (opened []) = .ok target ended := by
  have hle : ¬ count ≤ 0 := by omega
  simp [IfStream.read, opened, ended, hle]

theorem getStr_ended (n : Nat) (str : String) : getStr n 0 str ended = .ok str ended := by
  induction n with
  | zero => rfl
  | succ n ih =>
    have hchar : readChar 0 ended = .ok 0 ended := rfl
    rw [getStr, bind_ok hchar]
    exact ih

end Reads

/-- How the entries of one of the two files are read, from a record and at the end of the file. -/
structure Format (α : Type) (size : Nat) where
  ofFile : UInt64 → Reader α
  entry : UInt64 → List UInt8 → α
  blank : UInt64 → α
  reads : ∀ i bs, bs.length = size → Consumes At (ofFile i) bs (· = entry i bs) (fun _ => False)
  ends : ∀ i, ofFile i (opened []) = .ok (blank i) ended

def nameOf (bs : List UInt8) : String := (bs.filter (· ≠ 0)).foldl append ""

def entryTCP (index : UInt64) (bs : List UInt8) : TypeEntryTCP :=
  ⟨index, UInt16.ofNat (value (bs.take 2)), UInt16.ofNat (value ((bs.drop 2).take 2)),
    UInt32.ofNat (value ((bs.drop 4).take 4)), nameOf (bs.drop 8)⟩

def entryUDP (index : UInt64) (bs : List UInt8) : TypeEntryUDP :=
  ⟨index, nameOf (bs.take 96), UInt32.ofNat (value (bs.drop 96))⟩

theorem consumes_name {bs : List UInt8} (h : bs.length = 96) :
    Consumes At (getStr stringNameSize 0 "") bs (· = nameOf bs) (fun _ => False) := by
  have hstr := consumes_getStr (E := fun _ => False) bs 0 ""
  rw [h] at hstr
  exact hstr

theorem consumes_entryTCP (i : UInt64) (bs : List UInt8) (h : bs.length = 104) :
    Consumes At (TypeEntryTCP.ofFile i) bs (· = entryTCP i bs) (fun _ => False) := by
  have hsplit : bs.take 2 ++ ((bs.drop 2).take 2 ++ ((bs.drop 4).take 4 ++ bs.drop 8)) = bs := by
    have hfour : bs.drop 4 = (bs.drop 2).drop 2 := by rw [List.drop_drop]
    have height : bs.drop 8 = (bs.drop 4).drop 4 := by rw [List.drop_drop]
    rw [height, List.take_append_drop, hfour, List.take_append_drop, List.take_append_drop]
  have hentry : Consumes At (TypeEntryTCP.ofFile i)
      (bs.take 2 ++ ((bs.drop 2).take 2 ++ ((bs.drop 4).take 4 ++ bs.drop 8)))
      (· = entryTCP i bs) (fun _ => False) := by
    apply (consumes_readUint16 (by rw [List.length_take, h]; rfl) 0).bind
    rintro _ rfl
    apply (consumes_readUint16 (by rw [List.length_take, List.length_drop, h]; rfl) 0).bind
    rintro _ rfl
    apply (consumes_readUint32 (by rw [List.length_take, List.length_drop, h]; rfl) 0).bind
    rintro _ rfl
    apply (consumes_name (by rw [List.length_drop, h])).bind_pure
    rintro _ rfl
    exact .pure rfl
  rwa [hsplit] at hentry

theorem consumes_entryUDP (i : UInt64) (bs : List UInt8) (h : bs.length = 100) :
    Consumes At (TypeEntryUDP.ofFile i) bs (· = entryUDP i bs) (fun _ => False) := by
  have hentry : Consumes At (TypeEntryUDP.ofFile i) (bs.take 96 ++ bs.drop 96)
      (· = entryUDP i bs) (fun _ => False) := by
    apply (consumes_name (by rw [List.length_take, h]; rfl)).bind
    rintro _ rfl
    apply (consumes_readUint32 (by rw [List.length_drop, h]) 0).bind_pure
    rintro _ rfl
    exact .pure rfl
  rwa [List.take_append_drop] at hentry

theorem blank_entryTCP (i : UInt64) :
    TypeEntryTCP.ofFile i (opened []) = .ok { index := i } ended := by
  have hfirst : readUint16 0 (opened []) = .ok 0 ended := by
    rw [readUint16, bind_ok (read_opened_nil (by norm_num) _)]
    rfl
  have hsecond : readUint16 0 ended = .ok 0 ended := rfl
  have hthird : readUint32 0 ended = .ok 0 ended := rfl
  rw [TypeEntryTCP.ofFile, bind_ok hfirst, bind_ok hsecond, bind_ok hthird,
    bind_ok (getStr_ended _ _)]
  rfl

theorem blank_entryUDP (i : UInt64) :
    TypeEntryUDP.ofFile i (opened []) = .ok { index := i } ended := by
  have hfirst : readChar 0 (opened []) = .ok 0 ended := by
    rw [readChar, bind_ok (read_opened_nil (by norm_num) _)]
    rfl
  have hname : getStr stringNameSize 0 "" (opened []) = .ok "" ended := by
    rw [stringNameSize, getStr, bind_ok hfirst]
    exact getStr_ended 95 ""
  have hflags : readUint32 0 ended = .ok 0 ended := rfl
  rw [TypeEntryUDP.ofFile, bind_ok hname, bind_ok hflags]
  rfl

def tcp : Format TypeEntryTCP 104 where
  ofFile := TypeEntryTCP.ofFile
  entry := entryTCP
  blank i := { index := i }
  reads := consumes_entryTCP
  ends := blank_entryTCP

def udp : Format TypeEntryUDP 100 where
  ofFile := TypeEntryUDP.ofFile
  entry := entryUDP
  blank i := { index := i }
  reads := consumes_entryUDP
  ends := blank_entryUDP

section Loop

variable {size : Nat} (F : Format α size) (emit : β → α → Except Fault β)

def Format.entriesFrom (counter : UInt64) (records : List (Record size)) : List α :=
  records.mapIdx (fun i r => F.entry (counter + UInt64.ofNat i) r.1)

/-- The entries a generator should put out. -/
def Format.entries (records : List (Record size)) : List α :=
  records.mapIdx (fun i r => F.entry (UInt64.ofNat i) r.1)

/-- The entries a generator puts out. -/
def Format.entriesAndBlank (records : List (Record size)) : List α :=
  F.entries records ++ [F.blank (UInt64.ofNat records.length)]

theorem loop_step {ofFile : UInt64 → Reader α} {c : UInt64} {e : α} {s t : IfStream}
    (hs : notEof s = true) (he : ofFile c s = .ok e t) (out : β) (n : Nat) :
    outcome (whileLoop .outOfFuel notEof (loopBody ofFile emit) (n + 1) (c, out)) s =
      emit out e >>= fun out' =>
        outcome (whileLoop .outOfFuel notEof (loopBody ofFile emit) n (c + 1, out')) t := by
  cases ho : emit out e with
  | ok out' =>
    have hround : loopBody ofFile emit (c, out) s = .ok (c + 1, out') t := by
      rw [loopBody, bind_ok he, ho]
      rfl
    rw [outcome, whileLoop_round hs hround]
    rfl
  | error f =>
    have hround : loopBody ofFile emit (c, out) s = .error f t := by
      rw [loopBody, bind_ok he, ho]
      rfl
    rw [outcome, whileLoop_error hs hround]
    rfl

theorem add_ofNat_succ (c : UInt64) (i : Nat) :
    c + UInt64.ofNat (i + 1) = c + 1 + UInt64.ofNat i := by
  rw [UInt64.ofNat_add, UInt64.add_assoc, UInt64.add_comm (UInt64.ofNat i)]
  rfl

theorem entriesFrom_cons (c : UInt64) (r : Record size) (records : List (Record size)) :
    F.entriesFrom c (r :: records) = F.entry c r.1 :: F.entriesFrom (c + 1) records := by
  rw [Format.entriesFrom, List.mapIdx_cons]
  simp only [add_ofNat_succ]
  rw [Format.entriesFrom, show UInt64.ofNat 0 = 0 from rfl, UInt64.add_zero]

/-- The end of the file is noticed by a read only: the loop puts out an entry for each record, and
one more. -/
theorem loop_outcome (records : List (Record size)) (c : UInt64) (out : β) {rounds : Nat}
    (h : records.length < rounds) :
    (outcome (whileLoop .outOfFuel notEof (loopBody F.ofFile emit) rounds (c, out))
      (file records)).map Prod.snd =
        (F.entriesFrom c records ++ [F.blank (c + UInt64.ofNat records.length)]).foldlM emit out := by
  obtain ⟨k, rfl⟩ := Nat.exists_eq_add_of_lt h
  clear h
  induction records generalizing c out with
  | nil =>
    have hread : F.ofFile c (file ([] : List (Record size))) = .ok (F.blank c) ended := F.ends c
    have hlast : c + UInt64.ofNat ([] : List (Record size)).length = c := UInt64.add_zero c
    rw [hlast, loop_step emit (by rfl) hread, except_map_bind]
    congr 1
    funext out'
    rw [outcome, whileLoop_exit (by rfl)]
    rfl
  | cons r records ih =>
    obtain ⟨e, t, hread, rfl, rfl⟩ := (F.reads c r.1 r.2 _).total
      (s := file (r :: records)) (by rw [file, List.flatMap_cons]; rfl)
    have hrounds : (r :: records).length + k + 1 = records.length + k + 1 + 1 := by
      rw [List.length_cons]
      omega
    have hlast : c + UInt64.ofNat (r :: records).length = c + 1 + UInt64.ofNat records.length := by
      rw [List.length_cons, add_ofNat_succ]
    rw [entriesFrom_cons, hlast, List.cons_append, List.foldlM_cons, hrounds,
      loop_step emit (by rfl) hread, except_map_bind]
    congr 1
    funext out'
    exact ih (c + 1) out'

theorem entriesFrom_zero (records : List (Record size)) :
    F.entriesFrom 0 records = F.entries records := by
  simp only [Format.entriesFrom, Format.entries, UInt64.zero_add]

theorem forEachEntry_outcome (records : List (Record size)) (out : β) {rounds : Nat}
    (h : records.length < rounds) :
    outcome (forEachEntry F.ofFile emit rounds out) (file records) =
      (F.entriesAndBlank records).foldlM emit out := by
  have hloop := loop_outcome F emit records 0 out h
  rw [UInt64.zero_add, entriesFrom_zero] at hloop
  rw [Format.entriesAndBlank, ← hloop, outcome, outcome, forEachEntry]
  cases hrun : whileLoop .outOfFuel notEof (loopBody F.ofFile emit) rounds (0, out) (file records) with
  | ok last t =>
    rw [bind_ok hrun]
    rfl
  | error f t =>
    rw [bind_error hrun]
    rfl

end Loop

def unlines : List String → String
  | [] => ""
  | line :: lines => line ++ "\n" ++ unlines lines

theorem unlines_append (ls ls' : List String) : unlines (ls ++ ls') = unlines ls ++ unlines ls' := by
  induction ls with
  | nil => rw [List.nil_append, unlines, String.empty_append]
  | cons l ls ih => simp only [List.cons_append, unlines, ih, String.append_assoc]

theorem length_unlines_snoc (ls : List String) (l : String) :
    (unlines ls).length < (unlines (ls ++ [l])).length := by
  rw [unlines_append, unlines, unlines, String.append_empty]
  simp only [String.length_append]
  have hnewline : "\n".length = 1 := rfl
  omega

theorem foldlM_emitLine (line : α → Except Fault String) (es : List α) (out : String) :
    es.foldlM (emitLine line) out = (es.mapM line).map (fun ls => out ++ unlines ls) := by
  induction es generalizing out with
  | nil => simp [unlines, Except.map, pure, Except.pure]
  | cons e es ih =>
    rw [List.foldlM_cons, List.mapM_cons, emitLine]
    cases line e with
    | error f => rfl
    | ok l =>
      change es.foldlM (emitLine line) (out ++ (l ++ "\n")) = _
      rw [ih]
      cases es.mapM line with
      | error f => rfl
      | ok ls =>
        change Except.ok (out ++ (l ++ "\n") ++ unlines ls) = Except.ok (out ++ (l ++ "\n" ++ unlines ls))
        rw [String.append_assoc]

def rowTables (es : List TypeEntryTCP) : String × String × String :=
  (unlines (es.map TypeEntryTCP.getEnumLine), unlines (es.map TypeEntryTCP.getEnumTypeFlagLine),
    unlines (es.map TypeEntryTCP.getEnumTextLine))

theorem foldlM_emitRows (es : List TypeEntryTCP) (a b c : String) :
    es.foldlM emitRows (a, b, c) =
      .ok (a ++ (rowTables es).1, b ++ (rowTables es).2.1, c ++ (rowTables es).2.2) := by
  induction es generalizing a b c with
  | nil =>
    rw [List.foldlM_nil]
    simp only [rowTables, List.map_nil, unlines, String.append_empty]
    rfl
  | cons e es ih =>
    rw [List.foldlM_cons]
    change es.foldlM emitRows (a ++ (e.getEnumLine ++ "\n"), b ++ (e.getEnumTypeFlagLine ++ "\n"),
      c ++ (e.getEnumTextLine ++ "\n")) = _
    rw [ih]
    simp only [rowTables, List.map_cons, unlines, String.append_assoc]

/-- With enough rounds the generator puts out the text. -/
def Generates (generate : Nat → Reader String) (s : IfStream) (text : String) : Prop :=
  ∃ enough, ∀ rounds, enough ≤ rounds → outcome (generate rounds) s = .ok text

def headerText (es : List TypeEntryTCP) : String :=
  outFile (enumValueBegin ++ (rowTables es).1) (enumTypeFlagBegin ++ (rowTables es).2.1)
    (enumTextBegin ++ (rowTables es).2.2)

/-- The header file has exactly the rows of the records. -/
def HeaderExact (records : List (Record 104)) : Prop :=
  Generates generateTcpHeaderFile (file records) (headerText (tcp.entries records))

/-- What is printed are exactly the lines of the records. -/
def LinesExact {size : Nat} (F : Format α size) (line : α → Except Fault String) (generate : Nat → Reader String)
    (records : List (Record size)) : Prop :=
  ∃ ls, (F.entries records).mapM line = .ok ls ∧ Generates generate (file records) (unlines ls)

def CsvExact (records : List (Record 104)) : Prop :=
  LinesExact tcp TypeEntryTCP.getCsvLine generateTcpCsv records

def ReadableExact (records : List (Record 104)) : Prop :=
  LinesExact tcp TypeEntryTCP.getLineTxt generateTcpReadable records

def UdpExact (records : List (Record 100)) : Prop :=
  LinesExact udp (fun e => .ok e.getLine) generateUdpReadable records

theorem header_outcome (records : List (Record 104)) {rounds : Nat} (h : records.length < rounds) :
    outcome (generateTcpHeaderFile rounds) (file records) =
      .ok (headerText (tcp.entriesAndBlank records)) := by
  have hloop := forEachEntry_outcome tcp emitRows records
    (enumValueBegin, enumTypeFlagBegin, enumTextBegin) h
  rw [foldlM_emitRows, outcome] at hloop
  change outcome (forEachEntry tcp.ofFile emitRows rounds
    (enumValueBegin, enumTypeFlagBegin, enumTextBegin) >>= _) (file records) = _
  cases hrun : forEachEntry tcp.ofFile emitRows rounds
      (enumValueBegin, enumTypeFlagBegin, enumTextBegin) (file records) with
  | ok tables t =>
    rw [hrun] at hloop
    cases hloop
    rw [outcome, bind_ok hrun]
    rfl
  | error f t =>
    rw [hrun] at hloop
    cases hloop

theorem header_generated (records : List (Record 104)) :
    Generates generateTcpHeaderFile (file records) (headerText (tcp.entriesAndBlank records)) :=
  ⟨records.length + 1, fun _ h => header_outcome records h⟩

theorem Generates.unique {generate : Nat → Reader String} {s : IfStream} {text text' : String}
    (h : Generates generate s text) (h' : Generates generate s text') : text = text' := by
  obtain ⟨n, hn⟩ := h
  obtain ⟨k, hk⟩ := h'
  have heq := (hn (max n k) (Nat.le_max_left n k)).symm.trans (hk (max n k) (Nat.le_max_right n k))
  exact Except.ok.inj heq

theorem outFile_parts : ∃ start afterValue afterFlag stop, ∀ a b c,
    outFile a b c = start ++ a ++ afterValue ++ b ++ afterFlag ++ c ++ stop := by
  refine ⟨outFileBegin ++ generateEnum, "\x7d;" ++ "\n\n", "\x7d;" ++ "\n\n",
    "\x7d;" ++ "\n\n" ++ "#endif // ENUM_DATA_TYPES_HPP\n", fun a b c => ?_⟩
  simp only [outFile, ← String.append_assoc]

theorem length_outFile {a b c a' b' c' : String} (ha : a.length < a'.length)
    (hb : b.length < b'.length) (hc : c.length < c'.length) :
    (outFile a b c).length < (outFile a' b' c').length := by
  obtain ⟨start, afterValue, afterFlag, stop, hparts⟩ := outFile_parts
  simp only [hparts, String.length_append]
  omega

theorem length_append_lt (a : String) {b c : String} (h : b.length < c.length) :
    (a ++ b).length < (a ++ c).length := by
  rw [String.length_append, String.length_append]
  gcongr

theorem length_rows_snoc (row : α → String) (es : List α) (e : α) :
    (unlines (es.map row)).length < (unlines ((es ++ [e]).map row)).length := by
  rw [List.map_append]
  exact length_unlines_snoc _ _

theorem not_headerExact (records : List (Record 104)) : ¬ HeaderExact records := by
  intro h
  have htext : headerText (tcp.entries records) = headerText (tcp.entriesAndBlank records) :=
    h.unique (header_generated records)
  have hlen : (headerText (tcp.entries records)).length <
      (headerText (tcp.entriesAndBlank records)).length := by
    apply length_outFile
    · exact length_append_lt _ (length_rows_snoc _ _ _)
    · exact length_append_lt _ (length_rows_snoc _ _ _)
    · exact length_append_lt _ (length_rows_snoc _ _ _)
  rw [htext] at hlen
  exact lt_irrefl _ hlen

/-- A generator that prints lines prints one for each record, and one more. -/
theorem lines_generated {size : Nat} (F : Format α size) (line : α → Except Fault String)
    (records : List (Record size)) {ls : List String}
    (hls : (F.entriesAndBlank records).mapM line = .ok ls) :
    Generates (fun rounds => forEachEntry F.ofFile (emitLine line) rounds "") (file records)
      (unlines ls) := by
  refine ⟨records.length + 1, fun rounds h => ?_⟩
  rw [forEachEntry_outcome F (emitLine line) records "" h, foldlM_emitLine, hls]
  change Except.ok ("" ++ unlines ls) = Except.ok (unlines ls)
  rw [String.empty_append]

theorem not_linesExact {size : Nat} (F : Format α size) (line : α → Except Fault String)
    (records : List (Record size)) :
    ¬ LinesExact F line (fun rounds => forEachEntry F.ofFile (emitLine line) rounds "") records := by
  rintro ⟨ls, hls, enough, hgen⟩
  have hrun := hgen (max enough (records.length + 1)) (Nat.le_max_left _ _)
  rw [forEachEntry_outcome F (emitLine line) records "" (Nat.le_max_right _ _), foldlM_emitLine,
    Format.entriesAndBlank, List.mapM_append, hls, List.mapM_cons] at hrun
  cases hblank : line (F.blank (UInt64.ofNat records.length)) with
  | ok l =>
    rw [hblank] at hrun
    have htext : "" ++ unlines (ls ++ [l]) = unlines ls := Except.ok.inj hrun
    have hlen := length_unlines_snoc ls l
    rw [String.empty_append] at htext
    rw [htext] at hlen
    exact lt_irrefl _ hlen
  | error f =>
    rw [hblank] at hrun
    cases hrun

/-- No file of whole records is put out by any generator as it is. -/
theorem never_exact (tcpRecords : List (Record 104)) (udpRecords : List (Record 100)) :
    ¬ HeaderExact tcpRecords ∧ ¬ CsvExact tcpRecords ∧ ¬ ReadableExact tcpRecords ∧
      ¬ UdpExact udpRecords :=
  ⟨not_headerExact tcpRecords, not_linesExact tcp _ tcpRecords, not_linesExact tcp _ tcpRecords,
    not_linesExact udp _ udpRecords⟩

/-- The empty file has no records, and the header made of it one row in each table. -/
theorem some_row_added : ¬ ∀ (tcpRecords : List (Record 104)) (udpRecords : List (Record 100)),
    HeaderExact tcpRecords ∧ CsvExact tcpRecords ∧ ReadableExact tcpRecords ∧
      UdpExact udpRecords := by
  intro h
  exact not_headerExact [] (h [] []).1

end GlobalAgenda.ExtraRow
