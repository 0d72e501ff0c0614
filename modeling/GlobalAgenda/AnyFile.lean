import GlobalAgenda.ExtraRow

namespace GlobalAgenda.AnyFile

open Base.LittleEndian Base.Triples Base.WhileLoop DataTypeParser ExtraRow

variable {α β : Type}

/-- The stream of a file after reads of `k` bytes altogether. -/
def after (k : Nat) (bs : List UInt8) : IfStream :=
  if k ≤ bs.length then opened (bs.drop k) else ended

theorem after_zero (bs : List UInt8) : after 0 bs = opened bs := if_pos (Nat.zero_le _)

theorem read_after {count : Nat} (hcount : 0 < count) (k : Nat) (bs target : List UInt8)
    (htarget : target.length = count) : IfStream.read count target (after k bs) =
      .ok ((bs.drop k).take count ++ target.drop (bs.drop k).length) (after (k + count) bs) := by
  by_cases hk : k ≤ bs.length
  · rw [after, if_pos hk]
    by_cases hle : k + count ≤ bs.length
    · have hrest : count ≤ (bs.drop k).length := by
        rw [List.length_drop]
        omega
      rw [after, if_pos hle, List.drop_eq_nil_of_le (htarget.le.trans hrest), List.append_nil,
        ← List.drop_drop]
      simp only [IfStream.read, opened, Bool.or_self, Bool.false_eq_true, ↓reduceIte, hrest]
    · have hrest : ¬ count ≤ (bs.drop k).length := by
        rw [List.length_drop]
        omega
      rw [after, if_neg hle, List.take_of_length_le (Nat.not_le.mp hrest).le]
      simp only [IfStream.read, opened, Bool.or_self, Bool.false_eq_true, ↓reduceIte, hrest, ended]
  · have hnil : bs.drop k = [] := List.drop_eq_nil_of_le (Nat.not_le.mp hk).le
    rw [after, if_neg hk, after, if_neg (by omega), hnil, List.take_nil]
    rfl

theorem take_bytes_zero (w : Nat) (ws : List UInt8) :
    ws.take w ++ (bytes w 0).drop ws.length = ws.takeD w 0 := by
  induction w generalizing ws with
  | zero => rw [bytes, List.take_zero, List.drop_nil]; rfl
  | succ w ih =>
    cases ws with
    | nil =>
      have hrest := ih []
      rw [List.take_nil, List.nil_append, List.length_nil, List.drop_zero] at hrest ⊢
      exact congrArg (0 :: ·) hrest
    | cons b ws => exact congrArg (b :: ·) (ih ws)

theorem read_integer {w : Nat} (hw : 0 < w) (k : Nat) (bs : List UInt8) :
    IfStream.read w (bytes w 0) (after k bs) = .ok ((bs.drop k).takeD w 0) (after (k + w) bs) := by
  rw [read_after hw k bs (bytes w 0) (length_bytes w 0), take_bytes_zero]

theorem readUint16_after (k : Nat) (bs : List UInt8) : readUint16 0 (after k bs) =
    .ok (UInt16.ofNat (value ((bs.drop k).takeD 2 0))) (after (k + 2) bs) :=
  bind_ok (read_integer (by norm_num) k bs)

theorem readUint32_after (k : Nat) (bs : List UInt8) : readUint32 0 (after k bs) =
    .ok (UInt32.ofNat (value ((bs.drop k).takeD 4 0))) (after (k + 4) bs) :=
  bind_ok (read_integer (by norm_num) k bs)

theorem readChar_after (temp : UInt8) (k : Nat) (bs : List UInt8) :
    readChar temp (after k bs) = .ok ((bs.drop k).headD temp) (after (k + 1) bs) := by
  rw [readChar, bind_ok (read_after Nat.one_pos k bs [temp] rfl)]
  cases bs.drop k with
  | nil => rfl
  | cons b rest => rfl

theorem takeD_cons_getLastD (n : Nat) (ws : List UInt8) (temp : UInt8) :
    ws.takeD (n + 1) (ws.getLastD temp) =
      ws.headD temp :: ws.tail.takeD n (ws.tail.getLastD (ws.headD temp)) := by
  cases ws with
  | nil => rfl
  | cons b ws =>
    rw [List.takeD_succ, List.getLastD_cons]
    rfl

theorem getStr_after (n : Nat) (temp : UInt8) (str : String) (k : Nat) (bs : List UInt8) :
    getStr n temp str (after k bs) =
      .ok ((((bs.drop k).takeD n ((bs.drop k).getLastD temp)).filter (· ≠ 0)).foldl append str)
        (after (k + n) bs) := by
  induction n generalizing temp str k with
  | zero => rfl
  | succ n ih =>
    have hrest := ih ((bs.drop k).headD temp)
      (if (bs.drop k).headD temp ≠ 0x00 then append str ((bs.drop k).headD temp) else str) (k + 1)
    rw [getStr, bind_ok (readChar_after temp k bs), hrest, takeD_cons_getLastD, List.tail_drop,
      Nat.add_assoc, Nat.add_comm 1, List.filter_cons]
    generalize (bs.drop k).headD temp = c
    by_cases hc : c = 0
    · simp only [hc, ne_eq, not_true_eq_false, decide_false, Bool.false_eq_true, ↓reduceIte]
    · simp only [hc, ne_eq, not_false_eq_true, decide_true, ↓reduceIte, List.foldl_cons]

/-- What a name is read from: where it breaks off, its last character is repeated. -/
def nameField (ws : List UInt8) : List UInt8 := ws.takeD 96 (ws.getLastD 0)

def arrivedTCP (index : UInt64) (ws : List UInt8) : TypeEntryTCP where
  index := index
  flag1 := UInt16.ofNat (value (ws.takeD 2 0))
  flag2 := UInt16.ofNat (value ((ws.drop 2).takeD 2 0))
  type := UInt32.ofNat (value ((ws.drop 4).takeD 4 0))
  name := nameOf (nameField (ws.drop 8))

def arrivedUDP (index : UInt64) (ws : List UInt8) : TypeEntryUDP where
  index := index
  name := nameOf (nameField ws)
  flags := UInt32.ofNat (value ((ws.drop 96).takeD 4 0))

theorem name_after (k : Nat) (bs : List UInt8) : getStr stringNameSize 0 "" (after k bs) =
    .ok (nameOf (nameField (bs.drop k))) (after (k + 96) bs) :=
  getStr_after 96 0 "" k bs

theorem ofFileTCP_after (i : UInt64) (bs : List UInt8) :
    TypeEntryTCP.ofFile i (after 0 bs) = .ok (arrivedTCP i bs) (after 104 bs) := by
  rw [TypeEntryTCP.ofFile, bind_ok (readUint16_after 0 bs), bind_ok (readUint16_after 2 bs),
    bind_ok (readUint32_after 4 bs), bind_ok (name_after 8 bs)]
  rfl

theorem ofFileUDP_after (i : UInt64) (bs : List UInt8) :
    TypeEntryUDP.ofFile i (after 0 bs) = .ok (arrivedUDP i bs) (after 100 bs) := by
  rw [TypeEntryUDP.ofFile, bind_ok (name_after 0 bs), bind_ok (readUint32_after 96 bs)]
  rfl

/-- How entries are read whatever remains of a file. -/
structure Layout (α : Type) where
  size : Nat
  pos : 0 < size
  ofFile : UInt64 → Reader α
  arrived : UInt64 → List UInt8 → α
  reads : ∀ i bs, ofFile i (after 0 bs) = .ok (arrived i bs) (after size bs)

def tcpLayout : Layout TypeEntryTCP :=
  ⟨104, by norm_num, TypeEntryTCP.ofFile, arrivedTCP, ofFileTCP_after⟩

def udpLayout : Layout TypeEntryUDP :=
  ⟨100, by norm_num, TypeEntryUDP.ofFile, arrivedUDP, ofFileUDP_after⟩

variable (L : Layout α) (emit : β → α → Except Fault β)

/-- The entries that are read from a file when the first has the given index: one for each whole
record, and one for what remains behind them. -/
def Layout.entriesFrom (c : UInt64) (bs : List UInt8) : List α :=
  (List.range (bs.length / L.size + 1)).map
    (fun i => L.arrived (c + UInt64.ofNat i) (bs.drop (L.size * i)))

def Layout.entries (bs : List UInt8) : List α := L.entriesFrom 0 bs

theorem entriesFrom_last {bs : List UInt8} (h : bs.length < L.size) (c : UInt64) :
    L.entriesFrom c bs = [L.arrived c bs] := by
  rw [Layout.entriesFrom, Nat.div_eq_of_lt h]
  simp

theorem entriesFrom_whole {bs : List UInt8} (h : L.size ≤ bs.length) (c : UInt64) :
    L.entriesFrom c bs = L.arrived c bs :: L.entriesFrom (c + 1) (bs.drop L.size) := by
  have hcount : bs.length / L.size = (bs.drop L.size).length / L.size + 1 := by
    rw [List.length_drop, Nat.div_eq_sub_div L.pos h]
  rw [Layout.entriesFrom, hcount, List.range_succ_eq_map, List.map_cons, List.map_map,
    Layout.entriesFrom]
  congr 1
  · simp
  · apply List.map_congr_left
    intro i _
    rw [Function.comp_apply, add_ofNat_succ, List.drop_drop, Nat.mul_succ, Nat.add_comm L.size]

theorem loop_any_file (bs : List UInt8) (c : UInt64) (out : β) {rounds : Nat}
    (h : bs.length / L.size < rounds) :
    (outcome (whileLoop .outOfFuel notEof (loopBody L.ofFile emit) rounds (c, out))
      (after 0 bs)).map Prod.snd = (L.entriesFrom c bs).foldlM emit out := by
  induction rounds generalizing bs c out with
  | zero => exact absurd h (Nat.not_lt_zero _)
  | succ rounds ih =>
    have hgoes : notEof (after 0 bs) = true := by
      rw [after_zero]
      rfl
    rw [loop_step emit hgoes (L.reads c bs), except_map_bind]
    by_cases hle : L.size ≤ bs.length
    · have hnext : after L.size bs = after 0 (bs.drop L.size) := by
        rw [after, if_pos hle, after_zero]
      have hrounds : (bs.drop L.size).length / L.size < rounds := by
        rw [Nat.div_eq_sub_div L.pos hle, ← List.length_drop] at h
        omega
      rw [entriesFrom_whole L hle, List.foldlM_cons, hnext]
      congr 1
      funext out'
      exact ih (bs.drop L.size) (c + 1) out' hrounds
    · have hend : after L.size bs = ended := if_neg hle
      rw [entriesFrom_last L (Nat.not_le.mp hle), List.foldlM_cons, hend]
      congr 1
      funext out'
      rw [outcome, whileLoop_exit (by rfl)]
      rfl

theorem forEachEntry_any_file (bs : List UInt8) (out : β) {rounds : Nat}
    (h : bs.length / L.size < rounds) : outcome (forEachEntry L.ofFile emit rounds out) (opened bs) =
      (L.entries bs).foldlM emit out := by
  rw [forEachEntry, outcome_bind_pure, ← after_zero, loop_any_file L emit bs 0 out h, Layout.entries]

theorem header_after (bs : List UInt8) {rounds : Nat} (h : bs.length / tcpLayout.size < rounds) :
    outcome (generateTcpHeaderFile rounds) (opened bs) = .ok (headerText (tcpLayout.entries bs)) := by
  have hloop := forEachEntry_any_file tcpLayout emitRows bs
    (enumValueBegin, enumTypeFlagBegin, enumTextBegin) h
  rw [foldlM_emitRows] at hloop
  change outcome (forEachEntry tcpLayout.ofFile emitRows rounds
    (enumValueBegin, enumTypeFlagBegin, enumTextBegin) >>= _) (opened bs) = _
  rw [outcome_bind_pure, hloop]
  rfl

/-- The header that is generated from any file has the rows of its entries, in their order. -/
theorem header_any_file (bs : List UInt8) :
    Generates generateTcpHeaderFile (opened bs) (headerText (tcpLayout.entries bs)) :=
  ⟨bs.length / tcpLayout.size + 1, fun _ h => header_after bs h⟩

theorem lines_any_file (line : α → Except Fault String) (bs : List UInt8) {rounds : Nat}
    (h : bs.length / L.size < rounds) :
    outcome (forEachEntry L.ofFile (emitLine line) rounds "") (opened bs) =
      ((L.entries bs).mapM line).map unlines := by
  rw [forEachEntry_any_file L (emitLine line) bs "" h, foldlM_emitLine]
  simp only [String.empty_append]

theorem mapM_ok_iff (line : α → Except Fault String) (es : List α) :
    (∃ ls, es.mapM line = .ok ls) ↔ ∀ e ∈ es, ∃ l, line e = .ok l := by
  induction es with
  | nil => exact iff_of_true ⟨[], rfl⟩ (by simp)
  | cons e es ih =>
    rw [List.forall_mem_cons, ← ih, List.mapM_cons]
    cases line e with
    | error f => exact iff_of_false (by rintro ⟨_, h⟩; cases h) (by rintro ⟨⟨_, h⟩, _⟩; cases h)
    | ok l =>
      constructor
      · rintro ⟨ls, h⟩
        change (es.mapM line >>= fun ls => pure (l :: ls)) = .ok ls at h
        obtain ⟨ls', hls, _⟩ := except_bind_ok h
        exact ⟨⟨l, rfl⟩, ls', hls⟩
      · rintro ⟨_, ls, hls⟩
        exact ⟨l :: ls, by rw [hls]; rfl⟩

theorem typeText_iff (type : UInt32) : (∃ text, typeText type = .ok text) ↔ type.toNat ≤ 10 := by
  have hlen : gTcpTextTypes.length = 11 := rfl
  rw [typeText]
  by_cases hle : type.toNat < gTcpTextTypes.length
  · rw [List.getElem?_eq_getElem hle]
    exact iff_of_true ⟨_, rfl⟩ (by omega)
  · rw [List.getElem?_eq_none (Nat.not_lt.mp hle)]
    exact iff_of_false (by rintro ⟨_, h⟩; cases h) (by omega)

theorem line_iff (f : String → String) (type : UInt32) :
    (∃ l, (typeText type >>= fun text => pure (f text)) = .ok l) ↔ type.toNat ≤ 10 := by
  rw [← typeText_iff]
  cases typeText type with
  | ok text => exact iff_of_true ⟨_, rfl⟩ ⟨_, rfl⟩
  | error f => exact iff_of_false (by rintro ⟨_, h⟩; cases h) (by rintro ⟨_, h⟩; cases h)

def Typed (bs : List UInt8) : Prop := ∀ e ∈ tcpLayout.entries bs, e.type.toNat ≤ 10

theorem mapM_text_iff (f : TypeEntryTCP → String → String) (bs : List UInt8) :
    (∃ ls, (tcpLayout.entries bs).mapM (fun e => do
      let text ← typeText e.type
      pure (f e text)) = .ok ls) ↔ Typed bs :=
  (mapM_ok_iff _ _).trans (forall₂_congr (fun e _ => line_iff (f e) e.type))

/-- With enough rounds a run ends normally. -/
def Defined (run : Nat → Except Fault Output) : Prop :=
  ∃ enough out, ∀ rounds, enough ≤ rounds → run rounds = .ok out

theorem defined_iff {run : Nat → Except Fault Output} {x : Except Fault Output} {n : Nat}
    (h : ∀ rounds, n < rounds → run rounds = x) : Defined run ↔ ∃ out, x = .ok out := by
  constructor
  · rintro ⟨enough, out, hrun⟩
    refine ⟨out, ?_⟩
    rw [← h (max enough (n + 1)) (Nat.le_max_right _ _)]
    exact hrun _ (Nat.le_max_left _ _)
  · rintro ⟨out, rfl⟩
    exact ⟨n + 1, out, h⟩

theorem map_ok_iff {γ δ ε : Type} {x : Except ε γ} {f : γ → δ} :
    (∃ b, x.map f = .ok b) ↔ ∃ a, x = .ok a := by
  cases x with
  | ok a => exact iff_of_true ⟨_, rfl⟩ ⟨_, rfl⟩
  | error e => exact iff_of_false (by rintro ⟨_, h⟩; cases h) (by rintro ⟨_, h⟩; cases h)

theorem defined_lines_iff {line : α → Except Fault String} {bs : List UInt8}
    {out : String → Output} : Defined (fun rounds =>
      (outcome (forEachEntry L.ofFile (emitLine line) rounds "") (opened bs)).map out) ↔
        ∃ ls, (L.entries bs).mapM line = .ok ls := by
  have hrun : ∀ rounds, bs.length / L.size < rounds →
      (outcome (forEachEntry L.ofFile (emitLine line) rounds "") (opened bs)).map out =
        (((L.entries bs).mapM line).map unlines).map out :=
    fun rounds h => congrArg (Except.map out) (lines_any_file L line bs h)
  rw [defined_iff hrun, map_ok_iff, map_ok_iff]

def PrintsTexts (argv : List String) : Prop :=
  argv.length = 3 ∧ (argv.getD 1 "" = "generate-tcp-csv" ∨ argv.getD 1 "" = "generate-tcp-readable")

theorem defined_const {run : Nat → Except Fault Output} (out : Output)
    (h : ∀ rounds, run rounds = .ok out) : Defined run := ⟨0, out, fun rounds _ => h rounds⟩

theorem dispatch_defined_iff (userCmd : String) (bs : List UInt8) :
    Defined (dispatch userCmd (opened bs)) ↔
      (userCmd = "generate-tcp-csv" ∨ userCmd = "generate-tcp-readable" → Typed bs) := by
  by_cases hheader : userCmd = "generate-tcp-header"
  · subst hheader
    refine iff_of_true ⟨bs.length / tcpLayout.size + 1,
      { outFile := some (headerText (tcpLayout.entries bs)) }, fun rounds h => ?_⟩
      (fun h => absurd h (by decide))
    exact congrArg (Except.map _) (header_after bs h)
  by_cases hcsv : userCmd = "generate-tcp-csv"
  · subst hcsv
    have hprints : Defined (dispatch "generate-tcp-csv" (opened bs)) ↔ Typed bs :=
      (defined_lines_iff tcpLayout).trans (mapM_text_iff _ bs)
    simpa using hprints
  by_cases hreadable : userCmd = "generate-tcp-readable"
  · subst hreadable
    have hprints : Defined (dispatch "generate-tcp-readable" (opened bs)) ↔ Typed bs :=
      (defined_lines_iff tcpLayout).trans (mapM_text_iff _ bs)
    simpa using hprints
  refine iff_of_true ?_ (fun h => absurd h (not_or.mpr ⟨hcsv, hreadable⟩))
  by_cases hudp : userCmd = "generate-udp-readable"
  · subst hudp
    exact (defined_lines_iff udpLayout).mpr ((mapM_ok_iff _ _).mpr (fun e _ => ⟨_, rfl⟩))
  · refine defined_const {} (fun rounds => ?_)
    rw [dispatch, if_neg (by exact hheader), if_neg (by exact hcsv), if_neg (by exact hreadable),
      if_neg (by exact hudp)]

/-- Whatever the command line and the file, the program ends, and it looks up only such texts as
there are exactly when no table is printed of a file with another type. -/
theorem main_defined_iff (argv : List String) (file : String → Option (List UInt8)) :
    Defined (main argv file) ↔
      (PrintsTexts argv → ∀ bs, file (argv.getD 2 "") = some bs → Typed bs) := by
  by_cases hargc : argv.length = 3
  · cases hfile : file (argv.getD 2 "") with
    | none =>
      refine iff_of_true (defined_const { stdout := "Error cannot open file\n" } (fun rounds => ?_))
        (fun _ _ h => absurd h nofun)
      rw [main, if_neg (not_not.mpr hargc), hfile]
    | some bs =>
      have hmain : main argv file = dispatch (argv.getD 1 "") (opened bs) := by
        funext rounds
        rw [main, if_neg (not_not.mpr hargc), hfile]
        rfl
      have hcond : (PrintsTexts argv → ∀ bs', some bs = some bs' → Typed bs') ↔
          (argv.getD 1 "" = "generate-tcp-csv" ∨ argv.getD 1 "" = "generate-tcp-readable" → Typed bs) :=
        ⟨fun h hcmd => h ⟨hargc, hcmd⟩ bs rfl, fun h hprints bs' heq => Option.some.inj heq ▸ h hprints.2⟩
      rw [hmain, dispatch_defined_iff, hcond]
  · refine iff_of_true (defined_const
      { stdout := "Please specify path to binary data types file\n" } (fun rounds => ?_))
      (fun h => absurd h.1 hargc)
    rw [main, if_pos hargc]

end GlobalAgenda.AnyFile
