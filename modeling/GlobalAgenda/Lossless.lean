import GlobalAgenda.AnyFile
import GlobalAgenda.Base.Codes

namespace GlobalAgenda.Lossless

open Base.Triples Base.Codes DataTypeParser ExtraRow AnyFile

section Numerals

def digit (c : Char) : Nat := if c.toNat < 65 then c.toNat - 48 else c.toNat - 55

def hexValue (cs : List Char) : Nat := cs.foldl (fun val c => 16 * val + digit c) 0

theorem digit_toUpper : ∀ d < 16, digit d.digitChar.toUpper = d := by decide

theorem toDigits_mem {val : Nat} {c : Char} (h : c ∈ Nat.toDigits 16 val) :
    ∃ d < 16, c = d.digitChar := by
  induction val using Nat.strong_induction_on with
  | _ val ih =>
    rw [Nat.toDigits_eq_if (by norm_num)] at h
    by_cases hlt : val < 16
    · rw [if_pos hlt, List.mem_singleton] at h
      exact ⟨val, hlt, h⟩
    · rw [if_neg hlt, List.mem_append, List.mem_singleton] at h
      obtain h | rfl := h
      · exact ih (val / 16) (by omega) h
      · exact ⟨val % 16, by omega, rfl⟩

theorem hexValue_toDigits (val : Nat) : hexValue ((Nat.toDigits 16 val).map Char.toUpper) = val := by
  induction val using Nat.strong_induction_on with
  | _ val ih =>
    rw [Nat.toDigits_eq_if (by norm_num)]
    by_cases hlt : val < 16
    · rw [if_pos hlt, hexValue, List.map_singleton, List.foldl_cons, List.foldl_nil,
        digit_toUpper val hlt, Nat.mul_zero, Nat.zero_add]
    · have hhead := ih (val / 16) (by omega)
      rw [hexValue] at hhead
      rw [if_neg hlt, hexValue, List.map_append, List.foldl_append, hhead, List.map_singleton,
        List.foldl_cons, List.foldl_nil, digit_toUpper _ (by omega)]
      omega

theorem hexValue_leftpad (width : Nat) (cs : List Char) :
    hexValue (cs.leftpad width '0') = hexValue cs := by
  have hzeros : ∀ n, (List.replicate n '0').foldl (fun val c => 16 * val + digit c) 0 = 0 := by
    intro n
    induction n with
    | zero => rfl
    | succ n ih =>
      rw [List.replicate_succ, List.foldl_cons]
      exact ih
  rw [List.leftpad, hexValue, List.foldl_append, hzeros, hexValue]

theorem toHex_chars (val width : Nat) : (toHex val width).toList =
    '0' :: 'x' :: ((Nat.toDigits 16 val).map Char.toUpper).leftpad width '0' := by
  simp only [toHex, String.toList_append, String.toList_ofList]
  rfl

theorem toHex_injective {val val' width : Nat} (h : (toHex val width).toList = (toHex val' width).toList) :
    val = val' := by
  rw [toHex_chars, toHex_chars] at h
  have hvalue := congrArg hexValue (List.cons.inj (List.cons.inj h).2).2
  rwa [hexValue_leftpad, hexValue_leftpad, hexValue_toDigits, hexValue_toDigits] at hvalue

theorem toHex_mem {val width : Nat} {c : Char} (h : c ∈ (toHex val width).toList) :
    c ∈ ['x', '0', '1', '2', '3', '4', '5', '6', '7', '8', '9', 'A', 'B', 'C', 'D', 'E', 'F'] := by
  have hdigits : ∀ d < 16, d.digitChar.toUpper ∈
      ['x', '0', '1', '2', '3', '4', '5', '6', '7', '8', '9', 'A', 'B', 'C', 'D', 'E', 'F'] := by
    decide
  rw [toHex_chars, List.mem_cons, List.mem_cons, List.leftpad, List.mem_append,
    List.mem_replicate, List.mem_map] at h
  obtain rfl | rfl | ⟨_, rfl⟩ | ⟨d, hd, rfl⟩ := h
  · decide
  · decide
  · decide
  · obtain ⟨d, hlt, rfl⟩ := toDigits_mem hd
    exact hdigits d hlt

theorem toHex_ends (val width : Nat) :
    ',' ∉ (toHex val width).toList ∧ '\n' ∉ (toHex val width).toList :=
  ⟨fun h => absurd (toHex_mem h) (by decide), fun h => absurd (toHex_mem h) (by decide)⟩

end Numerals

section Lines

/-- A line of a table: it begins with a tab. -/
def IsRow (l : String) : Prop := '\n' ∉ l.toList ∧ ∃ cs, l.toList = '\t' :: cs

def line (l : String) : List Char := l.toList ++ ['\n']

theorem unlines_chars (ls : List String) : (unlines ls).toList = ls.flatMap line := by
  induction ls with
  | nil => rfl
  | cons l ls ih =>
    rw [unlines, String.toList_append, String.toList_append, ih, List.flatMap_cons]
    rfl

theorem prefixFree_line : PrefixFree (fun l : String => '\n' ∉ l.toList) line :=
  .delimited '\n' (fun _ hl => hl) (fun _ _ _ _ h => String.toList_inj.mp h)

def table (ls : List String) : List Char := (unlines ls).toList ++ ['}']

theorem prefixFree_table : PrefixFree (fun ls : List String => ∀ l ∈ ls, IsRow l) table := by
  have hlines : PrefixFree IsRow line := prefixFree_line.mono (fun _ hl => hl.1)
  have hrows := hlines.terminated '}' (by
    rintro l ⟨_, cs, hcs⟩
    exact ⟨'\t', cs ++ ['\n'], by rw [line, hcs]; rfl, by decide⟩)
  have htable : table = fun ls => ls.flatMap line ++ ['}'] := by
    funext ls
    rw [table, unlines_chars]
  rw [htable]
  exact hrows

theorem outFile_chars : ∃ s₀ s₁ s₂ s₃, ∀ a b c : List String,
    (outFile (enumValueBegin ++ unlines a) (enumTypeFlagBegin ++ unlines b)
      (enumTextBegin ++ unlines c)).toList =
        s₀ ++ (table a ++ (s₁ ++ (table b ++ (s₂ ++ (table c ++ s₃))))) := by
  refine ⟨(outFileBegin ++ generateEnum ++ enumValueBegin).toList,
    (";" ++ "\n\n" ++ enumTypeFlagBegin).toList, (";" ++ "\n\n" ++ enumTextBegin).toList,
    (";" ++ "\n\n" ++ "#endif // ENUM_DATA_TYPES_HPP\n").toList, fun a b c => ?_⟩
  have hend : ("\x7d;" : String) = "\x7d" ++ ";" := rfl
  have hbrace : ("\x7d" : String).toList = ['}'] := rfl
  simp only [outFile, table, hend, String.toList_append, List.append_assoc, hbrace]

theorem tables_eq {a b c a' b' c' : List String} (ha : ∀ l ∈ a, IsRow l) (hb : ∀ l ∈ b, IsRow l)
    (hc : ∀ l ∈ c, IsRow l) (ha' : ∀ l ∈ a', IsRow l) (hb' : ∀ l ∈ b', IsRow l)
    (hc' : ∀ l ∈ c', IsRow l) (h : outFile (enumValueBegin ++ unlines a)
      (enumTypeFlagBegin ++ unlines b) (enumTextBegin ++ unlines c) =
        outFile (enumValueBegin ++ unlines a') (enumTypeFlagBegin ++ unlines b')
          (enumTextBegin ++ unlines c')) : a = a' ∧ b = b' ∧ c = c' := by
  obtain ⟨s₀, s₁, s₂, s₃, hchars⟩ := outFile_chars
  have htext := congrArg String.toList h
  rw [hchars, hchars] at htext
  obtain ⟨hvalue, hafter⟩ := prefixFree_table a a' _ _ ha ha' (List.append_cancel_left htext)
  obtain ⟨hflag, hlast⟩ := prefixFree_table b b' _ _ hb hb' (List.append_cancel_left hafter)
  obtain ⟨hname, _⟩ := prefixFree_table c c' _ _ hc hc' (List.append_cancel_left hlast)
  exact ⟨hvalue, hflag, hname⟩

end Lines

section Rows

theorem prefixFree_hex (width : Nat) :
    PrefixFree (fun _ => True) (fun val => (toHex val width).toList ++ [',']) :=
  .delimited ',' (fun val _ => (toHex_ends val width).1) (fun _ _ _ _ h => toHex_injective h)

/-- What the header keeps of an entry. -/
def kept (e : TypeEntryTCP) : String × UInt32 × UInt16 := (e.name, e.type, e.flag1)

theorem getEnumTextLine_inj {e e' : TypeEntryTCP} (h : e.getEnumTextLine = e'.getEnumTextLine) :
    e.name = e'.name := by
  have hchars := congrArg String.toList h
  simp only [TypeEntryTCP.getEnumTextLine, String.toList_append, List.append_assoc] at hchars
  exact String.toList_inj.mp (List.append_cancel_right (List.append_cancel_left hchars))

theorem getEnumTypeFlagLine_inj {e e' : TypeEntryTCP}
    (h : e.getEnumTypeFlagLine = e'.getEnumTypeFlagLine) : e.type = e'.type ∧ e.flag1 = e'.flag1 := by
  have hcomma : (", " : String).toList = [','] ++ [' '] := rfl
  have hchars := congrArg String.toList h
  simp only [TypeEntryTCP.getEnumTypeFlagLine, String.toList_append, List.append_assoc, hcomma] at hchars
  have htail := List.append_cancel_left hchars
  rw [← List.append_assoc, ← List.append_assoc (toHex e'.type.toNat 2).toList] at htail
  obtain ⟨htype, htail⟩ := prefixFree_hex 2 _ _ _ _ trivial trivial htail
  have hflag := toHex_injective (List.append_cancel_right (List.append_cancel_left htail))
  exact ⟨UInt32.toNat_inj.mp htype, UInt16.toNat_inj.mp hflag⟩

theorem IsRow.of_chars {l : String} (cs : List Char) (h : l.toList = '\t' :: cs) (hcs : '\n' ∉ cs) :
    IsRow l := by
  refine ⟨?_, cs, h⟩
  rw [h, List.mem_cons, not_or]
  exact ⟨by decide, hcs⟩

theorem getEnumLine_isRow {e : TypeEntryTCP} (h : '\n' ∉ e.name.toList) : IsRow e.getEnumLine := by
  apply IsRow.of_chars (e.name ++ " = " ++ toHex e.index.toNat 4 ++ ",").toList
  · simp only [TypeEntryTCP.getEnumLine, String.toList_append]
    rfl
  · simp [String.toList_append, h, (toHex_ends e.index.toNat 4).2]

theorem getEnumTypeFlagLine_isRow (e : TypeEntryTCP) : IsRow e.getEnumTypeFlagLine := by
  apply IsRow.of_chars ("\x7b" ++ toHex e.type.toNat 2 ++ ", " ++ toHex e.flag1.toNat 4 ++
    "\x7d,").toList
  · simp only [TypeEntryTCP.getEnumTypeFlagLine, String.toList_append]
    rfl
  · simp [String.toList_append, (toHex_ends e.type.toNat 2).2, (toHex_ends e.flag1.toNat 4).2]

theorem getEnumTextLine_isRow {e : TypeEntryTCP} (h : '\n' ∉ e.name.toList) :
    IsRow e.getEnumTextLine := by
  apply IsRow.of_chars ("\"" ++ e.name ++ "\",").toList
  · simp only [TypeEntryTCP.getEnumTextLine, String.toList_append]
    rfl
  · simp [String.toList_append, h]

theorem map_eq_of_map {γ δ ε : Type} {f : γ → δ} {g : γ → ε} (hfg : ∀ a b, f a = f b → g a = g b)
    {as bs : List γ} (h : as.map f = bs.map f) : as.map g = bs.map g := by
  induction as generalizing bs with
  | nil => rw [List.map_eq_nil_iff.mp h.symm]
  | cons a as ih =>
    obtain ⟨b, bs, rfl, hb, hbs⟩ := List.map_eq_cons_iff.mp h.symm
    rw [List.map_cons, List.map_cons, hfg a b hb.symm, ih hbs.symm]

/-- Every name is written in one line. -/
def Plain (es : List TypeEntryTCP) : Prop := ∀ e ∈ es, '\n' ∉ e.name.toList

theorem headerText_inj {es es' : List TypeEntryTCP} (hes : Plain es) (hes' : Plain es')
    (h : headerText es = headerText es') : es.map kept = es'.map kept := by
  have hrows : ∀ {es : List TypeEntryTCP} {row : TypeEntryTCP → String},
      (∀ e ∈ es, IsRow (row e)) → ∀ l ∈ es.map row, IsRow l := by
    intro es row hrow l hl
    obtain ⟨e, he, rfl⟩ := List.mem_map.mp hl
    exact hrow e he
  obtain ⟨_, hflag, hname⟩ := tables_eq (hrows fun e he => getEnumLine_isRow (hes e he))
    (hrows fun e _ => getEnumTypeFlagLine_isRow e) (hrows fun e he => getEnumTextLine_isRow (hes e he))
    (hrows fun e he => getEnumLine_isRow (hes' e he)) (hrows fun e _ => getEnumTypeFlagLine_isRow e)
    (hrows fun e he => getEnumTextLine_isRow (hes' e he)) h
  have hboth := map_eq_of_map (g := fun e : TypeEntryTCP => (e.type, e.flag1))
    (fun a b hab => Prod.ext (getEnumTypeFlagLine_inj hab).1 (getEnumTypeFlagLine_inj hab).2) hflag
  have hnames := map_eq_of_map (g := TypeEntryTCP.name) (fun a b => getEnumTextLine_inj) hname
  have hzip : ∀ es : List TypeEntryTCP,
      es.map kept = (es.map TypeEntryTCP.name).zip (es.map (fun e => (e.type, e.flag1))) := by
    intro es
    rw [List.zip_map']
    rfl
  rw [hzip, hzip, hboth, hnames]

/-- Files of which the same header is generated have the same names, types and first flags. -/
theorem header_lossless {bs bs' : List UInt8} (hbs : Plain (tcpLayout.entries bs))
    (hbs' : Plain (tcpLayout.entries bs')) {text : String}
    (h : Generates generateTcpHeaderFile (opened bs) text)
    (h' : Generates generateTcpHeaderFile (opened bs') text) :
    (tcpLayout.entries bs).map kept = (tcpLayout.entries bs').map kept := by
  have hsame : ∀ {bs : List UInt8}, Generates generateTcpHeaderFile (opened bs) text →
      text = headerText (tcpLayout.entries bs) := by
    intro bs hgen
    exact hgen.unique ⟨bs.length / tcpLayout.size + 1, fun _ h => header_after bs h⟩
  exact headerText_inj hbs hbs' ((hsame h).symm.trans (hsame h'))

/-- A record of a text, with so much of a name as is given. -/
def named (flag2 : UInt8) (name : List UInt8) : List UInt8 :=
  [2, 0, flag2, 0, 0, 0, 0, 0] ++ name.takeD 96 0

theorem flags_lossless :
    (tcpLayout.entries (named 0 [0x41, 0x42] ++ named 0 [0x43])).map kept =
      (tcpLayout.entries (named 0 [0x41, 0x42] ++ named 1 [0x43])).map kept := by
  let bs (flag2 : UInt8) : List UInt8 := named 0 [0x41, 0x42] ++ named flag2 [0x43]
  have hplain : ∀ flag2, flag2 = 0 ∨ flag2 = 1 → Plain (tcpLayout.entries (bs flag2)) := by
    rintro flag2 (rfl | rfl)
    · unfold Plain
      decide +kernel
    · unfold Plain
      decide +kernel
  have htext : headerText (tcpLayout.entries (bs 0)) = headerText (tcpLayout.entries (bs 1)) := by
    decide +kernel
  have hgen : ∀ bs, Generates generateTcpHeaderFile (opened bs) (headerText (tcpLayout.entries bs)) :=
    fun bs => ⟨bs.length / tcpLayout.size + 1, fun _ h => header_after bs h⟩
  have hsecond : Generates generateTcpHeaderFile (opened (bs 1))
      (headerText (tcpLayout.entries (bs 0))) := by
    rw [htext]
    exact hgen (bs 1)
  exact header_lossless (hplain 0 (.inl rfl)) (hplain 1 (.inr rfl)) (hgen (bs 0)) hsecond

end Rows

section Csv

theorem prefixFree_decimal : PrefixFree (fun _ => True) (fun n : Nat => (toString n).toList ++ [',']) := by
  have hdigits : ∀ n : Nat, (toString n).toList = Nat.toDigits 10 n := by
    intro n
    rw [Nat.toString_eq_ofList_toDigits, String.toList_ofList]
  apply PrefixFree.delimited
  · intro n _ hcomma
    rw [hdigits] at hcomma
    exact absurd (Nat.isDigit_of_mem_toDigits (by norm_num) (by norm_num) hcomma) (by decide)
  · intro n n' _ _ h
    rw [hdigits, hdigits] at h
    have hvalue := congrArg (fun cs => Nat.ofDigitChars 10 cs 0) h
    simpa only [Nat.ofDigitChars_toDigits (b := 10) (by norm_num) (by norm_num)] using hvalue

theorem csvLine_chars {e : TypeEntryTCP} {l : String} (h : e.getCsvLine = .ok l) :
    ∃ text ∈ gTcpTextTypes, typeText e.type = .ok text ∧
      l.toList = ((toHex e.index.toNat 4).toList ++ [',']) ++ (((toHex e.flag1.toNat 4).toList ++ [',']) ++
        (((toHex e.flag2.toNat 4).toList ++ [',']) ++ (((toString e.type.toNat).toList ++ [',']) ++
          (e.name.toList ++ ([','] ++ text.toList))))) := by
  have hcomma : ("," : String).toList = [','] := rfl
  obtain ⟨text, htext, hl⟩ := except_bind_ok h
  cases hl
  refine ⟨text, ?_, htext, ?_⟩
  · rw [typeText] at htext
    cases hrow : gTcpTextTypes[e.type.toNat]? with
    | none =>
      rw [hrow] at htext
      cases htext
    | some row =>
      rw [hrow] at htext
      cases htext
      exact List.mem_of_getElem? hrow
  · simp only [String.toList_append, List.append_assoc, hcomma]

theorem getCsvLine_inj {e e' : TypeEntryTCP} {l : String} (h : e.getCsvLine = .ok l)
    (h' : e'.getCsvLine = .ok l) : e = e' := by
  obtain ⟨text, _, htext, hl⟩ := csvLine_chars h
  obtain ⟨text', _, htext', hl'⟩ := csvLine_chars h'
  rw [hl] at hl'
  obtain ⟨hindex, hl'⟩ := prefixFree_hex 4 _ _ _ _ trivial trivial hl'
  obtain ⟨hflag1, hl'⟩ := prefixFree_hex 4 _ _ _ _ trivial trivial hl'
  obtain ⟨hflag2, hl'⟩ := prefixFree_hex 4 _ _ _ _ trivial trivial hl'
  obtain ⟨htype, hrest⟩ := prefixFree_decimal _ _ _ _ trivial trivial hl'
  have htypes : e.type = e'.type := UInt32.toNat_inj.mp htype
  rw [htypes, htext'] at htext
  cases htext
  have hname : e.name = e'.name := String.toList_inj.mp (List.append_cancel_right hrest)
  cases e
  cases e'
  cases UInt64.toNat_inj.mp hindex
  cases UInt16.toNat_inj.mp hflag1
  cases UInt16.toNat_inj.mp hflag2
  cases htypes
  cases hname
  rfl

theorem csvLine_plain {e : TypeEntryTCP} {l : String} (he : '\n' ∉ e.name.toList)
    (h : e.getCsvLine = .ok l) : '\n' ∉ l.toList := by
  have htexts : ∀ text ∈ gTcpTextTypes, '\n' ∉ text.toList := by decide +kernel
  have hnumber : '\n' ∉ Nat.toDigits 10 e.type.toNat := fun hmem =>
    absurd (Nat.isDigit_of_mem_toDigits (by norm_num) (by norm_num) hmem) (by decide)
  obtain ⟨text, htext, _, hl⟩ := csvLine_chars h
  simp [hl, he, hnumber, htexts text htext, (toHex_ends e.index.toNat 4).2,
    (toHex_ends e.flag1.toNat 4).2, (toHex_ends e.flag2.toNat 4).2]

theorem mapM_forall₂ {α : Type} {f : α → Except Fault String} {es : List α} {ls : List String}
    (h : es.mapM f = .ok ls) : List.Forall₂ (fun e l => f e = .ok l) es ls := by
  induction es generalizing ls with
  | nil =>
    cases h
    exact .nil
  | cons e es ih =>
    rw [List.mapM_cons] at h
    obtain ⟨l, hl, h⟩ := except_bind_ok h
    obtain ⟨ls', hls, h⟩ := except_bind_ok h
    cases h
    exact .cons hl (ih hls)

theorem unlines_inj {ls ls' : List String} (h : ∀ l ∈ ls, '\n' ∉ l.toList)
    (h' : ∀ l ∈ ls', '\n' ∉ l.toList) (heq : unlines ls = unlines ls') : ls = ls' := by
  have hchars := congrArg String.toList heq
  rw [unlines_chars, unlines_chars] at hchars
  exact prefixFree_line.stream (fun l _ => by simp [line]) h h' hchars

theorem csv_lines {bs : List UInt8} {text : String} (h : Generates generateTcpCsv (opened bs) text) :
    ∃ ls, (tcpLayout.entries bs).mapM TypeEntryTCP.getCsvLine = .ok ls ∧ text = unlines ls := by
  obtain ⟨enough, hgen⟩ := h
  have hrun := hgen (max enough (bs.length / tcpLayout.size + 1)) (Nat.le_max_left _ _)
  exact except_map_ok ((lines_any_file tcpLayout TypeEntryTCP.getCsvLine bs
    (Nat.le_max_right _ _)).symm.trans hrun)

/-- Files for which the same table is printed have the same entries. -/
theorem csv_lossless {bs bs' : List UInt8} (hbs : Plain (tcpLayout.entries bs))
    (hbs' : Plain (tcpLayout.entries bs')) {text : String}
    (h : Generates generateTcpCsv (opened bs) text) (h' : Generates generateTcpCsv (opened bs') text) :
    tcpLayout.entries bs = tcpLayout.entries bs' := by
  have hplain : ∀ {es : List TypeEntryTCP} {ls : List String}, Plain es →
      List.Forall₂ (fun e l => e.getCsvLine = .ok l) es ls → ∀ l ∈ ls, '\n' ∉ l.toList := by
    intro es ls hes hlines
    induction hlines with
    | nil => simp
    | cons hel _ ih =>
      obtain ⟨he, hes⟩ := List.forall_mem_cons.mp hes
      exact List.forall_mem_cons.mpr ⟨csvLine_plain he hel, ih hes⟩
  obtain ⟨ls, hls, hunlines⟩ := csv_lines h
  obtain ⟨ls', hls', hunlines'⟩ := csv_lines h'
  have hlines := mapM_forall₂ hls
  have hlines' := mapM_forall₂ hls'
  obtain rfl := unlines_inj (hplain hbs hlines) (hplain hbs' hlines') (hunlines.symm.trans hunlines')
  have hunique : Relator.LeftUnique (fun (e : TypeEntryTCP) l => e.getCsvLine = .ok l) :=
    fun _ _ _ => getCsvLine_inj
  exact List.left_unique_forall₂' hunique hlines hlines'

theorem zeros_lossless : tcpLayout.entries (named 0 [0x41, 0, 0x42]) =
    tcpLayout.entries (named 0 [0x41, 0x42]) := by
  let names : List (List UInt8) := [[0x41, 0, 0x42], [0x41, 0x42]]
  have hplain : ∀ name ∈ names, Plain (tcpLayout.entries (named 0 name)) := by
    unfold Plain
    decide +kernel
  have hlines : ∀ name ∈ names,
      ((tcpLayout.entries (named 0 name)).mapM TypeEntryTCP.getCsvLine).map unlines =
        .ok "0x0000,0x0002,0x0000,0,AB,TYPE_TCP_WCHAR_STR\n0x0001,0x0000,0x0000,0,,TYPE_TCP_WCHAR_STR\n" := by
    decide +kernel
  have hprint : ∀ name ∈ names, Generates generateTcpCsv (opened (named 0 name))
      "0x0000,0x0002,0x0000,0,AB,TYPE_TCP_WCHAR_STR\n0x0001,0x0000,0x0000,0,,TYPE_TCP_WCHAR_STR\n" :=
    fun name hname => ⟨(named 0 name).length / tcpLayout.size + 1, fun _ h =>
      (lines_any_file tcpLayout TypeEntryTCP.getCsvLine _ h).trans (hlines name hname)⟩
  exact csv_lossless (hplain _ (by decide)) (hplain _ (by decide)) (hprint _ (by decide))
    (hprint _ (by decide))

end Csv

end GlobalAgenda.Lossless
