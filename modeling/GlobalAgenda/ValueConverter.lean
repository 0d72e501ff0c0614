import GlobalAgenda.Base.LittleEndian
import GlobalAgenda.Base.Triples
import GlobalAgenda.EnumDataTypes

namespace GlobalAgenda

open EnumDataTypes Base.LittleEndian Base.Triples

/-- Everything that ends a run other than a normal return. A missing table row, a load outside
the memory and the use of an unset iterator are undefined behaviour in the source. -/
inductive Fault
  | exception (what : String)
  | missingRow (cmd : CmdCode)
  | missingText (cmd : CmdCode)
  | outOfRange (pos : Nat)
  | badIterator
  | outOfFuel
  deriving DecidableEq, Repr

/-- The cursor that all parsing constructors share. -/
structure Scan where
  it : Nat := 0
  deriving DecidableEq, Repr

/-- What a parsing constructor sees: the vector, whose length is the iterator `end`, the memory
after its last byte, and the tables. Memory that is `none` cannot be loaded. -/
structure Machine where
  input : List UInt8
  beyond : Nat → Option UInt8
  typeOf : CmdCode → Option Nat
  textRows : Nat

abbrev Decoder := EStateM Fault Scan

namespace Machine

/-- The server's tables, and memory that can be loaded at every address. -/
def server (input : List UInt8) (beyond : Nat → UInt8) : Machine :=
  ⟨input, fun i => some (beyond i), EnumDataTypes.typeOf, gCmdCodeTextRows⟩

/-- The server's tables, and nothing to load after the vector. -/
def strict (input : List UInt8) : Machine :=
  ⟨input, fun _ => none, EnumDataTypes.typeOf, gCmdCodeTextRows⟩

def load (m : Machine) (pos : Nat) : Option UInt8 :=
  if pos < m.input.length then m.input[pos]? else m.beyond (pos - m.input.length)

def fetch (m : Machine) : Nat → Nat → Except Fault (List UInt8)
  | _, 0 => .ok []
  | pos, n + 1 => match m.load pos with
    | none => .error (.outOfRange pos)
    | some b => (m.fetch (pos + 1) n).map (b :: ·)

end Machine

namespace ValueConverter

def cursor : Decoder Nat := fun s => .ok s.it s

theorem cursor_run (s : Scan) : cursor s = .ok s.it s := rfl

def advance (n : Nat) : Decoder Unit := fun s => .ok () ⟨s.it + n⟩

def lift {α : Type} : Except Fault α → Decoder α
  | .ok a => pure a
  | .error f => throw f

theorem lift_ok {α : Type} {x : Except Fault α} {s t : Scan} {a : α} (h : lift x s = .ok a t) :
    x = .ok a := by
  cases x with
  | ok b =>
    cases h
    rfl
  | error f => cases h

def isEnoughToRead (m : Machine) (it size : Nat) : Bool := decide (it + size ≤ m.input.length)

/-- The guard asks for `amount` bytes, the load takes eight. -/
def toUintValueFromVector (m : Machine) (amount : Nat) : Decoder Nat := do
  let it ← cursor
  if isEnoughToRead m it amount then
    let loaded ← lift (m.fetch it 8)
    advance amount
    pure (value loaded)
  else
    pure 0

def toUint8 (m : Machine) : Decoder Nat := do
  let val ← toUintValueFromVector m 1
  pure (val % 2 ^ 8)

def toUint16 (m : Machine) : Decoder Nat := do
  let val ← toUintValueFromVector m 2
  pure (val % 2 ^ 16)

def toUint32 (m : Machine) : Decoder Nat := do
  let val ← toUintValueFromVector m 4
  pure (val % 2 ^ 32)

def toUint64 (m : Machine) : Decoder Nat := do
  let val ← toUintValueFromVector m 8
  pure (val % 2 ^ 64)

def toCmd (m : Machine) : Decoder CmdCode := do
  let val ← toUint16 m
  pure (UInt16.ofNat val)

def fromUintToVector (data byteWidth : Nat) : List UInt8 :=
  (List.range byteWidth).map (fun i => UInt8.ofNat ((data &&& (0xFF <<< (i * 8))) >>> (i * 8)))

def fromUint8 (data : Nat) : List UInt8 := fromUintToVector (data % 2 ^ 8) 1

def fromUint16 (data : Nat) : List UInt8 := fromUintToVector (data % 2 ^ 16) 2

def fromUint32 (data : Nat) : List UInt8 := fromUintToVector (data % 2 ^ 32) 4

def fromUint64 (data : Nat) : List UInt8 := fromUintToVector (data % 2 ^ 64) 8

def fromBool (data : Bool) : List UInt8 := fromUint8 data.toNat

def doubleSize : Nat := 8

/-- `from_double`, for a double given by its bits, which it does not look at. -/
def fromDouble (_data : UInt64) : List UInt8 :=
  (List.range doubleSize).foldl (fun arr _ => arr ++ [0x00]) []

/-- The 16-bit integer the parser takes from a position, zero where two bytes do not remain. -/
def wordAt (input : List UInt8) (it : Nat) : Nat :=
  if it + 2 ≤ input.length then value ((input.drop it).take 2) else 0

/-- Where the cursor stands after that. -/
def afterWord (input : List UInt8) (it : Nat) : Nat :=
  if it + 2 ≤ input.length then it + 2 else it

def cmdAt (input : List UInt8) (it : Nat) : CmdCode := UInt16.ofNat (wordAt input it)

end ValueConverter

namespace Machine

theorem load_input (m : Machine) {pos : Nat} (h : pos < m.input.length) :
    m.load pos = some m.input[pos] := by
  rw [load, if_pos h, List.getElem?_eq_getElem h]

theorem fetch_ok {m : Machine} {pos n : Nat} (h : ∀ k < n, (m.load (pos + k)).isSome) :
    ∃ bs, m.fetch pos n = .ok bs := by
  induction n generalizing pos with
  | zero => exact ⟨[], rfl⟩
  | succ n ih =>
    obtain ⟨b, hb⟩ := Option.isSome_iff_exists.mp (h 0 (by omega))
    have hrest : ∀ k < n, (m.load (pos + 1 + k)).isSome := fun k hk => by
      simpa only [Nat.add_assoc, Nat.add_comm 1] using h (k + 1) (by omega)
    obtain ⟨bs, hbs⟩ := ih hrest
    rw [Nat.add_zero] at hb
    exact ⟨b :: bs, by simp only [fetch, hb, hbs, Except.map]⟩

theorem fetch_fails {m : Machine} {pos n : Nat} (h : ¬ ∀ k < n, (m.load (pos + k)).isSome) :
    ∃ p, m.fetch pos n = .error (.outOfRange p) := by
  induction n generalizing pos with
  | zero => exact absurd (fun k hk => absurd hk (Nat.not_lt_zero k)) h
  | succ n ih =>
    cases hl : m.load pos with
    | none => exact ⟨pos, by simp only [fetch, hl]⟩
    | some b =>
      have hrest : ¬ ∀ k < n, (m.load (pos + 1 + k)).isSome := by
        intro hall
        apply h
        intro k hk
        cases k with
        | zero => rw [Nat.add_zero, hl]; rfl
        | succ k =>
          rw [Nat.add_comm k, ← Nat.add_assoc]
          exact hall k (by omega)
      obtain ⟨p, hp⟩ := ih hrest
      exact ⟨p, by simp only [fetch, hl, hp, Except.map]⟩

theorem fetch_error {m : Machine} {pos n : Nat} {f : Fault} (h : m.fetch pos n = .error f) :
    ∃ p, f = .outOfRange p := by
  by_cases hall : ∀ k < n, (m.load (pos + k)).isSome
  · obtain ⟨bs, hbs⟩ := fetch_ok hall
    rw [hbs] at h
    cases h
  · obtain ⟨p, hp⟩ := fetch_fails hall
    rw [hp] at h
    cases h
    exact ⟨p, rfl⟩

theorem fetch_take {m : Machine} {pos n k : Nat} {bs : List UInt8} (h : m.fetch pos n = .ok bs)
    (hk : k ≤ n) (hpos : pos + k ≤ m.input.length) : bs.take k = (m.input.drop pos).take k := by
  induction n generalizing pos k bs with
  | zero =>
    have : k = 0 := by omega
    simp [this]
  | succ n ih =>
    cases k with
    | zero => simp
    | succ k =>
      have hlt : pos < m.input.length := by omega
      simp only [fetch, load_input m hlt] at h
      cases hf : m.fetch (pos + 1) n with
      | error g => simp [hf, Except.map] at h
      | ok cs =>
        simp only [hf, Except.map, Except.ok.injEq] at h
        subst h
        rw [List.take_succ_cons, ih hf (by omega) (by omega), List.drop_eq_getElem_cons hlt,
          List.take_succ_cons]

theorem fetch_length {m : Machine} {pos n : Nat} {bs : List UInt8} (h : m.fetch pos n = .ok bs) :
    bs.length = n := by
  induction n generalizing pos bs with
  | zero => cases h; rfl
  | succ n ih =>
    cases hl : m.load pos with
    | none => simp [fetch, hl] at h
    | some b =>
      cases hf : m.fetch (pos + 1) n with
      | error g => simp [fetch, hl, hf, Except.map] at h
      | ok cs =>
        simp only [fetch, hl, hf, Except.map, Except.ok.injEq] at h
        subst h
        rw [List.length_cons, ih hf]

theorem fetch_input {m : Machine} {pos n : Nat} (h : pos + n ≤ m.input.length) :
    m.fetch pos n = .ok ((m.input.drop pos).take n) := by
  have hload : ∀ k < n, (m.load (pos + k)).isSome := fun k hk => by
    rw [m.load_input (by omega)]
    rfl
  obtain ⟨bs, hbs⟩ := fetch_ok hload
  rw [hbs, ← fetch_take hbs le_rfl h, List.take_of_length_le (fetch_length hbs).le]

theorem load_server (input : List UInt8) (beyond : Nat → UInt8) (pos : Nat) :
    ((server input beyond).load pos).isSome := by
  rw [load]
  split
  · next h => rw [List.getElem?_eq_getElem h]; rfl
  · rfl

theorem load_strict (input : List UInt8) (pos : Nat) :
    ((strict input).load pos).isSome ↔ pos < input.length := by
  rw [load]
  split
  · next h => rw [List.getElem?_eq_getElem h]; exact iff_of_true rfl h
  · next h => exact iff_of_false (by simp [strict]) h

end Machine

namespace ValueConverter

theorem masked_byte (data i : Nat) :
    (data &&& (0xFF <<< (i * 8))) >>> (i * 8) = data >>> (i * 8) % 2 ^ 8 := by
  rw [Nat.shiftRight_and_distrib, Nat.shiftLeft_shiftRight]
  exact Nat.and_two_pow_sub_one_eq_mod _ 8

theorem shift_byte (data i : Nat) : data >>> ((i + 1) * 8) = (data / 256) >>> (i * 8) := by
  rw [Nat.add_mul, Nat.add_comm, Nat.shiftRight_add, Nat.shiftRight_eq_div_pow data]

theorem fromUintToVector_eq (data byteWidth : Nat) :
    fromUintToVector data byteWidth = bytes byteWidth data := by
  induction byteWidth generalizing data with
  | zero => rfl
  | succ w ih =>
    have hhead : UInt8.ofNat (data % 2 ^ 8) = UInt8.ofNat data := by
      rw [← UInt8.toNat_inj, UInt8.toNat_ofNat', UInt8.toNat_ofNat', Nat.mod_mod]
    simp only [fromUintToVector, masked_byte] at ih ⊢
    rw [List.range_succ_eq_map, List.map_cons, List.map_map, bytes, ← ih (data / 256),
      Nat.zero_mul, Nat.shiftRight_zero, hhead]
    congr 1
    apply List.map_congr_left
    intro i _
    rw [Function.comp_apply, shift_byte]

theorem fromUint8_eq (data : Nat) : fromUint8 data = bytes 1 data := by
  rw [fromUint8, fromUintToVector_eq]
  exact bytes_mod 1 data

theorem fromUint16_eq (data : Nat) : fromUint16 data = bytes 2 data := by
  rw [fromUint16, fromUintToVector_eq]
  exact bytes_mod 2 data

theorem fromUint32_eq (data : Nat) : fromUint32 data = bytes 4 data := by
  rw [fromUint32, fromUintToVector_eq]
  exact bytes_mod 4 data

theorem fromUint64_eq (data : Nat) : fromUint64 data = bytes 8 data := by
  rw [fromUint64, fromUintToVector_eq]
  exact bytes_mod 8 data

theorem toUintValueFromVector_enough {m : Machine} {amount : Nat} {s : Scan} {loaded : List UInt8}
    (h : s.it + amount ≤ m.input.length) (hloaded : m.fetch s.it 8 = .ok loaded) :
    toUintValueFromVector m amount s =
      .ok (value loaded) ⟨s.it + amount⟩ := by
  change (if isEnoughToRead m s.it amount then
    (lift (m.fetch s.it 8) >>= fun loaded => _) else (pure 0 : Decoder Nat)) _ = _
  rw [isEnoughToRead, decide_eq_true h, if_pos rfl, hloaded]
  rfl

theorem toUintValueFromVector_fault {m : Machine} {amount : Nat} {s : Scan} {f : Fault}
    (h : s.it + amount ≤ m.input.length) (hload : m.fetch s.it 8 = .error f) :
    toUintValueFromVector m amount s = .error f s := by
  change (if isEnoughToRead m s.it amount then
    (lift (m.fetch s.it 8) >>= fun loaded => _) else (pure 0 : Decoder Nat)) _ = _
  rw [isEnoughToRead, decide_eq_true h, if_pos rfl, hload]
  rfl

theorem toUintValueFromVector_short {m : Machine} {amount : Nat} {s : Scan}
    (h : m.input.length < s.it + amount) :
    toUintValueFromVector m amount s = .ok 0 s := by
  change (if isEnoughToRead m s.it amount then _ else (pure 0 : Decoder Nat)) _ = _
  rw [isEnoughToRead, decide_eq_false (by omega), if_neg (by simp)]
  rfl

theorem toUint16_short {m : Machine} {s : Scan} (h : m.input.length < s.it + 2) :
    toUint16 m s = .ok 0 s := by
  rw [toUint16, bind_ok (toUintValueFromVector_short h)]
  rfl

/-- Whatever was read as an integer of two bytes is what the vector has there. -/
theorem toUint16_ok {m : Machine} {s t : Scan} {val : Nat} (h : toUint16 m s = .ok val t) :
    val = wordAt m.input s.it := by
  obtain ⟨v, u, hread, h⟩ := bind_eq_ok h
  cases h
  by_cases henough : s.it + 2 ≤ m.input.length
  · cases hload : m.fetch s.it 8 with
    | ok loaded =>
      rw [toUintValueFromVector_enough henough hload] at hread
      cases hread
      rw [wordAt, if_pos henough, ← Machine.fetch_take hload (by norm_num) henough]
      exact value_mod loaded 2
    | error f =>
      rw [toUintValueFromVector_fault henough hload] at hread
      cases hread
  · rw [toUintValueFromVector_short (by omega)] at hread
    cases hread
    rw [wordAt, if_neg henough, Nat.zero_mod]

theorem wordAt_lt (input : List UInt8) (it : Nat) : wordAt input it < 2 ^ 16 := by
  rw [wordAt]
  split
  · have h := value_lt ((input.drop it).take 2)
    have hl : ((input.drop it).take 2).length ≤ 2 := List.length_take_le _ _
    exact h.trans_le (Nat.pow_le_pow_right (by norm_num) hl)
  · norm_num

end ValueConverter

end GlobalAgenda
