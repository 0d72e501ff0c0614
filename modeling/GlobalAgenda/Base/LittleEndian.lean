import Mathlib.Data.Nat.Digits.Defs
import Mathlib.Tactic.Ring

namespace GlobalAgenda.Base.LittleEndian

/-- The number whose bytes, least significant first, are the given ones. -/
def value (bs : List UInt8) : Nat := Nat.ofDigits 256 (bs.map UInt8.toNat)

def bytes : Nat → Nat → List UInt8
  | 0, _ => []
  | w + 1, n => UInt8.ofNat n :: bytes w (n / 256)

@[simp] theorem value_nil : value [] = 0 := rfl

@[simp] theorem value_cons (b : UInt8) (bs : List UInt8) :
    value (b :: bs) = b.toNat + 256 * value bs := by
  simp [value, Nat.ofDigits_cons]

theorem value_append (bs cs : List UInt8) :
    value (bs ++ cs) = value bs + 256 ^ bs.length * value cs := by
  simp [value, Nat.ofDigits_append]

@[simp] theorem length_bytes (w n : Nat) : (bytes w n).length = w := by
  induction w generalizing n with
  | zero => rfl
  | succ w ih => simp only [bytes, List.length_cons, ih]

theorem digits_lt (bs : List UInt8) : ∀ d ∈ bs.map UInt8.toNat, d < 256 := by
  intro d hd
  obtain ⟨b, _, rfl⟩ := List.mem_map.mp hd
  exact b.toNat_lt

theorem value_lt (bs : List UInt8) : value bs < 256 ^ bs.length := by
  simpa [value] using Nat.ofDigits_lt_base_pow_length (by norm_num) (digits_lt bs)

theorem value_bytes (w n : Nat) : value (bytes w n) = n % 256 ^ w := by
  induction w generalizing n with
  | zero => simp [bytes, Nat.mod_one]
  | succ w ih =>
    have hb : (UInt8.ofNat n).toNat = n % 256 := UInt8.toNat_ofNat'
    rw [bytes, value_cons, ih, hb, Nat.pow_succ', Nat.mod_mul]

theorem value_bytes_of_lt {w n : Nat} (h : n < 256 ^ w) : value (bytes w n) = n := by
  rw [value_bytes, Nat.mod_eq_of_lt h]

theorem bytes_value (bs : List UInt8) : bytes bs.length (value bs) = bs := by
  induction bs with
  | nil => rfl
  | cons b bs ih =>
    have hb : UInt8.ofNat (b.toNat + 256 * value bs) = b := by
      rw [← UInt8.toNat_inj, UInt8.toNat_ofNat', Nat.add_mul_mod_self_left,
        Nat.mod_eq_of_lt b.toNat_lt]
    have hq : (b.toNat + 256 * value bs) / 256 = value bs := by
      have := b.toNat_lt
      omega
    rw [List.length_cons, value_cons, bytes, hb, hq, ih]

theorem value_mod (bs : List UInt8) (w : Nat) : value bs % 256 ^ w = value (bs.take w) := by
  rw [value, Nat.ofDigits_mod_pow_eq_ofDigits_take w (by norm_num) _ (digits_lt bs), value,
    List.map_take]

theorem value_takeD (bs : List UInt8) (w : Nat) : value (bs.takeD w 0) = value bs % 256 ^ w := by
  induction w generalizing bs with
  | zero => simp [Nat.mod_one]
  | succ w ih =>
    cases bs with
    | nil =>
      have hnil := ih []
      rw [value_nil, Nat.zero_mod] at hnil ⊢
      change value (0 :: List.takeD w [] 0) = 0
      rw [value_cons, hnil]
      rfl
    | cons b bs =>
      have hb : (b.toNat + 256 * value bs) % 256 = b.toNat := by
        rw [Nat.add_mul_mod_self_left, Nat.mod_eq_of_lt b.toNat_lt]
      have hq : (b.toNat + 256 * value bs) / 256 = value bs := by
        have := b.toNat_lt
        omega
      change value (b :: List.takeD w bs 0) = _
      rw [value_cons, value_cons, ih, Nat.pow_succ', Nat.mod_mul, hb, hq]

theorem bytes_mod (w n : Nat) : bytes w (n % 256 ^ w) = bytes w n := by
  have h := bytes_value (bytes w n)
  rwa [length_bytes, value_bytes] at h

end GlobalAgenda.Base.LittleEndian
