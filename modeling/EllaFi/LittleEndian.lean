import Mathlib.Algebra.Group.Nat.Defs

/-!
Numbers as bytes, the lowest first. Any number of bytes holds the numbers below its power
of 256: they are read back (`combine_split`), so no two of them are written alike
(`split_inj`).
-/
namespace EllaFi.LittleEndian

/-- The lowest `n` bytes of a number. -/
def split : Nat → Nat → List UInt8
  | 0, _ => []
  | n + 1, value => .ofNat value :: split n (value / 256)

def combine : List UInt8 → Nat
  | [] => 0
  | b :: rest => b.toNat + 256 * combine rest

@[simp] theorem length_split (n value : Nat) : (split n value).length = n := by
  induction n generalizing value with
  | zero => rfl
  | succ n ih => rw [split, List.length_cons, ih]

theorem combine_split {n value : Nat} (fits : value < 256 ^ n) : combine (split n value) = value := by
  induction n generalizing value with
  | zero =>
    rw [Nat.pow_zero] at fits
    obtain rfl : value = 0 := by omega
    rfl
  | succ n ih =>
    rw [Nat.pow_succ] at fits
    rw [split, combine, ih (by omega), UInt8.toNat_ofNat']
    omega

theorem combine_append (low high : List UInt8) : combine (low ++ high) = combine low + 256 ^ low.length * combine high := by
  induction low with
  | nil => simp [combine]
  | cons b low ih =>
    rw [List.cons_append, combine, combine, ih, List.length_cons, Nat.pow_succ, Nat.mul_add, Nat.mul_comm (256 ^ _) 256,
      Nat.mul_assoc, Nat.add_assoc]

theorem split_inj {n value other : Nat} (fits : value < 256 ^ n) (otherFits : other < 256 ^ n)
    (same : split n value = split n other) : value = other := by
  rw [← combine_split fits, same, combine_split otherFits]

end EllaFi.LittleEndian
