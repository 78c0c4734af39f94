import Mathlib.Algebra.Order.Group.Nat
import Mathlib.Tactic.Ring

/-!
# Integers in bytes

An unsigned integer in a fixed number of bytes, the highest first, and back.
-/

namespace JenKea.Bytes

/-- `n` in `w` bytes, the highest first. -/
def pack : ℕ → ℕ → List UInt8
  | 0, _ => []
  | w + 1, n => pack w (n / 256) ++ [UInt8.ofNat n]

/-- The integer that the bytes stand for. -/
def unpack (bs : List UInt8) : ℕ := bs.foldl (fun acc b => acc * 256 + b.toNat) 0

@[simp] theorem length_pack (w n : ℕ) : (pack w n).length = w := by
  induction w generalizing n with
  | zero => rfl
  | succ w ih => rw [pack, List.length_append, ih, List.length_singleton]

theorem unpack_concat (bs : List UInt8) (b : UInt8) : unpack (bs ++ [b]) = unpack bs * 256 + b.toNat := by
  unfold unpack
  rw [List.foldl_append]
  rfl

/-- What does not fit is lost. -/
theorem unpack_pack (w n : ℕ) : unpack (pack w n) = n % 256 ^ w := by
  induction w generalizing n with
  | zero => rw [pow_zero, Nat.mod_one]; rfl
  | succ w ih =>
    have hbyte : (UInt8.ofNat n).toNat = n % 256 := UInt8.toNat_ofNat'
    rw [pack, unpack_concat, ih, hbyte, pow_succ', Nat.mod_mul]
    ring

theorem unpack_pack_of_lt {w n : ℕ} (h : n < 256 ^ w) : unpack (pack w n) = n := by
  rw [unpack_pack, Nat.mod_eq_of_lt h]

theorem pack_inj {w m n : ℕ} (hm : m < 256 ^ w) (hn : n < 256 ^ w) (h : pack w m = pack w n) : m = n := by
  rw [← unpack_pack_of_lt hm, h, unpack_pack_of_lt hn]

end JenKea.Bytes
